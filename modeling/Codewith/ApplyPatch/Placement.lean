import Codewith.Lib.Edits
import Codewith.Lib.Result
import Codewith.ApplyPatch.Hunk

/-!
# Where chunks are placed

A chunk is placed at or after the line that has been reached, with two exceptions: the old
lines of an end-of-file chunk are looked for at the end alone, and added lines without old
ones go to the end, before a last line that is empty.  Neither looks at what has been placed
before.  The replacements are apart, and what is applied is their splice, as long as neither
gets in the way of another chunk.
-/

namespace Codewith.ApplyPatch

open Lib

/-! ### What is sought -/

theorem seekBy_bounds {key : Text → Text} {lines pattern : List Text} {searchStart idx : Nat}
    (hlength : pattern.length ≤ lines.length)
    (h : seekBy key lines pattern searchStart = some idx) :
    searchStart ≤ idx ∧ idx + pattern.length ≤ lines.length := by
  have hmem := List.mem_of_find?_eq_some h
  rw [List.mem_range'_1] at hmem
  omega

/-- A pattern is found at or after the start, or at the end. -/
theorem seekSequence_bounds {lines pattern : List Text} {start idx : Nat} {eof : Bool}
    (hpattern : pattern ≠ []) (h : seekSequence lines pattern start eof = some idx) :
    idx + pattern.length ≤ lines.length ∧ (eof = false → start ≤ idx) ∧
      (eof = true → idx + pattern.length = lines.length) := by
  unfold seekSequence at h
  rw [if_neg hpattern] at h
  split at h
  · simp at h
  rename_i hlong
  have hlength : pattern.length ≤ lines.length := Nat.le_of_not_lt hlong
  dsimp only at h
  have hbounds : (if eof = true then lines.length - pattern.length else start) ≤ idx ∧
      idx + pattern.length ≤ lines.length := by
    simp only [Option.or_eq_some_iff] at h
    rcases h with h | ⟨-, h | ⟨-, h | ⟨-, h⟩⟩⟩ <;> exact seekBy_bounds hlength h
  refine ⟨hbounds.2, ?_, ?_⟩
  · rintro rfl
    simpa using hbounds.1
  · rintro rfl
    simp only [if_true] at hbounds
    omega

/-! ### One chunk -/

def insertionIdx (originalLines : List Text) : Nat :=
  if endsInEmptyLine originalLines then originalLines.length - 1 else originalLines.length

/-- The replacement for a chunk, sought from a line on, and the line that is reached. -/
inductive Placed (originalLines : List Text) (lineIndex : Nat) (chunk : UpdateFileChunk) :
    Replacement → Nat → Prop
  | addition (h : chunk.oldLines = []) :
      Placed originalLines lineIndex chunk ⟨insertionIdx originalLines, 0, chunk.newLines⟩ lineIndex
  | replacement {found : Replacement} (hold : chunk.oldLines ≠ [])
      (h : seekOldLines originalLines lineIndex chunk = some found) :
      Placed originalLines lineIndex chunk found (found.startIdx + found.oldLen)

theorem collectReplacements_cons {originalLines : List Text} {path : AbsolutePathBuf}
    {chunk : UpdateFileChunk} {chunks : List UpdateFileChunk} {lineIndex : Nat}
    {replacements : List Replacement}
    (h : collectReplacements originalLines path (chunk :: chunks) lineIndex = .ok replacements) :
    ∃ reached placed next rest,
      seekContext originalLines path lineIndex chunk.changeContext = .ok reached ∧
        Placed originalLines reached chunk placed next ∧
        collectReplacements originalLines path chunks next = .ok rest ∧
        replacements = placed :: rest := by
  unfold collectReplacements at h
  rw [Result.bind_eq_ok] at h
  obtain ⟨reached, hcontext, h⟩ := h
  split at h
  · rename_i hold
    dsimp only at h
    rw [Result.bind_eq_ok] at h
    obtain ⟨rest, hrest, hpure⟩ := h
    exact ⟨reached, _, reached, rest, hcontext, .addition hold, hrest,
      (Result.pure_eq_ok.mp hpure).symm⟩
  · rename_i hold
    split at h
    · rename_i found hfound
      rw [Result.bind_eq_ok] at h
      obtain ⟨rest, hrest, hpure⟩ := h
      exact ⟨reached, found, _, rest, hcontext, .replacement hold hfound, hrest,
        (Result.pure_eq_ok.mp hpure).symm⟩
    · simp [throw, throwThe, MonadExceptOf.throw] at h

theorem seekContext_bounds {originalLines : List Text} {path : AbsolutePathBuf} {lineIndex : Nat}
    {changeContext : Option Text} {reached : Nat} (hline : lineIndex ≤ originalLines.length)
    (h : seekContext originalLines path lineIndex changeContext = .ok reached) :
    lineIndex ≤ reached ∧ reached ≤ originalLines.length := by
  unfold seekContext at h
  split at h
  · cases h
    exact ⟨le_rfl, hline⟩
  · split at h
    · rename_i idx hidx
      cases h
      obtain ⟨hend, hstart, -⟩ := seekSequence_bounds (by simp) hidx
      rw [List.length_singleton] at hend
      exact ⟨(hstart rfl).trans (Nat.le_succ idx), hend⟩
    · simp at h

/-- Old lines are found at or after the line reached, or at the end, or nothing of them is left
to be found. -/
theorem seekOldLines_bounds {originalLines : List Text} {lineIndex : Nat} {chunk : UpdateFileChunk}
    {found : Replacement} (hline : lineIndex ≤ originalLines.length) (hold : chunk.oldLines ≠ [])
    (h : seekOldLines originalLines lineIndex chunk = some found) :
    found.startIdx + found.oldLen ≤ originalLines.length ∧
      (found.oldLen = 0 → found.startIdx = lineIndex) ∧
      (0 < found.oldLen → chunk.isEndOfFile = false → lineIndex ≤ found.startIdx) ∧
      (0 < found.oldLen → chunk.isEndOfFile = true →
        found.startIdx + found.oldLen = originalLines.length) := by
  unfold seekOldLines at h
  split at h
  · rename_i idx hidx
    rw [Option.some.injEq] at h
    subst h
    obtain ⟨hend, hstart, heof⟩ := seekSequence_bounds hold hidx
    have hpos : chunk.oldLines.length ≠ 0 := fun h => hold (List.length_eq_zero_iff.mp h)
    exact ⟨hend, fun h => absurd h hpos, fun _ => hstart, fun _ => heof⟩
  · split at h
    · dsimp only at h
      rw [Option.map_eq_some_iff] at h
      obtain ⟨idx, hidx, rfl⟩ := h
      by_cases hnil : chunk.oldLines.dropLast = []
      · have hsame : lineIndex = idx := by simpa [seekSequence, hnil] using hidx
        subst hsame
        simp [hnil, hline]
      · obtain ⟨hend, hstart, heof⟩ := seekSequence_bounds hnil hidx
        have hpos : chunk.oldLines.dropLast.length ≠ 0 :=
          fun h => hnil (List.length_eq_zero_iff.mp h)
        exact ⟨hend, fun h => absurd h hpos, fun _ => hstart, fun _ => heof⟩
    · simp at h

theorem insertionIdx_le (originalLines : List Text) :
    insertionIdx originalLines ≤ originalLines.length := by
  unfold insertionIdx
  split <;> omega

theorem Placed.bounds {originalLines : List Text} {lineIndex next : Nat} {chunk : UpdateFileChunk}
    {placed : Replacement} (h : Placed originalLines lineIndex chunk placed next)
    (hline : lineIndex ≤ originalLines.length) :
    placed.startIdx + placed.oldLen ≤ originalLines.length ∧ lineIndex ≤ next ∧
      next ≤ originalLines.length := by
  cases h with
  | addition hold => exact ⟨insertionIdx_le originalLines, le_rfl, hline⟩
  | replacement hold hfound =>
      obtain ⟨hwithin, hnone, hstart, heof⟩ := seekOldLines_bounds hline hold hfound
      refine ⟨hwithin, ?_, hwithin⟩
      rcases Nat.eq_zero_or_pos placed.oldLen with hzero | hpos
      · have := hnone hzero
        omega
      · cases hcase : chunk.isEndOfFile with
        | false =>
            have := hstart hpos hcase
            omega
        | true =>
            have := heof hpos hcase
            omega

/-- Every replacement lies within the lines. -/
theorem collectReplacements_within {originalLines : List Text} {path : AbsolutePathBuf}
    {chunks : List UpdateFileChunk} {lineIndex : Nat} {replacements : List Replacement}
    (hline : lineIndex ≤ originalLines.length)
    (h : collectReplacements originalLines path chunks lineIndex = .ok replacements) :
    ∀ r ∈ replacements, r.startIdx + r.oldLen ≤ originalLines.length := by
  induction chunks generalizing lineIndex replacements with
  | nil =>
      simp only [collectReplacements, Except.ok.injEq] at h
      simp [← h]
  | cons chunk chunks ih =>
      obtain ⟨reached, placed, next, rest, hcontext, hplaced, hrest, rfl⟩ :=
        collectReplacements_cons h
      obtain ⟨-, hreached⟩ := seekContext_bounds hline hcontext
      obtain ⟨hwithin, -, hnext⟩ := hplaced.bounds hreached
      rw [List.forall_mem_cons]
      exact ⟨hwithin, ih hnext hrest⟩

theorem computeReplacements_within {originalLines : List Text} {path : AbsolutePathBuf}
    {chunks : List UpdateFileChunk} {replacements : List Replacement}
    (h : computeReplacements originalLines path chunks = .ok replacements) :
    ∀ r ∈ replacements, r.startIdx + r.oldLen ≤ originalLines.length := by
  unfold computeReplacements at h
  rw [Result.bind_eq_ok] at h
  obtain ⟨collected, hcollected, hsorted⟩ := h
  rw [Result.pure_eq_ok] at hsorted
  subst hsorted
  intro r hr
  rw [List.mem_insertionSort] at hr
  exact collectReplacements_within (Nat.zero_le _) hcollected r hr

/-- They are sorted by where they start. -/
theorem computeReplacements_sorted {originalLines : List Text} {path : AbsolutePathBuf}
    {chunks : List UpdateFileChunk} {replacements : List Replacement}
    (h : computeReplacements originalLines path chunks = .ok replacements) :
    replacements.Pairwise fun q r => q.startIdx ≤ r.startIdx := by
  unfold computeReplacements at h
  rw [Result.bind_eq_ok] at h
  obtain ⟨collected, -, hsorted⟩ := h
  rw [Result.pure_eq_ok] at hsorted
  subst hsorted
  exact List.pairwise_insertionSort (fun q r : Replacement => q.startIdx ≤ r.startIdx) collected

/-! ### Applying -/

def Replacement.edit (r : Replacement) : Edit Text := ⟨r.startIdx, r.oldLen, r.newLines⟩

theorem removeLines_eq {startIdx : Nat} {lines : List Text} (h : startIdx ≤ lines.length)
    (oldLen : Nat) :
    removeLines startIdx oldLen lines = lines.take startIdx ++ lines.drop (startIdx + oldLen) := by
  induction oldLen generalizing lines with
  | zero => simp [removeLines]
  | succ oldLen ih =>
      unfold removeLines
      split
      · rename_i hlt
        rw [ih (by rw [List.length_eraseIdx_of_lt hlt]; omega), List.eraseIdx_eq_take_drop_succ,
          List.take_append_of_le_length (by rw [List.length_take]; omega), List.take_take,
          Nat.min_self, List.drop_append, List.length_take, Nat.min_eq_left h,
          List.drop_of_length_le (by rw [List.length_take]; omega), List.nil_append,
          List.drop_drop]
        congr 2
        omega
      · rename_i hge
        rw [ih h, List.drop_of_length_le (by omega), List.drop_of_length_le (by omega)]

theorem insertIdx_append (before after : List Text) (line : Text) :
    (before ++ after).insertIdx before.length line = before ++ line :: after := by
  induction before with
  | nil => simp
  | cons first before ih => simp [ih]

theorem insertLines_eq {startIdx : Nat} {lines : List Text} (h : startIdx ≤ lines.length)
    (newSegment : List Text) :
    insertLines startIdx newSegment lines =
      lines.take startIdx ++ newSegment ++ lines.drop startIdx := by
  unfold insertLines
  -- the lines inserted so far stand before the next place
  have hgeneral : ∀ (segment done : List Text) (k : Nat), k = done.length →
      (segment.zipIdx k).foldl (fun lines entry => lines.insertIdx (startIdx + entry.2) entry.1)
        (lines.take startIdx ++ done ++ lines.drop startIdx) =
      lines.take startIdx ++ (done ++ segment) ++ lines.drop startIdx := by
    intro segment
    induction segment with
    | nil => simp
    | cons line segment ih =>
        rintro done k rfl
        have hlength : (lines.take startIdx ++ done).length = startIdx + done.length := by
          rw [List.length_append, List.length_take, Nat.min_eq_left h]
        have hnext := ih (done ++ [line]) (done.length + 1) (by simp)
        rw [List.zipIdx_cons, List.foldl_cons]
        dsimp only
        rw [← hlength, insertIdx_append]
        simpa using hnext
  have h0 := hgeneral newSegment [] 0 rfl
  simpa using h0

theorem startIdx_le_removeLines {startIdx : Nat} {lines : List Text}
    (h : startIdx ≤ lines.length) (oldLen : Nat) :
    startIdx ≤ (removeLines startIdx oldLen lines).length := by
  rw [removeLines_eq h, List.length_append, List.length_take]
  omega

/-- Later replacements leave what comes before them. -/
theorem startIdx_le_applyAll {lines : List Text} {r : Replacement} {replacements : List Replacement}
    (hwithin : ∀ q ∈ r :: replacements, q.startIdx + q.oldLen ≤ lines.length)
    (hsorted : (r :: replacements).Pairwise fun q r => q.startIdx ≤ r.startIdx) :
    r.startIdx ≤ (Edit.applyAll (replacements.map Replacement.edit) lines).length := by
  rw [List.forall_mem_cons] at hwithin
  rw [List.pairwise_cons] at hsorted
  refine (Edit.take_applyAll ?_ (hsorted.2.map _ fun _ _ h => h) (by omega)).1
  intro e he
  obtain ⟨q, hq, rfl⟩ := List.mem_map.mp he
  have hend := hwithin.2 q hq
  exact ⟨hsorted.1 q hq, by unfold Replacement.edit; dsimp only; omega⟩

theorem applyReplacements_eq {lines : List Text} {replacements : List Replacement}
    (hwithin : ∀ r ∈ replacements, r.startIdx + r.oldLen ≤ lines.length)
    (hsorted : replacements.Pairwise fun q r => q.startIdx ≤ r.startIdx) :
    applyReplacements lines replacements =
      Edit.applyAll (replacements.map Replacement.edit) lines := by
  unfold applyReplacements
  rw [List.foldl_reverse]
  induction replacements with
  | nil => rfl
  | cons r replacements ih =>
      have hstart := startIdx_le_applyAll hwithin hsorted
      rw [List.forall_mem_cons] at hwithin
      rw [List.pairwise_cons] at hsorted
      rw [List.foldr_cons, ih hwithin.2 hsorted.2,
        insertLines_eq (startIdx_le_removeLines hstart _), removeLines_eq hstart]
      have htake : ((Edit.applyAll (replacements.map Replacement.edit) lines).take
          r.startIdx).length =
          r.startIdx := by
        rw [List.length_take, Nat.min_eq_left hstart]
      rw [List.take_append_of_le_length htake.ge, List.take_take, Nat.min_self,
        List.drop_append_of_le_length htake.ge, List.drop_of_length_le htake.le, List.nil_append]
      rfl

/-! ### Chunks that get in each other's way -/

/-- The replacements lie apart within the lines, and what is applied is their splice. -/
structure WellPlaced (lines : List Text) (replacements : List Replacement) : Prop where
  sorted : replacements.Pairwise fun q r => q.startIdx ≤ r.startIdx
  within : ∀ r ∈ replacements, r.startIdx + r.oldLen ≤ lines.length
  apart : replacements.Pairwise fun q r => q.edit.Apart r.edit
  spliced : applyReplacements lines replacements =
    Edit.splice lines (replacements.map Replacement.edit)

def CoversLastLine (lines : List Text) (r : Replacement) : Prop :=
  0 < r.oldLen ∧ r.startIdx + r.oldLen = lines.length

/-- Added lines go before an empty last line.  If that line is replaced already, then alone, and
the added lines are empty too. -/
def AdditionFits (lines : List Text) (earlier : List Replacement) (newLines : List Text) : Prop :=
  endsInEmptyLine lines = true → ∀ r ∈ earlier, CoversLastLine lines r →
    r.oldLen = 1 ∧ ∀ line ∈ newLines, line = []

/-- The lines of an end-of-file chunk do not reach back over what is replaced or inserted
already. -/
def EndOfFileFits (lines : List Text) (earlier : List Replacement) (found : Replacement) : Prop :=
  ∀ r ∈ earlier, r.startIdx + r.oldLen ≤ found.startIdx ∨
    r.oldLen = 0 ∧ r.startIdx = lines.length

/-- An empty last line before which lines are added is not replaced together with others. -/
def LastLineFits (lines : List Text) (earlier : List Replacement) (found : Replacement) : Prop :=
  endsInEmptyLine lines = true → CoversLastLine lines found →
    found.oldLen = 1 ∨ ∀ r ∈ earlier, ¬ (r.oldLen = 0 ∧ r.startIdx = insertionIdx lines)

def ChunkFits (lines : List Text) (earlier : List Replacement) (lineIndex : Nat)
    (chunk : UpdateFileChunk) : Prop :=
  if chunk.oldLines = [] then AdditionFits lines earlier chunk.newLines
  else ∀ found, seekOldLines lines lineIndex chunk = some found → 0 < found.oldLen →
    if chunk.isEndOfFile then EndOfFileFits lines earlier found
    else LastLineFits lines earlier found

/-- No chunk gets in the way of those before it, from the state of the loop on. -/
def ChunksFit (lines : List Text) (path : AbsolutePathBuf) :
    List UpdateFileChunk → Nat → List Replacement → Prop
  | [], _, _ => True
  | chunk :: chunks, lineIndex, earlier =>
      ∀ reached, seekContext lines path lineIndex chunk.changeContext = .ok reached →
        ChunkFits lines earlier reached chunk ∧
          ∀ placed next, Placed lines reached chunk placed next →
            ChunksFit lines path chunks next (earlier ++ [placed])

/-- A later replacement is apart, and no line is lost where an earlier one starts. -/
def Fits (q r : Replacement) : Prop :=
  q.edit.Apart r.edit ∧ (q.edit.Late r.edit → ∀ line ∈ r.newLines, line = [])

/-- What the loop keeps: replaced lines have been passed. -/
def Passed (lines : List Text) (lineIndex : Nat) (r : Replacement) : Prop :=
  r.startIdx + r.oldLen ≤ lines.length ∧
    (r.startIdx + r.oldLen ≤ lineIndex ∨ r.oldLen = 0 ∧ r.startIdx = insertionIdx lines)

theorem Passed.mono {lines : List Text} {lineIndex next : Nat} {r : Replacement}
    (h : Passed lines lineIndex r) (hle : lineIndex ≤ next) : Passed lines next r := by
  unfold Passed at h ⊢
  omega

theorem Placed.passed {lines : List Text} {lineIndex next : Nat} {chunk : UpdateFileChunk}
    {placed : Replacement} (h : Placed lines lineIndex chunk placed next)
    (hline : lineIndex ≤ lines.length) : Passed lines next placed := by
  have hbounds := h.bounds hline
  cases h with
  | addition hold => exact ⟨hbounds.1, .inr ⟨rfl, rfl⟩⟩
  | replacement hold hfound => exact ⟨hbounds.1, .inl le_rfl⟩

theorem endsInEmptyLine_length {lines : List Text} (h : endsInEmptyLine lines = true) :
    insertionIdx lines + 1 = lines.length := by
  unfold insertionIdx
  rw [if_pos h]
  rcases lines with _ | ⟨line, lines⟩
  · simp [endsInEmptyLine] at h
  · simp

theorem insertionIdx_of_not {lines : List Text} (h : ¬ endsInEmptyLine lines = true) :
    insertionIdx lines = lines.length := if_neg h

theorem fits_iff {q r : Replacement} :
    Fits q r ↔
      (q.startIdx + q.oldLen ≤ r.startIdx ∨ r.startIdx + r.oldLen ≤ q.startIdx) ∧
        (q.startIdx = r.startIdx ∧ 0 < q.oldLen ∧ r.oldLen = 0 → ∀ line ∈ r.newLines, line = []) :=
  Iff.rfl

theorem additionFits_iff {lines newLines : List Text} {earlier : List Replacement}
    (hearlier : ∀ r ∈ earlier, r.startIdx + r.oldLen ≤ lines.length) :
    AdditionFits lines earlier newLines ↔
      ∀ r ∈ earlier, Fits r ⟨insertionIdx lines, 0, newLines⟩ := by
  unfold AdditionFits CoversLastLine
  by_cases hempty : endsInEmptyLine lines = true
  · have hidx := endsInEmptyLine_length hempty
    simp only [hempty, forall_const]
    refine forall₂_congr fun r hr => ?_
    have hwithin := hearlier r hr
    rw [fits_iff]
    dsimp only
    constructor
    · intro h
      refine ⟨by omega, ?_⟩
      rintro ⟨hsame, hpos, -⟩
      exact (h ⟨hpos, by omega⟩).2
    · rintro ⟨hapart, hblank⟩ ⟨hpos, hend⟩
      exact ⟨by omega, hblank ⟨by omega, hpos, rfl⟩⟩
  · have hidx := insertionIdx_of_not hempty
    simp only [hempty, Bool.false_eq_true, false_implies, true_iff]
    intro r hr
    have hwithin := hearlier r hr
    rw [fits_iff]
    exact ⟨.inl (by dsimp only; omega), by dsimp only; omega⟩

theorem endOfFileFits_iff {lines : List Text} {earlier : List Replacement} {found : Replacement}
    (hpos : 0 < found.oldLen) (hend : found.startIdx + found.oldLen = lines.length)
    (hearlier : ∀ r ∈ earlier, r.startIdx + r.oldLen ≤ lines.length) :
    EndOfFileFits lines earlier found ↔ ∀ r ∈ earlier, Fits r found := by
  unfold EndOfFileFits
  refine forall₂_congr fun r hr => ?_
  have hwithin := hearlier r hr
  rw [fits_iff]
  constructor
  · intro h
    exact ⟨by omega, by omega⟩
  · rintro ⟨hapart, -⟩
    omega

theorem lastLineFits_iff {lines : List Text} {earlier : List Replacement} {found : Replacement}
    {lineIndex : Nat} (hpos : 0 < found.oldLen) (hstart : lineIndex ≤ found.startIdx)
    (hwithin : found.startIdx + found.oldLen ≤ lines.length)
    (hearlier : ∀ r ∈ earlier, Passed lines lineIndex r) :
    LastLineFits lines earlier found ↔ ∀ r ∈ earlier, Fits r found := by
  unfold LastLineFits CoversLastLine
  have hfits : ∀ r ∈ earlier, Fits r found ↔
      (r.oldLen = 0 ∧ r.startIdx = insertionIdx lines →
        r.startIdx ≤ found.startIdx ∨ found.startIdx + found.oldLen ≤ r.startIdx) := by
    intro r hr
    obtain ⟨hrwithin, hpassed⟩ := hearlier r hr
    rw [fits_iff]
    constructor
    · rintro ⟨hapart, -⟩ ⟨hzero, -⟩
      omega
    · intro h
      exact ⟨by omega, by omega⟩
  rw [forall₂_congr hfits]
  by_cases hempty : endsInEmptyLine lines = true
  · have hidx := endsInEmptyLine_length hempty
    simp only [hempty, forall_const]
    constructor
    · rintro h r hr ⟨hzero, hplace⟩
      by_cases hcover : found.startIdx + found.oldLen = lines.length
      · rcases h ⟨hpos, hcover⟩ with hone | hnone
        · omega
        · exact absurd ⟨hzero, hplace⟩ (hnone r hr)
      · omega
    · rintro h ⟨-, hcover⟩
      by_cases hone : found.oldLen = 1
      · exact .inl hone
      · right
        rintro r hr ⟨hzero, hplace⟩
        have := h r hr ⟨hzero, hplace⟩
        omega
  · have hidx := insertionIdx_of_not hempty
    simp only [hempty, Bool.false_eq_true, false_implies, true_iff]
    rintro r hr ⟨hzero, hplace⟩
    right
    omega

/-- A chunk fits if its replacement does, after every earlier one. -/
theorem chunkFits_iff {lines : List Text} {lineIndex next : Nat} {chunk : UpdateFileChunk}
    {placed : Replacement} {earlier : List Replacement} (hline : lineIndex ≤ lines.length)
    (hplaced : Placed lines lineIndex chunk placed next)
    (hearlier : ∀ r ∈ earlier, Passed lines lineIndex r) :
    ChunkFits lines earlier lineIndex chunk ↔ ∀ r ∈ earlier, Fits r placed := by
  unfold ChunkFits
  cases hplaced with
  | addition hold =>
      rw [if_pos hold]
      exact additionFits_iff fun r hr => (hearlier r hr).1
  | replacement hold hfound =>
      obtain ⟨hwithin, hnone, hstart, heof⟩ := seekOldLines_bounds hline hold hfound
      rw [if_neg hold]
      simp only [hfound, Option.some.injEq, forall_eq']
      rcases Nat.eq_zero_or_pos placed.oldLen with hzero | hpos
      · -- nothing is replaced, after all that has been passed
        have hhere := hnone hzero
        simp only [hzero, Nat.lt_irrefl, false_implies, true_iff]
        intro r hr
        have hpassed := hearlier r hr
        unfold Passed at hpassed
        rw [fits_iff]
        have hidx := insertionIdx_le lines
        refine ⟨by omega, ?_⟩
        rintro ⟨hsame, hpos, -⟩
        omega
      · simp only [hpos, forall_const]
        cases hcase : chunk.isEndOfFile with
        | true =>
            rw [if_pos rfl]
            exact endOfFileFits_iff hpos (heof hpos hcase) fun r hr => (hearlier r hr).1
        | false =>
            rw [if_neg Bool.false_ne_true]
            exact lastLineFits_iff hpos (hstart hpos hcase) hwithin hearlier

theorem Placed.unique {lines : List Text} {lineIndex next next' : Nat} {chunk : UpdateFileChunk}
    {placed placed' : Replacement} (h : Placed lines lineIndex chunk placed next)
    (h' : Placed lines lineIndex chunk placed' next') : placed' = placed ∧ next' = next := by
  cases h with
  | addition hold =>
      cases h' with
      | addition _ => exact ⟨rfl, rfl⟩
      | replacement hold' _ => exact absurd hold hold'
  | replacement hold hfound =>
      cases h' with
      | addition hold' => exact absurd hold' hold
      | replacement _ hfound' =>
          rw [hfound, Option.some.injEq] at hfound'
          subst hfound'
          exact ⟨rfl, rfl⟩

/-- The chunks fit if each replacement does after every earlier one. -/
theorem chunksFit_iff {lines : List Text} {path : AbsolutePathBuf} {chunks : List UpdateFileChunk}
    {lineIndex : Nat} {earlier collected : List Replacement} (hline : lineIndex ≤ lines.length)
    (hearlier : ∀ r ∈ earlier, Passed lines lineIndex r)
    (h : collectReplacements lines path chunks lineIndex = .ok collected) :
    ChunksFit lines path chunks lineIndex earlier ↔
      (∀ q ∈ earlier, ∀ r ∈ collected, Fits q r) ∧ collected.Pairwise Fits := by
  induction chunks generalizing lineIndex earlier collected with
  | nil =>
      simp only [collectReplacements, Except.ok.injEq] at h
      subst h
      simp [ChunksFit]
  | cons chunk chunks ih =>
      obtain ⟨reached, placed, next, rest, hcontext, hplaced, hrest, rfl⟩ :=
        collectReplacements_cons h
      obtain ⟨hle, hreached⟩ := seekContext_bounds hline hcontext
      obtain ⟨-, hle', hnext⟩ := hplaced.bounds hreached
      have hearlier' : ∀ r ∈ earlier, Passed lines reached r := fun r hr => (hearlier r hr).mono hle
      have hpassed : ∀ r ∈ earlier ++ [placed], Passed lines next r := by
        intro r hr
        rcases List.mem_append.mp hr with hr | hr
        · exact (hearlier' r hr).mono hle'
        · rw [List.mem_singleton.mp hr]
          exact hplaced.passed hreached
      have hstep : ChunksFit lines path (chunk :: chunks) lineIndex earlier ↔
          ChunkFits lines earlier reached chunk ∧
            ChunksFit lines path chunks next (earlier ++ [placed]) := by
        rw [ChunksFit]
        simp only [hcontext, Except.ok.injEq, forall_eq']
        refine and_congr_right fun _ => ?_
        constructor
        · intro hall
          exact hall placed next hplaced
        · intro hfit placed' next' hplaced'
          obtain ⟨rfl, rfl⟩ := hplaced.unique hplaced'
          exact hfit
      rw [hstep, chunkFits_iff hreached hplaced hearlier', ih hnext hpassed hrest,
        List.pairwise_cons]
      simp only [List.forall_mem_append, List.forall_mem_cons]
      constructor
      · rintro ⟨hfirst, ⟨hothers, hplacedFits, -⟩, hpairs⟩
        exact ⟨fun q hq => ⟨hfirst q hq, hothers q hq⟩, hplacedFits, hpairs⟩
      · rintro ⟨hall, hplacedFits, hpairs⟩
        exact ⟨fun q hq => (hall q hq).1, ⟨fun q hq => (hall q hq).2, hplacedFits, by simp⟩, hpairs⟩

/-- Lines are inserted without old ones at their own place, or after what has been passed. -/
theorem collectReplacements_insertions {lines : List Text} {path : AbsolutePathBuf}
    {chunks : List UpdateFileChunk} {lineIndex : Nat} {collected : List Replacement}
    (hline : lineIndex ≤ lines.length)
    (h : collectReplacements lines path chunks lineIndex = .ok collected) :
    ∀ r ∈ collected, r.oldLen = 0 → r.startIdx = insertionIdx lines ∨ lineIndex ≤ r.startIdx := by
  induction chunks generalizing lineIndex collected with
  | nil =>
      simp only [collectReplacements, Except.ok.injEq] at h
      simp [← h]
  | cons chunk chunks ih =>
      obtain ⟨reached, placed, next, rest, hcontext, hplaced, hrest, rfl⟩ :=
        collectReplacements_cons h
      obtain ⟨hle, hreached⟩ := seekContext_bounds hline hcontext
      obtain ⟨-, hle', hnext⟩ := hplaced.bounds hreached
      rw [List.forall_mem_cons]
      refine ⟨?_, ?_⟩
      · intro hzero
        cases hplaced with
        | addition hold => exact .inl rfl
        | replacement hold hfound =>
            obtain ⟨-, hnone, -, -⟩ := seekOldLines_bounds hreached hold hfound
            have := hnone hzero
            exact .inr (by omega)
      · intro r hr hzero
        rcases ih hnext hrest r hr hzero with hplace | hafter
        · exact .inl hplace
        · exact .inr (by omega)

/-- Lines are inserted where an earlier replacement starts only before an empty last line. -/
theorem collectReplacements_late {lines : List Text} {path : AbsolutePathBuf}
    {chunks : List UpdateFileChunk} {lineIndex : Nat} {collected : List Replacement}
    (hline : lineIndex ≤ lines.length)
    (h : collectReplacements lines path chunks lineIndex = .ok collected) :
    collected.Pairwise fun q r => q.startIdx = r.startIdx → 0 < q.oldLen → r.oldLen = 0 →
      endsInEmptyLine lines = true ∧ q.startIdx + 1 = lines.length := by
  induction chunks generalizing lineIndex collected with
  | nil =>
      simp only [collectReplacements, Except.ok.injEq] at h
      simp [← h]
  | cons chunk chunks ih =>
      obtain ⟨reached, placed, next, rest, hcontext, hplaced, hrest, rfl⟩ :=
        collectReplacements_cons h
      obtain ⟨-, hreached⟩ := seekContext_bounds hline hcontext
      obtain ⟨-, -, hnext⟩ := hplaced.bounds hreached
      have hpassed := hplaced.passed hreached
      rw [List.pairwise_cons]
      refine ⟨?_, ih hnext hrest⟩
      intro r hr hsame hpos hzero
      have hinsertion := collectReplacements_insertions hnext hrest r hr hzero
      unfold Passed at hpassed
      have hplace : placed.startIdx = insertionIdx lines := by omega
      have hempty : endsInEmptyLine lines = true := by
        by_contra hnot
        have := insertionIdx_of_not hnot
        omega
      have := endsInEmptyLine_length hempty
      exact ⟨hempty, by omega⟩

/-- The replacements are well placed exactly if no chunk gets in the way of those before it. -/
theorem computeReplacements_wellPlaced_iff (lines : List Text) (path : AbsolutePathBuf)
    (chunks : List UpdateFileChunk) (replacements : List Replacement)
    (h : computeReplacements lines path chunks = .ok replacements) :
    WellPlaced lines replacements ↔ ChunksFit lines path chunks 0 [] := by
  have hwithin := computeReplacements_within h
  have hsorted := computeReplacements_sorted h
  unfold computeReplacements at h
  rw [Result.bind_eq_ok] at h
  obtain ⟨collected, hcollected, hsort⟩ := h
  rw [Result.pure_eq_ok] at hsort
  have hstable : ∀ R : Replacement → Replacement → Prop,
      (replacements.Pairwise fun q r => q.startIdx = r.startIdx → R q r) ↔
        collected.Pairwise fun q r => q.startIdx = r.startIdx → R q r := by
    intro R
    rw [← hsort]
    exact pairwise_insertionSort_iff Replacement.startIdx
  have hlate := (hstable _).mpr (collectReplacements_late (Nat.zero_le _) hcollected)
  have hapart : (replacements.Pairwise fun q r => q.edit.Apart r.edit) ↔
      collected.Pairwise fun q r => q.edit.Apart r.edit := by
    rw [← hsort]
    exact (List.perm_insertionSort _ collected).pairwise_iff fun h => h.symm
  rw [chunksFit_iff (Nat.zero_le _) (by simp) hcollected]
  have hfits : collected.Pairwise Fits ↔
      (replacements.Pairwise fun q r => q.edit.Apart r.edit) ∧
        replacements.Pairwise fun q r => q.startIdx = r.startIdx → 0 < q.oldLen → r.oldLen = 0 →
          ∀ line ∈ r.newLines, line = [] := by
    rw [hapart, hstable, ← List.pairwise_and_iff]
    refine List.Pairwise.iff fun q r => ?_
    rw [fits_iff]
    simp only [and_imp]
    rfl
  have hspliced : (replacements.Pairwise fun q r => q.edit.Apart r.edit) →
      (applyReplacements lines replacements =
          Edit.splice lines (replacements.map Replacement.edit) ↔
        replacements.Pairwise fun q r => q.startIdx = r.startIdx → 0 < q.oldLen → r.oldLen = 0 →
          ∀ line ∈ r.newLines, line = []) := by
    intro hpairs
    rw [applyReplacements_eq hwithin hsorted, Edit.applyAll_eq_splice_iff
      (by simpa [Replacement.edit, Edit.stop] using hwithin) (List.pairwise_map.mpr hsorted)
      (List.pairwise_map.mpr hpairs)
      (List.pairwise_map.mpr (hlate.imp fun h hqr => (h hqr.1 hqr.2.1 hqr.2.2).2)),
      List.pairwise_map]
    -- where lines are inserted late, the last line is empty
    have hlast : ∀ line : Text, endsInEmptyLine lines = true →
        (lines.getLast? = some line ↔ line = []) := by
      intro line hempty
      unfold endsInEmptyLine at hempty
      rw [decide_eq_true_eq] at hempty
      rw [hempty, Option.some.injEq, eq_comm]
    constructor
    · intro hblank
      refine (hlate.and hblank).imp ?_
      rintro q r ⟨hqr, hblank⟩ hsame hpos hzero line hline
      exact (hlast line (hqr hsame hpos hzero).1).mp (hblank ⟨hsame, hpos, hzero⟩ line hline)
    · intro hblank
      refine (hlate.and hblank).imp ?_
      rintro q r ⟨hqr, hblank⟩ ⟨hsame, hpos, hzero⟩ line hline
      exact (hlast line (hqr hsame hpos hzero).1).mpr (hblank hsame hpos hzero line hline)
  constructor
  · intro hplaced
    exact ⟨by simp, hfits.mpr ⟨hplaced.apart, (hspliced hplaced.apart).mp hplaced.spliced⟩⟩
  · rintro ⟨-, hpairs⟩
    obtain ⟨hpairs, hblank⟩ := hfits.mp hpairs
    exact ⟨hsorted, hwithin, hpairs, (hspliced hpairs).mpr hblank⟩

theorem computeReplacements_wellPlaced_pair :
    computeReplacements ["a".toList, "b".toList] .root
        [⟨none, ["a".toList], ["c".toList], false⟩, ⟨none, ["b".toList], [], true⟩] =
        .ok [⟨0, 1, ["c".toList]⟩, ⟨1, 1, []⟩] ∧
      WellPlaced ["a".toList, "b".toList] [⟨0, 1, ["c".toList]⟩, ⟨1, 1, []⟩] := by
  have hcompute : computeReplacements ["a".toList, "b".toList] .root
      [⟨none, ["a".toList], ["c".toList], false⟩, ⟨none, ["b".toList], [], true⟩] =
      .ok [⟨0, 1, ["c".toList]⟩, ⟨1, 1, []⟩] := by decide +kernel
  refine ⟨hcompute, (computeReplacements_wellPlaced_iff _ _ _ _ hcompute).mpr ?_⟩
  intro reached hreached
  cases hreached
  refine ⟨fun found _ _ _ _ => .inr (by simp), ?_⟩
  intro placed next hplaced
  have hfirst : Placed ["a".toList, "b".toList] 0 ⟨none, ["a".toList], ["c".toList], false⟩
      ⟨0, 1, ["c".toList]⟩ 1 := .replacement (by simp) (by decide +kernel)
  obtain ⟨rfl, rfl⟩ := hfirst.unique hplaced
  intro reached hreached
  cases hreached
  refine ⟨?_, fun _ _ _ => trivial⟩
  intro found hfound _ r hr
  rw [show seekOldLines ["a".toList, "b".toList] 1 ⟨none, ["b".toList], [], true⟩ =
    some ⟨1, 1, []⟩ by decide +kernel, Option.some.injEq] at hfound
  subst hfound
  rw [List.nil_append, List.mem_singleton] at hr
  subst hr
  exact .inl le_rfl

/-- An end-of-file chunk over lines that have been replaced. -/
def overlappingChunks : List UpdateFileChunk :=
  [⟨none, ["b".toList], ["c".toList], false⟩, ⟨none, ["a".toList, "b".toList], [], true⟩]

theorem computeReplacements_overlapping :
    computeReplacements ["a".toList, "b".toList] AbsolutePathBuf.root overlappingChunks =
        .ok [⟨0, 2, []⟩, ⟨1, 1, ["c".toList]⟩] ∧
      ¬ WellPlaced ["a".toList, "b".toList] [⟨0, 2, []⟩, ⟨1, 1, ["c".toList]⟩] := by
  refine ⟨by decide +kernel, ?_⟩
  intro h
  have hapart := h.apart
  rw [List.pairwise_cons] at hapart
  have := hapart.1 ⟨1, 1, ["c".toList]⟩ (by simp)
  simp [Replacement.edit, Edit.Apart, Edit.stop] at this

end Codewith.ApplyPatch
