import Codewith.Lib.Checked
import Codewith.ApplyPatch.Engine
import Codewith.ApplyPatch.Placement

/-!
# Applying chunks stays in bounds

The chunks of an update are applied by index: lines are compared one by one, slices are cut
from patterns, and lines are removed from and inserted into the file from its end.  Here every
such access is checked.  None of them panics, and the outcome is the one of the unchecked
functions.
-/

namespace Codewith.ApplyPatch

open Lib
open Lib.Checked

variable {E : Type}

/-! ### Seeking -/

def matchesExactlyChecked (lines pattern : List Text) (i : Nat) : Checked E Bool := do
  let window ← slice lines i (i + pattern.length)
  return window = pattern

/-- Lines are compared by a reading of them, from one index of the pattern on. -/
def matchesByChecked (key : Text → Text) (lines : List Text) (i : Nat) :
    List Text → Nat → Checked E Bool
  | [], _ => .ok true
  | pat :: pattern, pIdx => do
      let line ← index lines (i + pIdx)
      if key line ≠ key pat then return false
      else matchesByChecked key lines i pattern (pIdx + 1)

def seekPassesChecked (lines pattern : List Text) : List (Nat → Checked E Bool) :=
  [matchesExactlyChecked lines pattern,
    fun i => matchesByChecked Text.trimEnd lines i pattern 0,
    fun i => matchesByChecked Text.trim lines i pattern 0,
    fun i => matchesByChecked normalise lines i pattern 0]

def searchStartChecked (lines pattern : List Text) (start : Nat) (eof : Bool) : Checked E Nat :=
  if eof ∧ pattern.length ≤ lines.length then sub lines.length pattern.length else .ok start

def seekSequenceChecked (lines pattern : List Text) (start : Nat) (eof : Bool) :
    Checked E (Option Nat) :=
  if pattern = [] then .ok (some start)
  else if lines.length < pattern.length then .ok none
  else do
    let searchStart ← searchStartChecked lines pattern start eof
    -- the end of the range is a saturating subtraction
    let is := List.range' searchStart (lines.length - pattern.length + 1 - searchStart)
    findFirst is (seekPassesChecked lines pattern)

theorem matchesExactlyChecked_eq {lines pattern : List Text} {i : Nat}
    (h : i + pattern.length ≤ lines.length) :
    (matchesExactlyChecked lines pattern i : Checked E Bool) =
      .ok (((lines.drop i).take pattern.length).map id = pattern.map id) := by
  unfold matchesExactlyChecked
  rw [slice_eq (Nat.le_add_right _ _) h, ok_bind, Nat.add_sub_cancel_left, List.map_id,
    List.map_id]
  rfl

theorem matchesByChecked_eq {key : Text → Text} {lines pattern : List Text} {i pIdx : Nat}
    (h : i + pIdx + pattern.length ≤ lines.length) :
    (matchesByChecked key lines i pattern pIdx : Checked E Bool) =
      .ok (((lines.drop (i + pIdx)).take pattern.length).map key = pattern.map key) := by
  induction pattern generalizing pIdx with
  | nil => simp [matchesByChecked]
  | cons pat pattern ih =>
      rw [List.length_cons] at h
      have hlt : i + pIdx < lines.length := by omega
      have hrest : matchesByChecked key lines i pattern (pIdx + 1) = _ := ih (by omega)
      rw [← Nat.add_assoc] at hrest
      unfold matchesByChecked
      rw [index_eq hlt, ok_bind, List.drop_eq_getElem_cons hlt, List.length_cons,
        List.take_succ_cons, List.map_cons, List.map_cons]
      by_cases hkey : key lines[i + pIdx] = key pat
      · rw [if_neg (not_not_intro hkey), hrest]
        simp [hkey]
      · rw [if_pos hkey]
        simp [hkey, pure, Except.pure]

theorem seekPassesChecked_eq {lines pattern : List Text} {searchStart : Nat}
    (hlength : pattern.length ≤ lines.length) :
    (findFirst (List.range' searchStart (lines.length - pattern.length + 1 - searchStart))
        (seekPassesChecked lines pattern) : Checked E (Option Nat)) =
      .ok ((seekBy id lines pattern searchStart).or <|
        (seekBy Text.trimEnd lines pattern searchStart).or <|
          (seekBy Text.trim lines pattern searchStart).or <|
            seekBy normalise lines pattern searchStart) := by
  have hbound : ∀ i ∈ List.range' searchStart (lines.length - pattern.length + 1 - searchStart),
      i + 0 + pattern.length ≤ lines.length := by
    intro i hi
    rw [List.mem_range'_1] at hi
    omega
  have hby : ∀ key, ∀ i ∈ List.range' searchStart (lines.length - pattern.length + 1 - searchStart),
      (matchesByChecked key lines i pattern 0 : Checked E Bool) = _ :=
    fun key i hi => matchesByChecked_eq (hbound i hi)
  rw [← Option.or_none (o := seekBy normalise lines pattern searchStart)]
  apply findFirst_cons_eq (fun i hi => matchesExactlyChecked_eq (hbound i hi))
  apply findFirst_cons_eq (hby Text.trimEnd)
  apply findFirst_cons_eq (hby Text.trim)
  exact findFirst_cons_eq (hby normalise) rfl

/-- Every index that is searched leaves room for the pattern. -/
theorem seekSequenceChecked_eq (lines pattern : List Text) (start : Nat) (eof : Bool) :
    (seekSequenceChecked lines pattern start eof : Checked E (Option Nat)) =
      .ok (seekSequence lines pattern start eof) := by
  unfold seekSequenceChecked seekSequence searchStartChecked
  by_cases hnil : pattern = []
  · rw [if_pos hnil, if_pos hnil]
  rw [if_neg hnil, if_neg hnil]
  by_cases hlong : lines.length < pattern.length
  · rw [if_pos hlong, if_pos hlong]
  rw [if_neg hlong, if_neg hlong]
  have hlength : pattern.length ≤ lines.length := Nat.le_of_not_lt hlong
  cases eof with
  | true =>
      rw [if_pos ⟨rfl, hlength⟩, sub_eq hlength, ok_bind]
      exact seekPassesChecked_eq hlength
  | false =>
      rw [if_neg (by simp), ok_bind]
      exact seekPassesChecked_eq hlength

/-! ### Replacements -/

def seekContextChecked (originalLines : List Text) (path : AbsolutePathBuf) (lineIndex : Nat)
    (changeContext : Option Text) : Checked ComputeError Nat :=
  match changeContext with
  | none => .ok lineIndex
  | some ctxLine => do
      match ← seekSequenceChecked originalLines [ctxLine] lineIndex false with
      | some idx => .ok (idx + 1)
      | none => .error (.returned (.context ctxLine path))

theorem seekContextChecked_eq (originalLines : List Text) (path : AbsolutePathBuf)
    (lineIndex : Nat) (changeContext : Option Text) :
    seekContextChecked originalLines path lineIndex changeContext =
      ofExcept (seekContext originalLines path lineIndex changeContext) := by
  cases changeContext with
  | none => rfl
  | some ctxLine =>
      unfold seekContextChecked seekContext
      dsimp only
      rw [seekSequenceChecked_eq, ok_bind]
      cases seekSequence originalLines [ctxLine] lineIndex false <;> rfl

/-- The new lines without the empty last one. -/
def newSliceChecked (newLines : List Text) : Checked E (List Text) :=
  if endsInEmptyLine newLines then do slice newLines 0 (← sub newLines.length 1)
  else .ok newLines

def seekOldLinesChecked (originalLines : List Text) (lineIndex : Nat) (chunk : UpdateFileChunk) :
    Checked E (Option Replacement) := do
  match ← seekSequenceChecked originalLines chunk.oldLines lineIndex chunk.isEndOfFile with
  | some idx => .ok (some ⟨idx, chunk.oldLines.length, chunk.newLines⟩)
  | none =>
      if endsInEmptyLine chunk.oldLines then do
        let pattern ← (do slice chunk.oldLines 0 (← sub chunk.oldLines.length 1))
        let newSlice ← newSliceChecked chunk.newLines
        let found ← seekSequenceChecked originalLines pattern lineIndex chunk.isEndOfFile
        .ok (found.map fun idx => ⟨idx, pattern.length, newSlice⟩)
      else .ok none

theorem ne_nil_of_endsInEmptyLine {lines : List Text} (h : endsInEmptyLine lines = true) :
    lines ≠ [] := by
  rintro rfl
  simp [endsInEmptyLine] at h

theorem newSliceChecked_eq (newLines : List Text) :
    (newSliceChecked newLines : Checked E (List Text)) =
      .ok (if endsInEmptyLine newLines then newLines.dropLast else newLines) := by
  unfold newSliceChecked
  split
  · rename_i hempty
    exact slice_sub_one (ne_nil_of_endsInEmptyLine hempty)
  · rfl

theorem seekOldLinesChecked_eq (originalLines : List Text) (lineIndex : Nat)
    (chunk : UpdateFileChunk) :
    (seekOldLinesChecked originalLines lineIndex chunk : Checked E (Option Replacement)) =
      .ok (seekOldLines originalLines lineIndex chunk) := by
  unfold seekOldLinesChecked seekOldLines
  rw [seekSequenceChecked_eq, ok_bind]
  cases seekSequence originalLines chunk.oldLines lineIndex chunk.isEndOfFile with
  | some idx => rfl
  | none =>
      dsimp only
      split
      · rename_i hempty
        rw [slice_sub_one (ne_nil_of_endsInEmptyLine hempty), ok_bind, newSliceChecked_eq, ok_bind,
          seekSequenceChecked_eq, ok_bind]
      · rfl

def insertionIdxChecked (originalLines : List Text) : Checked E Nat :=
  if endsInEmptyLine originalLines then sub originalLines.length 1 else .ok originalLines.length

theorem insertionIdxChecked_eq (originalLines : List Text) :
    (insertionIdxChecked originalLines : Checked E Nat) = .ok (insertionIdx originalLines) := by
  unfold insertionIdxChecked insertionIdx
  split
  · rename_i hempty
    exact sub_eq (List.length_pos_iff.mpr (ne_nil_of_endsInEmptyLine hempty))
  · rfl

def collectReplacementsChecked (originalLines : List Text) (path : AbsolutePathBuf) :
    List UpdateFileChunk → Nat → Checked ComputeError (List Replacement)
  | [], _ => .ok []
  | chunk :: chunks, lineIndex => do
      let lineIndex ← seekContextChecked originalLines path lineIndex chunk.changeContext
      if chunk.oldLines = [] then
        let insertionIdx ← insertionIdxChecked originalLines
        let rest ← collectReplacementsChecked originalLines path chunks lineIndex
        return ⟨insertionIdx, 0, chunk.newLines⟩ :: rest
      else
        match ← seekOldLinesChecked originalLines lineIndex chunk with
        | some found =>
            let rest ← collectReplacementsChecked originalLines path chunks
              (found.startIdx + found.oldLen)
            return found :: rest
        | none => throw (.returned (.expectedLines path chunk.oldLines))

theorem collectReplacementsChecked_eq (originalLines : List Text) (path : AbsolutePathBuf)
    (chunks : List UpdateFileChunk) (lineIndex : Nat) :
    collectReplacementsChecked originalLines path chunks lineIndex =
      ofExcept (collectReplacements originalLines path chunks lineIndex) := by
  induction chunks generalizing lineIndex with
  | nil => rfl
  | cons chunk chunks ih =>
      unfold collectReplacementsChecked collectReplacements
      rw [seekContextChecked_eq, ofExcept_bind]
      congr 1
      funext reached
      split
      · rw [insertionIdxChecked_eq, ok_bind, ih, ofExcept_bind]
        rfl
      · rw [seekOldLinesChecked_eq, ok_bind]
        cases seekOldLines originalLines reached chunk with
        | some found =>
            dsimp only
            rw [ih, ofExcept_bind]
            rfl
        | none => rfl

def computeReplacementsChecked (originalLines : List Text) (path : AbsolutePathBuf)
    (chunks : List UpdateFileChunk) : Checked ComputeError (List Replacement) := do
  let replacements ← collectReplacementsChecked originalLines path chunks 0
  return replacements.insertionSort fun a b => a.startIdx ≤ b.startIdx

theorem computeReplacementsChecked_eq (originalLines : List Text) (path : AbsolutePathBuf)
    (chunks : List UpdateFileChunk) :
    computeReplacementsChecked originalLines path chunks =
      ofExcept (computeReplacements originalLines path chunks) := by
  unfold computeReplacementsChecked computeReplacements
  rw [collectReplacementsChecked_eq, ofExcept_bind]
  rfl

/-! ### Applying -/

def removeLinesChecked (startIdx : Nat) : Nat → List Text → Checked E (List Text)
  | 0, lines => .ok lines
  | n + 1, lines => do
      let lines ← if startIdx < lines.length then removeAt lines startIdx else .ok lines
      removeLinesChecked startIdx n lines

def insertLinesChecked (startIdx : Nat) (newSegment lines : List Text) : Checked E (List Text) :=
  newSegment.zipIdx.foldlM (fun lines entry => insertAt lines (startIdx + entry.2) entry.1) lines

def applyReplacementsChecked (lines : List Text) (replacements : List Replacement) :
    Checked E (List Text) :=
  replacements.reverse.foldlM
    (fun lines r => do
      let lines ← removeLinesChecked r.startIdx r.oldLen lines
      insertLinesChecked r.startIdx r.newLines lines)
    lines

/-- A removal is guarded, so it never panics. -/
theorem removeLinesChecked_eq (startIdx oldLen : Nat) (lines : List Text) :
    (removeLinesChecked startIdx oldLen lines : Checked E (List Text)) =
      .ok (removeLines startIdx oldLen lines) := by
  induction oldLen generalizing lines with
  | zero => rfl
  | succ oldLen ih =>
      unfold removeLinesChecked removeLines
      split
      · rename_i hlt
        rw [removeAt_eq hlt, ok_bind]
        exact ih _
      · exact ih _

/-- Each line is inserted right after the one before it. -/
theorem insertLinesChecked_eq {startIdx : Nat} {lines : List Text} (h : startIdx ≤ lines.length)
    (newSegment : List Text) :
    (insertLinesChecked startIdx newSegment lines : Checked E (List Text)) =
      .ok (insertLines startIdx newSegment lines) := by
  unfold insertLinesChecked insertLines
  have hgeneral : ∀ (segment lines : List Text) (k : Nat), startIdx + k ≤ lines.length →
      ((segment.zipIdx k).foldlM
        (fun lines entry => insertAt lines (startIdx + entry.2) entry.1) lines :
          Checked E (List Text)) =
      .ok ((segment.zipIdx k).foldl
        (fun lines entry => lines.insertIdx (startIdx + entry.2) entry.1) lines) := by
    intro segment
    induction segment with
    | nil => intro lines k _; rfl
    | cons line segment ih =>
        intro lines k hk
        rw [List.zipIdx_cons, List.foldlM_cons, List.foldl_cons, insertAt_eq hk, ok_bind]
        apply ih
        rw [List.length_insertIdx_of_le_length hk]
        omega
  exact hgeneral newSegment lines 0 h

/-- The places of insertion descend, and what is left before them is never shortened. -/
theorem applyReplacementsChecked_eq {lines : List Text} {replacements : List Replacement}
    (hwithin : ∀ r ∈ replacements, r.startIdx + r.oldLen ≤ lines.length)
    (hsorted : replacements.Pairwise fun q r => q.startIdx ≤ r.startIdx) :
    (applyReplacementsChecked lines replacements : Checked E (List Text)) =
      .ok (applyReplacements lines replacements) := by
  unfold applyReplacementsChecked
  induction replacements with
  | nil => rfl
  | cons r replacements ih =>
      have hstart := startIdx_le_applyAll hwithin hsorted
      rw [List.forall_mem_cons] at hwithin
      rw [List.pairwise_cons] at hsorted
      rw [← applyReplacements_eq hwithin.2 hsorted.2] at hstart
      rw [List.reverse_cons, List.foldlM_append, ih hwithin.2 hsorted.2, ok_bind, List.foldlM_cons,
        removeLinesChecked_eq, ok_bind, insertLinesChecked_eq (startIdx_le_removeLines hstart _)]
      unfold applyReplacements
      rw [List.reverse_cons, List.foldl_append]
      rfl

def newContentsFromChunksChecked (path : AbsolutePathBuf) (chunks : List UpdateFileChunk)
    (originalContents : Text) : Checked ComputeError Text := do
  let split := Text.split '\n' originalContents
  let originalLines := if endsInEmptyLine split then split.dropLast else split
  let replacements ← computeReplacementsChecked originalLines path chunks
  let newLines ← applyReplacementsChecked originalLines replacements
  let newLines := if endsInEmptyLine newLines then newLines else newLines ++ [[]]
  return Text.joinWith '\n' newLines

theorem newContentsFromChunksChecked_eq (path : AbsolutePathBuf) (chunks : List UpdateFileChunk)
    (originalContents : Text) :
    newContentsFromChunksChecked path chunks originalContents =
      ofExcept (newContentsFromChunks path chunks originalContents) := by
  unfold newContentsFromChunksChecked newContentsFromChunks
  dsimp only
  rw [computeReplacementsChecked_eq, ofExcept_bind]
  generalize (if endsInEmptyLine (Text.split '\n' originalContents) = true then
    (Text.split '\n' originalContents).dropLast else Text.split '\n' originalContents) = lines
  cases hreplacements : computeReplacements lines path chunks with
  | error e => rfl
  | ok replacements =>
      rw [ofExcept_ok, ok_bind, ok_bind, applyReplacementsChecked_eq
        (computeReplacements_within hreplacements) (computeReplacements_sorted hreplacements),
        ok_bind]
      rfl

section

variable {σ : Type} (fs : FileSystem σ)

def deriveNewContentsFromChunksChecked (disk : σ) (path : AbsolutePathBuf)
    (chunks : List UpdateFileChunk) : Checked ApplyPatchError AppliedPatch :=
  match fs.readFileText disk path with
  | .error err =>
      .error (.returned
        (.ioError ("Failed to read file to update ".toList ++ path.display) err))
  | .ok originalContents =>
      match newContentsFromChunksChecked path chunks originalContents with
      | .error .panics => .error .panics
      | .error (.returned err) => .error (.returned (.computeReplacements err.message))
      | .ok newContents => .ok ⟨originalContents, newContents⟩

/-- No access is out of bounds: new contents or an error are returned, as they are without the
checks. -/
theorem deriveNewContentsFromChunks_inBounds (disk : σ) (path : AbsolutePathBuf)
    (chunks : List UpdateFileChunk) :
    deriveNewContentsFromChunksChecked fs disk path chunks ≠ .error .panics ∧
      deriveNewContentsFromChunksChecked fs disk path chunks =
        ofExcept (deriveNewContentsFromChunks fs disk path chunks) := by
  have heq : deriveNewContentsFromChunksChecked fs disk path chunks =
      ofExcept (deriveNewContentsFromChunks fs disk path chunks) := by
    unfold deriveNewContentsFromChunksChecked deriveNewContentsFromChunks
    cases fs.readFileText disk path with
    | error err => rfl
    | ok originalContents =>
        dsimp only
        rw [newContentsFromChunksChecked_eq]
        cases newContentsFromChunks path chunks originalContents <;> rfl
  exact ⟨heq ▸ ofExcept_ne_panics _, heq⟩

end

end Codewith.ApplyPatch
