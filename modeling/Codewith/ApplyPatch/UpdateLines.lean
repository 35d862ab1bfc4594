import Codewith.ApplyPatch.Streaming

/-!
# The lines of an update hunk in the streaming parser

Inside an update hunk a line only changes the destination and the chunks of that
hunk (`feedUpdate`).  The accepted lines are counted: each adds to the hunk what
`keptLine` and `contextLine` say, whatever came before it.

`Place.next` follows the lines of a patch and stops at a line that the batch
parser would read differently: it skips blank lines between chunks, and keeps
the whitespace at the end of a destination or of a context.
-/

namespace Codewith.ApplyPatch

open Lib

/-! ## Markers -/

theorem stripPrefix_eq_some {pre s rest : Text} :
    Text.stripPrefix pre s = some rest ↔ s = pre ++ rest := by
  unfold Text.stripPrefix
  rw [List.dropPrefix?_eq_some_iff]
  constructor
  · rintro ⟨p, hs, hp⟩
    rw [hs, eq_of_beq hp]
  · rintro rfl
    exact ⟨pre, rfl, beq_self_eq_true pre⟩

theorem stripPrefix_append (pre rest : Text) : Text.stripPrefix pre (pre ++ rest) = some rest :=
  stripPrefix_eq_some.2 rfl

/-- The first characters of a text decide which marker it can carry. -/
theorem stripPrefix_eq_none {pre s known : Text} (hknown : known <+: s)
    (h : ¬ (pre <+: known ∨ known <+: pre)) : Text.stripPrefix pre s = none := by
  by_contra hne
  obtain ⟨rest, hrest⟩ := Option.ne_none_iff_exists'.1 hne
  rw [stripPrefix_eq_some] at hrest
  have hpre : pre <+: s := ⟨rest, hrest.symm⟩
  rcases Nat.le_total pre.length known.length with hle | hle
  · exact h (.inl (List.prefix_of_prefix_length_le hpre hknown hle))
  · exact h (.inr (List.prefix_of_prefix_length_le hknown hpre hle))

theorem headerStep_eq_none {lineNumber : Nat} {s : StreamingParserState} {t known : Text}
    (hknown : known <+: t)
    (h : ∀ marker ∈ [endPatchMarker, addFileMarker, deleteFileMarker, updateFileMarker],
      ¬ (marker <+: known ∨ known <+: marker)) :
    headerStep lineNumber s t = none := by
  unfold headerStep
  have hend : t ≠ endPatchMarker := by
    rintro rfl
    exact h endPatchMarker (by simp) (.inr hknown)
  rw [if_neg hend, stripPrefix_eq_none hknown (h addFileMarker (by simp)),
    stripPrefix_eq_none hknown (h deleteFileMarker (by simp)),
    stripPrefix_eq_none hknown (h updateFileMarker (by simp))]

/-- The line cannot start a hunk or end the patch inside an update hunk. -/
def NotHeader (line : Text) : Prop :=
  ∀ lineNumber s, headerStep lineNumber s (Text.trimEnd line) = none

/-- All markers of headers and ends start with a star. -/
theorem star_prefix_marker : ∀ marker ∈
    [endPatchMarker, addFileMarker, deleteFileMarker, updateFileMarker], ['*'] <+: marker := by
  decide

theorem headerStep_of_head_ne {lineNumber : Nat} {s : StreamingParserState} {t : Text}
    (h : ∀ rest, t ≠ '*' :: rest) : headerStep lineNumber s t = none := by
  have hno : ∀ marker ∈ [endPatchMarker, addFileMarker, deleteFileMarker, updateFileMarker],
      ¬ marker <+: t := by
    rintro marker hmarker ⟨tail, rfl⟩
    obtain ⟨rest, rfl⟩ := star_prefix_marker marker hmarker
    exact h _ rfl
  have hnone : ∀ marker ∈ [addFileMarker, deleteFileMarker, updateFileMarker],
      Text.stripPrefix marker t = none := by
    intro marker hmarker
    by_contra hne
    obtain ⟨rest, hrest⟩ := Option.ne_none_iff_exists'.1 hne
    rw [stripPrefix_eq_some] at hrest
    exact hno marker (List.mem_cons_of_mem _ hmarker) ⟨rest, hrest.symm⟩
  have hend : t ≠ endPatchMarker := by
    rintro rfl
    exact hno endPatchMarker (by simp) List.prefix_rfl
  unfold headerStep
  rw [if_neg hend, hnone addFileMarker (by simp), hnone deleteFileMarker (by simp),
    hnone updateFileMarker (by simp)]

theorem headerStep_nil (lineNumber : Nat) (s : StreamingParserState) :
    headerStep lineNumber s [] = none :=
  headerStep_of_head_ne (by simp)

theorem notHeader_of_head {line : Text} {c : Char} (hhead : line.head? = some c) (hc : c ≠ '*') :
    NotHeader line := by
  intro lineNumber s
  refine headerStep_of_head_ne fun rest hrest => ?_
  rcases Text.trimEnd_head line with h | h
  · rw [h] at hrest
    cases hrest
  · rw [hrest, hhead] at h
    exact hc (Option.some.inj h).symm

theorem notHeader_of_blank {line : Text} (h : Text.trim line = []) : NotHeader line := by
  intro lineNumber s
  rw [Text.trimEnd_eq_nil_iff.2 (Text.trim_eq_nil_iff.1 h)]
  exact headerStep_nil lineNumber s

/-- A prefix that ends in a visible character survives trimming. -/
theorem prefix_trimEnd {pre s : Text} {c : Char} (hc : Text.isWhitespace c = false)
    (h : pre ++ [c] <+: s) : pre ++ [c] <+: Text.trimEnd s := by
  obtain ⟨rest, rfl⟩ := h
  by_cases hrest : Text.trimEnd rest = []
  · rw [Text.trimEnd_append_of_allWhitespace _ (Text.trimEnd_eq_nil_iff.1 hrest), Text.trimEnd,
      List.rdropWhile_concat_neg _ _ _ (by simp [hc])]
  · rw [Text.trimEnd_append_of_ne_nil _ hrest]
    exact ⟨_, rfl⟩

theorem notHeader_of_prefix (pre : Text) (c : Char) {line : Text} (hc : Text.isWhitespace c = false)
    (hline : pre ++ [c] <+: line)
    (h : ∀ marker ∈ [endPatchMarker, addFileMarker, deleteFileMarker, updateFileMarker],
      ¬ (marker <+: pre ++ [c] ∨ pre ++ [c] <+: marker)) : NotHeader line :=
  fun _ _ => headerStep_eq_none (prefix_trimEnd hc hline) h

theorem notHeader_eofMarker : NotHeader eofMarker :=
  notHeader_of_prefix "*** End o".toList 'f' (by decide) (by decide)
    (by decide)

theorem notHeader_moveLine {line : Text} (h : moveToMarker <+: line) : NotHeader line := by
  refine notHeader_of_prefix "*** ".toList 'M' (by decide) ?_
    (by decide)
  exact List.IsPrefix.trans (by decide) h

/-! ## Lines of an update hunk -/

/-- The state inside an update hunk. -/
def updating (hunkLineNumber : Nat) (hunks : List Hunk) (path : PathBuf)
    (hunk : Option PathBuf × List UpdateFileChunk) : StreamingParserState :=
  ⟨.updateFile hunkLineNumber, hunks ++ [.updateFile path hunk.1 hunk.2]⟩

theorem processLine_updating (lineNumber n : Nat) (hunks : List Hunk) (path : PathBuf)
    (hunk : Option PathBuf × List UpdateFileChunk) {line : Text} (h : NotHeader line) :
    processLine lineNumber (updating n hunks path hunk) line =
      (processUpdateLine lineNumber line hunk.1 hunk.2).map (updating n hunks path) := by
  have hstep : handleHunkHeadersAndEndPatch lineNumber (updating n hunks path hunk)
      (Text.trimEnd line) = .ok none := by
    rw [handleHunkHeadersAndEndPatch, h]
  simp only [processLine, updating] at hstep ⊢
  rw [hstep]
  simp only [bind, Except.bind, List.getLast?_concat, List.dropLast_concat]
  cases processUpdateLine lineNumber line hunk.1 hunk.2 <;> rfl

/-- The lines of an update hunk, on its destination and chunks alone. -/
def feedUpdate : Nat → List Text → Option PathBuf × List UpdateFileChunk →
    Except ParseError (Option PathBuf × List UpdateFileChunk)
  | _, [], hunk => .ok hunk
  | lineNumber, line :: lines, hunk => do
      let hunk ← processUpdateLine (lineNumber + 1) line hunk.1 hunk.2
      feedUpdate (lineNumber + 1) lines hunk

theorem feedUpdate_cons_ok {lineNumber : Nat} {line : Text}
    {hunk hunk' : Option PathBuf × List UpdateFileChunk}
    (h : processUpdateLine (lineNumber + 1) line hunk.1 hunk.2 = .ok hunk') (lines : List Text) :
    feedUpdate lineNumber (line :: lines) hunk = feedUpdate (lineNumber + 1) lines hunk' := by
  simp only [feedUpdate, h, bind, Except.bind]

theorem feedUpdate_cons_error {lineNumber : Nat} {line : Text} {e : ParseError}
    {hunk : Option PathBuf × List UpdateFileChunk}
    (h : processUpdateLine (lineNumber + 1) line hunk.1 hunk.2 = .error e) (lines : List Text) :
    feedUpdate lineNumber (line :: lines) hunk = .error e := by
  simp only [feedUpdate, h, bind, Except.bind]

theorem feedUpdate_append (lineNumber : Nat) (as bs : List Text)
    (hunk : Option PathBuf × List UpdateFileChunk) :
    feedUpdate lineNumber (as ++ bs) hunk =
      (feedUpdate lineNumber as hunk >>= feedUpdate (lineNumber + as.length) bs) := by
  induction as generalizing lineNumber hunk with
  | nil => rfl
  | cons line as ih =>
      cases h : processUpdateLine (lineNumber + 1) line hunk.1 hunk.2 with
      | error e =>
          rw [List.cons_append, feedUpdate_cons_error h, feedUpdate_cons_error h]
          rfl
      | ok hunk' =>
          rw [List.cons_append, feedUpdate_cons_ok h, feedUpdate_cons_ok h, ih, List.length_cons,
            Nat.add_assoc, Nat.add_comm 1]

theorem feedLines_updating {lineNumber n : Nat} {hunks : List Hunk} {path : PathBuf}
    {lines : List Text} (h : ∀ line ∈ lines, NotHeader line)
    (hunk : Option PathBuf × List UpdateFileChunk) :
    feedLines lineNumber (updating n hunks path hunk) lines =
      (feedUpdate lineNumber lines hunk).map (updating n hunks path) := by
  induction lines generalizing lineNumber hunk with
  | nil => rfl
  | cons line lines ih =>
      have hline := processLine_updating (lineNumber + 1) n hunks path hunk
        (h line List.mem_cons_self)
      cases hstep : processUpdateLine (lineNumber + 1) line hunk.1 hunk.2 with
      | error e =>
          rw [hstep] at hline
          rw [feedLines_cons_error hline, feedUpdate_cons_error hstep]
          rfl
      | ok hunk' =>
          rw [hstep] at hline
          rw [feedLines_cons_ok hline, feedUpdate_cons_ok hstep]
          exact ih (fun l hl => h l (List.mem_cons_of_mem line hl)) hunk'

theorem chunkLine_head {line : Text} {f : UpdateFileChunk → UpdateFileChunk}
    (h : chunkLine line = some f) :
    line = [] ∨ line.head? = some ' ' ∨ line.head? = some '+' ∨ line.head? = some '-' := by
  unfold chunkLine at h
  split at h
  · exact .inl rfl
  · exact .inr (.inl rfl)
  · exact .inr (.inr (.inl rfl))
  · exact .inr (.inr (.inr rfl))
  · cases h

/-- Content lines keep a first character that no marker has. -/
theorem trimEnd_chunkLine {line : Text} {f : UpdateFileChunk → UpdateFileChunk}
    (h : chunkLine line = some f) {c : Char} (hc : c = '*' ∨ c = '@') (rest : Text) :
    Text.trimEnd line ≠ c :: rest := by
  intro heq
  have hhead : line.head? = some c := by
    rcases Text.trimEnd_head line with hnil | hsame
    · rw [hnil] at heq
      cases heq
    · rw [← hsame, heq]
      rfl
  rcases chunkLine_head h with rfl | hline | hline | hline
  · cases hhead
  all_goals
    rw [hhead, Option.some.injEq] at hline
    rcases hc with rfl | rfl <;> exact absurd hline (by decide)

theorem notHeader_chunkLine {line : Text} {f : UpdateFileChunk → UpdateFileChunk}
    (h : chunkLine line = some f) : NotHeader line :=
  fun _ _ => headerStep_of_head_ne fun rest => trimEnd_chunkLine h (.inl rfl) rest

theorem stripPrefix_of_head_ne {marker t : Text} {c : Char} (hmarker : [c] <+: marker)
    (h : ∀ rest, t ≠ c :: rest) : Text.stripPrefix marker t = none := by
  by_contra hne
  obtain ⟨rest, hrest⟩ := Option.ne_none_iff_exists'.1 hne
  rw [stripPrefix_eq_some] at hrest
  obtain ⟨tail, rfl⟩ := hmarker
  exact h _ hrest

theorem not_prefix_of_head_ne {marker t : Text} {c : Char} (hmarker : [c] <+: marker)
    (h : ∀ rest, t ≠ c :: rest) : ¬ marker <+: t := by
  rintro ⟨rest, rfl⟩
  obtain ⟨tail, rfl⟩ := hmarker
  exact h _ rfl

theorem processUpdateLine_chunkLine {line : Text} {f : UpdateFileChunk → UpdateFileChunk}
    (h : chunkLine line = some f) (lineNumber : Nat) (movePath : Option PathBuf)
    (chunks : List UpdateFileChunk) :
    processUpdateLine lineNumber line movePath chunks = .ok (movePath, pushChunkLine f chunks) := by
  have hstar := trimEnd_chunkLine h (c := '*') (.inl rfl)
  have hat := trimEnd_chunkLine h (c := '@') (.inr rfl)
  have hmove : Text.stripPrefix moveToMarker (Text.trimEnd line) = none :=
    stripPrefix_of_head_ne (c := '*') (by decide) hstar
  have hcontext : Text.stripPrefix changeContextMarker (Text.trimEnd line) = none :=
    stripPrefix_of_head_ne (c := '@') (by decide) hat
  have hpre : ¬ changeContextMarker <+: Text.trimEnd line :=
    not_prefix_of_head_ne (c := '@') (by decide) hat
  have hempty : Text.trimEnd line ≠ emptyChangeContextMarker := by
    intro heq
    have hfirst : ['@'] <+: emptyChangeContextMarker := by decide
    exact not_prefix_of_head_ne hfirst hat ⟨[], by rw [heq, List.append_nil]⟩
  have heof : Text.trimEnd line ≠ eofMarker := by
    intro heq
    have hfirst : ['*'] <+: eofMarker := by decide
    exact not_prefix_of_head_ne hfirst hstar ⟨[], by rw [heq, List.append_nil]⟩
  unfold processUpdateLine
  simp only [hmove, hcontext, hpre, hempty, heof, ite_self, if_false, or_self, false_and, h]

@[simp] theorem lastChunkIsEmpty_concat (chunks : List UpdateFileChunk) (chunk : UpdateFileChunk) :
    lastChunkIsEmpty (chunks ++ [chunk]) = chunk.isEmpty := by
  simp [lastChunkIsEmpty]

@[simp] theorem mapLastChunk_concat (f : UpdateFileChunk → UpdateFileChunk)
    (chunks : List UpdateFileChunk) (chunk : UpdateFileChunk) :
    mapLastChunk f (chunks ++ [chunk]) = chunks ++ [f chunk] := by
  simp [mapLastChunk]

@[simp] theorem pushChunkLine_concat (f : UpdateFileChunk → UpdateFileChunk)
    (chunks : List UpdateFileChunk) (chunk : UpdateFileChunk) :
    pushChunkLine f (chunks ++ [chunk]) = chunks ++ [f chunk] := by
  simp [pushChunkLine]

theorem pushChunkLine_nil (f : UpdateFileChunk → UpdateFileChunk) :
    pushChunkLine f [] = [f (.start none)] := rfl

theorem processUpdateLine_eof {chunks : List UpdateFileChunk}
    (h : lastChunkIsEmpty chunks = false) (lineNumber : Nat) (movePath : Option PathBuf) :
    processUpdateLine lineNumber eofMarker movePath chunks =
      .ok (movePath, mapLastChunk .markEndOfFile chunks) := by
  have htrim : Text.trimEnd eofMarker = eofMarker := by decide
  have hmove : Text.stripPrefix moveToMarker eofMarker = none := by decide
  have hcontext : Text.stripPrefix changeContextMarker eofMarker = none := by decide
  have hempty : eofMarker ≠ emptyChangeContextMarker := by decide
  unfold processUpdateLine
  simp only [htrim, hmove, hcontext, hempty, h, ite_self, if_false, if_true, Bool.false_eq_true,
    and_false]

theorem processUpdateLine_emptyContext {chunks : List UpdateFileChunk}
    (h : lastChunkIsEmpty chunks = false) (lineNumber : Nat) (movePath : Option PathBuf) :
    processUpdateLine lineNumber emptyChangeContextMarker movePath chunks =
      .ok (movePath, chunks ++ [.start none]) := by
  have htrim : Text.trimEnd emptyChangeContextMarker = emptyChangeContextMarker := by decide
  have hmove : Text.stripPrefix moveToMarker emptyChangeContextMarker = none := by decide
  unfold processUpdateLine
  simp only [htrim, hmove, h, ite_self, if_false, if_true, Bool.false_eq_true, and_false]

theorem trimEnd_context_head (context rest : Text) :
    Text.trimEnd (changeContextMarker ++ context) ≠ '*' :: rest := by
  intro heq
  rcases Text.trimEnd_head (changeContextMarker ++ context) with h | h
  · rw [h] at heq
    cases heq
  · rw [heq] at h
    obtain ⟨tail, htail⟩ : ['@'] <+: changeContextMarker := by decide
    rw [← htail] at h
    simp at h

theorem processUpdateLine_context {chunks : List UpdateFileChunk} {context : Text}
    (h : lastChunkIsEmpty chunks = false)
    (htrim : Text.trimEnd (changeContextMarker ++ context) = changeContextMarker ++ context)
    (lineNumber : Nat) (movePath : Option PathBuf) :
    processUpdateLine lineNumber (changeContextMarker ++ context) movePath chunks =
      .ok (movePath, chunks ++ [.start (some context)]) := by
  have hmove : Text.stripPrefix moveToMarker (changeContextMarker ++ context) = none := by
    refine stripPrefix_of_head_ne (c := '*') (by decide) ?_
    exact htrim ▸ trimEnd_context_head context
  have hempty : changeContextMarker ++ context ≠ emptyChangeContextMarker := by
    intro heq
    have hlength := congrArg List.length heq
    have h3 : changeContextMarker.length = 3 := by decide
    have h2 : emptyChangeContextMarker.length = 2 := by decide
    rw [List.length_append] at hlength
    omega
  unfold processUpdateLine
  simp only [htrim, hmove, hempty, stripPrefix_append, h, ite_self, if_false, Bool.false_eq_true,
    and_false]

theorem processUpdateLine_cases {lineNumber : Nat} {line : Text}
    {movePath movePath' : Option PathBuf} {chunks chunks' : List UpdateFileChunk}
    (h : processUpdateLine lineNumber line movePath chunks = .ok (movePath', chunks')) :
    (movePath = none ∧ chunks' = chunks ∧
      ∃ path, Text.trimEnd line = moveToMarker ++ path ∧ movePath' = some path) ∨
    (movePath' = movePath ∧
      ((Text.trimEnd line = emptyChangeContextMarker ∧ chunks' = chunks ++ [.start none]) ∨
        (∃ context, Text.trimEnd line = changeContextMarker ++ context ∧
          chunks' = chunks ++ [.start (some context)]) ∨
        (Text.trimEnd line = eofMarker ∧ chunks' = mapLastChunk .markEndOfFile chunks) ∨
        (∃ f, chunkLine line = some f ∧ chunks' = pushChunkLine f chunks))) := by
  unfold processUpdateLine at h
  simp only at h
  split at h
  · rename_i path hpath
    split at hpath
    · rename_i hnew
      cases h
      exact .inl ⟨hnew.2, rfl, path, stripPrefix_eq_some.1 hpath, rfl⟩
    · cases hpath
  · split at h
    · cases h
    · split at h
      · rename_i hempty
        cases h
        exact .inr ⟨rfl, .inl ⟨hempty, rfl⟩⟩
      · split at h
        · rename_i context hcontext
          cases h
          exact .inr ⟨rfl, .inr (.inl ⟨context, stripPrefix_eq_some.1 hcontext, rfl⟩)⟩
        · split at h
          · rename_i heof
            split at h
            · cases h
            · cases h
              exact .inr ⟨rfl, .inr (.inr (.inl ⟨heof, rfl⟩))⟩
          · split at h
            · rename_i f hf
              cases h
              exact .inr ⟨rfl, .inr (.inr (.inr ⟨f, hf, rfl⟩))⟩
            · split at h <;> cases h

/-! ## What a line adds to a streamed hunk -/

def keptLines (chunks : List UpdateFileChunk) : Nat :=
  (chunks.map fun chunk => chunk.oldLines.length).sum

/-- A missing context counts less than an empty one. -/
def contextLength (chunks : List UpdateFileChunk) : Nat :=
  (chunks.map fun chunk => (chunk.changeContext.map (·.length + 1)).getD 0).sum

def keptLine (line : Text) : Nat :=
  if Text.trim line = [] ∨ line.head? = some ' ' ∨ line.head? = some '-' then 1 else 0

def contextLine (line : Text) : Nat :=
  ((Text.stripPrefix changeContextMarker (Text.trimEnd line)).map (·.length + 1)).getD 0

@[simp] theorem keptLines_nil : keptLines [] = 0 := rfl

@[simp] theorem contextLength_nil : contextLength [] = 0 := rfl

@[simp] theorem keptLines_concat (chunks : List UpdateFileChunk) (chunk : UpdateFileChunk) :
    keptLines (chunks ++ [chunk]) = keptLines chunks + chunk.oldLines.length := by
  simp [keptLines]

@[simp] theorem contextLength_concat (chunks : List UpdateFileChunk) (chunk : UpdateFileChunk) :
    contextLength (chunks ++ [chunk]) =
      contextLength chunks + (chunk.changeContext.map (·.length + 1)).getD 0 := by
  simp [contextLength]

theorem trim_eq_nil_of_trimEnd {line : Text} (h : Text.trim line = []) : Text.trimEnd line = [] :=
  Text.trimEnd_eq_nil_iff.2 (Text.trim_eq_nil_iff.1 h)

theorem head_of_trimEnd {line : Text} {c : Char} {rest : Text} (h : Text.trimEnd line = c :: rest) :
    line.head? = some c := by
  rcases Text.trimEnd_head line with hnil | hsame
  · rw [hnil] at h
    cases h
  · rw [← hsame, h]
    rfl

/-- A line whose text starts with another character is not kept. -/
theorem keptLine_of_trimEnd {line : Text} {c : Char} {rest : Text}
    (h : Text.trimEnd line = c :: rest) (hc : c ≠ ' ' ∧ c ≠ '-') : keptLine line = 0 := by
  have hblank : Text.trim line ≠ [] := by
    intro hnil
    rw [trim_eq_nil_of_trimEnd hnil] at h
    cases h
  simp [keptLine, head_of_trimEnd h, hblank, hc.1, hc.2]

theorem contextLine_of_head_ne {line : Text} (h : ∀ rest, Text.trimEnd line ≠ '@' :: rest) :
    contextLine line = 0 := by
  rw [contextLine, stripPrefix_of_head_ne (c := '@') (by decide) h]
  rfl

theorem contextLine_chunkLine {line : Text} {f : UpdateFileChunk → UpdateFileChunk}
    (h : chunkLine line = some f) : contextLine line = 0 :=
  contextLine_of_head_ne fun rest => trimEnd_chunkLine h (.inr rfl) rest

theorem contextLine_of_blank {line : Text} (h : Text.trim line = []) : contextLine line = 0 := by
  apply contextLine_of_head_ne
  intro rest hrest
  rw [trim_eq_nil_of_trimEnd h] at hrest
  cases hrest

/-- The line is pushed to its chunk, as a kept line or not. -/
theorem oldLines_chunkLine {line : Text} {f : UpdateFileChunk → UpdateFileChunk}
    (h : chunkLine line = some f) (chunk : UpdateFileChunk) :
    (f chunk).oldLines.length = chunk.oldLines.length + keptLine line ∧
      (f chunk).changeContext = chunk.changeContext ∧ (f chunk).isEmpty = false := by
  unfold chunkLine at h
  split at h
  · cases h
    simp [UpdateFileChunk.pushContext, UpdateFileChunk.isEmpty, keptLine,
      Text.trim, Text.trimStart, Text.trimEnd]
  · cases h
    simp [UpdateFileChunk.pushContext, UpdateFileChunk.isEmpty, keptLine]
  · rename_i rest
    cases h
    have hblank : Text.trim ('+' :: rest) ≠ [] := by
      intro hnil
      exact absurd (Text.trim_eq_nil_iff.1 hnil '+' List.mem_cons_self) (by decide)
    simp [UpdateFileChunk.pushAdded, UpdateFileChunk.isEmpty, keptLine, hblank]
  · cases h
    simp [UpdateFileChunk.pushRemoved, UpdateFileChunk.isEmpty, keptLine]
  · cases h

theorem totals_pushChunkLine {line : Text} {f : UpdateFileChunk → UpdateFileChunk}
    (h : chunkLine line = some f) (chunks : List UpdateFileChunk) :
    keptLines (pushChunkLine f chunks) = keptLines chunks + keptLine line ∧
      contextLength (pushChunkLine f chunks) = contextLength chunks := by
  rcases List.eq_nil_or_concat chunks with rfl | ⟨front, last, rfl⟩
  · obtain ⟨hold, hcontext, -⟩ := oldLines_chunkLine h (.start none)
    simp only [pushChunkLine_nil, keptLines, contextLength, List.map_cons, List.map_nil,
      List.sum_cons, List.sum_nil, hold, hcontext]
    simp [UpdateFileChunk.start]
  · obtain ⟨hold, hcontext, -⟩ := oldLines_chunkLine h last
    simp only [List.concat_eq_append, pushChunkLine_concat, keptLines_concat,
      contextLength_concat, hold, hcontext, and_true]
    omega

theorem totals_markEndOfFile (chunks : List UpdateFileChunk) :
    keptLines (mapLastChunk .markEndOfFile chunks) = keptLines chunks ∧
      contextLength (mapLastChunk .markEndOfFile chunks) = contextLength chunks := by
  rcases List.eq_nil_or_concat chunks with rfl | ⟨front, last, rfl⟩
  · exact ⟨rfl, rfl⟩
  · simp [UpdateFileChunk.markEndOfFile]

theorem exists_cons_of_head (c : Char) (pre : Text) (h : [c] <+: pre) (rest : Text) :
    ∃ tail, pre ++ rest = c :: tail := by
  obtain ⟨tail, rfl⟩ := h
  exact ⟨tail ++ rest, rfl⟩

/-- Whatever the hunk holds already, an accepted line adds the same to it. -/
theorem processUpdateLine_totals {lineNumber : Nat} {line : Text}
    {movePath movePath' : Option PathBuf} {chunks chunks' : List UpdateFileChunk}
    (h : processUpdateLine lineNumber line movePath chunks = .ok (movePath', chunks')) :
    keptLines chunks' = keptLines chunks + keptLine line ∧
      contextLength chunks' = contextLength chunks + contextLine line := by
  rcases processUpdateLine_cases h with ⟨-, rfl, path, hline, -⟩ | ⟨-, hcase⟩
  · obtain ⟨tail, htail⟩ := exists_cons_of_head '*' moveToMarker (by decide) path
    rw [htail] at hline
    rw [keptLine_of_trimEnd hline (by decide), contextLine_of_head_ne (by simp [hline])]
    exact ⟨rfl, rfl⟩
  · rcases hcase with ⟨hline, rfl⟩ | ⟨context, hline, rfl⟩ | ⟨hline, rfl⟩ | ⟨f, hf, rfl⟩
    · have hnone : Text.stripPrefix changeContextMarker emptyChangeContextMarker = none := by
        decide
      have hempty : Text.trimEnd line = '@' :: ['@'] := hline
      rw [keptLine_of_trimEnd hempty (by decide), contextLine, hline, hnone]
      simp [UpdateFileChunk.start]
    · obtain ⟨tail, htail⟩ := exists_cons_of_head '@' changeContextMarker (by decide) context
      rw [keptLine_of_trimEnd (hline.trans htail) (by decide), contextLine, hline,
        stripPrefix_append]
      simp [UpdateFileChunk.start]
    · obtain ⟨tail, htail⟩ := exists_cons_of_head '*' eofMarker (by decide) []
      rw [List.append_nil] at htail
      have hstar : Text.trimEnd line = '*' :: tail := hline.trans htail
      rw [keptLine_of_trimEnd hstar (by decide), contextLine_of_head_ne (by simp [hstar])]
      exact totals_markEndOfFile chunks
    · rw [contextLine_chunkLine hf]
      exact totals_pushChunkLine hf chunks

theorem feedUpdate_totals {lineNumber : Nat} {lines : List Text}
    {hunk hunk' : Option PathBuf × List UpdateFileChunk}
    (h : feedUpdate lineNumber lines hunk = .ok hunk') :
    keptLines hunk'.2 = keptLines hunk.2 + (lines.map keptLine).sum ∧
      contextLength hunk'.2 = contextLength hunk.2 + (lines.map contextLine).sum := by
  induction lines generalizing lineNumber hunk with
  | nil =>
      cases h
      exact ⟨rfl, rfl⟩
  | cons line lines ih =>
      cases hstep : processUpdateLine (lineNumber + 1) line hunk.1 hunk.2 with
      | error e =>
          rw [feedUpdate_cons_error hstep] at h
          cases h
      | ok next =>
          rw [feedUpdate_cons_ok hstep] at h
          obtain ⟨hkept, hcontext⟩ := processUpdateLine_totals hstep
          obtain ⟨hkept', hcontext'⟩ := ih h
          simp only [List.map_cons, List.sum_cons]
          omega

/-- A destination, once read, stays. -/
theorem feedUpdate_movePath {lineNumber : Nat} {lines : List Text} {path : PathBuf}
    {hunk hunk' : Option PathBuf × List UpdateFileChunk}
    (h : feedUpdate lineNumber lines hunk = .ok hunk') (hpath : hunk.1 = some path) :
    hunk'.1 = some path := by
  induction lines generalizing lineNumber hunk with
  | nil =>
      cases h
      exact hpath
  | cons line lines ih =>
      cases hstep : processUpdateLine (lineNumber + 1) line hunk.1 hunk.2 with
      | error e =>
          rw [feedUpdate_cons_error hstep] at h
          cases h
      | ok next =>
          rw [feedUpdate_cons_ok hstep] at h
          refine ih h ?_
          rcases processUpdateLine_cases hstep with ⟨hnone, -⟩ | ⟨hsame, -⟩
          · rw [hpath] at hnone
            cases hnone
          · exact hsame.trans hpath

/-! ## The scan -/

/-- Where a line of a patch stands: outside the update hunks, right after a
line that ends or precedes the content of a chunk, or inside a chunk. -/
inductive Place
  | outside
  | opened
  | inChunk
deriving DecidableEq, Repr

namespace Place

/-- The place after a line, if both parsers read the line alike: inside an update
hunk no blank line may be one that the batch parser skips, and no destination
and no context may end in whitespace. -/
def next (place : Place) (line : Text) : Option Place :=
  if place = outside then
    some (if updateFileMarker <+: Text.trim line then opened else outside)
  else if Text.trim line = [] then
    if place = opened ∨ (chunkLine line).isNone then none else some inChunk
  else if changeContextMarker <+: line then
    if Text.trimEnd line = line then some inChunk else none
  else if moveToMarker <+: line then
    if Text.trimEnd line = line then some opened else none
  else if updateFileMarker <+: line ∨ line = eofMarker then some opened
  else if addFileMarker <+: line ∨ deleteFileMarker <+: line then some outside
  else some inChunk

def scan (place : Place) (lines : List Text) : Option Place := lines.foldlM next place

@[simp] theorem scan_nil (place : Place) : place.scan [] = some place := rfl

theorem scan_cons (place : Place) (line : Text) (lines : List Text) :
    place.scan (line :: lines) = (place.next line).bind (·.scan lines) := by
  simp [scan, List.foldlM_cons]

theorem scan_append (place : Place) (as bs : List Text) :
    place.scan (as ++ bs) = (place.scan as).bind (·.scan bs) := by
  simp [scan, List.foldlM_append]

theorem next_of_blank {place : Place} {line : Text} (hplace : place ≠ outside)
    (hline : Text.trim line = []) (h : place = opened ∨ chunkLine line = none) :
    place.next line = none := by
  have hskipped : place = opened ∨ (chunkLine line).isNone = true := by
    rw [Option.isNone_iff_eq_none]
    exact h
  rw [next, if_neg hplace, if_pos hline, if_pos hskipped]

theorem next_of_context {place : Place} {line : Text} (hplace : place ≠ outside)
    (hblank : Text.trim line ≠ []) (hline : changeContextMarker <+: line) :
    place.next line = if Text.trimEnd line = line then some inChunk else none := by
  rw [next, if_neg hplace, if_neg hblank, if_pos hline]

/-- A line that carries none of the markers is content. -/
theorem next_of_no_marker {place : Place} {line : Text} (hplace : place ≠ outside)
    (hblank : Text.trim line ≠ []) (hcontext : ¬ changeContextMarker <+: line)
    (hstar : line.head? ≠ some '*') : place.next line = some inChunk := by
  have hno : ∀ marker : Text, ['*'] <+: marker → ¬ marker <+: line := by
    rintro marker ⟨tail, rfl⟩ ⟨rest, rfl⟩
    exact hstar rfl
  have hmove := hno moveToMarker (by decide)
  have hupdate := hno updateFileMarker (by decide)
  have hadd := hno addFileMarker (by decide)
  have hdelete := hno deleteFileMarker (by decide)
  have heof : line ≠ eofMarker := by
    rintro rfl
    exact hno eofMarker (by decide) List.prefix_rfl
  rw [next, if_neg hplace, if_neg hblank, if_neg hcontext, if_neg hmove, if_neg (by simp_all),
    if_neg (by simp_all)]

theorem next_of_chunkLine {place : Place} {line : Text} {f : UpdateFileChunk → UpdateFileChunk}
    (hplace : place ≠ outside) (hf : chunkLine line = some f)
    (h : place = inChunk ∨ Text.trim line ≠ []) : place.next line = some inChunk := by
  by_cases hblank : Text.trim line = []
  · have hin : place = inChunk := h.resolve_right (not_not_intro hblank)
    rw [next, if_neg hplace, if_pos hblank, if_neg (by simp [hin, hf])]
  · have hhead := chunkLine_head hf
    have hstar : line.head? ≠ some '*' := by
      rcases hhead with rfl | hhead | hhead | hhead <;> simp_all
    have hcontext : ¬ changeContextMarker <+: line := by
      apply not_prefix_of_head_ne (c := '@') (by decide)
      rintro rest rfl
      rcases hhead with hhead | hhead | hhead | hhead <;> simp_all
    exact next_of_no_marker hplace hblank hcontext hstar

theorem next_eofMarker : inChunk.next eofMarker = some opened := by decide

end Place

end Codewith.ApplyPatch
