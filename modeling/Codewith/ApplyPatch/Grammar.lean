import Codewith.ApplyPatch.UpdateLines

/-!
# The grammar of patches

A patch is written line by line, as the grammar of the format says: a header for each hunk, a
plus before every line of an added file, and an update as chunks, each introduced by a context
line.  Every text that the grammar has for a list of hunks is parsed to that list.
-/

namespace Codewith.ApplyPatch

open Lib

/-! ### What can be written -/

/-- A line of a file: it survives being cut out of a text. -/
def IsLine (line : Text) : Prop := '\n' ∉ line ∧ line.getLast? ≠ some '\r'

def IsFilename (path : PathBuf) : Prop := path ≠ [] ∧ '\n' ∉ path ∧ Text.trim path = path

instance (line : Text) : Decidable (IsLine line) := inferInstanceAs (Decidable (_ ∧ _))

instance (path : PathBuf) : Decidable (IsFilename path) := inferInstanceAs (Decidable (_ ∧ _))

/-- The lines of a chunk, with the old and the new lines that they stand for. -/
inductive ChangeLines : List Text → List Text → List Text → Prop
  | nil : ChangeLines [] [] []
  | context {line : Text} {lines oldLines newLines : List Text} (hline : IsLine line)
      (hrest : ChangeLines lines oldLines newLines) :
      ChangeLines ((' ' :: line) :: lines) (line :: oldLines) (line :: newLines)
  | added {line : Text} {lines oldLines newLines : List Text} (hline : IsLine line)
      (hrest : ChangeLines lines oldLines newLines) :
      ChangeLines (('+' :: line) :: lines) oldLines (line :: newLines)
  | removed {line : Text} {lines oldLines newLines : List Text} (hline : IsLine line)
      (hrest : ChangeLines lines oldLines newLines) :
      ChangeLines (('-' :: line) :: lines) (line :: oldLines) newLines

def contextHeader : Option Text → Text
  | none => emptyChangeContextMarker
  | some context => changeContextMarker ++ context

def eofLines (isEndOfFile : Bool) : List Text := if isEndOfFile then [eofMarker] else []

inductive ChunkLines : UpdateFileChunk → List Text → Prop
  | chunk {chunk : UpdateFileChunk} {lines : List Text}
      (hcontext : ∀ context ∈ chunk.changeContext, IsLine context) (hlines : lines ≠ [])
      (hchange : ChangeLines lines chunk.oldLines chunk.newLines) :
      ChunkLines chunk
        (contextHeader chunk.changeContext :: (lines ++ eofLines chunk.isEndOfFile))

def moveLines : Option PathBuf → List Text
  | none => []
  | some dest => [moveToMarker ++ dest]

inductive HunkLines : Hunk → List Text → Prop
  | addFile {path : PathBuf} {lines : List Text} (hpath : IsFilename path) (hlines : lines ≠ [])
      (hline : ∀ line ∈ lines, IsLine line) :
      HunkLines (.addFile path (addedContents lines))
        ((addFileMarker ++ path) :: lines.map ('+' :: ·))
  | deleteFile {path : PathBuf} (hpath : IsFilename path) :
      HunkLines (.deleteFile path) [deleteFileMarker ++ path]
  | updateFile {path : PathBuf} {movePath : Option PathBuf} {chunks : List UpdateFileChunk}
      {blocks : List (List Text)} (hpath : IsFilename path)
      (hmove : ∀ dest ∈ movePath, IsFilename dest) (hchunks : chunks ≠ [])
      (hblocks : List.Forall₂ ChunkLines chunks blocks) :
      HunkLines (.updateFile path movePath chunks)
        ((updateFileMarker ++ path) :: (moveLines movePath ++ blocks.flatten))

/-- Lines, each with its line feed. -/
def terminated (lines : List Text) : Text := (lines.map (· ++ ['\n'])).flatten

/-- The texts of a patch.  Only the last line feed may be left out. -/
def PatchText (hunks : List Hunk) (patch : Text) : Prop :=
  ∃ blocks ending, List.Forall₂ HunkLines hunks blocks ∧ (ending = [] ∨ ending = ['\n']) ∧
    patch = terminated (beginPatchMarker :: blocks.flatten) ++ endPatchMarker ++ ending

/-! ### Chunks -/

/-- The line that a hunk starts with. -/
def IsHeader (line : Text) : Prop := line.head? = some '*' ∧ line ≠ eofMarker

/-- Nothing is left, or another hunk starts. -/
def StartsHunk (rest : List Text) : Prop := ∀ line ∈ rest.head?, IsHeader line

/-- Nothing is left, or another chunk or hunk starts. -/
def StartsChunk (rest : List Text) : Prop :=
  ∀ line ∈ rest.head?, line.head? = some '@' ∨ IsHeader line

theorem eofMarker_head : eofMarker.head? = some '*' := by decide

theorem ne_eofMarker {line : Text} (h : line.head? ≠ some '*') : line ≠ eofMarker := by
  rintro rfl
  exact h eofMarker_head

theorem chunkLine_none {line : Text} (h : line.head? = some '@' ∨ IsHeader line) :
    chunkLine line = none := by
  rcases line with _ | ⟨c, line⟩
  · simp [IsHeader] at h
  · simp only [IsHeader, List.head?_cons, Option.some.injEq] at h
    rcases h with rfl | ⟨rfl, -⟩ <;> rfl

/-- What the lines of a chunk add to what has been read. -/
def UpdateFileChunk.extend (chunk : UpdateFileChunk) (oldLines newLines : List Text) :
    UpdateFileChunk :=
  { chunk with
    oldLines := chunk.oldLines ++ oldLines
    newLines := chunk.newLines ++ newLines }

theorem parseChunkLines_change {lineNumber : Nat} {lines oldLines newLines rest : List Text}
    (h : ChangeLines lines oldLines newLines) (chunk : UpdateFileChunk) (parsedLines : Nat) :
    parseChunkLines lineNumber (lines ++ rest) chunk parsedLines =
      parseChunkLines lineNumber rest (chunk.extend oldLines newLines)
        (parsedLines + lines.length) := by
  induction h generalizing chunk parsedLines with
  | nil => simp [UpdateFileChunk.extend]
  | context hline hrest ih =>
      rename_i line lines oldLines newLines
      have hnot : ' ' :: line ≠ eofMarker := ne_eofMarker (by simp)
      rw [List.cons_append, parseChunkLines, if_neg hnot]
      simp only [chunkLine]
      rw [ih]
      simp [UpdateFileChunk.extend, UpdateFileChunk.pushContext, Nat.add_assoc, Nat.add_comm 1]
  | added hline hrest ih =>
      rename_i line lines oldLines newLines
      have hnot : '+' :: line ≠ eofMarker := ne_eofMarker (by simp)
      rw [List.cons_append, parseChunkLines, if_neg hnot]
      simp only [chunkLine]
      rw [ih]
      simp [UpdateFileChunk.extend, UpdateFileChunk.pushAdded, Nat.add_assoc, Nat.add_comm 1]
  | removed hline hrest ih =>
      rename_i line lines oldLines newLines
      have hnot : '-' :: line ≠ eofMarker := ne_eofMarker (by simp)
      rw [List.cons_append, parseChunkLines, if_neg hnot]
      simp only [chunkLine]
      rw [ih]
      simp [UpdateFileChunk.extend, UpdateFileChunk.pushRemoved, Nat.add_assoc, Nat.add_comm 1]

theorem parseChunkLines_end {lineNumber parsedLines : Nat} {rest : List Text}
    {chunk : UpdateFileChunk} {isEndOfFile : Bool} (hrest : StartsChunk rest)
    (hparsed : parsedLines ≠ 0) (hchunk : chunk.isEndOfFile = false) :
    parseChunkLines lineNumber (eofLines isEndOfFile ++ rest) chunk parsedLines =
      .ok ({ chunk with isEndOfFile := isEndOfFile },
        parsedLines + (eofLines isEndOfFile).length) := by
  cases isEndOfFile with
  | true =>
      rw [show eofLines true = [eofMarker] from rfl, List.cons_append, parseChunkLines, if_pos rfl,
        if_neg hparsed]
      rfl
  | false =>
      have hsame : { chunk with isEndOfFile := false } = chunk := by rw [← hchunk]
      rw [show eofLines false = [] from rfl, List.nil_append, hsame]
      cases rest with
      | nil => rfl
      | cons line rest =>
          have hline := hrest line rfl
          have hnot : line ≠ eofMarker := by
            rcases hline with hat | hheader
            · exact ne_eofMarker (by simp [hat])
            · exact hheader.2
          rw [parseChunkLines, if_neg hnot, chunkLine_none hline]
          simp [hparsed]

theorem contextHeader_head (context : Option Text) :
    (contextHeader context).head? = some '@' := by
  cases context with
  | none => decide
  | some context =>
      have hmarker : changeContextMarker.head? = some '@' := by decide
      unfold contextHeader
      rw [List.head?_append, hmarker]
      rfl

theorem parseChangeContext_header (context : Option Text) (lineNumber : Nat)
    (allowMissingContext : Bool) :
    parseChangeContext (contextHeader context) lineNumber allowMissingContext =
      .ok (context, 1) := by
  unfold parseChangeContext contextHeader
  cases context with
  | none => exact if_pos rfl
  | some context =>
      have hne : changeContextMarker ++ context ≠ emptyChangeContextMarker := by
        intro h
        have hlength := congrArg List.length h
        rw [List.length_append, show changeContextMarker.length = 3 by decide,
          show emptyChangeContextMarker.length = 2 by decide] at hlength
        omega
      dsimp only
      rw [if_neg hne, stripPrefix_append]

/-- The lines of a chunk are parsed to it, whatever follows them. -/
theorem parseUpdateFileChunk_chunkLines {chunk : UpdateFileChunk} {lines rest : List Text}
    (h : ChunkLines chunk lines) (hrest : StartsChunk rest) (lineNumber : Nat)
    (allowMissingContext : Bool) :
    parseUpdateFileChunk (lines ++ rest) lineNumber allowMissingContext =
      .ok (chunk, lines.length) := by
  obtain ⟨hcontext, hlines, hchange⟩ := h
  rename_i body
  have hbody : 0 < body.length := List.length_pos_iff.mpr hlines
  have hparsed : parseChunkLines lineNumber (body ++ (eofLines chunk.isEndOfFile ++ rest))
      (.start chunk.changeContext) 0 =
      .ok (chunk, body.length + (eofLines chunk.isEndOfFile).length) := by
    rw [parseChunkLines_change hchange, parseChunkLines_end hrest (by omega) rfl, Nat.zero_add]
    rfl
  have hlong : ¬ (contextHeader chunk.changeContext ::
      (body ++ (eofLines chunk.isEndOfFile ++ rest))).length ≤ 1 := by
    rw [List.length_cons, List.length_append]
    omega
  rw [List.cons_append, List.append_assoc, parseUpdateFileChunk, parseChangeContext_header]
  simp only [bind, Except.bind, if_neg hlong, List.drop_succ_cons, List.drop_zero, hparsed]
  rw [List.length_cons, List.length_append]
  rfl

theorem trim_ne_nil_of_head {line : Text} {c : Char} (hhead : line.head? = some c)
    (hc : Text.isWhitespace c = false) : Text.trim line ≠ [] := by
  intro h
  have hall := Text.trim_eq_nil_iff.mp h c (List.mem_of_mem_head? hhead)
  rw [hc] at hall
  cases hall

theorem ChunkLines.startsChunk {chunk : UpdateFileChunk} {lines : List Text}
    (h : ChunkLines chunk lines) : ∃ header body, lines = header :: body ∧
      header.head? = some '@' := by
  obtain ⟨hcontext, hlines, hchange⟩ := h
  exact ⟨_, _, rfl, contextHeader_head _⟩

/-- Every chunk has a line. -/
theorem length_le_flatten {chunks : List UpdateFileChunk} {blocks : List (List Text)}
    (h : List.Forall₂ ChunkLines chunks blocks) : chunks.length ≤ blocks.flatten.length := by
  induction h with
  | nil => exact le_rfl
  | cons hfirst _ ih =>
      obtain ⟨header, body, rfl, -⟩ := hfirst.startsChunk
      rw [List.length_cons, List.flatten_cons, List.length_append, List.length_cons]
      omega

/-- Chunk after chunk, up to the next hunk. -/
theorem parseChunks_blocks {chunks : List UpdateFileChunk} {blocks : List (List Text)}
    {rest : List Text} (h : List.Forall₂ ChunkLines chunks blocks) (hrest : StartsHunk rest)
    (lineNumber bound parsedLines : Nat) (parsed : List UpdateFileChunk)
    (hbound : chunks.length ≤ bound) :
    parseChunks lineNumber bound (blocks.flatten ++ rest) parsedLines parsed =
      .ok (parsed ++ chunks, parsedLines + blocks.flatten.length) := by
  induction h generalizing bound parsedLines parsed with
  | nil =>
      rw [List.flatten_nil, List.nil_append, List.append_nil]
      cases bound with
      | zero => rfl
      | succ bound =>
          cases rest with
          | nil => rfl
          | cons line rest =>
              have hheader := hrest line rfl
              rw [parseChunks, if_neg (trim_ne_nil_of_head hheader.1 (by decide)),
                if_pos hheader.1]
              rfl
  | cons hfirst hblocks ih =>
      rename_i chunk block chunks blocks
      have hnext : StartsChunk (blocks.flatten ++ rest) := by
        cases hblocks with
        | nil =>
            intro line hline
            exact .inr (hrest line hline)
        | cons hsecond _ =>
            obtain ⟨header, body, rfl, hhead⟩ := hsecond.startsChunk
            intro line hline
            rw [List.flatten_cons, List.cons_append, List.cons_append, List.head?_cons,
              Option.mem_some_iff] at hline
            exact .inl (hline ▸ hhead)
      obtain ⟨bound, rfl⟩ : ∃ more, bound = more + 1 :=
        Nat.exists_eq_add_one.mpr (by rw [List.length_cons] at hbound; omega)
      rw [List.length_cons, Nat.add_le_add_iff_right] at hbound
      have hparsed := parseUpdateFileChunk_chunkLines hfirst hnext (lineNumber + parsedLines)
        parsed.isEmpty
      obtain ⟨header, body, rfl, hhead⟩ := hfirst.startsChunk
      rw [List.flatten_cons, List.append_assoc]
      rw [List.cons_append] at hparsed ⊢
      rw [parseChunks, if_neg (trim_ne_nil_of_head hhead (by decide)), if_neg (by simp [hhead]),
        hparsed]
      simp only [bind, Except.bind]
      rw [← List.cons_append, List.drop_left, ih _ _ _ hbound, List.length_append,
        List.append_assoc, Nat.add_assoc]
      rfl

/-! ### Hunks -/

theorem IsFilename.trimEnd {path : PathBuf} (h : IsFilename path) : Text.trimEnd path = path := by
  have hend := congrArg Text.trimEnd h.2.2
  rw [Text.trim, Text.trimEnd_trimEnd, ← Text.trim, h.2.2] at hend
  exact hend.symm

theorem trim_header {marker path : Text} (hmarker : marker.head? = some '*')
    (hpath : IsFilename path) : Text.trim (marker ++ path) = marker ++ path := by
  have hhead : (marker ++ path).head? = some '*' := by
    rw [List.head?_append, hmarker]
    rfl
  rw [Text.trim_of_head hhead (by decide), Text.trimEnd_append_of_ne_nil _ (by
    rw [hpath.trimEnd]
    exact hpath.1), hpath.trimEnd]

theorem addedLines_plus (lines rest : List Text) (hrest : StartsHunk rest) :
    addedLines (lines.map ('+' :: ·) ++ rest) = lines := by
  induction lines with
  | nil =>
      cases rest with
      | nil => rfl
      | cons line rest =>
          have hhead := (hrest line rfl).1
          rcases line with _ | ⟨c, line⟩
          · simp at hhead
          · rw [List.head?_cons, Option.some.injEq] at hhead
            subst hhead
            rfl
  | cons line lines ih =>
      rw [List.map_cons, List.cons_append, addedLines, ih]

theorem moveLine_moveLines {movePath : Option PathBuf} {chunks : List UpdateFileChunk}
    {blocks : List (List Text)} (hchunks : chunks ≠ [])
    (hblocks : List.Forall₂ ChunkLines chunks blocks) (rest : List Text) :
    moveLine (moveLines movePath ++ blocks.flatten ++ rest) = movePath := by
  cases movePath with
  | some dest => exact stripPrefix_append moveToMarker dest
  | none =>
      cases hblocks with
      | nil => exact absurd rfl hchunks
      | cons hfirst _ =>
          obtain ⟨header, body, rfl, hhead⟩ := hfirst.startsChunk
          refine stripPrefix_of_head_ne (c := '*') (by decide) ?_
          rintro more rfl
          simp at hhead

/-- The lines of a hunk are parsed to it, whatever follows them. -/
theorem parseOneHunk_hunkLines {hunk : Hunk} {lines rest : List Text} (h : HunkLines hunk lines)
    (hrest : StartsHunk rest) (lineNumber : Nat) :
    parseOneHunk (lines ++ rest) lineNumber = .ok (hunk, lines.length) := by
  cases h with
  | addFile hpath hlines hline =>
      rename_i path lines
      rw [List.cons_append, parseOneHunk]
      simp only [List.headD_cons, List.tail_cons]
      rw [trim_header (by decide) hpath, stripPrefix_append]
      simp only [addedLines_plus lines rest hrest]
      rw [List.length_cons, List.length_map, Nat.add_comm]
  | deleteFile hpath =>
      rename_i path
      rw [List.cons_append, parseOneHunk]
      simp only [List.headD_cons, List.tail_cons]
      rw [trim_header (by decide) hpath,
        stripPrefix_eq_none (List.prefix_append deleteFileMarker path) (by decide),
        stripPrefix_append]
      rfl
  | updateFile hpath hmove hchunks hblocks =>
      rename_i path movePath chunks blocks
      rw [List.cons_append, parseOneHunk]
      simp only [List.headD_cons, List.tail_cons]
      rw [trim_header (by decide) hpath,
        stripPrefix_eq_none (List.prefix_append updateFileMarker path) (by decide),
        stripPrefix_eq_none (List.prefix_append updateFileMarker path) (by decide),
        stripPrefix_append]
      simp only [parseUpdateFile, moveLine_moveLines hchunks hblocks]
      have hmoved : (moveLines movePath ++ blocks.flatten ++ rest).drop
          (if movePath.isSome then 1 else 0) = blocks.flatten ++ rest := by
        cases movePath <;> rfl
      have hmoveLength : (moveLines movePath).length = if movePath.isSome then 1 else 0 := by
        cases movePath <;> rfl
      have hbound : chunks.length ≤ (moveLines movePath ++ blocks.flatten ++ rest).length := by
        have := length_le_flatten hblocks
        rw [List.length_append, List.length_append]
        omega
      rw [hmoved, parseChunks_blocks hblocks hrest _ _ _ _ hbound]
      simp only [bind, Except.bind, List.nil_append, if_neg hchunks]
      rw [List.length_cons, List.length_append, hmoveLength]
      simp [pure, Except.pure]
      omega

/-- The first line of a hunk is its header. -/
theorem HunkLines.startsHunk {hunk : Hunk} {lines : List Text} (h : HunkLines hunk lines) :
    ∃ header body, lines = header :: body ∧ IsHeader header ∧
      Text.stripPrefix environmentIdMarker (Text.trimStart header) = none := by
  have hgeneral : ∀ {marker path : Text}, marker.head? = some '*' →
      ¬ (environmentIdMarker <+: marker ∨ marker <+: environmentIdMarker) →
      ¬ (eofMarker <+: marker ∨ marker <+: eofMarker) →
      IsHeader (marker ++ path) ∧
        Text.stripPrefix environmentIdMarker (Text.trimStart (marker ++ path)) = none := by
    intro marker path hmarker henvironment heof
    have hhead : (marker ++ path).head? = some '*' := by
      rw [List.head?_append, hmarker]
      rfl
    refine ⟨⟨hhead, ?_⟩, ?_⟩
    · intro h
      exact heof (.inr ⟨path, h⟩)
    · rw [Text.trimStart_of_head hhead (by decide)]
      exact stripPrefix_eq_none (List.prefix_append marker path) henvironment
  cases h with
  | addFile hpath hlines hline =>
      exact ⟨_, _, rfl, hgeneral (by decide) (by decide) (by decide)⟩
  | deleteFile hpath =>
      exact ⟨_, _, rfl, hgeneral (by decide) (by decide) (by decide)⟩
  | updateFile hpath hmove hchunks hblocks =>
      exact ⟨_, _, rfl, hgeneral (by decide) (by decide) (by decide)⟩

theorem startsHunk_flatten {hunks : List Hunk} {blocks : List (List Text)}
    (h : List.Forall₂ HunkLines hunks blocks) : StartsHunk blocks.flatten := by
  intro line hline
  cases h with
  | nil => simp at hline
  | cons hfirst _ =>
      obtain ⟨header, body, rfl, hheader, -⟩ := hfirst.startsHunk
      rw [List.flatten_cons, List.cons_append, List.head?_cons, Option.mem_some_iff] at hline
      exact hline ▸ hheader

theorem parseHunks_blocks {hunks : List Hunk} {blocks : List (List Text)}
    (h : List.Forall₂ HunkLines hunks blocks) (bound lineNumber : Nat)
    (hbound : blocks.flatten.length ≤ bound) :
    parseHunks bound blocks.flatten lineNumber = .ok hunks := by
  induction h generalizing bound lineNumber with
  | nil => cases bound <;> rfl
  | cons hfirst hblocks ih =>
      rename_i hunk block hunks blocks
      have hparsed := parseOneHunk_hunkLines hfirst (startsHunk_flatten hblocks) lineNumber
      obtain ⟨header, body, rfl, -⟩ := hfirst.startsHunk
      rw [List.flatten_cons, List.length_append, List.length_cons] at hbound
      obtain ⟨bound, rfl⟩ : ∃ more, bound = more + 1 := Nat.exists_eq_add_one.mpr (by omega)
      rw [List.flatten_cons]
      rw [List.cons_append] at hparsed ⊢
      rw [parseHunks, hparsed]
      simp only [bind, Except.bind]
      rw [← List.cons_append, List.drop_left, ih _ _ (by omega)]
      rfl

/-! ### The whole patch -/

theorem pieces_terminated {lines : List Text} (h : ∀ line ∈ lines, '\n' ∉ line) {last : Text}
    (hlast : '\n' ∉ last) : Text.pieces '\n' (terminated lines ++ last) = (lines, last) := by
  induction lines with
  | nil =>
      have hpieces := Text.pieces_append_of_not_mem hlast []
      rw [List.append_nil] at hpieces
      rw [show terminated [] ++ last = last from rfl, hpieces]
      simp [Text.pieces, Text.prepend]
  | cons line lines ih =>
      obtain ⟨hline, hrest⟩ := List.forall_mem_cons.mp h
      have hcons : terminated (line :: lines) ++ last =
          line ++ '\n' :: (terminated lines ++ last) := by simp [terminated]
      rw [hcons, Text.pieces_append_of_not_mem hline, Text.pieces_sep_cons, ih hrest]
      simp [Text.prepend]

theorem dropCarriageReturn_of_isLine {line : Text} (h : IsLine line) :
    Text.dropCarriageReturn line = line := by
  unfold Text.dropCarriageReturn Text.stripSuffixChar
  rw [if_neg h.2]
  rfl

theorem lines_terminated {lines : List Text} (h : ∀ line ∈ lines, IsLine line) {last : Text}
    (hlast : '\n' ∉ last) (hne : last ≠ []) :
    Text.lines (terminated lines ++ last) = lines ++ [last] := by
  unfold Text.lines
  rw [pieces_terminated (fun line hline => (h line hline).1) hlast, if_neg hne]
  congr 1
  rw [List.map_congr_left fun line hline => dropCarriageReturn_of_isLine (h line hline),
    List.map_id']

theorem isLine_append {marker line : Text} (hmarker : '\n' ∉ marker)
    (hlast : marker.getLast? ≠ some '\r') (h : IsLine line) : IsLine (marker ++ line) := by
  refine ⟨?_, ?_⟩
  · rw [List.mem_append]
    rintro (h' | h')
    · exact hmarker h'
    · exact h.1 h'
  · cases line with
    | nil => rwa [List.append_nil]
    | cons c line =>
        rw [List.getLast?_append_of_ne_nil _ (by simp)]
        exact h.2

theorem IsFilename.isLine {path : PathBuf} (h : IsFilename path) : IsLine path := by
  refine ⟨h.2.1, ?_⟩
  intro hlast
  -- a carriage return at the end would have been trimmed
  have hsplit := List.dropLast_append_getLast? '\r' hlast
  have htrim := Text.trimEnd_append_of_allWhitespace path.dropLast Text.allWhitespace_carriageReturn
  rw [hsplit, h.trimEnd] at htrim
  have hlength := (Text.trimEnd_prefix_self path.dropLast).length_le
  rw [← htrim, List.length_dropLast] at hlength
  have hpos := List.length_pos_iff.mpr h.1
  omega

theorem ChangeLines.isLine {lines oldLines newLines : List Text}
    (h : ChangeLines lines oldLines newLines) : ∀ line ∈ lines, IsLine line := by
  have hsign : ∀ (sign : Char) (line : Text), sign ≠ '\n' → sign ≠ '\r' → IsLine line →
      IsLine (sign :: line) := by
    intro sign line hnewline hreturn hline
    have h : IsLine ([sign] ++ line) :=
      isLine_append (by simpa using hnewline.symm) (by simpa using hreturn) hline
    exact h
  induction h with
  | nil => simp
  | context hline _ ih =>
      exact List.forall_mem_cons.mpr ⟨hsign _ _ (by decide) (by decide) hline, ih⟩
  | added hline _ ih =>
      exact List.forall_mem_cons.mpr ⟨hsign _ _ (by decide) (by decide) hline, ih⟩
  | removed hline _ ih =>
      exact List.forall_mem_cons.mpr ⟨hsign _ _ (by decide) (by decide) hline, ih⟩

theorem isLine_marker {marker : Text} (h : marker.all (fun c => c ≠ '\n' ∧ c ≠ '\r') = true) :
    '\n' ∉ marker ∧ marker.getLast? ≠ some '\r' := by
  rw [List.all_eq_true] at h
  refine ⟨fun hmem => ?_, fun hlast => ?_⟩
  · simpa using h _ hmem
  · simpa using h _ (List.mem_of_getLast? hlast)

theorem ChunkLines.isLine {chunk : UpdateFileChunk} {lines : List Text}
    (h : ChunkLines chunk lines) : ∀ line ∈ lines, IsLine line := by
  obtain ⟨hcontext, hlines, hchange⟩ := h
  rw [List.forall_mem_cons, List.forall_mem_append]
  refine ⟨?_, hchange.isLine, ?_⟩
  · cases hcase : chunk.changeContext with
    | none => exact isLine_marker (by decide)
    | some context =>
        have hmarker : '\n' ∉ changeContextMarker ∧ changeContextMarker.getLast? ≠ some '\r' :=
          isLine_marker (by decide)
        exact isLine_append hmarker.1 hmarker.2 (hcontext context hcase)
  · intro line hline
    cases hcase : chunk.isEndOfFile with
    | false => simp [hcase, eofLines] at hline
    | true =>
        rw [hcase] at hline
        rw [List.mem_singleton.mp hline]
        exact isLine_marker (by decide)

theorem isLine_of_mem_flatten {α : Type} {R : α → List Text → Prop} {as : List α}
    {blocks : List (List Text)} (hR : ∀ a lines, R a lines → ∀ line ∈ lines, IsLine line)
    (h : List.Forall₂ R as blocks) : ∀ line ∈ blocks.flatten, IsLine line := by
  induction h with
  | nil => simp
  | cons hfirst _ ih =>
      rw [List.flatten_cons, List.forall_mem_append]
      exact ⟨hR _ _ hfirst, ih⟩

theorem isLine_header {marker path : Text}
    (hmarker : marker.all (fun c => c ≠ '\n' ∧ c ≠ '\r') = true) (hpath : IsFilename path) :
    IsLine (marker ++ path) :=
  isLine_append (isLine_marker hmarker).1 (isLine_marker hmarker).2 hpath.isLine

theorem HunkLines.isLine {hunk : Hunk} {lines : List Text} (h : HunkLines hunk lines) :
    ∀ line ∈ lines, IsLine line := by
  cases h with
  | addFile hpath hlines hline =>
      rename_i path lines
      rw [List.forall_mem_cons]
      refine ⟨isLine_header (by decide) hpath, ?_⟩
      intro line hmem
      obtain ⟨added, hadded, rfl⟩ := List.mem_map.mp hmem
      have h : IsLine (['+'] ++ added) := isLine_append (by simp) (by simp) (hline added hadded)
      exact h
  | deleteFile hpath =>
      rw [List.forall_mem_singleton]
      exact isLine_header (by decide) hpath
  | updateFile hpath hmove hchunks hblocks =>
      rename_i path movePath chunks blocks
      rw [List.forall_mem_cons, List.forall_mem_append]
      refine ⟨isLine_header (by decide) hpath, ?_, ?_⟩
      · cases movePath with
        | none => simp [moveLines]
        | some dest =>
            unfold moveLines
            rw [List.forall_mem_singleton]
            exact isLine_header (by decide) (hmove dest rfl)
      · exact isLine_of_mem_flatten (fun _ _ h => ChunkLines.isLine h) hblocks

/-- Every text that the grammar has for a list of hunks is parsed to that list. -/
theorem parsePatch_patchText {hunks : List Hunk} {patch : Text} (h : PatchText hunks patch) :
    ∃ args, parsePatch patch = .ok args ∧ args.hunks = hunks := by
  obtain ⟨blocks, ending, hblocks, hending, rfl⟩ := h
  have hlines : Text.lines (Text.trim (terminated (beginPatchMarker :: blocks.flatten) ++
      endPatchMarker ++ ending)) = beginPatchMarker :: blocks.flatten ++ [endPatchMarker] := by
    have htrim : Text.trim (terminated (beginPatchMarker :: blocks.flatten) ++ endPatchMarker ++
        ending) = terminated (beginPatchMarker :: blocks.flatten) ++ endPatchMarker := by
      have hending : Text.AllWhitespace ending := by
        rcases hending with rfl | rfl
        · simp [Text.AllWhitespace]
        · intro c hc
          rw [List.mem_singleton.mp hc]
          decide
      have hhead : (terminated (beginPatchMarker :: blocks.flatten) ++ endPatchMarker).head? =
          some '*' := by
        rfl
      have hmarker : Text.trimEnd endPatchMarker = endPatchMarker := by decide
      rw [Text.trim_append_of_allWhitespace _ hending, Text.trim_of_head hhead (by decide),
        Text.trimEnd_append_of_ne_nil _ (by rw [hmarker]; decide), hmarker]
    rw [htrim, lines_terminated ?_ (isLine_marker (by decide)).1 (by decide)]
    rw [List.forall_mem_cons]
    exact ⟨isLine_marker (by decide),
      isLine_of_mem_flatten (fun _ _ h => HunkLines.isLine h) hblocks⟩
  have hboundaries : checkPatchBoundariesLenient
      (beginPatchMarker :: blocks.flatten ++ [endPatchMarker]) =
      .ok (beginPatchMarker :: blocks.flatten ++ [endPatchMarker], blocks.flatten) := by
    have hcheck : checkStartAndEndLinesStrict (some beginPatchMarker) (some endPatchMarker) =
        .ok () := by decide
    have hlast : (beginPatchMarker :: blocks.flatten ++ [endPatchMarker]).getLast? =
        some endPatchMarker := List.getLast?_concat
    unfold checkPatchBoundariesLenient checkPatchBoundariesStrict
    rw [hlast, List.cons_append, List.head?_cons, hcheck]
    simp [bind, Except.bind, pure, Except.pure]
  have hpreamble : parseEnvironmentIdPreamble blocks.flatten = .ok (none, blocks.flatten, 2) := by
    cases hblocks with
    | nil => rfl
    | cons hfirst _ =>
        obtain ⟨header, body, rfl, -, henvironment⟩ := hfirst.startsHunk
        rw [List.flatten_cons, List.cons_append, parseEnvironmentIdPreamble, henvironment]
  unfold parsePatch parsePatchText
  rw [hlines]
  simp only [parseInStrictMode, Bool.false_eq_true, if_false, hboundaries, hpreamble, bind,
    Except.bind, parseHunks_blocks hblocks _ 2 le_rfl]
  exact ⟨_, rfl, rfl⟩

/-! ### What the grammar expresses -/

structure ChunkExpressible (chunk : UpdateFileChunk) : Prop where
  context : ∀ context ∈ chunk.changeContext, IsLine context
  oldLines : ∀ line ∈ chunk.oldLines, IsLine line
  newLines : ∀ line ∈ chunk.newLines, IsLine line
  nonempty : chunk.oldLines ≠ [] ∨ chunk.newLines ≠ []

def Expressible : Hunk → Prop
  | .addFile path contents =>
      IsFilename path ∧ ∃ lines, lines ≠ [] ∧ (∀ line ∈ lines, IsLine line) ∧
        contents = addedContents lines
  | .deleteFile path => IsFilename path
  | .updateFile path movePath chunks =>
      IsFilename path ∧ (∀ dest ∈ movePath, IsFilename dest) ∧ chunks ≠ [] ∧
        ∀ chunk ∈ chunks, ChunkExpressible chunk

/-- All old lines can be removed before the new ones are added. -/
theorem exists_changeLines {oldLines newLines : List Text} (hold : ∀ line ∈ oldLines, IsLine line)
    (hnew : ∀ line ∈ newLines, IsLine line) :
    ChangeLines (oldLines.map ('-' :: ·) ++ newLines.map ('+' :: ·)) oldLines newLines := by
  induction oldLines with
  | nil =>
      induction newLines with
      | nil => exact .nil
      | cons line newLines ih =>
          obtain ⟨hline, hrest⟩ := List.forall_mem_cons.mp hnew
          exact .added hline (ih hrest)
  | cons line oldLines ih =>
      obtain ⟨hline, hrest⟩ := List.forall_mem_cons.mp hold
      exact .removed hline (ih hrest)

theorem ChunkExpressible.exists_chunkLines {chunk : UpdateFileChunk} (h : ChunkExpressible chunk) :
    ∃ lines, ChunkLines chunk lines := by
  refine ⟨_, .chunk h.context ?_ (exists_changeLines h.oldLines h.newLines)⟩
  rcases h.nonempty with hne | hne <;> simp [hne]

theorem exists_blocks {α : Type} {R : α → List Text → Prop} {as : List α}
    (h : ∀ a ∈ as, ∃ lines, R a lines) : ∃ blocks, List.Forall₂ R as blocks := by
  induction as with
  | nil => exact ⟨[], .nil⟩
  | cons a as ih =>
      obtain ⟨⟨lines, hlines⟩, hrest⟩ := List.forall_mem_cons.mp h
      obtain ⟨blocks, hblocks⟩ := ih hrest
      exact ⟨lines :: blocks, .cons hlines hblocks⟩

theorem Expressible.exists_hunkLines {hunk : Hunk} (h : Expressible hunk) :
    ∃ lines, HunkLines hunk lines := by
  cases hunk with
  | addFile path contents =>
      obtain ⟨hpath, lines, hlines, hline, rfl⟩ := h
      exact ⟨_, .addFile hpath hlines hline⟩
  | deleteFile path => exact ⟨_, .deleteFile h⟩
  | updateFile path movePath chunks =>
      obtain ⟨hpath, hmove, hne, hchunks⟩ := h
      obtain ⟨blocks, hblocks⟩ :=
        exists_blocks fun chunk hchunk => (hchunks chunk hchunk).exists_chunkLines
      exact ⟨_, .updateFile hpath hmove hne hblocks⟩

/-- Hunks that the grammar can express are written in some text, and every such text is parsed
to them. -/
theorem parsePatch_roundTrip (hunks : List Hunk) (h : ∀ hunk ∈ hunks, Expressible hunk) :
    (∃ patch, PatchText hunks patch) ∧
      ∀ patch, PatchText hunks patch → ∃ args, parsePatch patch = .ok args ∧
        args.hunks = hunks := by
  refine ⟨?_, fun patch => parsePatch_patchText⟩
  obtain ⟨blocks, hblocks⟩ := exists_blocks fun hunk hhunk => (h hunk hhunk).exists_hunkLines
  exact ⟨_, blocks, [], hblocks, .inl rfl, rfl⟩

/-- Lines that look like markers, or like nothing. -/
def trickyHunks : List Hunk :=
  [.addFile "a".toList (addedContents ["*** End Patch".toList, []]),
    .updateFile "b".toList (some "c d".toList)
      [⟨some "@@".toList, ["*** End of File".toList, []], [], false⟩,
        ⟨none, [], [" ".toList], true⟩],
    .deleteFile "e".toList]

theorem parsePatch_roundTrip_tricky :
    (∃ patch, PatchText trickyHunks patch) ∧
      ∀ patch, PatchText trickyHunks patch →
        ∃ args, parsePatch patch = .ok args ∧ args.hunks = trickyHunks := by
  apply parsePatch_roundTrip
  simp only [trickyHunks, List.forall_mem_cons]
  refine ⟨⟨by decide +kernel, _, by simp, by decide +kernel, rfl⟩,
    ⟨by decide +kernel, ?_, by simp, ?_⟩, (by decide +kernel : IsFilename "e".toList), by simp⟩
  · rintro dest hdest
    cases hdest
    decide +kernel
  · simp only [List.forall_mem_cons]
    refine ⟨⟨?_, by decide +kernel, by decide +kernel, .inl (by simp)⟩,
      ⟨by simp, by decide +kernel, by decide +kernel, .inr (by simp)⟩, by simp⟩
    rintro context hcontext
    cases hcontext
    decide +kernel

end Codewith.ApplyPatch
