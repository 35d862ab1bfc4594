import Codewith.ApplyPatch.Parser

/-!
# The streaming patch parser

The streaming parser is fed the patch text in deltas, cut anywhere.  It keeps
the unfinished line, and a mode that says which hunk the next line belongs to;
a finished line either extends the last hunk or starts the next one.
-/

namespace Codewith.ApplyPatch

open Lib

inductive StreamingParserMode
  | notStarted
  | startedPatch
  | addFile
  | deleteFile
  | updateFile (hunkLineNumber : Nat)
  | endedPatch
deriving DecidableEq, Repr

structure StreamingParserState where
  mode : StreamingParserMode
  hunks : List Hunk
deriving DecidableEq, Repr

structure StreamingPatchParser where
  lineBuffer : Text
  state : StreamingParserState
  lineNumber : Nat
deriving DecidableEq, Repr

def StreamingPatchParser.new : StreamingPatchParser := ⟨[], ⟨.notStarted, []⟩, 0⟩

/-- The last chunk has been opened but has no line yet. -/
def lastChunkIsEmpty (chunks : List UpdateFileChunk) : Bool :=
  chunks.getLast?.any UpdateFileChunk.isEmpty

def mapLastChunk (f : UpdateFileChunk → UpdateFileChunk) (chunks : List UpdateFileChunk) :
    List UpdateFileChunk :=
  chunks.dropLast ++ (chunks.getLast?.map f).toList

/-- A line of a chunk opens the first chunk when there is none. -/
def pushChunkLine (f : UpdateFileChunk → UpdateFileChunk) (chunks : List UpdateFileChunk) :
    List UpdateFileChunk :=
  mapLastChunk f (if chunks = [] then [.start none] else chunks)

section

variable (lineNumber : Nat)

def ensureUpdateHunkIsNotEmpty (s : StreamingParserState) (line : Text) : Except ParseError Unit :=
  match s.hunks.getLast? with
  | some (.updateFile path _ chunks) =>
      match chunks, s.mode with
      | [], .updateFile hunkLineNumber =>
          .error (.invalidHunkError (emptyUpdateMessage path) hunkLineNumber)
      | chunks, _ =>
          if lastChunkIsEmpty chunks then
            if line = endPatchMarker then .error (.invalidHunkError noLinesMessage lineNumber)
            else .error (.invalidHunkError (unexpectedLineMessage line) lineNumber)
          else .ok ()
  | _ => .ok ()

/-- A header or the end marker, when the line is one. -/
def headerStep (s : StreamingParserState) (trimmed : Text) : Option StreamingParserState :=
  if trimmed = endPatchMarker then some { s with mode := .endedPatch }
  else match Text.stripPrefix addFileMarker trimmed with
    | some path => some ⟨.addFile, s.hunks ++ [.addFile path []]⟩
    | none => match Text.stripPrefix deleteFileMarker trimmed with
      | some path => some ⟨.deleteFile, s.hunks ++ [.deleteFile path]⟩
      | none => match Text.stripPrefix updateFileMarker trimmed with
        | some path => some ⟨.updateFile lineNumber, s.hunks ++ [.updateFile path none []]⟩
        | none => none

def handleHunkHeadersAndEndPatch (s : StreamingParserState) (trimmed : Text) :
    Except ParseError (Option StreamingParserState) :=
  match headerStep lineNumber s trimmed with
  | some s' => do
      ensureUpdateHunkIsNotEmpty lineNumber s trimmed
      return some s'
  | none => .ok none

/-- A line of an update hunk, from the hunk's destination and chunks so far. -/
def processUpdateLine (line : Text) (movePath : Option PathBuf) (chunks : List UpdateFileChunk) :
    Except ParseError (Option PathBuf × List UpdateFileChunk) :=
  let updateLine := Text.trimEnd line
  match
    if chunks = [] ∧ movePath = none then Text.stripPrefix moveToMarker updateLine else none with
  | some moveToPath => .ok (some moveToPath, chunks)
  | none =>
      if (updateLine = emptyChangeContextMarker ∨ changeContextMarker <+: updateLine) ∧
          lastChunkIsEmpty chunks then
        .error (.invalidHunkError (unexpectedLineMessage line) lineNumber)
      else if updateLine = emptyChangeContextMarker then .ok (movePath, chunks ++ [.start none])
      else match Text.stripPrefix changeContextMarker updateLine with
        | some changeContext => .ok (movePath, chunks ++ [.start (some changeContext)])
        | none =>
            if updateLine = eofMarker then
              if lastChunkIsEmpty chunks then .error (.invalidHunkError noLinesMessage lineNumber)
              else .ok (movePath, mapLastChunk .markEndOfFile chunks)
            else match chunkLine line with
              | some push => .ok (movePath, pushChunkLine push chunks)
              | none =>
                  if chunks ≠ [] ∧ ¬ lastChunkIsEmpty chunks then
                    .error (.invalidHunkError (expectedContextMessage line) lineNumber)
                  else .error (.invalidHunkError (unexpectedLineMessage line) lineNumber)

def processLine (s : StreamingParserState) (line : Text) :
    Except ParseError StreamingParserState :=
  let trimmed := Text.trim line
  match s.mode with
  | .notStarted =>
      if trimmed = beginPatchMarker then .ok { s with mode := .startedPatch }
      else .error (.invalidPatchError firstLineMessage)
  | .startedPatch =>
      if environmentIdMarker <+: line then .ok s
      else do
        match ← handleHunkHeadersAndEndPatch lineNumber s trimmed with
        | some s' => return s'
        | none => throw (.invalidHunkError (invalidHeaderMessage trimmed) lineNumber)
  | .addFile => do
      match ← handleHunkHeadersAndEndPatch lineNumber s trimmed with
      | some s' => return s'
      | none =>
          match Text.stripPrefix ['+'] line, s.hunks.getLast? with
          | some lineToAdd, some (.addFile path contents) =>
              return { s with hunks := s.hunks.dropLast ++
                [.addFile path (contents ++ lineToAdd ++ ['\n'])] }
          | _, _ => throw (.invalidHunkError (invalidHeaderMessage trimmed) lineNumber)
  | .deleteFile => do
      match ← handleHunkHeadersAndEndPatch lineNumber s trimmed with
      | some s' => return s'
      | none => throw (.invalidHunkError (invalidHeaderMessage trimmed) lineNumber)
  | .updateFile _ => do
      match ← handleHunkHeadersAndEndPatch lineNumber s (Text.trimEnd line) with
      | some s' => return s'
      | none =>
          match s.hunks.getLast? with
          | some (.updateFile path movePath chunks) => do
              let (movePath, chunks) ← processUpdateLine lineNumber line movePath chunks
              return { s with hunks := s.hunks.dropLast ++ [.updateFile path movePath chunks] }
          | _ => throw (.invalidHunkError (unexpectedLineMessage line) lineNumber)
  | .endedPatch => .ok s

end

namespace StreamingPatchParser

def pushChar (p : StreamingPatchParser) (ch : Char) : Except ParseError StreamingPatchParser :=
  if ch = '\n' then do
    let state ← processLine (p.lineNumber + 1) p.state (Text.dropCarriageReturn p.lineBuffer)
    return ⟨[], state, p.lineNumber + 1⟩
  else .ok { p with lineBuffer := p.lineBuffer ++ [ch] }

/-- The parser after a delta; the caller is also shown the hunks so far. -/
def pushDelta (p : StreamingPatchParser) (delta : Text) :
    Except ParseError (StreamingPatchParser × List Hunk) := do
  let p ← delta.foldlM pushChar p
  return (p, p.state.hunks)

/-- The state once the unfinished line has been taken in as the last one. -/
def finishLine (p : StreamingPatchParser) : Except ParseError StreamingParserState :=
  if p.lineBuffer = [] then .ok p.state
  else if Text.trim p.lineBuffer = endPatchMarker then do
    ensureUpdateHunkIsNotEmpty (p.lineNumber + 1) p.state (Text.trim p.lineBuffer)
    return { p.state with mode := .endedPatch }
  else processLine (p.lineNumber + 1) p.state p.lineBuffer

def finish (p : StreamingPatchParser) : Except ParseError (List Hunk) := do
  let state ← p.finishLine
  if state.mode = .endedPatch then return state.hunks
  else throw (.invalidPatchError lastLineMessage)

/-- Feed the deltas one after the other. -/
def pushDeltas (p : StreamingPatchParser) (deltas : List Text) :
    Except ParseError StreamingPatchParser :=
  deltas.foldlM (fun p delta => do return (← p.pushDelta delta).1) p

end StreamingPatchParser

/-- The hunks of a text that arrives in the given deltas. -/
def streamPatch (deltas : List Text) : Except ParseError (List Hunk) := do
  let p ← StreamingPatchParser.new.pushDeltas deltas
  p.finish

/-! ## From characters to lines -/

/-- Take in finished lines, numbered from the one after `lineNumber`. -/
def feedLines : Nat → StreamingParserState → List Text → Except ParseError StreamingParserState
  | _, s, [] => .ok s
  | lineNumber, s, line :: lines => do
      let s ← processLine (lineNumber + 1) s line
      feedLines (lineNumber + 1) s lines

theorem feedLines_cons_ok {lineNumber : Nat} {s s' : StreamingParserState} {line : Text}
    (h : processLine (lineNumber + 1) s line = .ok s') (lines : List Text) :
    feedLines lineNumber s (line :: lines) = feedLines (lineNumber + 1) s' lines := by
  simp only [feedLines, h, bind, Except.bind]

theorem feedLines_cons_error {lineNumber : Nat} {s : StreamingParserState} {line : Text}
    {e : ParseError} (h : processLine (lineNumber + 1) s line = .error e) (lines : List Text) :
    feedLines lineNumber s (line :: lines) = .error e := by
  simp only [feedLines, h, bind, Except.bind]

theorem feedLines_append (lineNumber : Nat) (s : StreamingParserState) (as bs : List Text) :
    feedLines lineNumber s (as ++ bs) =
      (feedLines lineNumber s as >>= fun s' => feedLines (lineNumber + as.length) s' bs) := by
  induction as generalizing lineNumber s with
  | nil => rfl
  | cons line as ih =>
      cases h : processLine (lineNumber + 1) s line with
      | error e =>
          rw [List.cons_append, feedLines_cons_error h, feedLines_cons_error h]
          rfl
      | ok s' =>
          rw [List.cons_append, feedLines_cons_ok h, feedLines_cons_ok h, ih, List.length_cons]
          congr 1
          funext s''
          congr 1
          omega

/-- Characters amount to the finished lines among them; the rest is buffered. -/
theorem foldlM_pushChar (t buffer : Text) (s : StreamingParserState) (lineNumber : Nat)
    (hbuffer : '\n' ∉ buffer) :
    t.foldlM StreamingPatchParser.pushChar ⟨buffer, s, lineNumber⟩ =
      (feedLines lineNumber s
          ((Text.pieces '\n' (buffer ++ t)).1.map Text.dropCarriageReturn)).map fun s' =>
        ⟨(Text.pieces '\n' (buffer ++ t)).2, s',
          lineNumber + (Text.pieces '\n' (buffer ++ t)).1.length⟩ := by
  induction t generalizing buffer s lineNumber with
  | nil =>
      have hpieces := Text.pieces_append_of_not_mem hbuffer []
      rw [hpieces]
      simp [Text.pieces, Text.prepend, feedLines, Except.map, pure, Except.pure]
  | cons c t ih =>
      by_cases hc : c = '\n'
      · subst hc
        rw [Text.pieces_append_of_not_mem hbuffer, Text.pieces_sep_cons, List.foldlM_cons]
        simp only [Text.prepend, List.append_nil, List.map_cons]
        cases hline : processLine (lineNumber + 1) s (Text.dropCarriageReturn buffer) with
        | error e =>
            rw [feedLines_cons_error hline]
            simp [StreamingPatchParser.pushChar, hline, bind, Except.bind, Except.map]
        | ok s' =>
            rw [feedLines_cons_ok hline]
            have hpush : StreamingPatchParser.pushChar ⟨buffer, s, lineNumber⟩ '\n' =
                .ok ⟨[], s', lineNumber + 1⟩ := by
              simp [StreamingPatchParser.pushChar, hline, bind, Except.bind, pure, Except.pure]
            rw [hpush]
            have hrest := ih [] s' (lineNumber + 1) (by simp)
            rw [List.nil_append] at hrest
            simp only [bind, Except.bind, hrest, List.length_cons]
            congr 1
            funext s''
            congr 1
            omega
      · have hnext : '\n' ∉ buffer ++ [c] := by
          simpa [hbuffer] using fun h => hc h.symm
        have hpush : StreamingPatchParser.pushChar ⟨buffer, s, lineNumber⟩ c =
            .ok ⟨buffer ++ [c], s, lineNumber⟩ := by
          simp [StreamingPatchParser.pushChar, hc]
        rw [List.foldlM_cons, hpush]
        simpa [bind, Except.bind] using ih (buffer ++ [c]) s lineNumber hnext

/-- However the text is cut into deltas, the parser takes in its characters. -/
theorem pushDeltas_eq (p : StreamingPatchParser) (deltas : List Text) :
    p.pushDeltas deltas = deltas.flatten.foldlM StreamingPatchParser.pushChar p := by
  induction deltas generalizing p with
  | nil => rfl
  | cons delta deltas ih =>
      unfold StreamingPatchParser.pushDeltas at ih ⊢
      rw [List.foldlM_cons, List.flatten_cons, List.foldlM_append]
      unfold StreamingPatchParser.pushDelta
      cases h : delta.foldlM StreamingPatchParser.pushChar p with
      | error e => rfl
      | ok p' => exact ih p'

/-- The last line, which no newline has ended. -/
def finishHunks (lineNumber : Nat) (s : StreamingParserState) (rest : Text) :
    Except ParseError (List Hunk) :=
  StreamingPatchParser.finish ⟨rest, s, lineNumber⟩

theorem streamPatch_eq (deltas : List Text) :
    streamPatch deltas =
      (feedLines 0 ⟨.notStarted, []⟩
          ((Text.pieces '\n' deltas.flatten).1.map Text.dropCarriageReturn) >>= fun s =>
        finishHunks (Text.pieces '\n' deltas.flatten).1.length s
          (Text.pieces '\n' deltas.flatten).2) := by
  unfold streamPatch
  rw [pushDeltas_eq]
  have hchars := foldlM_pushChar deltas.flatten [] ⟨.notStarted, []⟩ 0 (by simp)
  rw [List.nil_append, Nat.zero_add] at hchars
  rw [show StreamingPatchParser.new = ⟨[], ⟨.notStarted, []⟩, 0⟩ from rfl, hchars]
  cases feedLines 0 ⟨.notStarted, []⟩
    ((Text.pieces '\n' deltas.flatten).1.map Text.dropCarriageReturn) <;> rfl

end Codewith.ApplyPatch
