import Codewith.ApplyPatch.Hunk

/-!
# The batch patch parser

`parsePatch` takes a whole patch text.  It trims the text, cuts it into lines,
checks the first and the last line, skips an optional environment line, and
reads one hunk after the other, each from the lines that are left.

The two loops are driven by a bound on the lines left.  Every round consumes a
line, so a bound of the number of lines is never reached.
-/

namespace Codewith.ApplyPatch

open Lib

def beginPatchMarker : Text := "*** Begin Patch".toList
def environmentIdMarker : Text := "*** Environment ID: ".toList
def endPatchMarker : Text := "*** End Patch".toList
def addFileMarker : Text := "*** Add File: ".toList
def deleteFileMarker : Text := "*** Delete File: ".toList
def updateFileMarker : Text := "*** Update File: ".toList
def moveToMarker : Text := "*** Move to: ".toList
def eofMarker : Text := "*** End of File".toList
def changeContextMarker : Text := "@@ ".toList
def emptyChangeContextMarker : Text := "@@".toList

inductive ParseError
  | invalidPatchError (message : Text)
  | invalidHunkError (message : Text) (lineNumber : Nat)
deriving DecidableEq, Repr

/-- The raw patch together with the hunks it was parsed into. -/
structure ApplyPatchArgs where
  patch : Text
  hunks : List Hunk
  workdir : Option PathBuf
  environmentId : Option Text
deriving DecidableEq, Repr

inductive ParseMode
  | strict
  | lenient
deriving DecidableEq, Repr

/-! ## Messages -/

def firstLineMessage : Text := "The first line of the patch must be '*** Begin Patch'".toList

def lastLineMessage : Text := "The last line of the patch must be '*** End Patch'".toList

def invalidHeaderMessage (line : Text) : Text :=
  '\'' :: line ++ ("' is not a valid hunk header. Valid hunk headers: '*** Add File: " ++
    "\x7bpath\x7d', '*** Delete File: \x7bpath\x7d', '*** Update File: \x7bpath\x7d'").toList

def emptyUpdateMessage (path : PathBuf) : Text :=
  "Update file hunk for path '".toList ++ path ++ "' is empty".toList

def noLinesMessage : Text := "Update hunk does not contain any lines".toList

def unexpectedLineMessage (line : Text) : Text :=
  "Unexpected line found in update hunk: '".toList ++ line ++
    ("'. Every line should start with ' ' (context line), '+' (added line), " ++
      "or '-' (removed line)").toList

def expectedContextMessage (line : Text) : Text :=
  "Expected update hunk to start with a @@ context marker, got: '".toList ++ line ++ ['\'']

/-! ## One hunk -/

namespace UpdateFileChunk

def start (changeContext : Option Text) : UpdateFileChunk := ⟨changeContext, [], [], false⟩

def pushContext (chunk : UpdateFileChunk) (line : Text) : UpdateFileChunk :=
  { chunk with oldLines := chunk.oldLines ++ [line], newLines := chunk.newLines ++ [line] }

def pushAdded (chunk : UpdateFileChunk) (line : Text) : UpdateFileChunk :=
  { chunk with newLines := chunk.newLines ++ [line] }

def pushRemoved (chunk : UpdateFileChunk) (line : Text) : UpdateFileChunk :=
  { chunk with oldLines := chunk.oldLines ++ [line] }

def markEndOfFile (chunk : UpdateFileChunk) : UpdateFileChunk := { chunk with isEndOfFile := true }

def isEmpty (chunk : UpdateFileChunk) : Bool := chunk.oldLines = [] ∧ chunk.newLines = []

end UpdateFileChunk

/-- What a content line does to its chunk, by its first character.  An empty line
is read as an empty context line. -/
def chunkLine : Text → Option (UpdateFileChunk → UpdateFileChunk)
  | [] => some (·.pushContext [])
  | ' ' :: rest => some (·.pushContext rest)
  | '+' :: rest => some (·.pushAdded rest)
  | '-' :: rest => some (·.pushRemoved rest)
  | _ => none

/-- The body of a chunk, with the number of lines it takes. -/
def parseChunkLines (lineNumber : Nat) :
    List Text → UpdateFileChunk → Nat → Except ParseError (UpdateFileChunk × Nat)
  | [], chunk, parsedLines => .ok (chunk, parsedLines)
  | line :: lines, chunk, parsedLines =>
      if line = eofMarker then
        if parsedLines = 0 then .error (.invalidHunkError noLinesMessage (lineNumber + 1))
        else .ok (chunk.markEndOfFile, parsedLines + 1)
      else match chunkLine line with
        | some push => parseChunkLines lineNumber lines (push chunk) (parsedLines + 1)
        | none =>
            if parsedLines = 0 then
              .error (.invalidHunkError (unexpectedLineMessage line) (lineNumber + 1))
            else .ok (chunk, parsedLines)

/-- The context of a chunk and the number of lines its header takes. -/
def parseChangeContext (first : Text) (lineNumber : Nat) (allowMissingContext : Bool) :
    Except ParseError (Option Text × Nat) :=
  if first = emptyChangeContextMarker then .ok (none, 1)
  else match Text.stripPrefix changeContextMarker first with
    | some context => .ok (some context, 1)
    | none =>
        if allowMissingContext then .ok (none, 0)
        else .error (.invalidHunkError (expectedContextMessage first) lineNumber)

def parseUpdateFileChunk (lines : List Text) (lineNumber : Nat) (allowMissingContext : Bool) :
    Except ParseError (UpdateFileChunk × Nat) :=
  match lines with
  | [] => .error (.invalidHunkError noLinesMessage lineNumber)
  | first :: _ => do
      let (changeContext, startIndex) ← parseChangeContext first lineNumber allowMissingContext
      if lines.length ≤ startIndex then
        throw (.invalidHunkError noLinesMessage (lineNumber + 1))
      let (chunk, parsedLines) ←
        parseChunkLines lineNumber (lines.drop startIndex) (.start changeContext) 0
      return (chunk, parsedLines + startIndex)

/-- The chunks of an update hunk, up to the next line that starts with a star. -/
def parseChunks (lineNumber : Nat) : Nat → List Text → Nat → List UpdateFileChunk →
    Except ParseError (List UpdateFileChunk × Nat)
  | 0, _, parsedLines, chunks => .ok (chunks, parsedLines)
  | _ + 1, [], parsedLines, chunks => .ok (chunks, parsedLines)
  | bound + 1, line :: lines, parsedLines, chunks =>
      if Text.trim line = [] then parseChunks lineNumber bound lines (parsedLines + 1) chunks
      else if line.head? = some '*' then .ok (chunks, parsedLines)
      else do
        let (chunk, chunkLines) ←
          parseUpdateFileChunk (line :: lines) (lineNumber + parsedLines) chunks.isEmpty
        parseChunks lineNumber bound ((line :: lines).drop chunkLines) (parsedLines + chunkLines)
          (chunks ++ [chunk])

/-- The added lines that follow a header. -/
def addedLines : List Text → List Text
  | ('+' :: line) :: lines => line :: addedLines lines
  | _ => []

def addedContents (added : List Text) : Text := (added.map (· ++ ['\n'])).flatten

def moveLine (lines : List Text) : Option PathBuf :=
  lines.head?.bind (Text.stripPrefix moveToMarker)

def parseUpdateFile (path : PathBuf) (lines : List Text) (lineNumber : Nat) :
    Except ParseError (Hunk × Nat) := do
  let movePath := moveLine lines
  let moveLines := if movePath.isSome then 1 else 0
  let (chunks, parsedLines) ←
    parseChunks lineNumber lines.length (lines.drop moveLines) (1 + moveLines) []
  if chunks = [] then
    throw (.invalidHunkError (emptyUpdateMessage path) lineNumber)
  return (.updateFile path movePath chunks, parsedLines)

/-- One hunk from the start of the lines, with the number of lines it takes. -/
def parseOneHunk (lines : List Text) (lineNumber : Nat) : Except ParseError (Hunk × Nat) :=
  let firstLine := Text.trim (lines.headD [])
  match Text.stripPrefix addFileMarker firstLine with
  | some path =>
      let added := addedLines lines.tail
      .ok (.addFile path (addedContents added), 1 + added.length)
  | none => match Text.stripPrefix deleteFileMarker firstLine with
    | some path => .ok (.deleteFile path, 1)
    | none => match Text.stripPrefix updateFileMarker firstLine with
      | some path => parseUpdateFile path lines.tail lineNumber
      | none => .error (.invalidHunkError (invalidHeaderMessage firstLine) lineNumber)

/-! ## The whole patch -/

def checkStartAndEndLinesStrict (firstLine lastLine : Option Text) : Except ParseError Unit :=
  match firstLine.map Text.trim, lastLine.map Text.trim with
  | some first, some last =>
      if first = beginPatchMarker ∧ last = endPatchMarker then .ok ()
      else if first ≠ beginPatchMarker then .error (.invalidPatchError firstLineMessage)
      else .error (.invalidPatchError lastLineMessage)
  | some first, none =>
      if first ≠ beginPatchMarker then .error (.invalidPatchError firstLineMessage)
      else .error (.invalidPatchError lastLineMessage)
  | none, _ => .error (.invalidPatchError lastLineMessage)

/-- The lines of the patch and the lines between its first and last line. -/
def checkPatchBoundariesStrict (lines : List Text) :
    Except ParseError (List Text × List Text) := do
  checkStartAndEndLinesStrict lines.head? lines.getLast?
  return (lines, lines.tail.dropLast)

def isHeredocStart (first : Text) : Bool :=
  first = "<<EOF".toList ∨ first = "<<'EOF'".toList ∨ first = "<<\"EOF\"".toList

def checkPatchBoundariesLenient (originalLines : List Text) :
    Except ParseError (List Text × List Text) :=
  match checkPatchBoundariesStrict originalLines with
  | .ok lines => .ok lines
  | .error originalParseError =>
      match originalLines.head?, originalLines.getLast? with
      | some first, some last =>
          if isHeredocStart first ∧ "EOF".toList <:+ last ∧ 4 ≤ originalLines.length then
            checkPatchBoundariesStrict originalLines.tail.dropLast
          else .error originalParseError
      | _, _ => .error originalParseError

/-- The environment id, the lines after it, and the number of the first of them. -/
def parseEnvironmentIdPreamble (hunkLines : List Text) :
    Except ParseError (Option Text × List Text × Nat) :=
  match hunkLines with
  | [] => .ok (none, hunkLines, 2)
  | firstLine :: rest =>
      match Text.stripPrefix environmentIdMarker (Text.trimStart firstLine) with
      | none => .ok (none, hunkLines, 2)
      | some environmentId =>
          if Text.trim environmentId = [] then
            .error (.invalidPatchError "apply_patch environment_id cannot be empty".toList)
          else .ok (some (Text.trim environmentId), rest, 3)

def parseHunks : Nat → List Text → Nat → Except ParseError (List Hunk)
  | 0, _, _ => .ok []
  | _ + 1, [], _ => .ok []
  | bound + 1, line :: lines, lineNumber => do
      let (hunk, hunkLines) ← parseOneHunk (line :: lines) lineNumber
      let hunks ← parseHunks bound ((line :: lines).drop hunkLines) (lineNumber + hunkLines)
      return hunk :: hunks

def parsePatchText (patch : Text) (mode : ParseMode) : Except ParseError ApplyPatchArgs := do
  let lines := Text.lines (Text.trim patch)
  let (patchLines, hunkLines) ← match mode with
    | .strict => checkPatchBoundariesStrict lines
    | .lenient => checkPatchBoundariesLenient lines
  let (environmentId, remainingLines, lineNumber) ← parseEnvironmentIdPreamble hunkLines
  let hunks ← parseHunks remainingLines.length remainingLines lineNumber
  return { patch := Text.joinWith '\n' patchLines, hunks, workdir := none, environmentId }

def parseInStrictMode : Bool := false

def parsePatch (patch : Text) : Except ParseError ApplyPatchArgs :=
  parsePatchText patch (if parseInStrictMode then .strict else .lenient)

end Codewith.ApplyPatch
