import Codewith.Path

/-!
# Hunks and the contents they produce

A parsed patch is a list of hunks.  An update hunk edits a file by chunks: the
lines of each chunk are sought in the old file, with decreasing strictness, and
the resulting replacements are applied from the last to the first.
-/

namespace Codewith.ApplyPatch

open Lib

structure UpdateFileChunk where
  changeContext : Option Text
  oldLines : List Text
  newLines : List Text
  isEndOfFile : Bool
deriving DecidableEq, Repr

inductive Hunk
  | addFile (path : PathBuf) (contents : Text)
  | deleteFile (path : PathBuf)
  | updateFile (path : PathBuf) (movePath : Option PathBuf) (chunks : List UpdateFileChunk)
deriving DecidableEq, Repr

namespace Hunk

/-- The path as a summary spells it: the destination of a move. -/
def path : Hunk → PathBuf
  | addFile path _ => path
  | deleteFile path => path
  | updateFile _ (some path) _ => path
  | updateFile path none _ => path

def resolvePath (home : Option PathBuf) (cwd : AbsolutePathBuf) (hunk : Hunk) :
    AbsolutePathBuf :=
  let path := match hunk with
    | updateFile path _ _ => path
    | hunk => hunk.path
  AbsolutePathBuf.resolvePathAgainstBase home path cwd

/-- Where a hunk moves its file to. -/
def destination (home : Option PathBuf) (cwd : AbsolutePathBuf) : Hunk → Option AbsolutePathBuf
  | updateFile _ (some dest) _ => some (.resolvePathAgainstBase home dest cwd)
  | _ => none

end Hunk

/-! ## Seeking lines -/

/-- Common typographic punctuation and spaces, as their ASCII counterparts. -/
def normaliseChar (c : Char) : Char :=
  if c.toNat ∈ [0x2010, 0x2011, 0x2012, 0x2013, 0x2014, 0x2015, 0x2212] then '-'
  else if c.toNat ∈ [0x2018, 0x2019, 0x201A, 0x201B] then '\''
  else if c.toNat ∈ [0x201C, 0x201D, 0x201E, 0x201F] then '"'
  else if c.toNat ∈ [0xA0, 0x2002, 0x2003, 0x2004, 0x2005, 0x2006, 0x2007, 0x2008, 0x2009,
      0x200A, 0x202F, 0x205F, 0x3000] then ' '
  else c

def normalise (s : Text) : Text := (Text.trim s).map normaliseChar

/-- The first index in `searchStart..=lines.len() - pattern.len()` at which the
pattern matches up to the given reading of a line. -/
def seekBy (key : Text → Text) (lines pattern : List Text) (searchStart : Nat) : Option Nat :=
  (List.range' searchStart (lines.length - pattern.length + 1 - searchStart)).find? fun i =>
    ((lines.drop i).take pattern.length).map key = pattern.map key

def seekSequence (lines pattern : List Text) (start : Nat) (eof : Bool) : Option Nat :=
  if pattern = [] then some start
  else if lines.length < pattern.length then none
  else
    let searchStart := if eof then lines.length - pattern.length else start
    (seekBy id lines pattern searchStart).or <|
      (seekBy Text.trimEnd lines pattern searchStart).or <|
        (seekBy Text.trim lines pattern searchStart).or <|
          seekBy normalise lines pattern searchStart

/-! ## Replacements -/

structure Replacement where
  startIdx : Nat
  oldLen : Nat
  newLines : List Text
deriving DecidableEq, Repr

def endsInEmptyLine (lines : List Text) : Bool := lines.getLast? = some []

inductive ComputeError
  | context (ctxLine : Text) (path : AbsolutePathBuf)
  | expectedLines (path : AbsolutePathBuf) (oldLines : List Text)
deriving DecidableEq

def ComputeError.message : ComputeError → Text
  | context ctxLine path =>
      "Failed to find context '".toList ++ ctxLine ++ "' in ".toList ++ path.display
  | expectedLines path oldLines =>
      "Failed to find expected lines in ".toList ++ path.display ++ ":\n".toList ++
        Text.joinWith '\n' oldLines

/-- Where the search for a chunk continues once its context line is found. -/
def seekContext (originalLines : List Text) (path : AbsolutePathBuf) (lineIndex : Nat)
    (changeContext : Option Text) : Except ComputeError Nat :=
  match changeContext with
  | none => .ok lineIndex
  | some ctxLine =>
      match seekSequence originalLines [ctxLine] lineIndex false with
      | some idx => .ok (idx + 1)
      | none => .error (.context ctxLine path)

/-- The old lines of a chunk and the lines that replace them, at the index
where they are found.  When the search fails and the old lines end in an empty
line, that line is dropped from both sides and the search is repeated. -/
def seekOldLines (originalLines : List Text) (lineIndex : Nat) (chunk : UpdateFileChunk) :
    Option Replacement :=
  match seekSequence originalLines chunk.oldLines lineIndex chunk.isEndOfFile with
  | some idx => some ⟨idx, chunk.oldLines.length, chunk.newLines⟩
  | none =>
      if endsInEmptyLine chunk.oldLines then
        let pattern := chunk.oldLines.dropLast
        let newSlice :=
          if endsInEmptyLine chunk.newLines then chunk.newLines.dropLast else chunk.newLines
        (seekSequence originalLines pattern lineIndex chunk.isEndOfFile).map fun idx =>
          ⟨idx, pattern.length, newSlice⟩
      else none

def collectReplacements (originalLines : List Text) (path : AbsolutePathBuf) :
    List UpdateFileChunk → Nat → Except ComputeError (List Replacement)
  | [], _ => .ok []
  | chunk :: chunks, lineIndex => do
      let lineIndex ← seekContext originalLines path lineIndex chunk.changeContext
      if chunk.oldLines = [] then
        let insertionIdx :=
          if endsInEmptyLine originalLines then originalLines.length - 1
          else originalLines.length
        let rest ← collectReplacements originalLines path chunks lineIndex
        return ⟨insertionIdx, 0, chunk.newLines⟩ :: rest
      else
        match seekOldLines originalLines lineIndex chunk with
        | some found =>
            let rest ← collectReplacements originalLines path chunks
              (found.startIdx + found.oldLen)
            return found :: rest
        | none => throw (.expectedLines path chunk.oldLines)

def computeReplacements (originalLines : List Text) (path : AbsolutePathBuf)
    (chunks : List UpdateFileChunk) : Except ComputeError (List Replacement) := do
  let replacements ← collectReplacements originalLines path chunks 0
  return replacements.insertionSort fun a b => a.startIdx ≤ b.startIdx

/-- Remove the old lines one by one, each only while the index is in range. -/
def removeLines (startIdx : Nat) : Nat → List Text → List Text
  | 0, lines => lines
  | n + 1, lines =>
      removeLines startIdx n (if startIdx < lines.length then lines.eraseIdx startIdx else lines)

def insertLines (startIdx : Nat) (newSegment lines : List Text) : List Text :=
  newSegment.zipIdx.foldl (fun lines entry => lines.insertIdx (startIdx + entry.2) entry.1) lines

def applyReplacements (lines : List Text) (replacements : List Replacement) : List Text :=
  replacements.reverse.foldl
    (fun lines r => insertLines r.startIdx r.newLines (removeLines r.startIdx r.oldLen lines))
    lines

/-- The contents of the file once its chunks are applied. -/
def newContentsFromChunks (path : AbsolutePathBuf) (chunks : List UpdateFileChunk)
    (originalContents : Text) : Except ComputeError Text := do
  let split := Text.split '\n' originalContents
  -- The final newline leaves an empty last piece that `diff` does not count as a line.
  let originalLines := if endsInEmptyLine split then split.dropLast else split
  let replacements ← computeReplacements originalLines path chunks
  let newLines := applyReplacements originalLines replacements
  let newLines := if endsInEmptyLine newLines then newLines else newLines ++ [[]]
  return Text.joinWith '\n' newLines

end Codewith.ApplyPatch
