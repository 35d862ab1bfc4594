import Codewith.Composer.Editing

/-!
# Words and cursor moves
-/

namespace Codewith.Composer

open Lib Lib.Text

/-! ### Words -/

def wordSeparators : Text := "\x60~!@#$%^&*()-=+[\x7b]\x7d\\|;:'\",.<>/?".toList

def isWordSeparator (c : Char) : Bool := wordSeparators.contains c

/-- The pieces of a segment whose characters all are separators or all are not. -/
def segmentPieces (segment : Text) : List Text :=
  segment.splitBy fun a b => isWordSeparator a == isWordSeparator b

/-- Consecutive pieces with their positions. -/
def withPositions : Nat → List Text → List (Nat × Text)
  | _, [] => []
  | pos, piece :: pieces => (pos, piece) :: withPositions (pos + byteSize piece) pieces

def splitWordPieces (env : Environment) (run : Text) : List (Nat × Text) :=
  (env.splitWordBoundIndices run).flatMap fun (segmentStart, segment) =>
    withPositions segmentStart (segmentPieces segment)

def allSeparators (piece : Nat × Text) : Bool := piece.2.all isWordSeparator

namespace TextArea

variable (env : Environment)

def beginningOfPreviousWord (t : TextArea) : Option Nat := do
  let before ← slice t.text 0 t.cursorPos
  let trimmed := trimEnd before
  if trimmed = [] then some 0
  else
    let run := trimmed.rtakeWhile fun c => !isWhitespace c
    let runStart := byteSize trimmed - byteSize run
    match (splitWordPieces env run).reverse with
    | [] => some runStart
    | last :: earlier =>
        let first :=
          if allSeparators last then ((earlier.takeWhile allSeparators).getLast?).getD last
          else last
        some (t.adjustPosOutOfElements (runStart + first.1) true)

def endOfNextWordFrom (t : TextArea) (cursor : Nat) : Option Nat := do
  let after ← slice t.text cursor (byteSize t.text)
  match find (fun c => !isWhitespace c) after with
  | none => some (byteSize t.text)
  | some firstNonWs =>
      let run := (trimStart after).takeWhile fun c => !isWhitespace c
      match splitWordPieces env run with
      | [] => some (cursor + firstNonWs)
      | first :: later =>
          let last :=
            if allSeparators first then ((later.takeWhile allSeparators).getLast?).getD first
            else first
          let stop := cursor + firstNonWs + last.1 + byteSize last.2
          some (t.adjustPosOutOfElements stop false)

def endOfNextWord (t : TextArea) : Option Nat := t.endOfNextWordFrom env t.cursorPos

def vimWordEndExclusive (t : TextArea) : Option Nat := do
  let stop ← t.endOfNextWord env
  let target := if t.cursorPos < stop then t.prevAtomicBoundary env stop else stop
  if target = t.cursorPos ∧ stop < byteSize t.text then t.endOfNextWordFrom env stop
  else some stop

def vimWordEndCursor (t : TextArea) : Option Nat := do
  let stop ← t.vimWordEndExclusive env
  some (if t.cursorPos < stop then t.prevAtomicBoundary env stop else stop)

def vimLineEndCursor (t : TextArea) : Option Nat := do
  let bol ← t.beginningOfCurrentLine
  let eol ← t.endOfCurrentLine
  some (if bol < eol then max (t.prevAtomicBoundary env eol) bol else eol)

def beginningOfNextWord (t : TextArea) : Option Nat := do
  let after ← slice t.text t.cursorPos (byteSize t.text)
  match find (fun c => !isWhitespace c) after with
  | none => some (byteSize t.text)
  | some firstNonWs =>
      if firstNonWs ≠ 0 then some (t.adjustPosOutOfElements (t.cursorPos + firstNonWs) true)
      else do
        let stop ← t.endOfNextWord env
        if byteSize t.text ≤ stop then some (byteSize t.text)
        else do
          let rest ← slice t.text stop (byteSize t.text)
          match find (fun c => !isWhitespace c) rest with
          | none => some (byteSize t.text)
          | some nextNonWs => some (t.adjustPosOutOfElements (stop + nextNonWs) true)

/-! ### Moves -/

def moveCursorLeft (t : TextArea) : TextArea :=
  { t with cursorPos := t.prevAtomicBoundary env t.cursorPos, preferredCol := none }

def moveCursorRight (t : TextArea) : TextArea :=
  { t with cursorPos := t.nextAtomicBoundary env t.cursorPos, preferredCol := none }

def moveCursorToBeginningOfLine (t : TextArea) (moveUpAtBol : Bool) : Option TextArea := do
  let bol ← t.beginningOfCurrentLine
  if moveUpAtBol ∧ t.cursorPos = bol then do
    let target ← t.beginningOfLine (t.cursorPos - 1)
    some (t.setCursor target)
  else some (t.setCursor bol)

def moveCursorToEndOfLine (t : TextArea) (moveDownAtEol : Bool) : Option TextArea := do
  let eol ← t.endOfCurrentLine
  if moveDownAtEol ∧ t.cursorPos = eol then do
    let target ← t.endOfLine (min (t.cursorPos + 1) (byteSize t.text))
    some (t.setCursor target)
  else some (t.setCursor eol)

/-! ### Vertical moves -/

/-- `partition_point` on the starts of the lines. -/
def wrappedLineIndexByStart (lines : List Span) (pos : Nat) : Option Nat :=
  match (lines.takeWhile fun line => line.start ≤ pos).length with
  | 0 => none
  | idx + 1 => some idx

def currentDisplayCol (t : TextArea) : Option Nat := do
  let bol ← t.beginningOfCurrentLine
  let before ← slice t.text bol t.cursorPos
  some (env.width before)

/-- The first grapheme that passes a column. -/
def graphemePastCol (targetCol : Nat) : Nat → List (Nat × Text) → Option Nat
  | _, [] => none
  | widthSoFar, (i, g) :: rest =>
      if targetCol < widthSoFar + env.width g then some i
      else graphemePastCol targetCol (widthSoFar + env.width g) rest

def moveToDisplayColOnLine (t : TextArea) (lineStart lineEnd targetCol : Nat) :
    Option TextArea := do
  let line ← slice t.text lineStart lineEnd
  let target :=
    match graphemePastCol env targetCol 0 (env.graphemeIndices line) with
    | some i => lineStart + i
    | none => lineEnd
  some { t with cursorPos := t.clampPosToNearestBoundary target }

/-- The wrapped lines, the one of the cursor and the column to keep, where there is a cache. -/
def wrappedPosition (t : TextArea) : Option (Option (List Span × Nat × Nat)) :=
  match t.wrapCache with
  | none => some none
  | some cache =>
      match wrappedLineIndexByStart cache.lines t.cursorPos with
      | none => some none
      | some idx => do
          let current ← cache.lines[idx]?
          let targetCol ← match t.preferredCol with
            | some col => some col
            | none => (slice t.text current.start t.cursorPos).map env.width
          some (some (cache.lines, idx, targetCol))

def moveToWrappedLine (t : TextArea) (line : Span) (targetCol : Nat) : Option TextArea :=
  moveToDisplayColOnLine env { t with preferredCol := some (t.preferredCol.getD targetCol) }
    line.start (line.stop - 1) targetCol

def moveToStart (t : TextArea) : TextArea := { t with cursorPos := 0, preferredCol := none }

def moveToEnd (t : TextArea) : TextArea :=
  { t with cursorPos := byteSize t.text, preferredCol := none }

/-- The column to keep on the lines of the text. -/
def logicalCol (t : TextArea) : Option Nat :=
  match t.preferredCol with
  | some col => some col
  | none => t.currentDisplayCol env

def moveUpLogical (t : TextArea) : Option TextArea := do
  let before ← slice t.text 0 t.cursorPos
  match rfind (· == '\n') before with
  | none => some t.moveToStart
  | some prevNl => do
      let targetCol ← t.logicalCol env
      let prevLineStart ← t.beginningOfLine prevNl
      moveToDisplayColOnLine env { t with preferredCol := some targetCol } prevLineStart prevNl
        targetCol

def moveDownLogical (t : TextArea) : Option TextArea := do
  let targetCol ← t.logicalCol env
  let t : TextArea := { t with preferredCol := some targetCol }
  let after ← slice t.text t.cursorPos (byteSize t.text)
  match find (· == '\n') after with
  | none => some t.moveToEnd
  | some i => do
      let nextLineStart := t.cursorPos + i + 1
      let nextLineEnd ← t.endOfLine nextLineStart
      moveToDisplayColOnLine env t nextLineStart nextLineEnd targetCol

def moveCursorUp (t : TextArea) : Option TextArea := do
  match ← t.wrappedPosition env with
  | none => t.moveUpLogical env
  | some (lines, idx, targetCol) =>
      match idx with
      | 0 => some t.moveToStart
      | prev + 1 => do
          let line ← lines[prev]?
          t.moveToWrappedLine env line targetCol

def moveCursorDown (t : TextArea) : Option TextArea := do
  match ← t.wrappedPosition env with
  | none => t.moveDownLogical env
  | some (lines, idx, targetCol) =>
      if idx + 1 < lines.length then do
        let line ← lines[idx + 1]?
        t.moveToWrappedLine env line targetCol
      else some t.moveToEnd

/-- Rendering and measuring compute the wrapped lines once for each width. -/
def wrappedLines (t : TextArea) (width : Nat) : List Span × TextArea :=
  match t.wrapCache with
  | some cache =>
      if cache.width ≠ width then
        (env.wrapRanges t.text width,
          { t with wrapCache := some ⟨width, env.wrapRanges t.text width⟩ })
      else (cache.lines, t)
  | none =>
      (env.wrapRanges t.text width,
        { t with wrapCache := some ⟨width, env.wrapRanges t.text width⟩ })

end TextArea

end Codewith.Composer
