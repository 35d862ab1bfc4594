import Codewith.Lib.ByteRange
import Codewith.Lib.Span
import Codewith.Composer.Keys

/-!
# The text area

The editable buffer of the composer, with the elements that edits take as a whole.  An operation
that slices the text off a character boundary panics, which is `none` here.
-/

namespace Codewith.Composer

open Lib Lib.Text

/-- The Unicode tables, the wrapping of lines, and the platform. -/
structure Environment where
  windows : Bool
  prevBoundary : Text → Nat → Except Unit (Option Nat)
  nextBoundary : Text → Nat → Except Unit (Option Nat)
  graphemeIndices : Text → List (Nat × Text)
  splitWordBoundIndices : Text → List (Nat × Text)
  width : Text → Nat
  wrapRanges : Text → Nat → List Span

structure TextElement where
  id : Nat
  range : Span
  name : Option Text
deriving DecidableEq, Repr

structure WrapCache where
  width : Nat
  lines : List Span
deriving DecidableEq, Repr

inductive KillBufferKind
  | characterwise | linewise
deriving DecidableEq, Repr

inductive VimMode
  | normal | insert
deriving DecidableEq, Repr

inductive VimOperator
  | delete | yank | change
deriving DecidableEq, Repr

inductive VimTextObjectScope
  | inner | around
deriving DecidableEq, Repr

inductive VimPending
  | none
  | operator (op : VimOperator)
  | textObject (op : VimOperator) (scope : VimTextObjectScope)
deriving DecidableEq, Repr

structure TextArea where
  text : Text
  cursorPos : Nat
  wrapCache : Option WrapCache
  preferredCol : Option Nat
  elements : List TextElement
  nextElementId : Nat
  killBuffer : Text
  killBufferKind : KillBufferKind
  vimEnabled : Bool
  vimMode : VimMode
  vimPending : VimPending
  editorKeymap : EditorKeymap
  vimNormalKeymap : VimNormalKeymap
  vimOperatorKeymap : VimOperatorKeymap
  vimTextObjectKeymap : VimTextObjectKeymap
deriving DecidableEq, Repr

namespace TextArea

def new : TextArea where
  text := []
  cursorPos := 0
  wrapCache := none
  preferredCol := none
  elements := []
  nextElementId := 1
  killBuffer := []
  killBufferKind := .characterwise
  vimEnabled := false
  vimMode := .insert
  vimPending := .none
  editorKeymap := .defaults
  vimNormalKeymap := .defaults
  vimOperatorKeymap := .defaults
  vimTextObjectKeymap := .defaults

def setKeymapBindings (t : TextArea) (keymap : RuntimeKeymap) : TextArea :=
  { t with
    editorKeymap := keymap.editor
    vimNormalKeymap := keymap.vimNormal
    vimOperatorKeymap := keymap.vimOperator
    vimTextObjectKeymap := keymap.vimTextObject }

def setVimEnabled (t : TextArea) (enabled : Bool) : TextArea :=
  { t with
    vimEnabled := enabled
    vimPending := .none
    vimMode := if enabled then .normal else .insert }

def enterVimInsertMode (t : TextArea) : TextArea :=
  if t.vimEnabled then { t with vimMode := .insert, vimPending := .none } else t

def enterVimNormalMode (t : TextArea) : TextArea :=
  if t.vimEnabled then
    { t with vimMode := .normal, vimPending := .none, preferredCol := none }
  else t

/-! ### Positions -/

def ranges (t : TextArea) : List Span := t.elements.map TextElement.range

def findElementContaining (t : TextArea) (pos : Nat) : Option TextElement :=
  t.elements.find? fun e => e.range.Inside pos

/-- The nearer of the boundaries before and after a position. -/
def clampPosToCharBoundary (t : TextArea) (pos : Nat) : Nat :=
  let pos := min pos (byteSize t.text)
  if IsBoundary t.text pos then pos
  else
    let prev := byteSize (takeBytes pos t.text)
    let next := byteSize (spanBytes pos t.text).1
    if pos - prev ≤ next - pos then prev else next

def clampPosToNearestBoundary (t : TextArea) (pos : Nat) : Nat :=
  let pos := t.clampPosToCharBoundary pos
  match t.findElementContaining pos with
  | some e =>
      if pos - e.range.start ≤ e.range.stop - pos then t.clampPosToCharBoundary e.range.start
      else t.clampPosToCharBoundary e.range.stop
  | none => pos

/-- Nothing is inserted into the middle of an element. -/
def clampPosForInsertion (t : TextArea) (pos : Nat) : Nat :=
  let pos := t.clampPosToCharBoundary pos
  match t.findElementContaining pos with
  | some e =>
      if pos - e.range.start ≤ e.range.stop - pos then t.clampPosToCharBoundary e.range.start
      else t.clampPosToCharBoundary e.range.stop
  | none => pos

/-- The loop takes in an element in each pass but the last, so that this fuel lets it end. -/
def expandRangeToElementBoundaries (t : TextArea) (range : Span) : Option Span :=
  Span.widen t.ranges (t.ranges.length + 1) range

def adjustPosOutOfElements (t : TextArea) (pos : Nat) (preferStart : Bool) : Nat :=
  match t.findElementContaining pos with
  | some e => if preferStart then e.range.start else e.range.stop
  | none => pos

def prevAtomicBoundary (env : Environment) (t : TextArea) (pos : Nat) : Nat :=
  if pos = 0 then 0
  else
    match t.elements.find? fun e => e.range.start < pos ∧ pos ≤ e.range.stop with
    | some e => e.range.start
    | none =>
        match env.prevBoundary t.text pos with
        | .ok (some b) =>
            match t.findElementContaining b with
            | some e => e.range.start
            | none => b
        | .ok none => 0
        | .error _ => pos - 1

def nextAtomicBoundary (env : Environment) (t : TextArea) (pos : Nat) : Nat :=
  if byteSize t.text ≤ pos then byteSize t.text
  else
    match t.elements.find? fun e => e.range.start ≤ pos ∧ pos < e.range.stop with
    | some e => e.range.stop
    | none =>
        match env.nextBoundary t.text pos with
        | .ok (some b) =>
            match t.findElementContaining b with
            | some e => e.range.stop
            | none => b
        | .ok none => byteSize t.text
        | .error _ => pos + 1

/-! ### Lines -/

def beginningOfLine (t : TextArea) (pos : Nat) : Option Nat := do
  let before ← slice t.text 0 pos
  some (((rfind (· == '\n') before).map (· + 1)).getD 0)

def beginningOfCurrentLine (t : TextArea) : Option Nat := t.beginningOfLine t.cursorPos

def endOfLine (t : TextArea) (pos : Nat) : Option Nat := do
  let after ← slice t.text pos (byteSize t.text)
  some (((find (· == '\n') after).map (· + pos)).getD (byteSize t.text))

def endOfCurrentLine (t : TextArea) : Option Nat := t.endOfLine t.cursorPos

def firstNonBlankOfCurrentLine (t : TextArea) : Option Nat := do
  let bol ← t.beginningOfCurrentLine
  let eol ← t.endOfCurrentLine
  let line ← slice t.text bol eol
  some (((find (fun c => !isWhitespace c) line).map (bol + ·)).getD eol)

def currentLineRangeWithNewline (t : TextArea) : Option Span := do
  let bol ← t.beginningOfCurrentLine
  let eol ← t.endOfCurrentLine
  some ⟨bol, if eol < byteSize t.text then eol + 1 else eol⟩

end TextArea

end Codewith.Composer
