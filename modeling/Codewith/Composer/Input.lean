import Codewith.Composer.TextObjects

/-!
# Keys

Which operation a key stands for, with the editor's keymap and in the modes of Vim.
-/

namespace Codewith.Composer

open Lib Lib.Text

inductive VimMotion
  | left | right | up | down | wordForward | wordBackward | wordEnd | lineStart | lineEnd
deriving DecidableEq, Repr

namespace TextArea

variable (env : Environment)

/-! ### The editor -/

/-- A character without a binding is typed. -/
def inputPlain (t : TextArea) (event : KeyEvent) : Option TextArea :=
  match event.code with
  | .char c =>
      if event.modifiers = KeyModifiers.none ∨ event.modifiers = KeyModifiers.shiftOnly then
        if c.toNat < 32 ∨ c.toNat = 127 then some t else t.insertStr [c]
      else some t
  | _ => some t

/-- The bindings that come after the characters that AltGr types. -/
def inputBound (t : TextArea) (event : KeyEvent) (keymap : EditorKeymap) : Option TextArea :=
  if keymap.deleteBackward.isPressed event then t.deleteBackward env 1
  else if keymap.deleteForwardWord.isPressed event then t.deleteForwardWord env
  else if keymap.deleteForward.isPressed event then t.deleteForward env 1
  else if keymap.killLineStart.isPressed event then t.killToBeginningOfLine
  else if keymap.killWholeLine.isPressed event then t.killCurrentLine
  else if keymap.killLineEnd.isPressed event then t.killToEndOfLine
  else if keymap.yank.isPressed event then t.yank
  else if keymap.moveWordLeft.isPressed event then (t.beginningOfPreviousWord env).map t.setCursor
  else if keymap.moveWordRight.isPressed event then (t.endOfNextWord env).map t.setCursor
  else if keymap.moveLeft.isPressed event then some (t.moveCursorLeft env)
  else if keymap.moveRight.isPressed event then some (t.moveCursorRight env)
  else if keymap.moveUp.isPressed event then t.moveCursorUp env
  else if keymap.moveDown.isPressed event then t.moveCursorDown env
  else if keymap.moveLineStart.isPressed event then
    t.moveCursorToBeginningOfLine
      (event.code = .char 'a' && event.modifiers = KeyModifiers.controlOnly)
  else if keymap.moveLineEnd.isPressed event then
    t.moveCursorToEndOfLine
      (event.code = .char 'e' && event.modifiers = KeyModifiers.controlOnly)
  else t.inputPlain event

def inputWithKeymap (t : TextArea) (event : KeyEvent) (keymap : EditorKeymap) : Option TextArea :=
  if keymap.insertNewline.isPressed event then t.insertStr ['\n']
  else if keymap.deleteBackwardWord.isPressed event then t.deleteBackwardWord env
  else
    match event.code, isAltgr env.windows event.modifiers with
    | .char c, true => t.insertStr [c]
    | _, _ => t.inputBound env event keymap

/-! ### Vim motions and operators -/

def vimMotionForEvent (t : TextArea) (event : KeyEvent) : Option VimMotion :=
  if t.vimOperatorKeymap.motionLeft.isPressed event then some .left
  else if t.vimOperatorKeymap.motionRight.isPressed event then some .right
  else if t.vimOperatorKeymap.motionDown.isPressed event then some .down
  else if t.vimOperatorKeymap.motionUp.isPressed event then some .up
  else if t.vimOperatorKeymap.motionWordForward.isPressed event then some .wordForward
  else if t.vimOperatorKeymap.motionWordBackward.isPressed event then some .wordBackward
  else if t.vimOperatorKeymap.motionWordEnd.isPressed event then some .wordEnd
  else if t.vimOperatorKeymap.motionLineStart.isPressed event then some .lineStart
  else if t.vimOperatorKeymap.motionLineEnd.isPressed event then some .lineEnd
  else none

/-- Where a motion takes the cursor, which itself stays. -/
def targetForMotion (t : TextArea) : VimMotion → Option Nat
  | .left => some (t.moveCursorLeft env).cursorPos
  | .right => some (t.moveCursorRight env).cursorPos
  | .up => (t.moveCursorUp env).map cursorPos
  | .down => (t.moveCursorDown env).map cursorPos
  | .wordForward => (t.beginningOfNextWord env).map fun pos => (t.setCursor pos).cursorPos
  | .wordBackward => (t.beginningOfPreviousWord env).map fun pos => (t.setCursor pos).cursorPos
  | .wordEnd => (t.vimWordEndExclusive env).map fun pos => (t.setCursor pos).cursorPos
  | .lineStart => t.beginningOfCurrentLine.map fun pos => (t.setCursor pos).cursorPos
  | .lineEnd => t.endOfCurrentLine.map fun pos => (t.setCursor pos).cursorPos

def linewiseRangeUp (t : TextArea) : Option Span := do
  let current ← t.currentLineRangeWithNewline
  (if current.start = 0 then some current.start else t.beginningOfLine (current.start - 1)).map
    fun start => ⟨start, current.stop⟩

def linewiseRangeDown (t : TextArea) : Option Span := do
  let current ← t.currentLineRangeWithNewline
  if byteSize t.text ≤ current.stop then some current
  else do
    let nextEol ← t.endOfLine current.stop
    some ⟨current.start, if nextEol < byteSize t.text then nextEol + 1 else nextEol⟩

def nonempty (range : Span) : Option Span := if range.start < range.stop then some range else none

/-- The outer option is a panic. -/
def rangeForMotion (t : TextArea) (motion : VimMotion) : Option (Option Span) :=
  match motion with
  | .up => t.linewiseRangeUp.map nonempty
  | .down => t.linewiseRangeDown.map nonempty
  | _ => do
      let target ← t.targetForMotion env motion
      if t.cursorPos = target then some none
      else if target < t.cursorPos then some (some ⟨target, t.cursorPos⟩)
      else some (some ⟨t.cursorPos, target⟩)

def applyVimOperator (t : TextArea) (op : VimOperator) (motion : VimMotion) : Option TextArea := do
  match ← t.rangeForMotion env motion with
  | none => some t
  | some range =>
      match op with
      | .delete => t.killRange range
      | .yank => t.yankRange range
      | .change => some t

def applyVimOperatorToRange (t : TextArea) (op : VimOperator) (range : Span) : Option TextArea :=
  match op with
  | .delete => t.killRange range
  | .yank => t.yankRange range
  | .change => (t.killRange range).map fun t => { t with vimMode := .insert }

/-- The change operator takes no motion. -/
def handleVimMotion (t : TextArea) (op : VimOperator) (event : KeyEvent) : Option TextArea :=
  match (if op = .change then none else t.vimMotionForEvent event) with
  | some motion => t.applyVimOperator env op motion
  | none => some t

def handleVimOperator (t : TextArea) (op : VimOperator) (event : KeyEvent) : Option TextArea :=
  if op = .delete ∧ t.vimOperatorKeymap.deleteLine.isPressed event then t.killCurrentLine
  else if op = .yank ∧ t.vimOperatorKeymap.yankLine.isPressed event then t.yankCurrentLine
  else if t.vimOperatorKeymap.cancel.isPressed event then some t
  else
    match t.vimTextObjectScopeForEvent event with
    | some scope => some { t with vimPending := .textObject op scope }
    | none => t.handleVimMotion env op event

def handleVimTextObject (t : TextArea) (op : VimOperator) (scope : VimTextObjectScope)
    (event : KeyEvent) : Option TextArea :=
  if t.vimTextObjectKeymap.cancel.isPressed event then some t
  else
    match t.vimTextObjectForEvent event with
    | none => some t
    | some object => do
        match ← t.textObjectRange env object scope with
        | none => some t
        | some range => t.applyVimOperatorToRange op range

/-! ### Vim modes -/

def handleVimInsert (t : TextArea) (event : KeyEvent) : Option TextArea :=
  if event.code = .esc then do
    let bol ← t.beginningOfCurrentLine
    let t : TextArea :=
      if bol < t.cursorPos then
        { t with cursorPos := max (t.prevAtomicBoundary env t.cursorPos) bol }
      else t
    some t.enterVimNormalMode
  else t.inputWithKeymap env event t.editorKeymap

def enteringInsert (t : TextArea) : TextArea := { t with vimMode := .insert }

def openLineBelow (t : TextArea) : Option TextArea := do
  let eol ← t.endOfCurrentLine
  let oldLen := byteSize t.text
  let insertAt := if eol < oldLen then eol + 1 else eol
  let opened ← t.insertStrAt insertAt ['\n']
  some (opened.setCursor (if eol < oldLen then insertAt else insertAt + 1)).enteringInsert

def openLineAbove (t : TextArea) : Option TextArea := do
  let bol ← t.beginningOfCurrentLine
  let opened ← t.insertStrAt bol ['\n']
  some (opened.setCursor bol).enteringInsert

def substituteChar (t : TextArea) : Option TextArea := do
  let eol ← t.endOfCurrentLine
  (if t.cursorPos < eol then t.deleteForwardKill env 1 else some t).map enteringInsert

/-- The keys of normal mode where no operator is pending. -/
def handleVimNormalKey (t : TextArea) (event : KeyEvent) : Option TextArea :=
  let keymap := t.vimNormalKeymap
  if keymap.enterInsert.isPressed event then some t.enteringInsert
  else if keymap.appendAfterCursor.isPressed event then
    some (t.setCursor (t.nextAtomicBoundary env t.cursorPos)).enteringInsert
  else if keymap.appendLineEnd.isPressed event then
    t.endOfCurrentLine.map fun pos => (t.setCursor pos).enteringInsert
  else if keymap.insertLineStart.isPressed event then
    t.firstNonBlankOfCurrentLine.map fun pos => (t.setCursor pos).enteringInsert
  else if keymap.openLineBelow.isPressed event then t.openLineBelow
  else if keymap.openLineAbove.isPressed event then t.openLineAbove
  else if keymap.moveLeft.isPressed event then some (t.moveCursorLeft env)
  else if keymap.moveRight.isPressed event then some (t.moveCursorRight env)
  else if keymap.moveDown.isPressed event then t.moveCursorDown env
  else if keymap.moveUp.isPressed event then t.moveCursorUp env
  else if keymap.moveWordForward.isPressed event then (t.beginningOfNextWord env).map t.setCursor
  else if keymap.moveWordBackward.isPressed event then
    (t.beginningOfPreviousWord env).map t.setCursor
  else if keymap.moveWordEnd.isPressed event then (t.vimWordEndCursor env).map t.setCursor
  else if keymap.moveLineStart.isPressed event then t.beginningOfCurrentLine.map t.setCursor
  else if keymap.moveLineEnd.isPressed event then (t.vimLineEndCursor env).map t.setCursor
  else if keymap.deleteChar.isPressed event then t.deleteForwardKill env 1
  else if keymap.substituteChar.isPressed event then t.substituteChar env
  else if keymap.deleteToLineEnd.isPressed event then t.vimKillToEndOfLine
  else if keymap.changeToLineEnd.isPressed event then t.vimKillToEndOfLine.map enteringInsert
  else if keymap.yankLine.isPressed event then t.yankCurrentLine
  else if keymap.pasteAfter.isPressed event then t.pasteAfterCursor env
  else if keymap.startDeleteOperator.isPressed event then
    some { t with vimPending := .operator .delete }
  else if keymap.startYankOperator.isPressed event then
    some { t with vimPending := .operator .yank }
  else if keymap.startChangeOperator.isPressed event then
    some { t with vimPending := .operator .change }
  else if keymap.cancelOperator.isPressed event then some { t with vimPending := .none }
  else some t

def handleVimNormal (t : TextArea) (event : KeyEvent) : Option TextArea :=
  let taken : TextArea := { t with vimPending := .none }
  match t.vimPending with
  | .none => taken.handleVimNormalKey env event
  | .operator op => taken.handleVimOperator env op event
  | .textObject op scope => taken.handleVimTextObject env op scope event

def handleVimInput (t : TextArea) (event : KeyEvent) : Option TextArea :=
  match t.vimMode with
  | .insert => t.handleVimInsert env event
  | .normal => t.handleVimNormal env event

def input (t : TextArea) (event : KeyEvent) : Option TextArea :=
  if event.kind.isPressOrRepeat then
    if t.vimEnabled then t.handleVimInput env event
    else t.inputWithKeymap env event t.editorKeymap
  else some t

end TextArea

end Codewith.Composer
