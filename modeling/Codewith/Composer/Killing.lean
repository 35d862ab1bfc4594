import Codewith.Composer.Motion

/-!
# Deleting, killing and yanking

The kill buffer keeps the text removed last.
-/

namespace Codewith.Composer

open Lib Lib.Text

namespace TextArea

variable (env : Environment)

/-! ### The kill buffer -/

def storeKillBuffer (t : TextArea) (text : Text) (kind : KillBufferKind) : TextArea :=
  { t with killBuffer := text, killBufferKind := kind }

def killRangeWithKind (t : TextArea) (range : Span) (kind : KillBufferKind) : Option TextArea := do
  let range ← t.expandRangeToElementBoundaries range
  if range.stop ≤ range.start then some t
  else do
    let removed ← slice t.text range.start range.stop
    if removed = [] then some t
    else (t.storeKillBuffer removed kind).replaceRangeRaw range []

def killRange (t : TextArea) (range : Span) : Option TextArea :=
  t.killRangeWithKind range .characterwise

def killLineRange (t : TextArea) (range : Span) : Option TextArea :=
  t.killRangeWithKind range .linewise

def yankRangeWithKind (t : TextArea) (range : Span) (kind : KillBufferKind) : Option TextArea := do
  let range ← t.expandRangeToElementBoundaries range
  if range.stop ≤ range.start then some t
  else do
    let removed ← slice t.text range.start range.stop
    if removed = [] then some t else some (t.storeKillBuffer removed kind)

def yankRange (t : TextArea) (range : Span) : Option TextArea :=
  t.yankRangeWithKind range .characterwise

def yankLineRange (t : TextArea) (range : Span) : Option TextArea :=
  t.yankRangeWithKind range .linewise

/-- Insert the text killed last. -/
def yank (t : TextArea) : Option TextArea :=
  if t.killBuffer = [] then some t else t.insertStr t.killBuffer

/-! ### Characters and words -/

/-- `n` steps back, which end at the start of the text. -/
def stepsBack (t : TextArea) : Nat → Nat → Nat
  | 0, target => target
  | n + 1, target =>
      let target := t.prevAtomicBoundary env target
      if target = 0 then target else stepsBack t n target

/-- `n` steps forward, which end at the end of the text. -/
def stepsForward (t : TextArea) : Nat → Nat → Nat
  | 0, target => target
  | n + 1, target =>
      let target := t.nextAtomicBoundary env target
      if byteSize t.text ≤ target then target else stepsForward t n target

def deleteBackward (t : TextArea) (n : Nat) : Option TextArea :=
  if n = 0 ∨ t.cursorPos = 0 then some t
  else t.replaceRange ⟨t.stepsBack env n t.cursorPos, t.cursorPos⟩ []

def deleteForward (t : TextArea) (n : Nat) : Option TextArea :=
  if n = 0 ∨ byteSize t.text ≤ t.cursorPos then some t
  else t.replaceRange ⟨t.cursorPos, t.stepsForward env n t.cursorPos⟩ []

def deleteForwardKill (t : TextArea) (n : Nat) : Option TextArea :=
  if n = 0 ∨ byteSize t.text ≤ t.cursorPos then some t
  else t.killRange ⟨t.cursorPos, t.stepsForward env n t.cursorPos⟩

def deleteBackwardWord (t : TextArea) : Option TextArea := do
  let start ← t.beginningOfPreviousWord env
  t.killRange ⟨start, t.cursorPos⟩

def deleteForwardWord (t : TextArea) : Option TextArea := do
  let stop ← t.endOfNextWord env
  if t.cursorPos < stop then t.killRange ⟨t.cursorPos, stop⟩ else some t

/-! ### Lines -/

def killToEndOfLine (t : TextArea) : Option TextArea := do
  let eol ← t.endOfCurrentLine
  if t.cursorPos = eol then
    if eol < byteSize t.text then t.killRange ⟨t.cursorPos, eol + 1⟩ else some t
  else t.killRange ⟨t.cursorPos, eol⟩

def vimKillToEndOfLine (t : TextArea) : Option TextArea := do
  let eol ← t.endOfCurrentLine
  if t.cursorPos < eol then t.killRange ⟨t.cursorPos, eol⟩ else some t

def killToBeginningOfLine (t : TextArea) : Option TextArea := do
  let bol ← t.beginningOfCurrentLine
  if t.cursorPos = bol then
    if 0 < bol then t.killRange ⟨bol - 1, bol⟩ else some t
  else t.killRange ⟨bol, t.cursorPos⟩

def yankCurrentLine (t : TextArea) : Option TextArea := do
  let range ← t.currentLineRangeWithNewline
  t.yankLineRange range

def killCurrentLine (t : TextArea) : Option TextArea := do
  let range ← t.currentLineRangeWithNewline
  t.killLineRange range

/-! ### Pasting -/

def pasteLineAfterCurrentLine (t : TextArea) : Option TextArea := do
  let eol ← t.endOfCurrentLine
  let insertAt := if eol < byteSize t.text then eol + 1 else eol
  let cursor := if eol < byteSize t.text then insertAt else insertAt + 1
  let text :=
    if eol < byteSize t.text then
      if ['\n'].isSuffixOf t.killBuffer then t.killBuffer else t.killBuffer ++ ['\n']
    else '\n' :: t.killBuffer.rdropWhile (· == '\n')
  let pasted ← t.insertStrAt insertAt text
  some (pasted.setCursor (min cursor (byteSize pasted.text)))

def pasteAfterCursor (t : TextArea) : Option TextArea :=
  if t.killBuffer = [] then some t
  else if t.killBufferKind = .linewise then t.pasteLineAfterCurrentLine
  else (t.setCursor (t.nextAtomicBoundary env t.cursorPos)).insertStr t.killBuffer

end TextArea

end Codewith.Composer
