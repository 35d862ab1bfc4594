import Codewith.Composer.Killing

/-!
# Text objects

The range that a Vim operator takes when it is followed by a text object.
-/

namespace Codewith.Composer

open Lib Lib.Text

inductive VimTextObject
  | word | bigWord | parentheses | brackets | braces | doubleQuote | singleQuote | backtick
deriving DecidableEq, Repr

namespace TextArea

variable (env : Environment) (t : TextArea)

def vimTextObjectScopeForEvent (event : KeyEvent) : Option VimTextObjectScope :=
  if t.vimOperatorKeymap.selectInnerTextObject.isPressed event then some .inner
  else if t.vimOperatorKeymap.selectAroundTextObject.isPressed event then some .around
  else none

def vimTextObjectForEvent (event : KeyEvent) : Option VimTextObject :=
  if t.vimTextObjectKeymap.word.isPressed event then some .word
  else if t.vimTextObjectKeymap.bigWord.isPressed event then some .bigWord
  else if t.vimTextObjectKeymap.parentheses.isPressed event then some .parentheses
  else if t.vimTextObjectKeymap.brackets.isPressed event then some .brackets
  else if t.vimTextObjectKeymap.braces.isPressed event then some .braces
  else if t.vimTextObjectKeymap.doubleQuote.isPressed event then some .doubleQuote
  else if t.vimTextObjectKeymap.singleQuote.isPressed event then some .singleQuote
  else if t.vimTextObjectKeymap.backtick.isPressed event then some .backtick
  else none

/-! ### Words -/

/-- The runs of characters that are no white space, from a position on. -/
def nonWsRunsFrom : Nat → Option Nat → Text → List Span
  | idx, some start, [] => [⟨start, idx⟩]
  | _, none, [] => []
  | idx, start, c :: s =>
      if isWhitespace c then
        match start with
        | some runStart => ⟨runStart, idx⟩ :: nonWsRunsFrom (idx + c.utf8Size) none s
        | none => nonWsRunsFrom (idx + c.utf8Size) none s
      else nonWsRunsFrom (idx + c.utf8Size) (some (start.getD idx)) s

def nonWsRuns : List Span := nonWsRunsFrom 0 none t.text

def cursorOverlapsRange (range : Span) : Bool :=
  range.start ≤ t.cursorPos && t.cursorPos < range.stop

def cursorIsAtRangeEnd (range : Span) : Bool :=
  range.start < range.stop && t.cursorPos == range.stop

def runAtCursor : Option Span :=
  t.nonWsRuns.find? fun range => t.cursorOverlapsRange range || t.cursorIsAtRangeEnd range

/-- The outer option is a panic. -/
def bigWordRangeAtCursor : Option (Option Span) := some t.runAtCursor

def smallWordRangeAtCursor : Option (Option Span) :=
  match t.runAtCursor with
  | none => some none
  | some run => do
      let text ← slice t.text run.start run.stop
      let pieces : List Span := (splitWordPieces env text).map fun (start, piece) =>
        ⟨run.start + start, run.start + start + byteSize piece⟩
      match pieces.find? t.cursorOverlapsRange with
      | some piece => some (some piece)
      | none =>
          if t.cursorIsAtRangeEnd run then some (some (pieces.getLast?.getD run))
          else some (some run)

def followingWhitespaceEnd (start : Nat) : Option Nat := do
  let after ← slice t.text start (byteSize t.text)
  some (start + byteSize (after.takeWhile isWhitespace))

def precedingWhitespaceStart (stop : Nat) : Option Nat := do
  let before ← slice t.text 0 stop
  some (byteSize (trimEnd before))

def expandWordAround (inner : Span) : Option Span := do
  let following ← t.followingWhitespaceEnd inner.stop
  if inner.stop < following then some ⟨inner.start, following⟩
  else do
    let start ← t.precedingWhitespaceStart inner.start
    some ⟨start, inner.stop⟩

def wordRangeAtCursor (bigWord : Bool) : Option (Option Span) :=
  if bigWord then t.bigWordRangeAtCursor else t.smallWordRangeAtCursor env

def wordTextObjectRange (scope : VimTextObjectScope) (bigWord : Bool) : Option (Option Span) := do
  match ← t.wordRangeAtCursor env bigWord with
  | none => some none
  | some inner =>
      match scope with
      | .inner => some (some inner)
      | .around => (t.expandWordAround inner).map some

/-! ### Delimiters -/

def isInsideElement (pos : Nat) : Bool :=
  t.elements.any fun e => e.range.start ≤ pos && pos < e.range.stop

/-- A pair around the cursor replaces a longer one. -/
def betterPair (scope : VimTextObjectScope) (delimiter : Char) (openIdx closeIdx closeEnd : Nat)
    (best : Option Span) : Option Span :=
  if openIdx ≤ t.cursorPos ∧ t.cursorPos ≤ closeIdx then
    let candidate : Span :=
      match scope with
      | .inner => ⟨openIdx + delimiter.utf8Size, closeIdx⟩
      | .around => ⟨openIdx, closeEnd⟩
    if candidate.start ≤ candidate.stop ∧
        best.all fun current => candidate.stop - candidate.start < current.stop - current.start then
      some candidate
    else best
  else best

def pairedScan (scope : VimTextObjectScope) (opening closing : Char) :
    Nat → List Nat → Option Span → Text → Option Span
  | _, _, best, [] => best
  | idx, stack, best, c :: s =>
      let next := idx + c.utf8Size
      if t.isInsideElement idx then pairedScan scope opening closing next stack best s
      else if c = opening then pairedScan scope opening closing next (idx :: stack) best s
      else if c = closing then
        match stack with
        | [] => pairedScan scope opening closing next [] best s
        | openIdx :: stack =>
            pairedScan scope opening closing next stack
              (t.betterPair scope opening openIdx idx next best) s
      else pairedScan scope opening closing next stack best s

def pairedTextObjectRange (scope : VimTextObjectScope) (opening closing : Char) : Option Span :=
  t.pairedScan scope opening closing 0 [] none t.text

/-- Whether an odd number of backslashes stands before a position. -/
def isEscaped (pos : Nat) : Option Bool := do
  let before ← slice t.text 0 pos
  some ((before.rtakeWhile (· == '\\')).length % 2 == 1)

def quotedScan (scope : VimTextObjectScope) (quote : Char) :
    Nat → Option Nat → Option Span → Text → Option (Option Span)
  | _, _, best, [] => some best
  | idx, opened, best, c :: s => do
      let next := idx + c.utf8Size
      if t.isInsideElement idx || c != quote then quotedScan scope quote next opened best s
      else if ← t.isEscaped idx then quotedScan scope quote next opened best s
      else
        match opened with
        | some openIdx =>
            quotedScan scope quote next none
              (t.betterPair scope quote openIdx idx (idx + quote.utf8Size) best) s
        | none => quotedScan scope quote next (some idx) best s

def quotedTextObjectRange (scope : VimTextObjectScope) (quote : Char) : Option (Option Span) := do
  let bol ← t.beginningOfCurrentLine
  let eol ← t.endOfCurrentLine
  let line ← slice t.text bol eol
  t.quotedScan scope quote bol none none line

def textObjectRange (object : VimTextObject) (scope : VimTextObjectScope) :
    Option (Option Span) :=
  match object with
  | .word => t.wordTextObjectRange env scope false
  | .bigWord => t.wordTextObjectRange env scope true
  | .parentheses => some (t.pairedTextObjectRange scope '(' ')')
  | .brackets => some (t.pairedTextObjectRange scope '[' ']')
  | .braces => some (t.pairedTextObjectRange scope '\x7b' '\x7d')
  | .doubleQuote => t.quotedTextObjectRange scope '\x22'
  | .singleQuote => t.quotedTextObjectRange scope '\x27'
  | .backtick => t.quotedTextObjectRange scope '\x60'

end TextArea

end Codewith.Composer
