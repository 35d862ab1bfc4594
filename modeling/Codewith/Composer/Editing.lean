import Codewith.Composer.State
import Mathlib.Data.List.Sort

/-!
# Edits of the text and its elements
-/

namespace Codewith.Composer

open Lib Lib.Text

namespace TextArea

/-! ### Replacing text -/

/-- The range of an element after an edit that does not remove it. -/
def shiftRange (pos removed inserted : Nat) (e : Span) : Span :=
  if e.stop ≤ pos then e
  else if pos + removed ≤ e.start then ⟨e.start + inserted - removed, e.stop + inserted - removed⟩
  else ⟨min pos e.start, pos + max inserted (e.stop - (pos + removed))⟩

def shiftElements (t : TextArea) (pos removed inserted : Nat) : TextArea :=
  { t with
    elements := (t.elements.filter fun e =>
        !(pos ≤ e.range.start && e.range.stop ≤ pos + removed)).map fun e =>
      { e with range := shiftRange pos removed inserted e.range } }

def insertStrAt (t : TextArea) (pos : Nat) (text : Text) : Option TextArea := do
  let pos := t.clampPosForInsertion pos
  let inserted ← Text.replaceRange t.text pos pos text
  some <| shiftElements
    { t with
      text := inserted
      wrapCache := none
      cursorPos := if pos ≤ t.cursorPos then t.cursorPos + byteSize text else t.cursorPos
      preferredCol := none }
    pos 0 (byteSize text)

def insertStr (t : TextArea) (text : Text) : Option TextArea := t.insertStrAt t.cursorPos text

/-- Where an edit leaves the cursor. -/
def cursorAfterReplace (cursor start stop inserted : Nat) : Nat :=
  if cursor < start then cursor
  else if cursor ≤ stop then start + inserted
  else cursor + inserted - (stop - start)

def replaceRangeRaw (t : TextArea) (range : Span) (text : Text) : Option TextArea :=
  if range.stop < range.start then none
  else
    let start := min range.start (byteSize t.text)
    let stop := min range.stop (byteSize t.text)
    if stop - start = 0 ∧ byteSize text = 0 then some t
    else do
      let replaced ← Text.replaceRange t.text range.start range.stop text
      let shifted := shiftElements
        { t with text := replaced, wrapCache := none, preferredCol := none }
        start (stop - start) (byteSize text)
      let cursor :=
        min (cursorAfterReplace t.cursorPos start stop (byteSize text)) (byteSize replaced)
      some { shifted with cursorPos := shifted.clampPosToNearestBoundary cursor }

def replaceRange (t : TextArea) (range : Span) (text : Text) : Option TextArea := do
  let range ← t.expandRangeToElementBoundaries range
  t.replaceRangeRaw range text

def setCursor (t : TextArea) (pos : Nat) : TextArea :=
  { t with
    cursorPos := t.clampPosToNearestBoundary (min pos (byteSize t.text))
    preferredCol := none }

/-! ### Elements -/

def sortElements (elements : List TextElement) : List TextElement :=
  elements.insertionSort fun a b => a.range.start ≤ b.range.start

/-- `saturating_add` on 64 bits. -/
def bumpElementId (t : TextArea) : TextArea :=
  { t with nextElementId := min (t.nextElementId + 1) (2 ^ 64 - 1) }

/-- A range of the caller's, brought into the text and to character boundaries. -/
def clampRange (t : TextArea) (range : Span) : Span :=
  ⟨t.clampPosToCharBoundary (min range.start (byteSize t.text)),
    t.clampPosToCharBoundary (min range.stop (byteSize t.text))⟩

def pushElement (t : TextArea) (byteRange : Span) : TextArea :=
  let range := t.clampRange byteRange
  if range.stop ≤ range.start then t
  else
    { t.bumpElementId with
      elements := t.elements ++ [⟨t.nextElementId, range, none⟩] }

/-- The raw text with the cursor within it, and the elements built from scratch. -/
def rebuildText (t : TextArea) (text : Text) (elements : Option (List Span)) : TextArea :=
  let cleared : TextArea :=
    { t with text := text, cursorPos := min t.cursorPos (byteSize text), elements := [] }
  match elements with
  | some byteRanges =>
      let pushed := byteRanges.foldl pushElement cleared
      { pushed with elements := sortElements pushed.elements }
  | none => cleared

def setTextInner (t : TextArea) (text : Text) (elements : Option (List Span)) : TextArea :=
  let rebuilt := t.rebuildText text elements
  { rebuilt with
    cursorPos := rebuilt.clampPosToNearestBoundary rebuilt.cursorPos
    wrapCache := none
    preferredCol := none }

def setTextClearingElements (t : TextArea) (text : Text) : TextArea := t.setTextInner text none

def setTextWithElements (t : TextArea) (text : Text) (elements : List Span) : TextArea :=
  t.setTextInner text (some elements)

def addElementWithId (t : TextArea) (range : Span) (name : Option Text) : Nat × TextArea :=
  (t.nextElementId,
    { t.bumpElementId with
      elements := sortElements (t.elements ++ [⟨t.nextElementId, range, name⟩]) })

def addElement (t : TextArea) (range : Span) : Nat × TextArea := t.addElementWithId range none

/-- The range of an element other than the renamed one.  One that crosses it is snapped to it. -/
def shiftPast (start stop inserted : Nat) (e : Span) : Span :=
  if e.stop ≤ start then e
  else if stop ≤ e.start then
    ⟨e.start + inserted - (stop - start), e.stop + inserted - (stop - start)⟩
  else ⟨min start e.start, max (start + inserted) (e.stop + inserted - (stop - start))⟩

/-- The first element with the old text, by its place in the list. -/
def payloadIndex (t : TextArea) (old : Text) : Option Nat :=
  t.elements.findIdx? fun e => slice t.text e.range.start e.range.stop == some old

/-- The new text and the ranges in it of the renamed element and the others. -/
def renameRange (t : TextArea) (idx : Nat) (range : Span) (replaced : Text) (inserted : Nat) :
    TextArea :=
  { t with
    text := replaced
    wrapCache := none
    preferredCol := none
    elements := t.elements.mapIdx fun j e =>
      if j = idx then { e with range := ⟨range.start, range.start + inserted⟩ }
      else if inserted = range.stop - range.start then e
      else { e with range := shiftPast range.start range.stop inserted e.range } }

def renameElement (t : TextArea) (idx : Nat) (range : Span) (replaced text : Text) : TextArea :=
  let renamed := t.renameRange idx range replaced (byteSize text)
  let cursor := cursorAfterReplace t.cursorPos range.start range.stop (byteSize text)
  { renamed with
    cursorPos := renamed.clampPosToNearestBoundary cursor
    elements := sortElements renamed.elements }

def replaceElementPayload (t : TextArea) (old text : Text) : Option (Bool × TextArea) :=
  match t.payloadIndex old with
  | none => some (false, t)
  | some idx => do
      let e ← t.elements[idx]?
      if e.range.stop < e.range.start ∨ byteSize t.text < e.range.stop then some (false, t)
      else
        let replaced ← Text.replaceRange t.text e.range.start e.range.stop text
        some (true, t.renameElement idx e.range replaced text)

/-- `insert_element` and `insert_named_element`. -/
def insertElementWith (t : TextArea) (text : Text) (name : Option Text) :
    Option (Nat × TextArea) := do
  let start := t.clampPosForInsertion t.cursorPos
  let inserted ← t.insertStrAt start text
  let added := inserted.addElementWithId ⟨start, start + byteSize text⟩ name
  some (added.1, added.2.setCursor (start + byteSize text))

def insertElement (t : TextArea) (text : Text) : Option (Nat × TextArea) :=
  t.insertElementWith text none

def insertNamedElement (t : TextArea) (text id : Text) : Option TextArea :=
  (t.insertElementWith text (some id)).map Prod.snd

def namedElement (t : TextArea) (id : Text) : Option TextElement :=
  t.elements.find? fun e => e.name == some id

def replaceElementById (t : TextArea) (id text : Text) : Option (Bool × TextArea) :=
  match t.namedElement id with
  | none => some (false, t)
  | some e => do
      let replaced ← t.replaceRangeRaw e.range text
      some (true,
        { replaced with elements := replaced.elements.filter fun e => e.name != some id })

def updateNamedElementById (t : TextArea) (id text : Text) : Option (Bool × TextArea) :=
  match t.namedElement id with
  | none => some (false, t)
  | some e => do
      let replaced ← t.replaceRangeRaw e.range text
      let range : Span := ⟨e.range.start, e.range.start + byteSize text⟩
      some (true, (replaced.addElementWithId range (some id)).2)

def addElementRange (t : TextArea) (range : Span) : Option Nat × TextArea :=
  let range := t.clampRange range
  if range.stop ≤ range.start then (none, t)
  else if t.elements.any fun e => e.range = range then (none, t)
  else if t.elements.any fun e => range.start < e.range.stop && e.range.start < range.stop then
    (none, t)
  else ((some (t.addElement range).1), (t.addElement range).2)

def removeElementRange (t : TextArea) (range : Span) : Bool × TextArea :=
  let range := t.clampRange range
  if range.stop ≤ range.start then (false, t)
  else
    let kept := t.elements.filter fun e => !decide (e.range = range)
    (t.elements.length != kept.length, { t with elements := kept })

end TextArea

end Codewith.Composer
