import Codewith.Composer.Input

/-!
# Operations

What a caller can do to a text area, and what each operation does to the text, the elements and
the cursor: most are made of a few edits.
-/

namespace Codewith.Composer

open Lib Lib.Text

inductive Operation
  | setKeymapBindings (keymap : RuntimeKeymap)
  | setTextClearingElements (text : Text)
  | setTextWithElements (text : Text) (elements : List Span)
  | setVimEnabled (enabled : Bool)
  | enterVimInsertMode
  | enterVimNormalMode
  | insertStr (text : Text)
  | insertStrAt (pos : Nat) (text : Text)
  | replaceRange (range : Span) (text : Text)
  | setCursor (pos : Nat)
  | wrappedLines (width : Nat)
  | input (event : KeyEvent)
  | inputWithKeymap (event : KeyEvent) (keymap : EditorKeymap)
  | deleteBackward (n : Nat)
  | deleteForward (n : Nat)
  | deleteForwardKill (n : Nat)
  | deleteBackwardWord
  | deleteForwardWord
  | killToEndOfLine
  | killToBeginningOfLine
  | yank
  | moveCursorLeft
  | moveCursorRight
  | moveCursorUp
  | moveCursorDown
  | moveCursorToBeginningOfLine (moveUpAtBol : Bool)
  | moveCursorToEndOfLine (moveDownAtEol : Bool)
  | replaceElementPayload (old text : Text)
  | insertElement (text : Text)
  | insertNamedElement (text id : Text)
  | replaceElementById (id text : Text)
  | updateNamedElementById (id text : Text)
  | addElementRange (range : Span)
  | removeElementRange (range : Span)

/-- The text area after an operation that does not panic. -/
def Operation.apply (env : Environment) (t : TextArea) : Operation → Option TextArea
  | setKeymapBindings keymap => some (t.setKeymapBindings keymap)
  | setTextClearingElements text => some (t.setTextClearingElements text)
  | setTextWithElements text elements => some (t.setTextWithElements text elements)
  | setVimEnabled enabled => some (t.setVimEnabled enabled)
  | enterVimInsertMode => some t.enterVimInsertMode
  | enterVimNormalMode => some t.enterVimNormalMode
  | insertStr text => t.insertStr text
  | insertStrAt pos text => t.insertStrAt pos text
  | replaceRange range text => t.replaceRange range text
  | setCursor pos => some (t.setCursor pos)
  | wrappedLines width => some (t.wrappedLines env width).2
  | input event => t.input env event
  | inputWithKeymap event keymap => t.inputWithKeymap env event keymap
  | deleteBackward n => t.deleteBackward env n
  | deleteForward n => t.deleteForward env n
  | deleteForwardKill n => t.deleteForwardKill env n
  | deleteBackwardWord => t.deleteBackwardWord env
  | deleteForwardWord => t.deleteForwardWord env
  | killToEndOfLine => t.killToEndOfLine
  | killToBeginningOfLine => t.killToBeginningOfLine
  | yank => t.yank
  | moveCursorLeft => some (t.moveCursorLeft env)
  | moveCursorRight => some (t.moveCursorRight env)
  | moveCursorUp => t.moveCursorUp env
  | moveCursorDown => t.moveCursorDown env
  | moveCursorToBeginningOfLine moveUpAtBol => t.moveCursorToBeginningOfLine moveUpAtBol
  | moveCursorToEndOfLine moveDownAtEol => t.moveCursorToEndOfLine moveDownAtEol
  | replaceElementPayload old text => (t.replaceElementPayload old text).map Prod.snd
  | insertElement text => (t.insertElement text).map Prod.snd
  | insertNamedElement text id => t.insertNamedElement text id
  | replaceElementById id text => (t.replaceElementById id text).map Prod.snd
  | updateNamedElementById id text => (t.updateNamedElementById id text).map Prod.snd
  | addElementRange range => some (t.addElementRange range).2
  | removeElementRange range => some (t.removeElementRange range).2

/-- The states of runs whose operations all are permitted where they are applied. -/
inductive Reachable (env : Environment) (permits : TextArea → Operation → Prop) : TextArea → Prop
  | new : Reachable env permits TextArea.new
  | step {t t' : TextArea} (op : Operation) :
      Reachable env permits t → permits t op → op.apply env t = some t' →
        Reachable env permits t'

section

variable {env : Environment} {permits : TextArea → Operation → Prop}
  [∀ t op, Decidable (permits t op)]

/-- The state after a list of operations, if all are permitted and none panics. -/
def runOperations (env : Environment) (permits : TextArea → Operation → Prop)
    [∀ t op, Decidable (permits t op)] : List Operation → TextArea → Option TextArea
  | [], t => some t
  | op :: ops, t =>
      if permits t op then (op.apply env t).bind (runOperations env permits ops) else none

theorem Reachable.run {ops : List Operation} {t t' : TextArea} (h : Reachable env permits t)
    (hrun : runOperations env permits ops t = some t') : Reachable env permits t' := by
  induction ops generalizing t with
  | nil => exact Option.some.inj hrun ▸ h
  | cons op ops ih =>
      rw [runOperations] at hrun
      split_ifs at hrun with hpermits
      obtain ⟨s, hs, hrun⟩ := Option.bind_eq_some_iff.mp hrun
      exact ih (.step op h hpermits hs) hrun

end

/-! ### Edits -/

/-- The parts that operations are made of.  The cursor is placed at an edge of the text, at a
boundary next to it or at one that the setter chooses; text is inserted where no element is, or
replaces a range that takes elements as a whole. -/
inductive Edit (env : Environment) : TextArea → TextArea → Prop
  | aside {t t' : TextArea} : t'.text = t.text → t'.elements = t.elements →
      t'.cursorPos = t.cursorPos → t'.wrapCache = t.wrapCache → Edit env t t'
  | wrap (t : TextArea) (width : Nat) : Edit env t (t.wrappedLines env width).2
  | place (t : TextArea) (pos : Nat) :
      Edit env t { t with cursorPos := t.clampPosToNearestBoundary pos }
  | left (t : TextArea) : Edit env t (t.moveCursorLeft env)
  | right (t : TextArea) : Edit env t (t.moveCursorRight env)
  | first (t : TextArea) : Edit env t t.moveToStart
  | last (t : TextArea) : Edit env t t.moveToEnd
  | insert {t t' : TextArea} {pos : Nat} {text : Text} : t.insertStrAt pos text = some t' →
      Edit env t t'
  | replace {t t' : TextArea} {range wide : Span} {text : Text} :
      t.expandRangeToElementBoundaries range = some wide → t.replaceRangeRaw wide text = some t' →
        Edit env t t'

abbrev Edits (env : Environment) : TextArea → TextArea → Prop := Relation.ReflTransGen (Edit env)

theorem Edits.of_eq {env : Environment} {t t' : TextArea} (h : some t = some t') :
    Edits env t t' :=
  Option.some.inj h ▸ .refl

/-- What an operation that may panic does is made of edits. -/
abbrev Leads (env : Environment) (t : TextArea) (x : Option TextArea) : Prop :=
  ∀ ⦃t'⦄, x = some t' → Edits env t t'

theorem Leads.ite {env : Environment} {t : TextArea} {x y : Option TextArea} {p : Prop}
    [Decidable p] (hx : Leads env t x) (hy : Leads env t y) : Leads env t (if p then x else y) := by
  split_ifs
  · exact hx
  · exact hy

theorem Leads.some {env : Environment} {t t' : TextArea} (h : Edits env t t') :
    Leads env t (some t') :=
  fun _ heq => Option.some.inj heq ▸ h

namespace TextArea

variable {env : Environment} {t t' : TextArea}

theorem edits_setCursor (pos : Nat) : Edits env t (t.setCursor pos) :=
  .head (.place t (min pos (byteSize t.text))) (.single (.aside rfl rfl rfl rfl))

theorem leads_insertStr {text : Text} : Leads env t (t.insertStr text) :=
  fun _ h => .single (.insert h)

theorem leads_replaceRange {range : Span} {text : Text} :
    Leads env t (t.replaceRange range text) := by
  intro t' h
  obtain ⟨wide, hwide, h⟩ := Option.bind_eq_some_iff.mp h
  exact .single (.replace hwide h)

/-! ### Killing -/

theorem leads_killRangeWithKind {range : Span} {kind : KillBufferKind} :
    Leads env t (t.killRangeWithKind range kind) := by
  intro t' h
  obtain ⟨wide, hwide, h⟩ := Option.bind_eq_some_iff.mp h
  split_ifs at h
  · exact Edits.of_eq h
  · obtain ⟨removed, -, h⟩ := Option.bind_eq_some_iff.mp h
    split_ifs at h
    · exact Edits.of_eq h
    · have hstore : Edit env t (t.storeKillBuffer removed kind) := .aside rfl rfl rfl rfl
      exact .head hstore (.single (.replace hwide h))

theorem leads_yankRangeWithKind {range : Span} {kind : KillBufferKind} :
    Leads env t (t.yankRangeWithKind range kind) := by
  intro t' h
  obtain ⟨wide, -, h⟩ := Option.bind_eq_some_iff.mp h
  split_ifs at h
  · exact Edits.of_eq h
  · obtain ⟨removed, -, h⟩ := Option.bind_eq_some_iff.mp h
    split_ifs at h
    · exact Edits.of_eq h
    · rw [← Option.some.inj h]
      exact .single (.aside rfl rfl rfl rfl)

theorem leads_yank : Leads env t t.yank := by
  intro t' h
  rw [yank] at h
  split_ifs at h
  · exact Edits.of_eq h
  · exact leads_insertStr h

theorem leads_deleteBackward {n : Nat} : Leads env t (t.deleteBackward env n) := by
  intro t' h
  rw [deleteBackward] at h
  split_ifs at h
  · exact Edits.of_eq h
  · exact leads_replaceRange h

theorem leads_deleteForward {n : Nat} : Leads env t (t.deleteForward env n) := by
  intro t' h
  rw [deleteForward] at h
  split_ifs at h
  · exact Edits.of_eq h
  · exact leads_replaceRange h

theorem leads_deleteForwardKill {n : Nat} : Leads env t (t.deleteForwardKill env n) := by
  intro t' h
  rw [deleteForwardKill] at h
  split_ifs at h
  · exact Edits.of_eq h
  · exact leads_killRangeWithKind h

theorem leads_deleteBackwardWord : Leads env t (t.deleteBackwardWord env) := by
  intro t' h
  obtain ⟨start, -, h⟩ := Option.bind_eq_some_iff.mp h
  exact leads_killRangeWithKind h

theorem leads_deleteForwardWord : Leads env t (t.deleteForwardWord env) := by
  intro t' h
  obtain ⟨stop, -, h⟩ := Option.bind_eq_some_iff.mp h
  split_ifs at h
  · exact leads_killRangeWithKind h
  · exact Edits.of_eq h

theorem leads_killToEndOfLine : Leads env t t.killToEndOfLine := by
  intro t' h
  obtain ⟨eol, -, h⟩ := Option.bind_eq_some_iff.mp h
  split_ifs at h
  · exact leads_killRangeWithKind h
  · exact Edits.of_eq h
  · exact leads_killRangeWithKind h

theorem leads_vimKillToEndOfLine : Leads env t t.vimKillToEndOfLine := by
  intro t' h
  obtain ⟨eol, -, h⟩ := Option.bind_eq_some_iff.mp h
  split_ifs at h
  · exact leads_killRangeWithKind h
  · exact Edits.of_eq h

theorem leads_killToBeginningOfLine : Leads env t t.killToBeginningOfLine := by
  intro t' h
  obtain ⟨bol, -, h⟩ := Option.bind_eq_some_iff.mp h
  split_ifs at h
  · exact leads_killRangeWithKind h
  · exact Edits.of_eq h
  · exact leads_killRangeWithKind h

theorem leads_yankCurrentLine : Leads env t t.yankCurrentLine := by
  intro t' h
  obtain ⟨range, -, h⟩ := Option.bind_eq_some_iff.mp h
  exact leads_yankRangeWithKind h

theorem leads_killCurrentLine : Leads env t t.killCurrentLine := by
  intro t' h
  obtain ⟨range, -, h⟩ := Option.bind_eq_some_iff.mp h
  exact leads_killRangeWithKind h

theorem leads_pasteLineAfterCurrentLine : Leads env t t.pasteLineAfterCurrentLine := by
  intro t' h
  obtain ⟨eol, -, h⟩ := Option.bind_eq_some_iff.mp h
  obtain ⟨pasted, hpasted, h⟩ := Option.bind_eq_some_iff.mp h
  rw [← Option.some.inj h]
  exact .head (.insert hpasted) (edits_setCursor _)

theorem leads_pasteAfterCursor : Leads env t (t.pasteAfterCursor env) := by
  intro t' h
  rw [pasteAfterCursor] at h
  split_ifs at h
  · exact Edits.of_eq h
  · exact leads_pasteLineAfterCurrentLine h
  · exact (edits_setCursor _).trans (leads_insertStr h)

/-! ### Moving -/

theorem leads_moveCursorToBeginningOfLine {moveUpAtBol : Bool} :
    Leads env t (t.moveCursorToBeginningOfLine moveUpAtBol) := by
  intro t' h
  obtain ⟨bol, -, h⟩ := Option.bind_eq_some_iff.mp h
  split_ifs at h
  · obtain ⟨target, -, h⟩ := Option.bind_eq_some_iff.mp h
    exact Option.some.inj h ▸ edits_setCursor target
  · exact Option.some.inj h ▸ edits_setCursor bol

theorem leads_moveCursorToEndOfLine {moveDownAtEol : Bool} :
    Leads env t (t.moveCursorToEndOfLine moveDownAtEol) := by
  intro t' h
  obtain ⟨eol, -, h⟩ := Option.bind_eq_some_iff.mp h
  split_ifs at h
  · obtain ⟨target, -, h⟩ := Option.bind_eq_some_iff.mp h
    exact Option.some.inj h ▸ edits_setCursor target
  · exact Option.some.inj h ▸ edits_setCursor eol

theorem leads_moveToDisplayColOnLine {col : Option Nat} {lineStart lineEnd targetCol : Nat} :
    Leads env t
      (moveToDisplayColOnLine env { t with preferredCol := col } lineStart lineEnd targetCol) := by
  intro t' h
  obtain ⟨line, -, h⟩ := Option.bind_eq_some_iff.mp h
  have haside : Edit env t { t with preferredCol := col } := .aside rfl rfl rfl rfl
  rw [← Option.some.inj h]
  exact .head haside (.single (.place _ _))

theorem leads_moveUpLogical : Leads env t (t.moveUpLogical env) := by
  intro t' h
  obtain ⟨before, -, h⟩ := Option.bind_eq_some_iff.mp h
  split at h
  · exact Option.some.inj h ▸ .single (.first t)
  · obtain ⟨targetCol, -, h⟩ := Option.bind_eq_some_iff.mp h
    obtain ⟨lineStart, -, h⟩ := Option.bind_eq_some_iff.mp h
    exact leads_moveToDisplayColOnLine h

theorem leads_moveDownLogical : Leads env t (t.moveDownLogical env) := by
  intro t' h
  obtain ⟨targetCol, -, h⟩ := Option.bind_eq_some_iff.mp h
  obtain ⟨after, -, h⟩ := Option.bind_eq_some_iff.mp h
  split at h
  · rw [← Option.some.inj h]
    exact .head (.aside rfl rfl rfl rfl) (.single (.last _))
  · obtain ⟨lineEnd, -, h⟩ := Option.bind_eq_some_iff.mp h
    exact leads_moveToDisplayColOnLine h

theorem leads_moveCursorUp : Leads env t (t.moveCursorUp env) := by
  intro t' h
  obtain ⟨position, -, h⟩ := Option.bind_eq_some_iff.mp h
  split at h
  · exact leads_moveUpLogical h
  · split at h
    · exact Option.some.inj h ▸ .single (.first t)
    · obtain ⟨line, -, h⟩ := Option.bind_eq_some_iff.mp h
      exact leads_moveToDisplayColOnLine h

theorem leads_moveCursorDown : Leads env t (t.moveCursorDown env) := by
  intro t' h
  obtain ⟨position, -, h⟩ := Option.bind_eq_some_iff.mp h
  split at h
  · exact leads_moveDownLogical h
  · split_ifs at h
    · obtain ⟨line, -, h⟩ := Option.bind_eq_some_iff.mp h
      exact leads_moveToDisplayColOnLine h
    · exact Option.some.inj h ▸ .single (.last t)

theorem leads_map_setCursor {pos : Option Nat} : Leads env t (pos.map t.setCursor) := by
  intro t' h
  obtain ⟨pos, -, rfl⟩ := Option.map_eq_some_iff.mp h
  exact edits_setCursor pos

/-! ### Keys -/

theorem leads_inputPlain {event : KeyEvent} : Leads env t (t.inputPlain event) := by
  intro t' h
  rw [inputPlain] at h
  split at h
  · split_ifs at h
    · exact Edits.of_eq h
    · exact leads_insertStr h
    · exact Edits.of_eq h
  · exact Edits.of_eq h

theorem leads_inputBound {event : KeyEvent} {keymap : EditorKeymap} :
    Leads env t (t.inputBound env event keymap) := by
  rw [inputBound]
  apply Leads.ite leads_deleteBackward
  apply Leads.ite leads_deleteForwardWord
  apply Leads.ite leads_deleteForward
  apply Leads.ite leads_killToBeginningOfLine
  apply Leads.ite leads_killCurrentLine
  apply Leads.ite leads_killToEndOfLine
  apply Leads.ite leads_yank
  apply Leads.ite leads_map_setCursor
  apply Leads.ite leads_map_setCursor
  apply Leads.ite (.some (.single (.left t)))
  apply Leads.ite (.some (.single (.right t)))
  apply Leads.ite leads_moveCursorUp
  apply Leads.ite leads_moveCursorDown
  apply Leads.ite leads_moveCursorToBeginningOfLine
  apply Leads.ite leads_moveCursorToEndOfLine
  apply leads_inputPlain

theorem leads_inputWithKeymap {event : KeyEvent} {keymap : EditorKeymap} :
    Leads env t (t.inputWithKeymap env event keymap) := by
  intro t' h
  rw [inputWithKeymap] at h
  split_ifs at h
  · exact leads_insertStr h
  · exact leads_deleteBackwardWord h
  · split at h
    · exact leads_insertStr h
    · exact leads_inputBound h

theorem leads_applyVimOperator {op : VimOperator} {motion : VimMotion} :
    Leads env t (t.applyVimOperator env op motion) := by
  intro t' h
  obtain ⟨range, -, h⟩ := Option.bind_eq_some_iff.mp h
  cases range with
  | none => exact Edits.of_eq h
  | some range =>
      cases op with
      | delete => exact leads_killRangeWithKind h
      | yank => exact leads_yankRangeWithKind h
      | change => exact Edits.of_eq h

theorem leads_applyVimOperatorToRange {op : VimOperator} {range : Span} :
    Leads env t (t.applyVimOperatorToRange op range) := by
  intro t' h
  cases op with
  | delete => exact leads_killRangeWithKind h
  | yank => exact leads_yankRangeWithKind h
  | change =>
      obtain ⟨killed, hkilled, rfl⟩ := Option.map_eq_some_iff.mp h
      exact (leads_killRangeWithKind hkilled).tail (.aside rfl rfl rfl rfl)

theorem leads_handleVimOperator {op : VimOperator} {event : KeyEvent} :
    Leads env t (t.handleVimOperator env op event) := by
  intro t' h
  rw [handleVimOperator] at h
  split_ifs at h
  · exact leads_killCurrentLine h
  · exact leads_yankCurrentLine h
  · exact Edits.of_eq h
  · split at h
    · exact Option.some.inj h ▸ .single (.aside rfl rfl rfl rfl)
    · rw [handleVimMotion] at h
      split at h
      · exact leads_applyVimOperator h
      · exact Edits.of_eq h

theorem leads_handleVimTextObject {op : VimOperator} {scope : VimTextObjectScope}
    {event : KeyEvent} :
    Leads env t (t.handleVimTextObject env op scope event) := by
  intro t' h
  rw [handleVimTextObject] at h
  split_ifs at h
  · exact Edits.of_eq h
  · split at h
    · exact Edits.of_eq h
    · obtain ⟨range, -, h⟩ := Option.bind_eq_some_iff.mp h
      cases range with
      | none => exact Edits.of_eq h
      | some range => exact leads_applyVimOperatorToRange h

theorem edits_enteringInsert (h : Edits env t t') : Edits env t t'.enteringInsert :=
  h.tail (.aside rfl rfl rfl rfl)

theorem leads_openLineBelow : Leads env t t.openLineBelow := by
  intro t' h
  obtain ⟨eol, -, h⟩ := Option.bind_eq_some_iff.mp h
  obtain ⟨opened, hopened, h⟩ := Option.bind_eq_some_iff.mp h
  rw [← Option.some.inj h]
  exact edits_enteringInsert (.head (.insert hopened) (edits_setCursor _))

theorem leads_openLineAbove : Leads env t t.openLineAbove := by
  intro t' h
  obtain ⟨bol, -, h⟩ := Option.bind_eq_some_iff.mp h
  obtain ⟨opened, hopened, h⟩ := Option.bind_eq_some_iff.mp h
  rw [← Option.some.inj h]
  exact edits_enteringInsert (.head (.insert hopened) (edits_setCursor _))

theorem leads_substituteChar : Leads env t (t.substituteChar env) := by
  intro t' h
  obtain ⟨eol, -, h⟩ := Option.bind_eq_some_iff.mp h
  obtain ⟨cut, hcut, rfl⟩ := Option.map_eq_some_iff.mp h
  apply edits_enteringInsert
  split_ifs at hcut
  · exact leads_deleteForwardKill hcut
  · exact Edits.of_eq hcut

theorem leads_map_enteringInsert {pos : Option Nat} :
    Leads env t (pos.map fun pos => (t.setCursor pos).enteringInsert) := by
  intro t' h
  obtain ⟨pos, -, rfl⟩ := Option.map_eq_some_iff.mp h
  exact edits_enteringInsert (edits_setCursor pos)

theorem edits_vimPending (pending : VimPending) : Edits env t { t with vimPending := pending } :=
  .single (.aside rfl rfl rfl rfl)

theorem leads_changeToLineEnd : Leads env t (t.vimKillToEndOfLine.map enteringInsert) := by
  intro t' h
  obtain ⟨killed, hkilled, rfl⟩ := Option.map_eq_some_iff.mp h
  exact edits_enteringInsert (leads_vimKillToEndOfLine hkilled)

theorem leads_handleVimNormalKey {event : KeyEvent} :
    Leads env t (t.handleVimNormalKey env event) := by
  rw [handleVimNormalKey]
  apply Leads.ite (.some (edits_enteringInsert .refl))
  apply Leads.ite (.some (edits_enteringInsert (edits_setCursor _)))
  apply Leads.ite leads_map_enteringInsert
  apply Leads.ite leads_map_enteringInsert
  apply Leads.ite leads_openLineBelow
  apply Leads.ite leads_openLineAbove
  apply Leads.ite (.some (.single (.left t)))
  apply Leads.ite (.some (.single (.right t)))
  apply Leads.ite leads_moveCursorDown
  apply Leads.ite leads_moveCursorUp
  apply Leads.ite leads_map_setCursor
  apply Leads.ite leads_map_setCursor
  apply Leads.ite leads_map_setCursor
  apply Leads.ite leads_map_setCursor
  apply Leads.ite leads_map_setCursor
  apply Leads.ite leads_deleteForwardKill
  apply Leads.ite leads_substituteChar
  apply Leads.ite leads_vimKillToEndOfLine
  apply Leads.ite leads_changeToLineEnd
  apply Leads.ite leads_yankCurrentLine
  apply Leads.ite leads_pasteAfterCursor
  apply Leads.ite (.some (edits_vimPending _))
  apply Leads.ite (.some (edits_vimPending _))
  apply Leads.ite (.some (edits_vimPending _))
  apply Leads.ite (.some (edits_vimPending _))
  exact .some .refl

theorem leads_handleVimNormal {event : KeyEvent} : Leads env t (t.handleVimNormal env event) := by
  intro t' h
  have htaken : Edit env t { t with vimPending := .none } := .aside rfl rfl rfl rfl
  rw [handleVimNormal] at h
  split at h
  · exact .head htaken (leads_handleVimNormalKey h)
  · exact .head htaken (leads_handleVimOperator h)
  · exact .head htaken (leads_handleVimTextObject h)

theorem edits_enterVimNormalMode : Edits env t t.enterVimNormalMode := by
  rw [enterVimNormalMode]
  split_ifs
  · exact .single (.aside rfl rfl rfl rfl)
  · exact .refl

/-- Escape in insert mode steps back within the line, without the setter of the cursor. -/
def EscapesInsert (t : TextArea) (event : KeyEvent) (bol : Nat) : Prop :=
  event.kind.isPressOrRepeat = true ∧ t.vimEnabled = true ∧ t.vimMode = .insert ∧
    event.code = .esc ∧ t.beginningOfCurrentLine = some bol ∧ bol < t.cursorPos

instance (t : TextArea) (event : KeyEvent) (bol : Nat) : Decidable (t.EscapesInsert event bol) :=
  inferInstanceAs (Decidable (_ ∧ _))

theorem edits_input {event : KeyEvent} (h : t.input env event = some t') :
    Edits env t t' ∨ ∃ bol, t.EscapesInsert event bol ∧
      Edits env { t with cursorPos := max (t.prevAtomicBoundary env t.cursorPos) bol } t' := by
  rw [input] at h
  split_ifs at h with hkind hvim
  · rw [handleVimInput] at h
    split at h
    · rename_i hmode
      rw [handleVimInsert] at h
      split_ifs at h with hesc
      · obtain ⟨bol, hbol, h⟩ := Option.bind_eq_some_iff.mp h
        rw [← Option.some.inj h]
        split_ifs with hafter
        · exact .inr ⟨bol, ⟨hkind, hvim, hmode, hesc, hbol, hafter⟩, edits_enterVimNormalMode⟩
        · exact .inl edits_enterVimNormalMode
      · exact .inl (leads_inputWithKeymap h)
    · exact .inl (leads_handleVimNormal h)
  · exact .inl (leads_inputWithKeymap h)
  · exact .inl (Edits.of_eq h)

end TextArea

end Codewith.Composer
