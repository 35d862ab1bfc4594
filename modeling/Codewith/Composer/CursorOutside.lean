import Codewith.Composer.Atomicity

/-!
# Where the cursor rests

Three operations can leave the cursor inside an element: marking a range around it, leaving insert
mode behind an element that holds a line break, and setting a text whose elements overlap.  In runs
without these no element strictly contains the cursor.
-/

namespace Codewith.Composer

open Lib Lib.Text

namespace TextArea

variable {env : Environment} {t t' : TextArea}

/-! ### Setting the text -/

/-- The elements that a caller's ranges give in a new text. -/
def marked (t : TextArea) (text : Text) (elements : List Span) : List Span :=
  (elements.map ({ t with text := text } : TextArea).clampRange).filter fun range =>
    range.start < range.stop

theorem clampRange_of_text {u : TextArea} (h : u.text = t.text) (range : Span) :
    u.clampRange range = t.clampRange range := by
  simp only [clampRange, clampPosToCharBoundary, h]

theorem text_pushElement (t : TextArea) (range : Span) : (t.pushElement range).text = t.text := by
  rw [pushElement]
  dsimp only
  split_ifs <;> rfl

theorem ranges_pushElement (t : TextArea) (range : Span) :
    (t.pushElement range).ranges =
      t.ranges ++ [t.clampRange range].filter fun range => range.start < range.stop := by
  rw [pushElement]
  dsimp only
  split_ifs with hempty
  · rw [List.filter_cons_of_neg (by simpa using hempty), List.filter_nil, List.append_nil]
  · rw [List.filter_cons_of_pos (by simpa using hempty), List.filter_nil]
    exact List.map_append

theorem foldl_pushElement (elements : List Span) (t : TextArea) :
    (elements.foldl pushElement t).text = t.text ∧
      (elements.foldl pushElement t).ranges = t.ranges ++ t.marked t.text elements := by
  induction elements generalizing t with
  | nil => exact ⟨rfl, (List.append_nil _).symm⟩
  | cons range elements ih =>
      obtain ⟨htext, hranges⟩ := ih (t.pushElement range)
      have hclamp : (t.pushElement range).clampRange = t.clampRange :=
        funext (clampRange_of_text (text_pushElement t range))
      refine ⟨htext.trans (text_pushElement t range), ?_⟩
      rw [List.foldl_cons, hranges, ranges_pushElement, List.append_assoc]
      congr 1
      change _ ++ (elements.map (t.pushElement range).clampRange).filter _ = _
      rw [hclamp, ← List.filter_append]
      rfl

theorem marks_marked {elements : List Span}
    (hseparate : ∀ e ∈ t.marked t.text elements, ∀ f ∈ t.marked t.text elements, e.Separate f) :
    Marks t.text (t.marked t.text elements) where
  ordered e he := (of_decide_eq_true (List.mem_filter.mp he).2).le
  boundaries e he := by
    obtain ⟨range, -, rfl⟩ := List.mem_map.mp (List.mem_filter.mp he).1
    exact clampRange_boundaries t range
  separate := hseparate

theorem marks_rebuildText {text : Text} {elements : Option (List Span)}
    (hseparate : ∀ ranges ∈ elements, ∀ e ∈ t.marked text ranges, ∀ f ∈ t.marked text ranges,
      e.Separate f) :
    Marks (t.rebuildText text elements).text (t.rebuildText text elements).ranges := by
  cases elements with
  | none => exact Marks.nil text
  | some ranges =>
      rw [rebuildText]
      generalize hcleared : TextArea.mk text _ _ _ _ _ _ _ _ _ _ _ _ _ _ = cleared
      have htext : cleared.text = text := hcleared ▸ rfl
      have hnone : cleared.ranges = [] := hcleared ▸ rfl
      obtain ⟨hpushed, hranges⟩ := foldl_pushElement ranges cleared
      have hmarked : cleared.marked cleared.text ranges = t.marked text ranges := by
        have hclamp : ({ cleared with text := cleared.text } : TextArea).clampRange =
            ({ t with text := text } : TextArea).clampRange :=
          funext (clampRange_of_text htext)
        rw [marked, marked, hclamp]
      have hmarks := @marks_marked cleared ranges (hmarked ▸ hseparate ranges rfl)
      rw [hnone, List.nil_append] at hranges
      rw [← hranges, ← hpushed] at hmarks
      exact hmarks.subset (ranges_sortElements _ _)

theorem tidy_setTextInner {text : Text} {elements : Option (List Span)}
    (hseparate : ∀ ranges ∈ elements, ∀ e ∈ t.marked text ranges, ∀ f ∈ t.marked text ranges,
      e.Separate f) :
    (t.setTextInner text elements).Tidy ∧ (t.setTextInner text elements).CursorOutside := by
  have hmarks := marks_rebuildText hseparate
  obtain ⟨htidy, hout⟩ := tidy_placed hmarks (t.rebuildText text elements).cursorPos
  exact ⟨⟨hmarks, htidy.cursor⟩, hout⟩

/-! ### Leaving insert mode -/

/-- The start of the line is a place for the cursor, unless an element reaches across it and the
step back passes it. -/
theorem tidy_escape {event : KeyEvent} {bol : Nat} (henv : env.Segments) (ht : t.Tidy)
    (hesc : t.EscapesInsert event bol) :
    ({ t with cursorPos := max (t.prevAtomicBoundary env t.cursorPos) bol } : TextArea).Tidy ∧
      ((t.prevAtomicBoundary env t.cursorPos < bol → Outside t.ranges bol) →
        ({ t with
          cursorPos :=
            max (t.prevAtomicBoundary env t.cursorPos) bol } : TextArea).CursorOutside) := by
  obtain ⟨-, -, -, -, hbol, -⟩ := hesc
  obtain ⟨hboundary, hout⟩ := prevAtomicBoundary_spec henv ht.marks ht.cursor
  rcases le_or_gt bol (t.prevAtomicBoundary env t.cursorPos) with hle | hlt
  · rw [max_eq_left hle]
    exact ⟨⟨ht.marks, hboundary⟩, fun _ => hout⟩
  · rw [max_eq_right hlt.le]
    exact ⟨⟨ht.marks, isBoundary_beginningOfLine hbol⟩, fun hclear => hclear hlt⟩

theorem tidy_input {event : KeyEvent} (henv : env.Segments) (ht : t.Tidy)
    (h : t.input env event = some t') :
    t'.Tidy ∧ ((∀ bol ∈ t.beginningOfCurrentLine, t.EscapesInsert event bol →
      t.prevAtomicBoundary env t.cursorPos < bol → Outside t.ranges bol) →
        t.CursorOutside → t'.CursorOutside) := by
  rcases edits_input h with hedits | ⟨bol, hesc, hedits⟩
  · obtain ⟨htidy, hout⟩ := tidy_edits henv ht hedits
    exact ⟨htidy, fun _ => hout⟩
  · obtain ⟨hstep, hclear⟩ := tidy_escape henv ht hesc
    obtain ⟨htidy, hout⟩ := tidy_edits henv hstep hedits
    exact ⟨htidy, fun hcond _ => hout (hclear (hcond bol hesc.2.2.2.2.1 hesc))⟩

end TextArea

/-! ### Runs -/

/-- The elements of a new text do not overlap in part. -/
def SeparateElements (t : TextArea) (text : Text) (elements : List Span) : Prop :=
  ∀ e ∈ t.marked text elements, ∀ f ∈ t.marked text elements, e.Separate f

/-- The range to mark meets an element, and is ignored, or is not around the cursor. -/
def MarksBeside (t : TextArea) (range : Span) : Prop :=
  (t.clampRange range).Inside t.cursorPos → ∃ e ∈ t.ranges,
    (t.clampRange range).start < e.stop ∧ e.start < (t.clampRange range).stop

/-- No element is around the start of the line where escape steps back past it. -/
def EscapesBeside (env : Environment) (t : TextArea) (event : KeyEvent) : Prop :=
  ∀ bol ∈ t.beginningOfCurrentLine, t.EscapesInsert event bol →
    t.prevAtomicBoundary env t.cursorPos < bol → Outside t.ranges bol

def KeepsCursorOutside (env : Environment) (t : TextArea) : Operation → Prop
  | .setTextWithElements text elements => SeparateElements t text elements
  | .addElementRange range => MarksBeside t range
  | .input event => EscapesBeside env t event
  | _ => True

instance (env : Environment) (t : TextArea) (op : Operation) :
    Decidable (KeepsCursorOutside env t op) :=
  match op with
  | .setTextWithElements text elements =>
      inferInstanceAs (Decidable (∀ e ∈ t.marked text elements, ∀ f ∈ t.marked text elements,
        e.Separate f))
  | .addElementRange range =>
      inferInstanceAs (Decidable ((t.clampRange range).Inside t.cursorPos → ∃ e ∈ t.ranges,
        (t.clampRange range).start < e.stop ∧ e.start < (t.clampRange range).stop))
  | .input event =>
      inferInstanceAs (Decidable (∀ bol ∈ t.beginningOfCurrentLine, t.EscapesInsert event bol →
        t.prevAtomicBoundary env t.cursorPos < bol → Outside t.ranges bol))
  | .setKeymapBindings _ | .setTextClearingElements _ | .setVimEnabled _ | .enterVimInsertMode
  | .enterVimNormalMode | .insertStr _ | .insertStrAt _ _ | .replaceRange _ _ | .setCursor _
  | .wrappedLines _ | .inputWithKeymap _ _ | .deleteBackward _ | .deleteForward _
  | .deleteForwardKill _ | .deleteBackwardWord | .deleteForwardWord | .killToEndOfLine
  | .killToBeginningOfLine | .yank | .moveCursorLeft | .moveCursorRight | .moveCursorUp
  | .moveCursorDown | .moveCursorToBeginningOfLine _ | .moveCursorToEndOfLine _
  | .replaceElementPayload _ _ | .insertElement _ | .insertNamedElement _ _
  | .replaceElementById _ _ | .updateNamedElementById _ _ | .removeElementRange _ =>
      inferInstanceAs (Decidable True)

namespace TextArea

variable {env : Environment} {t t' : TextArea}

theorem edits_setKeymapBindings (keymap : RuntimeKeymap) :
    Edits env t (t.setKeymapBindings keymap) :=
  .single (.aside rfl rfl rfl rfl)

theorem edits_setVimEnabled (enabled : Bool) : Edits env t (t.setVimEnabled enabled) :=
  .single (.aside rfl rfl rfl rfl)

theorem edits_enterVimInsertMode : Edits env t t.enterVimInsertMode := by
  rw [enterVimInsertMode]
  split_ifs
  · exact .single (.aside rfl rfl rfl rfl)
  · exact .refl

/-- A new text is the only operation that asks for elements that do not overlap; the cursor stays
outside them under the condition of the operation. -/
theorem tidy_apply (henv : env.Segments) (op : Operation) (ht : t.Tidy)
    (hsets : ∀ text elements, op = .setTextWithElements text elements →
      SeparateElements t text elements) (h : op.apply env t = some t') :
    t'.Tidy ∧ (KeepsCursorOutside env t op → t.CursorOutside → t'.CursorOutside) := by
  have hleads : ∀ {x : Option TextArea}, Leads env t x → x = some t' →
      t'.Tidy ∧ (True → t.CursorOutside → t'.CursorOutside) := fun hleads hx =>
    ⟨(tidy_edits henv ht (hleads hx)).1, fun _ => (tidy_edits henv ht (hleads hx)).2⟩
  cases op with
  | setKeymapBindings keymap => exact hleads (.some (edits_setKeymapBindings keymap)) h
  | setTextClearingElements text =>
      obtain ⟨htidy, hout⟩ := @tidy_setTextInner t text none
        fun ranges hranges => absurd hranges (Option.not_mem_none ranges)
      exact Option.some.inj h ▸ ⟨htidy, fun _ _ => hout⟩
  | setTextWithElements text elements =>
      obtain ⟨htidy, hout⟩ := @tidy_setTextInner t text (some elements)
        fun ranges hranges => Option.some.inj hranges ▸ hsets text elements rfl
      exact Option.some.inj h ▸ ⟨htidy, fun _ _ => hout⟩
  | setVimEnabled enabled => exact hleads (.some (edits_setVimEnabled enabled)) h
  | enterVimInsertMode => exact hleads (.some edits_enterVimInsertMode) h
  | enterVimNormalMode => exact hleads (.some edits_enterVimNormalMode) h
  | insertStr text => exact hleads leads_insertStr h
  | insertStrAt pos text => exact hleads (fun _ h => .single (.insert h)) h
  | replaceRange range text => exact hleads leads_replaceRange h
  | setCursor pos => exact hleads (.some (edits_setCursor pos)) h
  | wrappedLines width => exact hleads (.some (.single (.wrap t width))) h
  | input event => exact tidy_input henv ht h
  | inputWithKeymap event keymap => exact hleads leads_inputWithKeymap h
  | deleteBackward n => exact hleads leads_deleteBackward h
  | deleteForward n => exact hleads leads_deleteForward h
  | deleteForwardKill n => exact hleads leads_deleteForwardKill h
  | deleteBackwardWord => exact hleads leads_deleteBackwardWord h
  | deleteForwardWord => exact hleads leads_deleteForwardWord h
  | killToEndOfLine => exact hleads leads_killToEndOfLine h
  | killToBeginningOfLine => exact hleads leads_killToBeginningOfLine h
  | yank => exact hleads leads_yank h
  | moveCursorLeft => exact hleads (.some (.single (.left t))) h
  | moveCursorRight => exact hleads (.some (.single (.right t))) h
  | moveCursorUp => exact hleads leads_moveCursorUp h
  | moveCursorDown => exact hleads leads_moveCursorDown h
  | moveCursorToBeginningOfLine moveUpAtBol => exact hleads leads_moveCursorToBeginningOfLine h
  | moveCursorToEndOfLine moveDownAtEol => exact hleads leads_moveCursorToEndOfLine h
  | replaceElementPayload old text =>
      obtain ⟨renamed, hrenamed, rfl⟩ := Option.map_eq_some_iff.mp h
      obtain ⟨htidy, hout⟩ := tidy_replaceElementPayload ht hrenamed
      exact ⟨htidy, fun _ => hout⟩
  | insertElement text =>
      obtain ⟨added, hadded, rfl⟩ := Option.map_eq_some_iff.mp h
      obtain ⟨htidy, hout⟩ := tidy_insertElementWith ht hadded
      exact ⟨htidy, fun _ _ => hout⟩
  | insertNamedElement text name =>
      obtain ⟨added, hadded, rfl⟩ := Option.map_eq_some_iff.mp h
      obtain ⟨htidy, hout⟩ := tidy_insertElementWith ht hadded
      exact ⟨htidy, fun _ _ => hout⟩
  | replaceElementById name text =>
      obtain ⟨replaced, hreplaced, rfl⟩ := Option.map_eq_some_iff.mp h
      obtain ⟨htidy, hout⟩ := tidy_replaceElementById ht hreplaced
      exact ⟨htidy, fun _ => hout⟩
  | updateNamedElementById name text =>
      obtain ⟨updated, hupdated, rfl⟩ := Option.map_eq_some_iff.mp h
      obtain ⟨htidy, hout⟩ := tidy_updateNamedElementById ht hupdated
      exact ⟨htidy, fun _ => hout⟩
  | addElementRange range => exact Option.some.inj h ▸ tidy_addElementRange ht
  | removeElementRange range =>
      obtain ⟨htidy, hout⟩ := @tidy_removeElementRange t range ht
      exact Option.some.inj h ▸ ⟨htidy, fun _ => hout⟩

theorem tidy_new : TextArea.new.Tidy := ⟨Marks.nil [], isBoundary_zero []⟩

end TextArea

/-- In a run whose operations all meet their conditions, no element strictly contains the cursor in
any state reached. -/
theorem cursor_never_inside {env : Environment} (henv : env.Segments) {t : TextArea}
    (h : Reachable env (KeepsCursorOutside env) t) :
    ∀ e ∈ t.elements, ¬ (e.range.start < t.cursorPos ∧ t.cursorPos < e.range.stop) := by
  suffices hkept : t.Tidy ∧ t.CursorOutside from
    fun e he => hkept.2 e.range (List.mem_map_of_mem he)
  induction h with
  | new => exact ⟨TextArea.tidy_new, fun e he => absurd he List.not_mem_nil⟩
  | step op _ hkeeps happly ih =>
      obtain ⟨htidy, hout⟩ := TextArea.tidy_apply henv op ih.1
        (fun text elements hop => by
          subst hop
          exact hkeeps) happly
      exact ⟨htidy, hout hkeeps ih.2⟩

/-! ### Characters as graphemes -/

/-- What the tables answer where every character is a grapheme, as in plain ASCII text. -/
def charEnvironment : Environment where
  windows := false
  prevBoundary s p := .ok (if p = 0 then none else some (byteSize (takeBytes (p - 1) s)))
  nextBoundary s p :=
    .ok (if byteSize s ≤ p then none else some (byteSize (spanBytes (p + 1) s).1))
  graphemeIndices s := withPositions 0 (s.map fun c => [c])
  splitWordBoundIndices run := withPositions 0 (run.splitBy fun a b => a.isAlphanum == b.isAlphanum)
  width := List.length
  wrapRanges s _ := [⟨0, byteSize s + 1⟩]

theorem segments_charEnvironment : charEnvironment.Segments where
  prevBoundary s p _ := by
    refine ⟨_, rfl, fun q hq => ?_⟩
    split_ifs at hq
    · cases hq
    · exact Option.some.inj hq ▸ isBoundary_byteSize_takeBytes _ _
  nextBoundary s p _ := by
    refine ⟨_, rfl, fun q hq => ?_⟩
    split_ifs at hq
    · cases hq
    · exact Option.some.inj hq ▸ isBoundary_byteSize_spanBytes _ _

theorem exists_of_any {α : Type} {p : α → Bool} {x : Option α} (h : x.any p = true) :
    ∃ a, x = some a ∧ p a = true := by
  cases x with
  | none => cases h
  | some a => exact ⟨a, rfl, h⟩

def pressed (code : KeyCode) : KeyEvent := ⟨code, KeyModifiers.none, .press⟩

/-- An element over two lines, a character behind it, and escape, which steps back over the
character only. -/
def escapeBehindCharacter : List Operation :=
  [.setVimEnabled true, .enterVimInsertMode, .insertElement "ab\ncde".toList,
    .insertStr ['x'], .input (pressed .esc), .addElementRange ⟨6, 7⟩]

theorem cursor_never_inside_escapeBehindCharacter :
    ∃ t, Reachable charEnvironment (KeepsCursorOutside charEnvironment) t ∧
      t.elements.length = 2 ∧ t.cursorPos = 6 ∧
        ∀ e ∈ t.elements, ¬ (e.range.start < t.cursorPos ∧ t.cursorPos < e.range.stop) := by
  have hrun : (runOperations charEnvironment (KeepsCursorOutside charEnvironment)
      escapeBehindCharacter .new).any
        (fun t => t.elements.length = 2 && t.cursorPos = 6) = true := by
    decide +kernel
  obtain ⟨t, ht, hstate⟩ := exists_of_any hrun
  rw [Bool.and_eq_true, decide_eq_true_eq, decide_eq_true_eq] at hstate
  have hreach := Reachable.run .new ht
  exact ⟨t, hreach, hstate.1, hstate.2, cursor_never_inside segments_charEnvironment hreach⟩

/-- Escape right behind the element lands at the start of its second line. -/
def escapeBehindElement : List Operation :=
  [.setVimEnabled true, .enterVimInsertMode, .insertElement "ab\ncde".toList,
    .input (pressed .esc)]

/-- A typed command is marked while the cursor is in the middle of it. -/
def markAroundCursor : List Operation :=
  [.insertStr "/plan".toList, .setCursor 2, .addElementRange ⟨0, 5⟩]

theorem cursor_rests_inside :
    (∃ t, Reachable charEnvironment (fun _ _ => True) t ∧
      runOperations charEnvironment (fun _ _ => True) escapeBehindElement .new = some t ∧
        ∃ e ∈ t.elements, e.range.start < t.cursorPos ∧ t.cursorPos < e.range.stop) ∧
      ∃ t, Reachable charEnvironment (fun _ _ => True) t ∧
        runOperations charEnvironment (fun _ _ => True) markAroundCursor .new = some t ∧
          ∃ e ∈ t.elements, e.range.start < t.cursorPos ∧ t.cursorPos < e.range.stop := by
  have hrun : ∀ ops ∈ [escapeBehindElement, markAroundCursor],
      (runOperations charEnvironment (fun _ _ => True) ops .new).any (fun t =>
        t.elements.any fun e => e.range.start < t.cursorPos && t.cursorPos < e.range.stop) =
          true := by
    decide +kernel
  have hinside : ∀ ops ∈ [escapeBehindElement, markAroundCursor], ∃ t,
      Reachable charEnvironment (fun _ _ => True) t ∧
        runOperations charEnvironment (fun _ _ => True) ops .new = some t ∧
          ∃ e ∈ t.elements, e.range.start < t.cursorPos ∧ t.cursorPos < e.range.stop := by
    intro ops hops
    obtain ⟨t, ht, hstate⟩ := exists_of_any (hrun ops hops)
    obtain ⟨e, he, hinside⟩ := List.any_eq_true.mp hstate
    rw [Bool.and_eq_true, decide_eq_true_eq, decide_eq_true_eq] at hinside
    exact ⟨t, Reachable.run .new ht, ht, e, he, hinside⟩
  exact ⟨hinside _ (by simp), hinside _ (by simp)⟩

end Codewith.Composer
