import Codewith.Composer.CursorOutside

/-!
# Killing and yanking back

A kill leaves the cursor where the removed text began, and no element that is left is around that
place.  An immediately following yank therefore puts the text back.
-/

namespace Codewith.Composer

open Lib Lib.Text

/-- The commands that kill. -/
inductive KillCommand
  | toEndOfLine | vimToEndOfLine | toBeginningOfLine | wholeLine | wordBackward | wordForward
  | forward (n : Nat)
deriving DecidableEq, Repr

def KillCommand.apply (env : Environment) (t : TextArea) : KillCommand → Option TextArea
  | toEndOfLine => t.killToEndOfLine
  | vimToEndOfLine => t.vimKillToEndOfLine
  | toBeginningOfLine => t.killToBeginningOfLine
  | wholeLine => t.killCurrentLine
  | wordBackward => t.deleteBackwardWord env
  | wordForward => t.deleteForwardWord env
  | forward n => t.deleteForwardKill env n

namespace TextArea

variable {env : Environment} {t t' : TextArea}

/-! ### Where the cursor is -/

theorem beginningOfLine_le {p bol : Nat} (h : t.beginningOfLine p = some bol) : bol ≤ p := by
  obtain ⟨before, hbefore, h⟩ := Option.bind_eq_some_iff.mp h
  obtain ⟨front, after, -, hfront, hsize⟩ := slice_eq_some_iff.mp hbefore
  rw [byteSize_append, hfront, Nat.zero_add] at hsize
  rw [← Option.some.inj h, ← hsize]
  cases hnewline : rfind (· == '\n') before with
  | none => exact Nat.zero_le _
  | some i =>
      obtain ⟨a, c, b, rfl, rfl, -⟩ := exists_of_rfind hnewline
      have hpos := c.utf8Size_pos
      rw [byteSize_append, byteSize_cons]
      change byteSize a + 1 ≤ _
      omega

theorem le_endOfLine {p eol : Nat} (h : t.endOfLine p = some eol) : p ≤ eol := by
  obtain ⟨after, hafter, h⟩ := Option.bind_eq_some_iff.mp h
  obtain ⟨front, rest, htext, hfront, hsize⟩ := slice_eq_some_iff.mp hafter
  rw [← Option.some.inj h]
  cases find (· == '\n') after with
  | none =>
      change p ≤ byteSize t.text
      rw [← hsize, byteSize_append, hfront]
      exact Nat.le_add_right _ _
  | some i => exact Nat.le_add_left _ _

/-- The widened range reaches from the cursor, or to it, as the range does. -/
theorem cursor_within_wide {range wide : Span} {cursor : Nat}
    (hwide : t.expandRangeToElementBoundaries range = some wide) (hempty : wide.start < wide.stop)
    (hcursor : cursor = range.start ∨ cursor = range.stop ∨
      (range.start ≤ cursor ∧ cursor ≤ range.stop)) :
    wide.start ≤ cursor ∧ cursor ≤ wide.stop := by
  obtain ⟨hstart, hstop⟩ := (Span.widen_spec hwide).1
  rcases Span.meets_widen (.inl rfl) hwide with rfl | hmeets
  · omega
  · omega

/-! ### One kill -/

/-- After a range has been removed no element is around the place where it was. -/
theorem outside_removed {u : TextArea} {range : Span}
    (hcross : ∀ e ∈ u.ranges, e.Apart range ∨ e.Within range) (hrange : range.start ≤ range.stop) :
    Outside (u.shiftElements range.start (range.stop - range.start) 0).ranges range.start := by
  have hstop : range.start + (range.stop - range.start) = range.stop :=
    Nat.add_sub_cancel' hrange
  have hshift := @ranges_shiftElements u range.start (range.stop - range.start) 0
  rw [hstop, show (⟨range.start, range.stop⟩ : Span) = range from rfl] at hshift
  intro e he hinside
  obtain ⟨f, hf, rfl⟩ := List.mem_map.mp (hshift hcross he)
  have hapart := apart_past (n := 0) hrange (of_decide_eq_true (List.mem_filter.mp hf).2)
  rw [Span.Inside] at hinside
  rw [Span.Apart] at hapart
  dsimp only at hapart
  omega

theorem replaceRangeRaw_nil {u : TextArea} {range : Span} {replaced : Text}
    (hcross : ∀ e ∈ u.ranges, e.Apart range ∨ e.Within range) (hrange : range.start < range.stop)
    (hcursor : range.start ≤ u.cursorPos ∧ u.cursorPos ≤ range.stop)
    (hr : Text.replaceRange u.text range.start range.stop [] = some replaced)
    (h : u.replaceRangeRaw range [] = some t') :
    t'.text = replaced ∧ t'.killBuffer = u.killBuffer ∧ t'.cursorPos = range.start ∧
      Outside t'.ranges range.start := by
  obtain ⟨-, hstart, hstop⟩ := le_of_replaceRange hr
  have hboundary := isBoundary_replaceRange_before hr hstart le_rfl
  rw [replaceRangeRaw, if_neg (by omega)] at h
  dsimp only at h
  rw [min_eq_left hstart.le, min_eq_left hstop.le, if_neg (by omega), hr] at h
  have hplace : cursorAfterReplace u.cursorPos range.start range.stop (byteSize []) =
      range.start := by
    rw [cursorAfterReplace, if_neg (by omega), if_pos hcursor.2]
    rfl
  rw [hplace, Option.bind_eq_bind, Option.bind_some, min_eq_left hboundary.le] at h
  have hout := outside_removed hcross hrange.le
  generalize hshifted : shiftElements _ _ _ _ = shifted at h
  have htext : shifted.text = replaced := hshifted ▸ rfl
  have hkill : shifted.killBuffer = u.killBuffer := hshifted ▸ rfl
  have hranges : shifted.ranges =
      (u.shiftElements range.start (range.stop - range.start) 0).ranges := hshifted ▸ rfl
  rw [← hranges] at hout
  rw [← htext] at hboundary
  rw [clampPosToNearestBoundary_of_outside hboundary hout] at h
  rw [← Option.some.inj h]
  exact ⟨htext, hkill, rfl, hout⟩

/-- Inserting at a boundary outside the elements. -/
theorem insertStr_of_outside {s : Text} (hboundary : IsBoundary t.text t.cursorPos)
    (hout : Outside t.ranges t.cursorPos) {inserted : Text}
    (hr : Text.replaceRange t.text t.cursorPos t.cursorPos s = some inserted) :
    ∃ u, t.insertStr s = some u ∧ u.text = inserted := by
  rw [insertStr, insertStrAt, clampPosForInsertion_eq,
    clampPosToNearestBoundary_of_outside hboundary hout, hr]
  exact ⟨_, rfl, rfl⟩

/-- A kill that changes the text removes a range around the cursor, which a yank puts back. -/
theorem yank_after_killRange {range : Span} {kind : KillBufferKind}
    (h : t.killRangeWithKind range kind = some t')
    (hcursor : t.cursorPos = range.start ∨ t.cursorPos = range.stop ∨
      (range.start ≤ t.cursorPos ∧ t.cursorPos ≤ range.stop))
    (hchanged : t'.text ≠ t.text) : ∃ u, t'.yank = some u ∧ u.text = t.text := by
  obtain ⟨wide, hwide, h⟩ := Option.bind_eq_some_iff.mp h
  split_ifs at h with hempty
  · exact absurd (Option.some.inj h ▸ rfl) hchanged
  obtain ⟨removed, hremoved, h⟩ := Option.bind_eq_some_iff.mp h
  split_ifs at h with hnothing
  · exact absurd (Option.some.inj h ▸ rfl) hchanged
  obtain ⟨before, after, htext, hstart, hstop⟩ := slice_eq_some_iff.mp hremoved
  have hwithin := cursor_within_wide hwide (not_le.mp hempty) hcursor
  have hreplaced : Text.replaceRange t.text wide.start wide.stop [] =
      some (before ++ [] ++ after) :=
    replaceRange_eq_some_iff.mpr ⟨before, removed, after, htext, hstart, hstop, rfl⟩
  obtain ⟨hnew, hbuffer, hplace, hout⟩ := @replaceRangeRaw_nil t' (t.storeKillBuffer removed kind)
    wide _ (Span.widen_spec hwide).2 (not_le.mp hempty) hwithin hreplaced h
  rw [List.append_nil] at hnew
  rw [yank, hbuffer]
  change ∃ u, (if removed = [] then some t' else t'.insertStr removed) = some u ∧ u.text = t.text
  rw [if_neg hnothing]
  apply insertStr_of_outside
  · rw [hplace, hnew, ← hstart]
    exact isBoundary_byteSize_append before after
  · rw [hplace]
    exact hout
  · rw [hplace, hnew, htext]
    refine replaceRange_eq_some_iff.mpr ⟨before, [], after, ?_, hstart, ?_, rfl⟩
    · rw [List.append_nil]
    · rw [List.append_nil, hstart]

end TextArea

/-! ### The commands -/

/-- A kill that changes the text is undone by an immediately following yank, in any state. -/
theorem yank_restores_killed {env : Environment} {t t' : TextArea} (command : KillCommand)
    (h : command.apply env t = some t') (hchanged : t'.text ≠ t.text) :
    ∃ u, t'.yank = some u ∧ u.text = t.text := by
  have hsame : some t = some t' → ∃ u, t'.yank = some u ∧ u.text = t.text := fun heq =>
    absurd (Option.some.inj heq ▸ rfl) hchanged
  cases command with
  | toEndOfLine =>
      obtain ⟨eol, -, h⟩ := Option.bind_eq_some_iff.mp h
      split_ifs at h
      · exact TextArea.yank_after_killRange h (.inl rfl) hchanged
      · exact hsame h
      · exact TextArea.yank_after_killRange h (.inl rfl) hchanged
  | vimToEndOfLine =>
      obtain ⟨eol, -, h⟩ := Option.bind_eq_some_iff.mp h
      split_ifs at h
      · exact TextArea.yank_after_killRange h (.inl rfl) hchanged
      · exact hsame h
  | toBeginningOfLine =>
      obtain ⟨bol, -, h⟩ := Option.bind_eq_some_iff.mp h
      split_ifs at h with hbol
      · exact TextArea.yank_after_killRange h (.inr (.inl hbol)) hchanged
      · exact hsame h
      · exact TextArea.yank_after_killRange h (.inr (.inl rfl)) hchanged
  | wholeLine =>
      obtain ⟨range, hrange, h⟩ := Option.bind_eq_some_iff.mp h
      obtain ⟨bol, hbol, hrange⟩ := Option.bind_eq_some_iff.mp hrange
      obtain ⟨eol, heol, hrange⟩ := Option.bind_eq_some_iff.mp hrange
      have hle := TextArea.beginningOfLine_le hbol
      have hge := TextArea.le_endOfLine heol
      rw [← Option.some.inj hrange] at h
      refine TextArea.yank_after_killRange h (.inr (.inr ⟨hle, ?_⟩)) hchanged
      dsimp only
      split_ifs
      · omega
      · exact hge
  | wordBackward =>
      obtain ⟨start, -, h⟩ := Option.bind_eq_some_iff.mp h
      exact TextArea.yank_after_killRange h (.inr (.inl rfl)) hchanged
  | wordForward =>
      obtain ⟨stop, -, h⟩ := Option.bind_eq_some_iff.mp h
      split_ifs at h
      · exact TextArea.yank_after_killRange h (.inl rfl) hchanged
      · exact hsame h
  | forward n =>
      rw [KillCommand.apply, TextArea.deleteForwardKill] at h
      split_ifs at h
      · exact hsame h
      · exact TextArea.yank_after_killRange h (.inl rfl) hchanged

/-- An element over two lines, with the cursor in the text behind it. -/
def typedBehindElement : List Operation :=
  [.insertStr ['é'], .insertElement "ab\ncde".toList, .insertStr "fg".toList, .moveCursorLeft]

theorem yank_restores_killed_typedBehindElement :
    ∃ t t' u, Reachable charEnvironment (fun _ _ => True) t ∧
      KillCommand.wholeLine.apply charEnvironment t = some t' ∧ t'.text = ['é'] ∧
        t'.yank = some u ∧ u.text = t.text := by
  have hrun : (runOperations charEnvironment (fun _ _ => True) typedBehindElement .new).any
      (fun t => (KillCommand.wholeLine.apply charEnvironment t).any fun t' =>
        decide (t'.text ≠ t.text) && decide (t'.text = ['é'])) = true := by
    decide +kernel
  obtain ⟨t, ht, hkill⟩ := exists_of_any hrun
  obtain ⟨t', ht', hstate⟩ := exists_of_any hkill
  rw [Bool.and_eq_true, decide_eq_true_eq, decide_eq_true_eq] at hstate
  obtain ⟨u, hu, htext⟩ := yank_restores_killed .wholeLine ht' hstate.1
  exact ⟨t, t', u, Reachable.run .new ht, ht', hstate.2, hu, htext⟩

end Codewith.Composer
