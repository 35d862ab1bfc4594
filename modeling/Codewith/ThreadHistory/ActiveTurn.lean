import Codewith.ThreadHistory.Outline

/-!
# The active turn

An open turn without items is dropped when it ends, unless an event opened it or it has a
compaction mark.  No input leaves such a turn open, so the active turn is the one that the
builder will return last.
-/

namespace Codewith.ThreadHistory

open Lib

namespace Outline

variable {isInput : Text → Prop} {o o' : Outline}

/-- The open turn, if there is one, will be shown. -/
def CurrentShown (o : Outline) : Prop := ∀ turn ∈ o.current, turn.Shown

theorem currentShown_of_none (h : o.current = none) : o.CurrentShown := by
  intro turn hturn
  rw [h] at hturn
  cases hturn

theorem currentShown_push (o : Outline) (id : Text) : (o.push id).CurrentShown := by
  intro turn hturn
  obtain rfl := Option.some.inj hturn
  exact .inl (List.append_ne_nil_of_right_ne_nil _ (List.cons_ne_nil id []))

theorem Step.currentShown (hstep : Step isInput o o') (h : o.CurrentShown) : o'.CurrentShown := by
  cases hstep with
  | finish => exact currentShown_of_none o.current_finish
  | openExplicitly =>
      intro turn hturn
      obtain rfl := Option.some.inj hturn
      exact .inr (.inl rfl)
  | generate => exact currentShown_push o _
  | add id _ => exact currentShown_push o id
  | addTo before after ids id _ _ => exact h
  | mark =>
      intro turn hturn
      obtain rfl := Option.some.inj hturn
      exact .inr (.inr rfl)
  | rollback kept dropped _ => exact currentShown_of_none rfl

theorem Steps.currentShown (hsteps : Steps isInput o o') (h : o.CurrentShown) :
    o'.CurrentShown := by
  induction hsteps with
  | refl => exact h
  | tail _ hstep ih => exact hstep.currentShown ih

end Outline

namespace ThreadHistoryBuilder

/-- A turn that will be shown is finished as it stands. -/
theorem finish_of_currentShown {b : ThreadHistoryBuilder} {turn : PendingTurn}
    (h : b.outline.CurrentShown) (hcurrent : b.currentTurn = some turn) :
    b.finish = b.turns ++ [turn.toTurn] := by
  have hshown : turn.outline.Shown := by
    apply h
    simp [outline, hcurrent]
  rw [finish, finishCurrentTurn, hcurrent]
  simp only
  rw [if_neg]
  rintro ⟨hitems, hexplicit, hcompaction⟩
  rcases hshown with hids | hopened | hcompacted
  · exact hids (by simp [PendingTurn.outline, Turn.itemIds, hitems])
  · exact hexplicit hopened
  · exact hcompaction hcompacted

theorem finish_of_none {b : ThreadHistoryBuilder} (hcurrent : b.currentTurn = none) :
    b.finish = b.turns := by
  rw [finish, finishCurrentTurn, hcurrent]

/-- After any inputs, finishing returns exactly the turns up to the active one, of which the last
is the active turn as it stands; without an active turn there are none. -/
theorem finish_of_activeTurnPosition (parsers : Parsers) (inputs : List (Uuids × Input)) :
    (∀ position, (built parsers inputs).activeTurnPosition = some position →
      (built parsers inputs).finish.length = position + 1 ∧
        ∃ turn, (built parsers inputs).finish.getLast? = some turn ∧
          (built parsers inputs).activeTurnSnapshot = some turn) ∧
      ((built parsers inputs).activeTurnPosition = none →
        (built parsers inputs).finish = [] ∧ (built parsers inputs).activeTurnSnapshot = none) := by
  have hshown : (built parsers inputs).outline.CurrentShown :=
    (steps_built parsers inputs fun _ _ _ _ => trivial).currentShown
      (Outline.currentShown_of_none rfl)
  generalize built parsers inputs = b at hshown ⊢
  unfold activeTurnPosition activeTurnSnapshot
  rcases hcurrent : b.currentTurn with _ | turn
  · rw [finish_of_none hcurrent]
    rcases List.eq_nil_or_concat b.turns with hnil | ⟨turns, last, hturns⟩
    · simp [hnil]
    · simp [hturns]
  · rw [finish_of_currentShown hshown hcurrent]
    simp

end ThreadHistoryBuilder

end Codewith.ThreadHistory
