import Mathlib.Tactic

/-!
# Spans

Marked stretches of a sequence, kept as half-open intervals of positions.  Spans are apart or equal
as long as each change takes whole spans: a change is first widened until no span crosses its edge.
-/

namespace Codewith.Lib

@[ext] structure Span where
  start : Nat
  stop : Nat
deriving DecidableEq, Repr

namespace Span

/-- A position strictly between the ends. -/
def Inside (e : Span) (p : Nat) : Prop := e.start < p ∧ p < e.stop

instance (e : Span) (p : Nat) : Decidable (e.Inside p) := inferInstanceAs (Decidable (_ ∧ _))

def Apart (e f : Span) : Prop := e.stop ≤ f.start ∨ f.stop ≤ e.start

instance (e f : Span) : Decidable (e.Apart f) := inferInstanceAs (Decidable (_ ∨ _))

def Within (e f : Span) : Prop := f.start ≤ e.start ∧ e.stop ≤ f.stop

instance (e f : Span) : Decidable (e.Within f) := inferInstanceAs (Decidable (_ ∧ _))

/-- Spans that a cut at one of them leaves whole. -/
def Separate (e f : Span) : Prop := e = f ∨ e.Apart f

instance (e f : Span) : Decidable (e.Separate f) := inferInstanceAs (Decidable (_ ∨ _))

theorem Separate.symm {e f : Span} (h : e.Separate f) : f.Separate e := by
  rcases h with rfl | h
  · exact .inl rfl
  · exact .inr h.symm

theorem Within.trans {e f g : Span} (hef : e.Within f) (hfg : f.Within g) : e.Within g :=
  ⟨hfg.1.trans hef.1, hef.2.trans hfg.2⟩

theorem Separate.not_inside_start {e f : Span} (h : e.Separate f) (he : e.start ≤ e.stop) :
    ¬ f.Inside e.start := by
  rintro ⟨hafter, hbefore⟩
  rcases h with rfl | h | h
  · exact lt_irrefl _ hafter
  · omega
  · omega

theorem Separate.not_inside_stop {e f : Span} (h : e.Separate f) (he : e.start ≤ e.stop) :
    ¬ f.Inside e.stop := by
  rintro ⟨hafter, hbefore⟩
  rcases h with rfl | h | h
  · exact lt_irrefl _ hbefore
  · omega
  · omega

/-! ### Widening -/

def hull (e f : Span) : Span := ⟨min e.start f.start, max e.stop f.stop⟩

/-- A range together with whether it has grown takes in a span that it meets. -/
def absorb (range : Span × Bool) (e : Span) : Span × Bool :=
  if e.start < range.1.stop ∧ range.1.start < e.stop then
    if (hull range.1 e).start ≠ range.1.start ∨ (hull range.1 e).stop ≠ range.1.stop then
      (hull range.1 e, true)
    else range
  else range

/-- Passes over the spans until one of them changes nothing. -/
def widen (spans : List Span) : Nat → Span → Option Span
  | 0, _ => none
  | fuel + 1, range =>
      match spans.foldl absorb (range, false) with
      | (grown, true) => widen spans fuel grown
      | (same, false) => some same

theorem within_absorb (range : Span × Bool) (e : Span) : range.1.Within (absorb range e).1 := by
  rw [absorb]
  split_ifs
  · exact ⟨min_le_left _ _, le_max_left _ _⟩
  · exact ⟨le_rfl, le_rfl⟩
  · exact ⟨le_rfl, le_rfl⟩

theorem within_foldl_absorb (spans : List Span) (range : Span × Bool) :
    range.1.Within (spans.foldl absorb range).1 := by
  induction spans generalizing range with
  | nil => exact ⟨le_rfl, le_rfl⟩
  | cons e spans ih => exact (within_absorb range e).trans (ih _)

/-- A pass that changes nothing met only spans within the range. -/
theorem foldl_absorb_eq_false {spans : List Span} {range : Span × Bool} {same : Span}
    (h : spans.foldl absorb range = (same, false)) :
    range = (same, false) ∧ ∀ e ∈ spans, e.Apart same ∨ e.Within same := by
  induction spans generalizing range with
  | nil => exact ⟨h, fun e he => absurd he (List.not_mem_nil)⟩
  | cons e spans ih =>
      obtain ⟨hstep, hrest⟩ := ih h
      rw [absorb] at hstep
      split_ifs at hstep with hmeets hgrown
      · cases hstep
      · subst hstep
        refine ⟨rfl, List.forall_mem_cons.mpr ⟨.inr ?_, hrest⟩⟩
        rw [not_or, not_not, not_not] at hgrown
        exact ⟨hgrown.1 ▸ min_le_right _ _, hgrown.2 ▸ le_max_right _ _⟩
      · subst hstep
        refine ⟨rfl, List.forall_mem_cons.mpr ⟨.inl ?_, hrest⟩⟩
        rw [not_and_or, not_lt, not_lt] at hmeets
        exact hmeets.symm

section Widened

variable {spans : List Span} {fuel : Nat} {range wide : Span}

/-- No span crosses an edge of the widened range. -/
theorem widen_spec (h : widen spans fuel range = some wide) :
    range.Within wide ∧ ∀ e ∈ spans, e.Apart wide ∨ e.Within wide := by
  induction fuel generalizing range with
  | zero => cases h
  | succ fuel ih =>
      rw [widen] at h
      have hpass := within_foldl_absorb spans (range, false)
      split at h
      · rename_i grown hfold
        rw [hfold] at hpass
        obtain ⟨hwithin, hcrossed⟩ := ih h
        exact ⟨hpass.trans hwithin, hcrossed⟩
      · rename_i same hfold
        obtain ⟨hsame, hcrossed⟩ := foldl_absorb_eq_false hfold
        rw [Option.some.inj h] at hfold hcrossed
        rw [hfold] at hpass
        exact ⟨hpass, hcrossed⟩

/-- What the range has grown to meets it, even where its ends are the wrong way round. -/
theorem meets_foldl_absorb {origin : Span} (acc : Span × Bool)
    (h : acc.1 = origin ∨ (acc.1.start < origin.stop ∧ origin.start < acc.1.stop)) :
    (spans.foldl absorb acc).1 = origin ∨ ((spans.foldl absorb acc).1.start < origin.stop ∧
      origin.start < (spans.foldl absorb acc).1.stop) := by
  induction spans generalizing acc with
  | nil => exact h
  | cons e spans ih =>
      apply ih (absorb acc e)
      rw [absorb]
      split_ifs with hmeets
      · right
        rcases h with h | h
        · rw [h] at hmeets ⊢
          exact ⟨min_lt_of_right_lt hmeets.1, lt_max_of_lt_right hmeets.2⟩
        · exact ⟨min_lt_of_left_lt h.1, lt_max_of_lt_left h.2⟩
      · exact h
      · exact h

theorem meets_widen {origin : Span}
    (horigin : range = origin ∨ (range.start < origin.stop ∧ origin.start < range.stop))
    (h : widen spans fuel range = some wide) :
    wide = origin ∨ (wide.start < origin.stop ∧ origin.start < wide.stop) := by
  induction fuel generalizing range with
  | zero => cases h
  | succ fuel ih =>
      rw [widen] at h
      have hpass := @meets_foldl_absorb spans origin (range, false) horigin
      split at h
      · rename_i grown hfold
        rw [hfold] at hpass
        exact ih hpass h
      · rename_i same hfold
        rw [hfold] at hpass
        rw [← Option.some.inj h]
        exact hpass

end Widened

end Span

end Codewith.Lib
