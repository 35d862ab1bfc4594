import Mathlib.Data.Fintype.Card
import Mathlib.Logic.Relation
import Mathlib.Order.WellFounded

/-!
# Relations without cycles

A relation on a finite set has no cycle exactly when peeling off elements without predecessors
exhausts the set.  An element that can be peeled is accessible, and a set that cannot be peeled any
further contains a cycle.
-/

namespace Codewith.Lib

variable {A : Type} {r : A → A → Prop}

/-- No element reaches itself. -/
def Acyclic (r : A → A → Prop) : Prop := ∀ a, ¬Relation.TransGen r a a

theorem not_transGen_of_acc {a : A} (h : Acc r a) : ¬Relation.TransGen r a a := by
  have hacc := h.transGen
  clear h
  induction hacc with
  | intro a _ ih =>
      intro hcycle
      exact ih a hcycle hcycle

/-- A relation all of whose targets are accessible has no cycle. -/
theorem Acyclic.of_acc (h : ∀ a b, r a b → Acc r b) : Acyclic r := by
  intro a hcycle
  obtain ⟨b, _, hlast⟩ := Relation.TransGen.tail'_iff.mp hcycle
  exact not_transGen_of_acc (h b a hlast) hcycle

/-- In a nonempty finite set some element has no predecessor in the set. -/
theorem Acyclic.exists_source (h : Acyclic r) {s : Set A} (hfinite : s.Finite)
    (hnonempty : s.Nonempty) : ∃ a ∈ s, ∀ b ∈ s, ¬r b a := by
  have := hfinite.to_subtype
  let below : s → s → Prop := fun b a => Relation.TransGen r b.1 a.1
  have : IsTrans s below := ⟨fun _ _ _ hab hbc => hab.trans hbc⟩
  have : Std.Irrefl below := ⟨fun a => h a.1⟩
  have hwf : WellFounded below := Finite.wellFounded_of_trans_of_irrefl below
  obtain ⟨a, ha⟩ := hnonempty
  obtain ⟨m, _, hmin⟩ := hwf.has_min Set.univ ⟨⟨a, ha⟩, trivial⟩
  refine ⟨m.1, m.2, ?_⟩
  intro b hb hbm
  exact hmin ⟨b, hb⟩ trivial (Relation.TransGen.single hbm)

/-- A finite set in which every element has a predecessor is empty. -/
theorem Acyclic.eq_empty (h : Acyclic r) {s : Set A} (hfinite : s.Finite)
    (hpred : ∀ a ∈ s, ∃ b ∈ s, r b a) : s = ∅ := by
  by_contra hne
  obtain ⟨a, ha, hnone⟩ := h.exists_source hfinite (Set.nonempty_iff_ne_empty.mpr hne)
  obtain ⟨b, hb, hba⟩ := hpred a ha
  exact hnone b hb hba

end Codewith.Lib
