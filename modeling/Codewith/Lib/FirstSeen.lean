import Mathlib.Data.List.Destutter
import Mathlib.Data.List.Sort

/-!
# Visiting each element once, in the order of a key

A list with repetitions is visited in order and each element counts only the
first time it is seen.  When the visits are ordered by a key, and two elements
with the same key give the same output unless one of them gives none, the outputs
do not depend on the order in which the list was put together.
-/

namespace Codewith.Lib

variable {α β κ : Type*} [DecidableEq α]

/-- The elements seen for the first time, when some have been seen before. -/
def firstSeen (seen : List α) : List α → List α
  | [] => []
  | a :: l => if a ∈ seen then firstSeen seen l else a :: firstSeen (a :: seen) l

theorem mem_firstSeen {l : List α} {seen : List α} {a : α} :
    a ∈ firstSeen seen l ↔ a ∈ l ∧ a ∉ seen := by
  induction l generalizing seen with
  | nil => simp [firstSeen]
  | cons b l ih =>
      by_cases hb : b ∈ seen
      · rw [firstSeen, if_pos hb, ih, List.mem_cons]
        constructor
        · rintro ⟨ha, hseen⟩
          exact ⟨Or.inr ha, hseen⟩
        · rintro ⟨rfl | ha, hseen⟩
          · exact absurd hb hseen
          · exact ⟨ha, hseen⟩
      · rw [firstSeen, if_neg hb, List.mem_cons, ih, List.mem_cons, List.mem_cons, not_or]
        constructor
        · rintro (rfl | ⟨ha, -, hseen⟩)
          · exact ⟨Or.inl rfl, hb⟩
          · exact ⟨Or.inr ha, hseen⟩
        · rintro ⟨rfl | ha, hseen⟩
          · exact Or.inl rfl
          · by_cases hab : a = b
            · exact Or.inl hab
            · exact Or.inr ⟨ha, hab, hseen⟩

theorem nodup_firstSeen (seen l : List α) : (firstSeen seen l).Nodup := by
  induction l generalizing seen with
  | nil => exact List.nodup_nil
  | cons a l ih =>
      rw [firstSeen]
      split
      · exact ih seen
      · refine List.nodup_cons.2 ⟨fun ha => ?_, ih (a :: seen)⟩
        exact (mem_firstSeen.1 ha).2 List.mem_cons_self

theorem firstSeen_sublist (seen l : List α) : (firstSeen seen l).Sublist l := by
  induction l generalizing seen with
  | nil => exact List.Sublist.refl []
  | cons a l ih =>
      rw [firstSeen]
      split
      · exact (ih seen).cons a
      · exact (ih (a :: seen)).cons_cons a

theorem firstSeen_perm {l l' : List α} (h : ∀ a, a ∈ l ↔ a ∈ l') (seen : List α) :
    (firstSeen seen l).Perm (firstSeen seen l') := by
  refine (List.perm_ext_iff_of_nodup (nodup_firstSeen seen l) (nodup_firstSeen seen l')).2 ?_
  intro a
  rw [mem_firstSeen, mem_firstSeen, h]

theorem mem_destutter'_ne {l : List α} {a b : α} :
    a ∈ l.destutter' (· ≠ ·) b ↔ a = b ∨ a ∈ l := by
  induction l generalizing b with
  | nil => simp
  | cons c l ih =>
      by_cases hbc : b = c
      · subst hbc
        rw [List.destutter'_cons_neg _ (not_not.2 rfl), ih, List.mem_cons, or_self_left]
      · rw [List.destutter'_cons_pos _ hbc, List.mem_cons, ih, List.mem_cons]

/-- Dropping equal neighbours loses no element. -/
theorem mem_destutter_ne {l : List α} {a : α} : a ∈ l.destutter (· ≠ ·) ↔ a ∈ l := by
  cases l with
  | nil => rfl
  | cons b l => rw [List.destutter_cons', mem_destutter'_ne, List.mem_cons]

/-- Skipping elements without output changes no output. -/
theorem filterMap_firstSeen_of_skipped {f : α → Option β} {l : List α} {seen seen' : List α}
    (hsub : ∀ a ∈ seen', a ∈ seen) (hskip : ∀ a ∈ seen, a ∈ seen' ∨ f a = none) :
    (firstSeen seen l).filterMap f = (firstSeen seen' l).filterMap f := by
  induction l generalizing seen seen' with
  | nil => rfl
  | cons a l ih =>
      rw [firstSeen, firstSeen]
      by_cases ha : a ∈ seen
      · rw [if_pos ha]
        by_cases ha' : a ∈ seen'
        · rw [if_pos ha']
          exact ih hsub hskip
        · rw [if_neg ha', List.filterMap_cons_none ((hskip a ha).resolve_left ha')]
          refine ih (fun b hb => ?_) fun b hb => (hskip b hb).imp_left (List.mem_cons_of_mem a)
          rcases List.mem_cons.1 hb with rfl | hb
          · exact ha
          · exact hsub b hb
      · have hrest : (firstSeen (a :: seen) l).filterMap f =
            (firstSeen (a :: seen') l).filterMap f := by
          apply ih
          · intro b hb
            rcases List.mem_cons.1 hb with rfl | hb
            · exact List.mem_cons_self
            · exact List.mem_cons_of_mem a (hsub b hb)
          · intro b hb
            rcases List.mem_cons.1 hb with rfl | hb
            · exact Or.inl List.mem_cons_self
            · exact (hskip b hb).imp_left (List.mem_cons_of_mem a)
        rw [if_neg ha, if_neg fun h => ha (hsub a h), List.filterMap_cons, List.filterMap_cons,
          hrest]

omit [DecidableEq α]

/-- An output together with the key of its element. -/
def keyed (key : α → κ) (f : α → Option β) (a : α) : Option (κ × β) :=
  (f a).map fun b => (key a, b)

theorem map_filterMap_keyed (key : α → κ) (f : α → Option β) (l : List α) :
    (l.filterMap (keyed key f)).map Prod.snd = l.filterMap f := by
  rw [List.map_filterMap]
  congr 1
  funext a
  rw [keyed, Option.map_map]
  exact Option.map_id'

variable [LinearOrder κ] {key : α → κ}

variable (key) in
theorem pairwise_mergeSort_key (l : List α) :
    (l.mergeSort fun a b => decide (key a ≤ key b)).Pairwise fun a b => key a ≤ key b := by
  have hsorted : (l.mergeSort fun a b => decide (key a ≤ key b)).Pairwise
      fun a b => decide (key a ≤ key b) = true := by
    apply List.pairwise_mergeSort
    · intro a b c hab hbc
      rw [decide_eq_true_eq] at hab hbc ⊢
      exact hab.trans hbc
    · intro a b
      rw [Bool.or_eq_true, decide_eq_true_eq, decide_eq_true_eq]
      exact le_total _ _
  simpa only [decide_eq_true_eq] using hsorted

theorem pairwise_filterMap_keyed {f : α → Option β} {l : List α}
    (h : l.Pairwise fun a b => key a ≤ key b) :
    (l.filterMap (keyed key f)).Pairwise fun x y => x.1 ≤ y.1 := by
  refine h.filterMap (keyed key f) ?_
  intro a b hab x hx y hy
  obtain ⟨-, -, rfl⟩ := Option.map_eq_some_iff.1 hx
  obtain ⟨-, -, rfl⟩ := Option.map_eq_some_iff.1 hy
  exact hab

/-- Two orderings of the same elements by a key give the same outputs in the same order. -/
theorem filterMap_eq_of_perm {f : α → Option β} {l l' : List α} (hperm : l.Perm l')
    (hl : l.Pairwise fun a b => key a ≤ key b) (hl' : l'.Pairwise fun a b => key a ≤ key b)
    (hsame : ∀ a ∈ l, ∀ b ∈ l, key a = key b → ∀ x y, f a = some x → f b = some y → x = y) :
    l.filterMap f = l'.filterMap f := by
  rw [← map_filterMap_keyed key f l, ← map_filterMap_keyed key f l']
  congr 1
  refine List.Perm.eq_of_pairwise ?_ (pairwise_filterMap_keyed hl) (pairwise_filterMap_keyed hl')
    (hperm.filterMap (keyed key f))
  intro x y hx hy hxy hyx
  obtain ⟨a, ha, hax⟩ := List.mem_filterMap.1 hx
  obtain ⟨b, hb, hby⟩ := List.mem_filterMap.1 hy
  obtain ⟨x, hfa, rfl⟩ := Option.map_eq_some_iff.1 hax
  obtain ⟨y, hfb, rfl⟩ := Option.map_eq_some_iff.1 hby
  have hkey : key a = key b := le_antisymm hxy hyx
  rw [hkey, hsame a ha b (hperm.mem_iff.2 hb) hkey x y hfa hfb]

end Codewith.Lib
