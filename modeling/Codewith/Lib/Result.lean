import Mathlib.Tactic

/-!
# Checks that return

What a chain of checks has established when it ends without an error.
-/

namespace Codewith.Lib.Result

variable {E A B : Type}

theorem bind_eq_ok {x : Except E A} {f : A → Except E B} {b : B} :
    (x >>= f) = .ok b ↔ ∃ a, x = .ok a ∧ f a = .ok b := by
  cases x with
  | error e => simp [bind, Except.bind]
  | ok a => simp [bind, Except.bind]

theorem pure_eq_ok {a b : A} : (pure a : Except E A) = .ok b ↔ a = b := by
  simp [pure, Except.pure]

/-- A check that throws when its condition is met, and what comes after it. -/
theorem unless_eq_ok {c : Prop} [Decidable c] {e : E} {f : B → Except E A} {x : Except E A}
    {a : A} :
    (if c then (throw e : Except E B) >>= f else x) = .ok a ↔ ¬c ∧ x = .ok a := by
  by_cases hc : c <;> simp [hc, throw, throwThe, MonadExceptOf.throw, bind, Except.bind]

theorem forM_eq_ok {f : A → Except E Unit} {xs : List A} {u : Unit} :
    xs.forM f = .ok u ↔ ∀ x ∈ xs, f x = .ok () := by
  induction xs with
  | nil => simp [pure, Except.pure]
  | cons x xs ih =>
      rw [List.forM, bind_eq_ok, List.forall_mem_cons, ← ih]
      constructor
      · rintro ⟨⟨⟩, hx, hxs⟩
        exact ⟨hx, hxs⟩
      · rintro ⟨hx, hxs⟩
        exact ⟨⟨⟩, hx, hxs⟩

/-- A loop that collects a name of every entry, refuses a name it has seen, and
checks each entry. -/
theorem foldlM_collect {f : List B → A → Except E (List B)} {g : A → B} {Q : A → Prop}
    (hf : ∀ seen x seen', f seen x = .ok seen' → seen' = seen ++ [g x] ∧ g x ∉ seen ∧ Q x)
    {xs : List A} {seen seen' : List B} (h : xs.foldlM f seen = .ok seen') (hseen : seen.Nodup) :
    seen' = seen ++ xs.map g ∧ seen'.Nodup ∧ ∀ x ∈ xs, Q x := by
  induction xs generalizing seen with
  | nil =>
      rw [List.foldlM_nil, pure_eq_ok] at h
      subst h
      simpa using hseen
  | cons x xs ih =>
      rw [List.foldlM_cons, bind_eq_ok] at h
      obtain ⟨mid, hfirst, hrest⟩ := h
      obtain ⟨rfl, hnew, hQ⟩ := hf seen x mid hfirst
      have hmid : (seen ++ [g x]).Nodup := by
        rw [List.nodup_append]
        refine ⟨hseen, List.nodup_singleton _, ?_⟩
        rintro a ha b hb rfl
        exact hnew (List.mem_singleton.1 hb ▸ ha)
      obtain ⟨hlast, hnodup, hall⟩ := ih hrest hmid
      refine ⟨?_, hnodup, ?_⟩
      · rw [hlast, List.map_cons, List.append_assoc, List.singleton_append]
      · rw [List.forall_mem_cons]
        exact ⟨hQ, hall⟩

/-! ### A partial function on a list -/

/-- The results and what is computed otherwise, compared by what they are mapped to. -/
theorem map_mapM_eq_map_iff {α β γ : Type} {f : α → Option β} {g : α → γ} {k : β → γ} {l : List α}
    {r : List β} (h : l.mapM f = some r) :
    r.map k = l.map g ↔ ∀ x ∈ l, (f x).map k = some (g x) := by
  induction l generalizing r with
  | nil =>
      simp only [List.mapM_nil, Option.pure_def, Option.some.injEq] at h
      simp [← h]
  | cons x l ih =>
      simp only [List.mapM_cons, Option.pure_def, Option.bind_eq_bind,
        Option.bind_eq_some_iff, Option.some.injEq] at h
      obtain ⟨y, hy, rest, hrest, rfl⟩ := h
      simp [ih hrest, hy]

theorem exists_of_mapM {α β : Type} {f : α → Option β} {l : List α} {r : List β}
    (h : l.mapM f = some r) {x : α} (hx : x ∈ l) : ∃ y ∈ r, f x = some y := by
  induction l generalizing r with
  | nil => simp at hx
  | cons z l ih =>
      simp only [List.mapM_cons, Option.pure_def, Option.bind_eq_bind,
        Option.bind_eq_some_iff, Option.some.injEq] at h
      obtain ⟨y, hy, rest, hrest, rfl⟩ := h
      rcases List.mem_cons.mp hx with rfl | hx
      · exact ⟨y, List.mem_cons_self .., hy⟩
      · obtain ⟨y', hmem, hy'⟩ := ih hrest hx
        exact ⟨y', List.mem_cons_of_mem _ hmem, hy'⟩

theorem exists_of_mem_mapM {α β : Type} {f : α → Option β} {l : List α} {r : List β}
    (h : l.mapM f = some r) {y : β} (hy : y ∈ r) : ∃ x ∈ l, f x = some y := by
  induction l generalizing r with
  | nil =>
      simp only [List.mapM_nil, Option.pure_def, Option.some.injEq] at h
      simp [← h] at hy
  | cons z l ih =>
      simp only [List.mapM_cons, Option.pure_def, Option.bind_eq_bind,
        Option.bind_eq_some_iff, Option.some.injEq] at h
      obtain ⟨y', hy', rest, hrest, rfl⟩ := h
      rcases List.mem_cons.mp hy with rfl | hy
      · exact ⟨z, List.mem_cons_self .., hy'⟩
      · obtain ⟨x, hx, hfx⟩ := ih hrest hy
        exact ⟨x, List.mem_cons_of_mem _ hx, hfx⟩

end Codewith.Lib.Result
