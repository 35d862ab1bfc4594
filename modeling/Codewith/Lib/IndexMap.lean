import Mathlib.Data.List.Induction
import Mathlib.Data.List.Nodup

/-!
# Maps in insertion order

A map as the list of its entries in the order their keys were first inserted.  Inserting under a key
that is there replaces the value in place.
-/

namespace Codewith.Lib.IndexMap

variable {K V : Type} [DecidableEq K]

def get? (m : List (K × V)) (k : K) : Option V := (m.find? fun entry => entry.1 = k).map Prod.snd

def insert : List (K × V) → K → V → List (K × V)
  | [], k, v => [(k, v)]
  | entry :: m, k, v => if entry.1 = k then (k, v) :: m else entry :: insert m k v

def remove (m : List (K × V)) (k : K) : List (K × V) := m.filter fun entry => entry.1 ≠ k

variable {m : List (K × V)} {k k' : K} {v : V}

@[simp] theorem get?_nil : get? ([] : List (K × V)) k = none := rfl

theorem get?_cons {entry : K × V} :
    get? (entry :: m) k = if entry.1 = k then some entry.2 else get? m k := by
  rw [get?, List.find?_cons]
  by_cases hkey : entry.1 = k <;> simp [hkey, get?]

theorem mem_of_get? (h : get? m k = some v) : (k, v) ∈ m := by
  induction m with
  | nil => cases h
  | cons entry m ih =>
      rw [get?_cons] at h
      by_cases hkey : entry.1 = k
      · rw [if_pos hkey, Option.some.injEq] at h
        exact List.mem_cons.mpr (.inl (Prod.ext hkey.symm h.symm))
      · rw [if_neg hkey] at h
        exact List.mem_cons_of_mem entry (ih h)

theorem get?_eq_none_iff : get? m k = none ↔ ∀ entry ∈ m, entry.1 ≠ k := by
  simp [get?]

theorem get?_insert : get? (insert m k v) k' = if k = k' then some v else get? m k' := by
  induction m with
  | nil => simp [insert, get?_cons]
  | cons entry m ih =>
      rw [insert]
      by_cases hentry : entry.1 = k
      · rw [if_pos hentry, get?_cons, get?_cons, hentry]
        by_cases hk : k = k' <;> simp [hk]
      · rw [if_neg hentry, get?_cons, get?_cons, ih]
        by_cases hk : k = k'
        · have hne : entry.1 ≠ k' := fun h => hentry (h.trans hk.symm)
          simp [hk, hne]
        · simp [hk]

@[simp] theorem get?_insert_self : get? (insert m k v) k = some v := by
  rw [get?_insert, if_pos rfl]

theorem mem_insert {entry : K × V} (h : entry ∈ insert m k v) : entry = (k, v) ∨ entry ∈ m := by
  induction m with
  | nil => exact .inl (List.mem_singleton.mp h)
  | cons first m ih =>
      rw [insert] at h
      by_cases hfirst : first.1 = k
      · rw [if_pos hfirst] at h
        rcases List.mem_cons.mp h with rfl | htail
        · exact .inl rfl
        · exact .inr (List.mem_cons_of_mem first htail)
      · rw [if_neg hfirst] at h
        rcases List.mem_cons.mp h with rfl | htail
        · exact .inr List.mem_cons_self
        · rcases ih htail with hnew | hold
          · exact .inl hnew
          · exact .inr (List.mem_cons_of_mem first hold)

theorem nodup_keys_insert (h : (m.map Prod.fst).Nodup) : ((insert m k v).map Prod.fst).Nodup := by
  induction m with
  | nil => simp [insert]
  | cons first m ih =>
      rw [List.map_cons, List.nodup_cons] at h
      rw [insert]
      by_cases hfirst : first.1 = k
      · rw [if_pos hfirst, List.map_cons, List.nodup_cons, ← hfirst]
        exact h
      · rw [if_neg hfirst, List.map_cons, List.nodup_cons]
        refine ⟨?_, ih h.2⟩
        intro hmem
        obtain ⟨entry, hentry, hkey⟩ := List.mem_map.mp hmem
        rcases mem_insert hentry with rfl | hold
        · exact hfirst hkey.symm
        · exact h.1 (hkey ▸ List.mem_map_of_mem hold)

theorem mem_remove {entry : K × V} (h : entry ∈ remove m k) : entry ∈ m := List.mem_of_mem_filter h

theorem nodup_keys_remove (h : (m.map Prod.fst).Nodup) : ((remove m k).map Prod.fst).Nodup :=
  h.sublist (List.filter_sublist.map Prod.fst)

/-! ### Entries inserted one after another -/

section Fold

variable {A : Type} {key : A → K} {value : A → V} {xs : List A}

/-- The last entry inserted under a key is the one that is found. -/
theorem get?_foldl_insert :
    get? (xs.foldl (fun m x => insert m (key x) (value x)) m) k =
      ((xs.reverse.find? fun x => key x = k).map value).or (get? m k) := by
  induction xs using List.reverseRecOn with
  | nil => rfl
  | append_singleton xs x ih =>
      rw [List.foldl_append, List.foldl_cons, List.foldl_nil, get?_insert, ih, List.reverse_append,
        List.reverse_singleton, List.singleton_append, List.find?_cons]
      by_cases hkey : key x = k <;> simp [hkey]

theorem mem_foldl_insert {entry : K × V}
    (h : entry ∈ xs.foldl (fun m x => insert m (key x) (value x)) m) :
    (∃ x ∈ xs, entry = (key x, value x)) ∨ entry ∈ m := by
  induction xs using List.reverseRecOn with
  | nil => exact .inr h
  | append_singleton xs x ih =>
      rw [List.foldl_append, List.foldl_cons, List.foldl_nil] at h
      rcases mem_insert h with hnew | hold
      · exact .inl ⟨x, by simp, hnew⟩
      · rcases ih hold with ⟨y, hy, rfl⟩ | hm
        · exact .inl ⟨y, List.mem_append_left [x] hy, rfl⟩
        · exact .inr hm

theorem nodup_keys_foldl_insert (h : (m.map Prod.fst).Nodup) :
    ((xs.foldl (fun m x => insert m (key x) (value x)) m).map Prod.fst).Nodup := by
  induction xs generalizing m with
  | nil => exact h
  | cons x xs ih =>
      rw [List.foldl_cons]
      exact ih (nodup_keys_insert h)

end Fold

end Codewith.Lib.IndexMap
