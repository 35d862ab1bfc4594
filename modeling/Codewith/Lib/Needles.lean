import Mathlib.Tactic

/-!
# Searching a text that arrives in pieces

Where a needle occurs in a text, and how much of the end of a text has to be held back because
a needle may have begun there.

What is not held back takes part in no later occurrence (`not_occursAt_append`), and dropping it
does not change what is held back of any longer text (`longestSuffixPrefixLen_drop`).
-/

namespace Codewith.Lib

variable {α : Type} {needle text rest : List α} {i j k : Nat}

/-! ## Occurrences -/

/-- The needle stands in the text at position `i`. -/
def OccursAt (needle text : List α) (i : Nat) : Prop := needle <+: text.drop i

theorem OccursAt.add_length_le (h : OccursAt needle text i) (hne : needle ≠ []) :
    i + needle.length ≤ text.length := by
  have hlength := List.IsPrefix.length_le h
  have hpos : 0 < needle.length := List.length_pos_iff.mpr hne
  rw [List.length_drop] at hlength
  omega

theorem OccursAt.append (h : OccursAt needle text i) (hi : i ≤ text.length) (rest : List α) :
    OccursAt needle (text ++ rest) i := by
  unfold OccursAt at h ⊢
  rw [List.drop_append_of_le_length hi]
  exact h.trans (List.prefix_append _ _)

/-- An occurrence that ends within the first part stands there. -/
theorem OccursAt.of_append (h : OccursAt needle (text ++ rest) i)
    (hend : i + needle.length ≤ text.length) : OccursAt needle text i := by
  unfold OccursAt at h ⊢
  rw [List.drop_append_of_le_length (by omega)] at h
  exact List.prefix_of_prefix_length_le h (List.prefix_append _ _) (by rw [List.length_drop]; omega)

theorem occursAt_append_add : OccursAt needle (text ++ rest) (text.length + i) ↔
    OccursAt needle rest i := by
  unfold OccursAt
  rw [List.drop_append, List.drop_eq_nil_of_le (by omega)]
  simp

/-- The occurrence of one needle lies within that of another, before its last element. -/
theorem OccursAt.infix_dropLast {other : List α} (h : OccursAt needle text i)
    (hother : OccursAt other text j) (hji : j ≤ i) (hend : i + needle.length < j + other.length) :
    needle <:+: other.dropLast := by
  obtain ⟨after, hafter⟩ := hother
  have hdrop : text.drop i = other.drop (i - j) ++ after := by
    have : text.drop i = (text.drop j).drop (i - j) := by
      rw [List.drop_drop]
      congr 1
      omega
    rw [this, ← hafter, List.drop_append_of_le_length (by omega)]
  have hprefix : needle <+: other.dropLast.drop (i - j) := by
    unfold OccursAt at h
    rw [hdrop] at h
    have hlast : other.dropLast.drop (i - j) <+: other.drop (i - j) := by
      rw [List.dropLast_eq_take, List.drop_take]
      exact List.take_prefix _ _
    refine List.prefix_of_prefix_length_le h (hlast.trans (List.prefix_append _ _)) ?_
    rw [List.length_drop, List.length_dropLast]
    omega
  exact hprefix.isInfix.trans (List.drop_suffix _ _).isInfix

/-! ## The first occurrence -/

variable [DecidableEq α]

def find? (needle : List α) : List α → Option Nat
  | [] => if needle = [] then some 0 else none
  | a :: text => if needle <+: a :: text then some 0 else (find? needle text).map (· + 1)

theorem find?_eq_some_iff :
    find? needle text = some i ↔
      i ≤ text.length ∧ OccursAt needle text i ∧ ∀ j < i, ¬OccursAt needle text j := by
  induction text generalizing i with
  | nil =>
      simp only [find?, List.length_nil, Nat.le_zero]
      split_ifs with hne
      · constructor
        · intro h
          obtain rfl := Option.some_inj.mp h
          simp [OccursAt, hne]
        · rintro ⟨rfl, -, -⟩
          rfl
      · simp only [false_iff, not_and]
        rintro rfl hocc
        exact absurd (List.prefix_nil.mp hocc) hne
  | cons a text ih =>
      simp only [find?]
      split_ifs with hhere
      · constructor
        · intro h
          obtain rfl := Option.some_inj.mp h
          exact ⟨Nat.zero_le _, hhere, fun j hj => absurd hj (Nat.not_lt_zero j)⟩
        · rintro ⟨-, -, hfirst⟩
          rcases Nat.eq_zero_or_pos i with rfl | hpos
          · rfl
          · exact absurd hhere (hfirst 0 hpos)
      · rw [Option.map_eq_some_iff]
        constructor
        · rintro ⟨i, hi, rfl⟩
          obtain ⟨hle, hocc, hfirst⟩ := ih.mp hi
          refine ⟨by simpa using hle, hocc, ?_⟩
          rintro (_ | j) hj
          · exact hhere
          · exact hfirst j (by omega)
        · rintro ⟨hle, hocc, hfirst⟩
          rcases i with _ | i
          · exact absurd hocc hhere
          · refine ⟨i, ih.mpr ⟨by simpa using hle, hocc, fun j hj => ?_⟩, rfl⟩
            exact hfirst (j + 1) (by omega)

theorem find?_eq_none_iff (hne : needle ≠ []) :
    find? needle text = none ↔ ∀ i, ¬OccursAt needle text i := by
  constructor
  · intro h i hocc
    classical
    have hex : ∃ i, OccursAt needle text i := ⟨i, hocc⟩
    have hfirst := Nat.find_spec hex
    have hle := hfirst.add_length_le hne
    have hsome : find? needle text = some (Nat.find hex) :=
      find?_eq_some_iff.mpr ⟨by omega, hfirst, fun j hj => Nat.find_min hex hj⟩
    rw [h] at hsome
    cases hsome
  · intro h
    cases hfind : find? needle text with
    | none => rfl
    | some i => exact absurd (find?_eq_some_iff.mp hfind).2.1 (h i)

/-- Where nothing begins in the first part, the search goes on in the second. -/
theorem find?_append_of_forall (h : ∀ i < text.length, ¬OccursAt needle (text ++ rest) i) :
    find? needle (text ++ rest) = (find? needle rest).map (text.length + ·) := by
  induction text with
  | nil => simp
  | cons a text ih =>
      have hhere : ¬needle <+: a :: (text ++ rest) := h 0 (by simp)
      rw [List.cons_append, find?, if_neg hhere, ih fun i hi => h (i + 1) (by simpa using hi),
        Option.map_map]
      congr 1
      funext i
      simp only [Function.comp_apply, List.length_cons]
      omega

/-! ## What is held back -/

/-- The longest proper beginning of the needle, of length `k` at most, that ends the text. -/
def suffixPrefixUpTo (text needle : List α) : Nat → Nat
  | 0 => 0
  | k + 1 => if needle.take (k + 1) <:+ text then k + 1 else suffixPrefixUpTo text needle k

def longestSuffixPrefixLen (text needle : List α) : Nat :=
  suffixPrefixUpTo text needle (min text.length (needle.length - 1))

theorem suffixPrefixUpTo_le (text needle : List α) (k : Nat) :
    suffixPrefixUpTo text needle k ≤ k := by
  induction k with
  | zero => exact Nat.le_refl 0
  | succ k ih =>
      rw [suffixPrefixUpTo]
      split_ifs
      · exact Nat.le_refl _
      · omega

theorem suffixPrefixUpTo_suffix (text needle : List α) (k : Nat) :
    needle.take (suffixPrefixUpTo text needle k) <:+ text := by
  induction k with
  | zero => simp [suffixPrefixUpTo]
  | succ k ih =>
      rw [suffixPrefixUpTo]
      split_ifs with h
      · exact h
      · exact ih

theorem le_suffixPrefixUpTo (hj : j ≤ k) (h : needle.take j <:+ text) :
    j ≤ suffixPrefixUpTo text needle k := by
  induction k with
  | zero => omega
  | succ k ih =>
      rw [suffixPrefixUpTo]
      split_ifs with hk
      · exact hj
      · refine ih (Nat.le_of_lt_succ (Nat.lt_of_le_of_ne hj ?_))
        rintro rfl
        exact hk h

theorem longestSuffixPrefixLen_le (text needle : List α) :
    longestSuffixPrefixLen text needle ≤ text.length :=
  (suffixPrefixUpTo_le text needle _).trans (Nat.min_le_left _ _)

theorem longestSuffixPrefixLen_suffix (text needle : List α) :
    needle.take (longestSuffixPrefixLen text needle) <:+ text :=
  suffixPrefixUpTo_suffix text needle _

theorem le_longestSuffixPrefixLen (hj : j < needle.length) (h : needle.take j <:+ text) :
    j ≤ longestSuffixPrefixLen text needle := by
  have hlength := h.length_le
  rw [List.length_take] at hlength
  exact le_suffixPrefixUpTo (Nat.le_min.mpr ⟨by omega, by omega⟩) h

theorem longestSuffixPrefixLen_lt (hne : needle ≠ []) (text : List α) :
    longestSuffixPrefixLen text needle < needle.length := by
  have hpos : 0 < needle.length := List.length_pos_iff.mpr hne
  have hle := (suffixPrefixUpTo_le text needle (min text.length (needle.length - 1))).trans
    (Nat.min_le_right _ _)
  unfold longestSuffixPrefixLen
  omega

/-- The end of a text that begins a needle is held back. -/
theorem length_sub_le_longestSuffixPrefixLen (h : text.drop i <+: needle)
    (hlt : text.length - i < needle.length) :
    text.length - i ≤ longestSuffixPrefixLen text needle := by
  refine le_longestSuffixPrefixLen hlt ?_
  have htake := List.prefix_iff_eq_take.mp h
  rw [List.length_drop] at htake
  rw [← htake]
  exact List.drop_suffix i text

/-- No occurrence begins before what is held back. -/
theorem not_occursAt_append (hnone : ∀ i, ¬OccursAt needle text i)
    (hk : longestSuffixPrefixLen text needle ≤ k) (hi : i < text.length - k) :
    ¬OccursAt needle (text ++ rest) i := by
  intro h
  by_cases hend : i + needle.length ≤ text.length
  · exact hnone i (h.of_append hend)
  · have hbegun : text.drop i <+: needle := by
      unfold OccursAt at h
      rw [List.drop_append_of_le_length (by omega)] at h
      refine List.prefix_of_prefix_length_le (List.prefix_append _ _) h ?_
      rw [List.length_drop]
      omega
    have hheld := length_sub_le_longestSuffixPrefixLen hbegun (by omega)
    omega

/-- What is held back of a longer text does not depend on what was not held back. -/
theorem longestSuffixPrefixLen_drop (hne : needle ≠ [])
    (hk : longestSuffixPrefixLen text needle ≤ k) (hlength : k ≤ text.length) :
    longestSuffixPrefixLen (text.drop (text.length - k) ++ rest) needle =
      longestSuffixPrefixLen (text ++ rest) needle := by
  have hsuffix : text.drop (text.length - k) ++ rest <:+ text ++ rest := by
    refine ⟨text.take (text.length - k), ?_⟩
    rw [← List.append_assoc, List.take_append_drop]
  apply Nat.le_antisymm
  · exact le_longestSuffixPrefixLen (longestSuffixPrefixLen_lt hne _)
      ((longestSuffixPrefixLen_suffix _ needle).trans hsuffix)
  · have hlt := longestSuffixPrefixLen_lt hne (text ++ rest)
    have hheld := longestSuffixPrefixLen_suffix (text ++ rest) needle
    have hle := longestSuffixPrefixLen_le (text ++ rest) needle
    generalize longestSuffixPrefixLen (text ++ rest) needle = j at hlt hheld hle ⊢
    rw [List.length_append] at hle
    refine le_longestSuffixPrefixLen hlt (List.suffix_of_suffix_length_le hheld hsuffix ?_)
    rw [List.length_take, List.length_append, List.length_drop]
    by_contra hlong
    -- The beginning would reach into what was not held back of the first part.
    have hbegun : text.drop (text.length + rest.length - j) <+: needle := by
      have hdrop := List.suffix_iff_eq_drop.mp hheld
      rw [List.length_append, List.length_take, Nat.min_eq_left hlt.le,
        List.drop_append_of_le_length (by omega)] at hdrop
      exact (List.prefix_append _ rest).trans (hdrop ▸ List.take_prefix j needle)
    have hmore := length_sub_le_longestSuffixPrefixLen hbegun (by omega)
    omega

end Codewith.Lib
