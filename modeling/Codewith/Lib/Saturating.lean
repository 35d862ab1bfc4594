import Mathlib.Data.List.DropRight
import Mathlib.Tactic

/-!
# Saturating counters and the ends of a list

Sums that stop at the greatest number of the machine, and the last elements of a list that grows.
-/

namespace Codewith.Lib

def usizeMax : Nat := 2 ^ 64 - 1

def saturatingAdd (a b : Nat) : Nat := min (a + b) usizeMax

/-- Sums in several steps stop where the sum in one step does. -/
theorem saturatingAdd_min (a b : Nat) :
    saturatingAdd (min a usizeMax) b = min (a + b) usizeMax := by
  unfold saturatingAdd
  omega

theorem saturatingAdd_min_min (a b : Nat) :
    saturatingAdd (min a usizeMax) (min b usizeMax) = min (a + b) usizeMax := by
  unfold saturatingAdd
  omega

/-! ### Last elements -/

variable {α : Type*}

theorem rtake_eq_drop (l : List α) (n : Nat) : l.rtake n = l.drop (l.length - n) := rfl

theorem length_rtake (l : List α) (n : Nat) : (l.rtake n).length = min n l.length := by
  rw [rtake_eq_drop, List.length_drop]
  omega

theorem rtake_of_length_le {l : List α} {n : Nat} (h : l.length ≤ n) : l.rtake n = l := by
  rw [rtake_eq_drop, Nat.sub_eq_zero_of_le h, List.drop_zero]

theorem rtake_rtake (l : List α) (n : Nat) : (l.rtake n).rtake n = l.rtake n := by
  refine rtake_of_length_le ?_
  rw [length_rtake]
  exact Nat.min_le_left _ _

theorem rtake_append (a b : List α) (n : Nat) :
    (a ++ b).rtake n = a.rtake (n - b.length) ++ b.rtake n := by
  have hback : a.length + b.length - n - a.length = b.length - n := by omega
  rw [rtake_eq_drop, List.length_append, List.drop_append, hback, rtake_eq_drop, rtake_eq_drop]
  congr 1
  by_cases h : b.length ≤ n
  · congr 1
    omega
  · rw [List.drop_eq_nil_of_le (by omega), List.drop_eq_nil_of_le (by omega)]

/-- The last elements of the second list alone, if it has enough. -/
theorem rtake_append_of_le_length (a : List α) {b : List α} {n : Nat} (h : n ≤ b.length) :
    (a ++ b).rtake n = b.rtake n := by
  rw [rtake_append, Nat.sub_eq_zero_of_le h, List.rtake_zero, List.nil_append]

/-- What is cut off early would be cut off later. -/
theorem rtake_rtake_append (a b : List α) (n : Nat) :
    (a.rtake n ++ b).rtake n = (a ++ b).rtake n := by
  rw [rtake_append, rtake_append]
  congr 1
  rw [rtake_eq_drop, length_rtake, rtake_eq_drop, rtake_eq_drop, List.drop_drop]
  congr 1
  omega

/-- The last elements are those after a cut that leaves enough. -/
theorem rtake_drop_of_le {l : List α} {m n : Nat} (h : m + n ≤ l.length) :
    (l.drop m).rtake n = l.rtake n := by
  conv_rhs => rw [← List.take_append_drop m l]
  rw [rtake_append_of_le_length]
  rw [List.length_drop]
  omega

end Codewith.Lib
