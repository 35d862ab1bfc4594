import Mathlib.Data.Nat.Log
import Codewith.Lib.ByteSize

/-!
# Lengths of compact JSON

How many bytes are written for strings, numbers and objects when nothing is written between
them.
-/

namespace Codewith.Lib.JsonLength

/-- The bytes for a character inside of a string. -/
def escaped (c : Char) : Nat :=
  if c = '"' ∨ c = '\\' then 2
  else if c.toNat < 0x20 then if c.toNat ∈ [0x8, 0x9, 0xA, 0xC, 0xD] then 2 else 6
  else c.utf8Size

def string (s : Text) : Nat := 2 + (s.map escaped).sum

def number (n : Nat) : Nat := Nat.log 10 n + 1

/-- An object from its keys and the lengths of its values. -/
def object (fields : List (Text × Nat)) : Nat :=
  2 + (fields.map fun field => string field.1 + 1 + field.2).sum + (fields.length - 1)

/-- An array from the lengths of its elements. -/
def array (elements : List Nat) : Nat := 2 + elements.sum + (elements.length - 1)

theorem number_mono {m n : Nat} (h : m ≤ n) : number m ≤ number n :=
  Nat.succ_le_succ (Nat.log_mono_right h)

/-- A text without special characters is written as it is. -/
theorem string_of_plain {s : Text} (h : ∀ c ∈ s, escaped c = 1) : string s = 2 + s.length := by
  have hone : s.map escaped = s.map fun _ => 1 := List.map_congr_left h
  unfold string
  rw [hone]
  simp

theorem utf8Size_of_lt {c : Char} (h : c.toNat < 0x80) : c.utf8Size = 1 := by
  have hval : c.val ≤ 0x7F := by
    rw [UInt32.le_iff_toNat_le]
    exact Nat.le_of_lt_succ h
  exact Char.utf8Size_eq_one_iff.mpr hval

/-- An escape is no shorter than its character. -/
theorem utf8Size_le_escaped (c : Char) : c.utf8Size ≤ escaped c := by
  unfold escaped
  split
  · rename_i hquoted
    have hsize : c.utf8Size = 1 := by
      rcases hquoted with rfl | rfl <;> decide
    omega
  · split
    · rename_i hcontrol
      have hsize := utf8Size_of_lt (show c.toNat < 0x80 by omega)
      split <;> omega
    · exact le_rfl

/-- A text is written with a quote on either side, and nothing shorter than it is. -/
theorem byteSize_le_string (s : Text) : Text.byteSize s + 2 ≤ string s := by
  have hsum : Text.byteSize s ≤ (s.map escaped).sum :=
    List.sum_le_sum fun c _ => utf8Size_le_escaped c
  unfold string
  omega

theorem sum_le_array (elements : List Nat) : elements.sum ≤ array elements := by
  unfold array
  omega

end Codewith.Lib.JsonLength
