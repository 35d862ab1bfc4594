import Mathlib.Algebra.Order.Floor.Div
import Mathlib.Tactic

/-!
# Lists in chunks

`chunks` is `chunks` of slices: pieces of the given length, of which the last can be shorter.
How many they are, and which length gives so many, are divisions that round up.
-/

namespace Codewith.Lib

variable {α : Type*}

def chunk (size : Nat) (l : List α) (i : Nat) : List α := (l.drop (i * size)).take size

def chunks (size : Nat) (l : List α) : List (List α) :=
  (List.range (l.length ⌈/⌉ size)).map (chunk size l)

@[simp]
theorem length_chunks (size : Nat) (l : List α) : (chunks size l).length = l.length ⌈/⌉ size := by
  simp [chunks]

theorem flatten_map_chunk_range (size : Nat) (l : List α) (k : Nat) :
    ((List.range k).map (chunk size l)).flatten = l.take (k * size) := by
  induction k with
  | zero => simp
  | succ k ih =>
      rw [List.range_succ, List.map_append, List.flatten_append, ih]
      simp only [List.map_cons, List.map_nil, List.flatten_cons, List.flatten_nil, List.append_nil,
        chunk]
      rw [Nat.succ_mul, List.take_add]

theorem flatten_chunks {size : Nat} (hsize : 0 < size) (l : List α) :
    (chunks size l).flatten = l := by
  unfold chunks
  rw [flatten_map_chunk_range]
  have hle := le_smul_ceilDiv (b := l.length) hsize
  rw [smul_eq_mul, Nat.mul_comm] at hle
  exact List.take_of_length_le hle

theorem length_le_of_mem_chunks {size : Nat} {l piece : List α} (h : piece ∈ chunks size l) :
    piece.length ≤ size := by
  obtain ⟨i, -, rfl⟩ := List.mem_map.mp h
  exact List.length_take_le _ _

theorem ne_nil_of_mem_chunks {size : Nat} (hsize : 0 < size) {l piece : List α}
    (h : piece ∈ chunks size l) : piece ≠ [] := by
  obtain ⟨i, hi, rfl⟩ := List.mem_map.mp h
  rw [List.mem_range] at hi
  have hlt : i * size < l.length := by
    have hnot : ¬ l.length ⌈/⌉ size ≤ i := by omega
    rw [ceilDiv_le_iff_le_mul hsize, Nat.mul_comm] at hnot
    omega
  have hlength : 0 < (chunk size l i).length := by
    unfold chunk
    rw [List.length_take, List.length_drop]
    omega
  exact List.ne_nil_of_length_pos hlength

/-! ### Chunk lengths and chunk counts -/

/-- So many chunks are enough when they have the length for so many. -/
theorem ceilDiv_ceilDiv_le {n count : Nat} (hcount : 0 < count) (hn : 0 < n) :
    n ⌈/⌉ (n ⌈/⌉ count) ≤ count := by
  have hpos : 0 < n ⌈/⌉ count := by
    by_contra hzero
    have hle := (ceilDiv_le_iff_le_mul hcount).mp (Nat.le_of_not_lt hzero)
    omega
  rw [ceilDiv_le_iff_le_mul hpos, Nat.mul_comm]
  exact le_smul_ceilDiv hcount

/-- One chunk more than chunks of a length make does not make them longer. -/
theorem ceilDiv_succ_ceilDiv_le {n size : Nat} (hsize : 0 < size) :
    n ⌈/⌉ (n ⌈/⌉ size + 1) ≤ size := by
  rw [ceilDiv_le_iff_le_mul (Nat.succ_pos _)]
  have hle : n ≤ size * (n ⌈/⌉ size) := le_smul_ceilDiv hsize
  nlinarith

end Codewith.Lib
