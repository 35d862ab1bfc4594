import Codewith.Lib.Text

/-!
# Sizes in bytes

The size of a text is that of its UTF-8 encoding, and a position in it a number of bytes.  A text
is cut between characters, at the first or the last position that a budget of bytes allows.
-/

namespace Codewith.Lib.Text

/-- `len()`. -/
def byteSize (s : Text) : Nat := (s.map Char.utf8Size).sum

@[simp] theorem byteSize_nil : byteSize [] = 0 := rfl

@[simp] theorem byteSize_cons (c : Char) (s : Text) :
    byteSize (c :: s) = c.utf8Size + byteSize s := by
  simp [byteSize]

@[simp] theorem byteSize_append (a b : Text) : byteSize (a ++ b) = byteSize a + byteSize b := by
  simp [byteSize]

theorem byteSize_eq_zero {s : Text} : byteSize s = 0 ↔ s = [] := by
  cases s with
  | nil => simp
  | cons c s =>
      have hpos := c.utf8Size_pos
      simp only [byteSize_cons, reduceCtorEq, iff_false]
      omega

theorem byteSize_le_of_prefix {a b : Text} (h : a <+: b) : byteSize a ≤ byteSize b := by
  obtain ⟨rest, rfl⟩ := h
  simp

/-- A proper prefix is smaller. -/
theorem eq_of_prefix_of_byteSize_le {a b : Text} (h : a <+: b) (hsize : byteSize b ≤ byteSize a) :
    a = b := by
  obtain ⟨rest, rfl⟩ := h
  rw [byteSize_append] at hsize
  have hrest : rest = [] := byteSize_eq_zero.mp (by omega)
  rw [hrest, List.append_nil]

/-! ### Cutting -/

/-- The longest prefix of whole characters within a number of bytes. -/
def takeBytes : Nat → Text → Text
  | _, [] => []
  | n, c :: s => if c.utf8Size ≤ n then c :: takeBytes (n - c.utf8Size) s else []

theorem takeBytes_prefix (n : Nat) (s : Text) : takeBytes n s <+: s := by
  induction s generalizing n with
  | nil => exact List.prefix_refl []
  | cons c s ih =>
      rw [takeBytes]
      split
      · exact List.prefix_cons_inj c |>.mpr (ih _)
      · exact List.nil_prefix

theorem byteSize_takeBytes_le (n : Nat) (s : Text) : byteSize (takeBytes n s) ≤ n := by
  induction s generalizing n with
  | nil => exact Nat.zero_le n
  | cons c s ih =>
      rw [takeBytes]
      split
      · have hrest := ih (n - c.utf8Size)
        rw [byteSize_cons]
        omega
      · exact Nat.zero_le n

theorem prefix_takeBytes {n : Nat} {a s : Text} (h : a <+: s) (hsize : byteSize a ≤ n) :
    a <+: takeBytes n s := by
  induction s generalizing n a with
  | nil => exact h
  | cons c s ih =>
      cases a with
      | nil => exact List.nil_prefix
      | cons d a =>
          obtain ⟨rfl, hrest⟩ := List.cons_prefix_cons.mp h
          rw [byteSize_cons] at hsize
          rw [takeBytes, if_pos (by omega)]
          exact (List.prefix_cons_inj d).mpr (ih hrest (by omega))

/-- A character that does not fit ends the longest prefix. -/
theorem lt_of_head?_drop_takeBytes {n : Nat} {s rest : Text} (h : takeBytes n s ++ rest = s) :
    ∀ c ∈ rest.head?, n < byteSize (takeBytes n s) + c.utf8Size := by
  intro c hc
  by_contra hfits
  obtain ⟨tail, rfl⟩ : ∃ tail, rest = c :: tail := by
    cases rest with
    | nil => cases hc
    | cons d tail => exact ⟨tail, by rw [Option.mem_some_iff.mp hc]⟩
  have hlonger : takeBytes n s ++ [c] <+: s := ⟨tail, by simpa using h⟩
  have hsize := byteSize_le_of_prefix (prefix_takeBytes hlonger (n := n) (by
    rw [byteSize_append, byteSize_cons, byteSize_nil]
    omega))
  have hpos := c.utf8Size_pos
  rw [byteSize_append, byteSize_cons, byteSize_nil] at hsize
  omega

/-- The shortest prefix of whole characters of at least a number of bytes, and what follows. -/
def spanBytes : Nat → Text → Text × Text
  | _, [] => ([], [])
  | n, c :: s =>
      if n = 0 then ([], c :: s)
      else (c :: (spanBytes (n - c.utf8Size) s).1, (spanBytes (n - c.utf8Size) s).2)

theorem spanBytes_append (n : Nat) (s : Text) : (spanBytes n s).1 ++ (spanBytes n s).2 = s := by
  induction s generalizing n with
  | nil => rfl
  | cons c s ih =>
      rw [spanBytes]
      split
      · rfl
      · simp [ih]

/-- What follows is small enough, and any other suffix that is so is a suffix of it. -/
theorem le_byteSize_spanBytes {n : Nat} {s : Text} (h : n ≤ byteSize s) :
    n ≤ byteSize (spanBytes n s).1 := by
  induction s generalizing n with
  | nil => exact h
  | cons c s ih =>
      rw [spanBytes]
      split
      · omega
      · rw [byteSize_cons] at h ⊢
        have hrest := ih (n := n - c.utf8Size) (by omega)
        omega

/-- The last character of the shortest prefix is the one that reaches the number. -/
theorem byteSize_spanBytes_lt (n : Nat) (s : Text) : byteSize (spanBytes n s).1 < n + 4 := by
  induction s generalizing n with
  | nil =>
      rw [spanBytes, byteSize_nil]
      omega
  | cons c s ih =>
      rw [spanBytes]
      split
      · rw [byteSize_nil]
        omega
      · have hchar := c.utf8Size_le_four
        by_cases hfits : c.utf8Size ≤ n
        · have hrest := ih (n - c.utf8Size)
          rw [byteSize_cons]
          omega
        · have hnone : (spanBytes (n - c.utf8Size) s).1 = [] := by
            rw [Nat.sub_eq_zero_of_le (by omega)]
            cases s <;> simp [spanBytes]
          rw [hnone, byteSize_cons, byteSize_nil]
          omega

theorem le_byteSize_takeBytes {n : Nat} {s : Text} (h : n < byteSize s) :
    n ≤ byteSize (takeBytes n s) + 3 := by
  obtain ⟨rest, hrest⟩ := takeBytes_prefix n s
  cases rest with
  | nil =>
      have hsize := byteSize_takeBytes_le n s
      rw [List.append_nil] at hrest
      rw [hrest] at hsize
      omega
  | cons c rest =>
      have hnext := lt_of_head?_drop_takeBytes hrest c rfl
      have hchar := c.utf8Size_le_four
      omega

theorem spanBytes_prefix {n : Nat} {a s : Text} (h : a <+: s) (hsize : n ≤ byteSize a) :
    (spanBytes n s).1 <+: a := by
  induction s generalizing n a with
  | nil => exact List.nil_prefix
  | cons c s ih =>
      rw [spanBytes]
      split
      · exact List.nil_prefix
      · cases a with
        | nil =>
            rw [byteSize_nil] at hsize
            omega
        | cons d a =>
            obtain ⟨rfl, hrest⟩ := List.cons_prefix_cons.mp h
            rw [byteSize_cons] at hsize
            exact (List.prefix_cons_inj d).mpr (ih hrest (by omega))

/-- A cut at a position, which must be between characters. -/
def splitAtByte : Nat → Text → Option (Text × Text)
  | n, [] => if n = 0 then some ([], []) else none
  | n, c :: s =>
      if n = 0 then some ([], c :: s)
      else if c.utf8Size ≤ n then
        (splitAtByte (n - c.utf8Size) s).map fun (a, b) => (c :: a, b)
      else none

theorem splitAtByte_append (a b : Text) : splitAtByte (byteSize a) (a ++ b) = some (a, b) := by
  induction a with
  | nil => cases b <;> simp [splitAtByte]
  | cons c a ih =>
      have hpos := c.utf8Size_pos
      rw [byteSize_cons, List.cons_append, splitAtByte, if_neg (by omega), if_pos (by omega),
        Nat.add_sub_cancel_left, ih]
      rfl

end Codewith.Lib.Text
