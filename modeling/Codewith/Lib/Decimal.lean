import Codewith.Lib.Text

/-!
# Decimal numbers

How a signed number of 64 bits is written and read.
-/

namespace Codewith.Lib.Decimal

/-- A signed number of 64 bits. -/
def IsI64 (n : Int) : Prop := -(2 ^ 63) ≤ n ∧ n < 2 ^ 63

instance : DecidablePred IsI64 := fun _ => inferInstanceAs (Decidable (_ ∧ _))

def format (n : Int) : Text :=
  if n < 0 then '-' :: Nat.toDigits 10 n.natAbs else Nat.toDigits 10 n.natAbs

def emptyError : Text := "cannot parse integer from empty string".toList

def invalidDigitError : Text := "invalid digit found in string".toList

def overflowError (negative : Bool) : Text :=
  if negative then "number too small to fit in target type".toList
  else "number too large to fit in target type".toList

/-- A negative number is read downwards, since the least number has no opposite. -/
def parseDigits (negative : Bool) : Text → Int → Except Text Int
  | [], value => .ok value
  | c :: s, value =>
      if c.isDigit then
        let digit : Int := (c.toNat - '0'.toNat : Nat)
        let next := if negative then value * 10 - digit else value * 10 + digit
        if IsI64 next then parseDigits negative s next else .error (overflowError negative)
      else .error invalidDigitError

/-- `parse::<i64>()`. -/
def parseI64 : Text → Except Text Int
  | [] => .error emptyError
  | ['+'] => .error invalidDigitError
  | ['-'] => .error invalidDigitError
  | '+' :: s => parseDigits false s 0
  | '-' :: s => parseDigits true s 0
  | s => parseDigits false s 0

/-- Reading digits whose value fits goes through, since the values on the way are smaller. -/
theorem parseDigits_eq (negative : Bool) (s : Text) (hs : ∀ c ∈ s, c.isDigit = true) (value : Nat)
    (h : IsI64 (if negative then -(Nat.ofDigitChars 10 s value : Int)
      else Nat.ofDigitChars 10 s value)) :
    parseDigits negative s (if negative then -(value : Int) else value) =
      .ok (if negative then -(Nat.ofDigitChars 10 s value : Int)
        else Nat.ofDigitChars 10 s value) := by
  induction s generalizing value with
  | nil => simp [parseDigits]
  | cons c s ih =>
      rw [Nat.ofDigitChars_cons] at h ⊢
      have hle : 10 * value + (c.toNat - '0'.toNat) ≤
          Nat.ofDigitChars 10 s (10 * value + (c.toNat - '0'.toNat)) := by
        rw [Nat.ofDigitChars_eq_ofDigitChars_zero]
        exact le_add_of_le_left (Nat.le_mul_of_pos_left _ (by positivity))
      have hnext := ih (fun d hd => hs d (List.mem_cons_of_mem c hd))
        (10 * value + (c.toNat - '0'.toNat)) h
      rw [parseDigits, if_pos (hs c List.mem_cons_self)]
      cases negative with
      | false =>
          have hvalue : (value : Int) * 10 + (c.toNat - '0'.toNat : Nat) =
              (10 * value + (c.toNat - '0'.toNat) : Nat) := by push_cast; ring
          simp only [Bool.false_eq_true, if_false] at h hnext ⊢
          rw [hvalue, if_pos ⟨by omega, by have := h.2; omega⟩]
          exact hnext
      | true =>
          have hvalue : -(value : Int) * 10 - (c.toNat - '0'.toNat : Nat) =
              -(10 * value + (c.toNat - '0'.toNat) : Nat) := by push_cast; ring
          simp only [if_true] at h hnext ⊢
          rw [hvalue, if_pos ⟨by have := h.1; omega, by omega⟩]
          exact hnext

theorem isDigit_of_mem_toDigits {n : Nat} {c : Char} (h : c ∈ Nat.toDigits 10 n) :
    c.isDigit = true :=
  Nat.isDigit_of_mem_toDigits (by omega) (by omega) h

theorem exists_digitChar {c : Char} (h : c.isDigit = true) : ∃ d < 10, c = d.digitChar := by
  have hrange : 48 ≤ c.toNat ∧ c.toNat ≤ 57 := Char.isDigit_iff_toNat.mp h
  refine ⟨c.toNat - 48, by omega, ?_⟩
  apply Char.toNat_inj.mp
  rw [Nat.toNat_digitChar_of_lt_ten (by omega)]
  omega

theorem ofDigitChars_pos {s : Text} (hs : ∀ c ∈ s, c.isDigit = true) (hne : s ≠ [])
    (hlead : s.head? ≠ some '0') : 0 < Nat.ofDigitChars 10 s 0 := by
  cases s with
  | nil => exact absurd rfl hne
  | cons c s =>
      obtain ⟨d, hd, rfl⟩ := exists_digitChar (hs c List.mem_cons_self)
      have hpos : 0 < d := by
        refine Nat.pos_of_ne_zero ?_
        rintro rfl
        exact hlead rfl
      rw [Nat.ofDigitChars_cons_digitChar_of_lt_ten hd, Nat.mul_zero, Nat.zero_add,
        Nat.ofDigitChars_eq_ofDigitChars_zero]
      exact Nat.add_pos_left (Nat.mul_pos (by positivity) hpos) _

/-- Digits without a leading zero are those of their value. -/
theorem toDigits_ofDigitChars {s : Text} (hs : ∀ c ∈ s, c.isDigit = true) (hne : s ≠ [])
    (hlead : s.head? = some '0' → s.length ≤ 1) :
    Nat.toDigits 10 (Nat.ofDigitChars 10 s 0) = s := by
  induction s using List.reverseRecOn with
  | nil => exact absurd rfl hne
  | append_singleton init c ih =>
      obtain ⟨d, hd, rfl⟩ := exists_digitChar (hs c (by simp))
      have hvalue : Nat.ofDigitChars 10 (init ++ [d.digitChar]) 0 =
          10 * Nat.ofDigitChars 10 init 0 + d := by
        rw [Nat.ofDigitChars_append, Nat.ofDigitChars_cons_digitChar_of_lt_ten hd,
          Nat.ofDigitChars_nil]
      rw [hvalue]
      by_cases hinit : init = []
      · subst hinit
        rw [Nat.ofDigitChars_nil, Nat.mul_zero, Nat.zero_add, Nat.toDigits_of_lt_base hd]
        rfl
      · -- more than one digit: the first is not zero
        have hdigits : ∀ c ∈ init, c.isDigit = true := fun c hc => hs c (List.mem_append_left _ hc)
        have hhead : init.head? ≠ some '0' := by
          intro h
          have hlength := hlead (by rw [List.head?_append_of_ne_nil _ hinit, h])
          have hpos := List.length_pos_of_ne_nil hinit
          rw [List.length_append, List.length_singleton] at hlength
          omega
        rw [← Nat.toDigits_append_toDigits (by omega) (ofDigitChars_pos hdigits hinit hhead) hd,
          ih hdigits hinit (fun h => absurd h hhead), Nat.toDigits_of_lt_base hd]

/-- The digits stand alone, after no sign. -/
theorem parseI64_toDigits (n : Nat) :
    parseI64 (Nat.toDigits 10 n) = parseDigits false (Nat.toDigits 10 n) 0 := by
  cases hs : Nat.toDigits 10 n with
  | nil => exact absurd hs Nat.toDigits_ne_nil
  | cons c s =>
      have hc : c.isDigit = true := isDigit_of_mem_toDigits (hs ▸ List.mem_cons_self)
      have hplus : c ≠ '+' := by rintro rfl; revert hc; decide
      have hminus : c ≠ '-' := by rintro rfl; revert hc; decide
      rw [parseI64.eq_def]
      split <;> simp_all

theorem parseI64_format {n : Int} (h : IsI64 n) : parseI64 (format n) = .ok n := by
  by_cases hneg : n < 0
  · have hvalue : -|n| = n := by rw [abs_of_neg hneg, neg_neg]
    have hread := parseDigits_eq true (Nat.toDigits 10 n.natAbs)
      (fun _ => isDigit_of_mem_toDigits) 0 (by simpa [hvalue] using h)
    rw [format, if_pos hneg]
    have hsign : parseI64 ('-' :: Nat.toDigits 10 n.natAbs) =
        parseDigits true (Nat.toDigits 10 n.natAbs) 0 := by
      cases hs : Nat.toDigits 10 n.natAbs with
      | nil => exact absurd hs Nat.toDigits_ne_nil
      | cons c s => rfl
    rw [hsign]
    simpa [hvalue] using hread
  · have hvalue : |n| = n := abs_of_nonneg (Int.not_lt.1 hneg)
    have hread := parseDigits_eq false (Nat.toDigits 10 n.natAbs) (fun _ => isDigit_of_mem_toDigits)
      0 (by simpa [hvalue] using h)
    rw [format, if_neg hneg, parseI64_toDigits]
    simpa [hvalue] using hread

theorem not_mem_format {c : Char} (hc : c.isDigit = false) (hminus : c ≠ '-') (n : Int) :
    c ∉ format n := by
  intro hmem
  have hdigits : c ∉ Nat.toDigits 10 n.natAbs := by
    intro h
    rw [isDigit_of_mem_toDigits h] at hc
    cases hc
  unfold format at hmem
  split at hmem
  · rcases List.mem_cons.1 hmem with h | h
    · exact hminus h
    · exact hdigits h
  · exact hdigits hmem

end Codewith.Lib.Decimal
