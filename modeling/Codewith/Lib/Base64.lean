import Codewith.Lib.Text

/-!
# Base64

The standard alphabet with padding.  Three bytes are written as four characters, and what is
left at the end is filled up.
-/

namespace Codewith.Lib.Base64

def alphabet : List Char :=
  "ABCDEFGHIJKLMNOPQRSTUVWXYZabcdefghijklmnopqrstuvwxyz0123456789+/".toList

def padding : Char := '='

def sextet (n : Nat) : Char := alphabet.getD n padding

def decodeSextet (c : Char) : Option Nat := alphabet.idxOf? c

def encode : List UInt8 → Text
  | a :: b :: c :: rest =>
      sextet (a.toNat / 4) :: sextet (a.toNat % 4 * 16 + b.toNat / 16) ::
        sextet (b.toNat % 16 * 4 + c.toNat / 64) :: sextet (c.toNat % 64) :: encode rest
  | [a, b] =>
      [sextet (a.toNat / 4), sextet (a.toNat % 4 * 16 + b.toNat / 16),
        sextet (b.toNat % 16 * 4), padding]
  | [a] => [sextet (a.toNat / 4), sextet (a.toNat % 4 * 16), padding, padding]
  | [] => []

def decodeQuad (p q r s : Char) : Option (List UInt8) := do
  let i ← decodeSextet p
  let j ← decodeSextet q
  let k ← decodeSextet r
  let l ← decodeSextet s
  return [UInt8.ofNat (i * 4 + j / 16), UInt8.ofNat (j % 16 * 16 + k / 4),
    UInt8.ofNat (k % 4 * 64 + l)]

/-- The last four characters.  The bits that the padding leaves over are zero. -/
def decodeLastQuad (p q r s : Char) : Option (List UInt8) :=
  if s ≠ padding then decodeQuad p q r s
  else if r ≠ padding then do
    let i ← decodeSextet p
    let j ← decodeSextet q
    let k ← decodeSextet r
    if k % 4 = 0 then some [UInt8.ofNat (i * 4 + j / 16), UInt8.ofNat (j % 16 * 16 + k / 4)]
    else none
  else do
    let i ← decodeSextet p
    let j ← decodeSextet q
    if j % 16 = 0 then some [UInt8.ofNat (i * 4 + j / 16)] else none

def decode : Text → Option (List UInt8)
  | [] => some []
  | [p, q, r, s] => decodeLastQuad p q r s
  | p :: q :: r :: s :: rest => do
      let bytes ← decodeQuad p q r s
      let others ← decode rest
      return bytes ++ others
  | _ => none

theorem codes_alphabet :
    alphabet.map Char.toNat =
      List.range' 65 26 ++ List.range' 97 26 ++ List.range' 48 10 ++ [43, 47] := by
  decide

theorem length_alphabet : alphabet.length = 64 := by
  rw [← List.length_map Char.toNat, codes_alphabet]
  rfl

theorem nodup_alphabet : alphabet.Nodup := by
  apply List.Nodup.of_map Char.toNat
  rw [codes_alphabet]
  decide

theorem padding_notMem_alphabet : padding ∉ alphabet := by
  intro hmem
  have hcode := List.mem_map_of_mem (f := Char.toNat) hmem
  rw [codes_alphabet] at hcode
  revert hcode
  decide

theorem sextet_eq {n : Nat} (h : n < 64) :
    ∃ hn : n < alphabet.length, sextet n = alphabet[n] := by
  have hn : n < alphabet.length := by rwa [length_alphabet]
  refine ⟨hn, ?_⟩
  rw [sextet, List.getD_eq_getElem?_getD, List.getElem?_eq_getElem hn, Option.getD_some]

theorem decodeSextet_sextet {n : Nat} (h : n < 64) : decodeSextet (sextet n) = some n := by
  obtain ⟨hn, hsextet⟩ := sextet_eq h
  rw [hsextet, decodeSextet, List.idxOf?_eq_some_iff]
  refine ⟨hn, rfl, fun j hj heq => ?_⟩
  have hindex := nodup_alphabet.getElem_inj_iff.mp heq
  omega

theorem sextet_ne_padding {n : Nat} (h : n < 64) : sextet n ≠ padding := by
  obtain ⟨hn, hsextet⟩ := sextet_eq h
  rw [hsextet]
  exact ne_of_mem_of_not_mem (List.getElem_mem hn) padding_notMem_alphabet

theorem decodeQuad_encode (a b c : UInt8) :
    decodeQuad (sextet (a.toNat / 4)) (sextet (a.toNat % 4 * 16 + b.toNat / 16))
        (sextet (b.toNat % 16 * 4 + c.toNat / 64)) (sextet (c.toNat % 64)) = some [a, b, c] := by
  have ha := a.toNat_lt
  have hb := b.toNat_lt
  have hc := c.toNat_lt
  have hfirst : a.toNat / 4 * 4 + (a.toNat % 4 * 16 + b.toNat / 16) / 16 = a.toNat := by omega
  have hsecond : (a.toNat % 4 * 16 + b.toNat / 16) % 16 * 16 +
      (b.toNat % 16 * 4 + c.toNat / 64) / 4 = b.toNat := by omega
  have hthird : (b.toNat % 16 * 4 + c.toNat / 64) % 4 * 64 + c.toNat % 64 = c.toNat := by omega
  unfold decodeQuad
  rw [decodeSextet_sextet (by omega), decodeSextet_sextet (by omega),
    decodeSextet_sextet (by omega), decodeSextet_sextet (by omega)]
  simp only [Option.bind_eq_bind, Option.bind_some, hfirst, hsecond, hthird, UInt8.ofNat_toNat,
    Option.pure_def]

theorem encode_ne_nil {bytes : List UInt8} (h : bytes ≠ []) : encode bytes ≠ [] := by
  unfold encode
  split
  · simp
  · simp
  · simp
  · exact absurd rfl h

theorem length_encode (bytes : List UInt8) :
    (encode bytes).length = 4 * ((bytes.length + 2) / 3) := by
  fun_induction encode bytes with
  | case1 a b c rest ih =>
      simp only [List.length_cons, ih]
      omega
  | case2 a b => simp
  | case3 a => simp
  | case4 => simp

/-- Every character that is written is of the alphabet, or the padding. -/
theorem mem_encode {bytes : List UInt8} {c : Char} (h : c ∈ encode bytes) :
    c ∈ alphabet ∨ c = padding := by
  have hsextet : ∀ n, sextet n ∈ alphabet ∨ sextet n = padding := by
    intro n
    unfold sextet
    rcases hget : alphabet[n]? with _ | found
    · exact .inr (by simp [hget])
    · exact .inl (by simpa [hget] using List.mem_of_getElem? hget)
  fun_induction encode bytes with
  | case1 a b c rest ih =>
      simp only [List.mem_cons] at h
      rcases h with rfl | rfl | rfl | rfl | h
      · exact hsextet _
      · exact hsextet _
      · exact hsextet _
      · exact hsextet _
      · exact ih h
  | case2 a b =>
      simp only [List.mem_cons, List.not_mem_nil, or_false] at h
      rcases h with rfl | rfl | rfl | rfl
      · exact hsextet _
      · exact hsextet _
      · exact hsextet _
      · exact .inr rfl
  | case3 a =>
      simp only [List.mem_cons, List.not_mem_nil, or_false] at h
      rcases h with rfl | rfl | rfl | rfl
      · exact hsextet _
      · exact hsextet _
      · exact .inr rfl
      · exact .inr rfl
  | case4 => simp at h

theorem decode_cons (p q r s : Char) {rest : Text} (h : rest ≠ []) :
    decode (p :: q :: r :: s :: rest) = (decodeQuad p q r s).bind fun bytes =>
      (decode rest).map (bytes ++ ·) := by
  rcases rest with _ | ⟨head, tail⟩
  · exact absurd rfl h
  · simp only [decode, Option.bind_eq_bind, Option.map_eq_bind]
    rfl

/-- What was written is read back. -/
theorem decode_encode (bytes : List UInt8) : decode (encode bytes) = some bytes := by
  fun_induction encode bytes with
  | case1 a b c rest ih =>
      by_cases hrest : rest = []
      · subst hrest
        have hlast := sextet_ne_padding (show c.toNat % 64 < 64 by omega)
        simp only [encode, decode, decodeLastQuad]
        rw [if_pos hlast, decodeQuad_encode]
      · rw [decode_cons _ _ _ _ (encode_ne_nil hrest), decodeQuad_encode, ih]
        rfl
  | case2 a b =>
      have ha := a.toNat_lt
      have hb := b.toNat_lt
      have hfirst : a.toNat / 4 * 4 + (a.toNat % 4 * 16 + b.toNat / 16) / 16 = a.toNat := by omega
      have hsecond : (a.toNat % 4 * 16 + b.toNat / 16) % 16 * 16 + b.toNat % 16 * 4 / 4 =
          b.toNat := by omega
      have hzero : b.toNat % 16 * 4 % 4 = 0 := by omega
      simp only [decode, decodeLastQuad]
      rw [if_neg (by simp), if_pos (sextet_ne_padding (by omega)),
        decodeSextet_sextet (by omega), decodeSextet_sextet (by omega),
        decodeSextet_sextet (by omega)]
      simp only [Option.bind_eq_bind, Option.bind_some, hfirst, hsecond, hzero, if_true,
        UInt8.ofNat_toNat]
  | case3 a =>
      have ha := a.toNat_lt
      have hfirst : a.toNat / 4 * 4 + a.toNat % 4 * 16 / 16 = a.toNat := by omega
      have hzero : a.toNat % 4 * 16 % 16 = 0 := by omega
      simp only [decode, decodeLastQuad]
      rw [if_neg (by simp), if_neg (by simp), decodeSextet_sextet (by omega),
        decodeSextet_sextet (by omega)]
      simp only [Option.bind_eq_bind, Option.bind_some, hfirst, hzero, if_true, UInt8.ofNat_toNat]
  | case4 => rfl

theorem length_of_decodeQuad {p q r s : Char} {bytes : List UInt8}
    (h : decodeQuad p q r s = some bytes) : bytes.length = 3 := by
  simp only [decodeQuad, Option.bind_eq_bind, Option.bind_eq_some_iff, Option.pure_def,
    Option.some.injEq] at h
  obtain ⟨i, -, j, -, k, -, l, -, rfl⟩ := h
  rfl

theorem length_of_decodeLastQuad {p q r s : Char} {bytes : List UInt8}
    (h : decodeLastQuad p q r s = some bytes) : bytes.length ≤ 3 := by
  unfold decodeLastQuad at h
  split_ifs at h
  · exact (length_of_decodeQuad h).le
  · simp only [Option.bind_eq_bind, Option.bind_eq_some_iff, Option.ite_none_right_eq_some,
      Option.some.injEq] at h
    obtain ⟨i, -, j, -, k, -, -, rfl⟩ := h
    simp
  · simp only [Option.bind_eq_bind, Option.bind_eq_some_iff, Option.ite_none_right_eq_some,
      Option.some.injEq] at h
    obtain ⟨i, -, j, -, -, rfl⟩ := h
    simp

theorem length_of_decode {s : Text} {bytes : List UInt8} (h : decode s = some bytes) :
    4 * bytes.length ≤ 3 * s.length := by
  fun_induction decode s generalizing bytes with
  | case1 =>
      simp only [Option.some.injEq] at h
      simp [← h]
  | case2 p q r s =>
      have := length_of_decodeLastQuad h
      simp only [List.length_cons, List.length_nil]
      omega
  | case3 p q r s rest hrest ih =>
      simp only [Option.bind_eq_bind, Option.bind_eq_some_iff, Option.pure_def,
        Option.some.injEq] at h
      obtain ⟨quad, hquad, others, hothers, rfl⟩ := h
      have := length_of_decodeQuad hquad
      have := ih hothers
      simp only [List.length_append, List.length_cons]
      omega
  | case4 => simp at h

end Codewith.Lib.Base64
