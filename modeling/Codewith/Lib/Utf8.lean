import Codewith.Lib.Text

/-!
# UTF-8 in bytes

The encoding of a text, and the validation of bytes that may end inside a character.  The first
byte of a character announces how many follow, and bounds the second one so that no character has
two encodings and no surrogate has one.
-/

namespace Codewith.Lib.Utf8

def encode (s : Text) : List UInt8 := s.flatMap String.utf8EncodeChar

@[simp] theorem encode_nil : encode [] = [] := rfl

@[simp] theorem encode_cons (c : Char) (s : Text) :
    encode (c :: s) = String.utf8EncodeChar c ++ encode s := rfl

@[simp] theorem encode_append (a b : Text) : encode (a ++ b) = encode a ++ encode b :=
  List.flatMap_append

/-! ### One character -/

/-- The bytes of a character, from its first one; none for a byte that starts no character. -/
def charWidth (first : Nat) : Nat :=
  if first < 0x80 then 1
  else if first < 0xC2 then 0
  else if first < 0xE0 then 2
  else if first < 0xF0 then 3
  else if first < 0xF5 then 4
  else 0

/-- The least byte at a position of a character. -/
def lower (first position : Nat) : Nat :=
  if position = 1 ∧ first = 0xE0 then 0xA0
  else if position = 1 ∧ first = 0xF0 then 0x90
  else 0x80

def upper (first position : Nat) : Nat :=
  if position = 1 ∧ first = 0xED then 0x9F
  else if position = 1 ∧ first = 0xF4 then 0x8F
  else 0xBF

/-- The character at the start of some bytes. -/
inductive Next
  | valid (width : Nat)
  | invalid (errorLen : Nat)
  | incomplete
deriving DecidableEq, Repr

def scanTail (first : Nat) : Nat → Nat → List UInt8 → Next
  | position, 0, _ => .valid position
  | _, _ + 1, [] => .incomplete
  | position, left + 1, b :: bytes =>
      if lower first position ≤ b.toNat ∧ b.toNat ≤ upper first position then
        scanTail first (position + 1) left bytes
      else .invalid position

def nextChar : List UInt8 → Next
  | [] => .incomplete
  | b :: bytes =>
      match charWidth b.toNat with
      | 0 => .invalid 1
      | left + 1 => scanTail b.toNat 1 left bytes

/-- The number of a character from its bytes. -/
def codePoint : List UInt8 → Nat
  | [a] => a.toNat
  | [a, b] => (a.toNat - 0xC0) * 64 + (b.toNat - 0x80)
  | [a, b, c] => (a.toNat - 0xE0) * 4096 + (b.toNat - 0x80) * 64 + (c.toNat - 0x80)
  | [a, b, c, d] =>
      (a.toNat - 0xF0) * 262144 + (b.toNat - 0x80) * 4096 + (c.toNat - 0x80) * 64 +
        (d.toNat - 0x80)
  | _ => 0

theorem codePoint_two (a b : UInt8) :
    codePoint [a, b] = (a.toNat - 0xC0) * 64 + (b.toNat - 0x80) := rfl

theorem codePoint_three (a b c : UInt8) :
    codePoint [a, b, c] =
      (a.toNat - 0xE0) * 4096 + (b.toNat - 0x80) * 64 + (c.toNat - 0x80) := rfl

theorem codePoint_four (a b c d : UInt8) :
    codePoint [a, b, c, d] =
      (a.toNat - 0xF0) * 262144 + (b.toNat - 0x80) * 4096 + (c.toNat - 0x80) * 64 +
        (d.toNat - 0x80) := rfl

theorem charWidth_eq {first width : Nat} (h : charWidth first = width) :
    width = 0 ∨ (width = 1 ∧ first < 0x80) ∨ (width = 2 ∧ 0xC2 ≤ first ∧ first < 0xE0) ∨
      (width = 3 ∧ 0xE0 ≤ first ∧ first < 0xF0) ∨ (width = 4 ∧ 0xF0 ≤ first ∧ first < 0xF5) := by
  unfold charWidth at h
  split_ifs at h <;> omega

theorem charWidth_two {first : Nat} (h : 0xC2 ≤ first ∧ first < 0xE0) : charWidth first = 2 := by
  unfold charWidth
  split_ifs <;> omega

theorem charWidth_three {first : Nat} (h : 0xE0 ≤ first ∧ first < 0xF0) : charWidth first = 3 := by
  unfold charWidth
  split_ifs <;> omega

theorem charWidth_four {first : Nat} (h : 0xF0 ≤ first ∧ first < 0xF5) : charWidth first = 4 := by
  unfold charWidth
  split_ifs <;> omega

theorem lower_le_upper (first position : Nat) : lower first position ≤ upper first position := by
  unfold lower upper
  split_ifs <;> omega

theorem bounds_of_ne_one (first : Nat) {position : Nat} (h : position ≠ 1) :
    lower first position = 0x80 ∧ upper first position = 0xBF := by
  simp [lower, upper, h]

theorem lower_one (first : Nat) :
    0x80 ≤ lower first 1 ∧ (first = 0xE0 → 0xA0 ≤ lower first 1) ∧
      (first = 0xF0 → 0x90 ≤ lower first 1) := by
  unfold lower
  split_ifs <;> omega

theorem upper_one (first : Nat) :
    upper first 1 ≤ 0xBF ∧ (first = 0xED → upper first 1 ≤ 0x9F) ∧
      (first = 0xF4 → upper first 1 ≤ 0x8F) := by
  unfold upper
  split_ifs <;> omega

theorem utf8EncodeChar_ofNat {v : Nat} (h : v.isValidChar) :
    String.utf8EncodeChar (Char.ofNat v) =
      if v ≤ 0x7f then [UInt8.ofNat v]
      else if v ≤ 0x7ff then [UInt8.ofNat (v / 64 % 0x20 + 0xc0), UInt8.ofNat (v % 0x40 + 0x80)]
      else if v ≤ 0xffff then
        [UInt8.ofNat (v / 4096 % 0x10 + 0xe0), UInt8.ofNat (v / 64 % 0x40 + 0x80),
          UInt8.ofNat (v % 0x40 + 0x80)]
      else
        [UInt8.ofNat (v / 262144 % 0x08 + 0xf0), UInt8.ofNat (v / 4096 % 0x40 + 0x80),
          UInt8.ofNat (v / 64 % 0x40 + 0x80), UInt8.ofNat (v % 0x40 + 0x80)] := by
  have hval : (Char.ofNat v).val.toNat = v := by
    rw [Char.ofNat, dif_pos h]
    rfl
  unfold String.utf8EncodeChar
  rw [hval]

theorem ofNat_eq_of_toNat_eq {b : UInt8} {n : Nat} (h : n = b.toNat) : UInt8.ofNat n = b := by
  rw [h, UInt8.ofNat_toNat]

/-- The base-64 digits of a number. -/
theorem digits_three {x y z : Nat} (hy : y < 64) (hz : z < 64) :
    (x * 4096 + y * 64 + z) / 4096 = x ∧ (x * 4096 + y * 64 + z) / 64 % 64 = y ∧
      (x * 4096 + y * 64 + z) % 64 = z := by
  refine ⟨?_, ?_, ?_⟩ <;> omega

theorem digits_four {w x y z : Nat} (hx : x < 64) (hy : y < 64) (hz : z < 64) :
    (w * 262144 + x * 4096 + y * 64 + z) / 262144 = w ∧
      (w * 262144 + x * 4096 + y * 64 + z) / 4096 % 64 = x ∧
      (w * 262144 + x * 4096 + y * 64 + z) / 64 % 64 = y ∧
      (w * 262144 + x * 4096 + y * 64 + z) % 64 = z := by
  have hfirst : (w * 262144 + x * 4096 + y * 64 + z) / 262144 = w := by omega
  have hsecond : (w * 262144 + x * 4096 + y * 64 + z) / 4096 = w * 64 + x := by omega
  have hthird : (w * 262144 + x * 4096 + y * 64 + z) / 64 = (w * 64 + x) * 64 + y := by omega
  rw [hfirst, hsecond, hthird, Nat.mul_add_mod_self_right, Nat.mul_add_mod_self_right,
    Nat.mod_eq_of_lt hx, Nat.mod_eq_of_lt hy]
  exact ⟨rfl, rfl, rfl, by omega⟩

theorem ofNat_offset {b : UInt8} {offset digit : Nat} (h : digit = b.toNat - offset)
    (hoffset : offset ≤ b.toNat) : UInt8.ofNat (digit + offset) = b := by
  rw [h, Nat.sub_add_cancel hoffset, UInt8.ofNat_toNat]

section Bytes

variable {a b c d : UInt8}

theorem encode_one (ha : a.toNat < 0x80) :
    String.utf8EncodeChar (Char.ofNat (codePoint [a])) = [a] := by
  have hvalue : codePoint [a] = a.toNat := rfl
  have hvalid : a.toNat.isValidChar := .inl (by omega)
  rw [hvalue, utf8EncodeChar_ofNat hvalid, if_pos (by omega), UInt8.ofNat_toNat]

theorem encode_two (ha : 0xC2 ≤ a.toNat ∧ a.toNat < 0xE0)
    (hb : 0x80 ≤ b.toNat ∧ b.toNat ≤ 0xBF) :
    String.utf8EncodeChar (Char.ofNat (codePoint [a, b])) = [a, b] := by
  obtain ⟨v, hv⟩ : ∃ v, v = codePoint [a, b] := ⟨_, rfl⟩
  have hsum : v = (a.toNat - 0xC0) * 64 + (b.toNat - 0x80) := hv
  rw [← hv, utf8EncodeChar_ofNat (.inl (by omega)), if_neg (by omega), if_pos (by omega),
    ofNat_eq_of_toNat_eq (b := a) (by omega), ofNat_eq_of_toNat_eq (b := b) (by omega)]

theorem encode_three (ha : 0xE0 ≤ a.toNat ∧ a.toNat < 0xF0)
    (hb : lower a.toNat 1 ≤ b.toNat ∧ b.toNat ≤ upper a.toNat 1)
    (hc : 0x80 ≤ c.toNat ∧ c.toNat ≤ 0xBF) :
    String.utf8EncodeChar (Char.ofNat (codePoint [a, b, c])) = [a, b, c] := by
  obtain ⟨hb1, hE0, -⟩ := lower_one a.toNat
  obtain ⟨hb2, hED, -⟩ := upper_one a.toNat
  have hbrange : 0x80 ≤ b.toNat ∧ b.toNat ≤ 0xBF := ⟨hb1.trans hb.1, hb.2.trans hb2⟩
  have hlarge : a.toNat = 0xE0 → 0xA0 ≤ b.toNat := fun h => (hE0 h).trans hb.1
  have hsurrogate : a.toNat = 0xED → b.toNat ≤ 0x9F := fun h => hb.2.trans (hED h)
  clear hE0 hED hb hb1 hb2
  obtain ⟨x, hx⟩ : ∃ x, x = a.toNat - 0xE0 := ⟨_, rfl⟩
  obtain ⟨y, hy⟩ : ∃ y, y = b.toNat - 0x80 := ⟨_, rfl⟩
  obtain ⟨z, hz⟩ : ∃ z, z = c.toNat - 0x80 := ⟨_, rfl⟩
  have hx16 : x < 16 := by omega
  have hy64 : y < 64 := by omega
  have hz64 : z < 64 := by omega
  have hmin : x = 0 → 32 ≤ y := by omega
  have hmax : x = 13 → y < 32 := by omega
  have hvalid : (x * 4096 + y * 64 + z).isValidChar := by
    unfold Nat.isValidChar
    omega
  obtain ⟨hfirst, hsecond, hthird⟩ := digits_three (x := x) hy64 hz64
  rw [codePoint_three, ← hx, ← hy, ← hz, utf8EncodeChar_ofNat hvalid, if_neg (by omega),
    if_neg (by omega), if_pos (by omega), hfirst, hsecond, hthird, Nat.mod_eq_of_lt hx16,
    ofNat_offset hx ha.1, ofNat_offset hy hbrange.1, ofNat_offset hz hc.1]

theorem encode_four (ha : 0xF0 ≤ a.toNat ∧ a.toNat < 0xF5)
    (hb : lower a.toNat 1 ≤ b.toNat ∧ b.toNat ≤ upper a.toNat 1)
    (hc : 0x80 ≤ c.toNat ∧ c.toNat ≤ 0xBF) (hd : 0x80 ≤ d.toNat ∧ d.toNat ≤ 0xBF) :
    String.utf8EncodeChar (Char.ofNat (codePoint [a, b, c, d])) = [a, b, c, d] := by
  obtain ⟨hb1, -, hF0⟩ := lower_one a.toNat
  obtain ⟨hb2, -, hF4⟩ := upper_one a.toNat
  have hbrange : 0x80 ≤ b.toNat ∧ b.toNat ≤ 0xBF := ⟨hb1.trans hb.1, hb.2.trans hb2⟩
  have hlarge : a.toNat = 0xF0 → 0x90 ≤ b.toNat := fun h => (hF0 h).trans hb.1
  have hlast : a.toNat = 0xF4 → b.toNat ≤ 0x8F := fun h => hb.2.trans (hF4 h)
  clear hF0 hF4 hb hb1 hb2
  obtain ⟨w, hw⟩ : ∃ w, w = a.toNat - 0xF0 := ⟨_, rfl⟩
  obtain ⟨x, hx⟩ : ∃ x, x = b.toNat - 0x80 := ⟨_, rfl⟩
  obtain ⟨y, hy⟩ : ∃ y, y = c.toNat - 0x80 := ⟨_, rfl⟩
  obtain ⟨z, hz⟩ : ∃ z, z = d.toNat - 0x80 := ⟨_, rfl⟩
  have hw5 : w < 5 := by omega
  have hx64 : x < 64 := by omega
  have hy64 : y < 64 := by omega
  have hz64 : z < 64 := by omega
  have hmin : w = 0 → 16 ≤ x := by omega
  have hmax : w = 4 → x < 16 := by omega
  have hvalid : (w * 262144 + x * 4096 + y * 64 + z).isValidChar := by
    unfold Nat.isValidChar
    omega
  obtain ⟨hfirst, hsecond, hthird, hfourth⟩ := digits_four (w := w) hx64 hy64 hz64
  rw [codePoint_four, ← hw, ← hx, ← hy, ← hz, utf8EncodeChar_ofNat hvalid, if_neg (by omega),
    if_neg (by omega), if_neg (by omega), hfirst, hsecond, hthird, hfourth,
    Nat.mod_eq_of_lt (hw5.trans (by decide)), ofNat_offset hw ha.1, ofNat_offset hx hbrange.1,
    ofNat_offset hy hc.1, ofNat_offset hz hd.1]

end Bytes

/-! ### Scanning -/

/-- What a scan of the following bytes accepts. -/
def Follow (first : Nat) : Nat → List UInt8 → Prop
  | _, [] => True
  | position, b :: bytes =>
      (lower first position ≤ b.toNat ∧ b.toNat ≤ upper first position) ∧
        Follow first (position + 1) bytes

theorem scanTail_of_follow {first position : Nat} {tail : List UInt8}
    (h : Follow first position tail) (rest : List UInt8) :
    scanTail first position tail.length (tail ++ rest) = .valid (position + tail.length) := by
  induction tail generalizing position with
  | nil => rfl
  | cons b tail ih =>
      rw [List.length_cons, List.cons_append, scanTail, if_pos h.1, ih h.2]
      simp only [Next.valid.injEq]
      omega

theorem scanTail_of_follow_short {first position left : Nat} {bytes : List UInt8}
    (h : Follow first position bytes) (hshort : bytes.length < left) :
    scanTail first position left bytes = .incomplete := by
  induction bytes generalizing position left with
  | nil =>
      cases left with
      | zero => cases hshort
      | succ left => rfl
  | cons b bytes ih =>
      cases left with
      | zero => cases hshort
      | succ left =>
          rw [scanTail, if_pos h.1]
          exact ih h.2 (Nat.lt_of_succ_lt_succ hshort)

theorem Follow.of_append {first position : Nat} {a b : List UInt8}
    (h : Follow first position (a ++ b)) : Follow first position a := by
  induction a generalizing position with
  | nil => trivial
  | cons byte a ih => exact ⟨h.1, ih h.2⟩

theorem follow_of_scanTail_valid {first position left width : Nat} {bytes : List UInt8}
    (h : scanTail first position left bytes = .valid width) :
    width = position + left ∧ ∃ tail rest, bytes = tail ++ rest ∧ tail.length = left ∧
      Follow first position tail := by
  induction left generalizing position bytes with
  | zero =>
      rw [scanTail, Next.valid.injEq] at h
      exact ⟨h.symm, [], bytes, rfl, rfl, trivial⟩
  | succ left ih =>
      cases bytes with
      | nil => cases h
      | cons b bytes =>
          rw [scanTail] at h
          split at h
          case isTrue hb =>
            obtain ⟨hwidth, tail, rest, rfl, hlength, hfollow⟩ := ih h
            exact ⟨by omega, b :: tail, rest, rfl, by simp [hlength], hb, hfollow⟩
          case isFalse => cases h

theorem exists_follow (first position length : Nat) :
    ∃ bytes, bytes.length = length ∧ Follow first position bytes := by
  induction length generalizing position with
  | zero => exact ⟨[], rfl, trivial⟩
  | succ length ih =>
      obtain ⟨bytes, hlength, hfollow⟩ := ih (position + 1)
      have hupper : upper first position < 256 := by
        unfold upper
        split_ifs <;> omega
      have hlower := lower_le_upper first position
      have hbyte : (UInt8.ofNat (lower first position)).toNat = lower first position := by
        rw [UInt8.toNat_ofNat', Nat.mod_eq_of_lt (by omega)]
      refine ⟨UInt8.ofNat (lower first position) :: bytes, by simp [hlength], ?_, hfollow⟩
      rw [hbyte]
      exact ⟨le_rfl, hlower⟩

/-- Bytes that end inside a character can be continued. -/
theorem exists_filler_of_scanTail_incomplete {first position left : Nat} {bytes : List UInt8}
    (h : scanTail first position left bytes = .incomplete) :
    ∃ filler, filler ≠ [] ∧ (bytes ++ filler).length = left ∧
      Follow first position (bytes ++ filler) := by
  induction left generalizing position bytes with
  | zero => cases h
  | succ left ih =>
      cases bytes with
      | nil =>
          obtain ⟨filler, hlength, hfollow⟩ := exists_follow first position (left + 1)
          exact ⟨filler, List.ne_nil_of_length_eq_add_one hlength, hlength, hfollow⟩
      | cons b bytes =>
          rw [scanTail] at h
          split at h
          case isTrue hb =>
            obtain ⟨filler, hne, hlength, hfollow⟩ := ih h
            exact ⟨filler, hne, by simpa using hlength, hb, hfollow⟩
          case isFalse => cases h

/-- The bytes of a character, as they are scanned. -/
def IsChar : List UInt8 → Prop
  | [] => False
  | b :: tail => charWidth b.toNat = tail.length + 1 ∧ Follow b.toNat 1 tail

theorem utf8EncodeChar_of_isChar {bytes : List UInt8} (h : IsChar bytes) :
    String.utf8EncodeChar (Char.ofNat (codePoint bytes)) = bytes := by
  match bytes, h with
  | a :: tail, ⟨hwidth, hfollow⟩ =>
    have hcases := charWidth_eq hwidth
    have hsecond := bounds_of_ne_one a.toNat (show 1 + 1 ≠ 1 by omega)
    have hthird := bounds_of_ne_one a.toNat (show 1 + 1 + 1 ≠ 1 by omega)
    match tail, hfollow with
    | [], _ =>
      simp only [List.length_nil] at hcases
      exact encode_one (by omega)
    | [b], ⟨hb, _⟩ =>
      simp only [List.length_cons, List.length_nil] at hcases
      have hlower := lower_one a.toNat
      have hupper := upper_one a.toNat
      exact encode_two (by omega) (by omega)
    | [b, c], ⟨hb, hc, _⟩ =>
      simp only [List.length_cons, List.length_nil] at hcases
      exact encode_three (by omega) hb (by omega)
    | [b, c, d], ⟨hb, hc, hd, _⟩ =>
      simp only [List.length_cons, List.length_nil] at hcases
      exact encode_four (by omega) hb (by omega) (by omega)
    | _ :: _ :: _ :: _ :: _, _ =>
      simp only [List.length_cons] at hcases
      omega

theorem toNat_ofNat_of_lt {n : Nat} (h : n < 256) : (UInt8.ofNat n).toNat = n := by
  rw [UInt8.toNat_ofNat', Nat.mod_eq_of_lt h]

theorem follow_tail {first : Nat} {tail : List UInt8}
    (h : ∀ b ∈ tail, 0x80 ≤ b.toNat ∧ b.toNat ≤ 0xBF) {position : Nat} (hposition : 1 < position) :
    Follow first position tail := by
  induction tail generalizing position with
  | nil => trivial
  | cons b tail ih =>
      have hbounds := bounds_of_ne_one first (Nat.ne_of_gt hposition)
      have hb := h b List.mem_cons_self
      refine ⟨by omega, ih (fun other hother => h other (List.mem_cons_of_mem b hother)) ?_⟩
      omega

theorem between_bounds_one {first b : Nat} (hb : 0x80 ≤ b ∧ b ≤ 0xBF)
    (hE0 : first = 0xE0 → 0xA0 ≤ b) (hED : first = 0xED → b ≤ 0x9F)
    (hF0 : first = 0xF0 → 0x90 ≤ b) (hF4 : first = 0xF4 → b ≤ 0x8F) :
    lower first 1 ≤ b ∧ b ≤ upper first 1 := by
  unfold lower upper
  split_ifs <;> omega

theorem codePoint_digits_three (v : Nat) (h : v ≤ 0xffff) :
    (v / 4096 % 0x10 + 0xe0 - 0xE0) * 4096 + (v / 64 % 0x40 + 0x80 - 0x80) * 64 +
      (v % 0x40 + 0x80 - 0x80) = v := by
  simp only [Nat.add_sub_cancel]
  omega

theorem codePoint_digits_four (v : Nat) (h : v < 0x110000) :
    (v / 262144 % 0x08 + 0xf0 - 0xF0) * 262144 + (v / 4096 % 0x40 + 0x80 - 0x80) * 4096 +
      (v / 64 % 0x40 + 0x80 - 0x80) * 64 + (v % 0x40 + 0x80 - 0x80) = v := by
  simp only [Nat.add_sub_cancel]
  omega

/-- The encoding of a character is scanned as one, with its number. -/
theorem isChar_utf8EncodeChar (c : Char) :
    IsChar (String.utf8EncodeChar c) ∧ codePoint (String.utf8EncodeChar c) = c.toNat := by
  obtain ⟨v, hv⟩ : ∃ v, v = c.toNat := ⟨_, rfl⟩
  have hvalid : v.isValidChar := hv ▸ c.valid
  have hencode := utf8EncodeChar_ofNat hvalid
  rw [hv, Char.ofNat_toNat, ← hv] at hencode
  have hbound : v < 0xD800 ∨ 0xDFFF < v ∧ v < 0x110000 := hvalid
  have hcontinuation : ∀ n, 0x80 ≤ (UInt8.ofNat (n % 0x40 + 0x80)).toNat ∧
      (UInt8.ofNat (n % 0x40 + 0x80)).toNat ≤ 0xBF ∧
      (UInt8.ofNat (n % 0x40 + 0x80)).toNat = n % 0x40 + 0x80 := by
    intro n
    rw [toNat_ofNat_of_lt (by omega)]
    omega
  have htail : ∀ m n, ∀ b ∈ [UInt8.ofNat (m % 0x40 + 0x80), UInt8.ofNat (n % 0x40 + 0x80)],
      0x80 ≤ b.toNat ∧ b.toNat ≤ 0xBF := by
    intro m n b hb
    have hm := hcontinuation m
    have hn := hcontinuation n
    rcases List.mem_cons.mp hb with rfl | hb
    · exact ⟨hm.1, hm.2.1⟩
    · rw [List.mem_singleton.mp hb]
      exact ⟨hn.1, hn.2.1⟩
  have hlast := hcontinuation v
  have hmiddle := hcontinuation (v / 64)
  have hsecond := hcontinuation (v / 4096)
  rw [hencode, ← hv]
  split_ifs with hone htwo hthree
  · have hfirst : (UInt8.ofNat v).toNat = v := toNat_ofNat_of_lt (by omega)
    refine ⟨⟨?_, trivial⟩, hfirst⟩
    rw [hfirst, charWidth, if_pos (by omega)]
    rfl
  · have hfirst : (UInt8.ofNat (v / 64 % 0x20 + 0xc0)).toNat = v / 64 % 0x20 + 0xc0 :=
      toNat_ofNat_of_lt (by omega)
    refine ⟨⟨?_, ?_, trivial⟩, ?_⟩
    · rw [hfirst]
      exact charWidth_two (by omega)
    · rw [hfirst, hlast.2.2]
      apply between_bounds_one <;> omega
    · rw [codePoint_two]
      omega
  · have hfirst : (UInt8.ofNat (v / 4096 % 0x10 + 0xe0)).toNat = v / 4096 % 0x10 + 0xe0 :=
      toNat_ofNat_of_lt (by omega)
    refine ⟨⟨?_, ?_, follow_tail (fun b hb => htail v v b ?_) Nat.one_lt_two⟩, ?_⟩
    · rw [hfirst]
      exact charWidth_three (by omega)
    · rw [hfirst, hmiddle.2.2]
      apply between_bounds_one <;> omega
    · exact List.mem_cons_of_mem _ hb
    · rw [codePoint_three, hfirst, hmiddle.2.2, hlast.2.2]
      exact codePoint_digits_three v hthree
  · have hfirst : (UInt8.ofNat (v / 262144 % 0x08 + 0xf0)).toNat = v / 262144 % 0x08 + 0xf0 :=
      toNat_ofNat_of_lt (by omega)
    refine ⟨⟨?_, ?_, follow_tail (htail (v / 64) v) Nat.one_lt_two⟩, ?_⟩
    · rw [hfirst]
      exact charWidth_four (by omega)
    · rw [hfirst, hsecond.2.2]
      apply between_bounds_one <;> omega
    · rw [codePoint_four, hfirst, hsecond.2.2, hmiddle.2.2, hlast.2.2]
      exact codePoint_digits_four v (by omega)

theorem utf8EncodeChar_ne_nil (c : Char) : String.utf8EncodeChar c ≠ [] := by
  intro h
  have hchar := (isChar_utf8EncodeChar c).1
  rw [h] at hchar
  exact hchar

theorem nextChar_of_isChar {char : List UInt8} (h : IsChar char) (rest : List UInt8) :
    nextChar (char ++ rest) = .valid char.length := by
  cases char with
  | nil => exact h.elim
  | cons b tail =>
      obtain ⟨hwidth, hfollow⟩ := h
      rw [List.cons_append, nextChar, hwidth]
      dsimp only
      rw [scanTail_of_follow hfollow, List.length_cons, Nat.add_comm]

theorem isChar_of_nextChar_valid {bytes : List UInt8} {width : Nat}
    (h : nextChar bytes = .valid width) :
    ∃ char rest, bytes = char ++ rest ∧ char.length = width ∧ IsChar char := by
  cases bytes with
  | nil => cases h
  | cons b bytes =>
      rw [nextChar] at h
      split at h
      case h_1 => cases h
      case h_2 left hwidth =>
        obtain ⟨rfl, tail, rest, rfl, hlength, hfollow⟩ := follow_of_scanTail_valid h
        refine ⟨b :: tail, rest, rfl, by simp [hlength, Nat.add_comm], ?_, hfollow⟩
        rw [hwidth, hlength]

theorem isChar_of_nextChar_incomplete {bytes : List UInt8} (h : nextChar bytes = .incomplete) :
    ∃ filler, filler ≠ [] ∧ IsChar (bytes ++ filler) := by
  cases bytes with
  | nil =>
      refine ⟨String.utf8EncodeChar 'a', utf8EncodeChar_ne_nil 'a', ?_⟩
      exact (isChar_utf8EncodeChar 'a').1
  | cons b bytes =>
      rw [nextChar] at h
      split at h
      case h_1 => cases h
      case h_2 left hwidth =>
        obtain ⟨filler, hne, hlength, hfollow⟩ := exists_filler_of_scanTail_incomplete h
        refine ⟨filler, hne, ?_, hfollow⟩
        show charWidth b.toNat = (bytes ++ filler).length + 1
        rw [hwidth, hlength]

/-! ### Validation -/

/-- `Utf8Error`. -/
structure Utf8Error where
  validUpTo : Nat
  errorLen : Option Nat
deriving DecidableEq, Repr

/-- `std::str::from_utf8`, with what was validated before. -/
def fromUtf8From (validUpTo : Nat) (bytes : List UInt8) : Except Utf8Error Text :=
  if bytes = [] then .ok []
  else
    match _hnext : nextChar bytes with
    | .valid width =>
        (fromUtf8From (validUpTo + width) (bytes.drop width)).map fun text =>
          Char.ofNat (codePoint (bytes.take width)) :: text
    | .invalid errorLen => .error { validUpTo, errorLen := some errorLen }
    | .incomplete => .error { validUpTo, errorLen := none }
termination_by bytes.length
decreasing_by
  obtain ⟨char, rest, rfl, rfl, hchar⟩ := isChar_of_nextChar_valid _hnext
  cases char with
  | nil => exact hchar.elim
  | cons b tail => simp

def fromUtf8 (bytes : List UInt8) : Except Utf8Error Text := fromUtf8From 0 bytes

theorem fromUtf8From_encode_append (validUpTo : Nat) (text : Text) (rest : List UInt8) :
    fromUtf8From validUpTo (encode text ++ rest) =
      (fromUtf8From (validUpTo + (encode text).length) rest).map (text ++ ·) := by
  induction text generalizing validUpTo with
  | nil =>
      rw [encode_nil, List.nil_append, List.length_nil, Nat.add_zero]
      cases fromUtf8From validUpTo rest <;> rfl
  | cons c text ih =>
      obtain ⟨hchar, hcode⟩ := isChar_utf8EncodeChar c
      have hnext := nextChar_of_isChar hchar (encode text ++ rest)
      rw [encode_cons, List.append_assoc, fromUtf8From,
        if_neg (List.append_ne_nil_of_left_ne_nil (utf8EncodeChar_ne_nil c) _)]
      split
      case h_1 width hwidth =>
        rw [hnext, Next.valid.injEq] at hwidth
        subst hwidth
        rw [List.drop_left, List.take_left, ih, hcode, Char.ofNat_toNat, List.length_append,
          Nat.add_assoc]
        cases fromUtf8From (validUpTo + ((String.utf8EncodeChar c).length +
          (encode text).length)) rest <;> rfl
      case h_2 hwidth => rw [hnext] at hwidth; cases hwidth
      case h_3 hwidth => rw [hnext] at hwidth; cases hwidth

theorem fromUtf8_encode (text : Text) : fromUtf8 (encode text) = .ok text := by
  have happend := fromUtf8From_encode_append 0 text []
  rw [List.append_nil] at happend
  rw [fromUtf8, happend, fromUtf8From, if_pos rfl]
  simp [Except.map]

/-- Bytes inside a character, short of its end. -/
def Incomplete (bytes : List UInt8) : Prop :=
  ∃ c, bytes <+: String.utf8EncodeChar c ∧ bytes ≠ String.utf8EncodeChar c

theorem incomplete_nil : Incomplete [] :=
  ⟨'a', List.nil_prefix, (utf8EncodeChar_ne_nil 'a').symm⟩

theorem Incomplete.length_lt {bytes : List UInt8} (h : Incomplete bytes) : bytes.length < 4 := by
  obtain ⟨c, hstart, hne⟩ := h
  have hlength := String.length_utf8EncodeChar c
  have hsize := c.utf8Size_le_four
  have hlt : bytes.length < (String.utf8EncodeChar c).length := by
    refine lt_of_le_of_ne hstart.length_le fun heq => hne ?_
    exact hstart.eq_of_length heq
  omega

theorem nextChar_of_incomplete {bytes : List UInt8} (h : Incomplete bytes) (hne : bytes ≠ []) :
    nextChar bytes = .incomplete := by
  obtain ⟨c, ⟨more, hmore⟩, hproper⟩ := h
  have hchar := (isChar_utf8EncodeChar c).1
  rw [← hmore] at hchar hproper
  have hmoreNe : more ≠ [] := by
    rintro rfl
    exact hproper (List.append_nil bytes).symm
  have hpos : 0 < more.length := List.length_pos_iff.mpr hmoreNe
  cases bytes with
  | nil => exact absurd rfl hne
  | cons b tail =>
      obtain ⟨hwidth, hfollow⟩ := hchar
      change charWidth b.toNat = (tail ++ more).length + 1 at hwidth
      rw [nextChar, hwidth]
      dsimp only
      refine scanTail_of_follow_short hfollow.of_append ?_
      rw [List.length_append]
      omega

theorem fromUtf8_of_incomplete {bytes : List UInt8} (h : Incomplete bytes) (hne : bytes ≠ []) :
    fromUtf8 bytes = .error { validUpTo := 0, errorLen := none } := by
  have hnext := nextChar_of_incomplete h hne
  rw [fromUtf8, fromUtf8From, if_neg hne]
  split
  case h_1 hother => rw [hnext] at hother; cases hother
  case h_2 hother => rw [hnext] at hother; cases hother
  case h_3 => rfl

/-- No character is the beginning of another one. -/
theorem Incomplete.not_prefix {bytes : List UInt8} (h : Incomplete bytes) (c : Char) :
    ¬ String.utf8EncodeChar c <+: bytes := by
  rintro hc
  obtain ⟨d, hstart, hne⟩ := h
  obtain ⟨rest, hrest⟩ := hc.trans hstart
  have hshort := nextChar_of_isChar (isChar_utf8EncodeChar c).1 rest
  have hlong := nextChar_of_isChar (isChar_utf8EncodeChar d).1 []
  rw [List.append_nil] at hlong
  rw [hrest, hlong, Next.valid.injEq] at hshort
  have hle := hc.length_le
  exact hne (hstart.eq_of_length (Nat.le_antisymm hstart.length_le (hshort ▸ hle)))

/-- Every result of a validation: a text for its encoding, or a valid beginning and what stands
after it, which is the beginning of a character if no length is given. -/
theorem fromUtf8From_cases (validUpTo : Nat) (bytes : List UInt8) :
    (∃ text, fromUtf8From validUpTo bytes = .ok text ∧ bytes = encode text) ∨
    (∃ text rest errorLen, bytes = encode text ++ rest ∧ rest ≠ [] ∧
      fromUtf8From validUpTo bytes =
        .error { validUpTo := validUpTo + (encode text).length, errorLen } ∧
      (errorLen = none → Incomplete rest)) := by
  induction hlength : bytes.length using Nat.strong_induction_on generalizing validUpTo bytes with
  | _ n ih =>
    by_cases hnil : bytes = []
    · refine .inl ⟨[], ?_, hnil⟩
      rw [fromUtf8From, if_pos hnil]
    · rw [fromUtf8From, if_neg hnil]
      split
      case h_1 width hnext =>
        obtain ⟨char, rest, rfl, rfl, hchar⟩ := isChar_of_nextChar_valid hnext
        have hcode := utf8EncodeChar_of_isChar hchar
        have hshorter : rest.length < n := by
          cases char with
          | nil => exact hchar.elim
          | cons b tail =>
              rw [← hlength]
              simp
        rw [List.drop_left, List.take_left]
        rcases ih rest.length hshorter (validUpTo + char.length) rest rfl with
          ⟨text, hresult, hrest⟩ | ⟨text, tail, errorLen, hrest, hne, hresult, hincomplete⟩
        · refine .inl ⟨Char.ofNat (codePoint char) :: text, ?_, ?_⟩
          · rw [hresult, Except.map]
          · rw [encode_cons, hcode, ← hrest]
        · refine .inr ⟨Char.ofNat (codePoint char) :: text, tail, errorLen, ?_, hne, ?_,
            hincomplete⟩
          · rw [encode_cons, hcode, List.append_assoc, ← hrest]
          · rw [hresult, Except.map, encode_cons, hcode, List.length_append, Nat.add_assoc]
      case h_2 errorLen _ =>
        exact .inr ⟨[], bytes, some errorLen, rfl, hnil, rfl, fun h => by cases h⟩
      case h_3 hnext =>
        refine .inr ⟨[], bytes, none, rfl, hnil, rfl, fun _ => ?_⟩
        obtain ⟨filler, hfiller, hchar⟩ := isChar_of_nextChar_incomplete hnext
        have hcode := utf8EncodeChar_of_isChar hchar
        refine ⟨_, ⟨filler, hcode.symm⟩, ?_⟩
        rw [hcode]
        exact fun h => hfiller (List.self_eq_append_right.mp h)

theorem fromUtf8_cases (bytes : List UInt8) :
    (∃ text, fromUtf8 bytes = .ok text ∧ bytes = encode text) ∨
    (∃ text rest errorLen, bytes = encode text ++ rest ∧ rest ≠ [] ∧
      fromUtf8 bytes = .error { validUpTo := (encode text).length, errorLen } ∧
      (errorLen = none → Incomplete rest)) := by
  have hcases := fromUtf8From_cases 0 bytes
  rw [← fromUtf8] at hcases
  simpa only [Nat.zero_add] using hcases

/-- The valid beginning before an incomplete character is the longest one. -/
theorem encode_prefix_of_incomplete {text other : Text} {rest : List UInt8}
    (hrest : Incomplete rest) (h : encode other <+: encode text ++ rest) :
    encode other <+: encode text := by
  rcases List.prefix_or_prefix_of_prefix h (List.prefix_append _ _) with hshort | ⟨more, hmore⟩
  · exact hshort
  · have hmoreRest : more <+: rest := by
      rw [← hmore] at h
      exact (List.prefix_append_right_inj _).mp h
    have hresult := fromUtf8From_encode_append 0 text more
    rw [hmore, ← fromUtf8, fromUtf8_encode] at hresult
    rcases fromUtf8From_cases (0 + (encode text).length) more with
      ⟨tail, -, htail⟩ | ⟨_, _, _, _, _, herror, _⟩
    · cases tail with
      | nil =>
          rw [encode_nil] at htail
          rw [← hmore, htail, List.append_nil]
      | cons c tail =>
          refine absurd ?_ (hrest.not_prefix c)
          refine List.IsPrefix.trans ?_ hmoreRest
          rw [htail, encode_cons]
          exact List.prefix_append _ _
    · rw [herror] at hresult
      cases hresult

end Codewith.Lib.Utf8
