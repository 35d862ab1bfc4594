import Codewith.Lib.Decimal
import Codewith.Lib.Text

/-!
# Addresses and what is written for them

The value of an IP literal, as the standard library reads it.  Each reader returns what it has
read and what follows.  An IPv4 address is written in one way only; an IPv6 address is not.
-/

namespace Codewith.Lib

inductive IpAddr
  | v4 (a b c d : UInt8)
  | v6 (segments : Vector UInt16 8)
  deriving DecidableEq

namespace IpAddr

/-! ## Readers -/

def isHexDigit (c : Char) : Bool :=
  c.isDigit || ('a' ≤ c && c ≤ 'f') || ('A' ≤ c && c ≤ 'F')

/-- A decimal number of at most 255, without a leading zero. -/
def readOctet (s : Text) : Option (Nat × Text) :=
  let digits := s.takeWhile Char.isDigit
  if digits = [] ∨ 3 < digits.length ∨ (digits.head? = some '0' ∧ 1 < digits.length) ∨
      255 < Nat.ofDigitChars 10 digits 0 then none
  else some (Nat.ofDigitChars 10 digits 0, s.drop digits.length)

def readChar (c : Char) : Text → Option Text
  | [] => none
  | d :: s => if d = c then some s else none

def readOctetAfterDot (s : Text) : Option (Nat × Text) := (readChar '.' s).bind readOctet

def readIpv4 (s : Text) : Option ((Nat × Nat × Nat × Nat) × Text) := do
  let (a, s) ← readOctet s
  let (b, s) ← readOctetAfterDot s
  let (c, s) ← readOctetAfterDot s
  let (d, s) ← readOctetAfterDot s
  return ((a, b, c, d), s)

def hexDigitValue (c : Char) : Nat :=
  if c.isDigit then c.toNat - '0'.toNat
  else if c.isUpper then c.toNat - 'A'.toNat + 10
  else c.toNat - 'a'.toNat + 10

/-- At most four hexadecimal digits. -/
def readGroup (s : Text) : Option (Nat × Text) :=
  let digits := s.takeWhile isHexDigit
  if digits = [] ∨ 4 < digits.length then none
  else some (digits.foldl (fun n c => 16 * n + hexDigitValue c) 0, s.drop digits.length)

/-- The colon before every group but the first. -/
def readSeparator (index : Nat) (s : Text) : Option Text :=
  if index = 0 then some s else readChar ':' s

/-- The groups from an index up to a limit, whether the last two of them were an IPv4 address, and
what follows. -/
def readGroups (limit : Nat) : Nat → Nat → Text → List Nat × Bool × Text
  | 0, _, s => ([], false, s)
  | rounds + 1, index, s =>
      match (if index + 1 < limit then (readSeparator index s).bind readIpv4 else none) with
      | some ((a, b, c, d), rest) => ([256 * a + b, 256 * c + d], true, rest)
      | none =>
          match (readSeparator index s).bind readGroup with
          | some (group, rest) =>
              let (groups, ipv4, rest) := readGroups limit rounds (index + 1) rest
              (group :: groups, ipv4, rest)
          | none => ([], false, s)

/-- Two colons stand once for groups of zeros. -/
def readIpv6 (s : Text) : Option (List Nat × Text) :=
  let (head, headIpv4, rest) := readGroups 8 8 0 s
  if head.length = 8 then some (head, rest)
  else if headIpv4 then none
  else do
    let rest ← readChar ':' rest
    let rest ← readChar ':' rest
    let limit := 8 - (head.length + 1)
    let (tail, _, rest) := readGroups limit limit 0 rest
    return (head ++ List.replicate (8 - head.length - tail.length) 0 ++ tail, rest)

def ofSegments (segments : List Nat) : IpAddr :=
  .v6 (Vector.ofFn fun i => UInt16.ofNat (segments.getD i 0))

/-- `read_ip_addr`: what reads as an IPv4 address is not tried as an IPv6 address. -/
def readIpAddr (s : Text) : Option (IpAddr × Text) :=
  match readIpv4 s with
  | some ((a, b, c, d), rest) =>
      some (.v4 (UInt8.ofNat a) (UInt8.ofNat b) (UInt8.ofNat c) (UInt8.ofNat d), rest)
  | none => (readIpv6 s).map fun (segments, rest) => (ofSegments segments, rest)

/-- `parse::<IpAddr>()`. -/
def parse (s : Text) : Option IpAddr :=
  (readIpAddr s).bind fun (ip, rest) => if rest = [] then some ip else none

def isIpAddr (s : Text) : Bool := (parse s).isSome

example : parse "2001:DB8::1".toList = parse "2001:0db8:0:0::0.0.0.1".toList ∧
    parse "127.0.0.1".toList = some (.v4 127 0 0 1) ∧ parse "127.1".toList = none ∧
    parse "1:2:3:4:5:6:7".toList = none := by decide +kernel

/-! ## Kinds of addresses -/

/-- The segments as a list, to be matched. -/
def segmentList (segments : Vector UInt16 8) : List UInt16 := segments.toList

def isLoopback : IpAddr → Bool
  | v4 a _ _ _ => a = 127
  | v6 segments => segmentList segments = [0, 0, 0, 0, 0, 0, 0, 1]

/-- An address with an IPv4 address in its last two segments and nothing, or a mark, before it. -/
def toIpv4 (segments : Vector UInt16 8) : Option (UInt8 × UInt8 × UInt8 × UInt8) :=
  match segmentList segments with
  | [0, 0, 0, 0, 0, mark, high, low] =>
      if mark = 0 ∨ mark = 0xffff then
        some ((high >>> 8).toUInt8, high.toUInt8, (low >>> 8).toUInt8, low.toUInt8)
      else none
  | _ => none

/-! ## What a literal is made of -/

def isLiteralChar (c : Char) : Bool := isHexDigit c || c = ':' || c = '.'

/-- What was read up to the rest could be of a literal. -/
def Reads (s rest : Text) : Prop := ∃ read, s = read ++ rest ∧ ∀ c ∈ read, isLiteralChar c = true

namespace Reads

variable {s mid rest : Text}

theorem refl (s : Text) : Reads s s := ⟨[], rfl, by simp⟩

theorem trans (h : Reads s mid) (h' : Reads mid rest) : Reads s rest := by
  obtain ⟨read, rfl, hread⟩ := h
  obtain ⟨read', rfl, hread'⟩ := h'
  refine ⟨read ++ read', by rw [List.append_assoc], ?_⟩
  intro c hc
  exact (List.mem_append.mp hc).elim (hread c) (hread' c)

theorem of_takeWhile {p : Char → Bool} (hp : ∀ c, p c = true → isLiteralChar c = true) :
    Reads s (s.drop (s.takeWhile p).length) :=
  ⟨s.takeWhile p, (List.prefix_iff_eq_append.mp (List.takeWhile_prefix p)).symm,
    fun c hc => hp c (List.mem_takeWhile_imp hc)⟩

end Reads

section Chars

variable {s rest : Text}

theorem reads_of_readChar {c : Char} (hc : isLiteralChar c = true)
    (h : readChar c s = some rest) : Reads s rest := by
  cases s with
  | nil => cases h
  | cons d s =>
      rw [readChar] at h
      split_ifs at h with hd
      · obtain rfl := Option.some_inj.mp h
        exact ⟨[d], rfl, by simpa [hd] using hc⟩

theorem reads_of_readOctet {n : Nat} (h : readOctet s = some (n, rest)) : Reads s rest := by
  simp only [readOctet] at h
  split_ifs at h
  obtain ⟨-, rfl⟩ := Prod.mk.inj (Option.some_inj.mp h)
  apply Reads.of_takeWhile
  intro c hc
  simp [isLiteralChar, isHexDigit, hc]

theorem reads_of_readOctetAfterDot {n : Nat} (h : readOctetAfterDot s = some (n, rest)) :
    Reads s rest := by
  obtain ⟨mid, hdot, hoctet⟩ := Option.bind_eq_some_iff.mp h
  exact (reads_of_readChar (by decide) hdot).trans (reads_of_readOctet hoctet)

theorem reads_of_readIpv4 {found : Nat × Nat × Nat × Nat} (h : readIpv4 s = some (found, rest)) :
    Reads s rest := by
  simp only [readIpv4, bind, pure, Option.bind_eq_some_iff, Option.some.injEq] at h
  obtain ⟨⟨n₁, s₁⟩, h₁, ⟨n₂, s₂⟩, h₂, ⟨n₃, s₃⟩, h₃, ⟨n₄, s₄⟩, h₄, heq⟩ := h
  obtain ⟨-, rfl⟩ := Prod.mk.inj heq
  exact ((reads_of_readOctet h₁).trans (reads_of_readOctetAfterDot h₂)).trans
    ((reads_of_readOctetAfterDot h₃).trans (reads_of_readOctetAfterDot h₄))

theorem reads_of_readGroup {n : Nat} (h : readGroup s = some (n, rest)) : Reads s rest := by
  simp only [readGroup] at h
  split_ifs at h
  obtain ⟨-, rfl⟩ := Prod.mk.inj (Option.some_inj.mp h)
  apply Reads.of_takeWhile
  intro c hc
  simp [isLiteralChar, hc]

theorem reads_of_readSeparator {index : Nat} (h : readSeparator index s = some rest) :
    Reads s rest := by
  rw [readSeparator] at h
  split_ifs at h
  · obtain rfl := Option.some_inj.mp h
    exact Reads.refl _
  · exact reads_of_readChar (by decide) h

theorem reads_of_readGroups (limit rounds index : Nat) (s : Text) :
    Reads s (readGroups limit rounds index s).2.2 := by
  induction rounds generalizing index s with
  | zero => exact Reads.refl s
  | succ rounds ih =>
      rw [readGroups]
      split
      · next hipv4 =>
          split_ifs at hipv4
          obtain ⟨mid, hseparator, hread⟩ := Option.bind_eq_some_iff.mp hipv4
          exact (reads_of_readSeparator hseparator).trans (reads_of_readIpv4 hread)
      · split
        · next hgroup =>
            obtain ⟨mid, hseparator, hread⟩ := Option.bind_eq_some_iff.mp hgroup
            exact ((reads_of_readSeparator hseparator).trans (reads_of_readGroup hread)).trans
              (ih _ _)
        · exact Reads.refl s

theorem reads_of_readIpv6 {segments : List Nat} (h : readIpv6 s = some (segments, rest)) :
    Reads s rest := by
  simp only [readIpv6] at h
  have hhead := reads_of_readGroups 8 8 0 s
  split_ifs at h
  · obtain ⟨-, rfl⟩ := Prod.mk.inj (Option.some_inj.mp h)
    exact hhead
  · simp only [bind, pure, Option.bind_eq_some_iff, Option.some.injEq] at h
    obtain ⟨first, hfirst, second, hsecond, heq⟩ := h
    obtain ⟨-, rfl⟩ := Prod.mk.inj heq
    exact ((hhead.trans (reads_of_readChar (by decide) hfirst)).trans
      (reads_of_readChar (by decide) hsecond)).trans (reads_of_readGroups _ _ _ _)

theorem isLiteralChar_of_parse {ip : IpAddr} (h : parse s = some ip) :
    ∀ c ∈ s, isLiteralChar c = true := by
  rw [parse, readIpAddr, Option.bind_eq_some_iff] at h
  obtain ⟨⟨found, rest⟩, hread, hrest⟩ := h
  dsimp only at hrest
  split_ifs at hrest with hnil
  subst hnil
  have hreads : Reads s [] := by
    split at hread
    · next hipv4 =>
        obtain ⟨-, rfl⟩ := Prod.mk.inj (Option.some_inj.mp hread)
        exact reads_of_readIpv4 hipv4
    · obtain ⟨⟨segments, last⟩, hipv6, heq⟩ := Option.map_eq_some_iff.mp hread
      obtain ⟨-, rfl⟩ := Prod.mk.inj heq
      exact reads_of_readIpv6 hipv6
  obtain ⟨read, rfl, hall⟩ := hreads
  rwa [List.append_nil]

theorem ne_nil_of_parse {ip : IpAddr} (h : parse s = some ip) : s ≠ [] := by
  rintro rfl
  have hnone : parse [] = none := by decide
  rw [hnone] at h
  cases h

end Chars

/-! ## IPv4 addresses are written in one way -/

section Unique

variable {s rest : Text} {n : Nat}

theorem eq_of_readOctet (h : readOctet s = some (n, rest)) :
    s = Nat.toDigits 10 n ++ rest ∧ n < 256 := by
  simp only [readOctet] at h
  split_ifs at h with hbad
  obtain ⟨rfl, rfl⟩ := Prod.mk.inj (Option.some_inj.mp h)
  simp only [not_or, not_and, not_lt] at hbad
  obtain ⟨hne, -, hlead, hvalue⟩ := hbad
  constructor
  · rw [Decimal.toDigits_ofDigitChars (fun c hc => List.mem_takeWhile_imp hc) hne hlead]
    exact (List.prefix_iff_eq_append.mp (List.takeWhile_prefix _)).symm
  · exact Nat.lt_succ_of_le hvalue

theorem eq_of_readOctetAfterDot (h : readOctetAfterDot s = some (n, rest)) :
    s = '.' :: Nat.toDigits 10 n ++ rest ∧ n < 256 := by
  cases s with
  | nil => cases h
  | cons c s =>
      rw [readOctetAfterDot, readChar] at h
      split_ifs at h with hdot
      · obtain ⟨rfl, hlt⟩ := eq_of_readOctet (s := s) h
        exact ⟨by rw [hdot]; rfl, hlt⟩
      · cases h

def formatIpv4 (a b c d : UInt8) : Text :=
  Nat.toDigits 10 a.toNat ++ '.' :: Nat.toDigits 10 b.toNat ++ '.' :: Nat.toDigits 10 c.toNat ++
    '.' :: Nat.toDigits 10 d.toNat

/-- The text of an IPv4 address is the one that it is written as. -/
theorem eq_formatIpv4_of_parse {a b c d : UInt8} (h : parse s = some (.v4 a b c d)) :
    s = formatIpv4 a b c d := by
  rw [parse, readIpAddr, Option.bind_eq_some_iff] at h
  obtain ⟨⟨ip, rest⟩, hread, hrest⟩ := h
  dsimp only at hrest
  split_ifs at hrest with hnil
  subst hnil
  obtain rfl := Option.some_inj.mp hrest
  cases hipv4 : readIpv4 s with
  | none =>
      rw [hipv4] at hread
      obtain ⟨found, -, heq⟩ := Option.map_eq_some_iff.mp hread
      cases heq
  | some found =>
      simp only [readIpv4, bind, pure, Option.bind_eq_some_iff, Option.some.injEq] at hipv4
      obtain ⟨⟨n₁, s₁⟩, h₁, ⟨n₂, s₂⟩, h₂, ⟨n₃, s₃⟩, h₃, ⟨n₄, s₄⟩, h₄, rfl⟩ := hipv4
      simp only [readIpv4, h₁, h₂, h₃, h₄, bind, pure, Option.bind_some, Option.some.injEq,
        Prod.mk.injEq, v4.injEq] at hread
      obtain ⟨⟨rfl, rfl, rfl, rfl⟩, rfl⟩ := hread
      obtain ⟨rfl, hlt₁⟩ := eq_of_readOctet h₁
      obtain ⟨rfl, hlt₂⟩ := eq_of_readOctetAfterDot h₂
      obtain ⟨rfl, hlt₃⟩ := eq_of_readOctetAfterDot h₃
      obtain ⟨rfl, hlt₄⟩ := eq_of_readOctetAfterDot h₄
      simp only [formatIpv4, UInt8.toNat_ofNat_of_lt' hlt₁, UInt8.toNat_ofNat_of_lt' hlt₂,
        UInt8.toNat_ofNat_of_lt' hlt₃, UInt8.toNat_ofNat_of_lt' hlt₄]
      simp

end Unique

end IpAddr

end Codewith.Lib
