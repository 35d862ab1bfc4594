import Codewith.Lib.ByteSize

/-!
# Ranges of bytes

A position in a text may only be used where it stands between two characters.  Reading or
replacing a range of bytes fails elsewhere.
-/

namespace Codewith.Lib.Text

/-! ### Boundaries -/

/-- `is_char_boundary`. -/
def IsBoundary (s : Text) (p : Nat) : Prop := byteSize (takeBytes p s) = p

instance (s : Text) (p : Nat) : Decidable (IsBoundary s p) := inferInstanceAs (Decidable (_ = _))

def dropBytes (p : Nat) (s : Text) : Text := s.drop (takeBytes p s).length

theorem takeBytes_append_dropBytes (p : Nat) (s : Text) : takeBytes p s ++ dropBytes p s = s :=
  List.prefix_iff_eq_append.mp <| takeBytes_prefix p s

theorem takeBytes_byteSize_append (a b : Text) : takeBytes (byteSize a) (a ++ b) = a := by
  refine (eq_of_prefix_of_byteSize_le (prefix_takeBytes (List.prefix_append a b) le_rfl) ?_).symm
  exact byteSize_takeBytes_le _ _

theorem dropBytes_byteSize_append (a b : Text) : dropBytes (byteSize a) (a ++ b) = b := by
  rw [dropBytes, takeBytes_byteSize_append, List.drop_left]

theorem isBoundary_iff {s : Text} {p : Nat} :
    IsBoundary s p ↔ ∃ a b, s = a ++ b ∧ byteSize a = p := by
  constructor
  · intro h
    exact ⟨takeBytes p s, dropBytes p s, (takeBytes_append_dropBytes p s).symm, h⟩
  · rintro ⟨a, b, rfl, rfl⟩
    rw [IsBoundary, takeBytes_byteSize_append]

theorem isBoundary_byteSize_append (a b : Text) : IsBoundary (a ++ b) (byteSize a) :=
  isBoundary_iff.mpr ⟨a, b, rfl, rfl⟩

theorem isBoundary_zero (s : Text) : IsBoundary s 0 := isBoundary_byteSize_append [] s

theorem isBoundary_byteSize (s : Text) : IsBoundary s (byteSize s) :=
  isBoundary_iff.mpr ⟨s, [], (List.append_nil s).symm, rfl⟩

theorem IsBoundary.le {s : Text} {p : Nat} (h : IsBoundary s p) : p ≤ byteSize s := by
  rw [← h]
  exact byteSize_le_of_prefix <| takeBytes_prefix p s

theorem isBoundary_byteSize_takeBytes (p : Nat) (s : Text) :
    IsBoundary s (byteSize (takeBytes p s)) :=
  isBoundary_iff.mpr ⟨_, _, (takeBytes_append_dropBytes p s).symm, rfl⟩

theorem isBoundary_byteSize_spanBytes (p : Nat) (s : Text) :
    IsBoundary s (byteSize (spanBytes p s).1) :=
  isBoundary_iff.mpr ⟨_, _, (spanBytes_append p s).symm, rfl⟩

/-- The parts of a text before a smaller and a greater boundary. -/
theorem exists_between {s a b : Text} {p : Nat} (hs : s = a ++ b) (hp : IsBoundary s p)
    (hle : p ≤ byteSize a) : ∃ c d, a = c ++ d ∧ byteSize c = p := by
  obtain ⟨c, e, hce, rfl⟩ := isBoundary_iff.mp hp
  have hprefix : c <+: a := by
    rcases List.prefix_or_prefix_of_prefix (⟨e, hce.symm⟩ : c <+: s) (⟨b, hs.symm⟩ : a <+: s) with
      hca | hac
    · exact hca
    · rw [eq_of_prefix_of_byteSize_le hac hle]
  obtain ⟨d, rfl⟩ := hprefix
  exact ⟨c, d, rfl, rfl⟩

/-! ### Ranges -/

/-- `get(a..b)`, and where it is `None`, indexing panics. -/
def slice (s : Text) (a b : Nat) : Option Text :=
  if a ≤ b ∧ IsBoundary s a ∧ IsBoundary s b then some (dropBytes a (takeBytes b s)) else none

/-- `replace_range`, which panics beyond the text and inside a character. -/
def replaceRange (s : Text) (a b : Nat) (inserted : Text) : Option Text :=
  if a ≤ b ∧ IsBoundary s a ∧ IsBoundary s b then
    some (takeBytes a s ++ inserted ++ dropBytes b s)
  else none

theorem exists_of_isBoundary {s : Text} {a b : Nat} (hle : a ≤ b) (ha : IsBoundary s a)
    (hb : IsBoundary s b) :
    ∃ before removed after, s = before ++ removed ++ after ∧ byteSize before = a ∧
      byteSize (before ++ removed) = b := by
  obtain ⟨front, after, rfl, rfl⟩ := isBoundary_iff.mp hb
  obtain ⟨before, removed, rfl, rfl⟩ := exists_between rfl ha hle
  exact ⟨before, removed, after, rfl, rfl, rfl⟩

theorem slice_eq_some_iff {s removed : Text} {a b : Nat} :
    slice s a b = some removed ↔ ∃ before after, s = before ++ removed ++ after ∧
      byteSize before = a ∧ byteSize (before ++ removed) = b := by
  constructor
  · intro h
    rw [slice] at h
    split_ifs at h with hrange
    obtain ⟨hle, ha, hb⟩ := hrange
    obtain ⟨before, middle, after, rfl, rfl, rfl⟩ := exists_of_isBoundary hle ha hb
    rw [takeBytes_byteSize_append, dropBytes_byteSize_append, Option.some.injEq] at h
    subst h
    exact ⟨before, after, rfl, rfl, rfl⟩
  · rintro ⟨before, after, rfl, rfl, rfl⟩
    rw [slice, if_pos, takeBytes_byteSize_append, dropBytes_byteSize_append]
    refine ⟨by simp, ?_, isBoundary_byteSize_append _ _⟩
    rw [List.append_assoc]
    exact isBoundary_byteSize_append _ _

theorem replaceRange_eq_some_iff {s s' inserted : Text} {a b : Nat} :
    replaceRange s a b inserted = some s' ↔ ∃ before removed after,
      s = before ++ removed ++ after ∧ byteSize before = a ∧ byteSize (before ++ removed) = b ∧
        s' = before ++ inserted ++ after := by
  have hvalue : ∀ before removed after : Text,
      takeBytes (byteSize before) (before ++ removed ++ after) ++ inserted ++
        dropBytes (byteSize (before ++ removed)) (before ++ removed ++ after) =
          before ++ inserted ++ after := by
    intro before removed after
    rw [dropBytes_byteSize_append, List.append_assoc before removed after,
      takeBytes_byteSize_append]
  constructor
  · intro h
    rw [replaceRange] at h
    split_ifs at h with hrange
    obtain ⟨hle, ha, hb⟩ := hrange
    obtain ⟨before, removed, after, rfl, rfl, rfl⟩ := exists_of_isBoundary hle ha hb
    rw [hvalue, Option.some.injEq] at h
    exact ⟨before, removed, after, rfl, rfl, rfl, h.symm⟩
  · rintro ⟨before, removed, after, rfl, rfl, rfl, rfl⟩
    rw [replaceRange, if_pos, hvalue]
    refine ⟨by simp, ?_, isBoundary_byteSize_append _ _⟩
    rw [List.append_assoc]
    exact isBoundary_byteSize_append _ _

section Replacement

variable {s s' inserted : Text} {a b p : Nat}

theorem le_of_replaceRange (h : replaceRange s a b inserted = some s') :
    a ≤ b ∧ IsBoundary s a ∧ IsBoundary s b := by
  rw [replaceRange] at h
  split_ifs at h with hrange
  exact hrange

/-- A boundary before the range stays one. -/
theorem isBoundary_replaceRange_before (h : replaceRange s a b inserted = some s')
    (hp : IsBoundary s p) (hle : p ≤ a) : IsBoundary s' p := by
  obtain ⟨before, removed, after, rfl, rfl, rfl, rfl⟩ := replaceRange_eq_some_iff.mp h
  obtain ⟨c, d, rfl, rfl⟩ := exists_between (List.append_assoc before removed after) hp hle
  refine isBoundary_iff.mpr ⟨c, d ++ inserted ++ after, ?_, rfl⟩
  simp only [List.append_assoc]

/-- A boundary after the range moves with the text. -/
theorem isBoundary_replaceRange_after (h : replaceRange s a b inserted = some s')
    (hp : IsBoundary s p) (hle : b ≤ p) : IsBoundary s' (p + byteSize inserted - (b - a)) := by
  obtain ⟨before, removed, after, rfl, rfl, rfl, rfl⟩ := replaceRange_eq_some_iff.mp h
  obtain ⟨front, rest, hfront, rfl⟩ := isBoundary_iff.mp hp
  obtain ⟨c, d, hcd, hsize⟩ :=
    exists_between hfront (isBoundary_byteSize_append (before ++ removed) after) hle
  have hc : c = before ++ removed := by
    have hprefix : c <+: before ++ removed ++ after := ⟨d ++ rest, by rw [hfront, hcd]; simp⟩
    rcases List.prefix_or_prefix_of_prefix hprefix (List.prefix_append (before ++ removed) after)
      with h | h
    · exact eq_of_prefix_of_byteSize_le h hsize.ge
    · exact (eq_of_prefix_of_byteSize_le h hsize.le).symm
  subst hc
  subst hcd
  have hafter : after = d ++ rest := by
    have := hfront
    simpa using this
  refine isBoundary_iff.mpr ⟨before ++ inserted ++ d, rest, ?_, ?_⟩
  · rw [hafter]
    simp only [List.append_assoc]
  · simp only [byteSize_append]
    omega

/-- The end of the inserted text. -/
theorem isBoundary_replaceRange_inserted (h : replaceRange s a b inserted = some s') :
    IsBoundary s' (a + byteSize inserted) := by
  obtain ⟨before, removed, after, rfl, rfl, rfl, rfl⟩ := replaceRange_eq_some_iff.mp h
  rw [← byteSize_append]
  exact isBoundary_byteSize_append _ _

end Replacement

/-! ### Searching -/

/-- `find`: the position of the first character that satisfies a predicate. -/
def find (p : Char → Bool) : Text → Option Nat
  | [] => none
  | c :: s => if p c then some 0 else (find p s).map (c.utf8Size + ·)

/-- `rfind`: the position of the last one. -/
def rfind (p : Char → Bool) : Text → Option Nat
  | [] => none
  | c :: s =>
      match rfind p s with
      | some i => some (c.utf8Size + i)
      | none => if p c then some 0 else none

section Search

variable {p : Char → Bool} {s : Text} {i : Nat}

theorem exists_of_rfind (h : rfind p s = some i) :
    ∃ a c b, s = a ++ c :: b ∧ byteSize a = i ∧ p c = true := by
  induction s generalizing i with
  | nil => cases h
  | cons c s ih =>
      rw [rfind] at h
      split at h
      · rename_i j hj
        obtain ⟨a, d, b, rfl, rfl, hd⟩ := ih hj
        rw [← Option.some.inj h]
        exact ⟨c :: a, d, b, rfl, byteSize_cons c a, hd⟩
      · split_ifs at h with hc
        rw [← Option.some.inj h]
        exact ⟨[], c, s, rfl, rfl, hc⟩

end Search

end Codewith.Lib.Text
