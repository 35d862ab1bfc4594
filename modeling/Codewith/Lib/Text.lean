import Mathlib.Data.Char
import Mathlib.Data.List.DropRight
import Mathlib.Data.List.Infix
import Mathlib.Data.List.Lex
import Mathlib.Tactic

/-!
# Text as a list of characters

The string operations used by the modelled code, on lists of Unicode scalar
values.  Whitespace is the Unicode `White_Space` property, which is what
trimming removes.
-/

namespace Codewith.Lib

abbrev Text := List Char

instance : LawfulBEq Text := inferInstance

namespace Text

/-- The characters with the Unicode `White_Space` property. -/
def isWhitespace (c : Char) : Bool :=
  (0x9 ≤ c.toNat && c.toNat ≤ 0xD) || c.toNat == 0x20 || c.toNat == 0x85 || c.toNat == 0xA0 ||
    c.toNat == 0x1680 || (0x2000 ≤ c.toNat && c.toNat ≤ 0x200A) || c.toNat == 0x2028 ||
    c.toNat == 0x2029 || c.toNat == 0x202F || c.toNat == 0x205F || c.toNat == 0x3000

def trimStart (s : Text) : Text := s.dropWhile isWhitespace

def trimEnd (s : Text) : Text := s.rdropWhile isWhitespace

def trim (s : Text) : Text := trimEnd (trimStart s)

def stripPrefix (pre s : Text) : Option Text := s.dropPrefix? pre

def stripSuffixChar (c : Char) (s : Text) : Option Text :=
  if s.getLast? = some c then some s.dropLast else none

/-- The pieces of a text that end in the separator, and the unterminated rest. -/
def pieces (sep : Char) : Text → List Text × Text
  | [] => ([], [])
  | c :: s =>
      if c = sep then ([] :: (pieces sep s).1, (pieces sep s).2)
      else match pieces sep s with
        | ([], rest) => ([], c :: rest)
        | (piece :: more, rest) => ((c :: piece) :: more, rest)

/-- `split(sep)`: the rest is always a piece, even when it is empty. -/
def split (sep : Char) (s : Text) : List Text := (pieces sep s).1 ++ [(pieces sep s).2]

def dropCarriageReturn (line : Text) : Text :=
  (stripSuffixChar '\r' line).getD line

/-- `lines()`: an empty rest is no line, and only a terminated line loses a
carriage return. -/
def lines (s : Text) : List Text :=
  (pieces '\n' s).1.map dropCarriageReturn ++
    if (pieces '\n' s).2 = [] then [] else [(pieces '\n' s).2]

/-- Put a separator between the parts. -/
def joinWith (sep : Char) (parts : List Text) : Text := [sep].intercalate parts

theorem sep_not_mem_pieces (sep : Char) (s : Text) :
    (∀ p ∈ (pieces sep s).1, sep ∉ p) ∧ sep ∉ (pieces sep s).2 := by
  induction s with
  | nil => simp [pieces]
  | cons c s ih =>
      obtain ⟨hfirst, hrest⟩ := ih
      by_cases hc : c = sep
      · rw [pieces, if_pos hc]
        refine ⟨?_, hrest⟩
        simpa using hfirst
      · rw [pieces, if_neg hc]
        have hsep : sep ≠ c := fun h => hc h.symm
        rcases hp : pieces sep s with ⟨_ | ⟨piece, more⟩, rest⟩ <;>
          simp_all

theorem sep_not_mem_split {sep : Char} {s p : Text} (h : p ∈ split sep s) : sep ∉ p := by
  rcases List.mem_append.1 h with hp | hp
  · exact (sep_not_mem_pieces sep s).1 p hp
  · rw [List.mem_singleton.1 hp]
    exact (sep_not_mem_pieces sep s).2

/-! ## Pieces of a concatenation -/

/-- Put a text in front of the first piece. -/
def prepend (s : Text) : List Text × Text → List Text × Text
  | ([], rest) => ([], s ++ rest)
  | (piece :: more, rest) => ((s ++ piece) :: more, rest)

theorem pieces_cons_of_ne {sep c : Char} (h : c ≠ sep) (s : Text) :
    pieces sep (c :: s) = prepend [c] (pieces sep s) := by
  rw [pieces, if_neg h]
  rcases pieces sep s with ⟨_ | ⟨piece, more⟩, rest⟩ <;> rfl

theorem prepend_append (a b : Text) (ps : List Text × Text) :
    prepend (a ++ b) ps = prepend a (prepend b ps) := by
  rcases ps with ⟨_ | ⟨piece, more⟩, rest⟩ <;> simp [prepend]

/-- A text without a separator only extends the first piece. -/
theorem pieces_append_of_not_mem {sep : Char} {a : Text} (h : sep ∉ a) (b : Text) :
    pieces sep (a ++ b) = prepend a (pieces sep b) := by
  induction a with
  | nil =>
      rcases hb : pieces sep b with ⟨_ | ⟨piece, more⟩, rest⟩ <;> simp [prepend, hb]
  | cons c a ih =>
      have hc : c ≠ sep := fun heq => h (heq ▸ List.mem_cons_self)
      have ha : sep ∉ a := fun hmem => h (List.mem_cons_of_mem c hmem)
      rw [List.cons_append, pieces_cons_of_ne hc, ih ha]
      exact (prepend_append [c] a _).symm

theorem pieces_sep_cons (sep : Char) (s : Text) :
    pieces sep (sep :: s) = ([] :: (pieces sep s).1, (pieces sep s).2) := by
  rw [pieces, if_pos rfl]

/-- The rest of the first text joins the first piece of the second. -/
theorem pieces_append (sep : Char) (a b : Text) :
    pieces sep (a ++ b) =
      ((pieces sep a).1 ++ (prepend (pieces sep a).2 (pieces sep b)).1,
        (prepend (pieces sep a).2 (pieces sep b)).2) := by
  induction a with
  | nil =>
      rcases hb : pieces sep b with ⟨_ | ⟨piece, more⟩, rest⟩ <;> simp [pieces, prepend, hb]
  | cons c a ih =>
      by_cases hc : c = sep
      · subst hc
        rw [List.cons_append, pieces_sep_cons, ih, pieces_sep_cons]
        simp
      · rw [List.cons_append, pieces_cons_of_ne hc, ih, pieces_cons_of_ne hc]
        rcases pieces sep a with ⟨_ | ⟨piece, more⟩, rest⟩ <;>
          rcases pieces sep b with ⟨_ | ⟨piece', more'⟩, rest'⟩ <;> simp [prepend]

theorem pieces_fst_eq_nil_iff {sep : Char} {s : Text} : (pieces sep s).1 = [] ↔ sep ∉ s := by
  induction s with
  | nil => simp [pieces]
  | cons c s ih =>
      by_cases hc : c = sep
      · subst hc
        simp [pieces_sep_cons]
      · have hsep : sep ≠ c := fun h => hc h.symm
        rw [pieces_cons_of_ne hc]
        rcases hp : pieces sep s with ⟨_ | ⟨piece, more⟩, rest⟩
        · have hs : sep ∉ s := ih.1 (by rw [hp])
          simp [prepend, hsep, hs]
        · have hs : sep ∈ s := by
            by_contra hnot
            have := ih.2 hnot
            rw [hp] at this
            simp at this
          simp [prepend, hs]

/-- Putting the pieces together again gives the text. -/
theorem flatten_pieces (sep : Char) (s : Text) :
    ((pieces sep s).1.map (· ++ [sep])).flatten ++ (pieces sep s).2 = s := by
  induction s with
  | nil => rfl
  | cons c s ih =>
      by_cases hc : c = sep
      · subst hc
        rw [pieces_sep_cons]
        simpa using ih
      · rw [pieces_cons_of_ne hc]
        rcases hp : pieces sep s with ⟨_ | ⟨piece, more⟩, rest⟩ <;>
          rw [hp] at ih <;> simpa [prepend] using ih

/-! ## Trimming -/

def AllWhitespace (s : Text) : Prop := ∀ c ∈ s, isWhitespace c = true

theorem trimEnd_append_of_allWhitespace (s : Text) {w : Text} (h : AllWhitespace w) :
    trimEnd (s ++ w) = trimEnd s := by
  induction w using List.reverseRecOn with
  | nil => rw [List.append_nil]
  | append_singleton w c ih =>
      rw [← List.append_assoc, trimEnd, List.rdropWhile_concat_pos _ _ _ (h c (by simp))]
      exact ih fun d hd => h d (by simp [hd])

theorem trimStart_append_of_allWhitespace {w : Text} (h : AllWhitespace w) (s : Text) :
    trimStart (w ++ s) = trimStart s := by
  induction w with
  | nil => rfl
  | cons c w ih =>
      rw [trimStart, List.cons_append, List.dropWhile_cons_of_pos (h c List.mem_cons_self)]
      exact ih fun d hd => h d (List.mem_cons_of_mem c hd)

theorem trimEnd_prefix_self (s : Text) : trimEnd s <+: s := List.rdropWhile_prefix _ s

theorem trimEnd_eq_nil_iff {s : Text} : trimEnd s = [] ↔ AllWhitespace s :=
  List.rdropWhile_eq_nil_iff

theorem trimStart_eq_nil_iff {s : Text} : trimStart s = [] ↔ AllWhitespace s :=
  List.dropWhile_eq_nil_iff

theorem trimEnd_append_of_ne_nil (a : Text) {b : Text} (h : trimEnd b ≠ []) :
    trimEnd (a ++ b) = a ++ trimEnd b := by
  induction b using List.reverseRecOn with
  | nil => exact (h rfl).elim
  | append_singleton b c ih =>
      by_cases hc : isWhitespace c = true
      · have hb : trimEnd (b ++ [c]) = trimEnd b := List.rdropWhile_concat_pos _ _ _ hc
        rw [hb] at h ⊢
        rw [← List.append_assoc, trimEnd, List.rdropWhile_concat_pos _ _ _ hc]
        exact ih h
      · rw [← List.append_assoc, trimEnd, trimEnd, List.rdropWhile_concat_neg _ _ _ hc,
          List.rdropWhile_concat_neg _ _ _ hc, List.append_assoc]

theorem exists_trailing (s : Text) : ∃ w, AllWhitespace w ∧ trimEnd s ++ w = s :=
  ⟨s.rtakeWhile isWhitespace, fun _ hc => List.mem_rtakeWhile_imp hc,
    List.rdropWhile_append_rtakeWhile⟩

theorem exists_leading (s : Text) : ∃ w, AllWhitespace w ∧ w ++ trimStart s = s :=
  ⟨s.takeWhile isWhitespace, fun _ hc => List.mem_takeWhile_imp hc,
    List.takeWhile_append_dropWhile⟩

theorem trimStart_append_of_not_allWhitespace {s : Text} (h : ¬ AllWhitespace s) (t : Text) :
    trimStart (s ++ t) = trimStart s ++ t := by
  induction s with
  | nil => exact (h (by simp [AllWhitespace])).elim
  | cons c s ih =>
      by_cases hc : isWhitespace c = true
      · have hs : ¬ AllWhitespace s := by
          intro hs
          refine h fun d hd => ?_
          rcases List.mem_cons.1 hd with rfl | hd
          · exact hc
          · exact hs d hd
        rw [trimStart, trimStart, List.cons_append, List.dropWhile_cons_of_pos hc,
          List.dropWhile_cons_of_pos hc]
        exact ih hs
      · rw [trimStart, trimStart, List.cons_append, List.dropWhile_cons_of_neg hc,
          List.dropWhile_cons_of_neg hc, List.cons_append]

theorem trim_append_of_allWhitespace (s : Text) {w : Text} (h : AllWhitespace w) :
    trim (s ++ w) = trim s := by
  by_cases hs : AllWhitespace s
  · rw [trim, trimStart_append_of_allWhitespace hs, trimStart_eq_nil_iff.2 h, trim,
      trimStart_eq_nil_iff.2 hs]
  · rw [trim, trimStart_append_of_not_allWhitespace hs, trimEnd_append_of_allWhitespace _ h, trim]

theorem trim_of_allWhitespace_append {w : Text} (h : AllWhitespace w) (s : Text) :
    trim (w ++ s) = trim s := by
  rw [trim, trimStart_append_of_allWhitespace h, trim]

theorem trim_eq_nil_iff {s : Text} : trim s = [] ↔ AllWhitespace s := by
  constructor
  · intro h
    obtain ⟨w, hw, hs⟩ := exists_leading s
    have hrest : AllWhitespace (trimStart s) := trimEnd_eq_nil_iff.1 h
    intro c hc
    rw [← hs, List.mem_append] at hc
    exact hc.elim (hw c) (hrest c)
  · intro h
    rw [trim, trimStart_eq_nil_iff.2 h]
    rfl

theorem dropCarriageReturn_eq (s : Text) :
    s = dropCarriageReturn s ∨ s = dropCarriageReturn s ++ ['\r'] := by
  unfold dropCarriageReturn stripSuffixChar
  split
  · rename_i h
    right
    exact (List.dropLast_append_getLast? _ h).symm
  · exact .inl rfl

theorem allWhitespace_carriageReturn : AllWhitespace ['\r'] := by
  intro c hc
  rw [List.mem_singleton.1 hc]
  rfl

@[simp] theorem trim_dropCarriageReturn (s : Text) : trim (dropCarriageReturn s) = trim s := by
  rcases dropCarriageReturn_eq s with h | h
  · rw [← h]
  · conv_rhs => rw [h, trim_append_of_allWhitespace _ allWhitespace_carriageReturn]

@[simp] theorem trimEnd_dropCarriageReturn (s : Text) :
    trimEnd (dropCarriageReturn s) = trimEnd s := by
  rcases dropCarriageReturn_eq s with h | h
  · rw [← h]
  · conv_rhs => rw [h, trimEnd_append_of_allWhitespace _ allWhitespace_carriageReturn]

theorem trimEnd_head (s : Text) : trimEnd s = [] ∨ (trimEnd s).head? = s.head? := by
  obtain ⟨w, -, hs⟩ := exists_trailing s
  rcases h : trimEnd s with _ | ⟨c, rest⟩
  · exact .inl rfl
  · rw [h] at hs
    rw [← hs]
    exact .inr rfl

/-! ## The text between its leading and trailing whitespace -/

def leading (s : Text) : Text := s.takeWhile isWhitespace

def trailing (s : Text) : Text := s.rtakeWhile isWhitespace

theorem allWhitespace_leading (s : Text) : AllWhitespace (leading s) :=
  fun _ hc => List.mem_takeWhile_imp hc

theorem allWhitespace_trailing (s : Text) : AllWhitespace (trailing s) :=
  fun _ hc => List.mem_rtakeWhile_imp hc

/-- Whitespace in front of visible text does not reach its end. -/
theorem trailing_append {s : Text} (h : ¬ AllWhitespace s) (w : Text) :
    trailing (w ++ s) = trailing s := by
  have hlength : (s.reverse.takeWhile isWhitespace).length ≠ s.reverse.length := by
    intro hlength
    have hall := (List.takeWhile_prefix isWhitespace (l := s.reverse)).eq_of_length hlength
    refine h fun c hc => ?_
    rw [← List.mem_reverse, ← hall] at hc
    exact List.mem_takeWhile_imp hc
  rw [trailing, trailing, List.rtakeWhile, List.rtakeWhile, List.reverse_append,
    List.takeWhile_append, if_neg hlength]

theorem leading_append_trim_append_trailing {s : Text} (h : trim s ≠ []) :
    leading s ++ (trim s ++ trailing s) = s := by
  have hstart : leading s ++ trimStart s = s := List.takeWhile_append_dropWhile
  have hvisible : ¬ AllWhitespace (trimStart s) := fun hall => h (trimEnd_eq_nil_iff.2 hall)
  have htrailing : trailing s = trailing (trimStart s) := by
    conv_lhs => rw [← hstart, trailing_append hvisible]
  rw [htrailing, trim, trimEnd, trailing, List.rdropWhile_append_rtakeWhile, hstart]

theorem trimEnd_trimEnd (s : Text) : trimEnd (trimEnd s) = trimEnd s :=
  List.rdropWhile_idempotent _ s

theorem trimStart_of_head {c : Char} {s : Text} (hhead : s.head? = some c)
    (hc : isWhitespace c = false) : trimStart s = s := by
  cases s with
  | nil => cases hhead
  | cons d s =>
      cases hhead
      rw [trimStart, List.dropWhile_cons_of_neg (by simp [hc])]

theorem trim_of_head {c : Char} {s : Text} (hhead : s.head? = some c)
    (hc : isWhitespace c = false) : trim s = trimEnd s := by
  rw [trim, trimStart_of_head hhead hc]

/-- The pieces hold no other characters. -/
theorem mem_of_mem_pieces {sep c : Char} {s p : Text} (hp : p ∈ (pieces sep s).1) (hc : c ∈ p) :
    c ∈ s := by
  rw [← flatten_pieces sep s, List.mem_append, List.mem_flatten]
  exact .inl ⟨p ++ [sep], List.mem_map_of_mem hp, List.mem_append_left _ hc⟩

/-- The last line of a text without trailing whitespace is not blank. -/
theorem pieces_snd_of_trimmed {s : Text} (hs : s ≠ []) (htrim : trimEnd s = s) :
    (pieces '\n' s).2 ≠ [] ∧ trimEnd (pieces '\n' s).2 = (pieces '\n' s).2 := by
  have hflat := flatten_pieces '\n' s
  generalize hfront : ((pieces '\n' s).1.map (· ++ ['\n'])).flatten = front at hflat
  by_cases hblank : trimEnd (pieces '\n' s).2 = []
  · exfalso
    have hfrontTrim : trimEnd front = front ++ (pieces '\n' s).2 := by
      rw [← trimEnd_append_of_allWhitespace front (trimEnd_eq_nil_iff.1 hblank), hflat, htrim]
    have hlength := (trimEnd_prefix_self front).length_le
    rcases List.eq_nil_or_concat (pieces '\n' s).1 with hnil | ⟨more, piece, hconcat⟩
    · rw [hnil] at hfront
      subst hfront
      rw [hfrontTrim] at hlength
      have hrest : (pieces '\n' s).2 = [] := List.eq_nil_of_length_eq_zero (by simpa using hlength)
      rw [hrest] at hflat
      exact hs hflat.symm
    · have hend : front = (more.map (· ++ ['\n'])).flatten ++ piece ++ ['\n'] := by
        rw [← hfront, hconcat]
        simp
      have hnewline : AllWhitespace ['\n'] := by
        intro c hc
        rw [List.mem_singleton.1 hc]
        rfl
      have hshort := (trimEnd_prefix_self ((more.map (· ++ ['\n'])).flatten ++ piece)).length_le
      rw [← trimEnd_append_of_allWhitespace _ hnewline, ← hend, hfrontTrim] at hshort
      rw [hend] at hshort
      simp at hshort
  · refine ⟨fun hnil => hblank (by rw [hnil]; rfl), ?_⟩
    have happend := trimEnd_append_of_ne_nil front hblank
    rw [hflat, htrim] at happend
    exact (List.append_cancel_left (happend.symm.trans hflat.symm))

end Text

end Codewith.Lib
