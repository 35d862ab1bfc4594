import Codewith.Lib.Text
import Codewith.Lib.Needles
import Codewith.Lib.Scanner

/-!
# Hidden tags in a streamed text

`InlineHiddenTagParser` hides configured inline tags and extracts their contents.  Texts are
lists of characters: positions and lengths are only compared within one text, where bytes and
characters give the same order.
-/

namespace Codewith.StreamParser

open Lib

structure InlineTagSpec (T : Type) where
  tag : T
  openDelimiter : Text
  closeDelimiter : Text
  deriving DecidableEq, Repr

structure ExtractedInlineTag (T : Type) where
  tag : T
  content : Text
  deriving DecidableEq, Repr

@[ext]
structure StreamTextChunk (E : Type) where
  visibleText : Text := []
  extracted : List E := []
  deriving DecidableEq, Repr

structure ActiveTag (T : Type) where
  tag : T
  close : Text
  content : Text
  deriving DecidableEq, Repr

structure InlineHiddenTagParser (T : Type) where
  specs : List (InlineTagSpec T)
  pending : Text := []
  active : Option (ActiveTag T) := none
  deriving DecidableEq, Repr

instance {E : Type} : Zero (StreamTextChunk E) := ⟨{}⟩

instance {E : Type} : Add (StreamTextChunk E) :=
  ⟨fun a b => ⟨a.visibleText ++ b.visibleText, a.extracted ++ b.extracted⟩⟩

instance {E : Type} : AddMonoid (StreamTextChunk E) where
  nsmul := nsmulRec
  zero_add a := StreamTextChunk.ext (List.nil_append _) (List.nil_append _)
  add_zero a := StreamTextChunk.ext (List.append_nil _) (List.append_nil _)
  add_assoc a b c := StreamTextChunk.ext (List.append_assoc _ _ _) (List.append_assoc _ _ _)

variable {T : Type}

namespace InlineHiddenTagParser

/-- What the assertions of `new` accept. -/
def accepts (specs : List (InlineTagSpec T)) : Bool :=
  !specs.isEmpty && specs.all fun spec => spec.openDelimiter ≠ [] && spec.closeDelimiter ≠ []

def new (specs : List (InlineTagSpec T)) : Option (InlineHiddenTagParser T) :=
  if accepts specs then some { specs } else none

/-- The position of a delimiter, its length and the index of its specification. -/
structure Candidate where
  position : Nat
  length : Nat
  index : Nat
  deriving DecidableEq, Repr

/-- The first position, there the longest, and of equal ones the first. -/
def Candidate.rank (candidate : Candidate) : Nat ×ₗ (Natᵒᵈ ×ₗ Nat) :=
  toLex (candidate.position, toLex (OrderDual.toDual candidate.length, candidate.index))

def candidates (specs : List (InlineTagSpec T)) (pending : Text) : List Candidate :=
  specs.zipIdx.filterMap fun (spec, index) =>
    (find? spec.openDelimiter pending).map fun position =>
      ⟨position, spec.openDelimiter.length, index⟩

def findNextOpen (specs : List (InlineTagSpec T)) (pending : Text) : Option (Nat × Nat) :=
  ((candidates specs pending).argmin Candidate.rank).map fun candidate =>
    (candidate.position, candidate.index)

def maxOpenPrefixSuffixLen (specs : List (InlineTagSpec T)) (pending : Text) : Nat :=
  (specs.map fun spec => longestSuffixPrefixLen pending spec.openDelimiter).foldr max 0

/-- The loop of `push_str`; every round but the last uses up some of the pending text. -/
def pushLoop : Nat → InlineHiddenTagParser T → StreamTextChunk (ExtractedInlineTag T) →
    InlineHiddenTagParser T × StreamTextChunk (ExtractedInlineTag T)
  | 0, parser, out => (parser, out)
  | fuel + 1, parser, out =>
      match parser.active with
      | some active =>
          match find? active.close parser.pending with
          | some closeIdx =>
              pushLoop fuel
                { parser with
                  active := none
                  pending := parser.pending.drop (closeIdx + active.close.length) }
                { out with
                  extracted := out.extracted ++
                    [⟨active.tag, active.content ++ parser.pending.take closeIdx⟩] }
          | none =>
              let keep := longestSuffixPrefixLen parser.pending active.close
              let take := parser.pending.length - keep
              ({ parser with
                  active :=
                    some { active with content := active.content ++ parser.pending.take take }
                  pending := parser.pending.drop take }, out)
      | none =>
          match findNextOpen parser.specs parser.pending with
          | some (openIdx, specIdx) =>
              match parser.specs[specIdx]? with
              | some spec =>
                  pushLoop fuel
                    { parser with
                      active := some ⟨spec.tag, spec.closeDelimiter, []⟩
                      pending := parser.pending.drop (openIdx + spec.openDelimiter.length) }
                    { out with visibleText := out.visibleText ++ parser.pending.take openIdx }
              | none => (parser, out)
          | none =>
              let keep := maxOpenPrefixSuffixLen parser.specs parser.pending
              let take := parser.pending.length - keep
              ({ parser with pending := parser.pending.drop take },
                { out with visibleText := out.visibleText ++ parser.pending.take take })

def pushStr (parser : InlineHiddenTagParser T) (chunk : Text) :
    InlineHiddenTagParser T × StreamTextChunk (ExtractedInlineTag T) :=
  let pending := parser.pending ++ chunk
  pushLoop (pending.length + 1) { parser with pending } {}

def finish (parser : InlineHiddenTagParser T) : StreamTextChunk (ExtractedInlineTag T) :=
  match parser.active with
  | some active => { extracted := [⟨active.tag, active.content ++ parser.pending⟩] }
  | none => { visibleText := parser.pending }

/-- What the chunks give one after another, and the end after them. -/
def collectChunks (parser : InlineHiddenTagParser T) :
    List Text → StreamTextChunk (ExtractedInlineTag T)
  | [] => parser.finish
  | chunk :: chunks =>
      let next := parser.pushStr chunk
      next.2 + collectChunks next.1 chunks

/-! ## The next opening delimiter -/

section NextOpen

variable {specs : List (InlineTagSpec T)} {text rest : Text} {i n : Nat} {spec : InlineTagSpec T}

theorem Candidate.rank_le_iff {a b : Candidate} :
    a.rank ≤ b.rank ↔ a.position < b.position ∨ a.position = b.position ∧
      (b.length < a.length ∨ b.length = a.length ∧ a.index ≤ b.index) := by
  simp only [rank, Prod.Lex.toLex_le_toLex, OrderDual.toDual_lt_toDual, OrderDual.toDual_inj]
  constructor
  · rintro (h | ⟨h, h' | ⟨h', h''⟩⟩)
    · exact .inl h
    · exact .inr ⟨h, .inl h'⟩
    · exact .inr ⟨h, .inr ⟨h'.symm, h''⟩⟩
  · rintro (h | ⟨h, h' | ⟨h', h''⟩⟩)
    · exact .inl h
    · exact .inr ⟨h, .inl h'⟩
    · exact .inr ⟨h, .inr ⟨h'.symm, h''⟩⟩

theorem Candidate.eq_of_rank_le {a b : Candidate} (h : a.rank ≤ b.rank) (h' : b.rank ≤ a.rank) :
    a = b := by
  rw [rank_le_iff] at h h'
  rcases a with ⟨p, l, i⟩
  rcases b with ⟨p', l', i'⟩
  simp only [Candidate.mk.injEq]
  simp only at h h'
  omega

theorem argmin_rank_eq_some_iff {l : List Candidate} {c : Candidate} :
    l.argmin Candidate.rank = some c ↔ c ∈ l ∧ ∀ d ∈ l, c.rank ≤ d.rank := by
  constructor
  · intro h
    exact ⟨List.argmin_mem h, fun d hd => List.le_of_mem_argmin hd h⟩
  · rintro ⟨hc, hleast⟩
    cases hmin : l.argmin Candidate.rank with
    | none =>
        rw [List.argmin_eq_none.mp hmin] at hc
        simp at hc
    | some d =>
        have hd : d ∈ l := List.argmin_mem hmin
        rw [Candidate.eq_of_rank_le (List.le_of_mem_argmin hc hmin) (hleast d hd)]

theorem mem_candidates {c : Candidate} :
    c ∈ candidates specs text ↔ ∃ spec, specs[c.index]? = some spec ∧
      find? spec.openDelimiter text = some c.position ∧ c.length = spec.openDelimiter.length := by
  simp only [candidates, List.mem_filterMap, Prod.exists, List.mk_mem_zipIdx_iff_getElem?,
    Option.map_eq_some_iff]
  constructor
  · rintro ⟨spec, index, hspec, position, hfind, rfl⟩
    exact ⟨spec, hspec, hfind, rfl⟩
  · rintro ⟨spec, hspec, hfind, hlength⟩
    exact ⟨spec, c.index, hspec, c.position, hfind, by rw [← hlength]⟩

/-- The delimiter at position `i` of the specification at index `n` comes before all others. -/
structure IsNextOpen (specs : List (InlineTagSpec T)) (text : Text) (i n : Nat)
    (spec : InlineTagSpec T) : Prop where
  atIndex : specs[n]? = some spec
  occurs : OccursAt spec.openDelimiter text i
  least : ∀ n' spec' j, specs[n']? = some spec' → OccursAt spec'.openDelimiter text j →
    Candidate.rank ⟨i, spec.openDelimiter.length, n⟩ ≤
      Candidate.rank ⟨j, spec'.openDelimiter.length, n'⟩

/-- The delimiters that the parser is built with are not empty. -/
structure WellFormed (specs : List (InlineTagSpec T)) : Prop where
  open_ne : ∀ spec ∈ specs, spec.openDelimiter ≠ []
  close_ne : ∀ spec ∈ specs, spec.closeDelimiter ≠ []

theorem wellFormed_of_accepts (h : accepts specs = true) : WellFormed specs := by
  simp only [accepts, Bool.and_eq_true, List.all_eq_true, decide_eq_true_eq] at h
  exact ⟨fun spec hspec => (h.2 spec hspec).1, fun spec hspec => (h.2 spec hspec).2⟩

theorem IsNextOpen.mem (h : IsNextOpen specs text i n spec) : spec ∈ specs :=
  List.mem_of_getElem? h.atIndex

theorem IsNextOpen.add_length_le (h : IsNextOpen specs text i n spec) (hspecs : WellFormed specs) :
    i + spec.openDelimiter.length ≤ text.length :=
  h.occurs.add_length_le (hspecs.open_ne spec h.mem)

theorem findNextOpen_eq_some_iff (hspecs : WellFormed specs) :
    findNextOpen specs text = some (i, n) ↔ ∃ spec, IsNextOpen specs text i n spec := by
  unfold findNextOpen
  rw [Option.map_eq_some_iff]
  constructor
  · rintro ⟨c, hc, heq⟩
    obtain ⟨rfl, rfl⟩ := Prod.mk.inj heq
    obtain ⟨hmem, hleast⟩ := argmin_rank_eq_some_iff.mp hc
    obtain ⟨spec, hspec, hfind, hlength⟩ := mem_candidates.mp hmem
    refine ⟨spec, hspec, (find?_eq_some_iff.mp hfind).2.1, ?_⟩
    intro n' spec' j hspec' hocc
    cases hfirst : find? spec'.openDelimiter text with
    | none =>
        have hne := hspecs.open_ne spec' (List.mem_of_getElem? hspec')
        exact absurd hocc ((find?_eq_none_iff hne).mp hfirst j)
    | some k =>
        have hkj : k ≤ j := by
          by_contra hlt
          exact (find?_eq_some_iff.mp hfirst).2.2 j (by omega) hocc
        have hbest := hleast ⟨k, spec'.openDelimiter.length, n'⟩
          (mem_candidates.mpr ⟨spec', hspec', hfirst, rfl⟩)
        rw [Candidate.rank_le_iff] at hbest ⊢
        simp only [← hlength] at hbest ⊢
        omega
  · rintro ⟨spec, h⟩
    have hlength := h.add_length_le hspecs
    have hfind : find? spec.openDelimiter text = some i := by
      refine find?_eq_some_iff.mpr ⟨by omega, h.occurs, fun j hj hocc => ?_⟩
      have hleast := h.least n spec j h.atIndex hocc
      rw [Candidate.rank_le_iff] at hleast
      simp only at hleast
      omega
    refine ⟨⟨i, spec.openDelimiter.length, n⟩, argmin_rank_eq_some_iff.mpr ⟨?_, ?_⟩, rfl⟩
    · exact mem_candidates.mpr ⟨spec, h.atIndex, hfind, rfl⟩
    · intro d hd
      obtain ⟨spec', hspec', hfind', hlength'⟩ := mem_candidates.mp hd
      have hleast := h.least d.index spec' d.position hspec' (find?_eq_some_iff.mp hfind').2.1
      rw [← hlength'] at hleast
      exact hleast

theorem findNextOpen_eq_none_iff (hspecs : WellFormed specs) :
    findNextOpen specs text = none ↔
      ∀ spec ∈ specs, ∀ j, ¬OccursAt spec.openDelimiter text j := by
  unfold findNextOpen
  rw [Option.map_eq_none_iff, List.argmin_eq_none, List.eq_nil_iff_forall_not_mem]
  constructor
  · intro h spec hspec
    rw [← find?_eq_none_iff (hspecs.open_ne spec hspec)]
    obtain ⟨n, hn⟩ := List.getElem?_of_mem hspec
    cases hfind : find? spec.openDelimiter text with
    | none => rfl
    | some j =>
        exact absurd (mem_candidates.mpr ⟨spec, hn, hfind, rfl⟩)
          (h ⟨j, spec.openDelimiter.length, n⟩)
  · intro h c hc
    obtain ⟨spec, hspec, hfind, -⟩ := mem_candidates.mp hc
    exact h spec (List.mem_of_getElem? hspec) c.position (find?_eq_some_iff.mp hfind).2.1

theorem longestSuffixPrefixLen_le_max (hspec : spec ∈ specs) :
    longestSuffixPrefixLen text spec.openDelimiter ≤ maxOpenPrefixSuffixLen specs text := by
  unfold maxOpenPrefixSuffixLen
  induction specs with
  | nil => simp at hspec
  | cons first specs ih =>
      rw [List.map_cons, List.foldr_cons]
      rcases List.mem_cons.mp hspec with rfl | hrest
      · exact Nat.le_max_left _ _
      · exact (ih hrest).trans (Nat.le_max_right _ _)

theorem maxOpenPrefixSuffixLen_le (specs : List (InlineTagSpec T)) (text : Text) :
    maxOpenPrefixSuffixLen specs text ≤ text.length := by
  unfold maxOpenPrefixSuffixLen
  induction specs with
  | nil => exact Nat.zero_le _
  | cons first specs ih =>
      rw [List.map_cons, List.foldr_cons]
      exact Nat.max_le.mpr ⟨longestSuffixPrefixLen_le _ _, ih⟩

end NextOpen

end InlineHiddenTagParser

end Codewith.StreamParser
