import Codewith.StreamParser.InlineHiddenTag

/-!
# Hidden tags and the chunks they arrive in

The parser is a scanner with two kinds of modes: outside a tag it looks for the next opening
delimiter, inside for the closing one.  It reads a text as a whole in whatever chunks it comes,
unless an opening delimiter can be complete while a longer one that contains it is not.
-/

namespace Codewith.StreamParser

open Lib

variable {T : Type}

namespace InlineHiddenTagParser

/-! ## The parser as a scanner -/

/-- Kinds of delimiters: a specification is opened, or the active tag is closed. -/
abbrev Delimiter (T : Type) := Option (InlineTagSpec T)

def nextDelimiter (specs : List (InlineTagSpec T)) :
    Option (ActiveTag T) → Text → Option (Nat × Nat × Delimiter T)
  | some active, text =>
      (find? active.close text).map fun closeIdx => (closeIdx, active.close.length, none)
  | none, text =>
      (findNextOpen specs text).bind fun (openIdx, specIdx) =>
        specs[specIdx]?.map fun spec => (openIdx, spec.openDelimiter.length, some spec)

def plainText : Option (ActiveTag T) → Text →
    Option (ActiveTag T) × StreamTextChunk (ExtractedInlineTag T)
  | some active, text => (some { active with content := active.content ++ text }, 0)
  | none, text => (none, { visibleText := text })

def passDelimiter : Option (ActiveTag T) → Delimiter T →
    Option (ActiveTag T) × StreamTextChunk (ExtractedInlineTag T)
  | some active, none => (none, { extracted := [⟨active.tag, active.content⟩] })
  | none, some spec => (some ⟨spec.tag, spec.closeDelimiter, []⟩, 0)
  | active, _ => (active, 0)

def scanner (specs : List (InlineTagSpec T)) :
    Scanner Char (Option (ActiveTag T)) (Delimiter T) (StreamTextChunk (ExtractedInlineTag T)) where
  next := nextDelimiter specs
  hold
    | some active, text => longestSuffixPrefixLen text active.close
    | none, text => maxOpenPrefixSuffixLen specs text
  plain := plainText
  delimiter := passDelimiter

section Scan

variable {specs : List (InlineTagSpec T)} {text rest : Text}

@[simp] theorem visibleText_add {E : Type} (a b : StreamTextChunk E) :
    (a + b).visibleText = a.visibleText ++ b.visibleText := rfl

@[simp] theorem extracted_add {E : Type} (a b : StreamTextChunk E) :
    (a + b).extracted = a.extracted ++ b.extracted := rfl

theorem pass_close (active : ActiveTag T) (text : Text) :
    (scanner specs).pass (some active) text none =
      (none, { extracted := [⟨active.tag, active.content ++ text⟩] }) :=
  Prod.ext rfl (zero_add _)

theorem pass_open (spec : InlineTagSpec T) (text : Text) :
    (scanner specs).pass none text (some spec) =
      (some ⟨spec.tag, spec.closeDelimiter, []⟩, { visibleText := text }) :=
  Prod.ext rfl (add_zero _)

/-- The loop is the run of the scanner. -/
theorem pushLoop_eq_run (hspecs : WellFormed specs) (fuel : Nat) (text : Text)
    (active : Option (ActiveTag T)) (out : StreamTextChunk (ExtractedInlineTag T)) :
    pushLoop fuel ⟨specs, text, active⟩ out =
      (⟨specs, ((scanner specs).run fuel active text).2.1,
        ((scanner specs).run fuel active text).1⟩,
        out + ((scanner specs).run fuel active text).2.2) := by
  induction fuel generalizing text active out with
  | zero => simp [pushLoop, Scanner.run]
  | succ fuel ih =>
      cases active with
      | some active =>
          cases hclose : find? active.close text with
          | some closeIdx =>
              have hnext : (scanner specs).next (some active) text =
                  some (closeIdx, active.close.length, none) := by
                simp [scanner, nextDelimiter, hclose]
              simp only [pushLoop, hclose, ih, Scanner.run_of_next_eq_some hnext, pass_close,
                ← add_assoc]
              refine Prod.ext rfl (congrArg (· + _) (StreamTextChunk.ext ?_ rfl))
              exact (List.append_nil _).symm
          | none =>
              have hnext : (scanner specs).next (some active) text = none := by
                simp [scanner, nextDelimiter, hclose]
              simp only [pushLoop, hclose, Scanner.run_of_next_eq_none hnext]
              exact Prod.ext rfl (add_zero out).symm
      | none =>
          cases hopen : findNextOpen specs text with
          | some found =>
              obtain ⟨openIdx, specIdx⟩ := found
              obtain ⟨spec, hspec⟩ := (findNextOpen_eq_some_iff hspecs).mp hopen
              have hnext : (scanner specs).next none text =
                  some (openIdx, spec.openDelimiter.length, some spec) := by
                simp [scanner, nextDelimiter, hopen, hspec.atIndex]
              simp only [pushLoop, hopen, hspec.atIndex, ih, Scanner.run_of_next_eq_some hnext,
                pass_open, ← add_assoc]
              refine Prod.ext rfl (congrArg (· + _) (StreamTextChunk.ext rfl ?_))
              exact (List.append_nil _).symm
          | none =>
              have hnext : (scanner specs).next none text = none := by
                simp [scanner, nextDelimiter, hopen]
              simp only [pushLoop, hopen, Scanner.run_of_next_eq_none hnext]
              exact Prod.ext rfl (StreamTextChunk.ext rfl (List.append_nil _).symm)

/-- The closing delimiter of an active tag is not empty. -/
def ValidMode (active : Option (ActiveTag T)) : Prop := ∀ tag ∈ active, tag.close ≠ []

theorem nextDelimiter_none_eq_some_iff (hspecs : WellFormed specs) {i length : Nat}
    {kind : Delimiter T} :
    nextDelimiter specs none text = some (i, length, kind) ↔ ∃ n spec,
      IsNextOpen specs text i n spec ∧ length = spec.openDelimiter.length ∧ kind = some spec := by
  simp only [nextDelimiter, Option.bind_eq_some_iff, Prod.exists, Option.map_eq_some_iff,
    Prod.mk.injEq]
  constructor
  · rintro ⟨i', n, hopen, spec, hspec, rfl, rfl, rfl⟩
    obtain ⟨spec', hnext⟩ := (findNextOpen_eq_some_iff hspecs).mp hopen
    have hsame := hnext.atIndex
    rw [hspec, Option.some_inj] at hsame
    subst hsame
    exact ⟨n, spec, hnext, rfl, rfl⟩
  · rintro ⟨n, spec, hnext, rfl, rfl⟩
    exact ⟨i, n, (findNextOpen_eq_some_iff hspecs).mpr ⟨spec, hnext⟩, spec, hnext.atIndex, rfl, rfl,
      rfl⟩

theorem nextDelimiter_none_eq_none_iff (hspecs : WellFormed specs) :
    nextDelimiter specs none text = none ↔
      ∀ spec ∈ specs, ∀ j, ¬OccursAt spec.openDelimiter text j := by
  rw [← findNextOpen_eq_none_iff hspecs]
  constructor
  · intro h
    cases hopen : findNextOpen specs text with
    | none => rfl
    | some found =>
        obtain ⟨spec, hnext⟩ := (findNextOpen_eq_some_iff hspecs).mp hopen
        simp [nextDelimiter, hopen, hnext.atIndex] at h
  · intro h
    simp [nextDelimiter, h]

/-- Where no delimiter begins in the first part, the next one is that of the second. -/
theorem isNextOpen_append_iff
    (hnone : ∀ spec ∈ specs, ∀ j < text.length, ¬OccursAt spec.openDelimiter (text ++ rest) j)
    {k n : Nat} {spec : InlineTagSpec T} :
    IsNextOpen specs (text ++ rest) k n spec ↔
      ∃ i, IsNextOpen specs rest i n spec ∧ text.length + i = k := by
  have hlate : ∀ spec ∈ specs, ∀ j, OccursAt spec.openDelimiter (text ++ rest) j →
      text.length ≤ j := by
    intro spec hspec j hocc
    by_contra hlt
    exact hnone spec hspec j (by omega) hocc
  constructor
  · intro h
    obtain ⟨i, rfl⟩ := Nat.exists_eq_add_of_le (hlate spec h.mem k h.occurs)
    refine ⟨i, ⟨h.atIndex, occursAt_append_add.mp h.occurs, ?_⟩, rfl⟩
    intro n' spec' j hspec' hocc
    have hleast := h.least n' spec' (text.length + j) hspec' (occursAt_append_add.mpr hocc)
    rw [Candidate.rank_le_iff] at hleast ⊢
    simp only at hleast ⊢
    omega
  · rintro ⟨i, h, rfl⟩
    refine ⟨h.atIndex, occursAt_append_add.mpr h.occurs, ?_⟩
    intro n' spec' j hspec' hocc
    obtain ⟨j, rfl⟩ := Nat.exists_eq_add_of_le (hlate spec' (List.mem_of_getElem? hspec') j hocc)
    have hleast := h.least n' spec' j hspec' (occursAt_append_add.mp hocc)
    rw [Candidate.rank_le_iff] at hleast ⊢
    simp only at hleast ⊢
    omega

theorem nextDelimiter_none_append (hspecs : WellFormed specs)
    (hnone : ∀ spec ∈ specs, ∀ j < text.length, ¬OccursAt spec.openDelimiter (text ++ rest) j) :
    nextDelimiter specs none (text ++ rest) =
      (nextDelimiter specs none rest).map fun found => (text.length + found.1, found.2) := by
  apply Option.ext
  rintro ⟨k, length, kind⟩
  rw [nextDelimiter_none_eq_some_iff hspecs, Option.map_eq_some_iff]
  constructor
  · rintro ⟨n, spec, hnext, rfl, rfl⟩
    obtain ⟨i, hrest, rfl⟩ := (isNextOpen_append_iff hnone).mp hnext
    exact ⟨(i, spec.openDelimiter.length, some spec),
      (nextDelimiter_none_eq_some_iff hspecs).mpr ⟨n, spec, hrest, rfl, rfl⟩, rfl⟩
  · rintro ⟨⟨i, length, kind⟩, hfound, heq⟩
    obtain ⟨rfl, rfl, rfl⟩ := by simpa using heq
    obtain ⟨n, spec, hnext, rfl, rfl⟩ := (nextDelimiter_none_eq_some_iff hspecs).mp hfound
    exact ⟨n, spec, (isNextOpen_append_iff hnone).mpr ⟨i, hnext, rfl⟩, rfl, rfl⟩

theorem scanner_lawful (hspecs : WellFormed specs) : (scanner specs).Lawful ValidMode where
  valid_plain {m} hm text := by
    cases m with
    | none => simp [scanner, plainText, ValidMode]
    | some active => simpa [scanner, plainText, ValidMode] using hm
  valid_pass {m text position length kind} hm hnext := by
    cases m with
    | none =>
        obtain ⟨n, spec, hspec, rfl, rfl⟩ := (nextDelimiter_none_eq_some_iff hspecs).mp hnext
        rw [pass_open]
        simpa [ValidMode] using hspecs.close_ne spec hspec.mem
    | some active =>
        obtain ⟨i, -, heq⟩ := Option.map_eq_some_iff.mp hnext
        obtain ⟨rfl, rfl, rfl⟩ := by simpa using heq
        rw [pass_close]
        simp [ValidMode]
  plain_nil m := by
    cases m with
    | none => rfl
    | some active => simp [scanner, plainText]
  plain_append m text rest := by
    cases m with
    | none => rfl
    | some active =>
        simp only [scanner, plainText, List.append_assoc]
        rfl
  next_plain m text := by
    cases m <;> rfl
  hold_plain m text := by
    cases m <;> rfl
  hold_le m text := by
    cases m with
    | none => exact maxOpenPrefixSuffixLen_le specs text
    | some active => exact longestSuffixPrefixLen_le text active.close
  length_pos {m text position length kind} hm hnext := by
    cases m with
    | none =>
        obtain ⟨n, spec, hspec, rfl, rfl⟩ := (nextDelimiter_none_eq_some_iff hspecs).mp hnext
        exact ⟨List.length_pos_iff.mpr (hspecs.open_ne spec hspec.mem), hspec.add_length_le hspecs⟩
    | some active =>
        obtain ⟨i, hfind, heq⟩ := Option.map_eq_some_iff.mp hnext
        obtain ⟨rfl, rfl, rfl⟩ := by simpa using heq
        have hne : active.close ≠ [] := hm active rfl
        exact ⟨List.length_pos_iff.mpr hne, (find?_eq_some_iff.mp hfind).2.1.add_length_le hne⟩
  next_drop {m text} hm hnext rest := by
    have hsplit : ∀ d, text ++ rest = text.take d ++ (text.drop d ++ rest) := by
      intro d
      rw [← List.append_assoc, List.take_append_drop]
    have hlength : ∀ k, (text.take (text.length - k)).length = text.length - k := by
      intro k
      rw [List.length_take]
      omega
    cases m with
    | none =>
        have hnone := (nextDelimiter_none_eq_none_iff hspecs).mp hnext
        simp only [scanner]
        rw [hsplit (text.length - maxOpenPrefixSuffixLen specs text),
          nextDelimiter_none_append hspecs, hlength]
        intro spec hspec j hj
        rw [hlength] at hj
        rw [← hsplit]
        exact not_occursAt_append (hnone spec hspec) (longestSuffixPrefixLen_le_max hspec) hj
    | some active =>
        have hne : active.close ≠ [] := hm active rfl
        have hnone := (find?_eq_none_iff hne).mp (Option.map_eq_none_iff.mp hnext)
        simp only [scanner, nextDelimiter]
        rw [hsplit (text.length - longestSuffixPrefixLen text active.close),
          find?_append_of_forall, hlength]
        · simp only [Option.map_map, Function.comp_def]
        · intro j hj
          rw [hlength] at hj
          rw [← hsplit]
          exact not_occursAt_append hnone (Nat.le_refl _) hj
  hold_drop {m text} hm hnext rest := by
    cases m with
    | none =>
        simp only [scanner]
        conv_lhs => rw [maxOpenPrefixSuffixLen]
        conv_rhs => rw [maxOpenPrefixSuffixLen]
        refine congrArg (List.foldr max 0) (List.map_congr_left fun spec hspec => ?_)
        exact longestSuffixPrefixLen_drop (hspecs.open_ne spec hspec)
          (longestSuffixPrefixLen_le_max hspec) (maxOpenPrefixSuffixLen_le specs text)
    | some active =>
        exact longestSuffixPrefixLen_drop (hm active rfl) (Nat.le_refl _)
          (longestSuffixPrefixLen_le text active.close)

/-- An opening delimiter can be complete before a longer one around it is. -/
def IsNested (specs : List (InlineTagSpec T)) : Prop :=
  ∃ inner ∈ specs, ∃ outer ∈ specs, inner.openDelimiter <:+: outer.openDelimiter.dropLast

/-- Without nested delimiters, what is found first stays first. -/
theorem IsNextOpen.append (hspecs : WellFormed specs) (hnested : ¬IsNested specs) {i n : Nat}
    {spec : InlineTagSpec T} (h : IsNextOpen specs text i n spec) :
    IsNextOpen specs (text ++ rest) i n spec := by
  have hend := h.add_length_le hspecs
  refine ⟨h.atIndex, h.occurs.append (by omega) rest, ?_⟩
  intro n' spec' j hspec' hocc
  by_cases hwithin : j + spec'.openDelimiter.length ≤ text.length
  · exact h.least n' spec' j hspec' (hocc.of_append hwithin)
  · rw [Candidate.rank_le_iff]
    left
    -- A delimiter that begins earlier and ends later would contain the one that was found.
    by_contra hle
    refine hnested ⟨spec, h.mem, spec', List.mem_of_getElem? hspec', ?_⟩
    exact (h.occurs.append (by omega) rest).infix_dropLast hocc (by simpa using hle)
      (by omega)

theorem scanner_stable (hspecs : WellFormed specs) (hnested : ¬IsNested specs) :
    (scanner specs).Stable ValidMode := by
  intro m text found hm hnext rest
  cases m with
  | none =>
      obtain ⟨i, length, kind⟩ := found
      obtain ⟨n, spec, hspec, rfl, rfl⟩ := (nextDelimiter_none_eq_some_iff hspecs).mp hnext
      exact (nextDelimiter_none_eq_some_iff hspecs).mpr
        ⟨n, spec, hspec.append hspecs hnested, rfl, rfl⟩
  | some active =>
      obtain ⟨i, hfind, rfl⟩ := Option.map_eq_some_iff.mp hnext
      obtain ⟨hi, hocc, hfirst⟩ := find?_eq_some_iff.mp hfind
      have hend := hocc.add_length_le (hm active rfl)
      have hmore : find? active.close (text ++ rest) = some i := by
        refine find?_eq_some_iff.mpr ⟨?_, hocc.append hi rest, fun j hj hearlier => ?_⟩
        · rw [List.length_append]
          omega
        · exact hfirst j hj (hearlier.of_append (by omega))
      exact Option.map_eq_some_iff.mpr ⟨i, hmore, rfl⟩

end Scan

/-! ## Chunks -/

section Chunks

variable {specs : List (InlineTagSpec T)}

theorem pushStr_eq (hspecs : WellFormed specs) (pending chunk : Text)
    (active : Option (ActiveTag T)) :
    pushStr ⟨specs, pending, active⟩ chunk =
      (⟨specs, ((scanner specs).push active pending chunk).2.1,
        ((scanner specs).push active pending chunk).1⟩,
          ((scanner specs).push active pending chunk).2.2) := by
  have hrun := pushLoop_eq_run hspecs ((pending ++ chunk).length + 1) (pending ++ chunk) active 0
  rw [zero_add] at hrun
  exact hrun

theorem collectChunks_eq (hspecs : WellFormed specs) (pending : Text)
    (active : Option (ActiveTag T)) (chunks : List Text) :
    collectChunks ⟨specs, pending, active⟩ chunks =
      ((scanner specs).pushAll active pending chunks).2.2 +
        finish ⟨specs, ((scanner specs).pushAll active pending chunks).2.1,
          ((scanner specs).pushAll active pending chunks).1⟩ := by
  induction chunks generalizing pending active with
  | nil => exact (zero_add _).symm
  | cons chunk chunks ih =>
      rw [collectChunks, pushStr_eq hspecs]
      simp only [ih, Scanner.pushAll, add_assoc]

/-- Without nested delimiters the chunks do not matter. -/
theorem collectChunks_flatten (hspecs : WellFormed specs) (hnested : ¬IsNested specs)
    (chunks : List Text) :
    collectChunks { specs } chunks = collectChunks { specs } [chunks.flatten] := by
  have hlawful := scanner_lawful hspecs
  have hstable : (scanner specs).Stable ValidMode := scanner_stable hspecs hnested
  have hvalid : ValidMode (none : Option (ActiveTag T)) := by simp [ValidMode]
  rw [collectChunks_eq hspecs, collectChunks_eq hspecs, hlawful.pushAll_eq hstable hvalid,
    hlawful.pushAll_eq hstable hvalid, List.flatten_singleton]

/-! ## Nested delimiters -/

/-- The text up to the first opening delimiter, and the rest with its tag active. -/
theorem collectChunks_open (hspecs : WellFormed specs) {chunk : Text} {i n : Nat}
    {spec : InlineTagSpec T} (h : IsNextOpen specs chunk i n spec) (chunks : List Text) :
    collectChunks { specs } (chunk :: chunks) =
      { visibleText := chunk.take i } +
        collectChunks ⟨specs, chunk.drop (i + spec.openDelimiter.length),
          some ⟨spec.tag, spec.closeDelimiter, []⟩⟩ ([] :: chunks) := by
  have hnext : (scanner specs).next none chunk =
      some (i, spec.openDelimiter.length, some spec) :=
    (nextDelimiter_none_eq_some_iff hspecs).mpr ⟨n, spec, h, rfl, rfl⟩
  have hend := h.add_length_le hspecs
  have hpos : 0 < spec.openDelimiter.length := List.length_pos_iff.mpr (hspecs.open_ne spec h.mem)
  have hvalid : ValidMode (some (⟨spec.tag, spec.closeDelimiter, []⟩ : ActiveTag T)) := by
    simpa [ValidMode] using hspecs.close_ne spec h.mem
  have hrun := (scanner_lawful hspecs).run_eq hvalid
    (show (chunk.drop (i + spec.openDelimiter.length)).length < chunk.length by
      rw [List.length_drop]; omega)
    (Nat.lt_add_one _)
  rw [collectChunks_eq hspecs, collectChunks_eq hspecs]
  simp only [Scanner.pushAll, Scanner.push, List.nil_append, List.append_nil]
  rw [Scanner.run_of_next_eq_some hnext, pass_open, hrun]
  simp only [add_assoc]

/-- What the scanner makes of an active tag: it closes the tag on a beginning of the text, or
keeps all of it. -/
theorem run_active (specs : List (InlineTagSpec T)) (fuel : Nat) (active : ActiveTag T)
    (text : Text) :
    (∃ content rest, ((scanner specs).run fuel (some active) text).2.2.extracted =
        ⟨active.tag, content⟩ :: rest ∧ content <+: active.content ++ text) ∨
      ∃ active', ((scanner specs).run fuel (some active) text).1 = some active' ∧
        active'.tag = active.tag ∧
        active'.content ++ ((scanner specs).run fuel (some active) text).2.1 =
          active.content ++ text ∧
        ((scanner specs).run fuel (some active) text).2.2.extracted = [] := by
  cases fuel with
  | zero => exact .inr ⟨active, rfl, rfl, rfl, rfl⟩
  | succ fuel =>
      cases hfind : find? active.close text with
      | some closeIdx =>
          have hnext : (scanner specs).next (some active) text =
              some (closeIdx, active.close.length, none) := by
            simp [scanner, nextDelimiter, hfind]
          left
          rw [Scanner.run_of_next_eq_some hnext, pass_close]
          refine ⟨active.content ++ text.take closeIdx, _, rfl, ?_⟩
          exact (List.prefix_append_right_inj _).mpr (List.take_prefix _ _)
      | none =>
          have hnext : (scanner specs).next (some active) text = none := by
            simp [scanner, nextDelimiter, hfind]
          right
          rw [Scanner.run_of_next_eq_none hnext]
          refine ⟨_, rfl, rfl, ?_, rfl⟩
          simp only [List.append_assoc]
          rw [List.take_append_drop]

/-- The first tag that is extracted has a beginning of what followed its delimiter. -/
theorem collectChunks_active (hspecs : WellFormed specs) (active : ActiveTag T) (held : Text)
    (chunks : List Text) :
    ∃ content, (collectChunks ⟨specs, held, some active⟩ chunks).extracted.head? =
        some ⟨active.tag, content⟩ ∧ content <+: active.content ++ held ++ chunks.flatten := by
  induction chunks generalizing active held with
  | nil => exact ⟨active.content ++ held, rfl, by simp⟩
  | cons chunk chunks ih =>
      rw [collectChunks, pushStr_eq hspecs]
      simp only [extracted_add, Scanner.push]
      rcases run_active specs ((held ++ chunk).length + 1) active (held ++ chunk) with
        ⟨content, rest, hextracted, hprefix⟩ | ⟨active', hmode, htag, hcontent, hextracted⟩
      · refine ⟨content, by rw [hextracted]; rfl, hprefix.trans ?_⟩
        rw [List.flatten_cons]
        simp only [← List.append_assoc]
        exact List.prefix_append _ _
      · rw [hextracted, hmode]
        obtain ⟨content, hhead, hprefix⟩ := ih active'
          ((scanner specs).run ((held ++ chunk).length + 1) (some active) (held ++ chunk)).2.1
        refine ⟨content, by rw [← htag]; exact hhead, hprefix.trans ?_⟩
        rw [hcontent, List.flatten_cons]
        simp only [← List.append_assoc]
        exact List.prefix_refl _

/-- A tag that is not closed takes the rest of the text. -/
theorem collectChunks_unclosed (hspecs : WellFormed specs) {active : ActiveTag T} {held : Text}
    (h : find? active.close held = none) :
    collectChunks ⟨specs, held, some active⟩ [[]] =
      { extracted := [⟨active.tag, active.content ++ held⟩] } := by
  have hnext : (scanner specs).next (some active) held = none := by
    simp [scanner, nextDelimiter, h]
  rw [collectChunks_eq hspecs]
  simp only [Scanner.pushAll, Scanner.push, List.append_nil, add_zero]
  rw [Scanner.run_of_next_eq_none hnext]
  simp only [scanner, plainText, finish, List.append_assoc, List.take_append_drop]
  exact zero_add _

theorem find?_singleton_eq_none {needle : Text} (hne : needle ≠ []) {c : Char}
    (hc : c ≠ needle.head hne) : find? needle [c] = none := by
  rw [find?_eq_none_iff hne]
  intro j hocc
  obtain ⟨a, needle, rfl⟩ := List.exists_cons_of_ne_nil hne
  rcases j with _ | j
  · have hprefix : a :: needle <+: [c] := hocc
    exact hc (List.cons_prefix_cons.mp hprefix).1.symm
  · have hlength := hocc.length_le
    simp at hlength

/-- Of the delimiters around others, one that no delimiter extends, at its first index. -/
theorem IsNested.exists_longest (hformed : WellFormed specs) (h : IsNested specs) :
    ∃ inner ∈ specs, ∃ (n : Nat) (outer : InlineTagSpec T), specs[n]? = some outer ∧
      inner.openDelimiter <:+: outer.openDelimiter.dropLast ∧
      (∀ spec ∈ specs, ¬outer.openDelimiter <+: spec.openDelimiter.dropLast) ∧
      ∀ (n' : Nat) (spec : InlineTagSpec T), specs[n']? = some spec →
        spec.openDelimiter = outer.openDelimiter → n ≤ n' := by
  classical
  let outers := specs.filter fun outer =>
    decide (∃ inner ∈ specs, inner.openDelimiter <:+: outer.openDelimiter.dropLast)
  obtain ⟨inner₀, hinner₀, outer₀, houter₀, hinside₀⟩ := h
  have hmem₀ : outer₀ ∈ outers :=
    List.mem_filter.mpr ⟨houter₀, decide_eq_true ⟨inner₀, hinner₀, hinside₀⟩⟩
  obtain ⟨longest, hlongest⟩ : ∃ longest, longest ∈ outers.argmax fun spec =>
      spec.openDelimiter.length := by
    rcases hmax : outers.argmax fun spec => spec.openDelimiter.length with _ | longest
    · rw [List.argmax_eq_none.mp hmax] at hmem₀
      simp at hmem₀
    · exact ⟨longest, hmax⟩
  obtain ⟨hspecs, hinner⟩ := List.mem_filter.mp (List.argmax_mem hlongest)
  obtain ⟨inner, hinner, hinside⟩ := of_decide_eq_true hinner
  have hfirst : ∃ n : Nat, ∃ spec : InlineTagSpec T, specs[n]? = some spec ∧
      spec.openDelimiter = longest.openDelimiter := by
    obtain ⟨n, hn⟩ := List.getElem?_of_mem hspecs
    exact ⟨n, longest, hn, rfl⟩
  obtain ⟨outer, houter, hsame⟩ := Nat.find_spec hfirst
  refine ⟨inner, hinner, Nat.find hfirst, outer, houter, hsame ▸ hinside, ?_, ?_⟩
  · intro spec hspec hextends
    rw [hsame] at hextends
    have hlength := hextends.length_le
    rw [List.length_dropLast] at hlength
    have hin : spec ∈ outers := by
      refine List.mem_filter.mpr ⟨hspec, decide_eq_true ⟨inner, hinner, ?_⟩⟩
      exact (hinside.trans (List.dropLast_prefix _).isInfix).trans hextends.isInfix
    have hle := List.le_of_mem_argmax hin hlongest
    have hpos := List.length_pos_iff.mpr (hformed.open_ne spec hspec)
    omega
  · intro n' spec hspec heq
    exact Nat.find_min' hfirst ⟨spec, hspec, heq.trans hsame⟩

theorem exists_char_ne (a b : Char) : ∃ c, c ≠ a ∧ c ≠ b := by
  by_cases h : 'x' ≠ a ∧ 'x' ≠ b
  · exact ⟨'x', h⟩
  · by_cases h' : 'y' ≠ a ∧ 'y' ≠ b
    · exact ⟨'y', h'⟩
    · refine ⟨'z', ?_, ?_⟩
      · rintro rfl
        simp only [ne_eq, Char.reduceEq, not_false_eq_true, true_and, not_not] at h h'
        exact absurd (h.trans h'.symm) (by decide)
      · rintro rfl
        simp only [ne_eq, Char.reduceEq, not_false_eq_true, and_true, not_not] at h h'
        exact absurd (h.trans h'.symm) (by decide)

/-- A delimiter that no other extends is the next one where it stands, whatever follows it. -/
theorem isNextOpen_longest {n : Nat} {outer : InlineTagSpec T} (houter : specs[n]? = some outer)
    (hlongest : ∀ spec ∈ specs, ¬outer.openDelimiter <+: spec.openDelimiter.dropLast)
    (hfirst : ∀ (n' : Nat) (spec : InlineTagSpec T), specs[n']? = some spec →
      spec.openDelimiter = outer.openDelimiter → n ≤ n') (c : Char) :
    IsNextOpen specs (outer.openDelimiter ++ [c]) 0 n outer := by
  refine ⟨houter, List.prefix_append _ _, ?_⟩
  intro n' spec' j hspec' hocc
  rw [Candidate.rank_le_iff]
  rcases Nat.eq_zero_or_pos j with rfl | hpos
  · refine .inr ⟨rfl, ?_⟩
    have hprefix : spec'.openDelimiter <+: outer.openDelimiter ++ [c] := hocc
    rcases List.prefix_concat_iff.mp hprefix with heq | hshort
    · refine absurd ?_ (hlongest spec' (List.mem_of_getElem? hspec'))
      rw [heq, List.dropLast_concat]
    · rcases Nat.lt_or_eq_of_le hshort.length_le with hlt | heq
      · exact .inl hlt
      · exact .inr ⟨heq, hfirst n' spec' hspec' (hshort.eq_of_length heq)⟩
  · exact .inl hpos

/-- With nested delimiters, a chunk can end where the inner one is complete and the outer one is
not. -/
theorem IsNested.exists_chunks (hspecs : WellFormed specs) (h : IsNested specs) :
    ∃ chunks : List Text,
      collectChunks { specs } chunks ≠ collectChunks { specs } [chunks.flatten] := by
  obtain ⟨inner, hinner, n, outer, houter, hinside, hlongest, hfirst⟩ := h.exists_longest hspecs
  have hne := hspecs.open_ne outer (List.mem_of_getElem? houter)
  have hclose := hspecs.close_ne outer (List.mem_of_getElem? houter)
  -- The delimiter that is found in the first chunk.
  obtain ⟨i, m, found, hfound⟩ : ∃ i m found,
      IsNextOpen specs outer.openDelimiter.dropLast i m found := by
    cases hopen : findNextOpen specs outer.openDelimiter.dropLast with
    | none =>
        obtain ⟨before, after, heq⟩ := hinside
        refine absurd ?_ ((findNextOpen_eq_none_iff hspecs).mp hopen inner hinner before.length)
        rw [← heq, List.append_assoc]
        exact (occursAt_append_add (i := 0)).mpr (List.prefix_append _ _)
    | some position =>
        obtain ⟨spec, hnext⟩ := (findNextOpen_eq_some_iff hspecs).mp hopen
        exact ⟨_, _, spec, hnext⟩
  have hend := hfound.add_length_le hspecs
  have hlast : outer.openDelimiter.dropLast ++ [outer.openDelimiter.getLast hne] =
      outer.openDelimiter := List.dropLast_append_getLast hne
  obtain ⟨first, after, hafter⟩ : ∃ first after, outer.openDelimiter.dropLast.drop
      (i + found.openDelimiter.length) ++ [outer.openDelimiter.getLast hne] = first :: after :=
    List.exists_cons_of_ne_nil (by simp)
  obtain ⟨c, hcfirst, hcclose⟩ := exists_char_ne first (outer.closeDelimiter.head hclose)
  refine ⟨[outer.openDelimiter.dropLast, [outer.openDelimiter.getLast hne, c]], ?_⟩
  have htext : [outer.openDelimiter.dropLast, [outer.openDelimiter.getLast hne, c]].flatten =
      outer.openDelimiter ++ [c] := by
    calc [outer.openDelimiter.dropLast, [outer.openDelimiter.getLast hne, c]].flatten
        = (outer.openDelimiter.dropLast ++ [outer.openDelimiter.getLast hne]) ++ [c] := by simp
      _ = outer.openDelimiter ++ [c] := by rw [hlast]
  -- The whole text opens the outer tag, which takes the last character.
  have hwhole : collectChunks { specs } [outer.openDelimiter ++ [c]] =
      { extracted := [⟨outer.tag, [c]⟩] } := by
    rw [collectChunks_open hspecs (isNextOpen_longest houter hlongest hfirst c), Nat.zero_add,
      List.drop_left, collectChunks_unclosed hspecs (find?_singleton_eq_none hclose hcclose)]
    exact zero_add _
  rw [htext, hwhole, collectChunks_open hspecs hfound]
  intro hsame
  rcases Nat.eq_zero_or_pos i with rfl | hpos
  · obtain ⟨content, hhead, hprefix⟩ := collectChunks_active hspecs
      ⟨found.tag, found.closeDelimiter, []⟩
      (outer.openDelimiter.dropLast.drop (0 + found.openDelimiter.length))
      [[], [outer.openDelimiter.getLast hne, c]]
    have hextracted := congrArg (fun out => out.extracted.head?) hsame
    simp only [extracted_add, List.nil_append, hhead, List.head?_cons, Option.some_inj,
      ExtractedInlineTag.mk.injEq] at hextracted
    rw [hextracted.2] at hprefix
    have hfollows : [c] <+: first :: (after ++ [c]) := by
      rw [← List.cons_append, ← hafter]
      simpa using hprefix
    exact hcfirst (List.cons_prefix_cons.mp hfollows).1
  · have hvisible := congrArg StreamTextChunk.visibleText hsame
    rw [visibleText_add, List.append_eq_nil_iff] at hvisible
    have hlength := congrArg List.length hvisible.1
    rw [List.length_take, List.length_nil] at hlength
    omega

/-- The parsers that `new` returns read every text the same in all chunks if and only if none of
their opening delimiters can be complete before another one around it is. -/
theorem collectChunks_flatten_iff {parser : InlineHiddenTagParser T} (h : new specs = some parser) :
    (∀ chunks, parser.collectChunks chunks = parser.collectChunks [chunks.flatten]) ↔
      ¬IsNested specs := by
  unfold new at h
  split_ifs at h with haccepts
  obtain rfl := Option.some_inj.mp h
  have hspecs := wellFormed_of_accepts haccepts
  constructor
  · intro hall hnested
    obtain ⟨chunks, hdiffer⟩ := hnested.exists_chunks hspecs
    exact hdiffer (hall chunks)
  · intro hnested chunks
    exact collectChunks_flatten hspecs hnested chunks

end Chunks

/-- Two delimiters of which one is the beginning of the other. -/
def extendedOpener : List (InlineTagSpec Nat) :=
  [⟨0, "<a".toList, "/".toList⟩, ⟨1, "<ab".toList, "/".toList⟩]

theorem collectChunks_extendedOpener :
    ∃ parser, new extendedOpener = some parser ∧
      parser.collectChunks ["x<a".toList, "by/".toList] =
        ⟨"x".toList, [⟨0, "by".toList⟩]⟩ ∧
      parser.collectChunks ["x<aby/".toList] = ⟨"x".toList, [⟨1, "y".toList⟩]⟩ ∧
      ¬∀ chunks, parser.collectChunks chunks = parser.collectChunks [chunks.flatten] := by
  refine ⟨{ specs := extendedOpener }, by decide +kernel, by decide +kernel, by decide +kernel, ?_⟩
  intro hall
  exact absurd (hall ["x<a".toList, "by/".toList]) (by decide +kernel)

/-- Delimiters that are not nested. -/
theorem collectChunks_flatten_citation :
    let specs : List (InlineTagSpec Nat) := [⟨0, "<c>".toList, "</c>".toList⟩]
    ∃ parser, new specs = some parser ∧
      ∀ chunks, parser.collectChunks chunks = parser.collectChunks [chunks.flatten] := by
  intro specs
  have hnew : new specs = some { specs } := by decide +kernel
  refine ⟨{ specs }, hnew, (collectChunks_flatten_iff hnew).mpr ?_⟩
  rintro ⟨inner, hinner, outer, houter, hinside⟩
  rw [List.mem_singleton.mp hinner, List.mem_singleton.mp houter] at hinside
  have hlength := hinside.length_le
  simp at hlength

end InlineHiddenTagParser

end Codewith.StreamParser
