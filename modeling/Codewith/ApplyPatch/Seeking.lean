import Codewith.ApplyPatch.Placement

/-!
# What a search finds

Lines are sought with decreasing strictness, and within one comparison from the start on.  At
the end of a file the end alone is looked at, whatever the start, although the search is meant
to fall back to it.  So a pattern that only stands earlier is missed, and one that stands at the
end is also found before the start.
-/

namespace Codewith.ApplyPatch

open Lib

/-! ### Comparisons -/

/-- How lines are compared, from the strictest on. -/
inductive Comparison
  | exact
  | trimEnd
  | trim
  | normalised
deriving DecidableEq, Repr

namespace Comparison

def key : Comparison → Text → Text
  | exact => id
  | trimEnd => Text.trimEnd
  | trim => Text.trim
  | normalised => normalise

def rank : Comparison → Nat
  | exact => 0
  | trimEnd => 1
  | trim => 2
  | normalised => 3

end Comparison

def MatchesAt (comparison : Comparison) (lines pattern : List Text) (idx : Nat) : Prop :=
  idx + pattern.length ≤ lines.length ∧
    ((lines.drop idx).take pattern.length).map comparison.key = pattern.map comparison.key

instance (comparison : Comparison) (lines pattern : List Text) (idx : Nat) :
    Decidable (MatchesAt comparison lines pattern idx) :=
  inferInstanceAs (Decidable (_ ∧ _))

theorem trim_eq_of_trimEnd_eq {a b : Text} (h : Text.trimEnd a = Text.trimEnd b) :
    Text.trim a = Text.trim b := by
  have htrim : ∀ s, Text.trim (Text.trimEnd s) = Text.trim s := by
    intro s
    obtain ⟨w, hw, hs⟩ := Text.exists_trailing s
    conv_rhs => rw [← hs, Text.trim_append_of_allWhitespace _ hw]
  rw [← htrim a, h, htrim b]

/-- Lines that are equal in a comparison are equal in each weaker one. -/
theorem key_eq_of_rank_le {strict weak : Comparison} (h : strict.rank ≤ weak.rank) {a b : Text}
    (hkey : strict.key a = strict.key b) : weak.key a = weak.key b := by
  have hnormalise : Text.trim a = Text.trim b → normalise a = normalise b := by
    intro htrim
    rw [normalise, normalise, htrim]
  cases strict with
  | exact =>
      have hsame : a = b := hkey
      rw [hsame]
  | trimEnd =>
      cases weak with
      | exact => simp [Comparison.rank] at h
      | trimEnd => exact hkey
      | trim => exact trim_eq_of_trimEnd_eq hkey
      | normalised => exact hnormalise (trim_eq_of_trimEnd_eq hkey)
  | trim =>
      cases weak with
      | exact => simp [Comparison.rank] at h
      | trimEnd => simp [Comparison.rank] at h
      | trim => exact hkey
      | normalised => exact hnormalise hkey
  | normalised =>
      cases weak with
      | exact => simp [Comparison.rank] at h
      | trimEnd => simp [Comparison.rank] at h
      | trim => simp [Comparison.rank] at h
      | normalised => exact hkey

theorem map_key_eq_of_rank_le {strict weak : Comparison} (h : strict.rank ≤ weak.rank)
    {a b : List Text} (hkey : a.map strict.key = b.map strict.key) :
    a.map weak.key = b.map weak.key := by
  induction a generalizing b with
  | nil =>
      cases b with
      | nil => rfl
      | cons line lines => cases hkey
  | cons first a ih =>
      cases b with
      | nil => cases hkey
      | cons line b =>
          rw [List.map_cons, List.map_cons, List.cons.injEq] at hkey
          rw [List.map_cons, List.map_cons, key_eq_of_rank_le h hkey.1, ih hkey.2]

variable {lines pattern : List Text} {start : Nat} {comparison : Comparison}

theorem MatchesAt.weaken {strict weak : Comparison} (h : strict.rank ≤ weak.rank) {idx : Nat}
    (hmatch : MatchesAt strict lines pattern idx) : MatchesAt weak lines pattern idx :=
  ⟨hmatch.1, map_key_eq_of_rank_le h hmatch.2⟩

/-! ### One pass -/

theorem mem_searched {searchStart idx : Nat} :
    idx ∈ List.range' searchStart (lines.length - pattern.length + 1 - searchStart) ↔
      searchStart ≤ idx ∧ idx ≤ lines.length - pattern.length := by
  rw [List.mem_range'_1]
  omega

theorem seekBy_eq_some (hlength : pattern.length ≤ lines.length) {idx : Nat} :
    seekBy comparison.key lines pattern start = some idx ↔
      start ≤ idx ∧ MatchesAt comparison lines pattern idx ∧
        ∀ other, start ≤ other → other < idx → ¬ MatchesAt comparison lines pattern other := by
  unfold seekBy
  rw [List.find?_range'_eq_some]
  simp only [decide_eq_true_eq, Bool.not_eq_true', decide_eq_false_iff_not, mem_searched]
  constructor
  · rintro ⟨hmatch, ⟨hstart, hend⟩, hleast⟩
    refine ⟨hstart, ⟨by omega, hmatch⟩, fun other hother hlt hmatch => ?_⟩
    exact hleast other hother hlt hmatch.2
  · rintro ⟨hstart, ⟨hend, hmatch⟩, hleast⟩
    refine ⟨hmatch, ⟨hstart, by omega⟩, fun other hother hlt hkeys => ?_⟩
    exact hleast other hother hlt ⟨by omega, hkeys⟩

theorem seekBy_eq_none (comparison : Comparison) (hlength : pattern.length ≤ lines.length) :
    seekBy comparison.key lines pattern start = none ↔
      ∀ idx, start ≤ idx → ¬ MatchesAt comparison lines pattern idx := by
  unfold seekBy
  rw [List.find?_eq_none]
  simp only [decide_eq_true_eq, mem_searched]
  constructor
  · rintro h idx hstart ⟨hend, hmatch⟩
    exact h idx ⟨hstart, by omega⟩ hmatch
  · rintro h idx ⟨hstart, hend⟩ hmatch
    exact h idx hstart ⟨by omega, hmatch⟩

/-! ### All passes -/

/-- The result of a pass and of no stricter one: the least index for its comparison. -/
structure FoundAt (lines pattern : List Text) (start idx : Nat) (comparison : Comparison) :
    Prop where
  start_le : start ≤ idx
  matches_at : MatchesAt comparison lines pattern idx
  least : ∀ other, start ≤ other → other < idx → ¬ MatchesAt comparison lines pattern other
  strictest : ∀ stricter : Comparison, stricter.rank < comparison.rank →
    ∀ other, start ≤ other → ¬ MatchesAt stricter lines pattern other

theorem passes_eq_some (hlength : pattern.length ≤ lines.length) {idx : Nat}
    (h : ((seekBy id lines pattern start).or <| (seekBy Text.trimEnd lines pattern start).or <|
        (seekBy Text.trim lines pattern start).or <| seekBy normalise lines pattern start) =
      some idx) : ∃ comparison, FoundAt lines pattern start idx comparison := by
  have hfound : ∀ comparison : Comparison,
      seekBy comparison.key lines pattern start = some idx →
      (∀ stricter : Comparison, stricter.rank < comparison.rank →
        seekBy stricter.key lines pattern start = none) →
      FoundAt lines pattern start idx comparison := by
    intro comparison hsome hnone
    obtain ⟨hstart, hmatch, hleast⟩ := (seekBy_eq_some hlength).mp hsome
    exact ⟨hstart, hmatch, hleast, fun stricter hlt =>
      (seekBy_eq_none stricter hlength).mp (hnone stricter hlt)⟩
  simp only [Option.or_eq_some_iff] at h
  rcases h with h | ⟨hexact, h | ⟨htrimEnd, h | ⟨htrim, h⟩⟩⟩
  · refine ⟨.exact, hfound _ h fun stricter hlt => ?_⟩
    cases stricter <;> simp [Comparison.rank] at hlt
  · refine ⟨.trimEnd, hfound _ h fun stricter hlt => ?_⟩
    cases stricter <;> first | exact hexact | simp [Comparison.rank] at hlt
  · refine ⟨.trim, hfound _ h fun stricter hlt => ?_⟩
    cases stricter <;> first | exact hexact | exact htrimEnd | simp [Comparison.rank] at hlt
  · refine ⟨.normalised, hfound _ h fun stricter hlt => ?_⟩
    cases stricter <;>
      first | exact hexact | exact htrimEnd | exact htrim | simp [Comparison.rank] at hlt

theorem passes_eq_none (hlength : pattern.length ≤ lines.length)
    (h : ((seekBy id lines pattern start).or <| (seekBy Text.trimEnd lines pattern start).or <|
        (seekBy Text.trim lines pattern start).or <| seekBy normalise lines pattern start) = none)
    (comparison : Comparison) {idx : Nat} (hstart : start ≤ idx) :
    ¬ MatchesAt comparison lines pattern idx := by
  simp only [Option.or_eq_none_iff] at h
  obtain ⟨hexact, htrimEnd, htrim, hnormalised⟩ := h
  cases comparison with
  | exact => exact (seekBy_eq_none .exact hlength).mp hexact idx hstart
  | trimEnd => exact (seekBy_eq_none .trimEnd hlength).mp htrimEnd idx hstart
  | trim => exact (seekBy_eq_none .trim hlength).mp htrim idx hstart
  | normalised =>
      exact (seekBy_eq_none .normalised hlength).mp hnormalised idx hstart

/-! ### The documented search -/

/-- Where a pattern at the end stands. -/
def tailIdx (lines pattern : List Text) : Nat := lines.length - pattern.length

/-- What the search is meant to return: an empty pattern is found at the start.  Another one is
found by the strictest comparison that finds it at all from the start on: at the end, if the end
is asked for and it matches there, and otherwise at the first index. -/
def Documented (lines pattern : List Text) (start : Nat) (eof : Bool) : Option Nat → Prop
  | some idx =>
      if pattern = [] then idx = start
      else start ≤ idx ∧ ∃ comparison, MatchesAt comparison lines pattern idx ∧
        (∀ stricter : Comparison, stricter.rank < comparison.rank →
          ∀ other, start ≤ other → ¬ MatchesAt stricter lines pattern other) ∧
        if eof = true ∧ start ≤ tailIdx lines pattern ∧
            MatchesAt comparison lines pattern (tailIdx lines pattern) then
          idx = tailIdx lines pattern
        else
          ∀ other, start ≤ other → other < idx → ¬ MatchesAt comparison lines pattern other
  | none => pattern ≠ [] ∧ ∀ comparison idx, start ≤ idx → ¬ MatchesAt comparison lines pattern idx

/-- Where the end is asked for, the pattern stands there in each comparison in which it stands
anywhere from the start on, and does not stand there before the start. -/
def EndDecides (lines pattern : List Text) (start : Nat) : Prop :=
  (∀ comparison idx, start ≤ idx → MatchesAt comparison lines pattern idx →
    MatchesAt comparison lines pattern (tailIdx lines pattern)) ∧
  (tailIdx lines pattern < start → ∀ comparison,
    ¬ MatchesAt comparison lines pattern (tailIdx lines pattern))

theorem documented_from_start (hpattern : pattern ≠ []) (hlength : pattern.length ≤ lines.length) :
    Documented lines pattern start false (seekSequence lines pattern start false) := by
  unfold seekSequence
  rw [if_neg hpattern, if_neg (Nat.not_lt.mpr hlength)]
  dsimp only
  rw [if_neg Bool.false_ne_true]
  cases hresult : (seekBy id lines pattern start).or <|
      (seekBy Text.trimEnd lines pattern start).or <|
        (seekBy Text.trim lines pattern start).or <| seekBy normalise lines pattern start with
  | none => exact ⟨hpattern, fun comparison idx => passes_eq_none hlength hresult comparison⟩
  | some idx =>
      obtain ⟨comparison, hfound⟩ := passes_eq_some hlength hresult
      rw [Documented, if_neg hpattern]
      refine ⟨hfound.start_le, comparison, hfound.matches_at, hfound.strictest, ?_⟩
      rw [if_neg fun h => Bool.false_ne_true h.1]
      exact hfound.least

/-- At the end, only the end is looked at. -/
theorem seekSequence_eof (start : Nat) (hpattern : pattern ≠ [])
    (hlength : pattern.length ≤ lines.length) :
    (seekSequence lines pattern start true = some (tailIdx lines pattern) ∧
      ∃ comparison, MatchesAt comparison lines pattern (tailIdx lines pattern) ∧
        ∀ stricter : Comparison, stricter.rank < comparison.rank →
          ¬ MatchesAt stricter lines pattern (tailIdx lines pattern)) ∨
    (seekSequence lines pattern start true = none ∧
      ∀ comparison, ¬ MatchesAt comparison lines pattern (tailIdx lines pattern)) := by
  have hsearch : seekSequence lines pattern start true =
      ((seekBy id lines pattern (tailIdx lines pattern)).or <|
        (seekBy Text.trimEnd lines pattern (tailIdx lines pattern)).or <|
          (seekBy Text.trim lines pattern (tailIdx lines pattern)).or <|
            seekBy normalise lines pattern (tailIdx lines pattern)) := by
    unfold seekSequence tailIdx
    rw [if_neg hpattern, if_neg (Nat.not_lt.mpr hlength)]
    rfl
  rw [hsearch]
  cases hresult : (seekBy id lines pattern (tailIdx lines pattern)).or <|
      (seekBy Text.trimEnd lines pattern (tailIdx lines pattern)).or <|
        (seekBy Text.trim lines pattern (tailIdx lines pattern)).or <|
          seekBy normalise lines pattern (tailIdx lines pattern) with
  | none => exact .inr ⟨rfl, fun comparison => passes_eq_none hlength hresult comparison le_rfl⟩
  | some idx =>
      obtain ⟨comparison, hfound⟩ := passes_eq_some hlength hresult
      have hidx : idx = tailIdx lines pattern := by
        have hstart := hfound.start_le
        have hend := hfound.matches_at.1
        unfold tailIdx at hstart ⊢
        omega
      subst hidx
      exact .inl ⟨rfl, comparison, hfound.matches_at, fun stricter hlt =>
        hfound.strictest stricter hlt _ le_rfl⟩

/-- The search returns what it is meant to exactly if the end is not asked for, or the pattern is
empty or too long, or the end decides. -/
theorem seekSequence_documented_iff (lines pattern : List Text) (start : Nat) (eof : Bool) :
    Documented lines pattern start eof (seekSequence lines pattern start eof) ↔
      eof = false ∨ pattern = [] ∨ lines.length < pattern.length ∨
        EndDecides lines pattern start := by
  by_cases hpattern : pattern = []
  · refine iff_of_true ?_ (.inr (.inl hpattern))
    simp [seekSequence, Documented, hpattern]
  by_cases hlong : lines.length < pattern.length
  · refine iff_of_true ?_ (.inr (.inr (.inl hlong)))
    rw [seekSequence, if_neg hpattern, if_pos hlong]
    refine ⟨hpattern, fun comparison idx _ hmatch => ?_⟩
    have hend := hmatch.1
    omega
  have hlength : pattern.length ≤ lines.length := Nat.le_of_not_lt hlong
  cases eof with
  | false => exact iff_of_true (documented_from_start hpattern hlength) (.inl rfl)
  | true =>
      have hiff : Documented lines pattern start true (seekSequence lines pattern start true) ↔
          EndDecides lines pattern start := by
        rcases seekSequence_eof start hpattern hlength with
          ⟨hresult, comparison, hmatch, hstrictest⟩ | ⟨hresult, hnone⟩
        · rw [hresult, Documented, if_neg hpattern]
          constructor
          · rintro ⟨hstart, found, hfound, hstricter, -⟩
            refine ⟨fun other idx hidx hother => ?_, fun hlt => absurd hstart (Nat.not_le.mpr hlt)⟩
            -- A comparison that finds the pattern is no stricter than the one used.
            refine MatchesAt.weaken (Nat.le_of_not_lt fun hlt => ?_) hfound
            exact hstricter other hlt idx hidx hother
          · rintro ⟨hcover, hbefore⟩
            have hstart : start ≤ tailIdx lines pattern :=
              Nat.le_of_not_lt fun hlt => hbefore hlt comparison hmatch
            refine ⟨hstart, comparison, hmatch, fun stricter hlt other hother hstricter => ?_, ?_⟩
            · exact hstrictest stricter hlt (hcover stricter other hother hstricter)
            · rw [if_pos ⟨rfl, hstart, hmatch⟩]
        · rw [hresult, Documented]
          constructor
          · rintro ⟨-, hnowhere⟩
            refine ⟨fun other idx hidx hother => absurd hother (hnowhere other idx hidx), ?_⟩
            exact fun _ => hnone
          · rintro ⟨hcover, -⟩
            refine ⟨hpattern, fun other idx hidx hother => ?_⟩
            exact hnone other (hcover other idx hidx hother)
      rw [hiff]
      simp [hpattern, hlong]

/-- A pattern that stands before the end only is not found. -/
theorem seekSequence_eof_before_end :
    seekSequence [['a'], ['b']] [['a']] 0 true = none ∧
      MatchesAt .exact [['a'], ['b']] [['a']] 0 ∧
      ¬ Documented [['a'], ['b']] [['a']] 0 true (seekSequence [['a'], ['b']] [['a']] 0 true) := by
  have hnone : seekSequence [['a'], ['b']] [['a']] 0 true = none := by decide +kernel
  have hmatch : MatchesAt .exact [['a'], ['b']] [['a']] 0 := by decide +kernel
  refine ⟨hnone, hmatch, ?_⟩
  rw [hnone]
  rintro ⟨-, hnowhere⟩
  exact hnowhere .exact 0 le_rfl hmatch

end Codewith.ApplyPatch
