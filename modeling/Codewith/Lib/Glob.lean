import Codewith.Lib.Text

/-!
# Glob patterns

Patterns of plain characters, `?` for any character and `*` for any text, without regard to
case.
-/

namespace Codewith.Lib.Glob

def isMatch : Text → Text → Bool
  | [], host => host = []
  | '*' :: pattern, host => host.tails.any (isMatch pattern)
  | '?' :: pattern, host =>
      match host with
      | [] => false
      | _ :: host => isMatch pattern host
  | c :: pattern, host =>
      match host with
      | [] => false
      | d :: host => c.toLower = d.toLower && isMatch pattern host

theorem isMatch_plain {c : Char} (hstar : c ≠ '*') (hany : c ≠ '?') (pattern host : Text) :
    isMatch (c :: pattern) host = true ↔
      ∃ d rest, host = d :: rest ∧ c.toLower = d.toLower ∧ isMatch pattern rest = true := by
  rcases host with _ | ⟨d, host⟩
  · simp [isMatch]
  · simp [isMatch]

/-- A pattern of plain characters matches its own text in any case. -/
theorem isMatch_literal {pattern : Text} (h : ∀ c ∈ pattern, c ≠ '*' ∧ c ≠ '?') (host : Text) :
    isMatch pattern host = true ↔ host.map Char.toLower = pattern.map Char.toLower := by
  induction pattern generalizing host with
  | nil => simp [isMatch]
  | cons c pattern ih =>
      obtain ⟨hstar, hany⟩ := h c List.mem_cons_self
      have hrest := ih fun d hd => h d (List.mem_cons_of_mem c hd)
      rw [isMatch_plain hstar hany]
      constructor
      · rintro ⟨d, rest, rfl, hcase, hmatch⟩
        rw [List.map_cons, List.map_cons, hcase, (hrest rest).mp hmatch]
      · intro heq
        cases host with
        | nil => cases heq
        | cons d rest =>
            rw [List.map_cons, List.map_cons, List.cons.injEq] at heq
            exact ⟨d, rest, rfl, heq.1.symm, (hrest rest).mpr heq.2⟩

theorem isMatch_any (pattern host : Text) :
    isMatch ('?' :: pattern) host = true ↔
      ∃ d rest, host = d :: rest ∧ isMatch pattern rest = true := by
  rcases host with _ | ⟨d, host⟩
  · simp [isMatch]
  · simp [isMatch]

theorem isMatch_star (pattern host : Text) :
    isMatch ('*' :: pattern) host = true ↔
      ∃ skipped rest, host = skipped ++ rest ∧ isMatch pattern rest = true := by
  simp only [isMatch, List.any_eq_true, List.mem_tails]
  constructor
  · rintro ⟨rest, ⟨skipped, rfl⟩, hrest⟩
    exact ⟨skipped, rest, rfl, hrest⟩
  · rintro ⟨skipped, rest, rfl, hrest⟩
    exact ⟨rest, ⟨skipped, rfl⟩, hrest⟩

/-- A pattern after another one matches what follows a match of the first. -/
theorem isMatch_append (p q host : Text) :
    isMatch (p ++ q) host = true ↔
      ∃ a b, host = a ++ b ∧ isMatch p a = true ∧ isMatch q b = true := by
  induction p generalizing host with
  | nil => simp [isMatch]
  | cons c p ih =>
      rw [List.cons_append]
      by_cases hstar : c = '*'
      · subst hstar
        rw [isMatch_star]
        constructor
        · rintro ⟨skipped, rest, rfl, hrest⟩
          obtain ⟨a, b, rfl, ha, hb⟩ := (ih rest).mp hrest
          exact ⟨skipped ++ a, b, by simp, (isMatch_star _ _).mpr ⟨skipped, a, rfl, ha⟩, hb⟩
        · rintro ⟨a, b, rfl, ha, hb⟩
          obtain ⟨skipped, rest, rfl, hrest⟩ := (isMatch_star _ _).mp ha
          exact ⟨skipped, rest ++ b, by simp, (ih _).mpr ⟨rest, b, rfl, hrest, hb⟩⟩
      · by_cases hany : c = '?'
        · subst hany
          rw [isMatch_any]
          constructor
          · rintro ⟨d, rest, rfl, hrest⟩
            obtain ⟨a, b, rfl, ha, hb⟩ := (ih rest).mp hrest
            exact ⟨d :: a, b, rfl, (isMatch_any _ _).mpr ⟨d, a, rfl, ha⟩, hb⟩
          · rintro ⟨a, b, rfl, ha, hb⟩
            obtain ⟨d, rest, rfl, hrest⟩ := (isMatch_any _ _).mp ha
            exact ⟨d, rest ++ b, rfl, (ih _).mpr ⟨rest, b, rfl, hrest, hb⟩⟩
        · rw [isMatch_plain hstar hany]
          constructor
          · rintro ⟨d, rest, rfl, hcase, hrest⟩
            obtain ⟨a, b, rfl, ha, hb⟩ := (ih rest).mp hrest
            exact ⟨d :: a, b, rfl, (isMatch_plain hstar hany _ _).mpr ⟨d, a, rfl, hcase, ha⟩, hb⟩
          · rintro ⟨a, b, rfl, ha, hb⟩
            obtain ⟨d, rest, rfl, hcase, hrest⟩ := (isMatch_plain hstar hany _ _).mp ha
            exact ⟨d, rest ++ b, rfl, hcase, (ih _).mpr ⟨rest, b, rfl, hrest, hb⟩⟩

theorem isMatch_nonempty (host : Text) : isMatch "?*".toList host = true ↔ host ≠ [] := by
  change isMatch ('?' :: ['*']) host = true ↔ _
  rw [isMatch_any]
  constructor
  · rintro ⟨d, rest, rfl, -⟩
    simp
  · intro h
    obtain ⟨d, rest, rfl⟩ := List.exists_cons_of_ne_nil h
    exact ⟨d, rest, rfl, (isMatch_star _ _).mpr ⟨rest, [], by simp, rfl⟩⟩

end Codewith.Lib.Glob
