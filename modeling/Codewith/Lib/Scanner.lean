import Mathlib.Tactic

/-!
# Scanners that read a text in pieces

A scanner is in a mode.  It looks for the next delimiter that matters in its mode, treats what
stands before it as plain text, and goes on in the mode that the delimiter leads to.  When there
is none, it holds back the end of the text, since a delimiter may have begun there.

If a delimiter that was found stays the next one however the text goes on, the pieces a text is
read in do not matter (`Scanner.run_append`).
-/

namespace Codewith.Lib

structure Scanner (α M K O : Type) where
  /-- The position, the length and the kind of the next delimiter. -/
  next : M → List α → Option (Nat × Nat × K)
  /-- How much is held back when there is none. -/
  hold : M → List α → Nat
  plain : M → List α → M × O
  delimiter : M → K → M × O

namespace Scanner

variable {α M K O : Type} [AddMonoid O]

/-- Plain text and the delimiter after it. -/
def pass (S : Scanner α M K O) (m : M) (before : List α) (kind : K) : M × O :=
  let plain := S.plain m before
  let found := S.delimiter plain.1 kind
  (found.1, plain.2 + found.2)

/-- Read as far as the text allows; the text that is left is held back. -/
def run (S : Scanner α M K O) : Nat → M → List α → M × List α × O
  | 0, m, text => (m, text, 0)
  | fuel + 1, m, text =>
      match S.next m text with
      | some (position, length, kind) =>
          let passed := S.pass m (text.take position) kind
          let after := S.run fuel passed.1 (text.drop (position + length))
          (after.1, after.2.1, passed.2 + after.2.2)
      | none =>
          let before := S.plain m (text.take (text.length - S.hold m text))
          (before.1, text.drop (text.length - S.hold m text), before.2)

/-- What makes a scanner read a text from left to right. -/
structure Lawful (S : Scanner α M K O) (Valid : M → Prop) : Prop where
  valid_plain : ∀ {m}, Valid m → ∀ text, Valid (S.plain m text).1
  valid_pass : ∀ {m text position length kind}, Valid m →
    S.next m text = some (position, length, kind) →
      Valid (S.pass m (text.take position) kind).1
  plain_nil : ∀ m, S.plain m [] = (m, 0)
  plain_append : ∀ m text rest, S.plain m (text ++ rest) =
    ((S.plain (S.plain m text).1 rest).1, (S.plain m text).2 + (S.plain (S.plain m text).1 rest).2)
  next_plain : ∀ m text, S.next (S.plain m text).1 = S.next m
  hold_plain : ∀ m text, S.hold (S.plain m text).1 = S.hold m
  hold_le : ∀ m text, S.hold m text ≤ text.length
  length_pos : ∀ {m text position length kind}, Valid m →
    S.next m text = some (position, length, kind) → 0 < length ∧ position + length ≤ text.length
  next_drop : ∀ {m text}, Valid m → S.next m text = none → ∀ rest,
    S.next m (text ++ rest) =
      (S.next m (text.drop (text.length - S.hold m text) ++ rest)).map fun found =>
        (text.length - S.hold m text + found.1, found.2)
  hold_drop : ∀ {m text}, Valid m → S.next m text = none → ∀ rest,
    S.hold m (text.drop (text.length - S.hold m text) ++ rest) = S.hold m (text ++ rest)

/-- A delimiter that has been found stays the next one. -/
def Stable (S : Scanner α M K O) (Valid : M → Prop) : Prop :=
  ∀ {m text found}, Valid m → S.next m text = some found → ∀ rest,
    S.next m (text ++ rest) = some found

variable {S : Scanner α M K O} {Valid : M → Prop} {m : M} {text rest : List α}
  {position length fuel fuel' : Nat} {kind : K}

theorem run_of_next_eq_some (h : S.next m text = some (position, length, kind)) :
    S.run (fuel + 1) m text =
      ((S.run fuel (S.pass m (text.take position) kind).1 (text.drop (position + length))).1,
        (S.run fuel (S.pass m (text.take position) kind).1 (text.drop (position + length))).2.1,
        (S.pass m (text.take position) kind).2 +
          (S.run fuel (S.pass m (text.take position) kind).1
            (text.drop (position + length))).2.2) := by
  rw [run, h]

theorem run_of_next_eq_none (h : S.next m text = none) :
    S.run (fuel + 1) m text =
      ((S.plain m (text.take (text.length - S.hold m text))).1,
        text.drop (text.length - S.hold m text),
        (S.plain m (text.take (text.length - S.hold m text))).2) := by
  rw [run, h]

namespace Lawful

variable (hS : S.Lawful Valid)

include hS

/-- Every delimiter uses up some of the text, so that fuel for the whole of it is enough. -/
theorem run_eq (hm : Valid m) (h : text.length < fuel) (h' : text.length < fuel') :
    S.run fuel m text = S.run fuel' m text := by
  induction fuel generalizing m text fuel' with
  | zero => omega
  | succ fuel ih =>
      obtain ⟨fuel', rfl⟩ : ∃ k, fuel' = k + 1 := ⟨fuel' - 1, by omega⟩
      cases hnext : S.next m text with
      | none => rw [run_of_next_eq_none hnext, run_of_next_eq_none hnext]
      | some found =>
          obtain ⟨position, length, kind⟩ := found
          obtain ⟨hpos, hend⟩ := hS.length_pos hm hnext
          have hrest : (text.drop (position + length)).length < fuel := by
            rw [List.length_drop]
            omega
          have hrest' : (text.drop (position + length)).length < fuel' := by
            rw [List.length_drop]
            omega
          rw [run_of_next_eq_some hnext, run_of_next_eq_some hnext,
            ih (hS.valid_pass hm hnext) hrest hrest']

theorem valid_run (hm : Valid m) (h : text.length < fuel) : Valid (S.run fuel m text).1 := by
  induction fuel generalizing m text with
  | zero => omega
  | succ fuel ih =>
      cases hnext : S.next m text with
      | none =>
          rw [run_of_next_eq_none hnext]
          exact hS.valid_plain hm _
      | some found =>
          obtain ⟨position, length, kind⟩ := found
          obtain ⟨hpos, hend⟩ := hS.length_pos hm hnext
          rw [run_of_next_eq_some hnext]
          exact ih (hS.valid_pass hm hnext) (by rw [List.length_drop]; omega)

/-- Plain text in front of a text is passed over. -/
theorem pass_append (m : M) (before : List α) (kind : K) :
    S.pass m (text ++ before) kind =
      ((S.pass (S.plain m text).1 before kind).1,
        (S.plain m text).2 + (S.pass (S.plain m text).1 before kind).2) := by
  simp only [pass, hS.plain_append m text before, add_assoc]

theorem length_run_le (hm : Valid m) (fuel : Nat) (text : List α) :
    (S.run fuel m text).2.1.length ≤ text.length := by
  induction fuel generalizing m text with
  | zero => exact Nat.le_refl _
  | succ fuel ih =>
      cases hnext : S.next m text with
      | none =>
          rw [run_of_next_eq_none hnext, List.length_drop]
          omega
      | some found =>
          obtain ⟨position, length, kind⟩ := found
          rw [run_of_next_eq_some hnext]
          refine (ih (hS.valid_pass hm hnext) _).trans ?_
          rw [List.length_drop]
          omega

/-- A text without a delimiter leaves the scanner where a longer one would bring it. -/
theorem run_append_of_next_eq_none (hm : Valid m) (hnext : S.next m text = none)
    (h : (text ++ rest).length < fuel) :
    S.run fuel m (text ++ rest) =
      let plain := S.plain m (text.take (text.length - S.hold m text))
      let after := S.run fuel plain.1 (text.drop (text.length - S.hold m text) ++ rest)
      (after.1, after.2.1, plain.2 + after.2.2) := by
  obtain ⟨fuel, rfl⟩ : ∃ k, fuel = k + 1 := ⟨fuel - 1, by omega⟩
  have hdrop := hS.next_drop hm hnext rest
  have hhold := hS.hold_drop hm hnext rest
  have hle := hS.hold_le m (text.drop (text.length - S.hold m text) ++ rest)
  generalize hd : text.length - S.hold m text = d at hdrop hhold hle ⊢
  have hdlt : d ≤ text.length := by omega
  have hsplit : text ++ rest = text.take d ++ (text.drop d ++ rest) := by
    rw [← List.append_assoc, List.take_append_drop]
  have hlength : (text ++ rest).length = d + (text.drop d ++ rest).length := by
    rw [List.length_append, List.length_append, List.length_drop]
    omega
  have htake : ∀ n, (text ++ rest).take (d + n) = text.take d ++ (text.drop d ++ rest).take n := by
    intro n
    rw [hsplit, List.take_append, List.length_take, List.take_of_length_le (by simp)]
    congr 2
    omega
  have hrest : ∀ n, (text ++ rest).drop (d + n) = (text.drop d ++ rest).drop n := by
    intro n
    rw [hsplit, List.drop_append, List.length_take, List.drop_eq_nil_of_le (by simp)]
    simp only [List.nil_append]
    congr 1
    omega
  have hplain : S.next (S.plain m (text.take d)).1 (text.drop d ++ rest) =
      S.next m (text.drop d ++ rest) := by rw [hS.next_plain]
  cases hafter : S.next m (text.drop d ++ rest) with
  | none =>
      rw [hafter] at hdrop hplain
      simp only [run_of_next_eq_none hdrop, run_of_next_eq_none hplain, hS.hold_plain, hhold]
      rw [hhold] at hle
      have hend : (text ++ rest).length - S.hold m (text ++ rest) =
          d + ((text.drop d ++ rest).length - S.hold m (text ++ rest)) := by omega
      rw [hend, htake, hrest, hS.plain_append]
  | some found =>
      obtain ⟨position, length, kind⟩ := found
      rw [hafter] at hdrop hplain
      simp only [run_of_next_eq_some hdrop, run_of_next_eq_some hplain]
      rw [htake, Nat.add_assoc, hrest, hS.pass_append]
      simp only [add_assoc]

/-- The pieces a text is read in do not matter. -/
theorem run_append (hstable : S.Stable Valid) (hm : Valid m) (h : (text ++ rest).length < fuel) :
    S.run fuel m (text ++ rest) =
      let first := S.run fuel m text
      let second := S.run fuel first.1 (first.2.1 ++ rest)
      (second.1, second.2.1, first.2.2 + second.2.2) := by
  induction fuel generalizing m text with
  | zero => omega
  | succ fuel ih =>
      cases hnext : S.next m text with
      | none =>
          rw [hS.run_append_of_next_eq_none hm hnext h, run_of_next_eq_none hnext]
      | some found =>
          obtain ⟨position, length, kind⟩ := found
          obtain ⟨hpos, hend⟩ := hS.length_pos hm hnext
          have hvalid := hS.valid_pass hm hnext
          rw [List.length_append] at h
          have hshort : (text.drop (position + length) ++ rest).length < fuel := by
            rw [List.length_append, List.length_drop]
            omega
          rw [run_of_next_eq_some (hstable hm hnext rest), run_of_next_eq_some hnext,
            List.take_append_of_le_length (by omega), List.drop_append_of_le_length hend,
            ih hvalid hshort]
          -- The second run has one more unit of fuel than it needs.
          have hfirst : (text.drop (position + length)).length < fuel := by
            rw [List.length_drop]
            omega
          have hsecond := hS.valid_run hvalid hfirst
          have hleft := hS.length_run_le hvalid fuel (text.drop (position + length))
          rw [List.length_append] at hshort
          have hfuel := hS.run_eq hsecond
            (show ((S.run fuel (S.pass m (text.take position) kind).1
              (text.drop (position + length))).2.1 ++ rest).length < fuel by
                rw [List.length_append]; omega)
            (show _ < fuel + 1 by rw [List.length_append]; omega)
          simp only [add_assoc, hfuel]

theorem run_nil (hm : Valid m) : S.run (fuel + 1) m [] = (m, [], 0) := by
  cases hnext : S.next m [] with
  | none =>
      rw [run_of_next_eq_none hnext]
      simp [hS.plain_nil]
  | some found =>
      obtain ⟨position, length, kind⟩ := found
      obtain ⟨hpos, hend⟩ := hS.length_pos hm hnext
      simp only [List.length_nil] at hend
      omega

end Lawful

/-! ## Pieces -/

/-- Read one more piece after the text that was held back. -/
def push (S : Scanner α M K O) (m : M) (held piece : List α) : M × List α × O :=
  S.run ((held ++ piece).length + 1) m (held ++ piece)

def pushAll (S : Scanner α M K O) : M → List α → List (List α) → M × List α × O
  | m, held, [] => (m, held, 0)
  | m, held, piece :: pieces =>
      let first := S.push m held piece
      let rest := S.pushAll first.1 first.2.1 pieces
      (rest.1, rest.2.1, first.2.2 + rest.2.2)

theorem Lawful.push_append (hS : S.Lawful Valid) (hstable : S.Stable Valid) (hm : Valid m)
    (held : List α) :
    S.push m held (text ++ rest) =
      let first := S.push m held text
      let second := S.push first.1 first.2.1 rest
      (second.1, second.2.1, first.2.2 + second.2.2) := by
  have hfirst := hS.length_run_le hm ((held ++ text).length + 1) (held ++ text)
  have hsecond : Valid (S.run ((held ++ text).length + 1) m (held ++ text)).1 :=
    hS.valid_run hm (Nat.lt_succ_self _)
  have hfuel : S.run ((held ++ text ++ rest).length + 1) m (held ++ text) =
      S.run ((held ++ text).length + 1) m (held ++ text) :=
    hS.run_eq hm (by simp only [List.length_append]; omega) (Nat.lt_succ_self _)
  have hfuel' := hS.run_eq hsecond
    (show ((S.run ((held ++ text).length + 1) m (held ++ text)).2.1 ++ rest).length <
      (held ++ text ++ rest).length + 1 by simp only [List.length_append] at hfirst ⊢; omega)
    (Nat.lt_succ_self _)
  simp only [push, ← List.append_assoc]
  rw [hS.run_append hstable hm (Nat.lt_succ_self _)]
  simp only [Nat.succ_eq_add_one, hfuel, hfuel']

theorem Lawful.pushAll_push (hS : S.Lawful Valid) (hstable : S.Stable Valid) (hm : Valid m)
    (text : List α) (pieces : List (List α)) :
    S.push m [] (text ++ pieces.flatten) =
      let first := S.push m [] text
      let second := S.pushAll first.1 first.2.1 pieces
      (second.1, second.2.1, first.2.2 + second.2.2) := by
  induction pieces generalizing text with
  | nil => simp [pushAll]
  | cons piece pieces ih =>
      have hstep := ih (text ++ piece)
      rw [List.flatten_cons, ← List.append_assoc, hstep, hS.push_append hstable hm]
      simp only [pushAll, add_assoc]

/-- Pieces read one after another are read as the text they make up. -/
theorem Lawful.pushAll_eq (hS : S.Lawful Valid) (hstable : S.Stable Valid) (hm : Valid m)
    (pieces : List (List α)) : S.pushAll m [] pieces = S.push m [] pieces.flatten := by
  have hempty : S.push m [] [] = (m, [], 0) := hS.run_nil hm
  have hall := hS.pushAll_push hstable hm [] pieces
  rw [hempty] at hall
  simpa using hall.symm

end Scanner

end Codewith.Lib
