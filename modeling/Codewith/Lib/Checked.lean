import Codewith.Lib.Result

/-!
# Accesses that may panic

A vector is read, cut and edited by index.  An index out of bounds panics, which is kept apart
from the errors that a function returns.
-/

namespace Codewith.Lib

inductive Failure (E : Type)
  | panics
  | returned (error : E)
deriving DecidableEq, Repr

/-- A computation that returns a value, returns an error, or panics. -/
abbrev Checked (E A : Type) : Type := Except (Failure E) A

namespace Checked

variable {E A B α : Type}

/-- The outcome of a computation without accesses. -/
def ofExcept : Except E A → Checked E A
  | .ok a => .ok a
  | .error e => .error (.returned e)

theorem ofExcept_bind (x : Except E A) (f : A → Except E B) :
    ofExcept (x >>= f) = ofExcept x >>= fun a => ofExcept (f a) := by
  cases x with
  | ok a => rfl
  | error e => rfl

@[simp] theorem ofExcept_ok (a : A) : ofExcept (.ok a : Except E A) = .ok a := rfl

@[simp] theorem ofExcept_error (e : E) :
    ofExcept (.error e : Except E A) = .error (.returned e) := rfl

@[simp] theorem ok_bind (a : A) (f : A → Checked E B) : ((.ok a : Checked E A) >>= f) = f a := rfl

/-- What was returned is never a panic. -/
theorem ofExcept_ne_panics (x : Except E A) : ofExcept x ≠ .error .panics := by
  cases x <;> simp

def sub (a b : Nat) : Checked E Nat := if b ≤ a then .ok (a - b) else .error .panics

def index (xs : List α) (i : Nat) : Checked E α :=
  match xs[i]? with
  | some x => .ok x
  | none => .error .panics

/-- The range `i..j` of a vector. -/
def slice (xs : List α) (i j : Nat) : Checked E (List α) :=
  if i ≤ j ∧ j ≤ xs.length then .ok ((xs.drop i).take (j - i)) else .error .panics

def removeAt (xs : List α) (i : Nat) : Checked E (List α) :=
  if i < xs.length then .ok (xs.eraseIdx i) else .error .panics

def insertAt (xs : List α) (i : Nat) (x : α) : Checked E (List α) :=
  if i ≤ xs.length then .ok (xs.insertIdx i x) else .error .panics

theorem sub_eq {a b : Nat} (h : b ≤ a) : (sub a b : Checked E Nat) = .ok (a - b) := if_pos h

theorem index_eq {xs : List α} {i : Nat} (h : i < xs.length) :
    (index xs i : Checked E α) = .ok xs[i] := by
  unfold index
  rw [List.getElem?_eq_getElem h]

theorem slice_eq {xs : List α} {i j : Nat} (hij : i ≤ j) (hj : j ≤ xs.length) :
    (slice xs i j : Checked E (List α)) = .ok ((xs.drop i).take (j - i)) := if_pos ⟨hij, hj⟩

theorem removeAt_eq {xs : List α} {i : Nat} (h : i < xs.length) :
    (removeAt xs i : Checked E (List α)) = .ok (xs.eraseIdx i) := if_pos h

theorem insertAt_eq {xs : List α} {i : Nat} (h : i ≤ xs.length) (x : α) :
    (insertAt xs i x : Checked E (List α)) = .ok (xs.insertIdx i x) := if_pos h

/-- All but the last element. -/
theorem slice_sub_one {xs : List α} (h : xs ≠ []) :
    (sub xs.length 1 >>= slice xs 0 : Checked E (List α)) = .ok xs.dropLast := by
  have hlength : 1 ≤ xs.length := List.length_pos_iff.mpr h
  rw [sub_eq hlength, ok_bind, slice_eq (Nat.zero_le _) (Nat.sub_le _ _)]
  simp [List.dropLast_eq_take]

/-! ### Searching by index -/

/-- The first index that passes a test. -/
def findIndex (test : Nat → Checked E Bool) : List Nat → Checked E (Option Nat)
  | [] => .ok none
  | i :: is => do
      if ← test i then return some i
      else findIndex test is

theorem findIndex_eq {test : Nat → Checked E Bool} {p : Nat → Bool} {is : List Nat}
    (h : ∀ i ∈ is, test i = .ok (p i)) : findIndex test is = .ok (is.find? p) := by
  induction is with
  | nil => rfl
  | cons i is ih =>
      rw [List.forall_mem_cons] at h
      have hrest := ih h.2
      unfold findIndex
      rw [h.1, ok_bind]
      cases hp : p i with
      | true => simp [hp, pure, Except.pure]
      | false => simp [hp, hrest]

/-- The searches one after the other, until one finds an index. -/
def findFirst (is : List Nat) : List (Nat → Checked E Bool) → Checked E (Option Nat)
  | [] => .ok none
  | test :: tests => do
      let found ← findIndex test is
      if found.isSome then return found
      else findFirst is tests

theorem findFirst_cons_eq {is : List Nat} {test : Nat → Checked E Bool}
    {tests : List (Nat → Checked E Bool)} {p : Nat → Bool} {found : Option Nat}
    (htest : ∀ i ∈ is, test i = .ok (p i)) (htests : findFirst is tests = .ok found) :
    findFirst is (test :: tests) = .ok ((is.find? p).or found) := by
  unfold findFirst
  rw [findIndex_eq htest, ok_bind]
  cases is.find? p with
  | some i => rfl
  | none => exact htests

end Checked

end Codewith.Lib
