import Codewith.Lib.Text
import Codewith.Lib.Table
import Codewith.Lib.Transaction

/-!
# Statements on a store

Transactions over a database of any type, with the errors that the statements of a
relational store and the checks around them raise.
-/

namespace Codewith.Lib

/-- Why a transaction failed. -/
inductive StoreError
  /-- An error raised by the code or by a trigger, with its message. -/
  | message (text : Text)
  /-- A primary key, foreign key or check constraint refused a row. -/
  | constraintViolated
  /-- A query that must return a row returned none. -/
  | rowNotFound
  /-- A recursive query has not returned. -/
  | notReturned
  deriving DecidableEq, Repr

namespace Store

variable {S A : Type} {a : A} {s s' : S}

def bail (message : Text) : Exec S StoreError A := Exec.fail (.message message)

/-- Require a condition, with the message of its refusal. -/
def ensure (condition : Prop) [Decidable condition] (message : Text) : Exec S StoreError Unit :=
  if condition then pure () else bail message

/-- Require what a constraint of the table says. -/
def constrain (condition : Prop) [Decidable condition] : Exec S StoreError Unit :=
  if condition then pure () else Exec.fail .constraintViolated

/-- A checked value, with the message of its refusal. -/
def ofResult : Except Text A → Exec S StoreError A
  | .ok a => pure a
  | .error message => bail message

theorem bail_eq_ok {message : Text} :
    (bail message : Exec S StoreError A) s = (.ok a, s') ↔ False := by
  simp [bail]

theorem ensure_eq_ok {condition : Prop} [Decidable condition] {message : Text} {u : Unit} :
    (ensure condition message : Exec S StoreError Unit) s = (.ok u, s') ↔ condition ∧ s = s' := by
  by_cases h : condition <;> simp [ensure, h, bail]

theorem constrain_eq_ok {condition : Prop} [Decidable condition] {u : Unit} :
    (constrain condition : Exec S StoreError Unit) s = (.ok u, s') ↔ condition ∧ s = s' := by
  by_cases h : condition <;> simp [constrain, h]

theorem ofResult_eq_ok {result : Except Text A} :
    (ofResult result : Exec S StoreError A) s = (.ok a, s') ↔ result = .ok a ∧ s = s' := by
  cases result <;> simp [ofResult, bail]

end Store

end Codewith.Lib
