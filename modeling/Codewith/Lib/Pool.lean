import Mathlib.Algebra.Order.BigOperators.Group.List
import Codewith.Lib.Transaction

/-!
# Pools of concurrent calls

Calls that run against a shared state, one atomic step of one call at a time.
What an invariant says about the calls is a matter of counting those at some
point of their code: `Pool.total` sums a quantity over the calls, and
`Pool.total_run` is the bookkeeping of one step.
-/

namespace Codewith.Lib

variable {S L C : Type}

/-- The shared state with the calls in flight and those that have returned. -/
structure Pool (S L : Type) where
  shared : S
  calls : List L
  deriving DecidableEq

namespace Pool

/-- A new call, or one step of a call. -/
inductive Op (L C : Type)
  | start (call : L)
  | run (index : Nat) (choice : C)
  deriving DecidableEq

/-- A call that cannot make the step stays where it is. -/
def step (begins : L → Bool) (next : C → S → L → Option (S × L)) : Op L C → Pool S L → Pool S L
  | .start call, pool => if begins call then { pool with calls := pool.calls ++ [call] } else pool
  | .run index choice, pool =>
      match pool.calls[index]? with
      | none => pool
      | some call =>
          match next choice pool.shared call with
          | none => pool
          | some (shared, call') => ⟨shared, pool.calls.set index call'⟩

variable {begins : L → Bool} {next : C → S → L → Option (S × L)} {pool : Pool S L}

/-- Either nothing happens, or a call begins, or one call makes one step. -/
theorem step_cases (begins : L → Bool) (next : C → S → L → Option (S × L)) (op : Op L C)
    (pool : Pool S L) :
    step begins next op pool = pool ∨
    (∃ call, op = .start call ∧ begins call = true ∧
      step begins next op pool = { pool with calls := pool.calls ++ [call] }) ∨
    ∃ index choice call shared call', op = .run index choice ∧ pool.calls[index]? = some call ∧
      next choice pool.shared call = some (shared, call') ∧
      step begins next op pool = ⟨shared, pool.calls.set index call'⟩ := by
  cases op with
  | start call =>
      by_cases hbegins : begins call = true
      · exact .inr (.inl ⟨call, rfl, hbegins, by simp [step, hbegins]⟩)
      · exact .inl (by simp [step, hbegins])
  | run index choice =>
      cases hcall : pool.calls[index]? with
      | none => exact .inl (by simp [step, hcall])
      | some call =>
          rcases hnext : next choice pool.shared call with _ | ⟨shared, call'⟩
          · exact .inl (by simp [step, hcall, hnext])
          · exact .inr (.inr ⟨index, choice, call, shared, call', rfl, hcall, hnext,
              by simp [step, hcall, hnext]⟩)

/-- A quantity summed over the calls. -/
def total (pool : Pool S L) (weight : L → Nat) : Nat := (pool.calls.map weight).sum

theorem total_start (weight : L → Nat) (call : L) :
    total { pool with calls := pool.calls ++ [call] } weight = pool.total weight + weight call := by
  simp [total]

/-- The pool without one of its calls. -/
def without (pool : Pool S L) (index : Nat) : Pool S L :=
  { pool with calls := pool.calls.eraseIdx index }

theorem sum_eraseIdx {calls : List L} {index : Nat} {call : L} (h : calls[index]? = some call)
    (weight : L → Nat) (call' : L) :
    (calls.map weight).sum = ((calls.eraseIdx index).map weight).sum + weight call ∧
      ((calls.set index call').map weight).sum =
        ((calls.eraseIdx index).map weight).sum + weight call' := by
  induction calls generalizing index with
  | nil => cases h
  | cons first rest ih =>
      cases index with
      | zero =>
          obtain rfl : first = call := Option.some.inj h
          simp only [List.set_cons_zero, List.eraseIdx_cons_zero, List.map_cons, List.sum_cons]
          omega
      | succ index =>
          have hrest := ih h
          simp only [List.set_cons_succ, List.eraseIdx_cons_succ, List.map_cons, List.sum_cons]
          omega

theorem total_eq {index : Nat} {call : L} (h : pool.calls[index]? = some call) (weight : L → Nat) :
    pool.total weight = (pool.without index).total weight + weight call :=
  (sum_eraseIdx h weight call).1

theorem total_run {index : Nat} {call : L} (h : pool.calls[index]? = some call) (weight : L → Nat)
    (shared : S) (call' : L) :
    total ⟨shared, pool.calls.set index call'⟩ weight =
      (pool.without index).total weight + weight call' :=
  (sum_eraseIdx h weight call').2

theorem total_le {weight weight' : L → Nat} (h : ∀ call, weight call ≤ weight' call) :
    pool.total weight ≤ pool.total weight' :=
  List.sum_le_sum fun call _ => h call

theorem le_total {call : L} (h : call ∈ pool.calls) (weight : L → Nat) :
    weight call ≤ pool.total weight :=
  List.single_le_sum (by simp) _ (List.mem_map_of_mem h)

end Pool

end Codewith.Lib
