import Mathlib.Data.Finset.Basic
import Codewith.Lib.Pool

/-!
# The readiness flag

`ReadinessFlag` of `utils/readiness`: an atomic flag, a set of tokens behind a
mutex and a watch channel.  A call of one of the four methods is followed from one
access of these to the next, so that a run is any interleaving of the calls.

A future may be dropped where it awaits, and the lock may time out.
-/

namespace Codewith.Readiness

open Lib

/-- `Token(i32)`. -/
abbrev Token := BitVec 32

inductive ReadinessError
  | tokenLockFailed
  | flagAlreadyReady
  deriving DecidableEq, Repr

/-- The fields of the flag and of its watch channel. -/
structure ReadinessFlag where
  ready : Bool := false
  nextId : BitVec 32 := 1
  tokens : Finset Token := ∅
  /-- The mutex of the tokens is held. -/
  locked : Bool := false
  /-- The value of the channel. -/
  value : Bool := false
  /-- The number of sends that went through. -/
  version : Nat := 0
  /-- The receivers that are alive. -/
  receivers : Nat := 0
  deriving DecidableEq

/-- `Sender::send` of the watch channel: without a receiver it fails and leaves the
value as it is. -/
def ReadinessFlag.send (flag : ReadinessFlag) : ReadinessFlag :=
  if flag.receivers = 0 then flag else { flag with value := true, version := flag.version + 1 }

/-! ## The calls -/

/-- Where a call of `is_ready` stands. -/
inductive IsReady
  /-- Before the first load of `ready`. -/
  | loading
  /-- Before `try_lock`. -/
  | locking
  /-- With the lock, before `is_empty`. -/
  | checking
  /-- With the lock, before the swap. -/
  | swapping
  /-- With the lock, before it is dropped. -/
  | unlocking (wasReady : Bool)
  | sending
  /-- Before the last load of `ready`. -/
  | reloading
  | returned (ready : Bool)
  deriving DecidableEq, Repr

inductive Subscribe
  | loading
  | locking
  /-- With the lock, before `ready` is loaded once more. -/
  | rechecking
  /-- With the lock, before a token is drawn. -/
  | drawing
  | returned (result : Except ReadinessError Token)
  deriving DecidableEq, Repr

inductive MarkReady
  | loading
  | locking
  /-- With the lock, before the token is removed. -/
  | removing
  /-- With the lock, before `ready` is stored. -/
  | storing
  /-- With the lock, before the other tokens are removed. -/
  | clearing
  | sending
  | returned (result : Except ReadinessError Bool)
  deriving DecidableEq, Repr

inductive WaitReady
  | asking (isReady : IsReady)
  /-- Before `tx.subscribe()`. -/
  | subscribing
  /-- Before the value is borrowed; the receiver has seen the version. -/
  | borrowing (seen : Nat)
  /-- In `changed()`. -/
  | awaiting (seen : Nat)
  | returned
  deriving DecidableEq, Repr

inductive Call
  | isReady (point : IsReady)
  | subscribe (point : Subscribe)
  | markReady (token : Token) (point : MarkReady)
  | waitReady (point : WaitReady)
  /-- The future was dropped. -/
  | dropped
  deriving DecidableEq, Repr

/-- What happens at a point where a call awaits. -/
inductive Choice
  | proceed
  | timeOut
  | drop
  deriving DecidableEq, Repr

def Call.begins : Call → Bool
  | .isReady point => point = .loading
  | .subscribe point => point = .loading
  | .markReady _ point => point = .loading
  | .waitReady point => point = .asking .loading
  | .dropped => false

/-! ## The steps -/

def IsReady.next (flag : ReadinessFlag) : IsReady → Option (ReadinessFlag × IsReady)
  | .loading => some (flag, if flag.ready then .returned true else .locking)
  | .locking =>
      if flag.locked then some (flag, .reloading)
      else some ({ flag with locked := true }, .checking)
  | .checking =>
      if flag.tokens = ∅ then some (flag, .swapping)
      else some ({ flag with locked := false }, .reloading)
  | .swapping => some ({ flag with ready := true }, .unlocking flag.ready)
  | .unlocking wasReady =>
      some ({ flag with locked := false }, if wasReady then .returned true else .sending)
  | .sending => some (flag.send, .returned true)
  | .reloading => some (flag, .returned flag.ready)
  | .returned _ => none

def Subscribe.next (choice : Choice) (flag : ReadinessFlag) :
    Subscribe → Option (ReadinessFlag × Subscribe)
  | .loading =>
      some (flag, if flag.ready then .returned (.error .flagAlreadyReady) else .locking)
  | .locking =>
      match choice with
      | .timeOut => some (flag, .returned (.error .tokenLockFailed))
      | _ => if flag.locked then none else some ({ flag with locked := true }, .rechecking)
  | .rechecking =>
      if flag.ready then
        some ({ flag with locked := false }, .returned (.error .flagAlreadyReady))
      else some (flag, .drawing)
  | .drawing =>
      let token := flag.nextId
      if token ≠ 0 ∧ token ∉ flag.tokens then
        some ({ flag with
          nextId := flag.nextId + 1, tokens := insert token flag.tokens, locked := false },
          .returned (.ok token))
      else some ({ flag with nextId := flag.nextId + 1 }, .drawing)
  | .returned _ => none

def MarkReady.next (token : Token) (choice : Choice) (flag : ReadinessFlag) :
    MarkReady → Option (ReadinessFlag × MarkReady)
  | .loading =>
      some (flag, if flag.ready ∨ token = 0 then .returned (.ok false) else .locking)
  | .locking =>
      match choice with
      | .timeOut => some (flag, .returned (.error .tokenLockFailed))
      | _ => if flag.locked then none else some ({ flag with locked := true }, .removing)
  | .removing =>
      if token ∈ flag.tokens then some ({ flag with tokens := flag.tokens.erase token }, .storing)
      else some ({ flag with locked := false }, .returned (.ok false))
  | .storing => some ({ flag with ready := true }, .clearing)
  | .clearing => some ({ flag with tokens := ∅, locked := false }, .sending)
  | .sending => some (flag.send, .returned (.ok true))
  | .returned _ => none

def WaitReady.next (flag : ReadinessFlag) : WaitReady → Option (ReadinessFlag × WaitReady)
  | .asking (.returned ready) => some (flag, if ready then .returned else .subscribing)
  | .asking isReady => (isReady.next flag).map fun (flag, isReady) => (flag, .asking isReady)
  | .subscribing =>
      some ({ flag with receivers := flag.receivers + 1 }, .borrowing flag.version)
  | .borrowing seen =>
      if flag.value then some ({ flag with receivers := flag.receivers - 1 }, .returned)
      else some (flag, .awaiting seen)
  | .awaiting seen => if flag.version = seen then none else some (flag, .borrowing flag.version)
  | .returned => none

/-- The receiver that a call holds, if any, goes with it. -/
def Call.drop (flag : ReadinessFlag) : Call → Option (ReadinessFlag × Call)
  | .subscribe .locking => some (flag, .dropped)
  | .markReady _ .locking => some (flag, .dropped)
  | .waitReady (.awaiting _) => some ({ flag with receivers := flag.receivers - 1 }, .dropped)
  | _ => none

def Call.next (choice : Choice) (flag : ReadinessFlag) (call : Call) :
    Option (ReadinessFlag × Call) :=
  if choice = .drop then call.drop flag
  else
    match call with
    | .isReady point => (point.next flag).map fun (flag, point) => (flag, .isReady point)
    | .subscribe point => (point.next choice flag).map fun (flag, point) => (flag, .subscribe point)
    | .markReady token point =>
        (point.next token choice flag).map fun (flag, point) => (flag, .markReady token point)
    | .waitReady point => (point.next flag).map fun (flag, point) => (flag, .waitReady point)
    | .dropped => none

abbrev Flags := Pool ReadinessFlag Call

def Flags.new : Flags := ⟨{}, []⟩

def Flags.step : Pool.Op Call Choice → Flags → Flags := Pool.step Call.begins Call.next

end Codewith.Readiness
