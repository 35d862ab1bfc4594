import Codewith.Lib.Store
import Codewith.GoalStore.Schema

/-!
# The tables of thread schedules

The rows of `thread_schedules` and `thread_schedule_runs` after the migrations, with
their constraints and triggers.  A schedule is stored as its specification instead
of the four columns it is spread over, and a lease as one value, since the table
allows a lease id only together with its expiry.
-/

namespace Codewith.ScheduleStore

open Lib
open GoalStore (ThreadId)

inductive ThreadScheduleIntervalUnit
  | minutes
  | hours
  | days
  deriving DecidableEq, Repr

structure ThreadScheduleInterval where
  amount : Int
  unit : ThreadScheduleIntervalUnit
  deriving DecidableEq, Repr

inductive ThreadScheduleSpec
  | once
  | dynamic
  | interval (every : ThreadScheduleInterval)
  | cron (expression : Text)
  deriving DecidableEq, Repr

inductive ThreadSchedulePromptSource
  | inline
  | default
  deriving DecidableEq, Repr

inductive ThreadScheduleStatus
  | active
  | paused
  | expired
  deriving DecidableEq, Repr

inductive ThreadScheduleRunStatus
  | leased
  | running
  | deferred
  | completed
  | failed
  deriving DecidableEq, Repr

/-- `lease_id` and `lease_expires_at_ms`. -/
structure Lease where
  id : Text
  expiresAtMs : Int
  deriving DecidableEq, Repr

structure ThreadSchedule where
  scheduleId : Text
  threadId : ThreadId
  parentScheduleId : Option Text
  nestingDepth : Int
  promptSource : ThreadSchedulePromptSource
  prompt : Text
  schedule : ThreadScheduleSpec
  timezone : Text
  authProfileRecorded : Bool
  authProfile : Option Text
  status : ThreadScheduleStatus
  nextRunAtMs : Option Int
  lastRunAtMs : Option Int := none
  expiresAtMs : Option Int
  failureCount : Int := 0
  lease : Option Lease := none
  createdAtMs : Int
  updatedAtMs : Int
  deriving DecidableEq, Repr

structure ThreadScheduleRun where
  runId : Text
  scheduleId : Text
  threadId : ThreadId
  status : ThreadScheduleRunStatus
  leaseId : Text
  turnId : Option Text := none
  goalId : Option Text := none
  error : Option Text := none
  scheduledForMs : Option Int
  startedAtMs : Int
  completedAtMs : Option Int := none
  deriving DecidableEq, Repr

structure Db where
  threads : List ThreadId
  schedules : List ThreadSchedule
  runs : List ThreadScheduleRun
  deriving DecidableEq, Repr

/-- The database with the threads that exist and no schedule yet. -/
def Db.empty (threads : List ThreadId) : Db := ⟨threads, [], []⟩

abbrev Tx (A : Type) := Exec Db StoreError A

/-! ## Statements -/

def Db.schedule? (db : Db) (scheduleId : Text) : Option ThreadSchedule :=
  db.schedules.find? fun schedule => schedule.scheduleId = scheduleId

def Db.updateSchedules (p : ThreadSchedule → Bool) (f : ThreadSchedule → ThreadSchedule) (db : Db) :
    Db :=
  { db with schedules := Table.updateWhere p f db.schedules }

def Db.updateRuns (p : ThreadScheduleRun → Bool) (f : ThreadScheduleRun → ThreadScheduleRun)
    (db : Db) : Db :=
  { db with runs := Table.updateWhere p f db.runs }

/-- Delete schedules; their runs go with them.  The schedules nested in them would go
too, but are always among those that are deleted. -/
def Db.deleteSchedules (p : ThreadSchedule → Bool) (db : Db) : Db :=
  { db with
    schedules := Table.deleteWhere p db.schedules
    runs := Table.deleteWhere
      (fun run => db.schedules.any fun schedule =>
        p schedule && schedule.scheduleId = run.scheduleId)
      db.runs }

/-- `status IN ('leased', 'running')`. -/
def ThreadScheduleRun.isLive (run : ThreadScheduleRun) : Bool :=
  run.status = .leased || run.status = .running

/-! ## Constraints and triggers -/

/-- `LENGTH(TRIM(text)) > 0`: a character other than a space, and no NUL before it. -/
def hasText (text : Text) : Bool :=
  match text.dropWhile (· = ' ') with
  | [] => false
  | c :: _ => c ≠ '\x00'

def ThreadScheduleSpec.passesChecks : ThreadScheduleSpec → Bool
  | .interval every => 0 < every.amount
  | .cron expression => hasText expression
  | _ => true

def ThreadSchedule.passesChecks (row : ThreadSchedule) : Bool :=
  hasText row.prompt && row.schedule.passesChecks && hasText row.timezone &&
    1 ≤ row.nestingDepth && row.nestingDepth ≤ 5 && 0 ≤ row.failureCount

def ThreadScheduleIntervalUnit.seconds : ThreadScheduleIntervalUnit → Int
  | .minutes => 60
  | .hours => 3600
  | .days => 86400

/-- The cadence as the triggers compute it; `NULL` for other kinds. -/
def ThreadScheduleSpec.cadence : ThreadScheduleSpec → Option Int
  | .dynamic => some 60
  | .interval every => some (every.amount * every.unit.seconds)
  | _ => none

/-- The comparison of the triggers; with `NULL` it is not true. -/
def notSlower (child parent : ThreadScheduleSpec) : Bool :=
  match child.cadence, parent.cadence with
  | some childSeconds, some parentSeconds => childSeconds ≤ parentSeconds
  | _, _ => false

def mustUseCadenceMessage : Text :=
  "invalid nested loop: nested loop schedules must use dynamic or interval cadence".toList

def notSlowerMessage : Text :=
  "invalid nested loop: child cadence must be slower than parent cadence".toList

/-- `thread_schedules_validate_nesting_insert`. -/
def validateNestingInsert (row : ThreadSchedule) : Tx Unit :=
  match row.parentScheduleId with
  | none =>
      Store.ensure (row.nestingDepth = 1)
        "invalid nested loop: root nesting depth must be 1".toList
  | some parentScheduleId => do
      match (← Exec.gets fun db => db.schedule? parentScheduleId) with
      | none => Store.bail "invalid nested loop: parent schedule not found".toList
      | some parent =>
          Store.ensure (parent.threadId = row.threadId)
            "invalid nested loop: parent schedule must belong to the same thread".toList
          Store.ensure (parent.schedule ≠ .once)
            "invalid nested loop: parent schedule must be recurring".toList
          Store.ensure (parent.nestingDepth < 5)
            "invalid nested loop: maximum nesting depth is 5".toList
          Store.ensure (row.nestingDepth = parent.nestingDepth + 1)
            "invalid nested loop: nesting depth must be parent depth plus one".toList
          Store.ensure (row.schedule.cadence ≠ none) mustUseCadenceMessage
          Store.ensure (parent.schedule.cadence ≠ none)
            ("invalid nested loop: parent cron schedules cannot be nested; use dynamic or " ++
              "interval cadence").toList
          Store.ensure (notSlower row.schedule parent.schedule = false) notSlowerMessage

/-- `INSERT INTO thread_schedules`. -/
def insertSchedule (row : ThreadSchedule) : Tx Unit := do
  validateNestingInsert row
  Store.constrain (row.passesChecks = true)
  Store.constrain ((← Exec.gets fun db => db.schedule? row.scheduleId) = none)
  Store.constrain (row.threadId ∈ (← Exec.gets fun db => db.threads))
  Exec.modify fun db => { db with schedules := db.schedules ++ [row] }

def Db.hasChildren (db : Db) (scheduleId : Text) : Bool :=
  db.schedules.any fun child => child.parentScheduleId = some scheduleId

def childrenMessage : Text :=
  ("invalid nested loop: cannot update loop cadence while it has nested child loops; update or " ++
    "clear child loops first").toList

/-- The triggers before an update of the cadence columns: with children the cadence
stays as it is, and a nested schedule stays slower than its parent. -/
def validateCadenceUpdate (old new : ThreadSchedule) : Tx Unit := do
  Exec.onlyIf (new.schedule ≠ old.schedule) do
    Store.ensure ((← Exec.gets fun db => db.hasChildren old.scheduleId) = false) childrenMessage
    match new.parentScheduleId with
    | none => pure ()
    | some parentScheduleId =>
        Store.ensure (new.schedule.cadence ≠ none) mustUseCadenceMessage
        let parent ← Exec.gets fun db => db.schedule? parentScheduleId
        Store.ensure ((parent.any fun parent => notSlower new.schedule parent.schedule) = false)
          notSlowerMessage

end Codewith.ScheduleStore
