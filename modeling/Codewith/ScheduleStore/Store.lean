import Codewith.ScheduleStore.Schema

/-!
# The schedule store

The operations of `schedules.rs`.  Each is one transaction, except that an update
reads the row before the transaction that writes it; `updateThreadSchedule` is an
update with nothing in between.

Identifiers, clocks and what is read from other databases are inputs: the leases of
local sessions, and the goals that are on hold.
-/

namespace Codewith.ScheduleStore

open Lib
open GoalStore (ThreadId textLe)

/-! ## Nested schedules -/

def maxThreadScheduleNestingDepth : Int := 5

def dynamicLoopCadenceSeconds : Int := 60

/-- `i64::checked_mul`. -/
def checkedMul (a b : Int) : Option Int :=
  if -(2 ^ 63) ≤ a * b ∧ a * b < 2 ^ 63 then some (a * b) else none

def recurringLoopCadenceSeconds (schedule : ThreadScheduleSpec) (role : Text) : Except Text Int :=
  match schedule with
  | .dynamic => .ok dynamicLoopCadenceSeconds
  | .interval every =>
      match (checkedMul every.amount every.unit.seconds).filter (0 < ·) with
      | some seconds => .ok seconds
      | none =>
          .error ("invalid nested loop: ".toList ++ role ++ " interval cadence is invalid".toList)
  | .cron _ =>
      .error ("invalid nested loop: ".toList ++ role ++
        " cron schedules cannot be nested; use dynamic or interval cadence".toList)
  | .once =>
      .error ("invalid nested loop: ".toList ++ role ++ " schedule must be recurring".toList)

def validateNestedLoopCadence (parentSchedule childSchedule : ThreadScheduleSpec) :
    Except Text Unit := do
  let parentSeconds ← recurringLoopCadenceSeconds parentSchedule "parent".toList
  let childSeconds ← recurringLoopCadenceSeconds childSchedule "child".toList
  if childSeconds ≤ parentSeconds then
    throw ("invalid nested loop: child cadence must be slower than parent cadence (parent: ".toList
      ++ (toString parentSeconds).toList ++ "s, child: ".toList ++ (toString childSeconds).toList ++
      "s)".toList)

def validateParentSchedule (parent : ThreadSchedule) (threadId : ThreadId)
    (childSchedule : ThreadScheduleSpec) : Except Text Unit := do
  if parent.threadId ≠ threadId then
    throw "invalid nested loop: parent schedule must belong to the same thread".toList
  if parent.schedule = .once then
    throw "invalid nested loop: parent schedule must be recurring".toList
  if maxThreadScheduleNestingDepth ≤ parent.nestingDepth then
    throw "invalid nested loop: maximum nesting depth is 5".toList
  validateNestedLoopCadence parent.schedule childSchedule

def parentNotFoundMessage (parentScheduleId : Text) : Text :=
  "invalid nested loop: parent schedule not found: ".toList ++ parentScheduleId

def onceNestedMessage : Text := "invalid nested loop: one-time schedules cannot be nested".toList

/-- The parent that a schedule is nested in, once it is validated. -/
def validatedParent (parentScheduleId : Text) (threadId : ThreadId)
    (schedule : ThreadScheduleSpec) : Tx ThreadSchedule := do
  Store.ensure (schedule ≠ .once) onceNestedMessage
  match (← Exec.gets fun db => db.schedule? parentScheduleId) with
  | none => Store.bail (parentNotFoundMessage parentScheduleId)
  | some parent =>
      Store.ofResult (validateParentSchedule parent threadId schedule)
      pure parent

/-! ## Creating -/

structure ThreadScheduleCreateParams where
  threadId : ThreadId
  prompt : Text
  promptSource : ThreadSchedulePromptSource
  schedule : ThreadScheduleSpec
  timezone : Text
  status : ThreadScheduleStatus
  nextRunAtMs : Option Int
  expiresAtMs : Option Int
  deriving DecidableEq, Repr

/-- The parent and the depth of a new schedule. -/
def validateScheduleCreateNesting (params : ThreadScheduleCreateParams)
    (parentScheduleId : Option Text) : Tx (Option Text × Int) :=
  match parentScheduleId with
  | none => pure (none, 1)
  | some parentScheduleId => do
      Store.ensure (Text.trim parentScheduleId ≠ [])
        "invalid nested loop: parent schedule id cannot be empty".toList
      let parent ← validatedParent (Text.trim parentScheduleId) params.threadId params.schedule
      pure (some parent.scheduleId, parent.nestingDepth + 1)

section

variable (redactStateString : Text → Text)

def redactedSpec : ThreadScheduleSpec → ThreadScheduleSpec
  | .cron expression => .cron (redactStateString expression)
  | schedule => schedule

/-- The outer option of the profile says whether one is recorded. -/
def createThreadScheduleWithRecordedAuthProfile (params : ThreadScheduleCreateParams)
    (parentScheduleId : Option Text) (authProfile : Option (Option Text)) (scheduleId : Text)
    (nowMs : Int) : Tx ThreadSchedule := do
  let (parentScheduleId, nestingDepth) ← validateScheduleCreateNesting params parentScheduleId
  let row : ThreadSchedule :=
    { scheduleId
      threadId := params.threadId
      parentScheduleId
      nestingDepth
      promptSource := params.promptSource
      prompt := redactStateString params.prompt
      schedule := redactedSpec redactStateString params.schedule
      timezone := redactStateString params.timezone
      authProfileRecorded := authProfile.isSome
      authProfile := authProfile.join.map redactStateString
      status := params.status
      nextRunAtMs := params.nextRunAtMs
      expiresAtMs := params.expiresAtMs
      createdAtMs := nowMs
      updatedAtMs := nowMs }
  insertSchedule row
  pure row

/-! ## Updating -/

/-- `None` leaves a column as it is. -/
structure ThreadScheduleUpdate where
  prompt : Option Text := none
  promptSource : Option ThreadSchedulePromptSource := none
  schedule : Option ThreadScheduleSpec := none
  timezone : Option Text := none
  status : Option ThreadScheduleStatus := none
  nextRunAtMs : Option (Option Int) := none
  expiresAtMs : Option (Option Int) := none
  deriving DecidableEq, Repr

/-- What is checked of a new cadence, if there is one, before the transaction. -/
def validateScheduleUpdateNesting (existing : ThreadSchedule) :
    Option ThreadScheduleSpec → Tx Unit
  | none => pure ()
  | some schedule => do
      Store.ensure ((← Exec.gets fun db => db.hasChildren existing.scheduleId) = false)
        childrenMessage
      match existing.parentScheduleId with
      | none => pure ()
      | some parentScheduleId =>
          let _ ← validatedParent parentScheduleId existing.threadId schedule
          pure ()

/-- The row that the update writes over `row`, from what it has read before. -/
def updatedSchedule (existing : ThreadSchedule) (update : ThreadScheduleUpdate) (nowMs : Int)
    (row : ThreadSchedule) : ThreadSchedule :=
  let status := update.status.getD existing.status
  { row with
    prompt := redactStateString (update.prompt.getD existing.prompt)
    promptSource := update.promptSource.getD existing.promptSource
    schedule := redactedSpec redactStateString (update.schedule.getD existing.schedule)
    timezone := redactStateString (update.timezone.getD existing.timezone)
    status
    nextRunAtMs :=
      if status = .expired then none else update.nextRunAtMs.getD existing.nextRunAtMs
    expiresAtMs := update.expiresAtMs.getD existing.expiresAtMs
    failureCount := if update.status = some .active then 0 else row.failureCount
    lease := if status = .active then row.lease else none
    updatedAtMs := nowMs }

def pausedScheduleRunError : Text := "scheduled run cancelled because schedule was paused".toList

def expiredScheduleRunError : Text := "scheduled run cancelled because schedule expired".toList

/-- Fail the live runs that match; one that is already dated keeps its date. -/
def Db.failLiveRuns (p : ThreadScheduleRun → Bool) (error : Text) (nowMs : Int) (db : Db) : Db :=
  db.updateRuns (fun run => p run && run.isLive) fun run =>
    { run with
      status := .failed
      error := some (redactStateString error)
      completedAtMs := some (run.completedAtMs.getD nowMs) }

/-- The live runs of a schedule that is not active after an update are failed. -/
def failRunsOfInactive (scheduleId : Text) (status : ThreadScheduleStatus) (nowMs : Int) :
    Tx Unit :=
  match status with
  | .active => pure ()
  | .paused =>
      Exec.modify (Db.failLiveRuns redactStateString (fun run => run.scheduleId = scheduleId)
        pausedScheduleRunError nowMs)
  | .expired =>
      Exec.modify (Db.failLiveRuns redactStateString (fun run => run.scheduleId = scheduleId)
        expiredScheduleRunError nowMs)

/-- The transaction of an update that has read `existing`. -/
def writeThreadScheduleUpdate (existing : ThreadSchedule) (update : ThreadScheduleUpdate)
    (nowMs : Int) : Tx (Option ThreadSchedule) := do
  match (← Exec.gets fun db => db.schedule? existing.scheduleId) with
  | none => pure none
  | some row =>
      let updated := updatedSchedule redactStateString existing update nowMs row
      validateCadenceUpdate row updated
      Store.constrain (updated.passesChecks = true)
      Exec.modify (Db.updateSchedules (fun other => other.scheduleId = existing.scheduleId)
        (updatedSchedule redactStateString existing update nowMs))
      failRunsOfInactive redactStateString existing.scheduleId updated.status nowMs
      pure (some updated)

def updateThreadSchedule (scheduleId : Text) (update : ThreadScheduleUpdate) (nowMs : Int) :
    Tx (Option ThreadSchedule) := do
  match (← Exec.gets fun db => db.schedule? scheduleId) with
  | none => pure none
  | some existing =>
      validateScheduleUpdateNesting existing
        (update.schedule.filter fun schedule => schedule ≠ existing.schedule)
      writeThreadScheduleUpdate redactStateString existing update nowMs

end

def resumeThreadScheduleWithNextRunAt (scheduleId : Text) (nextRunAtMs : Option Int) (nowMs : Int) :
    Tx (Option ThreadSchedule) := do
  Exec.modify (Db.updateSchedules (fun schedule => schedule.scheduleId = scheduleId) fun schedule =>
    { schedule with
      status := .active
      nextRunAtMs := nextRunAtMs.or schedule.nextRunAtMs
      failureCount := 0
      updatedAtMs := nowMs })
  Exec.gets fun db => db.schedule? scheduleId

/-! ## Deleting -/

/-- The rows of the recursive query, level by level from `frontier` on; `none` if
there are still some when `fuel` runs out. -/
def Db.subtree (db : Db) : Nat → List ThreadSchedule → Option (List ThreadSchedule)
  | _, [] => some []
  | 0, _ :: _ => none
  | fuel + 1, schedule :: frontier => do
      let below ← db.subtree fuel ((schedule :: frontier).flatMap fun parent =>
        db.schedules.filter fun child => child.parentScheduleId = some parent.scheduleId)
      pure (schedule :: frontier ++ below)

/-- The schedule with all that are nested in it.  The query does not return when
schedules are nested in a circle. -/
def Db.subtreeOf (db : Db) (scheduleId : Text) : Option (List ThreadSchedule) :=
  db.subtree (db.schedules.length + 1)
    (db.schedules.filter fun schedule => schedule.scheduleId = scheduleId)

/-- `ORDER BY nesting_depth DESC, schedule_id`. -/
def deepestFirst (a b : ThreadSchedule) : Prop :=
  b.nestingDepth < a.nestingDepth ∨
    (a.nestingDepth = b.nestingDepth ∧ textLe a.scheduleId b.scheduleId = true)

instance : DecidableRel deepestFirst := fun _ _ => inferInstanceAs (Decidable (_ ∨ _))

def deleteThreadScheduleTree (scheduleId : Text) : Tx (List Text) := do
  match (← Exec.gets fun db => db.subtreeOf scheduleId) with
  | none => Exec.fail .notReturned
  | some subtree =>
      Exec.modify (Db.deleteSchedules fun schedule =>
        subtree.any fun row => row.scheduleId = schedule.scheduleId)
      pure ((subtree.insertionSort deepestFirst).map (·.scheduleId))

def deleteThreadSchedulesForThread (threadId : ThreadId) : Tx Nat := do
  let count ← Exec.gets fun db =>
    Table.countWhere (fun schedule => schedule.threadId = threadId) db.schedules
  Exec.modify (Db.deleteSchedules fun schedule => schedule.threadId = threadId)
  pure count

end Codewith.ScheduleStore
