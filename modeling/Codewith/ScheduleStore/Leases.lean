import Codewith.ScheduleStore.Store

/-!
# Leases and runs of schedules

The operations of `schedules.rs` that take, use and give back the lease of a
schedule, and the operations of the store as one type.
-/

namespace Codewith.ScheduleStore

open Lib
open GoalStore (ThreadId)

/-! ## Claiming -/

structure LocalActiveSession where
  threadId : ThreadId
  ownerId : Text
  lastSeenAtMs : Int
  deriving DecidableEq, Repr

inductive ThreadScheduleClaimTarget
  | due
  | now (scheduleId : Text)
  deriving DecidableEq, Repr

/-- The parameters of a claim, with the end of the lease they amount to. -/
structure ClaimThreadScheduleParams where
  target : ThreadScheduleClaimTarget
  nowMs : Int
  leaseId : Text
  leaseExpiresAtMs : Int
  localActiveOwnerId : Option Text
  localActiveFreshAfterMs : Option Int
  deriving DecidableEq, Repr

/-- What a transaction reads besides the two tables. -/
structure Surroundings where
  sessions : List LocalActiveSession := []
  /-- The clock of the database, in seconds. -/
  clockSeconds : Int := 0
  /-- The goals of a thread that are paused, blocked or limited. -/
  heldGoals : List (ThreadId × Text) := []
  deriving DecidableEq, Repr

/-- The owner and the time its sessions must be newer than, if both are given. -/
def ClaimThreadScheduleParams.ownerFilter (params : ClaimThreadScheduleParams) :
    Option (Text × Int) :=
  match params.localActiveOwnerId, params.localActiveFreshAfterMs with
  | some ownerId, some freshAfterMs => some (ownerId, freshAfterMs)
  | _, _ => none

/-- The lease id that is written. -/
def ClaimThreadScheduleParams.scopedLeaseId (params : ClaimThreadScheduleParams) : Text :=
  if params.ownerFilter.isSome then "owner:".toList ++ params.leaseId else params.leaseId

/-- No other owner has a fresh session of the thread. -/
def passesOwnerFilter (params : ClaimThreadScheduleParams) (surroundings : Surroundings)
    (schedule : ThreadSchedule) : Bool :=
  match params.ownerFilter with
  | none => true
  | some (ownerId, freshAfterMs) => !surroundings.sessions.any fun session =>
      session.threadId = schedule.threadId && freshAfterMs ≤ session.lastSeenAtMs &&
        session.ownerId ≠ ownerId

def ThreadSchedule.isUnexpired (schedule : ThreadSchedule) (nowMs : Int) : Bool :=
  schedule.expiresAtMs.all fun expiresAtMs => nowMs < expiresAtMs

def ThreadSchedule.leaseIsFree (schedule : ThreadSchedule) (nowMs : Int) : Bool :=
  schedule.lease.all fun lease => lease.expiresAtMs ≤ nowMs

def ThreadSchedule.isClaimable (schedule : ThreadSchedule) (params : ClaimThreadScheduleParams)
    (surroundings : Surroundings) : Bool :=
  (match params.target with
    | .due => schedule.nextRunAtMs.any (· ≤ params.nowMs)
    | .now scheduleId => schedule.scheduleId = scheduleId) &&
  schedule.status = .active && schedule.isUnexpired params.nowMs &&
    schedule.leaseIsFree params.nowMs && passesOwnerFilter params surroundings schedule

/-- `ORDER BY next_run_at_ms, created_at_ms`. -/
def dueFirst (a b : ThreadSchedule) : Prop :=
  a.nextRunAtMs.getD 0 < b.nextRunAtMs.getD 0 ∨
    (a.nextRunAtMs.getD 0 = b.nextRunAtMs.getD 0 ∧ a.createdAtMs ≤ b.createdAtMs)

instance : DecidableRel dueFirst := fun _ _ => inferInstanceAs (Decidable (_ ∨ _))

def Db.claimable (db : Db) (params : ClaimThreadScheduleParams) (surroundings : Surroundings) :
    Option ThreadSchedule :=
  (Table.selectOrdered (fun schedule => schedule.isClaimable params surroundings) dueFirst
    db.schedules).head?

/-- `NEW.lease_id NOT LIKE 'owner:%'`; `LIKE` ignores the case of ASCII letters. -/
def isLegacyLeaseId (leaseId : Text) : Bool :=
  (leaseId.take 6).map Char.toLower ≠ "owner:".toList

/-- `thread_schedules_ignore_legacy_live_owner_claim` drops the update. -/
def ignoresClaim (surroundings : Surroundings) (leaseId : Text) (schedule : ThreadSchedule) :
    Bool :=
  isLegacyLeaseId leaseId && surroundings.sessions.any fun session =>
    session.threadId = schedule.threadId &&
      surroundings.clockSeconds * 1000 - 15000 ≤ session.lastSeenAtMs

structure ThreadScheduleClaim where
  schedule : ThreadSchedule
  run : ThreadScheduleRun
  deriving DecidableEq, Repr

section

variable (redactStateString : Text → Text)

def leaseExpiredRunError : Text := "scheduled run lease expired before terminal completion".toList

/-- Fail the live runs of a schedule whose lease has run out. -/
def Db.reapRuns (scheduleId : Text) (nowMs : Int) (db : Db) : Db :=
  db.updateRuns (fun run => run.scheduleId = scheduleId && run.isLive) fun run =>
    { run with
      status := .failed
      error := some (redactStateString leaseExpiredRunError)
      completedAtMs := some nowMs }

/-- A goal of a live run of the schedule is on hold. -/
def Db.goalHold (surroundings : Surroundings) (schedule : ThreadSchedule) (db : Db) : Bool :=
  schedule.schedule ≠ .once && db.runs.any fun run =>
    run.scheduleId = schedule.scheduleId && run.isLive &&
      run.goalId.any fun goalId => (schedule.threadId, goalId) ∈ surroundings.heldGoals

def Db.hasLiveRun (scheduleId : Text) (db : Db) : Bool :=
  db.runs.any fun run => run.scheduleId = scheduleId && run.isLive

def leasedRun (schedule : ThreadSchedule) (params : ClaimThreadScheduleParams) (runId : Text) :
    ThreadScheduleRun where
  runId := runId
  scheduleId := schedule.scheduleId
  threadId := schedule.threadId
  status := .leased
  leaseId := params.scopedLeaseId
  scheduledForMs := match params.target with
    | .due => schedule.nextRunAtMs
    | .now _ => some params.nowMs
  startedAtMs := params.nowMs

def insertRun (run : ThreadScheduleRun) : Tx Unit := do
  Store.constrain
    ((← Exec.gets fun db => db.runs.find? fun other => other.runId = run.runId) = none)
  Exec.modify fun db => { db with runs := db.runs ++ [run] }

def claimThreadScheduleOnce (params : ClaimThreadScheduleParams) (surroundings : Surroundings)
    (runId : Text) : Tx (Option ThreadScheduleClaim) := do
  match (← Exec.gets fun db => db.claimable params surroundings) with
  | none => pure none
  | some selected =>
      let reaped ← Exec.gets (Db.hasLiveRun selected.scheduleId)
      if (← Exec.gets (Db.goalHold surroundings selected)) then
        Exec.modify (Db.reapRuns redactStateString selected.scheduleId params.nowMs)
        Exec.modify (Db.updateSchedules
          (fun schedule => schedule.scheduleId = selected.scheduleId && schedule.status = .active)
          fun schedule =>
            { schedule with
              status := .paused
              nextRunAtMs := none
              lastRunAtMs := some params.nowMs
              failureCount := schedule.failureCount + 1
              lease := none
              updatedAtMs := params.nowMs })
        pure none
      -- The runs that were failed are put back when the trigger drops the claim.
      else if ignoresClaim surroundings params.scopedLeaseId selected then pure none
      else
        Exec.modify (Db.reapRuns redactStateString selected.scheduleId params.nowMs)
        let claimed := fun schedule : ThreadSchedule =>
          { schedule with
            lease := some ⟨params.scopedLeaseId, params.leaseExpiresAtMs⟩
            lastRunAtMs := if reaped then some params.nowMs else schedule.lastRunAtMs
            failureCount := if reaped then schedule.failureCount + 1 else schedule.failureCount
            updatedAtMs := params.nowMs }
        Exec.modify (Db.updateSchedules
          (fun schedule => schedule.scheduleId = selected.scheduleId && schedule.status = .active)
          claimed)
        insertRun (leasedRun selected params runId)
        pure (some ⟨claimed selected, leasedRun selected params runId⟩)

/-! ## Using the lease -/

/-- The run, with the given lease, of the given schedule. -/
def isRunOf (scheduleId runId leaseId : Text) (run : ThreadScheduleRun) : Bool :=
  run.scheduleId = scheduleId && run.runId = runId && run.leaseId = leaseId

def ThreadSchedule.hasLease (schedule : ThreadSchedule) (leaseId : Text) : Bool :=
  schedule.lease.any fun lease => lease.id = leaseId

def ThreadSchedule.hasLeaseAfter (schedule : ThreadSchedule) (leaseId : Text)
    (nowMs : Int) : Bool :=
  schedule.lease.any fun lease => lease.id = leaseId && nowMs < lease.expiresAtMs

structure ThreadScheduleRunLeaseParams where
  scheduleId : Text
  runId : Text
  leaseId : Text
  nowMs : Int
  leaseExpiresAtMs : Int
  deriving DecidableEq, Repr

def markThreadScheduleRunStartedOnce (params : ThreadScheduleRunLeaseParams) (turnId : Text)
    (goalId : Option Text) : Tx (Option ThreadScheduleRun) := do
  let started := fun run : ThreadScheduleRun =>
    isRunOf params.scheduleId params.runId params.leaseId run && run.status = .leased
  let isLeased ← Exec.gets fun db => db.schedules.any fun schedule =>
    schedule.scheduleId = params.scheduleId && schedule.hasLeaseAfter params.leaseId params.nowMs
  let found ← Exec.gets fun db => db.runs.find? started
  match isLeased, found with
  | true, some run =>
      Exec.modify (Db.updateSchedules
        (fun schedule => schedule.scheduleId = params.scheduleId &&
          schedule.hasLeaseAfter params.leaseId params.nowMs)
        fun schedule =>
          { schedule with
            lease := schedule.lease.map fun lease =>
              { lease with expiresAtMs := max lease.expiresAtMs params.leaseExpiresAtMs }
            updatedAtMs := params.nowMs })
      let running := fun run : ThreadScheduleRun =>
        { run with status := .running, turnId := some turnId, goalId }
      Exec.modify (Db.updateRuns started running)
      pure (some (running run))
  | _, _ => pure none

def extendThreadScheduleLease (params : ThreadScheduleRunLeaseParams) : Tx Bool := do
  let hasRun ← Exec.gets fun db => db.runs.any fun run =>
    isRunOf params.scheduleId params.runId params.leaseId run && run.isLive
  let matching := fun schedule : ThreadSchedule =>
    schedule.scheduleId = params.scheduleId && schedule.status = .active &&
      schedule.hasLeaseAfter params.leaseId params.nowMs && schedule.isUnexpired params.nowMs &&
      hasRun
  let extended ← Exec.gets fun db => db.schedules.any matching
  Exec.modify (Db.updateSchedules matching fun schedule =>
    { schedule with
      lease := schedule.lease.map fun lease => { lease with expiresAtMs := params.leaseExpiresAtMs }
      updatedAtMs := params.nowMs })
  pure extended

/-! ## Giving the lease back -/

inductive FinishScheduleRun
  | completed
  | failed (error : Text)
  deriving DecidableEq, Repr

structure FinishThreadScheduleRunParams where
  scheduleId : Text
  runId : Text
  leaseId : Text
  completedAtMs : Int
  nextRunAtMs : Option Int
  expectedGoalId : Option Text
  finish : FinishScheduleRun
  deriving DecidableEq, Repr

/-- The time has come for the schedule to expire. -/
def ThreadSchedule.expiresBy (schedule : ThreadSchedule) (timeMs : Int) : Bool :=
  schedule.expiresAtMs.any (· ≤ timeMs)

def finishedSchedule (params : FinishThreadScheduleRunParams) (pauseSchedule : Bool)
    (schedule : ThreadSchedule) : ThreadSchedule :=
  { schedule with
    status :=
      if schedule.status = .expired then .expired
      else if schedule.expiresBy params.completedAtMs then .expired
      else if schedule.status = .paused then .paused
      else if pauseSchedule then .paused
      else if params.nextRunAtMs = none then .expired
      else schedule.status
    lease := none
    lastRunAtMs := some params.completedAtMs
    nextRunAtMs :=
      if schedule.status = .expired ∨ schedule.status = .paused then none
      else if schedule.expiresBy params.completedAtMs then none
      else if pauseSchedule then none
      else params.nextRunAtMs
    failureCount := match params.finish with
      | .completed => 0
      | .failed _ => schedule.failureCount + 1
    updatedAtMs := params.completedAtMs }

def finishedRun (params : FinishThreadScheduleRunParams) (run : ThreadScheduleRun) :
    ThreadScheduleRun :=
  { run with
    status := match params.finish with
      | .completed => .completed
      | .failed _ => .failed
    error := match params.finish with
      | .completed => none
      | .failed error => some (redactStateString error)
    completedAtMs := some params.completedAtMs }

/-- The run is live and works for the expected goal, if one is expected. -/
def isFinishable (params : FinishThreadScheduleRunParams) (run : ThreadScheduleRun) : Bool :=
  isRunOf params.scheduleId params.runId params.leaseId run && run.isLive &&
    params.expectedGoalId.all fun expected => run.goalId.all fun goalId => goalId = expected

def finishThreadScheduleRunOnce (params : FinishThreadScheduleRunParams)
    (surroundings : Surroundings) : Tx Bool := do
  let found ← Exec.gets fun db => db.schedules.find? fun schedule =>
    schedule.scheduleId = params.scheduleId && schedule.hasLease params.leaseId
  let isLive ← Exec.gets fun db => db.runs.any (isFinishable params)
  match found, isLive with
  | some schedule, true =>
      let pauseSchedule := schedule.schedule ≠ .once && params.expectedGoalId.any fun goalId =>
        (schedule.threadId, goalId) ∈ surroundings.heldGoals
      Exec.modify (Db.updateSchedules
        (fun schedule =>
          schedule.scheduleId = params.scheduleId && schedule.hasLease params.leaseId)
        (finishedSchedule params pauseSchedule))
      Exec.modify (Db.updateRuns (isRunOf params.scheduleId params.runId params.leaseId)
        (finishedRun redactStateString params))
      pure true
  | _, _ => pure false

structure DeferThreadScheduleRunParams where
  scheduleId : Text
  runId : Text
  leaseId : Text
  completedAtMs : Int
  nextRunAtMs : Int
  error : Text
  deriving DecidableEq, Repr

def deferredSchedule (params : DeferThreadScheduleRunParams) (schedule : ThreadSchedule) :
    ThreadSchedule :=
  { schedule with
    status :=
      if schedule.status = .expired then .expired
      else if schedule.expiresBy params.nextRunAtMs then .expired
      else schedule.status
    lease := none
    lastRunAtMs := some params.completedAtMs
    nextRunAtMs :=
      if schedule.status = .expired ∨ schedule.status = .paused then none
      else if schedule.expiresBy params.nextRunAtMs then none
      else some params.nextRunAtMs
    updatedAtMs := params.completedAtMs }

/-- Deferring looks at the lease of the run, and not at its status. -/
def deferThreadScheduleRun (params : DeferThreadScheduleRunParams) : Tx Bool := do
  let isLeased ← Exec.gets fun db => db.schedules.any fun schedule =>
    schedule.scheduleId = params.scheduleId && schedule.hasLease params.leaseId
  let hasRun ← Exec.gets fun db =>
    db.runs.any (isRunOf params.scheduleId params.runId params.leaseId)
  if isLeased && hasRun then
    Exec.modify (Db.updateSchedules
      (fun schedule => schedule.scheduleId = params.scheduleId && schedule.hasLease params.leaseId)
      (deferredSchedule params))
    Exec.modify (Db.updateRuns (isRunOf params.scheduleId params.runId params.leaseId) fun run =>
      { run with
        status := .deferred
        turnId := none
        error := some (redactStateString params.error)
        completedAtMs := some params.completedAtMs })
    pure true
  else pure false

/-- An active schedule past its end whose lease is free. -/
def ThreadSchedule.isDueToExpire (nowMs : Int) (schedule : ThreadSchedule) : Bool :=
  schedule.status = .active && schedule.expiresBy nowMs && schedule.leaseIsFree nowMs

def expireThreadSchedules (nowMs : Int) : Tx Nat := do
  Exec.modify fun db => db.failLiveRuns redactStateString
    (fun run => db.schedules.any fun schedule =>
      schedule.scheduleId = run.scheduleId && schedule.isDueToExpire nowMs)
    expiredScheduleRunError nowMs
  let count ← Exec.gets fun db => Table.countWhere (·.isDueToExpire nowMs) db.schedules
  Exec.modify (Db.updateSchedules (·.isDueToExpire nowMs) fun schedule =>
    { schedule with
      status := .expired
      nextRunAtMs := none
      lease := none
      updatedAtMs := nowMs })
  pure count

end

/-! ## The operations -/

inductive ScheduleOp
  | createThreadSchedule (params : ThreadScheduleCreateParams) (parentScheduleId : Option Text)
      (authProfile : Option (Option Text)) (scheduleId : Text) (nowMs : Int)
  | updateThreadSchedule (scheduleId : Text) (update : ThreadScheduleUpdate) (nowMs : Int)
  /-- The transaction of an update that has read `existing` some time before. -/
  | writeThreadScheduleUpdate (existing : ThreadSchedule) (update : ThreadScheduleUpdate)
      (nowMs : Int)
  | resumeThreadSchedule (scheduleId : Text) (nextRunAtMs : Option Int) (nowMs : Int)
  | deleteThreadScheduleTree (scheduleId : Text)
  | deleteThreadSchedulesForThread (threadId : ThreadId)
  | claimThreadSchedule (params : ClaimThreadScheduleParams) (surroundings : Surroundings)
      (runId : Text)
  | markThreadScheduleRunStarted (params : ThreadScheduleRunLeaseParams) (turnId : Text)
      (goalId : Option Text)
  | extendThreadScheduleLease (params : ThreadScheduleRunLeaseParams)
  | finishThreadScheduleRun (params : FinishThreadScheduleRunParams) (surroundings : Surroundings)
  | deferThreadScheduleRun (params : DeferThreadScheduleRunParams)
  | expireThreadSchedules (nowMs : Int)

/-- Run a command for its effect. -/
def discard {A : Type} (m : Tx A) : Tx Unit := do
  let _ ← m
  pure ()

variable (redactStateString : Text → Text)

def ScheduleOp.run : ScheduleOp → Tx Unit
  | .createThreadSchedule params parentScheduleId authProfile scheduleId nowMs =>
      discard (createThreadScheduleWithRecordedAuthProfile redactStateString params
        parentScheduleId authProfile scheduleId nowMs)
  | .updateThreadSchedule scheduleId update nowMs =>
      discard (ScheduleStore.updateThreadSchedule redactStateString scheduleId update nowMs)
  | .writeThreadScheduleUpdate existing update nowMs =>
      discard (ScheduleStore.writeThreadScheduleUpdate redactStateString existing update nowMs)
  | .resumeThreadSchedule scheduleId nextRunAtMs nowMs =>
      discard (resumeThreadScheduleWithNextRunAt scheduleId nextRunAtMs nowMs)
  | .deleteThreadScheduleTree scheduleId =>
      discard (ScheduleStore.deleteThreadScheduleTree scheduleId)
  | .deleteThreadSchedulesForThread threadId =>
      discard (ScheduleStore.deleteThreadSchedulesForThread threadId)
  | .claimThreadSchedule params surroundings runId =>
      discard (claimThreadScheduleOnce redactStateString params surroundings runId)
  | .markThreadScheduleRunStarted params turnId goalId =>
      discard (markThreadScheduleRunStartedOnce params turnId goalId)
  | .extendThreadScheduleLease params => discard (ScheduleStore.extendThreadScheduleLease params)
  | .finishThreadScheduleRun params surroundings =>
      discard (finishThreadScheduleRunOnce redactStateString params surroundings)
  | .deferThreadScheduleRun params =>
      discard (ScheduleStore.deferThreadScheduleRun redactStateString params)
  | .expireThreadSchedules nowMs =>
      discard (ScheduleStore.expireThreadSchedules redactStateString nowMs)

/-- The database after an operation; one that fails leaves it as it was. -/
def ScheduleOp.step (op : ScheduleOp) (db : Db) : Db :=
  (Exec.transaction (op.run redactStateString) db).2

theorem exists_of_discard_run_ok {A : Type} {m : Tx A} {u : Unit} {db db' : Db}
    (h : discard m db = (.ok u, db')) : ∃ a, m db = (.ok a, db') := by
  obtain ⟨a, _, hm, hrest⟩ := Exec.exists_of_bind_run_ok h
  cases hrest
  exact ⟨a, hm⟩

theorem ScheduleOp.step_cases (op : ScheduleOp) (db : Db) :
    op.run redactStateString db = (.ok (), op.step redactStateString db) ∨
      op.step redactStateString db = db := by
  rcases hrun : op.run redactStateString db with ⟨_ | u, db'⟩
  · right
    rw [ScheduleOp.step, Exec.transaction_run_error hrun]
  · left
    rw [ScheduleOp.step, Exec.transaction_run_ok hrun]

/-! ## Operations of a sample schedule -/

def sampleSchedule : ScheduleOp :=
  .createThreadSchedule
    { threadId := ⟨"t".toList⟩, prompt := "p".toList, promptSource := .inline
      schedule := .interval ⟨5, .minutes⟩, timezone := "UTC".toList, status := .active
      nextRunAtMs := some 0, expiresAtMs := none }
    none none "s".toList 0

def sampleClaim (runId : Text) (nowMs : Int) : ScheduleOp :=
  .claimThreadSchedule
    { target := .now "s".toList, nowMs, leaseId := "l".toList, leaseExpiresAtMs := nowMs + 60
      localActiveOwnerId := none, localActiveFreshAfterMs := none }
    {} runId

def sampleComplete (runId : Text) (nowMs : Int) : ScheduleOp :=
  .finishThreadScheduleRun
    { scheduleId := "s".toList, runId, leaseId := "l".toList, completedAtMs := nowMs
      nextRunAtMs := some (nowMs + 100), expectedGoalId := none, finish := .completed }
    {}

end Codewith.ScheduleStore
