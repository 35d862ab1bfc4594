import Codewith.ScheduleStore.Leases

/-!
# What the operations on schedules do

The state that each operation leaves when it returns, and what it has checked
before.
-/

namespace Codewith.ScheduleStore

open Lib
open GoalStore (ThreadId)

variable {redactStateString : Text → Text} {db db' : Db} {nowMs : Int}

theorem Db.schedule?_eq_some {scheduleId : Text} {row : ThreadSchedule}
    (h : db.schedule? scheduleId = some row) : row ∈ db.schedules ∧ row.scheduleId = scheduleId :=
  ⟨List.mem_of_find?_eq_some h, by simpa using List.find?_some h⟩

theorem Db.schedule?_eq_none {scheduleId : Text} :
    db.schedule? scheduleId = none ↔ ∀ row ∈ db.schedules, row.scheduleId ≠ scheduleId := by
  simp [Db.schedule?]

/-- The columns that say how a schedule is nested. -/
structure Nesting where
  scheduleId : Text
  threadId : ThreadId
  parentScheduleId : Option Text
  nestingDepth : Int
  schedule : ThreadScheduleSpec
  deriving DecidableEq, Repr

def ThreadSchedule.nesting (row : ThreadSchedule) : Nesting :=
  ⟨row.scheduleId, row.threadId, row.parentScheduleId, row.nestingDepth, row.schedule⟩

/-! ## Creating -/

/-- What the trigger has checked of a nested schedule. -/
structure NestsIn (parent row : ThreadSchedule) : Prop where
  thread : parent.threadId = row.threadId
  depth : row.nestingDepth = parent.nestingDepth + 1
  bound : parent.nestingDepth < 5
  slower : ∃ childSeconds parentSeconds, row.schedule.cadence = some childSeconds ∧
    parent.schedule.cadence = some parentSeconds ∧ parentSeconds < childSeconds

theorem slower_of_notSlower {child parent : ThreadScheduleSpec} (hchild : child.cadence ≠ none)
    (hparent : parent.cadence ≠ none) (h : notSlower child parent = false) :
    ∃ childSeconds parentSeconds, child.cadence = some childSeconds ∧
      parent.cadence = some parentSeconds ∧ parentSeconds < childSeconds := by
  obtain ⟨childSeconds, hc⟩ := Option.ne_none_iff_exists'.1 hchild
  obtain ⟨parentSeconds, hp⟩ := Option.ne_none_iff_exists'.1 hparent
  refine ⟨childSeconds, parentSeconds, hc, hp, ?_⟩
  simpa [notSlower, hc, hp] using h

/-- A row is inserted as a root or below a parent. -/
theorem insertSchedule_eq_ok {row : ThreadSchedule} {u : Unit}
    (h : insertSchedule row db = (.ok u, db')) :
    (∀ other ∈ db.schedules, other.scheduleId ≠ row.scheduleId) ∧
      ((row.parentScheduleId = none ∧ row.nestingDepth = 1) ∨
        ∃ parent ∈ db.schedules, row.parentScheduleId = some parent.scheduleId ∧
          NestsIn parent row) ∧
      db' = { db with schedules := db.schedules ++ [row] } := by
  simp only [insertSchedule, Exec.bind_eq_ok, Store.constrain_eq_ok, Exec.gets_eq_ok,
    Exec.modify_eq_ok] at h
  obtain ⟨_, mid, htrigger, _, _, ⟨-, rfl⟩, _, _, ⟨rfl, rfl⟩, _, _, ⟨hfresh, rfl⟩, _, _, ⟨rfl, rfl⟩,
    _, _, ⟨-, rfl⟩, rfl⟩ := h
  unfold validateNestingInsert at htrigger
  cases hparent : row.parentScheduleId with
  | none =>
      rw [hparent] at htrigger
      obtain ⟨hdepth, rfl⟩ := Store.ensure_eq_ok.1 htrigger
      exact ⟨Db.schedule?_eq_none.1 hfresh, .inl ⟨rfl, hdepth⟩, rfl⟩
  | some parentScheduleId =>
      rw [hparent] at htrigger
      simp only [Exec.bind_eq_ok, Exec.gets_eq_ok] at htrigger
      obtain ⟨found, _, ⟨hfound, rfl⟩, htrigger⟩ := htrigger
      cases found with
      | none => exact (Store.bail_eq_ok.1 htrigger).elim
      | some parent =>
          simp only [Exec.bind_eq_ok, Store.ensure_eq_ok] at htrigger
          obtain ⟨_, _, ⟨hthread, rfl⟩, _, _, ⟨-, rfl⟩, _, _, ⟨hbound, rfl⟩, _, _, ⟨hdepth, rfl⟩, _,
            _, ⟨hchild, rfl⟩, _, _, ⟨hparentCadence, rfl⟩, hslower, rfl⟩ := htrigger
          obtain ⟨hmem, rfl⟩ := Db.schedule?_eq_some hfound
          exact ⟨Db.schedule?_eq_none.1 hfresh, .inr ⟨parent, hmem, rfl, hthread, hdepth, hbound,
            slower_of_notSlower hchild hparentCadence hslower⟩, rfl⟩

theorem createThreadSchedule_eq_ok {params : ThreadScheduleCreateParams}
    {parentScheduleId : Option Text} {authProfile : Option (Option Text)} {scheduleId : Text}
    {row : ThreadSchedule}
    (h : createThreadScheduleWithRecordedAuthProfile redactStateString params parentScheduleId
      authProfile scheduleId nowMs db = (.ok row, db')) :
    insertSchedule row db = (.ok (), db') := by
  simp only [createThreadScheduleWithRecordedAuthProfile, Exec.bind_eq_ok, Exec.pure_eq_ok] at h
  obtain ⟨nesting, mid, hnesting, _, _, hinsert, rfl, rfl⟩ := h
  have hmid : mid = db := by
    unfold validateScheduleCreateNesting at hnesting
    cases parentScheduleId with
    | none => exact (Exec.pure_eq_ok.1 hnesting).2.symm
    | some parentScheduleId =>
        simp only [validatedParent, Exec.bind_eq_ok, Store.ensure_eq_ok, Exec.gets_eq_ok,
          Exec.pure_eq_ok] at hnesting
        obtain ⟨_, _, ⟨-, rfl⟩, parent, _, ⟨_, _, ⟨-, rfl⟩, found, _, ⟨-, rfl⟩, hparent⟩, -, rfl⟩ :=
          hnesting
        cases found with
        | none => exact (Store.bail_eq_ok.1 hparent).elim
        | some other =>
            simp only [Exec.bind_eq_ok, Store.ofResult_eq_ok, Exec.pure_eq_ok] at hparent
            obtain ⟨_, _, ⟨-, rfl⟩, -, rfl⟩ := hparent
            rfl
  rw [hmid] at hinsert
  exact hinsert

/-! ## Updating -/

/-- The cadence stays, or the schedule has no children and is slower than its parent. -/
def Db.Allows (db : Db) (row : ThreadSchedule) (schedule : ThreadScheduleSpec) : Prop :=
  schedule = row.schedule ∨ (db.hasChildren row.scheduleId = false ∧
    ∀ parentScheduleId, row.parentScheduleId = some parentScheduleId →
      schedule.cadence ≠ none ∧ ∀ parent, db.schedule? parentScheduleId = some parent →
        notSlower schedule parent.schedule = false)

theorem validateCadenceUpdate_eq_ok {old new : ThreadSchedule} {u : Unit}
    (hparent : new.parentScheduleId = old.parentScheduleId)
    (h : validateCadenceUpdate old new db = (.ok u, db')) :
    db.Allows old new.schedule ∧ db = db' := by
  unfold validateCadenceUpdate at h
  rcases Exec.onlyIf_eq_ok.1 h with ⟨hchanged, h⟩ | ⟨hsame, hstate⟩
  · simp only [Exec.bind_eq_ok, Exec.gets_eq_ok, Store.ensure_eq_ok] at h
    obtain ⟨_, _, ⟨rfl, rfl⟩, _, _, ⟨hchildren, rfl⟩, h⟩ := h
    rw [hparent] at h
    cases hold : old.parentScheduleId with
    | none =>
        rw [hold] at h
        refine ⟨.inr ⟨hchildren, ?_⟩, (Exec.pure_eq_ok.1 h).2⟩
        intro parentScheduleId hsome
        rw [hold] at hsome
        cases hsome
    | some parentScheduleId =>
        rw [hold] at h
        simp only [Exec.bind_eq_ok, Exec.gets_eq_ok, Store.ensure_eq_ok] at h
        obtain ⟨_, _, ⟨hcadence, rfl⟩, _, _, ⟨rfl, rfl⟩, hslower, rfl⟩ := h
        refine ⟨.inr ⟨hchildren, ?_⟩, rfl⟩
        intro other hother
        rw [hold] at hother
        obtain rfl := Option.some.inj hother
        refine ⟨hcadence, ?_⟩
        intro parent hfound
        simpa [hfound] using hslower
  · exact ⟨.inl (not_not.1 hsame), hstate⟩

/-- The error of the runs that an update ends. -/
def ThreadScheduleStatus.runError : ThreadScheduleStatus → Text
  | .active => []
  | .paused => pausedScheduleRunError
  | .expired => expiredScheduleRunError

/-- The database after the transaction of an update. -/
def Db.withUpdate (redactStateString : Text → Text) (existing : ThreadSchedule)
    (update : ThreadScheduleUpdate) (nowMs : Int) (db : Db) : Db :=
  let written := db.updateSchedules (fun row => row.scheduleId = existing.scheduleId)
    (updatedSchedule redactStateString existing update nowMs)
  let status := update.status.getD existing.status
  if status = .active then written
  else written.failLiveRuns redactStateString (fun run => run.scheduleId = existing.scheduleId)
    status.runError nowMs

theorem writeThreadScheduleUpdate_eq_ok {existing : ThreadSchedule} {update : ThreadScheduleUpdate}
    {updated : Option ThreadSchedule}
    (h : writeThreadScheduleUpdate redactStateString existing update nowMs db =
      (.ok updated, db')) :
    (db.schedule? existing.scheduleId = none ∧ updated = none ∧ db' = db) ∨
    ∃ row, db.schedule? existing.scheduleId = some row ∧
      updated = some (updatedSchedule redactStateString existing update nowMs row) ∧
      db.Allows row (updatedSchedule redactStateString existing update nowMs row).schedule ∧
      db' = db.withUpdate redactStateString existing update nowMs := by
  simp only [writeThreadScheduleUpdate, Exec.bind_eq_ok, Exec.gets_eq_ok] at h
  obtain ⟨found, _, ⟨hfound, rfl⟩, h⟩ := h
  cases found with
  | none =>
      obtain ⟨rfl, rfl⟩ := Exec.pure_eq_ok.1 h
      exact .inl ⟨hfound, rfl, rfl⟩
  | some row =>
      simp only [Exec.bind_eq_ok, Store.constrain_eq_ok, Exec.modify_eq_ok, Exec.pure_eq_ok] at h
      obtain ⟨_, _, htrigger, _, _, ⟨-, rfl⟩, _, _, rfl, _, last, hruns, rfl, rfl⟩ := h
      unfold failRunsOfInactive at hruns
      obtain ⟨hallows, rfl⟩ := validateCadenceUpdate_eq_ok (by rfl) htrigger
      refine .inr ⟨row, hfound, rfl, hallows, ?_⟩
      have hstatus : (updatedSchedule redactStateString existing update nowMs row).status =
          update.status.getD existing.status := rfl
      rw [hstatus] at hruns
      unfold Db.withUpdate
      cases hfinal : update.status.getD existing.status with
      | active =>
          rw [hfinal] at hruns
          exact (Exec.pure_eq_ok.1 hruns).2.symm
      | paused =>
          rw [hfinal] at hruns
          exact (Exec.modify_eq_ok.1 hruns).symm
      | expired =>
          rw [hfinal] at hruns
          exact (Exec.modify_eq_ok.1 hruns).symm

theorem validatedParent_state {parentScheduleId : Text} {threadId : ThreadId}
    {schedule : ThreadScheduleSpec} {parent : ThreadSchedule}
    (h : validatedParent parentScheduleId threadId schedule db = (.ok parent, db')) : db' = db := by
  simp only [validatedParent, Exec.bind_eq_ok, Store.ensure_eq_ok, Exec.gets_eq_ok] at h
  obtain ⟨_, _, ⟨-, rfl⟩, found, _, ⟨-, rfl⟩, h⟩ := h
  cases found with
  | none => exact (Store.bail_eq_ok.1 h).elim
  | some other =>
      simp only [Exec.bind_eq_ok, Store.ofResult_eq_ok, Exec.pure_eq_ok] at h
      obtain ⟨_, _, ⟨-, rfl⟩, -, rfl⟩ := h
      rfl

/-- An update that runs to its end writes over the row it has read. -/
theorem updateThreadSchedule_eq_ok {scheduleId : Text} {update : ThreadScheduleUpdate}
    {updated : Option ThreadSchedule}
    (h : updateThreadSchedule redactStateString scheduleId update nowMs db = (.ok updated, db')) :
    db' = db ∨ ∃ existing, db.schedule? scheduleId = some existing ∧
      writeThreadScheduleUpdate redactStateString existing update nowMs db =
        (.ok updated, db') := by
  simp only [updateThreadSchedule, Exec.bind_eq_ok, Exec.gets_eq_ok] at h
  obtain ⟨found, _, ⟨hfound, rfl⟩, h⟩ := h
  cases found with
  | none => exact .inl (Exec.pure_eq_ok.1 h).2.symm
  | some existing =>
      obtain ⟨_, mid, hvalid, hwrite⟩ := Exec.bind_eq_ok.1 h
      have hmid : mid = db := by
        rcases hschedule : update.schedule.filter fun schedule => schedule ≠ existing.schedule with
          _ | schedule
        · rw [hschedule] at hvalid
          exact (Exec.pure_eq_ok.1 hvalid).2.symm
        · rw [hschedule] at hvalid
          simp only [validateScheduleUpdateNesting, Exec.bind_eq_ok, Exec.gets_eq_ok,
            Store.ensure_eq_ok] at hvalid
          obtain ⟨_, _, ⟨rfl, rfl⟩, _, _, ⟨-, rfl⟩, hvalid⟩ := hvalid
          cases hparent : existing.parentScheduleId with
          | none =>
              rw [hparent] at hvalid
              exact (Exec.pure_eq_ok.1 hvalid).2.symm
          | some parentScheduleId =>
              rw [hparent] at hvalid
              obtain ⟨_, _, hparent, hlast⟩ := Exec.bind_eq_ok.1 hvalid
              rw [← (Exec.pure_eq_ok.1 hlast).2]
              exact validatedParent_state hparent
      rw [hmid] at hwrite
      exact .inr ⟨existing, hfound, hwrite⟩

theorem resumeThreadSchedule_eq_ok {scheduleId : Text} {nextRunAtMs : Option Int}
    {resumed : Option ThreadSchedule}
    (h : resumeThreadScheduleWithNextRunAt scheduleId nextRunAtMs nowMs db = (.ok resumed, db')) :
    ∃ f, db' = db.updateSchedules (fun row => row.scheduleId = scheduleId) f ∧
      ∀ row, (f row).nesting = row.nesting ∧ (f row).status = .active ∧
        (f row).lease = row.lease := by
  simp only [resumeThreadScheduleWithNextRunAt, Exec.bind_eq_ok, Exec.modify_eq_ok,
    Exec.gets_eq_ok] at h
  obtain ⟨_, _, rfl, -, rfl⟩ := h
  exact ⟨_, rfl, fun row => ⟨rfl, rfl, rfl⟩⟩

/-! ## Deleting -/

theorem deleteThreadScheduleTree_eq_ok {scheduleId : Text} {deleted : List Text}
    (h : deleteThreadScheduleTree scheduleId db = (.ok deleted, db')) :
    ∃ subtree, db.subtreeOf scheduleId = some subtree ∧
      (∀ id, id ∈ deleted ↔ ∃ row ∈ subtree, row.scheduleId = id) ∧
      db' = db.deleteSchedules fun schedule =>
        subtree.any fun row => row.scheduleId = schedule.scheduleId := by
  simp only [deleteThreadScheduleTree, Exec.bind_eq_ok, Exec.gets_eq_ok] at h
  obtain ⟨found, _, ⟨hfound, rfl⟩, h⟩ := h
  cases found with
  | none => exact (Exec.fail_eq_ok.1 h).elim
  | some subtree =>
      simp only [Exec.bind_eq_ok, Exec.modify_eq_ok, Exec.pure_eq_ok] at h
      obtain ⟨_, _, rfl, rfl, rfl⟩ := h
      refine ⟨subtree, hfound, ?_, rfl⟩
      intro id
      simp

theorem deleteThreadSchedulesForThread_eq_ok {threadId : ThreadId} {count : Nat}
    (h : deleteThreadSchedulesForThread threadId db = (.ok count, db')) :
    db' = db.deleteSchedules fun schedule => schedule.threadId = threadId := by
  simp only [deleteThreadSchedulesForThread, Exec.bind_eq_ok, Exec.gets_eq_ok, Exec.modify_eq_ok,
    Exec.pure_eq_ok] at h
  obtain ⟨_, _, ⟨-, rfl⟩, _, _, rfl, -, rfl⟩ := h
  rfl

/-! ## Leases -/

theorem Db.mem_of_claimable {params : ClaimThreadScheduleParams} {surroundings : Surroundings}
    {selected : ThreadSchedule} (h : db.claimable params surroundings = some selected) :
    selected ∈ db.schedules ∧ selected.status = .active := by
  obtain ⟨hmem, hclaimable⟩ := Table.mem_selectOrdered.1 (List.mem_of_head? h)
  simp only [ThreadSchedule.isClaimable, Bool.and_eq_true, decide_eq_true_eq] at hclaimable
  exact ⟨hmem, hclaimable.1.1.1.2⟩

/-- The database once a claim has ended the live runs of the schedule it selected. -/
def Db.released (redactStateString : Text → Text) (selected : ThreadSchedule) (nowMs : Int)
    (f : ThreadSchedule → ThreadSchedule) (db : Db) : Db :=
  (db.reapRuns redactStateString selected.scheduleId nowMs).updateSchedules
    (fun row => row.scheduleId = selected.scheduleId && row.status = .active) f

/-- A claim changes nothing, or it ends the live runs of an active schedule and then
pauses the schedule, or leases it to a new run. -/
theorem claimThreadSchedule_eq_ok {params : ClaimThreadScheduleParams} {surroundings : Surroundings}
    {runId : Text} {claim : Option ThreadScheduleClaim}
    (h : claimThreadScheduleOnce redactStateString params surroundings runId db =
      (.ok claim, db')) :
    db' = db ∨ ∃ selected ∈ db.schedules, selected.status = .active ∧
      ((∃ f, db' = db.released redactStateString selected params.nowMs f ∧
          ∀ row, (f row).nesting = row.nesting ∧ (f row).status = .paused) ∨
        ∃ f, db' = { db.released redactStateString selected params.nowMs f with
            runs := (db.released redactStateString selected params.nowMs f).runs ++
              [leasedRun selected params runId] } ∧
          (∀ row, (f row).nesting = row.nesting ∧ (f row).status = row.status ∧
            (f row).lease = some ⟨params.scopedLeaseId, params.leaseExpiresAtMs⟩) ∧
          ∀ run ∈ db.runs, run.runId ≠ runId) := by
  simp only [claimThreadScheduleOnce, Exec.bind_eq_ok, Exec.gets_eq_ok] at h
  obtain ⟨found, _, ⟨hfound, rfl⟩, h⟩ := h
  cases found with
  | none => exact .inl (Exec.pure_eq_ok.1 h).2.symm
  | some selected =>
      obtain ⟨hmem, hactive⟩ := Db.mem_of_claimable hfound
      simp only [Exec.bind_eq_ok, Exec.gets_eq_ok] at h
      obtain ⟨reaped, _, ⟨-, rfl⟩, hold, _, ⟨-, rfl⟩, h⟩ := h
      cases hold with
      | true =>
          simp only [if_true, Exec.bind_eq_ok, Exec.modify_eq_ok, Exec.pure_eq_ok] at h
          obtain ⟨_, _, rfl, _, _, rfl, -, rfl⟩ := h
          exact .inr ⟨selected, hmem, hactive, .inl ⟨_, rfl, fun row => ⟨rfl, rfl⟩⟩⟩
      | false =>
          simp only [Bool.false_eq_true, if_false, Exec.ite_run] at h
          split at h
          · exact .inl (Exec.pure_eq_ok.1 h).2.symm
          · simp only [insertRun, Exec.bind_eq_ok, Exec.modify_eq_ok, Exec.gets_eq_ok,
              Store.constrain_eq_ok, Exec.pure_eq_ok] at h
            obtain ⟨_, _, rfl, _, _, rfl, _, _, ⟨_, _, ⟨rfl, rfl⟩, _, _, ⟨hfresh, rfl⟩, rfl⟩, -,
              rfl⟩ := h
            refine .inr ⟨selected, hmem, hactive, .inr ⟨_, rfl, fun row => ⟨rfl, rfl, rfl⟩, ?_⟩⟩
            intro run hrun hid
            have hids : (db.reapRuns redactStateString selected.scheduleId params.nowMs).runs.map
                (·.runId) = db.runs.map (·.runId) :=
              Table.map_updateWhere_eq_iff.2 fun _ _ _ => rfl
            have hafter : runId ∈ (db.reapRuns redactStateString selected.scheduleId
                params.nowMs).runs.map (·.runId) := by
              rw [hids]
              exact List.mem_map.2 ⟨run, hrun, hid⟩
            obtain ⟨after, hmem, hsame⟩ := List.mem_map.1 hafter
            have hother := List.find?_eq_none.1 hfresh after hmem
            exact hother (decide_eq_true hsame)

/-- Starting a run takes it from leased to running, under the lease of its schedule. -/
theorem markThreadScheduleRunStarted_eq_ok {params : ThreadScheduleRunLeaseParams} {turnId : Text}
    {goalId : Option Text} {started : Option ThreadScheduleRun}
    (h : markThreadScheduleRunStartedOnce params turnId goalId db = (.ok started, db')) :
    db' = db ∨ ∃ p f g, db' = (db.updateSchedules p f).updateRuns
        (fun run => isRunOf params.scheduleId params.runId params.leaseId run &&
          run.status = .leased) g ∧
      (∀ row, (f row).nesting = row.nesting ∧ (f row).status = row.status ∧
        (f row).lease.map (·.id) = row.lease.map (·.id)) ∧
      ∀ run, (g run).runId = run.runId ∧ (g run).scheduleId = run.scheduleId ∧
        (g run).leaseId = run.leaseId ∧ (g run).status = .running := by
  simp only [markThreadScheduleRunStartedOnce, Exec.bind_eq_ok, Exec.gets_eq_ok] at h
  obtain ⟨isLeased, _, ⟨-, rfl⟩, found, _, ⟨-, rfl⟩, h⟩ := h
  cases isLeased with
  | false => exact .inl (Exec.pure_eq_ok.1 h).2.symm
  | true =>
      cases found with
      | none => exact .inl (Exec.pure_eq_ok.1 h).2.symm
      | some run =>
          simp only [Exec.bind_eq_ok, Exec.modify_eq_ok, Exec.pure_eq_ok] at h
          obtain ⟨_, _, rfl, _, _, rfl, -, rfl⟩ := h
          refine .inr ⟨_, _, _, rfl, fun row => ⟨rfl, rfl, ?_⟩, fun run => ⟨rfl, rfl, rfl, rfl⟩⟩
          cases row.lease <;> rfl

theorem extendThreadScheduleLease_eq_ok {params : ThreadScheduleRunLeaseParams} {extended : Bool}
    (h : extendThreadScheduleLease params db = (.ok extended, db')) :
    ∃ p f, db' = db.updateSchedules p f ∧
      ∀ row, (f row).nesting = row.nesting ∧ (f row).status = row.status ∧
        (f row).lease.map (·.id) = row.lease.map (·.id) := by
  simp only [extendThreadScheduleLease, Exec.bind_eq_ok, Exec.gets_eq_ok, Exec.modify_eq_ok,
    Exec.pure_eq_ok] at h
  obtain ⟨_, _, ⟨-, rfl⟩, _, _, ⟨-, rfl⟩, _, _, rfl, -, rfl⟩ := h
  refine ⟨_, _, rfl, fun row => ⟨rfl, rfl, ?_⟩⟩
  cases row.lease <;> rfl

theorem finishThreadScheduleRun_eq_ok {params : FinishThreadScheduleRunParams}
    {surroundings : Surroundings} {finished : Bool}
    (h : finishThreadScheduleRunOnce redactStateString params surroundings db =
      (.ok finished, db')) :
    db' = db ∨ ∃ pauseSchedule, db.runs.any (isFinishable params) = true ∧
      db' = (db.updateSchedules
        (fun row => row.scheduleId = params.scheduleId && row.hasLease params.leaseId)
        (finishedSchedule params pauseSchedule)).updateRuns
        (isRunOf params.scheduleId params.runId params.leaseId)
        (finishedRun redactStateString params) := by
  simp only [finishThreadScheduleRunOnce, Exec.bind_eq_ok, Exec.gets_eq_ok] at h
  obtain ⟨found, _, ⟨-, rfl⟩, isLive, _, ⟨hlive, rfl⟩, h⟩ := h
  cases found with
  | none => exact .inl (Exec.pure_eq_ok.1 h).2.symm
  | some schedule =>
      cases isLive with
      | false => exact .inl (Exec.pure_eq_ok.1 h).2.symm
      | true =>
          simp only [Exec.bind_eq_ok, Exec.modify_eq_ok, Exec.pure_eq_ok] at h
          obtain ⟨_, _, rfl, _, _, rfl, -, rfl⟩ := h
          exact .inr ⟨_, hlive, rfl⟩

theorem deferThreadScheduleRun_eq_ok {params : DeferThreadScheduleRunParams} {deferred : Bool}
    (h : deferThreadScheduleRun redactStateString params db = (.ok deferred, db')) :
    db' = db ∨
      ((db.schedules.any fun row =>
        row.scheduleId = params.scheduleId && row.hasLease params.leaseId) = true ∧
      db.runs.any (isRunOf params.scheduleId params.runId params.leaseId) = true ∧
      ∃ g, db' = (db.updateSchedules
          (fun row => row.scheduleId = params.scheduleId && row.hasLease params.leaseId)
          (deferredSchedule params)).updateRuns
          (isRunOf params.scheduleId params.runId params.leaseId) g ∧
        ∀ run, (g run).runId = run.runId ∧ (g run).scheduleId = run.scheduleId ∧
          (g run).leaseId = run.leaseId ∧ (g run).status = .deferred) := by
  simp only [deferThreadScheduleRun, Exec.bind_eq_ok, Exec.gets_eq_ok] at h
  obtain ⟨isLeased, _, ⟨hleased, rfl⟩, hasRun, _, ⟨hhasRun, rfl⟩, h⟩ := h
  rw [Exec.ite_run] at h
  split at h
  · rename_i hboth
    rw [Bool.and_eq_true] at hboth
    simp only [Exec.bind_eq_ok, Exec.modify_eq_ok, Exec.pure_eq_ok] at h
    obtain ⟨_, _, rfl, _, _, rfl, -, rfl⟩ := h
    exact .inr ⟨hleased.trans hboth.1, hhasRun.trans hboth.2, _, rfl, fun run =>
      ⟨rfl, rfl, rfl, rfl⟩⟩
  · exact .inl (Exec.pure_eq_ok.1 h).2.symm

theorem expireThreadSchedules_eq_ok {count : Nat}
    (h : expireThreadSchedules redactStateString nowMs db = (.ok count, db')) :
    ∃ f, db' = (db.failLiveRuns redactStateString
        (fun run => db.schedules.any fun row =>
          row.scheduleId = run.scheduleId && row.isDueToExpire nowMs)
        expiredScheduleRunError nowMs).updateSchedules (·.isDueToExpire nowMs) f ∧
      ∀ row, (f row).nesting = row.nesting := by
  simp only [expireThreadSchedules, Exec.bind_eq_ok, Exec.gets_eq_ok, Exec.modify_eq_ok,
    Exec.pure_eq_ok] at h
  obtain ⟨_, _, rfl, _, _, ⟨-, rfl⟩, _, _, rfl, -, rfl⟩ := h
  exact ⟨_, rfl, fun row => rfl⟩

end Codewith.ScheduleStore
