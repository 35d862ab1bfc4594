import Codewith.ScheduleStore.Nesting

/-!
# The live run of a schedule

A run that is leased or running holds the lease of its schedule: it is the only live
run of an active schedule, and the lease id of the schedule is its own.  A run that
has ended stays as it is.

All operations keep this but one.  `defer_thread_schedule_run` compares the lease of
the run with the lease of the schedule and does not look at the status of the run, so
that with a lease id used twice it can end the lease of a later run in the name of one
that has already ended.
-/

namespace Codewith.ScheduleStore

open Lib
open GoalStore (ThreadId)

variable {redactStateString : Text → Text} {db db' : Db} {nowMs : Int}

/-- The schedule is active under the lease. -/
def ThreadSchedule.Holds (row : ThreadSchedule) (leaseId : Text) : Prop :=
  row.status = .active ∧ row.lease.map (·.id) = some leaseId

structure Db.Leased (db : Db) : Prop where
  runIds : (db.runs.map (·.runId)).Nodup
  held : ∀ run ∈ db.runs, run.isLive = true →
    ∃ schedule ∈ db.schedules, schedule.scheduleId = run.scheduleId ∧ schedule.Holds run.leaseId
  single : ∀ run ∈ db.runs, ∀ other ∈ db.runs, run.isLive = true → other.isLive = true →
    run.scheduleId = other.scheduleId → run = other

/-- A run that has ended is there afterwards, ended in the same way. -/
def Db.Settles (db db' : Db) : Prop :=
  ∀ run ∈ db.runs, run.isLive = false →
    ∃ after ∈ db'.runs, after.runId = run.runId ∧ after.status = run.status

theorem ThreadScheduleRun.isLive_congr {run other : ThreadScheduleRun}
    (h : other.status = run.status) : other.isLive = run.isLive := by
  rw [ThreadScheduleRun.isLive, ThreadScheduleRun.isLive, h]

theorem Db.Settles.refl (db : Db) : db.Settles db :=
  fun run hrun _ => ⟨run, hrun, rfl, rfl⟩

theorem Db.Settles.trans {a b c : Db} (hab : a.Settles b) (hbc : b.Settles c) : a.Settles c := by
  intro run hrun hended
  obtain ⟨mid, hmid, hid, hstatus⟩ := hab run hrun hended
  have hmidEnded : mid.isLive = false := (ThreadScheduleRun.isLive_congr hstatus).trans hended
  obtain ⟨after, hafter, hid', hstatus'⟩ := hbc mid hmid hmidEnded
  exact ⟨after, hafter, hid'.trans hid, hstatus'.trans hstatus⟩

/-- A change that starts no run: the runs that are live afterwards were live before, and
keep what they hold. -/
structure Db.Carries (db db' : Db) : Prop where
  runIds : db'.runs.map (·.runId) = db.runs.map (·.runId)
  live : ∀ after ∈ db'.runs, after.isLive = true →
    ∃ run ∈ db.runs, run.isLive = true ∧ run.runId = after.runId ∧
      run.scheduleId = after.scheduleId ∧ run.leaseId = after.leaseId ∧
      ∀ schedule ∈ db.schedules, schedule.scheduleId = run.scheduleId →
        schedule.Holds run.leaseId → ∃ schedule' ∈ db'.schedules,
          schedule'.scheduleId = run.scheduleId ∧ schedule'.Holds run.leaseId
  settles : db.Settles db'

namespace Db.Leased

theorem empty (threads : List ThreadId) : (Db.empty threads).Leased := by
  refine ⟨List.nodup_nil, ?_, ?_⟩ <;>
  · intro run hrun
    cases hrun

theorem eq_of_id (h : db.Leased) {a b : ThreadScheduleRun} (ha : a ∈ db.runs) (hb : b ∈ db.runs)
    (hid : a.runId = b.runId) : a = b :=
  List.inj_on_of_nodup_map h.runIds ha hb hid

theorem carry (h : db.Leased) (hcarries : db.Carries db') : db'.Leased := by
  have hids : (db'.runs.map (·.runId)).Nodup := hcarries.runIds ▸ h.runIds
  refine ⟨hids, ?_, ?_⟩
  · intro after hafter hlive
    obtain ⟨run, hrun, hrunLive, -, hschedule, hlease, hkeeps⟩ := hcarries.live after hafter hlive
    obtain ⟨schedule, hmem, hid, hholds⟩ := h.held run hrun hrunLive
    obtain ⟨schedule', hmem', hid', hholds'⟩ := hkeeps schedule hmem hid hholds
    exact ⟨schedule', hmem', hid'.trans hschedule, hlease ▸ hholds'⟩
  · intro a ha b hb hliveA hliveB hsame
    obtain ⟨runA, hrunA, hliveA', hidA, hscheduleA, -⟩ := hcarries.live a ha hliveA
    obtain ⟨runB, hrunB, hliveB', hidB, hscheduleB, -⟩ := hcarries.live b hb hliveB
    have hold : runA = runB := h.single runA hrunA runB hrunB hliveA' hliveB'
      (by rw [hscheduleA, hscheduleB, hsame])
    exact List.inj_on_of_nodup_map hids ha hb (by rw [← hidA, ← hidB, hold])

/-- A new run takes the lease of a schedule that has no live run. -/
theorem grant (h : db.Leased) {run : ThreadScheduleRun} {schedule : ThreadSchedule}
    (hfresh : ∀ other ∈ db.runs, other.runId ≠ run.runId) (hschedule : schedule ∈ db.schedules)
    (hid : schedule.scheduleId = run.scheduleId) (hholds : schedule.Holds run.leaseId)
    (hfree : ∀ other ∈ db.runs, other.isLive = true → other.scheduleId ≠ run.scheduleId) :
    ({ db with runs := db.runs ++ [run] } : Db).Leased := by
  refine ⟨?_, ?_, ?_⟩
  · rw [List.map_append, List.nodup_append']
    refine ⟨h.runIds, List.nodup_singleton _, ?_⟩
    intro id hold hnew
    obtain ⟨other, hother, rfl⟩ := List.mem_map.1 hold
    exact hfresh other hother (by simpa using hnew)
  · intro other hother hlive
    rcases List.mem_append.1 hother with hold | hnew
    · exact h.held other hold hlive
    · obtain rfl := List.mem_singleton.1 hnew
      exact ⟨schedule, hschedule, hid, hholds⟩
  · intro a ha b hb hliveA hliveB hsame
    rcases List.mem_append.1 ha with holdA | hnewA <;>
      rcases List.mem_append.1 hb with holdB | hnewB
    · exact h.single a holdA b holdB hliveA hliveB hsame
    · obtain rfl := List.mem_singleton.1 hnewB
      exact absurd hsame (hfree a holdA hliveA)
    · obtain rfl := List.mem_singleton.1 hnewA
      exact absurd hsame.symm (hfree b holdB hliveB)
    · rw [List.mem_singleton.1 hnewA, List.mem_singleton.1 hnewB]

/-- Schedules are deleted together with their runs. -/
theorem delete (h : db.Leased) (p : ThreadSchedule → Bool) : (db.deleteSchedules p).Leased := by
  refine ⟨h.runIds.sublist (List.filter_sublist.map _), ?_, ?_⟩
  · intro run hrun hlive
    obtain ⟨hmem, hkept⟩ := Table.mem_deleteWhere.1 hrun
    obtain ⟨schedule, hschedule, hid, hholds⟩ := h.held run hmem hlive
    have hstays : p schedule = false := by
      have hother := List.any_eq_false.1 hkept schedule hschedule
      simpa [hid] using hother
    exact ⟨schedule, Table.mem_deleteWhere.2 ⟨hschedule, hstays⟩, hid, hholds⟩
  · intro a ha b hb
    exact h.single a (Table.mem_deleteWhere.1 ha).1 b (Table.mem_deleteWhere.1 hb).1

end Db.Leased

/-! ## Updates of rows -/

/-- An update of the run keeps who it is. -/
def KeepsRun (g : ThreadScheduleRun → ThreadScheduleRun) : Prop :=
  ∀ run, (g run).runId = run.runId ∧ (g run).scheduleId = run.scheduleId ∧
    (g run).leaseId = run.leaseId

/-- Live runs are updated together with their schedules: what stays live keeps the lease
of its schedule. -/
theorem Db.Carries.of_update {p : ThreadSchedule → Bool} {f : ThreadSchedule → ThreadSchedule}
    {q : ThreadScheduleRun → Bool} {g : ThreadScheduleRun → ThreadScheduleRun}
    (hschedules : db'.schedules = Table.updateWhere p f db.schedules)
    (hruns : db'.runs = Table.updateWhere q g db.runs)
    (hf : ∀ row, (f row).scheduleId = row.scheduleId) (hg : KeepsRun g)
    (hq : ∀ run ∈ db.runs, q run = true → run.isLive = true)
    (hkeeps : ∀ run ∈ db.runs, run.isLive = true → (q run = true → (g run).isLive = true) →
      ∀ schedule ∈ db.schedules, schedule.scheduleId = run.scheduleId →
        schedule.Holds run.leaseId → p schedule = true → (f schedule).Holds run.leaseId) :
    db.Carries db' := by
  have hstays : ∀ run ∈ db.runs, run.isLive = true → (q run = true → (g run).isLive = true) →
      ∀ schedule ∈ db.schedules, schedule.scheduleId = run.scheduleId →
        schedule.Holds run.leaseId → ∃ schedule' ∈ db'.schedules,
          schedule'.scheduleId = run.scheduleId ∧ schedule'.Holds run.leaseId := by
    intro run hrun hlive hafter schedule hschedule hid hholds
    rw [hschedules]
    cases hp : p schedule with
    | true =>
        exact ⟨f schedule, Table.mem_updateWhere.2 (.inl ⟨schedule, hschedule, hp, rfl⟩),
          (hf schedule).trans hid, hkeeps run hrun hlive hafter schedule hschedule hid hholds hp⟩
    | false => exact ⟨schedule, Table.mem_updateWhere.2 (.inr ⟨hschedule, hp⟩), hid, hholds⟩
  refine ⟨?_, ?_, ?_⟩
  · rw [hruns]
    exact Table.map_updateWhere_eq_iff.2 fun run _ _ => (hg run).1
  · intro after hafter hlive
    rw [hruns] at hafter
    rcases Table.mem_updateWhere.1 hafter with ⟨run, hrun, hupdated, rfl⟩ | ⟨hrun, hother⟩
    · obtain ⟨hid, hschedule, hlease⟩ := hg run
      exact ⟨run, hrun, hq run hrun hupdated, hid.symm, hschedule.symm, hlease.symm,
        hstays run hrun (hq run hrun hupdated) fun _ => hlive⟩
    · refine ⟨after, hrun, hlive, rfl, rfl, rfl, hstays after hrun hlive fun hupdated => ?_⟩
      rw [hother] at hupdated
      cases hupdated
  · intro run hrun hended
    refine ⟨run, ?_, rfl, rfl⟩
    rw [hruns]
    refine Table.mem_updateWhere.2 (.inr ⟨hrun, ?_⟩)
    cases hupdated : q run with
    | false => rfl
    | true =>
        rw [hq run hrun hupdated] at hended
        cases hended

/-- The runs stay, and so do the leases of the active schedules. -/
theorem Db.Carries.of_quiet {p : ThreadSchedule → Bool} {f : ThreadSchedule → ThreadSchedule}
    (hf : ∀ row, (f row).scheduleId = row.scheduleId)
    (hholds : ∀ row leaseId, row.Holds leaseId → (f row).Holds leaseId) :
    db.Carries (db.updateSchedules p f) :=
  .of_update (q := fun _ => false) (g := id) rfl (Table.updateWhere_eq_self fun _ _ => rfl).symm hf
    (fun _ => ⟨rfl, rfl, rfl⟩) (fun _ _ h => by cases h) fun _ _ _ _ schedule _ _ h _ =>
      hholds schedule _ h

/-- Updated schedules lose their live runs. -/
theorem Db.Carries.of_release {p : ThreadSchedule → Bool} {f : ThreadSchedule → ThreadSchedule}
    {q : ThreadScheduleRun → Bool} {g : ThreadScheduleRun → ThreadScheduleRun}
    (hschedules : db'.schedules = Table.updateWhere p f db.schedules)
    (hruns : db'.runs = Table.updateWhere q g db.runs)
    (hf : ∀ row, (f row).scheduleId = row.scheduleId) (hg : KeepsRun g)
    (hended : ∀ run, (g run).isLive = false)
    (hq : ∀ run ∈ db.runs, q run = true → run.isLive = true)
    (hall : ∀ run ∈ db.runs, run.isLive = true → ∀ schedule ∈ db.schedules,
      schedule.scheduleId = run.scheduleId → p schedule = true → q run = true) :
    db.Carries db' := by
  refine .of_update hschedules hruns hf hg hq ?_
  intro run hrun hlive hafter schedule hschedule hid _ hp
  have hstill := hafter (hall run hrun hlive schedule hschedule hid hp)
  rw [hended] at hstill
  cases hstill

/-! ## The operations -/

theorem Db.Carries.insert {row : ThreadSchedule} :
    db.Carries { db with schedules := db.schedules ++ [row] } := by
  refine ⟨rfl, ?_, fun run hrun _ => ⟨run, hrun, rfl, rfl⟩⟩
  intro run hrun hlive
  exact ⟨run, hrun, hlive, rfl, rfl, rfl, fun schedule hschedule hid hholds =>
    ⟨schedule, List.mem_append_left _ hschedule, hid, hholds⟩⟩

theorem Db.Carries.withUpdate {existing : ThreadSchedule} {update : ThreadScheduleUpdate} :
    db.Carries (db.withUpdate redactStateString existing update nowMs) := by
  unfold Db.withUpdate
  by_cases hactive : update.status.getD existing.status = .active
  · rw [if_pos hactive]
    refine .of_quiet (fun _ => rfl) ?_
    intro row leaseId hholds
    refine ⟨hactive, ?_⟩
    simp only [updatedSchedule, hactive, if_true]
    exact hholds.2
  · rw [if_neg hactive]
    refine .of_release rfl rfl (fun _ => rfl) (fun _ => ⟨rfl, rfl, rfl⟩) (fun _ => rfl) ?_ ?_
    · intro run _ hq
      exact (Bool.and_eq_true _ _ ▸ hq).2
    · intro run _ hlive schedule _ hid hp
      rw [decide_eq_true_eq] at hp
      simp [hlive, ← hid, hp]

theorem Db.Carries.write {existing : ThreadSchedule} {update : ThreadScheduleUpdate}
    {updated : Option ThreadSchedule}
    (h : writeThreadScheduleUpdate redactStateString existing update nowMs db =
      (.ok updated, db')) : db = db' ∨ db.Carries db' := by
  rcases writeThreadScheduleUpdate_eq_ok h with ⟨-, -, rfl⟩ | ⟨row, -, -, -, rfl⟩
  · exact .inl rfl
  · exact .inr .withUpdate

theorem Db.Carries.released {selected : ThreadSchedule} {f : ThreadSchedule → ThreadSchedule}
    (hf : ∀ row, (f row).nesting = row.nesting) :
    db.Carries (db.released redactStateString selected nowMs f) := by
  refine .of_release rfl rfl (fun row => congrArg Nesting.scheduleId (hf row))
    (fun _ => ⟨rfl, rfl, rfl⟩) (fun _ => rfl) ?_ ?_
  · intro run _ hq
    exact (Bool.and_eq_true _ _ ▸ hq).2
  · intro run _ hlive schedule _ hid hp
    simp only [Bool.and_eq_true, decide_eq_true_eq] at hp
    simp [hlive, ← hid, hp.1]

/-- A claim that is granted starts the only live run of the schedule. -/
theorem Db.Leased.claim (h : db.Leased) {selected : ThreadSchedule}
    (hselected : selected ∈ db.schedules) (hactive : selected.status = .active)
    {params : ClaimThreadScheduleParams} {runId : Text} {f : ThreadSchedule → ThreadSchedule}
    (hf : ∀ row, (f row).nesting = row.nesting ∧ (f row).status = row.status ∧
      (f row).lease = some ⟨params.scopedLeaseId, params.leaseExpiresAtMs⟩)
    (hfresh : ∀ run ∈ db.runs, run.runId ≠ runId) :
    ({ db.released redactStateString selected params.nowMs f with
      runs := (db.released redactStateString selected params.nowMs f).runs ++
        [leasedRun selected params runId] } : Db).Leased := by
  have hcarries : db.Carries (db.released redactStateString selected params.nowMs f) :=
    .released fun row => (hf row).1
  have hmem : f selected ∈ (db.released redactStateString selected params.nowMs f).schedules :=
    Table.mem_updateWhere.2 (.inl ⟨selected, hselected, by simp [hactive], rfl⟩)
  refine (h.carry hcarries).grant ?_ hmem ?_ ?_ ?_
  · intro run hrun
    have hid : run.runId ∈ db.runs.map (·.runId) := by
      rw [← hcarries.runIds]
      exact List.mem_map_of_mem hrun
    obtain ⟨old, hold, heq⟩ := List.mem_map.1 hid
    rw [← heq]
    exact hfresh old hold
  · exact congrArg Nesting.scheduleId (hf selected).1
  · refine ⟨(hf selected).2.1.trans hactive, ?_⟩
    rw [(hf selected).2.2]
    rfl
  · intro run hrun hlive hid
    rcases Table.mem_updateWhere.1 hrun with ⟨old, -, -, rfl⟩ | ⟨-, hother⟩
    · cases hlive
    · have hselectedId : run.scheduleId = selected.scheduleId := hid
      simp [hlive, hselectedId] at hother

theorem Db.Settles.append {run : ThreadScheduleRun} (h : db.Settles db') :
    db.Settles { db' with runs := db'.runs ++ [run] } := by
  intro old hold hended
  obtain ⟨after, hafter, hid, hstatus⟩ := h old hold hended
  exact ⟨after, List.mem_append_left _ hafter, hid, hstatus⟩

theorem isRunOf_iff {scheduleId runId leaseId : Text} {run : ThreadScheduleRun} :
    isRunOf scheduleId runId leaseId run = true ↔
      run.scheduleId = scheduleId ∧ run.runId = runId ∧ run.leaseId = leaseId := by
  simp [isRunOf, and_assoc]

/-- The named run ends and gives back the lease of its schedule, provided it is live. -/
theorem Db.Leased.carries_giveBack (h : db.Leased) {scheduleId runId leaseId : Text}
    {f : ThreadSchedule → ThreadSchedule} {g : ThreadScheduleRun → ThreadScheduleRun}
    (hf : ∀ row, (f row).scheduleId = row.scheduleId) (hg : KeepsRun g)
    (hended : ∀ run, (g run).isLive = false)
    (hlive : ∀ run ∈ db.runs, isRunOf scheduleId runId leaseId run = true → run.isLive = true)
    (hexists : ∃ run ∈ db.runs, isRunOf scheduleId runId leaseId run = true) :
    db.Carries ((db.updateSchedules (fun row => row.scheduleId = scheduleId && row.hasLease leaseId)
      f).updateRuns (isRunOf scheduleId runId leaseId) g) := by
  refine .of_release rfl rfl hf hg hended hlive ?_
  intro run hrun hrunLive schedule _ hid hp
  simp only [Bool.and_eq_true, decide_eq_true_eq] at hp
  -- The schedule has one live run, and that is the one that is named.
  obtain ⟨named, hnamed, hisRun⟩ := hexists
  have hsame : run = named := h.single run hrun named hnamed hrunLive (hlive named hnamed hisRun)
    (by rw [← hid, hp.1, (isRunOf_iff.1 hisRun).1])
  rw [hsame]
  exact hisRun

/-- A run that is deferred, of a schedule with its lease, has not ended yet. -/
def ScheduleOp.defersLiveRun (op : ScheduleOp) (db : Db) : Bool :=
  match op with
  | .deferThreadScheduleRun params =>
      !(db.schedules.any fun row =>
        row.scheduleId = params.scheduleId && row.hasLease params.leaseId) ||
      db.runs.all fun run =>
        !isRunOf params.scheduleId params.runId params.leaseId run || run.isLive
  | _ => true

def ScheduleOp.isDeletion : ScheduleOp → Bool
  | .deleteThreadScheduleTree _ => true
  | .deleteThreadSchedulesForThread _ => true
  | _ => false

theorem ScheduleOp.run_leased {op : ScheduleOp} {u : Unit} (hdb : db.Leased)
    (hguard : op.defersLiveRun db = true) (h : op.run redactStateString db = (.ok u, db')) :
    db'.Leased ∧ (op.isDeletion = false → db.Settles db') := by
  have hcarry : db = db' ∨ db.Carries db' →
      db'.Leased ∧ (op.isDeletion = false → db.Settles db') := by
    rintro (rfl | hcarries)
    · exact ⟨hdb, fun _ => .refl db⟩
    · exact ⟨hdb.carry hcarries, fun _ => hcarries.settles⟩
  cases op with
  | createThreadSchedule params parentScheduleId authProfile scheduleId nowMs =>
      obtain ⟨row, h⟩ := exists_of_discard_run_ok h
      obtain ⟨-, -, rfl⟩ := insertSchedule_eq_ok (createThreadSchedule_eq_ok h)
      exact hcarry (.inr .insert)
  | updateThreadSchedule scheduleId update nowMs =>
      obtain ⟨updated, h⟩ := exists_of_discard_run_ok h
      rcases updateThreadSchedule_eq_ok h with rfl | ⟨existing, -, hwrite⟩
      · exact hcarry (.inl rfl)
      · exact hcarry (Db.Carries.write hwrite)
  | writeThreadScheduleUpdate existing update nowMs =>
      obtain ⟨updated, h⟩ := exists_of_discard_run_ok h
      exact hcarry (Db.Carries.write h)
  | resumeThreadSchedule scheduleId nextRunAtMs nowMs =>
      obtain ⟨resumed, h⟩ := exists_of_discard_run_ok h
      obtain ⟨f, rfl, hf⟩ := resumeThreadSchedule_eq_ok h
      refine hcarry (.inr (.of_quiet (fun row => congrArg Nesting.scheduleId (hf row).1) ?_))
      intro row leaseId hholds
      exact ⟨(hf row).2.1, (hf row).2.2 ▸ hholds.2⟩
  | deleteThreadScheduleTree scheduleId =>
      obtain ⟨deleted, h⟩ := exists_of_discard_run_ok h
      obtain ⟨rows, -, -, rfl⟩ := deleteThreadScheduleTree_eq_ok h
      exact ⟨hdb.delete _, fun hkind => by cases hkind⟩
  | deleteThreadSchedulesForThread threadId =>
      obtain ⟨count, h⟩ := exists_of_discard_run_ok h
      obtain rfl := deleteThreadSchedulesForThread_eq_ok h
      exact ⟨hdb.delete _, fun hkind => by cases hkind⟩
  | claimThreadSchedule params surroundings runId =>
      obtain ⟨claim, h⟩ := exists_of_discard_run_ok h
      rcases claimThreadSchedule_eq_ok h with
        rfl | ⟨selected, hselected, hactive, ⟨f, rfl, hf⟩ | ⟨f, rfl, hf, hfresh⟩⟩
      · exact hcarry (.inl rfl)
      · exact hcarry (.inr (.released fun row => (hf row).1))
      · have hreleased : db.Carries (db.released redactStateString selected params.nowMs f) :=
          .released fun row => (hf row).1
        exact ⟨hdb.claim hselected hactive hf hfresh, fun _ => hreleased.settles.append⟩
  | markThreadScheduleRunStarted params turnId goalId =>
      obtain ⟨started, h⟩ := exists_of_discard_run_ok h
      rcases markThreadScheduleRunStarted_eq_ok h with rfl | ⟨p, f, g, rfl, hf, hg⟩
      · exact hcarry (.inl rfl)
      · refine hcarry (.inr (.of_update rfl rfl (fun row => congrArg Nesting.scheduleId (hf row).1)
          (fun run => ⟨(hg run).1, (hg run).2.1, (hg run).2.2.1⟩) ?_ ?_))
        · intro run _ hq
          simp only [Bool.and_eq_true, decide_eq_true_eq] at hq
          simp [ThreadScheduleRun.isLive, hq.2]
        · intro run _ _ _ schedule _ _ hholds _
          exact ⟨(hf schedule).2.1.trans hholds.1, (hf schedule).2.2.trans hholds.2⟩
  | extendThreadScheduleLease params =>
      obtain ⟨extended, h⟩ := exists_of_discard_run_ok h
      obtain ⟨p, f, rfl, hf⟩ := extendThreadScheduleLease_eq_ok h
      refine hcarry (.inr (.of_quiet (fun row => congrArg Nesting.scheduleId (hf row).1) ?_))
      intro row leaseId hholds
      exact ⟨(hf row).2.1.trans hholds.1, (hf row).2.2.trans hholds.2⟩
  | finishThreadScheduleRun params surroundings =>
      obtain ⟨finished, h⟩ := exists_of_discard_run_ok h
      rcases finishThreadScheduleRun_eq_ok h with rfl | ⟨pauseSchedule, hfinishable, rfl⟩
      · exact hcarry (.inl rfl)
      · obtain ⟨run, hrun, hok⟩ := List.any_eq_true.1 hfinishable
        simp only [isFinishable, Bool.and_eq_true] at hok
        refine hcarry (.inr (hdb.carries_giveBack (fun _ => rfl) (fun _ => ⟨rfl, rfl, rfl⟩) ?_ ?_
          ⟨run, hrun, hok.1.1⟩))
        · intro other
          unfold finishedRun
          cases params.finish <;> rfl
        · intro other hother hisRun
          have hsame : other = run := hdb.eq_of_id hother hrun
            (by rw [(isRunOf_iff.1 hisRun).2.1, (isRunOf_iff.1 hok.1.1).2.1])
          rw [hsame]
          exact hok.1.2
  | deferThreadScheduleRun params =>
      obtain ⟨deferred, h⟩ := exists_of_discard_run_ok h
      rcases deferThreadScheduleRun_eq_ok h with rfl | ⟨hleased, hexists, g, rfl, hg⟩
      · exact hcarry (.inl rfl)
      · refine hcarry (.inr (hdb.carries_giveBack (fun _ => rfl)
          (fun run => ⟨(hg run).1, (hg run).2.1, (hg run).2.2.1⟩) ?_ ?_
          (by simpa using hexists)))
        · intro run
          simp [ThreadScheduleRun.isLive, (hg run).2.2.2]
        · intro run hrun hisRun
          simp only [ScheduleOp.defersLiveRun, hleased, Bool.not_true, Bool.false_or,
            List.all_eq_true] at hguard
          simpa [hisRun] using hguard run hrun
  | expireThreadSchedules nowMs =>
      obtain ⟨count, h⟩ := exists_of_discard_run_ok h
      obtain ⟨f, rfl, hf⟩ := expireThreadSchedules_eq_ok h
      refine hcarry (.inr (.of_release rfl rfl (fun row => congrArg Nesting.scheduleId (hf row))
        (fun _ => ⟨rfl, rfl, rfl⟩) (fun _ => rfl) ?_ ?_))
      · intro run _ hq
        exact (Bool.and_eq_true _ _ ▸ hq).2
      · intro run _ hlive schedule hschedule hid hp
        rw [hlive, Bool.and_true, List.any_eq_true]
        exact ⟨schedule, hschedule, by simp [hid, hp]⟩

theorem ScheduleOp.step_leased {op : ScheduleOp} (hdb : db.Leased)
    (hguard : op.defersLiveRun db = true) :
    (op.step redactStateString db).Leased ∧
      (op.isDeletion = false → db.Settles (op.step redactStateString db)) := by
  rcases op.step_cases redactStateString db with hrun | hstep
  · exact op.run_leased hdb hguard hrun
  · rw [hstep]
    exact ⟨hdb, fun _ => .refl db⟩

/-- A schedule has at most one live run. -/
theorem Db.Leased.countWhere_le_one (h : db.Leased) (scheduleId : Text) :
    Table.countWhere (fun run => run.scheduleId = scheduleId && run.isLive) db.runs ≤ 1 := by
  rw [Table.countWhere, List.countP_eq_length_filter]
  have hnodup : (db.runs.filter fun run => run.scheduleId = scheduleId && run.isLive).Nodup :=
    (List.Nodup.of_map _ h.runIds).filter _
  have hsame : ∀ a ∈ db.runs.filter fun run => run.scheduleId = scheduleId && run.isLive,
      ∀ b ∈ db.runs.filter fun run => run.scheduleId = scheduleId && run.isLive, a = b := by
    intro a ha b hb
    simp only [List.mem_filter, Bool.and_eq_true, decide_eq_true_eq] at ha hb
    exact h.single a ha.1 b hb.1 ha.2.2 hb.2.2 (ha.2.1.trans hb.2.1.symm)
  rcases hlist : db.runs.filter fun run => run.scheduleId = scheduleId && run.isLive with
    _ | ⟨a, _ | ⟨b, rest⟩⟩
  · rw [hlist]
    exact Nat.zero_le 1
  · rw [hlist]
    exact le_refl 1
  · rw [hlist] at hnodup hsame
    have hab : a = b := hsame a (by simp) b (by simp)
    simp [hab] at hnodup

section

variable (redactStateString)

/-- The databases reached when no run is deferred after it has ended. -/
def LeaseReaches : Db → Db → Prop :=
  Reaches (ScheduleOp.step redactStateString) fun op db => op.defersLiveRun db = true

/-- The databases reached from there while nothing is deleted. -/
def LeaseContinues : Db → Db → Prop :=
  Reaches (ScheduleOp.step redactStateString) fun op db =>
    op.defersLiveRun db = true ∧ op.isDeletion = false

end

/-- If no run is deferred after it has ended: a schedule has at most one live run, a live
run belongs to an active schedule and has its current lease id, and the status of a run
that has ended does not change any more. -/
theorem one_live_run_per_schedule {threads : List ThreadId} {db : Db}
    (h : LeaseReaches redactStateString (Db.empty threads) db) :
    (∀ scheduleId,
      Table.countWhere (fun run => run.scheduleId = scheduleId && run.isLive) db.runs ≤ 1) ∧
    (∀ run ∈ db.runs, run.isLive = true → ∃ schedule ∈ db.schedules,
      schedule.scheduleId = run.scheduleId ∧ schedule.status = .active ∧
        schedule.lease.map (·.id) = some run.leaseId) ∧
    ∀ later, LeaseContinues redactStateString db later →
      ∀ run ∈ db.runs, run.isLive = false →
        (∃ after ∈ later.runs, after.runId = run.runId) ∧
        ∀ after ∈ later.runs, after.runId = run.runId → after.status = run.status := by
  have hdb : db.Leased := by
    refine Reaches.invariant (Db.Leased.empty threads) ?_ h
    intro op db hguard hdb
    exact (op.step_leased hdb hguard).1
  refine ⟨hdb.countWhere_le_one, hdb.held, ?_⟩
  intro later hlater
  have hlast : later.Leased ∧ db.Settles later := by
    refine Reaches.invariant (J := fun later => later.Leased ∧ db.Settles later)
      ⟨hdb, .refl db⟩ ?_ hlater
    intro op mid hguard hmid
    obtain ⟨hleased, hsettles⟩ := op.step_leased hmid.1 hguard.1
    exact ⟨hleased, hmid.2.trans (hsettles hguard.2)⟩
  intro run hrun hended
  obtain ⟨after, hafter, hid, hstatus⟩ := hlast.2 run hrun hended
  refine ⟨⟨after, hafter, hid⟩, ?_⟩
  intro other hother hotherId
  rw [hlast.1.eq_of_id hother hafter (hotherId.trans hid.symm), hstatus]

/-! ## A lease id that is used twice -/

def sampleDefer (runId : Text) (nowMs : Int) : ScheduleOp :=
  .deferThreadScheduleRun
    { scheduleId := "s".toList, runId, leaseId := "l".toList, completedAtMs := nowMs
      nextRunAtMs := nowMs + 100, error := "busy".toList }

/-- Two runs one after the other under the same lease id. -/
def sampleRuns : List ScheduleOp :=
  [sampleSchedule, sampleClaim "1".toList 10, sampleComplete "1".toList 20,
    sampleClaim "2".toList 30]

/-- The second run is deferred, and the first one keeps its status. -/
theorem one_live_run_per_schedule_sample :
    let db := runOps (ScheduleOp.step id) sampleRuns (Db.empty [⟨"t".toList⟩])
    let later := runOps (ScheduleOp.step id) [sampleDefer "2".toList 40] db
    Table.countWhere (fun run => run.scheduleId = "s".toList && run.isLive) db.runs ≤ 1 ∧
      ∀ run ∈ db.runs, run.isLive = false →
        ∀ after ∈ later.runs, after.runId = run.runId → after.status = run.status := by
  intro db later
  have hreaches : LeaseReaches id (Db.empty [⟨"t".toList⟩]) db :=
    Reaches.of_checkedRun (fun _ _ => id) .start (by decide +kernel)
  have hcheck : ∀ (op : ScheduleOp) (db : Db), (op.defersLiveRun db && !op.isDeletion) = true →
      op.defersLiveRun db = true ∧ op.isDeletion = false := by simp
  have hcontinues : LeaseContinues id db later :=
    Reaches.of_checkedRun hcheck .start (by decide +kernel)
  obtain ⟨hone, -, hsettled⟩ := one_live_run_per_schedule hreaches
  exact ⟨hone "s".toList, fun run hrun hended => (hsettled later hcontinues run hrun hended).2⟩

/-- The first run is deferred after it was completed, in the lease of the second: its status
changes, and the second is live without a lease. -/
theorem defer_disturbs_next_run :
    let db := runOps (ScheduleOp.step id) sampleRuns (Db.empty [⟨"t".toList⟩])
    let later := runOps (ScheduleOp.step id) [sampleDefer "1".toList 40] db
    (∃ run ∈ db.runs, run.status = .completed ∧
      ∃ after ∈ later.runs, after.runId = run.runId ∧ after.status = .deferred) ∧
    ∃ run ∈ later.runs, run.isLive = true ∧ ∀ schedule ∈ later.schedules,
      schedule.scheduleId = run.scheduleId → schedule.lease.map (·.id) ≠ some run.leaseId := by
  decide +kernel

end Codewith.ScheduleStore
