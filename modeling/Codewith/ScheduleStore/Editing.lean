import Codewith.ScheduleStore.Effects

/-!
# Editing a schedule next to other transactions

An update reads the row, fills the columns it does not mention from what it has read,
and writes them back in a later transaction.  Whatever was committed in between is
written over, so the columns it does not mention stay as they are exactly if the row is
still the one that was read.
-/

namespace Codewith.ScheduleStore

open Lib
open GoalStore (ThreadId)

variable {redactStateString : Text → Text} {db db' : Db} {nowMs : Int}

/-- What an update does not mention stays as it was.  A status that is mentioned speaks for
the columns it governs: an expired schedule has no next run, a resumed one no failures, and
one that is not active no lease. -/
structure ThreadScheduleUpdate.KeepsUnmentioned (update : ThreadScheduleUpdate)
    (before after : ThreadSchedule) : Prop where
  prompt : update.prompt = none → after.prompt = before.prompt
  promptSource : update.promptSource = none → after.promptSource = before.promptSource
  schedule : update.schedule = none → after.schedule = before.schedule
  timezone : update.timezone = none → after.timezone = before.timezone
  status : update.status = none → after.status = before.status
  nextRunAtMs : update.nextRunAtMs = none → update.status ≠ some .expired →
    after.nextRunAtMs = before.nextRunAtMs
  expiresAtMs : update.expiresAtMs = none → after.expiresAtMs = before.expiresAtMs
  failureCount : update.status ≠ some .active → after.failureCount = before.failureCount
  lease : update.status.getD .active = .active → after.lease = before.lease
  others : (after.scheduleId, after.threadId, after.parentScheduleId, after.nestingDepth,
      after.authProfileRecorded, after.authProfile, after.lastRunAtMs, after.createdAtMs) =
    (before.scheduleId, before.threadId, before.parentScheduleId, before.nestingDepth,
      before.authProfileRecorded, before.authProfile, before.lastRunAtMs, before.createdAtMs)

/-- The row still has, in the columns that the update does not mention, what the update
writes back from the row it has read. -/
structure ThreadScheduleUpdate.UpToDate (redactStateString : Text → Text)
    (update : ThreadScheduleUpdate) (existing row : ThreadSchedule) : Prop where
  prompt : update.prompt = none → row.prompt = redactStateString existing.prompt
  promptSource : update.promptSource = none → row.promptSource = existing.promptSource
  schedule : update.schedule = none →
    row.schedule = redactedSpec redactStateString existing.schedule
  timezone : update.timezone = none → row.timezone = redactStateString existing.timezone
  status : update.status = none → row.status = existing.status
  nextRunAtMs : update.nextRunAtMs = none → update.status ≠ some .expired →
    row.nextRunAtMs =
      if update.status = none ∧ existing.status = .expired then none else existing.nextRunAtMs
  expiresAtMs : update.expiresAtMs = none → row.expiresAtMs = existing.expiresAtMs
  lease : update.status = none → existing.status ≠ .active → row.lease = none

section

variable {existing row : ThreadSchedule} {update : ThreadScheduleUpdate}

theorem updatedSchedule_nextRunAtMs (hmention : update.nextRunAtMs = none)
    (hstatus : update.status ≠ some .expired) :
    (updatedSchedule redactStateString existing update nowMs row).nextRunAtMs =
      if update.status = none ∧ existing.status = .expired then none
      else existing.nextRunAtMs := by
  simp only [updatedSchedule, hmention, Option.getD_none]
  cases hnew : update.status with
  | none => simp
  | some status =>
      rw [hnew] at hstatus
      have hother : status ≠ .expired := fun h => hstatus (congrArg some h)
      simp [hother]

theorem updatedSchedule_lease (hmention : update.status.getD .active = .active) :
    (updatedSchedule redactStateString existing update nowMs row).lease =
      if update.status = none ∧ existing.status ≠ .active then none else row.lease := by
  simp only [updatedSchedule]
  cases hnew : update.status with
  | none => by_cases hactive : existing.status = .active <;> simp [hactive]
  | some status =>
      rw [hnew, Option.getD_some] at hmention
      simp [hmention]

/-- A column that is filled from the row that was read. -/
theorem filled_eq_iff {α β : Type} {mention : Option α} (write : α → β) (read : α) {before : β} :
    (mention = none → write (mention.getD read) = before) ↔
      (mention = none → before = write read) := by
  cases mention with
  | none => simp [eq_comm]
  | some value => simp

/-- The row that is written keeps what is not mentioned if and only if it was written over
the row that was read. -/
theorem keepsUnmentioned_updatedSchedule :
    update.KeepsUnmentioned row (updatedSchedule redactStateString existing update nowMs row) ↔
      update.UpToDate redactStateString existing row := by
  have hprompt := @filled_eq_iff _ _ update.prompt redactStateString existing.prompt row.prompt
  have hsource := @filled_eq_iff _ _ update.promptSource id existing.promptSource row.promptSource
  have hschedule := @filled_eq_iff _ _ update.schedule (redactedSpec redactStateString)
    existing.schedule row.schedule
  have htimezone := @filled_eq_iff _ _ update.timezone redactStateString existing.timezone
    row.timezone
  have hstatus := @filled_eq_iff _ _ update.status id existing.status row.status
  have hexpires := @filled_eq_iff _ _ update.expiresAtMs id existing.expiresAtMs row.expiresAtMs
  constructor
  · intro h
    refine ⟨hprompt.1 h.prompt, hsource.1 h.promptSource, hschedule.1 h.schedule,
      htimezone.1 h.timezone, hstatus.1 h.status, ?_, hexpires.1 h.expiresAtMs, ?_⟩
    · intro hnone hother
      rw [← h.nextRunAtMs hnone hother, updatedSchedule_nextRunAtMs hnone hother]
    · intro hnone hinactive
      have hmention : update.status.getD .active = .active := by rw [hnone, Option.getD_none]
      rw [← h.lease hmention, updatedSchedule_lease hmention, if_pos ⟨hnone, hinactive⟩]
  · intro h
    refine ⟨hprompt.2 h.prompt, hsource.2 h.promptSource, hschedule.2 h.schedule,
      htimezone.2 h.timezone, hstatus.2 h.status, ?_, hexpires.2 h.expiresAtMs, ?_, ?_, rfl⟩
    · intro hnone hother
      rw [h.nextRunAtMs hnone hother, updatedSchedule_nextRunAtMs hnone hother]
    · intro hother
      simp only [updatedSchedule, hother, if_false]
    · intro hmention
      rw [updatedSchedule_lease hmention]
      split
      · rename_i hboth
        exact (h.lease hboth.1 hboth.2).symm
      · rfl

end

/-- The row in the table after the transaction of an update. -/
theorem Db.schedule?_withUpdate {existing : ThreadSchedule} {update : ThreadScheduleUpdate} :
    (db.withUpdate redactStateString existing update nowMs).schedule? existing.scheduleId =
      (db.schedule? existing.scheduleId).map
        (updatedSchedule redactStateString existing update nowMs) := by
  have hschedules : (db.withUpdate redactStateString existing update nowMs).schedules =
      Table.updateWhere (fun row => row.scheduleId = existing.scheduleId)
        (updatedSchedule redactStateString existing update nowMs) db.schedules := by
    rw [Db.withUpdate]
    split <;> rfl
  rw [Db.schedule?, hschedules,
    Table.find?_updateWhere (f := updatedSchedule redactStateString existing update nowMs)
      fun _ => rfl,
    ← Db.schedule?]
  rcases hfound : db.schedule? existing.scheduleId with _ | row
  · rfl
  · obtain ⟨-, hid⟩ := Db.schedule?_eq_some hfound
    simp [hid]

def sampleDb : Db := sampleSchedule.step id (Db.empty [⟨"t".toList⟩])

/-- The row of the sample database, as an update reads it. -/
def sampleRow : ThreadSchedule where
  scheduleId := "s".toList
  threadId := ⟨"t".toList⟩
  parentScheduleId := none
  nestingDepth := 1
  promptSource := .inline
  prompt := "p".toList
  schedule := .interval ⟨5, .minutes⟩
  timezone := "UTC".toList
  authProfileRecorded := false
  authProfile := none
  status := .active
  nextRunAtMs := some 0
  expiresAtMs := none
  createdAtMs := 0
  updatedAtMs := 0

def sampleUpdate : ThreadScheduleUpdate := { prompt := some "q".toList }

/-- The row after a claim. -/
def sampleLeased : ThreadSchedule :=
  { sampleRow with lease := some ⟨"l".toList, 70⟩, updatedAtMs := 10 }

end Codewith.ScheduleStore
