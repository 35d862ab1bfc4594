import Codewith.GoalStore.Changes

/-!
# The changes of the goal operations

The operations of `goals.rs` as sequences of changes.
-/

namespace Codewith.GoalStore

open Lib

variable {kinds : List Kind} {redactStateString : Text → Text} {db db' : Db} {threadId : ThreadId}
  {nowMs : Int}

theorem freshThreadGoal_isOverBudget (goalId objective : Text) (title : Option Text)
    (status : ThreadGoalStatus) (tokenBudget : Option Int) :
    (freshThreadGoal threadId goalId objective title status tokenBudget nowMs).isOverBudget =
      false := by
  unfold ThreadGoal.isOverBudget freshThreadGoal statusAfterBudgetLimit
  by_cases h : status = .active ∧ budgetReached 0 tokenBudget = true
  · simp [h]
  · simp only [h, if_false]
    simpa using h

/-! ## New goals -/

/-- After changes of the given kinds, a goal that has spent nothing may become the
goal of its thread. -/
def PutsGoal (kinds : List Kind) (goalId : Text) (db db' : Db) : Prop :=
  ∃ mid, Changes kinds db mid ∧ (mid = db' ∨ ∃ goal, goal.goalId = goalId ∧ goal.tokensUsed = 0 ∧
    goal.isOverBudget = false ∧ mid.Released goal.threadId ∧ mid.upsertThreadGoal goal = db')

theorem PutsGoal.progress {goalId : Text} (h : PutsGoal kinds goalId db db') :
    Progress kinds (some goalId) db db' := by
  obtain ⟨mid, hchanges, rfl | ⟨goal, hid, htokens, hbudget, hreleased, rfl⟩⟩ := h
  · exact .of_changes hchanges
  · exact (Progress.of_put (.goal hid htokens hbudget hreleased)).prepend hchanges

theorem putsGoal_replaceThreadGoal (hstatus : .nodeStatus ∈ kinds) (hplan : .plan ∈ kinds)
    (haudit : .audit ∈ kinds) {objective : Text} {title : Option Text} {status : ThreadGoalStatus}
    {tokenBudget : Option Int} {goalId : Text} {goal : ThreadGoal}
    (h : replaceThreadGoalWithTitle redactStateString threadId objective title status tokenBudget
      goalId nowMs db = (.ok goal, db')) : PutsGoal kinds goalId db db' := by
  simp only [replaceThreadGoalWithTitle, Exec.bind_eq_ok, ofResult_eq_ok, Exec.modify_eq_ok,
    Exec.pure_eq_ok] at h
  obtain ⟨title', _, ⟨-, rfl⟩, _, blocked, hblock, _, _, rfl, _, _, rfl, -, rfl⟩ := h
  obtain ⟨hchanges, hreleased⟩ := changes_blockNodesOfCurrentGoal hstatus hplan hblock
  refine ⟨_, hchanges.trans (.single haudit (.audit blocked _ _)), .inr ⟨_, rfl, rfl, ?_, ?_, rfl⟩⟩
  · exact freshThreadGoal_isOverBudget ..
  · exact hreleased

theorem putsGoal_insertThreadGoal {objective : Text} {title : Option Text}
    {status : ThreadGoalStatus} {tokenBudget : Option Int} {goalId : Text}
    {goal : Option ThreadGoal}
    (h : insertThreadGoalWithTitle redactStateString threadId objective title status tokenBudget
      goalId nowMs db = (.ok goal, db')) : PutsGoal kinds goalId db db' := by
  simp only [insertThreadGoalWithTitle, Exec.bind_eq_ok, ofResult_eq_ok, Exec.gets_eq_ok] at h
  obtain ⟨title', _, ⟨-, rfl⟩, current, _, ⟨hcurrent, rfl⟩, h⟩ := h
  refine ⟨db, .refl _ _, ?_⟩
  cases current with
  | some _ => exact .inl (Exec.pure_eq_ok.1 h).2
  | none =>
      simp only [Exec.bind_eq_ok, Exec.modify_eq_ok, Exec.pure_eq_ok] at h
      obtain ⟨_, _, rfl, -, rfl⟩ := h
      refine .inr ⟨freshThreadGoal threadId goalId (redactStateString objective) title' status
        tokenBudget nowMs, rfl, rfl, freshThreadGoal_isOverBudget .., ?_, ?_⟩
      · intro goal hgoal
        rw [freshThreadGoal, hcurrent] at hgoal
        cases hgoal
      · rw [Db.upsertThreadGoal, freshThreadGoal, hcurrent]
        rfl

/-! ## Updates of goals -/

theorem changes_updateThreadGoalWhere (hgoal : .goal ∈ kinds) {p : ThreadGoal → Bool}
    {f : ThreadGoal → ThreadGoal} (hkeeps : KeepsGoal f)
    (hbudget : ∀ goal, p goal = true → goal.isOverBudget = false → (f goal).isOverBudget = false)
    {goal : Option ThreadGoal}
    (h : updateThreadGoalWhere threadId p f db = (.ok goal, db')) : Changes kinds db db' := by
  simp only [updateThreadGoalWhere, Exec.bind_eq_ok, Exec.gets_eq_ok, Exec.modify_eq_ok,
    Exec.ite_run] at h
  obtain ⟨_, _, ⟨rfl, rfl⟩, _, _, rfl, h⟩ := h
  have hchange : Changes kinds db (db.updateThreadGoals
      (fun goal => goal.threadId = threadId && p goal) f) := by
    refine .single hgoal (.goal hkeeps ?_)
    intro goal hmatch hwithin
    rw [Bool.and_eq_true] at hmatch
    exact hbudget goal hmatch.2 hwithin
  split at h
  · rw [Exec.gets_eq_ok] at h
    rw [← h.2]
    exact hchange
  · rw [Exec.pure_eq_ok] at h
    rw [← h.2]
    exact hchange

/-- An active goal stays within the budget that the update asks for. -/
theorem statusAfterBudgetLimit_within (status : ThreadGoalStatus) (tokensUsed : Int)
    (tokenBudget : Option Int) :
    ¬(statusAfterBudgetLimit status tokensUsed tokenBudget = .active ∧
      budgetReached tokensUsed tokenBudget = true) := by
  unfold statusAfterBudgetLimit
  split
  · simp
  · next h =>
      intro hboth
      exact h hboth

theorem requestedStatus_within (goal : ThreadGoal) (status : ThreadGoalStatus)
    (tokenBudget : Option Int) :
    ¬(requestedStatus goal status tokenBudget = .active ∧
      budgetReached goal.tokensUsed tokenBudget = true) := by
  unfold requestedStatus
  split
  · next h =>
      rintro ⟨hactive, -⟩
      rcases h.1 with hcomplete | hcancelled
      · rw [hcomplete] at hactive
        cases hactive
      · rw [hcancelled] at hactive
        cases hactive
  · split
    · next h =>
        rintro ⟨hactive, -⟩
        rw [h.1] at hactive
        cases hactive
    · exact statusAfterBudgetLimit_within status goal.tokensUsed tokenBudget

theorem GoalUpdate.apply_isOverBudget (update : GoalUpdate) (objective title : Option Text)
    {goal : ThreadGoal} (h : goal.isOverBudget = false) :
    (update.apply objective title nowMs goal).isOverBudget = false := by
  cases hstatus : update.status with
  | some status =>
      cases hbudget : update.tokenBudget with
      | some tokenBudget =>
          have hwithin := requestedStatus_within goal status tokenBudget
          simpa [GoalUpdate.apply, hstatus, hbudget, ThreadGoal.isOverBudget] using hwithin
      | none =>
          have hwithin := requestedStatus_within goal status goal.tokenBudget
          simpa [GoalUpdate.apply, hstatus, hbudget, ThreadGoal.isOverBudget] using hwithin
  | none =>
      cases hbudget : update.tokenBudget with
      | some tokenBudget =>
          have hwithin := statusAfterBudgetLimit_within goal.status goal.tokensUsed tokenBudget
          simpa [GoalUpdate.apply, hstatus, hbudget, ThreadGoal.isOverBudget] using hwithin
      | none => simpa [GoalUpdate.apply, hstatus, hbudget, ThreadGoal.isOverBudget] using h

theorem GoalUpdate.keepsGoal_apply (update : GoalUpdate) (objective title : Option Text) :
    KeepsGoal (update.apply objective title nowMs) := by
  intro goal
  cases hstatus : update.status <;> cases hbudget : update.tokenBudget <;>
    simp [GoalUpdate.apply, hstatus, hbudget]

theorem changes_updateThreadGoal (hgoal : .goal ∈ kinds) {update : GoalUpdate}
    {goal : Option ThreadGoal}
    (h : updateThreadGoal redactStateString threadId update nowMs db = (.ok goal, db')) :
    Changes kinds db db' := by
  simp only [updateThreadGoal, Exec.bind_eq_ok, ofResult_eq_ok, Exec.ite_run] at h
  obtain ⟨title, _, ⟨-, rfl⟩, h⟩ := h
  split at h
  · refine changes_updateThreadGoalWhere hgoal (update.keepsGoal_apply _ _) ?_ h
    intro goal _
    exact update.apply_isOverBudget _ _
  · rw [Exec.gets_eq_ok] at h
    rw [← h.2]
    exact .refl _ _

theorem changes_updateActiveThreadGoalStatus (hgoal : .goal ∈ kinds) {status : ThreadGoalStatus}
    (hstatus : status ≠ .active) {goal : Option ThreadGoal}
    (h : updateActiveThreadGoalStatus threadId status nowMs db = (.ok goal, db')) :
    Changes kinds db db' := by
  refine changes_updateThreadGoalWhere hgoal ?_ ?_ h
  · intro goal
    exact ⟨rfl, rfl, le_refl _⟩
  · intro goal _ _
    simp [ThreadGoal.isOverBudget, hstatus]

/-- Every mode limits the active goals. -/
theorem GoalAccountingMode.limits_active (mode : GoalAccountingMode) :
    mode.limits .active = true := by
  cases mode <;> rfl

theorem chargedGoal_isOverBudget (timeDelta tokenDelta : Int)
    (lineChanges : Option ThreadGoalLineChangeStats) (mode : GoalAccountingMode)
    (goal : ThreadGoal) :
    (chargedGoal timeDelta tokenDelta lineChanges mode nowMs goal).isOverBudget = false := by
  unfold ThreadGoal.isOverBudget chargedGoal
  by_cases hlimit : mode.limits goal.status = true ∧
      budgetReached (goal.tokensUsed + tokenDelta) goal.tokenBudget = true
  · simp [hlimit]
  · simp only [hlimit, if_false, Bool.and_eq_false_imp, decide_eq_true_eq]
    intro hactive
    rw [hactive, mode.limits_active] at hlimit
    simpa using hlimit

theorem changes_accountThreadGoalUsage (hgoal : .goal ∈ kinds) {timeDelta tokenDelta : Int}
    {lineChanges : Option ThreadGoalLineChangeStats} {mode : GoalAccountingMode}
    {expectedGoalId : Option Text} {outcome : GoalAccountingOutcome}
    (h : accountThreadGoalUsage threadId timeDelta tokenDelta lineChanges mode expectedGoalId nowMs
      db = (.ok outcome, db')) : Changes kinds db db' := by
  simp only [accountThreadGoalUsage, Exec.ite_run] at h
  split at h
  · simp only [Exec.bind_eq_ok, Exec.gets_eq_ok, Exec.pure_eq_ok] at h
    obtain ⟨_, _, ⟨-, rfl⟩, -, rfl⟩ := h
    exact .refl _ _
  · simp only [Exec.bind_eq_ok] at h
    obtain ⟨updated, mid, hupdate, h⟩ := h
    have hchanges : Changes kinds db mid := by
      refine changes_updateThreadGoalWhere hgoal ?_ ?_ hupdate
      · intro goal
        refine ⟨rfl, rfl, ?_⟩
        simp [chargedGoal]
      · intro goal _ _
        exact chargedGoal_isOverBudget ..
    have hstate : db' = mid := by
      cases updated with
      | some goal => exact (Exec.pure_eq_ok.1 h).2.symm
      | none =>
          simp only [Exec.bind_eq_ok, Exec.gets_eq_ok, Exec.pure_eq_ok] at h
          obtain ⟨_, _, ⟨-, rfl⟩, -, rfl⟩ := h
          rfl
    rw [hstate]
    exact hchanges

theorem changes_deleteThreadGoal (hstatus : .nodeStatus ∈ kinds) (hplan : .plan ∈ kinds)
    (hdelete : .goalDelete ∈ kinds) {outcome : GoalDeleteOutcome}
    (h : deleteThreadGoalWithPlanUpdates threadId nowMs db = (.ok outcome, db')) :
    Changes kinds db db' := by
  simp only [deleteThreadGoalWithPlanUpdates, Exec.bind_eq_ok, Exec.gets_eq_ok, Exec.modify_eq_ok,
    Exec.pure_eq_ok] at h
  obtain ⟨_, blocked, hblock, _, _, ⟨rfl, rfl⟩, _, _, rfl, -, rfl⟩ := h
  obtain ⟨hchanges, hreleased⟩ := changes_blockNodesOfCurrentGoal hstatus hplan hblock
  exact hchanges.trans (.single hdelete (.goalDelete hreleased))

/-! ## Blocker audits -/

theorem changes_insertBlockerAuditTurn (haudit : .audit ∈ kinds)
    {turn : ThreadGoalBlockerAuditTurn} {u : Unit}
    (h : insertBlockerAuditTurn turn db = (.ok u, db')) : Changes kinds db db' := by
  simp only [insertBlockerAuditTurn, Exec.bind_eq_ok, Exec.gets_eq_ok, Exec.ite_run] at h
  obtain ⟨_, _, ⟨rfl, rfl⟩, h⟩ := h
  split at h
  · exact (Exec.fail_eq_ok.1 h).elim
  · obtain rfl := Exec.modify_eq_ok.1 h
    exact .single haudit (.audit db _ _)

theorem changes_upsertBlockerAudit (haudit : .audit ∈ kinds) (audit : ThreadGoalBlockerAudit) :
    Changes kinds db (db.upsertBlockerAudit audit) := by
  unfold Db.upsertBlockerAudit
  split
  · exact .single haudit (.audit db _ _)
  · exact .single haudit (.audit db _ _)

theorem changes_storeBlockerAudit (haudit : .audit ∈ kinds) {audit : ThreadGoalBlockerAudit}
    {status : ThreadGoalStatus} {turn : ThreadGoalBlockerAuditTurn} {observed : Bool} {u : Unit}
    (h : storeBlockerAudit audit status turn observed db = (.ok u, db')) :
    Changes kinds db db' := by
  simp only [storeBlockerAudit, Exec.ite_run] at h
  split at h
  · simp only [Exec.bind_eq_ok, Exec.modify_eq_ok, Exec.onlyIf_eq_ok] at h
    obtain ⟨_, _, rfl, ⟨-, hinsert⟩ | ⟨-, rfl⟩⟩ := h
    · exact (changes_upsertBlockerAudit haudit audit).trans
        (changes_insertBlockerAuditTurn haudit hinsert)
    · exact changes_upsertBlockerAudit haudit audit
  · obtain rfl := Exec.modify_eq_ok.1 h
    exact .single haudit (.audit db _ _)

theorem changes_recordBlockerObservation (hgoal : .goal ∈ kinds) (haudit : .audit ∈ kinds)
    {goal : ThreadGoal} {turnId fingerprint : Text} {requiredConsecutiveTurns : Int}
    {outcome : GoalBlockerAuditOutcome}
    (h : recordBlockerObservation goal turnId fingerprint requiredConsecutiveTurns nowMs db =
      (.ok outcome, db')) : Changes kinds db db' := by
  simp only [recordBlockerObservation, Exec.bind_eq_ok, Exec.gets_eq_ok, Exec.onlyIf_eq_ok,
    Exec.modify_eq_ok, Exec.pure_eq_ok] at h
  obtain ⟨stored, _, ⟨-, rfl⟩, _, mid₁, hstale, turns, _, ⟨-, rfl⟩, _, mid₂, hreset, _, _, rfl,
    _, _, hstore, -, rfl⟩ := h
  have hdropped : Changes kinds db mid₁ := by
    rcases hstale with ⟨-, rfl⟩ | ⟨-, rfl⟩
    · exact .single haudit (.audit db _ _)
    · exact .refl _ _
  have hforgotten : Changes kinds mid₁ mid₂ := by
    rcases hreset with ⟨-, rfl⟩ | ⟨-, rfl⟩
    · exact .single haudit (.audit mid₁ _ _)
    · exact .refl _ _
  apply (hdropped.trans hforgotten).trans
  refine Changes.trans (.single hgoal (.goal ?_ ?_)) (changes_storeBlockerAudit haudit hstore)
  · intro row
    exact ⟨rfl, rfl, le_refl _⟩
  · -- The row was active before, and keeps its budget and what it has used.
    intro row hmatch hwithin
    simp only [Bool.and_eq_true, decide_eq_true_eq] at hmatch
    rw [ThreadGoal.isOverBudget, hmatch.2] at hwithin
    simp only [ThreadGoal.isOverBudget]
    split
    · rfl
    · exact hwithin

theorem changes_observeActiveThreadGoalBlocker (hgoal : .goal ∈ kinds) (haudit : .audit ∈ kinds)
    {expectedGoalId turnId fingerprint : Text} {requiredConsecutiveTurns : Nat}
    {outcome : GoalBlockerAuditOutcome}
    (h : observeActiveThreadGoalBlocker threadId expectedGoalId turnId fingerprint
      requiredConsecutiveTurns nowMs db = (.ok outcome, db')) : Changes kinds db db' := by
  simp only [observeActiveThreadGoalBlocker, Exec.bind_eq_ok, ofResult_eq_ok, ensure_eq_ok,
    Exec.gets_eq_ok] at h
  obtain ⟨_, _, ⟨-, rfl⟩, _, _, ⟨-, rfl⟩, _, _, ⟨-, rfl⟩, current, _, ⟨-, rfl⟩, h⟩ := h
  cases current with
  | none =>
      obtain ⟨-, rfl⟩ := Exec.pure_eq_ok.1 h
      exact .refl _ _
  | some goal =>
      simp only [Exec.ite_run] at h
      split at h
      · exact changes_recordBlockerObservation hgoal haudit h
      · obtain ⟨-, rfl⟩ := Exec.pure_eq_ok.1 h
        exact .refl _ _

theorem changes_clearThreadGoalBlockerAudit (haudit : .audit ∈ kinds) {cleared : Bool}
    (h : clearThreadGoalBlockerAudit threadId db = (.ok cleared, db')) : Changes kinds db db' := by
  simp only [clearThreadGoalBlockerAudit, Exec.bind_eq_ok, Exec.gets_eq_ok, Exec.modify_eq_ok,
    Exec.pure_eq_ok] at h
  obtain ⟨_, _, ⟨-, rfl⟩, _, _, rfl, -, rfl⟩ := h
  exact .single haudit (.audit db _ _)

theorem changes_clearThreadGoalBlockerAuditForGoal (haudit : .audit ∈ kinds) {goalId : Text}
    {cleared : Bool}
    (h : clearThreadGoalBlockerAuditForGoal threadId goalId db = (.ok cleared, db')) :
    Changes kinds db db' := by
  simp only [clearThreadGoalBlockerAuditForGoal, Exec.bind_eq_ok, Exec.gets_eq_ok,
    Exec.modify_eq_ok, Exec.pure_eq_ok] at h
  obtain ⟨_, _, ⟨-, rfl⟩, _, _, rfl, -, rfl⟩ := h
  exact .single haudit (.audit db _ _)

end Codewith.GoalStore
