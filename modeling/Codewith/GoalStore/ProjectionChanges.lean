import Codewith.GoalStore.PlanEditChanges

/-!
# The changes of projected plans

The operations of `workflow_goal_plan_projections.rs` as sequences of changes.
-/

namespace Codewith.GoalStore

open Lib

variable {kinds : List Kind} {redactStateString : Text → Text} {db db' : Db} {threadId : ThreadId}
  {planId : Text} {nowMs : Int}

/-! ## Plans of workflow runs -/

theorem changes_insertProjection (hprojection : .projection ∈ kinds)
    {projection : WorkflowGoalPlanProjectionRow} {u : Unit}
    (h : insertProjection projection db = (.ok u, db')) : Changes kinds db db' := by
  simp only [insertProjection, Exec.bind_eq_ok, Exec.gets_eq_ok, Exec.ite_run] at h
  obtain ⟨_, _, ⟨rfl, rfl⟩, _, _, ⟨rfl, rfl⟩, h⟩ := h
  split at h
  · obtain rfl := Exec.modify_eq_ok.1 h
    exact .single hprojection (.projection db _ db.nodeProjections)
  · exact (Exec.fail_eq_ok.1 h).elim

theorem changes_insertNodeProjection (hprojection : .projection ∈ kinds)
    {projection : WorkflowGoalPlanNodeProjectionRow} {u : Unit}
    (h : insertNodeProjection projection db = (.ok u, db')) : Changes kinds db db' := by
  simp only [insertNodeProjection, Exec.bind_eq_ok, Exec.gets_eq_ok, Exec.ite_run] at h
  obtain ⟨_, _, ⟨rfl, rfl⟩, _, _, ⟨rfl, rfl⟩, h⟩ := h
  split at h
  · obtain rfl := Exec.modify_eq_ok.1 h
    exact .single hprojection (.projection db db.projections _)
  · exact (Exec.fail_eq_ok.1 h).elim

theorem changes_insertWorkflowGoalPlanProjection (hprojection : .projection ∈ kinds)
    {projectionId : Text} {run : Workflow.WorkflowRunSnapshot} {idempotencyKey : Option Text}
    {u : Unit}
    (h : insertWorkflowGoalPlanProjectionInTx redactStateString projectionId run threadId planId
      idempotencyKey nowMs db = (.ok u, db')) : Changes kinds db db' := by
  simp only [insertWorkflowGoalPlanProjectionInTx, Exec.bind_eq_ok] at h
  obtain ⟨_, _, hrow, snapshot, _, hsnapshot, hloop⟩ := h
  obtain rfl := snapshot_state hsnapshot
  refine (changes_insertProjection hprojection hrow).trans ?_
  refine Exec.forEach_rel (.refl _) (fun _ _ _ => .trans) ?_ hloop
  intro step _ mid mid' hrun
  rcases hfind : snapshot.nodes.find? (fun node => node.key = step.stepId) with _ | node
  · rw [hfind] at hrun
    exact (bail_eq_ok.1 hrun).elim
  · rw [hfind] at hrun
    exact changes_insertNodeProjection hprojection hrun

theorem createWorkflowGoalPlanProjection_cases (hprojection : .projection ∈ kinds)
    {run : Workflow.WorkflowRunSnapshot} {idempotencyKey : Option Text} {projectionId : Text}
    {ids : NewIds} {outcome : WorkflowGoalPlanProjectionOutcome}
    (h : createWorkflowGoalPlanProjection redactStateString run threadId idempotencyKey projectionId
      ids nowMs db = (.ok outcome, db')) :
    db' = db ∨ ∃ plan mid, insertThreadGoalPlanInTx redactStateString
      (threadGoalPlanFromWorkflowRun run threadId) ids nowMs db = (.ok plan, mid) ∧
        Changes kinds mid db' := by
  simp only [createWorkflowGoalPlanProjection, Exec.bind_eq_ok, Exec.gets_eq_ok] at h
  obtain ⟨existing, _, ⟨-, rfl⟩, h⟩ := h
  cases existing with
  | some projection =>
      simp only [Exec.bind_eq_ok, Exec.pure_eq_ok] at h
      obtain ⟨_, _, hsnapshot, -, rfl⟩ := h
      exact .inl (snapshot_state hsnapshot)
  | none =>
      simp only [Exec.bind_eq_ok, Exec.gets_eq_ok] at h
      obtain ⟨plan, mid, hcreate, _, _, hrows, _, last, hsnapshot, created, _, ⟨-, rfl⟩, h⟩ := h
      obtain rfl := snapshot_state hsnapshot
      have hstate : last = db' := by
        cases created with
        | none => exact (bail_eq_ok.1 h).elim
        | some projection => exact (Exec.pure_eq_ok.1 h).2
      rw [← hstate]
      exact .inr ⟨plan, mid, hcreate, changes_insertWorkflowGoalPlanProjection hprojection hrows⟩

/-- A run that is projected for the first time gets a plan. -/
theorem projectWorkflowRunToGoalPlan_cases (hprojection : .projection ∈ kinds)
    {run : Option Workflow.WorkflowRunSnapshot} {runId : Text} {idempotencyKey : Option Text}
    {projectionId : Text} {ids : NewIds} {outcome : Option WorkflowGoalPlanProjectionOutcome}
    (h : projectWorkflowRunToGoalPlan redactStateString run runId threadId idempotencyKey
      projectionId ids nowMs db = (.ok outcome, db')) :
    db' = db ∨ ∃ run plan mid, insertThreadGoalPlanInTx redactStateString
      (threadGoalPlanFromWorkflowRun run threadId) ids nowMs db = (.ok plan, mid) ∧
        Changes kinds mid db' := by
  simp only [projectWorkflowRunToGoalPlan, Exec.bind_eq_ok, ofResult_eq_ok] at h
  obtain ⟨_, _, ⟨-, rfl⟩, h⟩ := h
  cases run with
  | none => exact .inl (Exec.pure_eq_ok.1 h).2.symm
  | some run =>
      simp only [Exec.bind_eq_ok, ensure_eq_ok, Exec.pure_eq_ok] at h
      obtain ⟨_, _, ⟨-, rfl⟩, _, _, ⟨-, rfl⟩, _, _, hcreate, -, rfl⟩ := h
      rcases createWorkflowGoalPlanProjection_cases hprojection hcreate with
        hsame | ⟨plan, mid, hplan, hrest⟩
      · exact .inl hsame
      · exact .inr ⟨run, plan, mid, hplan, hrest⟩

theorem progress_projectWorkflowRunToGoalPlan (hplan : .planInsert ∈ kinds)
    (hinsert : .nodeInsert ∈ kinds) (hdependency : .dependency ∈ kinds)
    (hprojection : .projection ∈ kinds) {run : Option Workflow.WorkflowRunSnapshot} {runId : Text}
    {idempotencyKey : Option Text} {projectionId : Text} {ids : NewIds}
    {outcome : Option WorkflowGoalPlanProjectionOutcome}
    (h : projectWorkflowRunToGoalPlan redactStateString run runId threadId idempotencyKey
      projectionId ids nowMs db = (.ok outcome, db')) :
    Progress kinds (some ids.goalId) db db' := by
  rcases projectWorkflowRunToGoalPlan_cases hprojection h with
      rfl | ⟨run, plan, mid, hcreate, hrest⟩
  · exact .of_changes (.refl _ _)
  · exact (progress_insertThreadGoalPlanInTx hplan hinsert hdependency hcreate).append hrest

/-- The statements run on the plan of the projected run, or nothing happens. -/
theorem onProjectedPlan_eq_ok {runId : Text} {statements : Text → Tx Unit}
    {snapshots : List ThreadGoalPlanSnapshot}
    (h : onProjectedPlan runId statements db = (.ok snapshots, db')) :
    db' = db ∨ ∃ projection, db.projectionByRun runId = some projection ∧
      statements projection.planId db = (.ok (), db') := by
  simp only [onProjectedPlan, Exec.bind_eq_ok, Exec.gets_eq_ok] at h
  obtain ⟨found, _, ⟨hfound, rfl⟩, h⟩ := h
  cases found with
  | none => exact .inl (Exec.pure_eq_ok.1 h).2.symm
  | some planId =>
      simp only [Exec.bind_eq_ok, Exec.pure_eq_ok] at h
      obtain ⟨_, _, hstatements, _, _, hsnapshot, -, rfl⟩ := h
      obtain rfl := snapshot_state hsnapshot
      obtain ⟨projection, hprojection, rfl⟩ := Option.map_eq_some_iff.1 hfound
      exact .inr ⟨projection, hprojection, hstatements⟩

theorem changes_setPlanStatusFrom (hplan : .plan ∈ kinds) {old new : ThreadGoalPlanStatus}
    (hphase : new.phase = old.phase) {u : Unit}
    (h : setPlanStatusFrom planId old new nowMs db = (.ok u, db')) : Changes kinds db db' := by
  obtain rfl := Exec.modify_eq_ok.1 h
  refine .single hplan (.plan ?_ ?_)
  · intro plan
    exact ⟨rfl, rfl, rfl⟩
  · intro plan _ hmatch
    rw [Bool.and_eq_true, decide_eq_true_eq, decide_eq_true_eq] at hmatch
    rw [hmatch.2]
    exact hphase

theorem changes_setNodeStatuses (hnodes : .nodeStatus ∈ kinds) {p : ThreadGoalPlanNodeRow → Bool}
    {status : ThreadGoalPlanNodeStatus} (hstatus : status ≠ .active)
    (hphase : status.phase = .unsettled)
    (hold : ∀ node, p node = true → node.status.phase = .unsettled) {u : Unit}
    (h : setNodeStatuses p status nowMs db = (.ok u, db')) : Changes kinds db db' := by
  obtain rfl := Exec.modify_eq_ok.1 h
  exact .single hnodes (.nodeStatus hstatus hphase hold)

theorem changes_blockWorkflowGoalPlanProjection (hstatus : .nodeStatus ∈ kinds)
    (hplan : .plan ∈ kinds) {runId : Text} {snapshots : List ThreadGoalPlanSnapshot}
    (h : blockWorkflowGoalPlanProjection runId nowMs db = (.ok snapshots, db')) :
    Changes kinds db db' := by
  rcases onProjectedPlan_eq_ok h with rfl | ⟨projection, -, h⟩
  · exact .refl _ _
  · obtain ⟨_, _, hnodes, hrow⟩ := Exec.bind_eq_ok.1 h
    refine (changes_setNodeStatuses hstatus (by decide) rfl ?_ hnodes).trans
      (changes_setPlanStatusFrom hplan (by decide) hrow)
    intro node hnode
    simp only [Bool.and_eq_true, Bool.or_eq_true, decide_eq_true_eq] at hnode
    rcases hnode.2 with ((hold | hold) | hold) | hold <;> rw [hold] <;> rfl

theorem changes_pauseWorkflowGoalPlanProjection (hgoal : .goal ∈ kinds)
    (hstatus : .nodeStatus ∈ kinds) (hplan : .plan ∈ kinds) {runId : Text}
    {snapshots : List ThreadGoalPlanSnapshot}
    (h : pauseWorkflowGoalPlanProjection runId nowMs db = (.ok snapshots, db')) :
    Changes kinds db db' := by
  rcases onProjectedPlan_eq_ok h with rfl | ⟨projection, -, h⟩
  · exact .refl _ _
  · simp only [Exec.bind_eq_ok, setProjectedGoalStatusFrom, Exec.modify_eq_ok] at h
    obtain ⟨_, _, rfl, _, _, hnodes, hrow⟩ := h
    refine Changes.trans (.single hgoal (.goal ?_ ?_))
      ((changes_setNodeStatuses hstatus (by decide) rfl ?_ hnodes).trans
        (changes_setPlanStatusFrom hplan (by decide) hrow))
    · intro goal
      exact ⟨rfl, rfl, le_refl _⟩
    · intro goal _ _
      rfl
    · intro node hnode
      simp only [Bool.and_eq_true, Bool.or_eq_true, decide_eq_true_eq] at hnode
      rcases hnode.2 with hold | hold <;> rw [hold] <;> rfl

/-- The rows of the resumed nodes and goals, before the remaining paused nodes and
the plan follow. -/
theorem changes_resumeWorkflowGoalPlanProjection (hstatus : .nodeStatus ∈ kinds)
    (hplan : .plan ∈ kinds) {runId : Text} {snapshots : List ThreadGoalPlanSnapshot}
    (h : resumeWorkflowGoalPlanProjection runId nowMs db = (.ok snapshots, db')) :
    db' = db ∨ ∃ projection mid, db.projectionByRun runId = some projection ∧
      Change .nodeResume db mid ∧ mid.threadGoals = db.threadGoals ∧
      mid.nodes = Table.updateWhere
        (fun node => node.planId = projection.planId && node.status = .paused &&
          db.threadGoals.any fun goal =>
            node.projectedGoalId = some goal.goalId && goal.status = .paused)
        (fun node => { node with status := .active, updatedAtMs := nowMs }) db.nodes ∧
      Changes kinds (mid.updateThreadGoals
        (fun goal => goal.status = .paused && mid.nodes.any fun node =>
          node.projectedGoalId = some goal.goalId && node.planId = projection.planId)
        fun goal => { goal with status := .active, updatedAtMs := nowMs }) db' := by
  rcases onProjectedPlan_eq_ok h with rfl | ⟨projection, hprojection, h⟩
  · exact .inl rfl
  · simp only [Exec.bind_eq_ok, setProjectedGoalStatusFrom, Exec.modify_eq_ok] at h
    obtain ⟨_, _, rfl, _, _, rfl, _, _, hnodes, hrow⟩ := h
    refine .inr ⟨projection, _, hprojection, .nodeResume db projection.planId nowMs, rfl, rfl, ?_⟩
    refine (changes_setNodeStatuses hstatus (by decide) rfl ?_ hnodes).trans
      (changes_setPlanStatusFrom hplan (by decide) hrow)
    intro node hnode
    rw [Bool.and_eq_true, decide_eq_true_eq, decide_eq_true_eq] at hnode
    rw [hnode.2]
    rfl

end Codewith.GoalStore
