import Codewith.GoalStore.Operations

/-!
# Pausing and resuming the plan of a run

What `pause_workflow_goal_plan_projection` followed by
`resume_workflow_goal_plan_projection` does to the statuses of the nodes of the
plan, of the goals and of the plan.  The pause maps two node statuses to one, and
the resume tells them apart by the goals that are paused then.
-/

namespace Codewith.GoalStore

open Lib Workflow

/-- The goal is projected from a node of the plan. -/
def Db.isProjectedFrom (db : Db) (planId : Text) (goal : ThreadGoal) : Bool :=
  db.nodes.any fun node => node.projectedGoalId = some goal.goalId && node.planId = planId

/-- The node has a goal in the given status. -/
def Db.hasGoalIn (db : Db) (status : ThreadGoalStatus) (node : ThreadGoalPlanNodeRow) : Bool :=
  db.threadGoals.any fun goal => node.projectedGoalId = some goal.goalId && goal.status = status

/-! ## The rows after each operation -/

/-- The statements of the pause. -/
def Db.pausedPlan (planId : Text) (nowMs : Int) (db : Db) : Db :=
  ((db.updateThreadGoals (fun goal => goal.status = .active && db.isProjectedFrom planId goal)
      fun goal => { goal with status := .paused, updatedAtMs := nowMs }).updateNodes
    (fun node => node.planId = planId && (node.status = .pending || node.status = .active))
      fun node => { node with status := .paused, updatedAtMs := nowMs }).updatePlans
    (fun plan => plan.planId = planId && plan.status = .active)
      fun plan => { plan with status := .paused, updatedAtMs := nowMs }

/-- The first statement of the resume: nodes whose goal is paused too. -/
def Db.resumedNodes (planId : Text) (nowMs : Int) (db : Db) : Db :=
  db.updateNodes (fun node => node.planId = planId && node.status = .paused &&
      db.hasGoalIn .paused node)
    fun node => { node with status := .active, updatedAtMs := nowMs }

/-- The statements of the resume. -/
def Db.resumedPlan (planId : Text) (nowMs : Int) (db : Db) : Db :=
  (((db.resumedNodes planId nowMs).updateThreadGoals
      (fun goal => goal.status = .paused &&
        (db.resumedNodes planId nowMs).isProjectedFrom planId goal)
      fun goal => { goal with status := .active, updatedAtMs := nowMs }).updateNodes
    (fun node => node.planId = planId && node.status = .paused)
      fun node => { node with status := .pending, updatedAtMs := nowMs }).updatePlans
    (fun plan => plan.planId = planId && plan.status = .paused)
      fun plan => { plan with status := .active, updatedAtMs := nowMs }

theorem onProjectedPlan_run {db db' : Db} {runId planId : Text} {statements : Text → Tx Unit}
    (hrun : (db.projectionByRun runId).map (·.planId) = some planId)
    (hstatements : statements planId db = (.ok (), db'))
    (hplan : (db'.plans.any fun plan => plan.planId = planId) = true) :
    ∃ snapshots, onProjectedPlan runId statements db = (.ok snapshots, db') := by
  have hfind : ∃ plan, (db'.plans.find? fun plan => plan.planId = planId) = some plan := by
    apply Option.isSome_iff_exists.1
    rw [List.find?_isSome]
    simpa using hplan
  obtain ⟨plan, hplan⟩ := hfind
  refine ⟨[⟨plan, db'.snapshotNodes planId⟩], ?_⟩
  simp only [onProjectedPlan, Exec.bind_eq_ok, Exec.gets_eq_ok]
  refine ⟨some planId, db, ⟨hrun, rfl⟩, ?_⟩
  simp only [Exec.bind_eq_ok]
  refine ⟨(), db', hstatements, ⟨plan, db'.snapshotNodes planId⟩, db', ?_, rfl⟩
  simp only [snapshotThreadGoalPlanInTx, getThreadGoalPlanInTx, Exec.bind_eq_ok, Exec.gets_eq_ok]
  refine ⟨plan, db', ⟨some plan, db', ⟨hplan, rfl⟩, rfl⟩, ?_⟩
  exact ⟨_, _, ⟨rfl, rfl⟩, rfl⟩

variable {redactStateString : Text → Text} {db : Db} {runId planId : Text}

theorem step_pauseWorkflowGoalPlanProjection {nowMs : Int}
    (hrun : (db.projectionByRun runId).map (·.planId) = some planId)
    (hplan : (db.plans.any fun plan => plan.planId = planId) = true) :
    GoalOp.step redactStateString (.pauseWorkflowGoalPlanProjection runId nowMs) db =
      db.pausedPlan planId nowMs := by
  have hplan' : ((db.pausedPlan planId nowMs).plans.any fun plan => plan.planId = planId) =
      true := by
    rw [Db.pausedPlan, Db.updatePlans_plans, Table.any_updateWhere]
    · exact hplan
    · intro plan
      rfl
  have hreturn : ∃ snapshots, pauseWorkflowGoalPlanProjection runId nowMs db =
      (.ok snapshots, db.pausedPlan planId nowMs) := onProjectedPlan_run hrun rfl hplan'
  obtain ⟨snapshots, hreturn⟩ := hreturn
  exact GoalOp.step_of_run (discard_run_ok hreturn)

theorem step_resumeWorkflowGoalPlanProjection {nowMs : Int}
    (hrun : (db.projectionByRun runId).map (·.planId) = some planId)
    (hplan : (db.plans.any fun plan => plan.planId = planId) = true) :
    GoalOp.step redactStateString (.resumeWorkflowGoalPlanProjection runId nowMs) db =
      db.resumedPlan planId nowMs := by
  have hplan' : ((db.resumedPlan planId nowMs).plans.any fun plan => plan.planId = planId) =
      true := by
    rw [Db.resumedPlan, Db.updatePlans_plans, Table.any_updateWhere]
    · exact hplan
    · intro plan
      rfl
  have hreturn : ∃ snapshots, resumeWorkflowGoalPlanProjection runId nowMs db =
      (.ok snapshots, db.resumedPlan planId nowMs) := onProjectedPlan_run hrun rfl hplan'
  obtain ⟨snapshots, hreturn⟩ := hreturn
  exact GoalOp.step_of_run (discard_run_ok hreturn)

/-! ## Statuses after both operations -/

/-- Pausing finds the goals of the nodes of the plan active or paused, and leaves
them paused. -/
theorem hasGoalIn_pausedPlan {nowMs : Int} {node : ThreadGoalPlanNodeRow} (hnode : node ∈ db.nodes)
    (hplan : node.planId = planId) :
    (db.pausedPlan planId nowMs).hasGoalIn .paused node =
      (db.hasGoalIn .active node || db.hasGoalIn .paused node) := by
  rw [Bool.eq_iff_iff]
  simp only [Db.hasGoalIn, Db.pausedPlan, Db.updatePlans_threadGoals, Db.updateNodes_threadGoals,
    Db.updateThreadGoals_threadGoals, Bool.or_eq_true, List.any_eq_true, Bool.and_eq_true,
    decide_eq_true_eq]
  constructor
  · rintro ⟨goal, hgoal, hid, hstatus⟩
    rcases Table.mem_updateWhere.1 hgoal with ⟨old, hold, hactive, rfl⟩ | ⟨hgoal, -⟩
    · rw [Bool.and_eq_true, decide_eq_true_eq] at hactive
      exact .inl ⟨old, hold, hid, hactive.1⟩
    · exact .inr ⟨goal, hgoal, hid, hstatus⟩
  · rintro (⟨goal, hgoal, hid, hstatus⟩ | ⟨goal, hgoal, hid, hstatus⟩)
    · have hprojected : db.isProjectedFrom planId goal = true := by
        rw [Db.isProjectedFrom, List.any_eq_true]
        exact ⟨node, hnode, by simp [hid, hplan]⟩
      refine ⟨_, Table.mem_updateWhere.2 (.inl ⟨goal, hgoal, ?_, rfl⟩), hid, rfl⟩
      simp [hstatus, hprojected]
    · exact ⟨goal, Table.mem_updateWhere.2 (.inr ⟨hgoal, by simp [hstatus]⟩), hid, hstatus⟩

theorem isProjectedFrom_of_nodes {db' : Db} {p : ThreadGoalPlanNodeRow → Bool}
    {f : ThreadGoalPlanNodeRow → ThreadGoalPlanNodeRow}
    (hnodes : db'.nodes = Table.updateWhere p f db.nodes)
    (hf : ∀ node, (f node).projectedGoalId = node.projectedGoalId ∧ (f node).planId = node.planId)
    (goal : ThreadGoal) : db'.isProjectedFrom planId goal = db.isProjectedFrom planId goal := by
  unfold Db.isProjectedFrom
  rw [hnodes]
  apply Table.any_updateWhere
  intro node
  rw [(hf node).1, (hf node).2]

/-- The node statuses survive exactly when no node of the plan is paused, and among
the others exactly the active ones have a goal that is active or paused. -/
theorem nodeStatuses_restored_iff {nowMs nowMs' : Int} :
    ((db.pausedPlan planId nowMs).resumedPlan planId nowMs').nodes.map
        (fun node => (node.nodeId, node.status)) =
      db.nodes.map (fun node => (node.nodeId, node.status)) ↔
    ∀ node ∈ db.nodes, node.planId = planId →
      node.status ≠ .paused ∧
        (node.status = .pending → db.hasGoalIn .active node = false ∧
          db.hasGoalIn .paused node = false) ∧
        (node.status = .active → db.hasGoalIn .active node = true ∨
          db.hasGoalIn .paused node = true) := by
  have hnodes : ((db.pausedPlan planId nowMs).resumedPlan planId nowMs').nodes =
      Table.updateWhere (fun node => node.planId = planId && node.status = .paused)
        (fun node => { node with status := .pending, updatedAtMs := nowMs' })
        (Table.updateWhere
          (fun node => node.planId = planId && node.status = .paused &&
            (db.pausedPlan planId nowMs).hasGoalIn .paused node)
          (fun node => { node with status := .active, updatedAtMs := nowMs' })
          (Table.updateWhere
            (fun node => node.planId = planId &&
              (node.status = .pending || node.status = .active))
            (fun node => { node with status := .paused, updatedAtMs := nowMs }) db.nodes)) := rfl
  rw [hnodes]
  simp only [Table.updateWhere, List.map_map]
  rw [List.map_inj_left]
  apply forall₂_congr
  intro node hnode
  by_cases hplan : node.planId = planId
  · subst hplan
    have hgoal : (db.pausedPlan node.planId nowMs).hasGoalIn .paused node =
        (db.hasGoalIn .active node || db.hasGoalIn .paused node) := hasGoalIn_pausedPlan hnode rfl
    -- Only the projected goal of a node decides which goals it has.
    have hgoal' : ∀ status : ThreadGoalPlanNodeStatus, ∀ updatedAtMs : Int,
        (db.pausedPlan node.planId nowMs).hasGoalIn .paused { node with status, updatedAtMs } =
          (db.hasGoalIn .active node || db.hasGoalIn .paused node) :=
      fun _ _ => hgoal
    cases hstatus : node.status <;> cases hactive : db.hasGoalIn .active node <;>
      cases hpaused : db.hasGoalIn .paused node <;>
        simp [hstatus, hgoal, hgoal', hactive, hpaused]
  · simp [hplan]

theorem goalStatuses_restored_iff {nowMs nowMs' : Int} :
    ((db.pausedPlan planId nowMs).resumedPlan planId nowMs').threadGoals.map
        (fun goal => (goal.threadId, goal.status)) =
      db.threadGoals.map (fun goal => (goal.threadId, goal.status)) ↔
    ∀ goal ∈ db.threadGoals, db.isProjectedFrom planId goal = true → goal.status ≠ .paused := by
  have hgoals : ((db.pausedPlan planId nowMs).resumedPlan planId nowMs').threadGoals =
      Table.updateWhere
        (fun goal => goal.status = .paused && db.isProjectedFrom planId goal)
        (fun goal => { goal with status := .active, updatedAtMs := nowMs' })
        (Table.updateWhere (fun goal => goal.status = .active && db.isProjectedFrom planId goal)
          (fun goal => { goal with status := .paused, updatedAtMs := nowMs }) db.threadGoals) := by
    have hprojected : ∀ goal : ThreadGoal,
        ((db.pausedPlan planId nowMs).resumedNodes planId nowMs').isProjectedFrom planId goal =
          db.isProjectedFrom planId goal := by
      intro goal
      have hresumed : ((db.pausedPlan planId nowMs).resumedNodes planId nowMs').isProjectedFrom
          planId goal = (db.pausedPlan planId nowMs).isProjectedFrom planId goal :=
        isProjectedFrom_of_nodes rfl (by simp) goal
      rw [hresumed]
      exact isProjectedFrom_of_nodes rfl (by simp) goal
    simp only [Db.resumedPlan, Db.updatePlans_threadGoals, Db.updateNodes_threadGoals,
      Db.updateThreadGoals_threadGoals, hprojected]
    rfl
  rw [hgoals]
  simp only [Table.updateWhere, List.map_map]
  rw [List.map_inj_left]
  apply forall₂_congr
  intro goal _
  -- The rows of both updates are projected from the plan, which depends on the id only.
  have hid : ∀ status : ThreadGoalStatus, ∀ updatedAtMs : Int,
      db.isProjectedFrom planId { goal with status, updatedAtMs } =
        db.isProjectedFrom planId goal := fun _ _ => rfl
  cases hprojected : db.isProjectedFrom planId goal <;> cases hstatus : goal.status <;>
    simp [hprojected, hstatus, hid]

theorem planStatuses_restored_iff {nowMs nowMs' : Int} :
    ((db.pausedPlan planId nowMs).resumedPlan planId nowMs').plans.map
        (fun plan => (plan.planId, plan.status)) =
      db.plans.map (fun plan => (plan.planId, plan.status)) ↔
    ∀ plan ∈ db.plans, plan.planId = planId → plan.status ≠ .paused := by
  have hplans : ((db.pausedPlan planId nowMs).resumedPlan planId nowMs').plans =
      Table.updateWhere (fun plan => plan.planId = planId && plan.status = .paused)
        (fun plan => { plan with status := .active, updatedAtMs := nowMs' })
        (Table.updateWhere (fun plan => plan.planId = planId && plan.status = .active)
          (fun plan => { plan with status := .paused, updatedAtMs := nowMs }) db.plans) := rfl
  rw [hplans]
  simp only [Table.updateWhere, List.map_map]
  rw [List.map_inj_left]
  apply forall₂_congr
  intro plan _
  by_cases hplan : plan.planId = planId
  · cases hstatus : plan.status <;> simp [hplan, hstatus]
  · simp [hplan]

/-! ## The round trip -/

/-- The statuses of all nodes, goals and plans agree, row by row. -/
def SameStatuses (db db' : Db) : Prop :=
  db'.nodes.map (fun node => (node.nodeId, node.status)) =
      db.nodes.map (fun node => (node.nodeId, node.status)) ∧
    db'.threadGoals.map (fun goal => (goal.threadId, goal.status)) =
      db.threadGoals.map (fun goal => (goal.threadId, goal.status)) ∧
    db'.plans.map (fun plan => (plan.planId, plan.status)) =
      db.plans.map (fun plan => (plan.planId, plan.status))

/-- What the pause of the plan can tell apart again: nothing of the plan is paused
already, and exactly the active nodes, and no pending ones, have an active goal. -/
structure Db.Resumable (db : Db) (planId : Text) : Prop where
  plan : ∀ plan ∈ db.plans, plan.planId = planId → plan.status ≠ .paused
  goals : ∀ goal ∈ db.threadGoals, db.isProjectedFrom planId goal = true → goal.status ≠ .paused
  nodes : ∀ node ∈ db.nodes, node.planId = planId → node.status ≠ .paused
  pendingNodes : ∀ node ∈ db.nodes, node.planId = planId → node.status = .pending →
    db.hasGoalIn .active node = false
  activeNodes : ∀ node ∈ db.nodes, node.planId = planId → node.status = .active →
    db.hasGoalIn .active node = true

/-- A paused goal of a node of the plan is projected from the plan. -/
theorem hasGoalIn_paused_of_goals
    (h : ∀ goal ∈ db.threadGoals, db.isProjectedFrom planId goal = true → goal.status ≠ .paused)
    {node : ThreadGoalPlanNodeRow} (hnode : node ∈ db.nodes) (hplan : node.planId = planId) :
    db.hasGoalIn .paused node = false := by
  rw [Db.hasGoalIn, List.any_eq_false]
  intro goal hgoal hboth
  rw [Bool.and_eq_true, decide_eq_true_eq, decide_eq_true_eq] at hboth
  apply h goal hgoal _ hboth.2
  rw [Db.isProjectedFrom, List.any_eq_true]
  exact ⟨node, hnode, by simp [hboth.1, hplan]⟩

theorem pause_resume_restores_iff {projection : WorkflowGoalPlanProjectionRow} {nowMs nowMs' : Int}
    (hprojection : db.projectionByRun runId = some projection)
    (hplan : ∃ plan ∈ db.plans, plan.planId = projection.planId) :
    SameStatuses db
        (GoalOp.step redactStateString (.resumeWorkflowGoalPlanProjection runId nowMs')
          (GoalOp.step redactStateString (.pauseWorkflowGoalPlanProjection runId nowMs) db)) ↔
      db.Resumable projection.planId := by
  have hrun : (db.projectionByRun runId).map (·.planId) = some projection.planId := by
    rw [hprojection]
    rfl
  have hany : (db.plans.any fun plan => plan.planId = projection.planId) = true := by
    simpa using hplan
  have hany' : ((db.pausedPlan projection.planId nowMs).plans.any fun plan =>
      plan.planId = projection.planId) = true := by
    rw [Db.pausedPlan, Db.updatePlans_plans, Table.any_updateWhere]
    · exact hany
    · intro plan
      rfl
  rw [step_pauseWorkflowGoalPlanProjection hrun hany,
    step_resumeWorkflowGoalPlanProjection (by exact hrun) hany']
  rw [SameStatuses, nodeStatuses_restored_iff, goalStatuses_restored_iff,
    planStatuses_restored_iff]
  constructor
  · rintro ⟨hnodes, hgoals, hplans⟩
    refine ⟨hplans, hgoals, ?_, ?_, ?_⟩
    · intro node hnode hid
      exact (hnodes node hnode hid).1
    · intro node hnode hid hpending
      exact ((hnodes node hnode hid).2.1 hpending).1
    · intro node hnode hid hactive
      have hnone := hasGoalIn_paused_of_goals hgoals hnode hid
      rcases (hnodes node hnode hid).2.2 hactive with hgoal | hgoal
      · exact hgoal
      · rw [hnone] at hgoal
        cases hgoal
  · intro h
    refine ⟨?_, h.goals, h.plan⟩
    intro node hnode hid
    have hnone := hasGoalIn_paused_of_goals h.goals hnode hid
    refine ⟨h.nodes node hnode hid, ?_, ?_⟩
    · intro hpending
      exact ⟨h.pendingNodes node hnode hid hpending, hnone⟩
    · intro hactive
      exact .inl (h.activeNodes node hnode hid hactive)

/-! ## A plan that is restored, and one that is not -/

def sampleThread : ThreadId := ⟨"thread".toList⟩

/-- A run with a single step. -/
def sampleRun : WorkflowRunSnapshot where
  run :=
    { runId := "run".toList
      workflowRecordId := "record".toList
      sourceThreadId := some sampleThread
      idempotencyKey := none
      specWorkflowId := "workflow".toList
      status := .pending
      executionDefaults := ⟨"hasna".toList, "provider".toList⟩
      limits := ⟨1, 1, 1, 1000⟩
      createdAtMs := 0
      updatedAtMs := 0 }
  steps :=
    [{ stepRunId := "step-run".toList
       runId := "run".toList
       stepId := "build".toList
       sequence := 0
       title := "Build".toList
       agentId := "agent".toList
       status := .pending
       parallelGroup := none
       approvalGate := none
       approvalState := none
       modelRoute := none
       workspace := none
       createdAtMs := 0
       updatedAtMs := 0
       dependsOn := [] }]
  verifiers := []

def sampleProjection : GoalOp :=
  .projectWorkflowRunToGoalPlan (some sampleRun) "run".toList sampleThread none
    "projection".toList ⟨"plan".toList, fun _ => "node".toList, "goal".toList⟩ 1

/-- The node of the run is active, its goal is current. -/
def sampleActiveDb : Db :=
  runOps (GoalOp.step id)
    [sampleProjection, .activateThreadGoalPlanNode sampleThread "node".toList "goal".toList 2]
    Db.empty

/-- The goal of the run was paused by its user, and the node follows it. -/
def samplePausedDb : Db :=
  runOps (GoalOp.step id)
    [.pauseActiveThreadGoal sampleThread 3,
      .syncGoalPlanNodeForGoal sampleThread
        { freshThreadGoal sampleThread "goal".toList [] none .paused (some 1000) 2 with
          updatedAtMs := 3 } 3]
    sampleActiveDb

instance (db db' : Db) : Decidable (SameStatuses db db') :=
  inferInstanceAs (Decidable (_ ∧ _ ∧ _))

theorem pause_resume_restores_active_goal :
    SameStatuses sampleActiveDb
      (GoalOp.step id (.resumeWorkflowGoalPlanProjection "run".toList 5)
        (GoalOp.step id (.pauseWorkflowGoalPlanProjection "run".toList 4) sampleActiveDb)) := by
  have hprojection : sampleActiveDb.projectionByRun "run".toList =
      some ⟨"projection".toList, "run".toList, sampleThread, "plan".toList, none, 1, 1⟩ := by
    decide +kernel
  apply (pause_resume_restores_iff hprojection (by decide +kernel)).2
  constructor <;> decide +kernel

/-- After a pause and a resume of the run the goal is active, although its user had
paused it. -/
theorem pause_resume_activates_paused_goal :
    (samplePausedDb.projectionByRun "run".toList).isSome = true ∧
      ¬SameStatuses samplePausedDb
        (GoalOp.step id (.resumeWorkflowGoalPlanProjection "run".toList 5)
          (GoalOp.step id (.pauseWorkflowGoalPlanProjection "run".toList 4) samplePausedDb)) := by
  constructor <;> decide +kernel

end Codewith.GoalStore
