import Codewith.GoalStore.PlanEdits
import Codewith.Workflow.Schema

/-!
# Goal plans of workflow runs

The operations of `workflow_goal_plan_projections.rs`: a run is projected to a
goal plan with one node for each step, and blocking, pausing or resuming the run
blocks, pauses or resumes that plan.
-/

namespace Codewith.GoalStore

open Lib Workflow

structure WorkflowGoalPlanProjectionOutcome where
  projection : WorkflowGoalPlanProjectionRow
  created : Bool
  snapshot : ThreadGoalPlanSnapshot
  deriving DecidableEq, Repr

/-! ## The plan of a run -/

def workflowStepPriority (sequence : Int) : Int := -sequence

def workflowMaxTokens (limits : WorkflowLimits) : Option Int := some limits.maxTokens

def workflowStepTokenBudget (limits : WorkflowLimits) (stepCount : Nat) : Option Int :=
  (workflowMaxTokens limits).map fun maxTokens => max (maxTokens / max (stepCount : Int) 1) 1

def joinTexts (separator : Text) (parts : List Text) : Text := separator.intercalate parts

def workflowStepObjective (run : WorkflowRunSnapshot) (step : WorkflowRunStep) : Text :=
  let verifierCount :=
    (run.verifiers.filter fun verifier => verifier.stepId = step.stepId).length
  let dependencyText :=
    if step.dependsOn = [] then "no workflow step dependencies".toList
    else "depends on workflow steps: ".toList ++ joinTexts ", ".toList step.dependsOn
  let approvalText := (step.approvalGate.map fun gate =>
    " approval gate: ".toList ++ gate ++ ['.']).getD []
  let parallelText := (step.parallelGroup.map fun group =>
    " parallel group: ".toList ++ group ++ ['.']).getD []
  let verifierText :=
    match verifierCount with
    | 0 => "no deterministic verifiers".toList
    | 1 => "1 deterministic verifier".toList
    | count => (toString count).toList ++ " deterministic verifiers".toList
  "Workflow ".toList ++ quoted run.run.specWorkflowId ++ " step ".toList ++ quoted step.stepId ++
    ": ".toList ++ step.title ++ ". Agent ".toList ++ quoted step.agentId ++ "; ".toList ++
    dependencyText ++ "; ".toList ++ verifierText ++ [';'] ++ parallelText ++ approvalText ++
    (" Produce the declared workflow outputs and stop with evidence for the verifier " ++
      "phase.").toList

def threadGoalPlanFromWorkflowRun (run : WorkflowRunSnapshot) (threadId : ThreadId) :
    ThreadGoalPlanCreateParams where
  threadId := threadId
  autoExecute := .off
  maxTokens := workflowMaxTokens run.run.limits
  nodes := run.steps.map fun step =>
    { key := step.stepId
      objective := workflowStepObjective run step
      assignedThreadId := none
      title := none
      priority := workflowStepPriority step.sequence
      tokenBudget := workflowStepTokenBudget run.run.limits run.steps.length
      dependsOn := step.dependsOn }

/-! ## Projecting a run -/

def Db.projectionByRun (db : Db) (runId : Text) : Option WorkflowGoalPlanProjectionRow :=
  db.projections.find? fun projection => projection.runId = runId

/-- `INSERT INTO workflow_goal_plan_projections`: the projection, the run and the
plan each occur once, and the plan must exist. -/
def insertProjection (projection : WorkflowGoalPlanProjectionRow) : Tx Unit := do
  let clashes ← Exec.gets fun db => db.projections.any fun other =>
    other.projectionId = projection.projectionId || other.runId = projection.runId ||
      other.planId = projection.planId
  let planExists ← Exec.gets fun db => db.plans.any fun plan => plan.planId = projection.planId
  if clashes = false ∧ planExists then
    Exec.modify fun db => { db with projections := db.projections ++ [projection] }
  else Exec.fail .constraintViolated

/-- `INSERT INTO workflow_goal_plan_node_projections`: a step occurs once in a
projection and a node once altogether; the projection and the node must exist. -/
def insertNodeProjection (projection : WorkflowGoalPlanNodeProjectionRow) : Tx Unit := do
  let clashes ← Exec.gets fun db => db.nodeProjections.any fun other =>
    (other.projectionId = projection.projectionId && other.stepId = projection.stepId) ||
      other.nodeId = projection.nodeId
  let parentsExist ← Exec.gets fun db =>
    (db.projections.any fun parent => parent.projectionId = projection.projectionId) &&
      db.nodes.any fun node => node.nodeId = projection.nodeId
  if clashes = false ∧ parentsExist then
    Exec.modify fun db => { db with nodeProjections := db.nodeProjections ++ [projection] }
  else Exec.fail .constraintViolated

section

variable (redactStateString : Text → Text)

def insertWorkflowGoalPlanProjectionInTx (projectionId : Text) (run : WorkflowRunSnapshot)
    (threadId : ThreadId) (planId : Text) (idempotencyKey : Option Text) (nowMs : Int) :
    Tx Unit := do
  insertProjection
    { projectionId
      runId := run.run.runId
      threadId
      planId
      idempotencyKey := idempotencyKey.map redactStateString
      createdAtMs := nowMs
      updatedAtMs := nowMs }
  let snapshot ← snapshotThreadGoalPlanInTx planId
  Exec.forEach
    (fun step =>
      match snapshot.nodes.find? fun node => node.key = step.stepId with
      | none => bail ("workflow projection missing goal-plan node for step ".toList ++ step.stepId)
      | some node => insertNodeProjection
          { projectionId
            runId := run.run.runId
            stepId := step.stepId
            stepRunId := step.stepRunId
            nodeId := node.nodeId
            tokenBudget := node.tokenBudget
            createdAtMs := nowMs
            updatedAtMs := nowMs })
    run.steps

/-- A run is projected once; a second projection returns the first. -/
def createWorkflowGoalPlanProjection (run : WorkflowRunSnapshot) (threadId : ThreadId)
    (idempotencyKey : Option Text) (projectionId : Text) (ids : NewIds) (nowMs : Int) :
    Tx WorkflowGoalPlanProjectionOutcome := do
  match (← Exec.gets fun db => db.projectionByRun run.run.runId) with
  | some projection =>
      let snapshot ← snapshotThreadGoalPlanInTx projection.planId
      pure { projection, created := false, snapshot }
  | none =>
      let plan ← insertThreadGoalPlanInTx redactStateString
        (threadGoalPlanFromWorkflowRun run threadId) ids nowMs
      let planId := plan.snapshot.plan.planId
      insertWorkflowGoalPlanProjectionInTx redactStateString projectionId run threadId planId
        idempotencyKey nowMs
      let snapshot ← snapshotThreadGoalPlanInTx planId
      match (← Exec.gets fun db => db.projectionByRun run.run.runId) with
      | some projection => pure { projection, created := true, snapshot }
      | none => bail "workflow goal-plan projection was not inserted".toList

def validateWorkflowProjectionParams (runId : Text) (idempotencyKey : Option Text) :
    Except Text Unit := do
  if Text.trim runId = [] then
    throw "workflow_run_id must not be empty".toList
  if idempotencyKey.any fun key => Text.trim key = [] then
    throw "idempotency_key must not be empty when set".toList

def runStatusText : WorkflowRunStatus → Text
  | .pending => "pending".toList
  | .running => "running".toList
  | .waiting => "waiting".toList
  | .blocked => "blocked".toList
  | .paused => "paused".toList
  | .cancelRequested => "cancel_requested".toList
  | .cancelled => "cancelled".toList
  | .failed => "failed".toList
  | .completed => "completed".toList

/-- `project_workflow_run_to_goal_plan`, given the snapshot of the run. -/
def projectWorkflowRunToGoalPlan (run : Option WorkflowRunSnapshot) (runId : Text)
    (threadId : ThreadId) (idempotencyKey : Option Text) (projectionId : Text) (ids : NewIds)
    (nowMs : Int) : Tx (Option WorkflowGoalPlanProjectionOutcome) := do
  ofResult (validateWorkflowProjectionParams runId idempotencyKey)
  match run with
  | none => pure none
  | some run =>
      ensure (run.run.status.isTerminal = false)
        ("workflow run ".toList ++ run.run.runId ++
          " cannot be projected after reaching terminal status ".toList ++
          runStatusText run.run.status)
      ensure (run.run.sourceThreadId = some threadId)
        ("workflow run ".toList ++ run.run.runId ++ " does not belong to thread ".toList ++
          threadId.uuid)
      let outcome ← createWorkflowGoalPlanProjection redactStateString run threadId idempotencyKey
        projectionId ids nowMs
      pure (some outcome)

end

/-! ## Blocking, pausing and resuming -/

/-- Run statements on the plan of a run, if the run is projected. -/
def onProjectedPlan (runId : Text) (statements : Text → Tx Unit) :
    Tx (List ThreadGoalPlanSnapshot) := do
  match (← Exec.gets fun db => (db.projectionByRun runId).map (·.planId)) with
  | none => pure []
  | some planId =>
      statements planId
      let snapshot ← snapshotThreadGoalPlanInTx planId
      pure [snapshot]

def setNodeStatuses (matching : ThreadGoalPlanNodeRow → Bool) (status : ThreadGoalPlanNodeStatus)
    (nowMs : Int) : Tx Unit :=
  Exec.modify (Db.updateNodes matching fun node => { node with status, updatedAtMs := nowMs })

def setPlanStatusFrom (planId : Text) (old new : ThreadGoalPlanStatus) (nowMs : Int) : Tx Unit :=
  Exec.modify (Db.updatePlans (fun plan => plan.planId = planId && plan.status = old) fun plan =>
    { plan with status := new, updatedAtMs := nowMs })

/-- Move the goals projected from the plan from one status to another. -/
def setProjectedGoalStatusFrom (planId : Text) (old new : ThreadGoalStatus) (nowMs : Int) :
    Tx Unit :=
  Exec.modify fun db => db.updateThreadGoals
    (fun goal => goal.status = old && db.nodes.any fun node =>
      node.projectedGoalId = some goal.goalId && node.planId = planId)
    fun goal => { goal with status := new, updatedAtMs := nowMs }

def blockWorkflowGoalPlanProjection (runId : Text) (nowMs : Int) :
    Tx (List ThreadGoalPlanSnapshot) :=
  onProjectedPlan runId fun planId => do
    setNodeStatuses
      (fun node => node.planId = planId && (node.status = .pending || node.status = .active ||
        node.status = .paused || node.status = .usageLimited))
      .blocked nowMs
    setPlanStatusFrom planId .active .blocked nowMs

def pauseWorkflowGoalPlanProjection (runId : Text) (nowMs : Int) :
    Tx (List ThreadGoalPlanSnapshot) :=
  onProjectedPlan runId fun planId => do
    setProjectedGoalStatusFrom planId .active .paused nowMs
    setNodeStatuses
      (fun node => node.planId = planId && (node.status = .pending || node.status = .active))
      .paused nowMs
    setPlanStatusFrom planId .active .paused nowMs

/-- Goals are resumed whatever their budget and usage are. -/
def resumeWorkflowGoalPlanProjection (runId : Text) (nowMs : Int) :
    Tx (List ThreadGoalPlanSnapshot) :=
  onProjectedPlan runId fun planId => do
    Exec.modify fun db => db.updateNodes
      (fun node => node.planId = planId && node.status = .paused && db.threadGoals.any fun goal =>
        node.projectedGoalId = some goal.goalId && goal.status = .paused)
      fun node => { node with status := .active, updatedAtMs := nowMs }
    setProjectedGoalStatusFrom planId .paused .active nowMs
    setNodeStatuses (fun node => node.planId = planId && node.status = .paused) .pending nowMs
    setPlanStatusFrom planId .paused .active nowMs

end Codewith.GoalStore
