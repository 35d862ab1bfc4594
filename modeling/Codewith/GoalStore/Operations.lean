import Codewith.GoalStore.Projections

/-!
# Operations of the goal store

One constructor for each operation that can change the database, with the inputs
the operation draws from its environment: the clock and the fresh identifiers.
`GoalOp.step` runs an operation as a transaction.
-/

namespace Codewith.GoalStore

open Lib Workflow

inductive GoalOp
  | replaceThreadGoal (threadId : ThreadId) (objective : Text) (title : Option Text)
      (status : ThreadGoalStatus) (tokenBudget : Option Int) (goalId : Text) (nowMs : Int)
  | insertThreadGoal (threadId : ThreadId) (objective : Text) (title : Option Text)
      (status : ThreadGoalStatus) (tokenBudget : Option Int) (goalId : Text) (nowMs : Int)
  | updateThreadGoal (threadId : ThreadId) (update : GoalUpdate) (nowMs : Int)
  | pauseActiveThreadGoal (threadId : ThreadId) (nowMs : Int)
  | usageLimitActiveThreadGoal (threadId : ThreadId) (nowMs : Int)
  | observeActiveThreadGoalBlocker (threadId : ThreadId) (expectedGoalId turnId fingerprint : Text)
      (requiredConsecutiveTurns : Nat) (nowMs : Int)
  | clearThreadGoalBlockerAudit (threadId : ThreadId)
  | clearThreadGoalBlockerAuditForGoal (threadId : ThreadId) (goalId : Text)
  | deleteThreadGoal (threadId : ThreadId) (nowMs : Int)
  | accountThreadGoalUsage (threadId : ThreadId) (timeDeltaSeconds tokenDelta : Int)
      (lineChanges : Option ThreadGoalLineChangeStats) (mode : GoalAccountingMode)
      (expectedGoalId : Option Text) (nowMs : Int)
  | createThreadGoalPlan (params : ThreadGoalPlanCreateParams) (ids : NewIds) (nowMs : Int)
  | appendThreadGoalPlanNodes (params : ThreadGoalPlanAppendParams) (ids : NewIds) (nowMs : Int)
  | updateThreadGoalPlanNodeHierarchy (threadId : ThreadId) (planId : Text)
      (nodes : List ThreadGoalPlanNodeHierarchyParams) (nowMs : Int)
  | addThreadGoalToPlan (params : ThreadGoalPlanAddParams) (ids : NewIds) (nowMs : Int)
  | deleteThreadGoalPlansForThread (threadId : ThreadId)
  | cancelPendingGoalPlanNodesAssignedToThread (threadId : ThreadId) (nowMs : Int)
  | blockActiveGoalPlanNodesForThread (threadId : ThreadId) (nowMs : Int)
  | syncGoalPlanNodeForGoal (threadId : ThreadId) (goal : ThreadGoal) (nowMs : Int)
  | completeGoalPlanNodeAndMaybeAdvance (threadId : ThreadId) (goal : ThreadGoal)
      (effectiveAutoExecute : ThreadGoalPlanAutoExecute) (goalId : Text) (nowMs : Int)
  | deferGoalPlanNodeAndMaybeAdvance (threadId : ThreadId) (goal : ThreadGoal)
      (effectiveAutoExecute : ThreadGoalPlanAutoExecute) (goalId : Text) (nowMs : Int)
  | activateThreadGoalPlanNode (threadId : ThreadId) (nodeId goalId : Text) (nowMs : Int)
  | resumeDeferredGoalPlanNode (threadId : ThreadId) (nodeId : Option Text) (goalId : Text)
      (nowMs : Int)
  | updateThreadGoalPlanNode (params : ThreadGoalPlanNodeUpdateParams) (nowMs : Int)
  | insertThreadGoalPlanNode (params : ThreadGoalPlanNodeInsertParams) (newNodeId : Text)
      (nowMs : Int)
  | setThreadGoalPlanNodeStatus (params : ThreadGoalPlanNodeStatusUpdateParams) (goalId : Text)
      (nowMs : Int)
  | projectWorkflowRunToGoalPlan (run : Option WorkflowRunSnapshot) (runId : Text)
      (threadId : ThreadId) (idempotencyKey : Option Text) (projectionId : Text) (ids : NewIds)
      (nowMs : Int)
  | blockWorkflowGoalPlanProjection (runId : Text) (nowMs : Int)
  | pauseWorkflowGoalPlanProjection (runId : Text) (nowMs : Int)
  | resumeWorkflowGoalPlanProjection (runId : Text) (nowMs : Int)

/-- Run a command for its effect. -/
def discard {A : Type} (m : Tx A) : Tx Unit := do
  let _ ← m
  pure ()

variable (redactStateString : Text → Text)

def GoalOp.run : GoalOp → Tx Unit
  | .replaceThreadGoal threadId objective title status tokenBudget goalId nowMs =>
      discard (GoalStore.replaceThreadGoalWithTitle redactStateString threadId objective title
        status tokenBudget goalId nowMs)
  | .insertThreadGoal threadId objective title status tokenBudget goalId nowMs =>
      discard (GoalStore.insertThreadGoalWithTitle redactStateString threadId objective title
        status tokenBudget goalId nowMs)
  | .updateThreadGoal threadId update nowMs =>
      discard (GoalStore.updateThreadGoal redactStateString threadId update nowMs)
  | .pauseActiveThreadGoal threadId nowMs =>
      discard (GoalStore.pauseActiveThreadGoal threadId nowMs)
  | .usageLimitActiveThreadGoal threadId nowMs =>
      discard (GoalStore.usageLimitActiveThreadGoal threadId nowMs)
  | .observeActiveThreadGoalBlocker threadId expectedGoalId turnId fingerprint
      requiredConsecutiveTurns nowMs =>
      discard (GoalStore.observeActiveThreadGoalBlocker threadId expectedGoalId turnId fingerprint
        requiredConsecutiveTurns nowMs)
  | .clearThreadGoalBlockerAudit threadId =>
      discard (GoalStore.clearThreadGoalBlockerAudit threadId)
  | .clearThreadGoalBlockerAuditForGoal threadId goalId =>
      discard (GoalStore.clearThreadGoalBlockerAuditForGoal threadId goalId)
  | .deleteThreadGoal threadId nowMs =>
      discard (GoalStore.deleteThreadGoalWithPlanUpdates threadId nowMs)
  | .accountThreadGoalUsage threadId timeDeltaSeconds tokenDelta lineChanges mode expectedGoalId
      nowMs =>
      discard (GoalStore.accountThreadGoalUsage threadId timeDeltaSeconds tokenDelta lineChanges
        mode expectedGoalId nowMs)
  | .createThreadGoalPlan params ids nowMs =>
      discard (GoalStore.createThreadGoalPlan redactStateString params ids nowMs)
  | .appendThreadGoalPlanNodes params ids nowMs =>
      discard (GoalStore.appendThreadGoalPlanNodes redactStateString params ids nowMs)
  | .updateThreadGoalPlanNodeHierarchy threadId planId nodes nowMs =>
      discard (GoalStore.updateThreadGoalPlanNodeHierarchy threadId planId nodes nowMs)
  | .addThreadGoalToPlan params ids nowMs =>
      discard (GoalStore.addThreadGoalToPlan redactStateString params ids nowMs)
  | .deleteThreadGoalPlansForThread threadId =>
      discard (GoalStore.deleteThreadGoalPlansForThread threadId)
  | .cancelPendingGoalPlanNodesAssignedToThread threadId nowMs =>
      discard (GoalStore.cancelPendingGoalPlanNodesAssignedToThread threadId nowMs)
  | .blockActiveGoalPlanNodesForThread threadId nowMs =>
      discard (GoalStore.blockActiveGoalPlanNodesForThread threadId nowMs)
  | .syncGoalPlanNodeForGoal threadId goal nowMs =>
      discard (GoalStore.syncGoalPlanNodeForGoal threadId goal nowMs)
  | .completeGoalPlanNodeAndMaybeAdvance threadId goal effectiveAutoExecute goalId nowMs =>
      discard (GoalStore.completeGoalPlanNodeAndMaybeAdvance redactStateString threadId goal
        effectiveAutoExecute goalId nowMs)
  | .deferGoalPlanNodeAndMaybeAdvance threadId goal effectiveAutoExecute goalId nowMs =>
      discard (GoalStore.deferGoalPlanNodeAndMaybeAdvance redactStateString threadId goal
        effectiveAutoExecute goalId nowMs)
  | .activateThreadGoalPlanNode threadId nodeId goalId nowMs =>
      discard (GoalStore.activateThreadGoalPlanNode redactStateString threadId nodeId goalId nowMs)
  | .resumeDeferredGoalPlanNode threadId nodeId goalId nowMs =>
      discard (GoalStore.resumeDeferredGoalPlanNode redactStateString threadId nodeId goalId nowMs)
  | .updateThreadGoalPlanNode params nowMs =>
      discard (GoalStore.updateThreadGoalPlanNode params nowMs)
  | .insertThreadGoalPlanNode params newNodeId nowMs =>
      discard (GoalStore.insertThreadGoalPlanNode params newNodeId nowMs)
  | .setThreadGoalPlanNodeStatus params goalId nowMs =>
      discard (GoalStore.setThreadGoalPlanNodeStatus redactStateString params goalId nowMs)
  | .projectWorkflowRunToGoalPlan run runId threadId idempotencyKey projectionId ids nowMs =>
      discard (GoalStore.projectWorkflowRunToGoalPlan redactStateString run runId threadId
        idempotencyKey projectionId ids nowMs)
  | .blockWorkflowGoalPlanProjection runId nowMs =>
      discard (GoalStore.blockWorkflowGoalPlanProjection runId nowMs)
  | .pauseWorkflowGoalPlanProjection runId nowMs =>
      discard (GoalStore.pauseWorkflowGoalPlanProjection runId nowMs)
  | .resumeWorkflowGoalPlanProjection runId nowMs =>
      discard (GoalStore.resumeWorkflowGoalPlanProjection runId nowMs)

/-- The database after an operation; one that fails leaves it as it was. -/
def GoalOp.step (op : GoalOp) (db : Db) : Db :=
  (Exec.transaction (op.run redactStateString) db).2

theorem discard_run_ok {A : Type} {m : Tx A} {a : A} {db db' : Db} (h : m db = (.ok a, db')) :
    discard m db = (.ok (), db') := by
  rw [discard, Exec.bind_run_ok h]
  rfl

theorem exists_of_discard_run_ok {A : Type} {m : Tx A} {u : Unit} {db db' : Db}
    (h : discard m db = (.ok u, db')) : ∃ a, m db = (.ok a, db') := by
  obtain ⟨a, _, hm, hrest⟩ := Exec.exists_of_bind_run_ok h
  cases hrest
  exact ⟨a, hm⟩

theorem GoalOp.step_of_run {redactStateString : Text → Text} {op : GoalOp} {db db' : Db}
    (h : op.run redactStateString db = (.ok (), db')) : op.step redactStateString db = db' := by
  rw [GoalOp.step, Exec.transaction_run_ok h]

/-- An operation that does not return leaves the database as it was. -/
theorem GoalOp.step_cases (redactStateString : Text → Text) (op : GoalOp) (db : Db) :
    op.run redactStateString db = (.ok (), op.step redactStateString db) ∨
      op.step redactStateString db = db := by
  rcases hrun : op.run redactStateString db with ⟨_ | u, db'⟩
  · right
    rw [GoalOp.step, Exec.transaction_run_error hrun]
  · left
    rw [GoalOp.step_of_run hrun]

end Codewith.GoalStore
