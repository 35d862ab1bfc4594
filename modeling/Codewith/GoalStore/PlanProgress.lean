import Codewith.GoalStore.Plans

/-!
# Progress of goal plans

The operations of `goal_plans.rs` that move the nodes of existing plans: copying
the state of a goal into its node, completing or deferring a node and going on
to the next, activating and resuming by name, and the operations on all nodes of
a thread.

Completing and deferring are split where a next node is activated, so that the
state in which it is chosen has a name.
-/

namespace Codewith.GoalStore

open Lib

/-! ## Recording the state of a goal in its node -/

def ThreadGoalPlanNodeRow.withUsage (status : ThreadGoalPlanNodeStatus) (goal : ThreadGoal)
    (nowMs : Int) (node : ThreadGoalPlanNodeRow) : ThreadGoalPlanNodeRow :=
  { node with
    status
    tokensUsed := goal.tokensUsed
    timeUsedSeconds := goal.timeUsedSeconds
    linesAdded := goal.linesAdded
    linesDeleted := goal.linesDeleted
    updatedAtMs := nowMs }

/-- Statuses of a node whose goal was started and is not settled. -/
def ThreadGoalPlanNodeStatus.isStarted (status : ThreadGoalPlanNodeStatus) : Bool :=
  status = .active || status = .paused || status = .blocked || status = .usageLimited ||
    status = .budgetLimited || status = .deferred

def Db.planIsOpen (db : Db) (planId : Text) : Bool :=
  db.plans.any fun plan => plan.planId = planId && plan.status.isOpen

/-- Update the usage of the nodes that match, and return the plan of the first. -/
def recordUsageWhere (matching : Db → ThreadGoalPlanNodeRow → Bool)
    (status : ThreadGoalPlanNodeStatus) (goal : ThreadGoal) (nowMs : Int) : Tx (Option Text) := do
  let found ← Exec.gets fun db => db.nodes.find? (matching db)
  Exec.modify fun db =>
    Db.updateNodes (matching db) (fun node => node.withUsage status goal nowMs) db
  pure (found.map (·.planId))

def Db.syncMatches (threadId : ThreadId) (goal : ThreadGoal) (db : Db)
    (node : ThreadGoalPlanNodeRow) : Bool :=
  node.assignedThreadId = threadId && node.projectedGoalId = some goal.goalId &&
    (node.status = .pending || node.status.isStarted) && db.planIsOpen node.planId &&
    db.threadGoals.any fun current =>
      current.threadId = node.assignedThreadId && node.projectedGoalId = some current.goalId

def syncGoalPlanNodeForGoal (threadId : ThreadId) (goal : ThreadGoal) (nowMs : Int) :
    Tx (Option ThreadGoalPlanSnapshot) := do
  let updated ← recordUsageWhere (Db.syncMatches threadId goal) goal.status.toNodeStatus goal nowMs
  match updated with
  | none => pure none
  | some planId =>
      let _ ← markPendingNodesBudgetLimitedIfPlanSpentInTx planId nowMs
      let _ ← recalculateGoalPlanStatusInTx planId nowMs
      let snapshot ← snapshotThreadGoalPlanInTx planId
      pure (some snapshot)

/-! ## Completing a node -/

def Db.completeMatches (threadId : ThreadId) (goal : ThreadGoal) (db : Db)
    (node : ThreadGoalPlanNodeRow) : Bool :=
  node.assignedThreadId = threadId && node.projectedGoalId = some goal.goalId &&
    node.status.isStarted && db.planIsOpen node.planId &&
    db.threadGoals.any fun current =>
      current.threadId = node.assignedThreadId && node.projectedGoalId = some current.goalId &&
        current.status = .complete

/-- How far the first part of an operation that may advance a plan came. -/
inductive PlanStage
  /-- No node matched. -/
  | unmatched
  /-- The plan is settled, and no further node is activated. -/
  | settled (planId : Text)
  /-- The next ready node of the plan may be activated. -/
  | advances (planId : Text)
  deriving DecidableEq, Repr

def setPlanAutoExecute (planId : Text) (autoExecute : ThreadGoalPlanAutoExecute) (nowMs : Int) :
    Tx Unit :=
  Exec.modify (Db.updatePlans (fun plan => plan.planId = planId) fun plan =>
    { plan with autoExecute, updatedAtMs := nowMs })

def completeGoalPlanNode (threadId : ThreadId) (goal : ThreadGoal)
    (effectiveAutoExecute : ThreadGoalPlanAutoExecute) (nowMs : Int) : Tx PlanStage := do
  match (← recordUsageWhere (Db.completeMatches threadId goal) .complete goal nowMs) with
  | none => pure .unmatched
  | some planId =>
      let plan ← getThreadGoalPlanInTx planId
      Exec.onlyIf (plan.autoExecute ≠ effectiveAutoExecute)
        (setPlanAutoExecute planId effectiveAutoExecute nowMs)
      let hitPlanBudget ← markPendingNodesBudgetLimitedIfPlanSpentInTx planId nowMs
      let incompleteCount ← Exec.gets fun db =>
        Table.countWhere (fun node => node.planId = planId && node.status ≠ .complete) db.nodes
      let _ ← recalculateGoalPlanStatusInTx planId nowMs
      -- Recalculating a plan with nothing left to activate once more changes nothing.
      pure (if hitPlanBudget ∨ incompleteCount = 0 then .settled planId else .advances planId)

section

variable (redactStateString : Text → Text)

def completeGoalPlanNodeAndMaybeAdvance (threadId : ThreadId) (goal : ThreadGoal)
    (effectiveAutoExecute : ThreadGoalPlanAutoExecute) (goalId : Text) (nowMs : Int) :
    Tx (Option ThreadGoalPlanAdvanceOutcome) := do
  match (← completeGoalPlanNode threadId goal effectiveAutoExecute nowMs) with
  | .unmatched => pure none
  | .settled planId =>
      let snapshot ← snapshotThreadGoalPlanInTx planId
      pure (some { snapshot, activatedGoal := none })
  | .advances planId =>
      let activatedGoal ← activateNextReadyNodeInTx redactStateString threadId planId
        effectiveAutoExecute goalId nowMs
      let _ ← recalculateGoalPlanStatusInTx planId nowMs
      let snapshot ← snapshotThreadGoalPlanInTx planId
      pure (some { snapshot, activatedGoal })

end

/-! ## Deferring a node -/

/-- Deferring looks for the node by the thread that owns the plan. -/
def Db.deferMatches (threadId : ThreadId) (goal : ThreadGoal) (db : Db)
    (node : ThreadGoalPlanNodeRow) : Bool :=
  node.threadId = threadId && node.projectedGoalId = some goal.goalId &&
    node.status.isStarted && db.planIsOpen node.planId &&
    db.threadGoals.any fun current =>
      current.threadId = node.threadId && node.projectedGoalId = some current.goalId &&
        current.status = .deferred

def setPlanStatus (planId : Text) (status : ThreadGoalPlanStatus) (nowMs : Int) : Tx Unit :=
  Exec.modify (Db.updatePlans (fun plan => plan.planId = planId) fun plan =>
    { plan with status, updatedAtMs := nowMs })

def deferGoalPlanNode (threadId : ThreadId) (goal : ThreadGoal)
    (effectiveAutoExecute : ThreadGoalPlanAutoExecute) (nowMs : Int) : Tx PlanStage := do
  match (← recordUsageWhere (Db.deferMatches threadId goal) .deferred goal nowMs) with
  | none => pure .unmatched
  | some planId =>
      let plan ← getThreadGoalPlanInTx planId
      Exec.onlyIf (plan.autoExecute ≠ effectiveAutoExecute ∨ plan.status ≠ .active) do
        setPlanAutoExecute planId effectiveAutoExecute nowMs
        setPlanStatus planId .active nowMs
      let totalTokens ← totalPlanTokensInTx planId
      if plan.maxTokens.any fun maxTokens => maxTokens ≤ totalTokens then
        Exec.modify (Db.updateNodes
          (fun node => node.planId = planId && node.status = .pending) fun node =>
            { node with status := .budgetLimited, updatedAtMs := nowMs })
        setPlanStatus planId .budgetLimited nowMs
        pure (.settled planId)
      else pure (.advances planId)

section

variable (redactStateString : Text → Text)

def deferGoalPlanNodeAndMaybeAdvance (threadId : ThreadId) (goal : ThreadGoal)
    (effectiveAutoExecute : ThreadGoalPlanAutoExecute) (goalId : Text) (nowMs : Int) :
    Tx (Option ThreadGoalPlanAdvanceOutcome) := do
  match (← deferGoalPlanNode threadId goal effectiveAutoExecute nowMs) with
  | .unmatched => pure none
  | .settled planId =>
      let snapshot ← snapshotThreadGoalPlanInTx planId
      pure (some { snapshot, activatedGoal := none })
  | .advances planId =>
      let activatedGoal ← activateNextReadyNodeInTx redactStateString threadId planId
        effectiveAutoExecute goalId nowMs
      let snapshot ← snapshotThreadGoalPlanInTx planId
      pure (some { snapshot, activatedGoal })

/-! ## Activating and resuming by name -/

/-- Activate the selected node of a plan, if one is selected. -/
def activateSelected (threadId : ThreadId) (select : Db → Option (Text × Text)) (goalId : Text)
    (nowMs : Int) : Tx (Option ThreadGoalPlanAdvanceOutcome) := do
  match (← Exec.gets select) with
  | none => pure none
  | some (planId, nodeId) =>
      let goal ← activateNodeInTx redactStateString threadId nodeId goalId nowMs
      let snapshot ← snapshotThreadGoalPlanInTx planId
      pure (some { snapshot, activatedGoal := some goal })

def activateThreadGoalPlanNode (threadId : ThreadId) (nodeId goalId : Text) (nowMs : Int) :
    Tx (Option ThreadGoalPlanAdvanceOutcome) :=
  activateSelected redactStateString threadId
    (fun db => (db.readyNodePlanId threadId nodeId).map fun planId => (planId, nodeId)) goalId nowMs

/-- Resume a node that was deferred, as the goal of the thread. -/
def resumeDeferredGoalPlanNode (threadId : ThreadId) (nodeId : Option Text) (goalId : Text)
    (nowMs : Int) : Tx (Option ThreadGoalPlanAdvanceOutcome) :=
  activateSelected redactStateString threadId
    (fun db => db.resumableDeferredNode threadId nodeId) goalId nowMs

end

/-! ## All nodes of a thread -/

/-- Set the status of the nodes that match, and return the plans they are in. -/
def setNodeStatusWhere (matching : ThreadGoalPlanNodeRow → Bool)
    (status : ThreadGoalPlanNodeStatus) (nowMs : Int) : Tx (List Text) := do
  let planIds ← Exec.gets fun db => Table.distinctBy (·.planId) (db.nodes.filter matching)
  Exec.modify (Db.updateNodes matching fun node => { node with status, updatedAtMs := nowMs })
  pure planIds

def cancelPendingGoalPlanNodesAssignedToThread (threadId : ThreadId) (nowMs : Int) :
    Tx (List ThreadGoalPlanSnapshot) := do
  let planIds ← setNodeStatusWhere
    (fun node => node.assignedThreadId = threadId && node.threadId ≠ threadId &&
      node.status = .pending)
    .cancelled nowMs
  recalculateGoalPlans nowMs planIds

/-- The snapshots of plans. -/
def snapshotGoalPlans : List Text → Tx (List ThreadGoalPlanSnapshot)
  | [] => pure []
  | planId :: planIds => do
      let snapshot ← snapshotThreadGoalPlanInTx planId
      let snapshots ← snapshotGoalPlans planIds
      pure (snapshot :: snapshots)

def blockActiveGoalPlanNodesForThread (threadId : ThreadId) (nowMs : Int) :
    Tx (List ThreadGoalPlanSnapshot) := do
  let planIds ← setNodeStatusWhere
    (fun node => node.assignedThreadId = threadId && node.status = .active) .blocked nowMs
  Exec.forEach
    (fun planId => do
      let _ ← recalculateGoalPlanStatusInTx planId nowMs
      pure ())
    planIds
  snapshotGoalPlans planIds

/-- Delete plans with everything that refers to them. -/
def Db.deletePlans (p : ThreadGoalPlan → Bool) (db : Db) : Db :=
  let planGone := fun planId : Text => db.plans.any fun plan => p plan && plan.planId = planId
  let nodeGone := fun nodeId : Text =>
    db.nodes.any fun node => planGone node.planId && node.nodeId = nodeId
  let projectionGone := fun projectionId : Text => db.projections.any fun projection =>
    planGone projection.planId && projection.projectionId = projectionId
  { db with
    plans := Table.deleteWhere p db.plans
    nodes := Table.deleteWhere (fun node => planGone node.planId) db.nodes
    dependencies := Table.deleteWhere
      (fun dependency => nodeGone dependency.nodeId || nodeGone dependency.dependsOnNodeId)
      db.dependencies
    projections := Table.deleteWhere (fun projection => planGone projection.planId) db.projections
    nodeProjections := Table.deleteWhere
      (fun projection => projectionGone projection.projectionId || nodeGone projection.nodeId)
      db.nodeProjections }

def deleteThreadGoalPlansForThread (threadId : ThreadId) : Tx Nat := do
  Exec.modify fun db => db.deleteThreadGoals fun goal => db.nodes.any fun node =>
    node.assignedThreadId = goal.threadId && node.projectedGoalId = some goal.goalId &&
      db.plans.any fun plan => plan.planId = node.planId && plan.threadId = threadId
  let count ← Exec.gets fun db => Table.countWhere (fun plan => plan.threadId = threadId) db.plans
  Exec.modify (Db.deletePlans fun plan => plan.threadId = threadId)
  pure count

/-! ## Nesting -/

def unknownParentMessage (key parentKey : Text) : Text :=
  "goal plan node ".toList ++ quoted key ++ " has unknown parent ".toList ++ quoted parentKey

/-- The depth of a node once the requested depths are in place. -/
def requestedDepth (existing : List ThreadGoalPlanNode)
    (nodes : List ThreadGoalPlanNodeHierarchyParams) (key : Text) : Option Int :=
  match nodes.find? fun node => node.key = key with
  | some node => some node.nestingDepth
  | none => (existing.find? fun node => node.key = key).map (·.nestingDepth)

def checkHierarchyParent (existing : List ThreadGoalPlanNode)
    (nodes : List ThreadGoalPlanNodeHierarchyParams) (node : ThreadGoalPlanNodeHierarchyParams) :
    Except Text Unit :=
  match node.parentKey with
  | none => .ok ()
  | some parentKey =>
      match requestedDepth existing nodes parentKey with
      | none => .error (unknownParentMessage node.key parentKey)
      | some parentDepth =>
          if node.nestingDepth = parentDepth + 1 then .ok ()
          else .error ("goal plan node ".toList ++ quoted node.key ++
            " nesting_depth must be one greater than parent ".toList ++ quoted parentKey)

def updateNodeHierarchy (planId : Text) (existing : List ThreadGoalPlanNode) (nowMs : Int)
    (node : ThreadGoalPlanNodeHierarchyParams) : Tx Unit := do
  let nodeIdOf := fun key : Text => (existing.find? fun other => other.key = key).map (·.nodeId)
  match nodeIdOf node.key with
  | none => bail ("goal plan node ".toList ++ quoted node.key ++ " does not exist".toList)
  | some nodeId =>
      ofResult (match node.parentKey with
        | some parentKey =>
            if (nodeIdOf parentKey).isSome then .ok ()
            else .error (unknownParentMessage node.key parentKey)
        | none => .ok ())
      let matching := fun row : ThreadGoalPlanNodeRow =>
        row.planId = planId && row.nodeId = nodeId
      let updated ← Exec.gets fun db => Table.countWhere matching db.nodes
      Exec.modify (Db.updateNodes matching fun row =>
        { row with
          parentNodeId := node.parentKey.bind nodeIdOf
          nestingDepth := node.nestingDepth
          updatedAtMs := nowMs })
      ensure (updated = 1) ("goal plan node ".toList ++ quoted node.key ++
        " hierarchy update did not apply".toList)

def updateThreadGoalPlanNodeHierarchy (threadId : ThreadId) (planId : Text)
    (nodes : List ThreadGoalPlanNodeHierarchyParams) (nowMs : Int) :
    Tx ThreadGoalPlanSnapshot := do
  ofResult (validateGoalPlanNodeHierarchyParams nodes)
  let snapshot ← snapshotThreadGoalPlanInTx planId
  ensure (snapshot.plan.threadId = threadId) (notOwnedMessage planId threadId)
  if nodes = [] then return snapshot
  ofResult (nodes.forM fun node =>
    if snapshot.nodes.any fun other => other.key = node.key then .ok ()
    else .error ("goal plan node ".toList ++ quoted node.key ++ " does not exist".toList))
  ofResult (nodes.forM (checkHierarchyParent snapshot.nodes nodes))
  Exec.forEach (updateNodeHierarchy planId snapshot.nodes nowMs) nodes
  touchPlan planId nowMs
  snapshotThreadGoalPlanInTx planId

end Codewith.GoalStore
