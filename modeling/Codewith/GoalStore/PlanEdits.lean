import Codewith.GoalStore.PlanProgress

/-!
# Editing goal plans

The operations of `goal_plan_edits.rs`: editing a node and its projected goal,
inserting a node at a position, and marking a node complete or pending by hand.
-/

namespace Codewith.GoalStore

open Lib

inductive ThreadGoalPlanNodeTitleUpdate
  | keep
  | set (title : Option Text)
  deriving DecidableEq, Repr

inductive ThreadGoalPlanNodeTokenBudgetUpdate
  | keep
  | set (tokenBudget : Option Int)
  deriving DecidableEq, Repr

/-- The budget that the update leaves. -/
def ThreadGoalPlanNodeTokenBudgetUpdate.apply (update : ThreadGoalPlanNodeTokenBudgetUpdate)
    (tokenBudget : Option Int) : Option Int :=
  match update with
  | .keep => tokenBudget
  | .set tokenBudget => tokenBudget

structure ThreadGoalPlanNodeUpdateParams where
  threadId : ThreadId
  nodeId : Text
  key : Option Text
  objective : Option Text
  title : ThreadGoalPlanNodeTitleUpdate
  priority : Option Int
  tokenBudget : ThreadGoalPlanNodeTokenBudgetUpdate
  dependsOn : Option (List Text)
  deriving DecidableEq, Repr

inductive ThreadGoalPlanNodeInsertPosition
  | before (nodeId : Text)
  | after (nodeId : Text)
  | atEnd
  deriving DecidableEq, Repr

structure ThreadGoalPlanNodeInsertParams where
  threadId : ThreadId
  planId : Text
  position : ThreadGoalPlanNodeInsertPosition
  key : Text
  objective : Text
  title : Option Text
  priority : Int
  tokenBudget : Option Int
  dependsOn : List Text
  deriving DecidableEq, Repr

inductive ThreadGoalPlanNodeCompletionStatus
  | complete
  | pending
  deriving DecidableEq, Repr

structure ThreadGoalPlanNodeStatusUpdateParams where
  threadId : ThreadId
  nodeId : Text
  status : ThreadGoalPlanNodeCompletionStatus
  autoExecute : ThreadGoalPlanAutoExecute
  deriving DecidableEq, Repr

structure ThreadGoalPlanNodeMutationOutcome where
  snapshot : ThreadGoalPlanSnapshot
  node : ThreadGoalPlanNode
  goal : Option ThreadGoal
  activatedGoal : Option ThreadGoal
  clearedGoal : Bool
  deriving DecidableEq, Repr

structure ThreadGoalPlanNodeInsertOutcome where
  snapshot : ThreadGoalPlanSnapshot
  insertedNode : ThreadGoalPlanNode
  deriving DecidableEq, Repr

/-! ## Lookups -/

def nodeNotFoundMessage (nodeId : Text) : Text :=
  "goal plan node ".toList ++ quoted nodeId ++ " does not exist".toList

def requireNonEmptyId (value label : Text) : Tx Text := do
  ensure (value ≠ []) (label ++ " must not be empty".toList)
  pure value

def planIdForNodeInTx (nodeId : Text) : Tx Text := do
  match (← Exec.gets fun db => db.nodes.find? fun node => node.nodeId = nodeId) with
  | some node => pure node.planId
  | none => bail (nodeNotFoundMessage nodeId)

def ownedPlanSnapshotInTx (threadId : ThreadId) (planId : Text) : Tx ThreadGoalPlanSnapshot := do
  let snapshot ← snapshotThreadGoalPlanInTx planId
  ensure (snapshot.plan.threadId = threadId) (notOwnedMessage planId threadId)
  pure snapshot

def snapshotNode (snapshot : ThreadGoalPlanSnapshot) (nodeId : Text) : Tx ThreadGoalPlanNode :=
  match snapshot.nodes.find? fun node => node.nodeId = nodeId with
  | some node => pure node
  | none => bail (nodeNotFoundMessage nodeId)

def referenceNode (snapshot : ThreadGoalPlanSnapshot) (referenceNodeId : Text) :
    Tx ThreadGoalPlanNode := do
  let nodeId ← requireNonEmptyId referenceNodeId "reference goal plan node id".toList
  snapshotNode snapshot nodeId

def normalizeDependencyKeys (dependsOn : List Text) : List Text := dependsOn.map Text.trim

/-! ## Editing a node -/

/-- A node of a snapshot, with other dependencies, as the parameters that would
create it. -/
def ThreadGoalPlanNode.asCreateParams (node : ThreadGoalPlanNode) (dependsOn : List Text) :
    ThreadGoalPlanNodeCreateParams where
  key := node.key
  objective := node.objective
  assignedThreadId := some node.assignedThreadId
  title := node.title
  priority := node.priority
  tokenBudget := node.tokenBudget
  dependsOn := dependsOn

/-- The plan as it would be created with the edited node, whose dependents
follow its key. -/
def validationNodesWithReplacement (nodes : List ThreadGoalPlanNode)
    (oldKey : Text) (updatedNode : ThreadGoalPlanNode) : List ThreadGoalPlanNodeCreateParams :=
  nodes.map fun node =>
    let source := if node.nodeId = updatedNode.nodeId then updatedNode else node
    source.asCreateParams (source.dependsOn.map fun dependency =>
      if dependency = oldKey then updatedNode.key else dependency)

def replaceNodeDependenciesInTx (node : ThreadGoalPlanNode)
    (existingNodes : List ThreadGoalPlanNode) : Tx Unit := do
  Exec.modify fun db => { db with
    dependencies := Table.deleteWhere (fun dependency => dependency.nodeId = node.nodeId)
      db.dependencies }
  insertNodeDependencies
    (existingNodes.map (fun node => (node.key, node.nodeId)) ++ [(node.key, node.nodeId)])
    node.key node.nodeId node.dependsOn

/-- Run an update of the goal a node is projected to, and return the goal. -/
def updateProjectedGoal (node : ThreadGoalPlanNode) (f : ThreadGoal → ThreadGoal) :
    Tx (Option ThreadGoal) := do
  match node.projectedGoalId with
  | none => pure none
  | some projectedGoalId =>
      let matching := fun goal : ThreadGoal =>
        goal.threadId = node.assignedThreadId && goal.goalId = projectedGoalId
      let found ← Exec.gets fun db => db.threadGoals.find? matching
      Exec.modify (Db.updateThreadGoals matching f)
      pure (found.map f)

/-- The budget is written whatever the status and the usage of the goal are. -/
def updateProjectedGoalMetadataInTx (node : ThreadGoalPlanNode) (nowMs : Int) :
    Tx (Option ThreadGoal) :=
  updateProjectedGoal node fun goal =>
    { goal with
      objective := node.objective
      title := node.title
      tokenBudget := node.tokenBudget
      updatedAtMs := nowMs }

def markProjectedGoalCompleteInTx (node : ThreadGoalPlanNode) (nowMs : Int) :
    Tx (Option ThreadGoal) :=
  updateProjectedGoal node fun goal => { goal with status := .complete, updatedAtMs := nowMs }

def ThreadGoalPlanNodeTitleUpdate.apply :
    ThreadGoalPlanNodeTitleUpdate → Option Text → Except Text (Option Text)
  | .keep, title => .ok title
  | .set title, _ => normalizeThreadGoalTitle title

/-- The node with the requested values in place. -/
def ThreadGoalPlanNodeUpdateParams.edited (params : ThreadGoalPlanNodeUpdateParams)
    (node : ThreadGoalPlanNode) : Except Text ThreadGoalPlanNode := do
  let title ← params.title.apply node.title
  pure { node with
    key := (params.key.map Text.trim).getD node.key
    objective := (params.objective.map Text.trim).getD node.objective
    title
    priority := params.priority.getD node.priority
    tokenBudget := params.tokenBudget.apply node.tokenBudget
    dependsOn := (params.dependsOn.map normalizeDependencyKeys).getD node.dependsOn }

/-- `UPDATE thread_goal_plan_nodes SET key = ?, …`: a key occurs once in a plan. -/
def writeEditedNode (node : ThreadGoalPlanNode) (nowMs : Int) : Tx Unit := do
  let clashes ← Exec.gets fun db => db.nodes.any fun other =>
    other.nodeId ≠ node.nodeId && other.planId = node.planId && other.key = node.key
  if clashes then Exec.fail .constraintViolated
  else
    Exec.modify (Db.updateNodes (fun row => row.nodeId = node.nodeId) fun row =>
      { row with
        key := node.key
        objective := node.objective
        title := node.title
        priority := node.priority
        tokenBudget := node.tokenBudget
        updatedAtMs := nowMs })

def updateThreadGoalPlanNode (params : ThreadGoalPlanNodeUpdateParams) (nowMs : Int) :
    Tx ThreadGoalPlanNodeMutationOutcome := do
  let nodeId ← requireNonEmptyId (Text.trim params.nodeId) "goal plan node id".toList
  let planId ← planIdForNodeInTx nodeId
  let snapshot ← ownedPlanSnapshotInTx params.threadId planId
  ensure (snapshot.plan.status ≠ .cancelled)
    "cannot edit a node in a cancelled goal plan".toList
  let existingNode ← snapshotNode snapshot nodeId
  ensure (existingNode.status ≠ .complete)
    "cannot edit a completed goal-plan node; mark it undone first".toList
  ensure (existingNode.status ≠ .cancelled) "cannot edit a cancelled goal-plan node".toList
  let updatedNode ← ofResult (params.edited existingNode)
  ofResult (validatePlanCreateParams
    { threadId := snapshot.plan.threadId
      autoExecute := snapshot.plan.autoExecute
      maxTokens := snapshot.plan.maxTokens
      nodes := validationNodesWithReplacement snapshot.nodes existingNode.key updatedNode })
  writeEditedNode updatedNode nowMs
  Exec.onlyIf params.dependsOn.isSome
    (replaceNodeDependenciesInTx updatedNode snapshot.nodes)
  let goal ← updateProjectedGoalMetadataInTx updatedNode nowMs
  let _ ← recalculateGoalPlanStatusInTx snapshot.plan.planId nowMs
  let snapshot ← snapshotThreadGoalPlanInTx snapshot.plan.planId
  let node ← snapshotNode snapshot nodeId
  pure { snapshot, node, goal, activatedGoal := none, clearedGoal := false }

/-! ## Inserting a node -/

/-- Where an inserted node goes: its sequence number, its parent and its depth.
It becomes a sibling of the node it is positioned against. -/
def insertionPoint (snapshot : ThreadGoalPlanSnapshot) :
    ThreadGoalPlanNodeInsertPosition → Tx (Int × Option Text × Int)
  | .before referenceNodeId => do
      let reference ← referenceNode snapshot (Text.trim referenceNodeId)
      pure (reference.sequence, reference.parentNodeId, reference.nestingDepth)
  | .after referenceNodeId => do
      let reference ← referenceNode snapshot (Text.trim referenceNodeId)
      pure (reference.sequence + 1, reference.parentNodeId, reference.nestingDepth)
  | .atEnd => pure (nextSequence snapshot.nodes, none, 1)

def insertThreadGoalPlanNode (params : ThreadGoalPlanNodeInsertParams) (newNodeId : Text)
    (nowMs : Int) : Tx ThreadGoalPlanNodeInsertOutcome := do
  let planId ← requireNonEmptyId (Text.trim params.planId) "goal plan id".toList
  let snapshot ← ownedPlanSnapshotInTx params.threadId planId
  ensure (snapshot.plan.status ≠ .cancelled)
    "cannot insert a node into a cancelled goal plan".toList
  ensure (snapshot.nodes.length < maxGoalPlanNodes) (tooManyNodesMessage snapshot.nodes.length)
  let (insertSequence, parentNodeId, nestingDepth) ← insertionPoint snapshot params.position
  let title ← ofResult (normalizeThreadGoalTitle params.title)
  let insertedNode : ThreadGoalPlanNode :=
    { nodeId := newNodeId
      planId
      threadId := snapshot.plan.threadId
      assignedThreadId := params.threadId
      parentNodeId
      nestingDepth
      key := Text.trim params.key
      sequence := insertSequence
      priority := params.priority
      objective := Text.trim params.objective
      title
      status := .pending
      tokenBudget := params.tokenBudget
      createdAtMs := nowMs
      updatedAtMs := nowMs
      dependsOn := normalizeDependencyKeys params.dependsOn }
  ofResult (validatePlanCreateParams
    { threadId := snapshot.plan.threadId
      autoExecute := snapshot.plan.autoExecute
      maxTokens := snapshot.plan.maxTokens
      nodes := snapshot.nodes.map (fun node => node.asCreateParams node.dependsOn) ++
        [insertedNode.asCreateParams insertedNode.dependsOn] })
  Exec.modify (Db.updateNodes
    (fun node => node.planId = planId && insertSequence ≤ node.sequence) fun node =>
      { node with sequence := node.sequence + 1, updatedAtMs := nowMs })
  insertNode insertedNode.toThreadGoalPlanNodeRow
  replaceNodeDependenciesInTx insertedNode snapshot.nodes
  let _ ← recalculateGoalPlanStatusInTx planId nowMs
  let snapshot ← snapshotThreadGoalPlanInTx planId
  let insertedNode ← snapshotNode snapshot newNodeId
  pure { snapshot, insertedNode }

/-! ## Marking a node by hand -/

/-- Record a node as complete, with the usage of its projected goal if that goal
still exists. -/
def recordNodeComplete (node : ThreadGoalPlanNode) (nowMs : Int) : Tx (Option ThreadGoal) := do
  let goal ← markProjectedGoalCompleteInTx node nowMs
  Exec.modify (Db.updateNodes (fun row => row.nodeId = node.nodeId) fun row =>
    { row with
      status := .complete
      tokensUsed := (goal.map (·.tokensUsed)).getD node.tokensUsed
      timeUsedSeconds := (goal.map (·.timeUsedSeconds)).getD node.timeUsedSeconds
      linesAdded := (goal.map (·.linesAdded)).getD node.linesAdded
      linesDeleted := (goal.map (·.linesDeleted)).getD node.linesDeleted
      updatedAtMs := nowMs })
  let _ ← recalculateGoalPlanStatusInTx node.planId nowMs
  pure goal

section

variable (redactStateString : Text → Text)

/-- A node that was started passes on to the next one. -/
def advanceFromStartedNode (params : ThreadGoalPlanNodeStatusUpdateParams)
    (node : ThreadGoalPlanNode) (goalId : Text) (nowMs : Int) : Tx (Option ThreadGoal) :=
  if node.status.isStarted then
    activateNextReadyNodeInTx redactStateString params.threadId node.planId params.autoExecute
      goalId nowMs
  else pure none

def markGoalPlanNodeCompleteInTx (params : ThreadGoalPlanNodeStatusUpdateParams)
    (snapshot : ThreadGoalPlanSnapshot) (node : ThreadGoalPlanNode) (goalId : Text)
    (nowMs : Int) : Tx ThreadGoalPlanNodeMutationOutcome := do
  if node.status = .complete then
    return { snapshot, node, goal := none, activatedGoal := none, clearedGoal := false }
  ensure (node.status ≠ .cancelled) "cannot mark a cancelled goal-plan node complete".toList
  let goal ← recordNodeComplete node nowMs
  let activatedGoal ← advanceFromStartedNode redactStateString params node goalId nowMs
  let _ ← recalculateGoalPlanStatusInTx node.planId nowMs
  let snapshot ← snapshotThreadGoalPlanInTx node.planId
  let node ← snapshotNode snapshot node.nodeId
  pure { snapshot, node, goal, activatedGoal, clearedGoal := false }

end

/-- What the operations that mark a node return. -/
def mutationOutcome (node : ThreadGoalPlanNode) (clearedGoal : Bool) (nowMs : Int) :
    Tx ThreadGoalPlanNodeMutationOutcome := do
  let _ ← recalculateGoalPlanStatusInTx node.planId nowMs
  let snapshot ← snapshotThreadGoalPlanInTx node.planId
  let node ← snapshotNode snapshot node.nodeId
  pure { snapshot, node, goal := none, activatedGoal := none, clearedGoal }

/-- A deferred node keeps its accounting and its projected goal; a completed one
loses both, and its goal is deleted. -/
def markGoalPlanNodePendingInTx (snapshot : ThreadGoalPlanSnapshot) (node : ThreadGoalPlanNode)
    (nowMs : Int) : Tx ThreadGoalPlanNodeMutationOutcome := do
  match node.status with
  | .pending =>
      pure { snapshot, node, goal := none, activatedGoal := none, clearedGoal := false }
  | .deferred =>
      Exec.modify (Db.updateNodes (fun row => row.nodeId = node.nodeId) fun row =>
        { row with status := .pending, updatedAtMs := nowMs })
      mutationOutcome node false nowMs
  | .complete =>
      let projected := fun goal : ThreadGoal =>
        goal.threadId = node.assignedThreadId && node.projectedGoalId = some goal.goalId
      let clearedGoal ← Exec.gets fun db => db.threadGoals.any projected
      Exec.modify (Db.deleteThreadGoals projected)
      Exec.modify (Db.updateNodes (fun row => row.nodeId = node.nodeId) fun row =>
        { row with
          status := .pending
          projectedGoalId := none
          tokensUsed := 0
          timeUsedSeconds := 0
          linesAdded := 0
          linesDeleted := 0
          updatedAtMs := nowMs })
      mutationOutcome node clearedGoal nowMs
  | _ => bail "can only mark completed or deferred goal-plan nodes pending".toList

section

variable (redactStateString : Text → Text)

def setThreadGoalPlanNodeStatus (params : ThreadGoalPlanNodeStatusUpdateParams) (goalId : Text)
    (nowMs : Int) : Tx ThreadGoalPlanNodeMutationOutcome := do
  let nodeId ← requireNonEmptyId (Text.trim params.nodeId) "goal plan node id".toList
  let planId ← planIdForNodeInTx nodeId
  let snapshot ← ownedPlanSnapshotInTx params.threadId planId
  ensure (snapshot.plan.status ≠ .cancelled)
    "cannot update a node in a cancelled goal plan".toList
  let node ← snapshotNode snapshot nodeId
  match params.status with
  | .complete =>
      markGoalPlanNodeCompleteInTx redactStateString params snapshot node goalId nowMs
  | .pending => markGoalPlanNodePendingInTx snapshot node nowMs

end

end Codewith.GoalStore
