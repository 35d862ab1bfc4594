import Codewith.GoalStore.Goals

/-!
# Goal plans

The operations of `goal_plans.rs`.  A plan is a set of nodes with dependencies;
activating a node makes it the goal of the thread it is assigned to, and
finishing that goal is recorded in the node again.
-/

namespace Codewith.GoalStore

open Lib

def maxGoalPlanNodes : Nat := 128

def maxGoalPlanNodeKeyLen : Nat := 128

structure ThreadGoalPlanNodeCreateParams where
  key : Text
  objective : Text
  assignedThreadId : Option ThreadId
  title : Option Text
  priority : Int
  tokenBudget : Option Int
  dependsOn : List Text
  deriving DecidableEq, Repr

structure ThreadGoalPlanCreateParams where
  threadId : ThreadId
  autoExecute : ThreadGoalPlanAutoExecute
  maxTokens : Option Int
  nodes : List ThreadGoalPlanNodeCreateParams
  deriving DecidableEq, Repr

structure ThreadGoalPlanAppendParams where
  threadId : ThreadId
  planId : Text
  maxTotalNodes : Option Nat
  nodes : List ThreadGoalPlanNodeCreateParams
  deriving DecidableEq, Repr

structure ThreadGoalPlanAddParams where
  threadId : ThreadId
  objective : Text
  title : Option Text
  tokenBudget : Option Int
  autoExecute : ThreadGoalPlanAutoExecute
  deriving DecidableEq, Repr

structure ThreadGoalPlanNodeHierarchyParams where
  key : Text
  parentKey : Option Text
  nestingDepth : Int
  deriving DecidableEq, Repr

structure ThreadGoalPlanAdvanceOutcome where
  snapshot : ThreadGoalPlanSnapshot
  activatedGoal : Option ThreadGoal
  deriving DecidableEq, Repr

structure ThreadGoalPlanAddOutcome where
  snapshot : ThreadGoalPlanSnapshot
  addedNode : ThreadGoalPlanNode
  goal : Option ThreadGoal
  activatedGoal : Option ThreadGoal
  createdPlan : Bool
  deriving DecidableEq, Repr

/-- The identifiers that an operation draws from `Uuid::new_v4`. -/
structure NewIds where
  planId : Text
  nodeId : Nat → Text
  goalId : Text

def quoted (name : Text) : Text := '`' :: name ++ ['`']

/-! ## Validation -/

def isValidGoalPlanNodeKey (key : Text) : Bool :=
  key.all fun c => c.isAlphanum || c = '_' || c = '-'

inductive VisitState
  | visiting
  | visited
  deriving DecidableEq, Repr

def cycleMessage (key : Text) : Text :=
  "goal plan dependencies contain a cycle involving ".toList ++ quoted key

/-- Depth-first search from a key.  The keys on the way are `visiting`, so a
search deeper than there are keys would have met one of them before; the fuel
never ends a search. -/
def visit (graph : List (Text × List Text)) :
    Nat → Text → List (Text × VisitState) → Except Text (List (Text × VisitState))
  | 0, key, _ => .error (cycleMessage key)
  | fuel + 1, key, states =>
      match states.lookup key with
      | some .visited => .ok states
      | some .visiting => .error (cycleMessage key)
      | none => do
          let states ← ((graph.lookup key).getD []).foldlM
            (fun states dependency => visit graph fuel dependency states)
            ((key, .visiting) :: states)
          .ok ((key, .visited) :: states)

def validateAcyclicDependencies (nodes : List ThreadGoalPlanNodeCreateParams) :
    Except Text Unit := do
  let graph := nodes.map fun node => (node.key, node.dependsOn)
  let _ ← nodes.foldlM (fun states node => visit graph (nodes.length + 1) node.key states) []
  pure ()

def tooManyNodesMessage (count : Nat) : Text :=
  "goal plan contains ".toList ++ (toString count).toList ++
    " goals but the maximum is 128".toList

/-- The checks of one node, given the keys before it. -/
def validatePlanNode (keys : List Text) (node : ThreadGoalPlanNodeCreateParams) :
    Except Text (List Text) := do
  if Text.trim node.key = [] then
    throw "goal plan node key must not be empty".toList
  if maxGoalPlanNodeKeyLen < byteLength node.key then
    throw ("goal plan node key ".toList ++ quoted node.key ++
      " is too long; maximum is 128 bytes".toList)
  if ¬isValidGoalPlanNodeKey node.key then
    throw ("goal plan node key ".toList ++ quoted node.key ++
      " must contain only ASCII letters, numbers, underscores, or hyphens".toList)
  if node.key ∈ keys then
    throw ("goal plan node key ".toList ++ quoted node.key ++ " is duplicated".toList)
  validateThreadGoalObjective (Text.trim node.objective)
  let _ ← normalizeThreadGoalTitle node.title
  if node.tokenBudget.any fun budget => budget ≤ 0 then
    throw "goal plan node token_budget must be positive when set".toList
  pure (keys ++ [node.key])

/-- The checks of the dependencies of one node, given all keys. -/
def validatePlanNodeDependencies (keys : List Text) (node : ThreadGoalPlanNodeCreateParams) :
    Except Text Unit :=
  node.dependsOn.forM fun dependency =>
    if dependency = node.key then
      .error ("goal plan node ".toList ++ quoted node.key ++ " cannot depend on itself".toList)
    else if dependency ∉ keys then
      .error ("goal plan node ".toList ++ quoted node.key ++ " depends on unknown node ".toList ++
        quoted dependency)
    else .ok ()

def validatePlanCreateParams (params : ThreadGoalPlanCreateParams) : Except Text Unit := do
  if params.nodes = [] then
    throw "goal plan must contain at least one goal".toList
  if maxGoalPlanNodes < params.nodes.length then
    throw (tooManyNodesMessage params.nodes.length)
  if params.maxTokens.any fun maxTokens => maxTokens ≤ 0 then
    throw "goal plan max_tokens must be positive when set".toList
  let keys ← params.nodes.foldlM validatePlanNode []
  params.nodes.forM (validatePlanNodeDependencies keys)
  validateAcyclicDependencies params.nodes

def validatePlanAppendParams (params : ThreadGoalPlanAppendParams) : Except Text Unit := do
  if Text.trim params.planId = [] then
    throw "goal plan id must not be empty".toList
  if params.nodes = [] then
    throw "goal plan append must contain at least one goal".toList
  if params.maxTotalNodes = some 0 then
    throw "goal plan max_total_nodes must be positive when set".toList

def validatePlanAddParams (params : ThreadGoalPlanAddParams) : Except Text Unit := do
  validateThreadGoalObjective (Text.trim params.objective)
  let _ ← normalizeThreadGoalTitle params.title
  if params.tokenBudget.any fun budget => budget ≤ 0 then
    throw "goal plan node token_budget must be positive when set".toList

/-- The checks of one hierarchy entry, given the keys before it. -/
def validateHierarchyEntry (keys : List Text) (node : ThreadGoalPlanNodeHierarchyParams) :
    Except Text (List Text) := do
  if Text.trim node.key = [] then
    throw "goal plan node hierarchy key must not be empty".toList
  if node.key ∈ keys then
    throw ("goal plan node hierarchy key ".toList ++ quoted node.key ++ " is duplicated".toList)
  if node.parentKey.any fun parentKey => Text.trim parentKey = [] then
    throw ("goal plan node ".toList ++ quoted node.key ++
      " hierarchy parent key must not be empty".toList)
  if node.parentKey = some node.key then
    throw ("goal plan node ".toList ++ quoted node.key ++ " cannot parent itself".toList)
  if ¬(1 ≤ node.nestingDepth ∧ node.nestingDepth ≤ 3) then
    throw ("goal plan node ".toList ++ quoted node.key ++
      " nesting_depth must be between 1 and 3".toList)
  if node.parentKey = none ∧ node.nestingDepth ≠ 1 then
    throw ("root goal plan node ".toList ++ quoted node.key ++
      " must have nesting_depth 1".toList)
  if node.parentKey ≠ none ∧ node.nestingDepth = 1 then
    throw ("nested goal plan node ".toList ++ quoted node.key ++
      " must have nesting_depth greater than 1".toList)
  pure (keys ++ [node.key])

def validateGoalPlanNodeHierarchyParams (nodes : List ThreadGoalPlanNodeHierarchyParams) :
    Except Text Unit := do
  let _ ← nodes.foldlM validateHierarchyEntry []
  pure ()

/-! ## Activation -/

/-- A goal in one of these statuses makes room for the next one. -/
def ThreadGoalStatus.makesRoom (status : ThreadGoalStatus) : Bool :=
  status = .budgetLimited || status = .deferred || status = .complete || status = .cancelled

/-- What the goal of a node may spend: its own budget, within what is left of
the tokens of the plan. -/
def effectiveTokenBudget : Option Int → Option Int → Option Int
  | some nodeBudget, some remaining => some (min nodeBudget remaining)
  | some nodeBudget, none => some nodeBudget
  | none, remaining => remaining

/-- Only pending and deferred nodes are activated. -/
def ThreadGoalPlanNodeStatus.activatable (status : ThreadGoalPlanNodeStatus) : Bool :=
  status = .pending || status = .deferred

/-- The node after its activation: all counters restart. -/
def ThreadGoalPlanNodeRow.activatedBy (goal : ThreadGoal) (nowMs : Int)
    (node : ThreadGoalPlanNodeRow) : ThreadGoalPlanNodeRow :=
  { node with
    status := goal.status.toNodeStatus
    tokenBudget := goal.tokenBudget
    projectedGoalId := some goal.goalId
    tokensUsed := 0
    timeUsedSeconds := 0
    linesAdded := 0
    linesDeleted := 0
    updatedAtMs := nowMs }

section

variable (redactStateString : Text → Text)

/-- Make the goal of a node the goal of the thread. -/
def projectNodeInTx (threadId : ThreadId) (node : ThreadGoalPlanNodeRow) (goalId : Text)
    (nowMs : Int) : Tx ThreadGoal := do
  let plan ← getThreadGoalPlanInTx node.planId
  let remainingPlanTokens ← Exec.gets fun db =>
    plan.maxTokens.map fun maxTokens => max (maxTokens - db.reservedPlanTokens node.planId) 0
  let goal := freshThreadGoal threadId goalId (redactStateString node.objective)
    (node.title.map redactStateString) .active
    (effectiveTokenBudget node.tokenBudget remainingPlanTokens) nowMs
  Exec.modify (Db.deleteBlockerAudits fun audit => audit.threadId = threadId)
  Exec.modify (Db.upsertThreadGoal goal)
  pure goal

def activateNodeInTx (threadId : ThreadId) (nodeId goalId : Text) (nowMs : Int) :
    Tx ThreadGoal := do
  let active ← Exec.gets fun db => db.nodes.any fun node =>
    node.assignedThreadId = threadId && node.status = .active
  ensure (active = false)
    "cannot activate goal plan node while another plan node is active".toList
  let current ← Exec.gets fun db => db.threadGoal? threadId
  ensure (current.all fun goal => goal.status.makesRoom)
    "cannot activate goal plan node while thread has a non-terminal goal".toList
  let found ← Exec.gets fun db => db.nodes.find? fun node =>
    node.nodeId = nodeId && node.assignedThreadId = threadId && node.status.activatable
  match found with
  | none => bail "goal plan node is not ready to activate".toList
  | some node =>
      let goal ← projectNodeInTx redactStateString threadId node goalId nowMs
      let matching := fun node : ThreadGoalPlanNodeRow =>
        node.nodeId = nodeId && node.status.activatable
      let updatedNodeCount ← Exec.gets fun db => Table.countWhere matching db.nodes
      Exec.modify (Db.updateNodes matching fun node => node.activatedBy goal nowMs)
      ensure (updatedNodeCount = 1)
        "goal plan node changed before activation could be recorded".toList
      pure goal

/-- The node that is activated next without being named. -/
def Db.nextReadyNode (db : Db) (threadId : ThreadId) (planId : Text)
    (autoExecute : ThreadGoalPlanAutoExecute) : Option ThreadGoalPlanNodeRow :=
  let readyNodesForThread := (db.readyPlanNodes planId).filter fun node =>
    node.assignedThreadId = threadId
  match autoExecute with
  | .off => none
  | .readyOnly => if readyNodesForThread.length = 1 then readyNodesForThread.head? else none
  | .aiDirected => readyNodesForThread.head?

def activateNextReadyNodeInTx (threadId : ThreadId) (planId : Text)
    (autoExecute : ThreadGoalPlanAutoExecute) (goalId : Text) (nowMs : Int) :
    Tx (Option ThreadGoal) := do
  match (← Exec.gets fun db => db.nextReadyNode threadId planId autoExecute) with
  | none => pure none
  | some node =>
      let goal ← activateNodeInTx redactStateString threadId node.nodeId goalId nowMs
      pure (some goal)

/-! ## Creating and extending plans -/

/-- The value of the last pair with the key, as in a map filled in order. -/
def lookupLast (pairs : List (Text × Text)) (key : Text) : Option Text :=
  pairs.reverse.lookup key

/-- Insert the rows of new nodes, and return their ids by key. -/
def insertPlanNodes (threadId : ThreadId) (planId : Text) (nextSequence : Int)
    (nodeId : Nat → Text) (nowMs : Int) (nodes : List ThreadGoalPlanNodeCreateParams) :
    Tx (List (Text × Text)) := do
  Exec.forEach
    (fun (node, index) => do
      let title ← ofResult (normalizeThreadGoalTitle (node.title.map redactStateString))
      insertNode
        { nodeId := nodeId index
          planId
          threadId
          assignedThreadId := node.assignedThreadId.getD threadId
          key := node.key
          sequence := nextSequence + index
          priority := node.priority
          objective := redactStateString node.objective
          title
          status := .pending
          tokenBudget := node.tokenBudget
          createdAtMs := nowMs
          updatedAtMs := nowMs })
    nodes.zipIdx
  pure (nodes.zipIdx.map fun (node, index) => (node.key, nodeId index))

def unknownDependencyMessage (key dependencyKey : Text) : Text :=
  "goal node ".toList ++ key ++ " depends on unknown goal node ".toList ++ dependencyKey

/-- Insert the dependencies of one node, found by key. -/
def insertNodeDependencies (nodeIdsByKey : List (Text × Text)) (key nodeId : Text)
    (dependsOn : List Text) : Tx Unit :=
  Exec.forEach
    (fun dependencyKey =>
      match lookupLast nodeIdsByKey dependencyKey with
      | some dependencyId => insertDependency ⟨nodeId, dependencyId⟩
      | none => bail (unknownDependencyMessage key dependencyKey))
    dependsOn

def insertPlanDependencies (missing : Text) (nodeIdsByKey : List (Text × Text))
    (nodes : List ThreadGoalPlanNodeCreateParams) : Tx Unit :=
  Exec.forEach
    (fun node =>
      match lookupLast nodeIdsByKey node.key with
      | some nodeId => insertNodeDependencies nodeIdsByKey node.key nodeId node.dependsOn
      | none => bail (missing ++ node.key))
    nodes

/-- The rows of a new plan, before a node of it is activated. -/
def insertPlanRows (params : ThreadGoalPlanCreateParams) (ids : NewIds) (nowMs : Int) :
    Tx Unit := do
  ofResult (validatePlanCreateParams params)
  insertPlan
    { planId := ids.planId
      threadId := params.threadId
      status := .active
      autoExecute := params.autoExecute
      maxTokens := params.maxTokens
      createdAtMs := nowMs
      updatedAtMs := nowMs }
  let nodeIdsByKey ← insertPlanNodes redactStateString params.threadId ids.planId 0 ids.nodeId
    nowMs params.nodes
  insertPlanDependencies "missing inserted goal node key ".toList nodeIdsByKey params.nodes

def insertThreadGoalPlanInTx (params : ThreadGoalPlanCreateParams) (ids : NewIds) (nowMs : Int) :
    Tx ThreadGoalPlanAdvanceOutcome := do
  insertPlanRows redactStateString params ids nowMs
  let activatedGoal ← activateNextReadyNodeInTx redactStateString params.threadId ids.planId
    params.autoExecute ids.goalId nowMs
  let snapshot ← snapshotThreadGoalPlanInTx ids.planId
  pure { snapshot, activatedGoal }

def createThreadGoalPlan (params : ThreadGoalPlanCreateParams) (ids : NewIds) (nowMs : Int) :
    Tx ThreadGoalPlanAdvanceOutcome := do
  ofResult (validatePlanCreateParams params)
  insertThreadGoalPlanInTx redactStateString params ids nowMs

/-- One more than the last sequence number, or zero. -/
def nextSequence (nodes : List ThreadGoalPlanNode) : Int :=
  ((nodes.map (·.sequence)).max?).getD (-1) + 1

def notOwnedMessage (planId : Text) (threadId : ThreadId) : Text :=
  "goal plan ".toList ++ planId ++ " does not belong to thread ".toList ++ threadId.uuid

def touchPlan (planId : Text) (nowMs : Int) : Tx Unit :=
  Exec.modify (Db.updatePlans (fun plan => plan.planId = planId) fun plan =>
    { plan with updatedAtMs := nowMs })

def appendThreadGoalPlanNodesInTx (params : ThreadGoalPlanAppendParams) (ids : NewIds)
    (nowMs : Int) : Tx ThreadGoalPlanSnapshot := do
  let snapshot ← snapshotThreadGoalPlanInTx params.planId
  ensure (snapshot.plan.threadId = params.threadId)
    (notOwnedMessage params.planId params.threadId)
  ensure (snapshot.plan.status = .active) "can only append goals to an active goal plan".toList
  let maxTotalNodes := min (params.maxTotalNodes.getD maxGoalPlanNodes) maxGoalPlanNodes
  let totalNodes := snapshot.nodes.length + params.nodes.length
  ensure (totalNodes ≤ maxTotalNodes)
    ("goal plan would contain ".toList ++ (toString totalNodes).toList ++
      " goals but the maximum is ".toList ++ (toString maxTotalNodes).toList)
  let existing := snapshot.nodes.map fun node => ({
    key := node.key
    objective := node.objective
    assignedThreadId := none
    title := none
    priority := node.priority
    tokenBudget := node.tokenBudget
    dependsOn := node.dependsOn } : ThreadGoalPlanNodeCreateParams)
  ofResult (validatePlanCreateParams
    { threadId := params.threadId
      autoExecute := snapshot.plan.autoExecute
      maxTokens := snapshot.plan.maxTokens
      nodes := existing ++ params.nodes })
  let inserted ← insertPlanNodes redactStateString params.threadId params.planId
    (nextSequence snapshot.nodes) ids.nodeId nowMs params.nodes
  insertPlanDependencies "missing appended goal node key ".toList
    (snapshot.nodes.map (fun node => (node.key, node.nodeId)) ++ inserted) params.nodes
  touchPlan params.planId nowMs
  snapshotThreadGoalPlanInTx params.planId

def appendThreadGoalPlanNodes (params : ThreadGoalPlanAppendParams) (ids : NewIds) (nowMs : Int) :
    Tx ThreadGoalPlanSnapshot := do
  ofResult (validatePlanAppendParams params)
  appendThreadGoalPlanNodesInTx redactStateString params ids nowMs

/-- `goal_1`, `goal_2`, … up to the first key that is free. -/
def nextGoalPlanNodeKey (existingKeys : List Text) : Text :=
  ((List.range (maxGoalPlanNodes + 1)).map fun index =>
    "goal_".toList ++ (toString (index + 1)).toList).find?
      (fun candidate => candidate ∉ existingKeys) |>.getD "goal".toList

/-- The keys that nothing in the plan depends on yet. -/
def appendDependencyKeys (nodes : List ThreadGoalPlanNode) : List Text :=
  let dependedOn := nodes.flatMap (·.dependsOn)
  (nodes.filter fun node => node.key ∉ dependedOn).map (·.key)

def appendGoalPlanNodeInTx (planId : Text) (params : ThreadGoalPlanAddParams) (nodeId : Text)
    (nowMs : Int) : Tx (ThreadGoalPlanSnapshot × ThreadGoalPlanNode) := do
  let snapshot ← snapshotThreadGoalPlanInTx planId
  ensure (snapshot.nodes.length < maxGoalPlanNodes) (tooManyNodesMessage snapshot.nodes.length)
  let title ← ofResult (normalizeThreadGoalTitle (params.title.map redactStateString))
  insertNode
    { nodeId
      planId
      threadId := snapshot.plan.threadId
      assignedThreadId := params.threadId
      key := nextGoalPlanNodeKey (snapshot.nodes.map (·.key))
      sequence := nextSequence snapshot.nodes
      priority := 0
      objective := redactStateString params.objective
      title
      status := .pending
      tokenBudget := params.tokenBudget
      createdAtMs := nowMs
      updatedAtMs := nowMs }
  Exec.forEach
    (fun dependencyKey =>
      match snapshot.nodes.find? fun node => node.key = dependencyKey with
      | some node => insertDependency ⟨nodeId, node.nodeId⟩
      | none => bail ("missing dependency node ".toList ++ quoted dependencyKey))
    (appendDependencyKeys snapshot.nodes)
  let _ ← recalculateGoalPlanStatusInTx planId nowMs
  let snapshot ← snapshotThreadGoalPlanInTx planId
  match snapshot.nodes.find? fun node => node.nodeId = nodeId with
  | some addedNode => pure (snapshot, addedNode)
  | none => bail "appended goal plan node was not persisted".toList

/-- A plan without a limit on its tokens. -/
def unlimitedPlan (params : ThreadGoalPlanAddParams) (planId : Text) (nowMs : Int) :
    ThreadGoalPlan where
  planId := planId
  threadId := params.threadId
  status := .active
  autoExecute := params.autoExecute
  maxTokens := none
  createdAtMs := nowMs
  updatedAtMs := nowMs

/-- The current goal becomes the first node of a new plan. -/
def createGoalPlanFromGoalInTx (params : ThreadGoalPlanAddParams) (goal : ThreadGoal)
    (ids : NewIds) (nowMs : Int) : Tx (ThreadGoalPlanSnapshot × ThreadGoalPlanNode) := do
  insertPlan (unlimitedPlan params ids.planId nowMs)
  insertNode
    { nodeId := ids.nodeId 0
      planId := ids.planId
      threadId := params.threadId
      assignedThreadId := params.threadId
      key := "current".toList
      sequence := 0
      priority := 0
      objective := redactStateString goal.objective
      title := goal.title.map redactStateString
      status := goal.status.toNodeStatus
      tokenBudget := goal.tokenBudget
      tokensUsed := goal.tokensUsed
      timeUsedSeconds := goal.timeUsedSeconds
      linesAdded := goal.linesAdded
      linesDeleted := goal.linesDeleted
      projectedGoalId := some goal.goalId
      createdAtMs := goal.createdAtMs
      updatedAtMs := goal.updatedAtMs }
  appendGoalPlanNodeInTx redactStateString ids.planId params (ids.nodeId 1) nowMs

def createGoalPlanFromAddedGoalInTx (params : ThreadGoalPlanAddParams) (ids : NewIds)
    (nowMs : Int) : Tx (ThreadGoalPlanSnapshot × ThreadGoalPlanNode × ThreadGoal) := do
  insertPlan (unlimitedPlan params ids.planId nowMs)
  let title ← ofResult (normalizeThreadGoalTitle (params.title.map redactStateString))
  insertNode
    { nodeId := ids.nodeId 0
      planId := ids.planId
      threadId := params.threadId
      assignedThreadId := params.threadId
      key := "goal_1".toList
      sequence := 0
      priority := 0
      objective := redactStateString params.objective
      title
      status := .pending
      tokenBudget := params.tokenBudget
      createdAtMs := nowMs
      updatedAtMs := nowMs }
  let activatedGoal ← activateNodeInTx redactStateString params.threadId (ids.nodeId 0) ids.goalId
    nowMs
  let snapshot ← snapshotThreadGoalPlanInTx ids.planId
  match snapshot.nodes.find? fun node => node.nodeId = ids.nodeId 0 with
  | some addedNode => pure (snapshot, addedNode, activatedGoal)
  | none => bail "added goal plan node was not persisted".toList

/-- Plans that still take goals. -/
def ThreadGoalPlanStatus.isOpen (status : ThreadGoalPlanStatus) : Bool :=
  status = .active || status = .paused || status = .blocked || status = .budgetLimited

/-- `ORDER BY created_at_ms DESC, plan_id DESC`. -/
def newestFirst (a b : ThreadGoalPlan) : Prop :=
  b.createdAtMs < a.createdAtMs ∨ (a.createdAtMs = b.createdAtMs ∧ textLe b.planId a.planId)

instance : DecidableRel newestFirst := fun _ _ => inferInstanceAs (Decidable (_ ∨ (_ ∧ _)))

def Db.appendableGoalPlanIdForGoal (db : Db) (threadId : ThreadId) (goal : ThreadGoal) :
    Option Text :=
  (Table.selectOrdered
    (fun plan => plan.status.isOpen && db.nodes.any fun node =>
      node.planId = plan.planId && node.assignedThreadId = threadId &&
        node.projectedGoalId = some goal.goalId)
    newestFirst db.plans).head?.map (·.planId)

/-- Plans of the thread come before plans that only assign it a node. -/
def Db.newestAppendableGoalPlanIdForThread (db : Db) (threadId : ThreadId) : Option Text :=
  (Table.selectOrdered
    (fun plan => plan.status.isOpen && (plan.threadId = threadId || db.nodes.any fun node =>
      node.planId = plan.planId && node.assignedThreadId = threadId))
    (fun a b => (a.threadId = threadId ∧ b.threadId ≠ threadId) ∨
      ((a.threadId = threadId ↔ b.threadId = threadId) ∧ newestFirst a b))
    db.plans).head?.map (·.planId)

def addThreadGoalToPlan (params : ThreadGoalPlanAddParams) (ids : NewIds) (nowMs : Int) :
    Tx ThreadGoalPlanAddOutcome := do
  ofResult (validatePlanAddParams params)
  let goal ← Exec.gets fun db => db.threadGoal? params.threadId
  let planOfGoal ← Exec.gets fun db => goal.bind (db.appendableGoalPlanIdForGoal params.threadId)
  let newestPlan ← Exec.gets fun db => db.newestAppendableGoalPlanIdForThread params.threadId
  match planOfGoal with
  | some planId =>
      let (snapshot, addedNode) ←
        appendGoalPlanNodeInTx redactStateString planId params (ids.nodeId 0) nowMs
      pure { snapshot, addedNode, goal, activatedGoal := none, createdPlan := false }
  | none =>
      match goal.filter fun goal => goal.status ≠ .complete && goal.status ≠ .cancelled with
      | some current =>
          let (snapshot, addedNode) ←
            createGoalPlanFromGoalInTx redactStateString params current ids nowMs
          pure { snapshot, addedNode, goal, activatedGoal := none, createdPlan := true }
      | none =>
          match newestPlan with
          | some planId =>
              let (snapshot, addedNode) ←
                appendGoalPlanNodeInTx redactStateString planId params (ids.nodeId 0) nowMs
              pure { snapshot, addedNode, goal, activatedGoal := none, createdPlan := false }
          | none =>
              let (snapshot, addedNode, activatedGoal) ←
                createGoalPlanFromAddedGoalInTx redactStateString params ids nowMs
              pure
                { snapshot
                  addedNode
                  goal := some activatedGoal
                  activatedGoal := some activatedGoal
                  createdPlan := true }

end

end Codewith.GoalStore
