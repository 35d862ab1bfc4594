import Codewith.Lib.Text
import Codewith.Lib.Table
import Codewith.Lib.Transaction

/-!
# The goals database

The rows of `codex-rs/state/goals_migrations`, the database they form, and the
statements shared by the operations of `GoalStore`.  Identifiers are texts,
counters and times are integers, and a status is a constructor instead of the
text of its column.

Every operation of the store is one transaction.  Fresh identifiers and the
clock are inputs of an operation.
-/

namespace Codewith.GoalStore

open Lib

structure ThreadId where
  uuid : Text
  deriving DecidableEq, Repr

inductive ThreadGoalStatus
  | active
  | paused
  | blocked
  | usageLimited
  | budgetLimited
  | deferred
  | complete
  | cancelled
  deriving DecidableEq, Repr

inductive ThreadGoalPlanStatus
  | active
  | paused
  | blocked
  | budgetLimited
  | complete
  | cancelled
  deriving DecidableEq, Repr

inductive ThreadGoalPlanAutoExecute
  | off
  | readyOnly
  | aiDirected
  deriving DecidableEq, Repr

inductive ThreadGoalPlanNodeStatus
  | pending
  | active
  | paused
  | blocked
  | usageLimited
  | budgetLimited
  | deferred
  | complete
  | cancelled
  deriving DecidableEq, Repr

/-- `From<ThreadGoalStatus> for ThreadGoalPlanNodeStatus`. -/
def ThreadGoalStatus.toNodeStatus : ThreadGoalStatus → ThreadGoalPlanNodeStatus
  | .active => .active
  | .paused => .paused
  | .blocked => .blocked
  | .usageLimited => .usageLimited
  | .budgetLimited => .budgetLimited
  | .deferred => .deferred
  | .complete => .complete
  | .cancelled => .cancelled

structure ThreadGoal where
  threadId : ThreadId
  goalId : Text
  objective : Text
  title : Option Text
  status : ThreadGoalStatus
  tokenBudget : Option Int
  tokensUsed : Int
  timeUsedSeconds : Int
  linesAdded : Int
  linesDeleted : Int
  createdAtMs : Int
  updatedAtMs : Int
  deriving DecidableEq, Repr

structure ThreadGoalLineChangeStats where
  linesAdded : Int
  linesDeleted : Int
  deriving DecidableEq, Repr

structure ThreadGoalPlan where
  planId : Text
  threadId : ThreadId
  status : ThreadGoalPlanStatus
  autoExecute : ThreadGoalPlanAutoExecute
  maxTokens : Option Int
  createdAtMs : Int
  updatedAtMs : Int
  deriving DecidableEq, Repr

/-- A row of `thread_goal_plan_nodes`. -/
structure ThreadGoalPlanNodeRow where
  nodeId : Text
  planId : Text
  threadId : ThreadId
  assignedThreadId : ThreadId
  parentNodeId : Option Text := none
  nestingDepth : Int := 1
  key : Text
  sequence : Int
  priority : Int
  objective : Text
  title : Option Text
  status : ThreadGoalPlanNodeStatus
  tokenBudget : Option Int
  tokensUsed : Int := 0
  timeUsedSeconds : Int := 0
  linesAdded : Int := 0
  linesDeleted : Int := 0
  projectedGoalId : Option Text := none
  createdAtMs : Int
  updatedAtMs : Int
  deriving DecidableEq, Repr

/-- A node as a snapshot shows it, with the keys of its dependencies. -/
structure ThreadGoalPlanNode extends ThreadGoalPlanNodeRow where
  dependsOn : List Text
  deriving DecidableEq, Repr

structure ThreadGoalPlanSnapshot where
  plan : ThreadGoalPlan
  nodes : List ThreadGoalPlanNode
  deriving DecidableEq, Repr

/-- A row of `thread_goal_plan_dependencies`. -/
structure ThreadGoalPlanDependency where
  nodeId : Text
  dependsOnNodeId : Text
  deriving DecidableEq, Repr

/-- A row of `thread_goal_blocker_audits`. -/
structure ThreadGoalBlockerAudit where
  threadId : ThreadId
  goalId : Text
  fingerprint : Text
  firstTurnId : Text
  lastTurnId : Text
  consecutiveTurns : Int
  createdAtMs : Int
  updatedAtMs : Int
  deriving DecidableEq, Repr

/-- A row of `thread_goal_blocker_audit_turns`. -/
structure ThreadGoalBlockerAuditTurn where
  threadId : ThreadId
  goalId : Text
  turnId : Text
  createdAtMs : Int
  deriving DecidableEq, Repr

/-- A row of `workflow_goal_plan_projections`. -/
structure WorkflowGoalPlanProjectionRow where
  projectionId : Text
  runId : Text
  threadId : ThreadId
  planId : Text
  idempotencyKey : Option Text
  createdAtMs : Int
  updatedAtMs : Int
  deriving DecidableEq, Repr

/-- A row of `workflow_goal_plan_node_projections`. -/
structure WorkflowGoalPlanNodeProjectionRow where
  projectionId : Text
  runId : Text
  stepId : Text
  stepRunId : Text
  nodeId : Text
  tokenBudget : Option Int
  createdAtMs : Int
  updatedAtMs : Int
  deriving DecidableEq, Repr

structure Db where
  threadGoals : List ThreadGoal
  plans : List ThreadGoalPlan
  nodes : List ThreadGoalPlanNodeRow
  dependencies : List ThreadGoalPlanDependency
  blockerAudits : List ThreadGoalBlockerAudit
  blockerAuditTurns : List ThreadGoalBlockerAuditTurn
  projections : List WorkflowGoalPlanProjectionRow
  nodeProjections : List WorkflowGoalPlanNodeProjectionRow
  deriving DecidableEq, Repr

/-- The database after the migrations. -/
def Db.empty : Db := ⟨[], [], [], [], [], [], [], []⟩

inductive StoreError
  /-- An error raised by the code, with its message. -/
  | message (text : Text)
  /-- A query that must return a row returned none. -/
  | rowNotFound
  /-- A primary key, unique, foreign key or check constraint refused a row. -/
  | constraintViolated
  /-- A `NULL` was read as a number. -/
  | unexpectedNull
  /-- A `SUM` left the range of integers. -/
  | integerOverflow
  deriving DecidableEq, Repr

/-- A sequence of statements on the goals database. -/
abbrev Tx (A : Type) := Exec Db StoreError A

def bail {A : Type} (message : Text) : Tx A := Exec.fail (.message message)

/-- Require a condition of a value, with the message of its refusal. -/
def ensure (condition : Prop) [Decidable condition] (message : Text) : Tx Unit :=
  if condition then pure () else bail message

/-- A checked value, with the message of its refusal. -/
def ofResult {A : Type} : Except Text A → Tx A
  | .ok a => pure a
  | .error message => bail message

theorem bail_eq_ok {A : Type} {message : Text} {a : A} {db db' : Db} :
    bail message db = (.ok a, db') ↔ False := by
  simp [bail]

/-- The greatest integer of a column. -/
def i64Max : Int := 2 ^ 63 - 1

/-- What `SUM` returns for counts that add up to the total. -/
def sumOrOverflow (total : Int) : Tx Int :=
  if total ≤ i64Max then pure total else Exec.fail .integerOverflow

theorem sumOrOverflow_eq_ok {total sum : Int} {db db' : Db} :
    sumOrOverflow total db = (.ok sum, db') ↔ total ≤ i64Max ∧ total = sum ∧ db = db' := by
  by_cases h : total ≤ i64Max <;> simp [sumOrOverflow, h]

theorem ensure_eq_ok {condition : Prop} [Decidable condition] {message : Text} {u : Unit}
    {db db' : Db} : ensure condition message db = (.ok u, db') ↔ condition ∧ db = db' := by
  by_cases h : condition <;> simp [ensure, h, bail]

theorem ofResult_eq_ok {A : Type} {result : Except Text A} {a : A} {db db' : Db} :
    ofResult result db = (.ok a, db') ↔ result = .ok a ∧ db = db' := by
  cases result <;> simp [ofResult, bail]

/-! ## Statements on the goals -/

/-- `SELECT … FROM thread_goals WHERE thread_id = ?`. -/
def Db.threadGoal? (db : Db) (threadId : ThreadId) : Option ThreadGoal :=
  db.threadGoals.find? fun goal => goal.threadId = threadId

/-- Delete audits, and with each the turns of its thread. -/
def Db.deleteBlockerAudits (p : ThreadGoalBlockerAudit → Bool) (db : Db) : Db :=
  { db with
    blockerAudits := Table.deleteWhere p db.blockerAudits
    blockerAuditTurns := Table.deleteWhere
      (fun turn => db.blockerAudits.any fun audit => p audit && audit.threadId = turn.threadId)
      db.blockerAuditTurns }

/-- The condition of the trigger
`clear_thread_goal_blocker_audit_after_lifecycle_change`. -/
def lifecycleChanged (old new : ThreadGoal) : Bool :=
  old.goalId ≠ new.goalId ∨ old.objective ≠ new.objective ∨ old.title ≠ new.title ∨
    old.tokenBudget ≠ new.tokenBudget ∨
      (old.status ≠ new.status ∧ ¬(old.status = .paused ∧ new.status = .active))

/-- `UPDATE thread_goals`, with the trigger on each updated row. -/
def Db.updateThreadGoals (p : ThreadGoal → Bool) (f : ThreadGoal → ThreadGoal) (db : Db) : Db :=
  Db.deleteBlockerAudits
    (fun audit => db.threadGoals.any fun goal =>
      p goal && lifecycleChanged goal (f goal) && (f goal).threadId = audit.threadId)
    { db with threadGoals := Table.updateWhere p f db.threadGoals }

/-- `DELETE FROM thread_goals`, which deletes the audits of the threads too. -/
def Db.deleteThreadGoals (p : ThreadGoal → Bool) (db : Db) : Db :=
  Db.deleteBlockerAudits
    (fun audit => db.threadGoals.any fun goal => p goal && goal.threadId = audit.threadId)
    { db with threadGoals := Table.deleteWhere p db.threadGoals }

/-- `INSERT INTO thread_goals … ON CONFLICT(thread_id) DO UPDATE`, where every
column is overwritten. -/
def Db.upsertThreadGoal (goal : ThreadGoal) (db : Db) : Db :=
  if (db.threadGoal? goal.threadId).isSome then
    db.updateThreadGoals (fun old => old.threadId = goal.threadId) fun _ => goal
  else { db with threadGoals := db.threadGoals ++ [goal] }

/-! ## Statements on the plans and their nodes -/

def Db.updatePlans (p : ThreadGoalPlan → Bool) (f : ThreadGoalPlan → ThreadGoalPlan) (db : Db) :
    Db :=
  { db with plans := Table.updateWhere p f db.plans }

def Db.updateNodes (p : ThreadGoalPlanNodeRow → Bool)
    (f : ThreadGoalPlanNodeRow → ThreadGoalPlanNodeRow) (db : Db) : Db :=
  { db with nodes := Table.updateWhere p f db.nodes }

/-- `INSERT INTO thread_goal_plans`: the plan id is the primary key. -/
def insertPlan (plan : ThreadGoalPlan) : Tx Unit := do
  let clashes ← Exec.gets fun db => db.plans.any fun other => other.planId = plan.planId
  if clashes then Exec.fail .constraintViolated
  else Exec.modify fun db => { db with plans := db.plans ++ [plan] }

/-- `INSERT INTO thread_goal_plan_nodes`: the node id is the primary key, a key
occurs once in a plan, and the plan must exist. -/
def insertNode (node : ThreadGoalPlanNodeRow) : Tx Unit := do
  let clashes ← Exec.gets fun db => db.nodes.any fun other =>
    other.nodeId = node.nodeId || (other.planId = node.planId && other.key = node.key)
  let planExists ← Exec.gets fun db => db.plans.any fun plan => plan.planId = node.planId
  if clashes = false ∧ planExists then
    Exec.modify fun db => { db with nodes := db.nodes ++ [node] }
  else Exec.fail .constraintViolated

/-- `INSERT INTO thread_goal_plan_dependencies`: a pair occurs once, and both
nodes must exist. -/
def insertDependency (dependency : ThreadGoalPlanDependency) : Tx Unit := do
  let clashes ← Exec.gets fun db => db.dependencies.any fun other => other = dependency
  let nodesExist ← Exec.gets fun db =>
    (db.nodes.any fun node => node.nodeId = dependency.nodeId) &&
      db.nodes.any fun node => node.nodeId = dependency.dependsOnNodeId
  if clashes = false ∧ nodesExist then
    Exec.modify fun db => { db with dependencies := db.dependencies ++ [dependency] }
  else Exec.fail .constraintViolated

def getThreadGoalPlanInTx (planId : Text) : Tx ThreadGoalPlan := do
  match (← Exec.gets fun db => db.plans.find? fun plan => plan.planId = planId) with
  | some plan => pure plan
  | none => Exec.fail .rowNotFound

/-- The rows a node depends on. -/
def Db.dependencyNodes (db : Db) (nodeId : Text) : List ThreadGoalPlanNodeRow :=
  db.nodes.filter fun node =>
    db.dependencies.any fun dependency =>
      dependency.nodeId = nodeId ∧ dependency.dependsOnNodeId = node.nodeId

/-- The order of texts: by code points, from the left. -/
def textLe : Text → Text → Bool
  | [], _ => true
  | _ :: _, [] => false
  | c :: s, d :: t => c.toNat < d.toNat || (c = d && textLe s t)

/-- `ORDER BY dependency_node.sequence, dependency_node.key`. -/
def Db.nodeDependencyKeys (db : Db) (nodeId : Text) : List Text :=
  ((db.dependencyNodes nodeId).insertionSort fun a b =>
    a.sequence < b.sequence ∨ (a.sequence = b.sequence ∧ textLe a.key b.key)).map (·.key)

/-- `ORDER BY sequence, node_id`. -/
def Db.snapshotNodes (db : Db) (planId : Text) : List ThreadGoalPlanNode :=
  (Table.selectOrdered (fun node => node.planId = planId)
    (fun a b => a.sequence < b.sequence ∨ (a.sequence = b.sequence ∧ textLe a.nodeId b.nodeId))
    db.nodes).map fun row => { row with dependsOn := db.nodeDependencyKeys row.nodeId }

def snapshotThreadGoalPlanInTx (planId : Text) : Tx ThreadGoalPlanSnapshot := do
  let plan ← getThreadGoalPlanInTx planId
  let nodes ← Exec.gets fun db => db.snapshotNodes planId
  pure { plan, nodes }

/-! ## The tables after a statement -/

section Tables

variable (db : Db)

@[simp] theorem Db.deleteBlockerAudits_threadGoals (p : ThreadGoalBlockerAudit → Bool) :
    (db.deleteBlockerAudits p).threadGoals = db.threadGoals := rfl

@[simp] theorem Db.deleteBlockerAudits_plans (p : ThreadGoalBlockerAudit → Bool) :
    (db.deleteBlockerAudits p).plans = db.plans := rfl

@[simp] theorem Db.deleteBlockerAudits_nodes (p : ThreadGoalBlockerAudit → Bool) :
    (db.deleteBlockerAudits p).nodes = db.nodes := rfl

@[simp] theorem Db.deleteBlockerAudits_dependencies (p : ThreadGoalBlockerAudit → Bool) :
    (db.deleteBlockerAudits p).dependencies = db.dependencies := rfl

@[simp] theorem Db.deleteBlockerAudits_projections (p : ThreadGoalBlockerAudit → Bool) :
    (db.deleteBlockerAudits p).projections = db.projections := rfl

@[simp] theorem Db.deleteBlockerAudits_nodeProjections (p : ThreadGoalBlockerAudit → Bool) :
    (db.deleteBlockerAudits p).nodeProjections = db.nodeProjections := rfl

@[simp] theorem Db.updateThreadGoals_threadGoals (p : ThreadGoal → Bool)
    (f : ThreadGoal → ThreadGoal) :
    (db.updateThreadGoals p f).threadGoals = Table.updateWhere p f db.threadGoals := rfl

@[simp] theorem Db.updateThreadGoals_plans (p : ThreadGoal → Bool) (f : ThreadGoal → ThreadGoal) :
    (db.updateThreadGoals p f).plans = db.plans := rfl

@[simp] theorem Db.updateThreadGoals_nodes (p : ThreadGoal → Bool) (f : ThreadGoal → ThreadGoal) :
    (db.updateThreadGoals p f).nodes = db.nodes := rfl

@[simp] theorem Db.updateThreadGoals_dependencies (p : ThreadGoal → Bool)
    (f : ThreadGoal → ThreadGoal) :
    (db.updateThreadGoals p f).dependencies = db.dependencies := rfl

@[simp] theorem Db.updateThreadGoals_projections (p : ThreadGoal → Bool)
    (f : ThreadGoal → ThreadGoal) :
    (db.updateThreadGoals p f).projections = db.projections := rfl

@[simp] theorem Db.updateThreadGoals_nodeProjections (p : ThreadGoal → Bool)
    (f : ThreadGoal → ThreadGoal) :
    (db.updateThreadGoals p f).nodeProjections = db.nodeProjections := rfl

@[simp] theorem Db.deleteThreadGoals_threadGoals (p : ThreadGoal → Bool) :
    (db.deleteThreadGoals p).threadGoals = Table.deleteWhere p db.threadGoals := rfl

@[simp] theorem Db.deleteThreadGoals_plans (p : ThreadGoal → Bool) :
    (db.deleteThreadGoals p).plans = db.plans := rfl

@[simp] theorem Db.deleteThreadGoals_nodes (p : ThreadGoal → Bool) :
    (db.deleteThreadGoals p).nodes = db.nodes := rfl

@[simp] theorem Db.deleteThreadGoals_dependencies (p : ThreadGoal → Bool) :
    (db.deleteThreadGoals p).dependencies = db.dependencies := rfl

@[simp] theorem Db.deleteThreadGoals_projections (p : ThreadGoal → Bool) :
    (db.deleteThreadGoals p).projections = db.projections := rfl

@[simp] theorem Db.deleteThreadGoals_nodeProjections (p : ThreadGoal → Bool) :
    (db.deleteThreadGoals p).nodeProjections = db.nodeProjections := rfl

@[simp] theorem Db.upsertThreadGoal_plans (goal : ThreadGoal) :
    (db.upsertThreadGoal goal).plans = db.plans := by
  unfold Db.upsertThreadGoal
  split <;> rfl

@[simp] theorem Db.upsertThreadGoal_nodes (goal : ThreadGoal) :
    (db.upsertThreadGoal goal).nodes = db.nodes := by
  unfold Db.upsertThreadGoal
  split <;> rfl

@[simp] theorem Db.upsertThreadGoal_dependencies (goal : ThreadGoal) :
    (db.upsertThreadGoal goal).dependencies = db.dependencies := by
  unfold Db.upsertThreadGoal
  split <;> rfl

@[simp] theorem Db.upsertThreadGoal_projections (goal : ThreadGoal) :
    (db.upsertThreadGoal goal).projections = db.projections := by
  unfold Db.upsertThreadGoal
  split <;> rfl

@[simp] theorem Db.upsertThreadGoal_nodeProjections (goal : ThreadGoal) :
    (db.upsertThreadGoal goal).nodeProjections = db.nodeProjections := by
  unfold Db.upsertThreadGoal
  split <;> rfl

@[simp] theorem Db.updatePlans_plans (p : ThreadGoalPlan → Bool)
    (f : ThreadGoalPlan → ThreadGoalPlan) :
    (db.updatePlans p f).plans = Table.updateWhere p f db.plans := rfl

@[simp] theorem Db.updatePlans_threadGoals (p : ThreadGoalPlan → Bool)
    (f : ThreadGoalPlan → ThreadGoalPlan) :
    (db.updatePlans p f).threadGoals = db.threadGoals := rfl

@[simp] theorem Db.updatePlans_nodes (p : ThreadGoalPlan → Bool)
    (f : ThreadGoalPlan → ThreadGoalPlan) :
    (db.updatePlans p f).nodes = db.nodes := rfl

@[simp] theorem Db.updatePlans_dependencies (p : ThreadGoalPlan → Bool)
    (f : ThreadGoalPlan → ThreadGoalPlan) :
    (db.updatePlans p f).dependencies = db.dependencies := rfl

@[simp] theorem Db.updatePlans_blockerAudits (p : ThreadGoalPlan → Bool)
    (f : ThreadGoalPlan → ThreadGoalPlan) :
    (db.updatePlans p f).blockerAudits = db.blockerAudits := rfl

@[simp] theorem Db.updatePlans_blockerAuditTurns (p : ThreadGoalPlan → Bool)
    (f : ThreadGoalPlan → ThreadGoalPlan) :
    (db.updatePlans p f).blockerAuditTurns = db.blockerAuditTurns := rfl

@[simp] theorem Db.updatePlans_projections (p : ThreadGoalPlan → Bool)
    (f : ThreadGoalPlan → ThreadGoalPlan) :
    (db.updatePlans p f).projections = db.projections := rfl

@[simp] theorem Db.updatePlans_nodeProjections (p : ThreadGoalPlan → Bool)
    (f : ThreadGoalPlan → ThreadGoalPlan) :
    (db.updatePlans p f).nodeProjections = db.nodeProjections := rfl

@[simp] theorem Db.updateNodes_nodes (p : ThreadGoalPlanNodeRow → Bool)
    (f : ThreadGoalPlanNodeRow → ThreadGoalPlanNodeRow) :
    (db.updateNodes p f).nodes = Table.updateWhere p f db.nodes := rfl

@[simp] theorem Db.updateNodes_threadGoals (p : ThreadGoalPlanNodeRow → Bool)
    (f : ThreadGoalPlanNodeRow → ThreadGoalPlanNodeRow) :
    (db.updateNodes p f).threadGoals = db.threadGoals := rfl

@[simp] theorem Db.updateNodes_plans (p : ThreadGoalPlanNodeRow → Bool)
    (f : ThreadGoalPlanNodeRow → ThreadGoalPlanNodeRow) :
    (db.updateNodes p f).plans = db.plans := rfl

@[simp] theorem Db.updateNodes_dependencies (p : ThreadGoalPlanNodeRow → Bool)
    (f : ThreadGoalPlanNodeRow → ThreadGoalPlanNodeRow) :
    (db.updateNodes p f).dependencies = db.dependencies := rfl

@[simp] theorem Db.updateNodes_blockerAudits (p : ThreadGoalPlanNodeRow → Bool)
    (f : ThreadGoalPlanNodeRow → ThreadGoalPlanNodeRow) :
    (db.updateNodes p f).blockerAudits = db.blockerAudits := rfl

@[simp] theorem Db.updateNodes_blockerAuditTurns (p : ThreadGoalPlanNodeRow → Bool)
    (f : ThreadGoalPlanNodeRow → ThreadGoalPlanNodeRow) :
    (db.updateNodes p f).blockerAuditTurns = db.blockerAuditTurns := rfl

@[simp] theorem Db.updateNodes_projections (p : ThreadGoalPlanNodeRow → Bool)
    (f : ThreadGoalPlanNodeRow → ThreadGoalPlanNodeRow) :
    (db.updateNodes p f).projections = db.projections := rfl

@[simp] theorem Db.updateNodes_nodeProjections (p : ThreadGoalPlanNodeRow → Bool)
    (f : ThreadGoalPlanNodeRow → ThreadGoalPlanNodeRow) :
    (db.updateNodes p f).nodeProjections = db.nodeProjections := rfl

end Tables

end Codewith.GoalStore
