import Codewith.GoalStore.Schema

/-!
# Readiness of nodes and the status of a plan

The queries of `goal_plans.rs` that read the nodes of a plan: what they have
spent and reserved, which of them can be activated, and the plan status that
follows from their statuses.
-/

namespace Codewith.GoalStore

open Lib

/-- The statuses of a node that holds on to its budget. -/
def ThreadGoalPlanNodeStatus.reserves (status : ThreadGoalPlanNodeStatus) : Bool :=
  status = .active ∨ status = .paused ∨ status = .blocked ∨ status = .usageLimited

def ThreadGoalPlanNodeRow.reservedTokens (node : ThreadGoalPlanNodeRow) : Int :=
  match node.tokenBudget with
  | some budget =>
      if node.status.reserves ∧ node.tokensUsed < budget then budget else node.tokensUsed
  | none => node.tokensUsed

def Db.reservedPlanTokens (db : Db) (planId : Text) : Int :=
  Table.sumWhere (fun node => node.planId = planId) (·.reservedTokens) db.nodes

def Db.totalPlanTokens (db : Db) (planId : Text) : Int :=
  Table.sumWhere (fun node => node.planId = planId) (·.tokensUsed) db.nodes

/-- No dependency of the node is in another status than `complete`. -/
def Db.dependenciesComplete (db : Db) (nodeId : Text) : Bool :=
  (db.dependencyNodes nodeId).all fun node => node.status = .complete

def Db.planHasTokensLeft (db : Db) (plan : ThreadGoalPlan) : Bool :=
  match plan.maxTokens with
  | none => true
  | some maxTokens => db.reservedPlanTokens plan.planId < maxTokens

/-- The part that the readiness queries share. -/
def Db.isStartable (db : Db) (planStatusOk : ThreadGoalPlanStatus → Bool)
    (candidate : ThreadGoalPlanNodeRow) : Bool :=
  (db.plans.any fun plan =>
    plan.planId = candidate.planId && planStatusOk plan.status && db.planHasTokensLeft plan) &&
      db.dependenciesComplete candidate.nodeId

/-- `ORDER BY candidate.priority DESC, candidate.sequence ASC, candidate.node_id ASC`. -/
def activationOrder (a b : ThreadGoalPlanNodeRow) : Prop :=
  b.priority < a.priority ∨ (a.priority = b.priority ∧
    (a.sequence < b.sequence ∨ (a.sequence = b.sequence ∧ textLe a.nodeId b.nodeId)))

instance : DecidableRel activationOrder := fun _ _ =>
  inferInstanceAs (Decidable (_ ∨ (_ ∧ (_ ∨ (_ ∧ _)))))

def Db.readyPlanNodes (db : Db) (planId : Text) : List ThreadGoalPlanNodeRow :=
  Table.selectOrdered
    (fun candidate => candidate.planId = planId && candidate.status = .pending &&
      db.isStartable (fun status => status = .active) candidate)
    activationOrder db.nodes

/-- The plan of a node that may be activated by name, pending or deferred. -/
def Db.readyNodePlanId (db : Db) (threadId : ThreadId) (nodeId : Text) : Option Text :=
  (db.nodes.find? fun candidate =>
    candidate.assignedThreadId = threadId && candidate.nodeId = nodeId &&
      (candidate.status = .pending || candidate.status = .deferred) &&
      db.isStartable (fun status => status = .active) candidate).map (·.planId)

/-- The plan and the id of the deferred node to resume: the named one, or the
first in the order of activation.  Unlike `readyNodePlanId`, neither the
dependencies nor the tokens of the plan are looked at. -/
def Db.resumableDeferredNode (db : Db) (threadId : ThreadId) (nodeId : Option Text) :
    Option (Text × Text) :=
  let candidates := db.nodes.filter fun candidate =>
    candidate.assignedThreadId = threadId && candidate.status = .deferred &&
      db.plans.any fun plan => plan.planId = candidate.planId && plan.status = .active
  match nodeId with
  | some nodeId =>
      (candidates.find? fun candidate => candidate.nodeId = nodeId).map fun candidate =>
        (candidate.planId, candidate.nodeId)
  | none =>
      (candidates.insertionSort activationOrder).head?.map fun candidate =>
        (candidate.planId, candidate.nodeId)

def Db.readyNodeCountIgnoringPlanStatus (db : Db) (planId : Text) : Nat :=
  Table.countWhere
    (fun candidate => candidate.planId = planId && candidate.status = .pending &&
      db.isStartable (fun _ => true) candidate)
    db.nodes

/-- The nodes of the plan in the given status. -/
def Db.statusCount (db : Db) (planId : Text) (status : ThreadGoalPlanNodeStatus) : Nat :=
  Table.countWhere (fun node => node.planId = planId && node.status = status) db.nodes

/-- The status that `recalculate_goal_plan_status_in_tx` gives a plan. -/
def Db.recalculatedStatus (db : Db) (plan : ThreadGoalPlan) : ThreadGoalPlanStatus :=
  let nodeCount := Table.countWhere (fun node => node.planId = plan.planId) db.nodes
  let count := db.statusCount plan.planId
  if 0 < nodeCount ∧ count .complete = nodeCount then .complete
  else if 0 < nodeCount ∧ 0 < count .cancelled ∧
      count .complete + count .cancelled = nodeCount then .cancelled
  else if plan.maxTokens.any fun maxTokens => maxTokens ≤ db.totalPlanTokens plan.planId then
    .budgetLimited
  else if 0 < count .active ∨ 0 < db.readyNodeCountIgnoringPlanStatus plan.planId then .active
  else if 0 < count .pending ∧ 0 < count .paused then .paused
  else if 0 < count .pending ∧
      (0 < count .blocked ∨ 0 < count .usageLimited ∨ 0 < count .cancelled) then .blocked
  else if 0 < count .pending ∧ 0 < count .budgetLimited then .budgetLimited
  else if 0 < count .pending then .active
  else if 0 < count .paused then .paused
  else if 0 < count .blocked ∨ 0 < count .usageLimited ∨ 0 < count .cancelled then .blocked
  else if 0 < count .budgetLimited then .budgetLimited
  else .active

section RecalculatedStatus

variable {db : Db} {plan : ThreadGoalPlan}

theorem Db.statusCount_eq (planId : Text) (status : ThreadGoalPlanNodeStatus) :
    db.statusCount planId status = Table.countWhere (fun node => node.status = status)
      (db.nodes.filter fun node => node.planId = planId) :=
  Table.countWhere_and _ _ _

theorem Db.statusCount_complete_eq_iff {planId : Text} :
    db.statusCount planId .complete = Table.countWhere (fun node => node.planId = planId) db.nodes ↔
      ∀ node ∈ db.nodes, node.planId = planId → node.status = .complete := by
  rw [Db.statusCount_eq, Table.countWhere, Table.countWhere,
    List.countP_eq_length_filter (l := db.nodes), List.countP_eq_length]
  simp

theorem Db.statusCount_settled_eq_iff {planId : Text} :
    db.statusCount planId .complete + db.statusCount planId .cancelled =
        Table.countWhere (fun node => node.planId = planId) db.nodes ↔
      ∀ node ∈ db.nodes, node.planId = planId →
        node.status = .complete ∨ node.status = .cancelled := by
  rw [Db.statusCount_eq, Db.statusCount_eq, Table.countWhere_add, Table.countWhere,
    Table.countWhere, List.countP_eq_length_filter (l := db.nodes), List.countP_eq_length]
  · simp
  · intro node hcomplete
    simp [of_decide_eq_true hcomplete]

theorem Db.statusCount_pos {planId : Text} {status : ThreadGoalPlanNodeStatus} :
    0 < db.statusCount planId status ↔
      ∃ node ∈ db.nodes, node.planId = planId ∧ node.status = status := by
  rw [Db.statusCount, Table.countWhere_pos]
  simp

theorem Db.planNodeCount_pos {planId : Text} :
    0 < Table.countWhere (fun node : ThreadGoalPlanNodeRow => node.planId = planId) db.nodes ↔
      ∃ node ∈ db.nodes, node.planId = planId := by
  rw [Table.countWhere_pos]
  simp

/-- The rules for a plan that still has a node to work on. -/
def Db.openPlanStatus (db : Db) (plan : ThreadGoalPlan) : ThreadGoalPlanStatus :=
  let count := db.statusCount plan.planId
  if plan.maxTokens.any fun maxTokens => maxTokens ≤ db.totalPlanTokens plan.planId then
    .budgetLimited
  else if 0 < count .active ∨ 0 < db.readyNodeCountIgnoringPlanStatus plan.planId then .active
  else if 0 < count .pending ∧ 0 < count .paused then .paused
  else if 0 < count .pending ∧
      (0 < count .blocked ∨ 0 < count .usageLimited ∨ 0 < count .cancelled) then .blocked
  else if 0 < count .pending ∧ 0 < count .budgetLimited then .budgetLimited
  else if 0 < count .pending then .active
  else if 0 < count .paused then .paused
  else if 0 < count .blocked ∨ 0 < count .usageLimited ∨ 0 < count .cancelled then .blocked
  else if 0 < count .budgetLimited then .budgetLimited
  else .active

theorem Db.openPlanStatus_ne : db.openPlanStatus plan ≠ .complete ∧
    db.openPlanStatus plan ≠ .cancelled := by
  let open? := fun status : ThreadGoalPlanStatus => status ≠ .complete ∧ status ≠ .cancelled
  unfold Db.openPlanStatus
  repeat refine iteInduction (motive := open?) (fun _ => by decide) fun _ => ?_
  decide

/-- The plan has nodes, and all of them are complete. -/
def Db.AllComplete (db : Db) (planId : Text) : Prop :=
  (∃ node ∈ db.nodes, node.planId = planId) ∧
    ∀ node ∈ db.nodes, node.planId = planId → node.status = .complete

/-- Every node of the plan is complete or cancelled, and one is cancelled. -/
def Db.AllSettled (db : Db) (planId : Text) : Prop :=
  (∃ node ∈ db.nodes, node.planId = planId ∧ node.status = .cancelled) ∧
    ∀ node ∈ db.nodes, node.planId = planId → node.status = .complete ∨ node.status = .cancelled

theorem Db.AllSettled.not_allComplete {planId : Text} (h : db.AllSettled planId) :
    ¬db.AllComplete planId := by
  rintro ⟨-, hcomplete⟩
  obtain ⟨⟨node, hnode, hplan, hcancelled⟩, -⟩ := h
  rw [hcomplete node hnode hplan] at hcancelled
  cases hcancelled

theorem Db.recalculatedStatus_cases (db : Db) (plan : ThreadGoalPlan) :
    (db.AllComplete plan.planId ∧ db.recalculatedStatus plan = .complete) ∨
      (db.AllSettled plan.planId ∧ db.recalculatedStatus plan = .cancelled) ∨
      (¬db.AllComplete plan.planId ∧ ¬db.AllSettled plan.planId ∧
        db.recalculatedStatus plan = db.openPlanStatus plan) := by
  have hrules : db.recalculatedStatus plan =
      if 0 < Table.countWhere (fun node : ThreadGoalPlanNodeRow => node.planId = plan.planId)
          db.nodes ∧ db.statusCount plan.planId .complete =
            Table.countWhere (fun node => node.planId = plan.planId) db.nodes then .complete
      else if 0 < Table.countWhere (fun node : ThreadGoalPlanNodeRow => node.planId = plan.planId)
          db.nodes ∧ 0 < db.statusCount plan.planId .cancelled ∧
            db.statusCount plan.planId .complete + db.statusCount plan.planId .cancelled =
              Table.countWhere (fun node => node.planId = plan.planId) db.nodes then .cancelled
      else db.openPlanStatus plan := rfl
  rw [hrules]
  split
  · next hcomplete =>
      rw [Db.planNodeCount_pos, Db.statusCount_complete_eq_iff] at hcomplete
      exact .inl ⟨hcomplete, rfl⟩
  · next hcomplete =>
      rw [Db.planNodeCount_pos, Db.statusCount_complete_eq_iff] at hcomplete
      right
      split
      · next hcancelled =>
          rw [Db.planNodeCount_pos, Db.statusCount_settled_eq_iff, Db.statusCount_pos] at hcancelled
          exact .inl ⟨hcancelled.2, rfl⟩
      · next hcancelled =>
          rw [Db.planNodeCount_pos, Db.statusCount_settled_eq_iff, Db.statusCount_pos] at hcancelled
          refine .inr ⟨hcomplete, ?_, rfl⟩
          rintro ⟨⟨node, hnode, hplan, hstatus⟩, hsettled⟩
          exact hcancelled ⟨⟨node, hnode, hplan⟩, ⟨node, hnode, hplan, hstatus⟩, hsettled⟩

theorem Db.recalculatedStatus_eq_complete_iff :
    db.recalculatedStatus plan = .complete ↔ db.AllComplete plan.planId := by
  rcases db.recalculatedStatus_cases plan with
    ⟨hcomplete, hstatus⟩ | ⟨hsettled, hstatus⟩ | ⟨hcomplete, -, hstatus⟩
  · simp [hcomplete, hstatus]
  · simp [hsettled.not_allComplete, hstatus]
  · simp [hcomplete, hstatus, Db.openPlanStatus_ne.1]

theorem Db.recalculatedStatus_eq_cancelled_iff :
    db.recalculatedStatus plan = .cancelled ↔ db.AllSettled plan.planId := by
  rcases db.recalculatedStatus_cases plan with
    ⟨hcomplete, hstatus⟩ | ⟨hsettled, hstatus⟩ | ⟨-, hsettled, hstatus⟩
  · rw [hstatus]
    constructor
    · intro h
      cases h
    · intro hsettled
      exact absurd hcomplete hsettled.not_allComplete
  · simp [hsettled, hstatus]
  · simp [hsettled, hstatus, Db.openPlanStatus_ne.2]

end RecalculatedStatus

def totalPlanTokensInTx (planId : Text) : Tx Int := do
  let total ← Exec.gets fun db => db.totalPlanTokens planId
  sumOrOverflow total

/-- The readiness query adds up what the plan has reserved once for each pending node, unless the
plan has no limit. -/
def Db.reservedForReadiness (db : Db) (planId : Text) : Int :=
  if (db.nodes.any fun node => node.planId = planId && node.status = .pending) &&
      db.plans.any fun plan => plan.planId = planId && plan.maxTokens.isSome then
    db.reservedPlanTokens planId
  else 0

def readyNodeCountIgnoringPlanStatusInTx (planId : Text) : Tx Nat := do
  let reserved ← Exec.gets fun db => db.reservedForReadiness planId
  let _ ← sumOrOverflow reserved
  Exec.gets fun db => db.readyNodeCountIgnoringPlanStatus planId

/-- A plan without nodes has no counts: the sums are `NULL`. -/
def recalculateGoalPlanStatusInTx (planId : Text) (nowMs : Int) : Tx ThreadGoalPlanStatus := do
  if (← Exec.gets fun db => db.nodes.any fun node => node.planId = planId) then
    let _ ← totalPlanTokensInTx planId
    let _ ← readyNodeCountIgnoringPlanStatusInTx planId
    let plan ← getThreadGoalPlanInTx planId
    let status ← Exec.gets fun db => db.recalculatedStatus plan
    Exec.modify (Db.updatePlans (fun plan => plan.planId = planId) fun plan =>
      { plan with status, updatedAtMs := nowMs })
    pure status
  else Exec.fail .unexpectedNull

/-- The sums over the nodes of the plan are integers. -/
structure Db.PlanSumsFit (db : Db) (planId : Text) : Prop where
  total : db.totalPlanTokens planId ≤ i64Max
  reserved : db.reservedForReadiness planId ≤ i64Max

/-- Once the tokens of the plan are spent, its pending nodes are budget limited. -/
def markPendingNodesBudgetLimitedIfPlanSpentInTx (planId : Text) (nowMs : Int) : Tx Bool := do
  let plan ← getThreadGoalPlanInTx planId
  match plan.maxTokens with
  | none => pure false
  | some maxTokens =>
      if (← totalPlanTokensInTx planId) < maxTokens then pure false
      else
        Exec.modify (Db.updateNodes
          (fun node => node.planId = planId && node.status = .pending) fun node =>
            { node with status := .budgetLimited, updatedAtMs := nowMs })
        pure true

/-- Recalculate plans one after the other, and return what they then look like. -/
def recalculateGoalPlans (nowMs : Int) : List Text → Tx (List ThreadGoalPlanSnapshot)
  | [] => pure []
  | planId :: planIds => do
      let _ ← recalculateGoalPlanStatusInTx planId nowMs
      let snapshot ← snapshotThreadGoalPlanInTx planId
      let snapshots ← recalculateGoalPlans nowMs planIds
      pure (snapshot :: snapshots)

end Codewith.GoalStore
