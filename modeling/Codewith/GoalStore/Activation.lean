import Codewith.GoalStore.Operations

/-!
# Runs that return

What a helper of the store has checked when it returns, and the database it then
leaves.  The main one is the activation of a node: the conditions under which a
node becomes the goal of its thread, with the goal and the rows it writes.
-/

namespace Codewith.GoalStore

open Lib

/-! ## Reading and inserting rows -/

theorem getThreadGoalPlanInTx_eq_ok {planId : Text} {plan : ThreadGoalPlan} {db db' : Db} :
    getThreadGoalPlanInTx planId db = (.ok plan, db') ↔
      (db.plans.find? fun plan => plan.planId = planId) = some plan ∧ db = db' := by
  simp only [getThreadGoalPlanInTx, Exec.bind_eq_ok, Exec.gets_eq_ok]
  constructor
  · rintro ⟨found, _, ⟨hfound, rfl⟩, hrun⟩
    cases found with
    | none => exact (Exec.fail_eq_ok.1 hrun).elim
    | some plan' =>
        obtain ⟨rfl, hstate⟩ := Exec.pure_eq_ok.1 hrun
        exact ⟨hfound, hstate⟩
  · rintro ⟨hfound, rfl⟩
    refine ⟨_, db, ⟨rfl, rfl⟩, ?_⟩
    rw [hfound]
    rfl

theorem snapshotThreadGoalPlanInTx_eq_ok {planId : Text} {snapshot : ThreadGoalPlanSnapshot}
    {db db' : Db} :
    snapshotThreadGoalPlanInTx planId db = (.ok snapshot, db') ↔
      (db.plans.find? fun plan => plan.planId = planId) = some snapshot.plan ∧
        snapshot.nodes = db.snapshotNodes planId ∧ db = db' := by
  simp only [snapshotThreadGoalPlanInTx, Exec.bind_eq_ok, getThreadGoalPlanInTx_eq_ok,
    Exec.gets_eq_ok, Exec.pure_eq_ok]
  constructor
  · rintro ⟨plan, _, ⟨hplan, rfl⟩, nodes, _, ⟨rfl, rfl⟩, rfl, rfl⟩
    exact ⟨hplan, rfl, rfl⟩
  · rintro ⟨hplan, hnodes, rfl⟩
    refine ⟨snapshot.plan, db, ⟨hplan, rfl⟩, _, db, ⟨rfl, rfl⟩, ?_, rfl⟩
    rw [← hnodes]

theorem insertPlan_eq_ok {plan : ThreadGoalPlan} {u : Unit} {db db' : Db} :
    insertPlan plan db = (.ok u, db') ↔
      (∀ other ∈ db.plans, other.planId ≠ plan.planId) ∧
        { db with plans := db.plans ++ [plan] } = db' := by
  simp only [insertPlan, Exec.bind_eq_ok, Exec.gets_eq_ok, Exec.ite_run]
  constructor
  · rintro ⟨clashes, _, ⟨rfl, rfl⟩, hrun⟩
    split at hrun
    · exact (Exec.fail_eq_ok.1 hrun).elim
    · next hclash => exact ⟨by simpa using hclash, Exec.modify_eq_ok.1 hrun⟩
  · rintro ⟨hfresh, rfl⟩
    refine ⟨_, db, ⟨rfl, rfl⟩, ?_⟩
    rw [if_neg (by simpa using hfresh)]
    rfl

theorem insertNode_eq_ok {node : ThreadGoalPlanNodeRow} {u : Unit} {db db' : Db} :
    insertNode node db = (.ok u, db') ↔
      (∀ other ∈ db.nodes, other.nodeId ≠ node.nodeId) ∧
        (∀ other ∈ db.nodes, other.planId = node.planId → other.key ≠ node.key) ∧
        (∃ plan ∈ db.plans, plan.planId = node.planId) ∧
        { db with nodes := db.nodes ++ [node] } = db' := by
  have hchecks : ((db.nodes.any fun other => other.nodeId = node.nodeId ||
      (other.planId = node.planId && other.key = node.key)) = false ∧
        (db.plans.any fun plan => plan.planId = node.planId) = true) ↔
      (∀ other ∈ db.nodes, other.nodeId ≠ node.nodeId) ∧
        (∀ other ∈ db.nodes, other.planId = node.planId → other.key ≠ node.key) ∧
        ∃ plan ∈ db.plans, plan.planId = node.planId := by
    simp only [List.any_eq_false, List.any_eq_true, decide_eq_true_eq, Bool.or_eq_true,
      Bool.and_eq_true, not_or, not_and]
    constructor
    · rintro ⟨hfresh, hplan⟩
      exact ⟨fun other ho => (hfresh other ho).1, fun other ho => (hfresh other ho).2, hplan⟩
    · rintro ⟨hid, hkey, hplan⟩
      exact ⟨fun other ho => ⟨hid other ho, hkey other ho⟩, hplan⟩
  simp only [insertNode, Exec.bind_eq_ok, Exec.gets_eq_ok, Exec.ite_run]
  constructor
  · rintro ⟨clashes, _, ⟨rfl, rfl⟩, planExists, _, ⟨rfl, rfl⟩, hrun⟩
    split at hrun
    · next hok =>
        obtain ⟨hid, hkey, hplan⟩ := hchecks.1 hok
        exact ⟨hid, hkey, hplan, Exec.modify_eq_ok.1 hrun⟩
    · exact (Exec.fail_eq_ok.1 hrun).elim
  · rintro ⟨hid, hkey, hplan, rfl⟩
    refine ⟨_, db, ⟨rfl, rfl⟩, _, db, ⟨rfl, rfl⟩, ?_⟩
    rw [if_pos (hchecks.2 ⟨hid, hkey, hplan⟩)]
    rfl

theorem insertDependency_eq_ok {dependency : ThreadGoalPlanDependency} {u : Unit} {db db' : Db} :
    insertDependency dependency db = (.ok u, db') ↔
      dependency ∉ db.dependencies ∧ (∃ node ∈ db.nodes, node.nodeId = dependency.nodeId) ∧
        (∃ node ∈ db.nodes, node.nodeId = dependency.dependsOnNodeId) ∧
        { db with dependencies := db.dependencies ++ [dependency] } = db' := by
  simp only [insertDependency, Exec.bind_eq_ok, Exec.gets_eq_ok, Exec.ite_run]
  constructor
  · rintro ⟨clashes, _, ⟨rfl, rfl⟩, nodesExist, _, ⟨rfl, rfl⟩, hrun⟩
    split at hrun
    · next hok =>
        simp only [List.any_eq_false, List.any_eq_true, decide_eq_true_eq, Bool.and_eq_true]
          at hok
        refine ⟨?_, hok.2.1, hok.2.2, Exec.modify_eq_ok.1 hrun⟩
        intro hmem
        exact hok.1 dependency hmem rfl
    · exact (Exec.fail_eq_ok.1 hrun).elim
  · rintro ⟨hfresh, hnode, hdependency, rfl⟩
    refine ⟨_, db, ⟨rfl, rfl⟩, _, db, ⟨rfl, rfl⟩, ?_⟩
    rw [if_pos]
    · rfl
    · simp only [List.any_eq_false, List.any_eq_true, decide_eq_true_eq, Bool.and_eq_true]
      refine ⟨?_, hnode, hdependency⟩
      rintro other hother rfl
      exact hfresh hother

/-! ## Plan statuses -/

theorem totalPlanTokensInTx_eq_ok {planId : Text} {total : Int} {db db' : Db} :
    totalPlanTokensInTx planId db = (.ok total, db') ↔
      db.totalPlanTokens planId ≤ i64Max ∧ db.totalPlanTokens planId = total ∧ db = db' := by
  simp only [totalPlanTokensInTx, Exec.bind_eq_ok, Exec.gets_eq_ok, sumOrOverflow_eq_ok]
  constructor
  · rintro ⟨_, _, ⟨rfl, rfl⟩, hsum⟩
    exact hsum
  · intro hsum
    exact ⟨_, db, ⟨rfl, rfl⟩, hsum⟩

theorem readyNodeCountIgnoringPlanStatusInTx_eq_ok {planId : Text} {count : Nat} {db db' : Db} :
    readyNodeCountIgnoringPlanStatusInTx planId db = (.ok count, db') ↔
      db.reservedForReadiness planId ≤ i64Max ∧
        db.readyNodeCountIgnoringPlanStatus planId = count ∧ db = db' := by
  simp only [readyNodeCountIgnoringPlanStatusInTx, Exec.bind_eq_ok, Exec.gets_eq_ok,
    sumOrOverflow_eq_ok]
  constructor
  · rintro ⟨_, _, ⟨rfl, rfl⟩, _, _, ⟨hfits, -, rfl⟩, hcount⟩
    exact ⟨hfits, hcount⟩
  · rintro ⟨hfits, hcount⟩
    exact ⟨_, db, ⟨rfl, rfl⟩, _, db, ⟨hfits, rfl, rfl⟩, hcount⟩

theorem recalculateGoalPlanStatusInTx_eq_ok {planId : Text} {nowMs : Int}
    {status : ThreadGoalPlanStatus} {db db' : Db} :
    recalculateGoalPlanStatusInTx planId nowMs db = (.ok status, db') ↔
      (∃ node ∈ db.nodes, node.planId = planId) ∧ db.PlanSumsFit planId ∧
        ∃ plan, (db.plans.find? fun plan => plan.planId = planId) = some plan ∧
          db.recalculatedStatus plan = status ∧
          db.updatePlans (fun plan => plan.planId = planId)
            (fun plan => { plan with status, updatedAtMs := nowMs }) = db' := by
  simp only [recalculateGoalPlanStatusInTx, Exec.bind_eq_ok, Exec.gets_eq_ok, Exec.ite_run]
  constructor
  · rintro ⟨found, _, ⟨rfl, rfl⟩, hrun⟩
    split at hrun
    · next hnode =>
        simp only [Exec.bind_eq_ok, totalPlanTokensInTx_eq_ok,
          readyNodeCountIgnoringPlanStatusInTx_eq_ok, getThreadGoalPlanInTx_eq_ok, Exec.gets_eq_ok,
          Exec.modify_eq_ok, Exec.pure_eq_ok] at hrun
        obtain ⟨_, _, ⟨htotal, -, rfl⟩, _, _, ⟨hreserved, -, rfl⟩, plan, _, ⟨hplan, rfl⟩, _, _,
          ⟨rfl, rfl⟩, _, _, rfl, rfl, rfl⟩ := hrun
        exact ⟨by simpa using hnode, ⟨htotal, hreserved⟩, plan, hplan, rfl, rfl⟩
    · exact (Exec.fail_eq_ok.1 hrun).elim
  · rintro ⟨hnode, hfits, plan, hplan, rfl, rfl⟩
    refine ⟨_, db, ⟨rfl, rfl⟩, ?_⟩
    rw [if_pos (by simpa using hnode)]
    simp only [Exec.bind_eq_ok, totalPlanTokensInTx_eq_ok,
      readyNodeCountIgnoringPlanStatusInTx_eq_ok, getThreadGoalPlanInTx_eq_ok, Exec.gets_eq_ok,
      Exec.modify_eq_ok, Exec.pure_eq_ok]
    exact ⟨_, db, ⟨hfits.total, rfl, rfl⟩, _, db, ⟨hfits.reserved, rfl, rfl⟩, plan, db,
      ⟨hplan, rfl⟩, _, db, ⟨rfl, rfl⟩, (), _, rfl, rfl, rfl⟩

/-! ## Activating a node -/

/-- The goal that an activated node gives its thread. -/
def activatedGoal (redactStateString : Text → Text) (threadId : ThreadId) (goalId : Text)
    (nowMs : Int) (plan : ThreadGoalPlan) (node : ThreadGoalPlanNodeRow) (db : Db) : ThreadGoal :=
  freshThreadGoal threadId goalId (redactStateString node.objective)
    (node.title.map redactStateString) .active
    (effectiveTokenBudget node.tokenBudget
      (plan.maxTokens.map fun maxTokens => max (maxTokens - db.reservedPlanTokens node.planId) 0))
    nowMs

/-- The database once the goal of the node is current and the node points to it. -/
def Db.activated (threadId : ThreadId) (nodeId : Text) (goal : ThreadGoal) (nowMs : Int) (db : Db) :
    Db :=
  ((db.deleteBlockerAudits fun audit => audit.threadId = threadId).upsertThreadGoal
      goal).updateNodes
    (fun node => node.nodeId = nodeId && node.status.activatable) fun node =>
      node.activatedBy goal nowMs

/-- What `activate_node_in_tx` checks before it activates a node of a plan. -/
structure Db.CanActivate (db : Db) (threadId : ThreadId) (nodeId : Text) (plan : ThreadGoalPlan)
    (node : ThreadGoalPlanNodeRow) : Prop where
  idle : ∀ other ∈ db.nodes, other.assignedThreadId = threadId → other.status ≠ .active
  room : ∀ goal, db.threadGoal? threadId = some goal → goal.status.makesRoom = true
  found : (db.nodes.find? fun node => node.nodeId = nodeId &&
    node.assignedThreadId = threadId && node.status.activatable) = some node
  plan : (db.plans.find? fun plan => plan.planId = node.planId) = some plan
  single : Table.countWhere (fun node => node.nodeId = nodeId && node.status.activatable)
    db.nodes = 1

theorem projectNodeInTx_eq_ok {redactStateString : Text → Text} {threadId : ThreadId}
    {node : ThreadGoalPlanNodeRow} {goalId : Text} {nowMs : Int} {goal : ThreadGoal}
    {db db' : Db} :
    projectNodeInTx redactStateString threadId node goalId nowMs db = (.ok goal, db') ↔
      ∃ plan, (db.plans.find? fun plan => plan.planId = node.planId) = some plan ∧
        activatedGoal redactStateString threadId goalId nowMs plan node db = goal ∧
        (db.deleteBlockerAudits fun audit => audit.threadId = threadId).upsertThreadGoal goal =
          db' := by
  simp only [projectNodeInTx, Exec.bind_eq_ok, getThreadGoalPlanInTx_eq_ok, Exec.gets_eq_ok,
    Exec.modify_eq_ok, Exec.pure_eq_ok]
  constructor
  · rintro ⟨plan, _, ⟨hplan, rfl⟩, _, _, ⟨rfl, rfl⟩, _, _, rfl, _, _, rfl, rfl, rfl⟩
    exact ⟨plan, hplan, rfl, rfl⟩
  · rintro ⟨plan, hplan, rfl, rfl⟩
    exact ⟨plan, db, ⟨hplan, rfl⟩, _, db, ⟨rfl, rfl⟩, (), _, rfl, (), _, rfl, rfl, rfl⟩

theorem activateNodeInTx_eq_ok {redactStateString : Text → Text} {threadId : ThreadId}
    {nodeId goalId : Text} {nowMs : Int} {goal : ThreadGoal} {db db' : Db} :
    activateNodeInTx redactStateString threadId nodeId goalId nowMs db = (.ok goal, db') ↔
      ∃ plan node, db.CanActivate threadId nodeId plan node ∧
        activatedGoal redactStateString threadId goalId nowMs plan node db = goal ∧
        db.activated threadId nodeId goal nowMs = db' := by
  simp only [activateNodeInTx, Exec.bind_eq_ok, Exec.gets_eq_ok, ensure_eq_ok]
  constructor
  · rintro ⟨_, _, ⟨rfl, rfl⟩, _, _, ⟨hidle, rfl⟩, _, _, ⟨rfl, rfl⟩, _, _, ⟨hroom, rfl⟩,
      found, _, ⟨hfound, rfl⟩, hrun⟩
    cases found with
    | none => exact (bail_eq_ok.1 hrun).elim
    | some node =>
        simp only [Exec.bind_eq_ok, projectNodeInTx_eq_ok, Exec.gets_eq_ok, Exec.modify_eq_ok,
          ensure_eq_ok, Exec.pure_eq_ok] at hrun
        obtain ⟨_, _, ⟨plan, hplan, rfl, rfl⟩, _, _, ⟨rfl, rfl⟩, _, _, rfl, _, _, ⟨hsingle, rfl⟩,
          rfl, rfl⟩ := hrun
        refine ⟨plan, node, ⟨?_, ?_, hfound, hplan, by simpa using hsingle⟩, rfl, rfl⟩
        · intro other hother hthread hactive
          simp only [List.any_eq_false, Bool.and_eq_true, decide_eq_true_eq, not_and] at hidle
          exact hidle other hother hthread hactive
        · intro current hcurrent
          rw [hcurrent] at hroom
          simpa using hroom
  · rintro ⟨plan, node, hcan, rfl, rfl⟩
    refine ⟨_, db, ⟨rfl, rfl⟩, (), db, ⟨?_, rfl⟩, _, db, ⟨rfl, rfl⟩, (), db, ⟨?_, rfl⟩, _, db,
      ⟨hcan.found, rfl⟩, ?_⟩
    · simp only [List.any_eq_false, Bool.and_eq_true, decide_eq_true_eq, not_and]
      exact hcan.idle
    · cases hcurrent : db.threadGoal? threadId with
      | none => rfl
      | some current => simpa using hcan.room current hcurrent
    · simp only [Exec.bind_eq_ok, projectNodeInTx_eq_ok, Exec.gets_eq_ok, Exec.modify_eq_ok,
        ensure_eq_ok, Exec.pure_eq_ok]
      exact ⟨_, _, ⟨plan, hcan.plan, rfl, rfl⟩, _, _, ⟨rfl, rfl⟩, (), _, rfl, (), _,
        ⟨by simpa using hcan.single, rfl⟩, rfl, rfl⟩

theorem activateNextReadyNodeInTx_eq_ok {redactStateString : Text → Text} {threadId : ThreadId}
    {planId goalId : Text} {autoExecute : ThreadGoalPlanAutoExecute} {nowMs : Int}
    {activated : Option ThreadGoal} {db db' : Db} :
    activateNextReadyNodeInTx redactStateString threadId planId autoExecute goalId nowMs db =
        (.ok activated, db') ↔
      (db.nextReadyNode threadId planId autoExecute = none ∧ activated = none ∧ db = db') ∨
        ∃ next, db.nextReadyNode threadId planId autoExecute = some next ∧
          ∃ goal, activated = some goal ∧
            activateNodeInTx redactStateString threadId next.nodeId goalId nowMs db =
              (.ok goal, db') := by
  simp only [activateNextReadyNodeInTx, Exec.bind_eq_ok, Exec.gets_eq_ok]
  constructor
  · rintro ⟨found, _, ⟨hfound, rfl⟩, hrun⟩
    cases found with
    | none =>
        obtain ⟨rfl, rfl⟩ := Exec.pure_eq_ok.1 hrun
        exact .inl ⟨hfound, rfl, rfl⟩
    | some next =>
        simp only [Exec.bind_eq_ok, Exec.pure_eq_ok] at hrun
        obtain ⟨goal, _, hactivate, rfl, rfl⟩ := hrun
        exact .inr ⟨next, hfound, goal, rfl, hactivate⟩
  · rintro (⟨hnone, rfl, rfl⟩ | ⟨next, hnext, goal, rfl, hactivate⟩)
    · refine ⟨_, db, ⟨rfl, rfl⟩, ?_⟩
      rw [hnone]
      rfl
    · refine ⟨_, db, ⟨rfl, rfl⟩, ?_⟩
      rw [hnext]
      simp only [Exec.bind_eq_ok, Exec.pure_eq_ok]
      exact ⟨goal, db', hactivate, rfl, rfl⟩

end Codewith.GoalStore
