import Codewith.GoalStore.PauseResume
import Codewith.GoalStore.Integrity

/-!
# Nodes that become active are ready

An operation activates the node that it picks.  Creating a plan, moving on from a
completed or deferred node, and activating by name pick a node whose dependencies
are complete; resuming a deferred node does not look at them.
-/

namespace Codewith.GoalStore

open Lib

variable {redactStateString : Text → Text} {db db' stage : Db} {threadId : ThreadId}
  {nodeId goalId : Text} {nowMs : Int}

theorem Db.dependenciesComplete_iff : db.dependenciesComplete nodeId = true ↔
    ∀ dependency ∈ db.dependencies, dependency.nodeId = nodeId → ∀ node ∈ db.nodes,
      dependency.dependsOnNodeId = node.nodeId → node.status = .complete := by
  simp only [Db.dependenciesComplete, Db.dependencyNodes, List.all_eq_true, List.mem_filter,
    List.any_eq_true, decide_eq_true_eq]
  constructor
  · intro h dependency hdependency hid node hnode hdependsOn
    exact h node ⟨hnode, dependency, hdependency, hid, hdependsOn⟩
  · rintro h node ⟨hnode, dependency, hdependency, hid, hdependsOn⟩
    exact h dependency hdependency hid node hnode hdependsOn

/-! ## When a node can be activated -/

/-- The thread has no active node, and its goal makes room for the next. -/
def Db.threadIsFree (db : Db) (threadId : ThreadId) : Bool :=
  (db.nodes.all fun node => node.assignedThreadId ≠ threadId || node.status ≠ .active) &&
    (db.threadGoal? threadId).all fun goal => goal.status.makesRoom

/-- What the goal of the node would have to spend. -/
def Db.activationBudget (db : Db) (plan : ThreadGoalPlan) (node : ThreadGoalPlanNodeRow) :
    Option Int :=
  effectiveTokenBudget node.tokenBudget
    (plan.maxTokens.map fun maxTokens => max (maxTokens - db.reservedPlanTokens node.planId) 0)

theorem Db.threadIsFree_iff : db.threadIsFree threadId = true ↔
    (∀ node ∈ db.nodes, node.assignedThreadId = threadId → node.status ≠ .active) ∧
      ∀ goal, db.threadGoal? threadId = some goal → goal.status.makesRoom = true := by
  simp only [Db.threadIsFree, Bool.and_eq_true, List.all_eq_true, Bool.or_eq_true,
    decide_eq_true_eq, Option.all_eq_true]
  constructor
  · rintro ⟨hidle, hroom⟩
    refine ⟨?_, hroom⟩
    intro node hnode hassigned
    exact (hidle node hnode).resolve_left (not_not.2 hassigned)
  · rintro ⟨hidle, hroom⟩
    refine ⟨?_, hroom⟩
    intro node hnode
    exact (em (node.assignedThreadId = threadId)).symm.imp_right (hidle node hnode)

theorem Db.Integrity.countWhere_eq_one (hdb : db.Integrity) {node : ThreadGoalPlanNodeRow}
    (hnode : node ∈ db.nodes) {p : ThreadGoalPlanNodeRow → Bool}
    (hp : ∀ row ∈ db.nodes, p row = true ↔ row = node) : Table.countWhere p db.nodes = 1 := by
  have hcount : Table.countWhere p db.nodes = db.nodes.count node := by
    rw [Table.countWhere, List.count]
    apply List.countP_congr
    intro row hrow
    rw [hp row hrow, beq_iff_eq]
  rw [hcount]
  exact List.count_eq_one_of_mem hdb.nodes.of_map hnode

/-- A pending or deferred node of a free thread can be activated. -/
theorem Db.Integrity.canActivate_iff (hdb : db.Integrity) {plan : ThreadGoalPlan}
    {node : ThreadGoalPlanNodeRow} (hnode : node ∈ db.nodes) (hplan : plan ∈ db.plans)
    (hid : plan.planId = node.planId) (hassigned : node.assignedThreadId = threadId)
    (hstatus : node.status.activatable = true) :
    db.CanActivate threadId node.nodeId plan node ↔ db.threadIsFree threadId = true := by
  rw [Db.threadIsFree_iff]
  constructor
  · intro hcan
    exact ⟨hcan.idle, hcan.room⟩
  · rintro ⟨hidle, hroom⟩
    have hsame : ∀ row ∈ db.nodes,
        (row.nodeId = node.nodeId && row.status.activatable) = true ↔ row = node := by
      intro row hrow
      rw [Bool.and_eq_true, decide_eq_true_eq]
      constructor
      · rintro ⟨hrowId, -⟩
        exact hdb.eq_of_nodeId hrow hnode hrowId
      · rintro rfl
        exact ⟨rfl, hstatus⟩
    refine ⟨hidle, hroom, ?_, hdb.findPlan_eq hplan hid, hdb.countWhere_eq_one hnode hsame⟩
    apply Table.find?_eq_some_of_unique hnode
    · simp [hassigned, hstatus]
    · intro other hother hmatch
      simp only [Bool.and_eq_true, decide_eq_true_eq] at hmatch
      exact hdb.eq_of_nodeId hother hnode hmatch.1.1

/-! ## What an activation does to the other nodes -/

/-- Every active node was active before. -/
def Db.NoneActivated (db db' : Db) : Prop :=
  ∀ node ∈ db'.nodes, node.status = .active → ∃ old ∈ db.nodes, old.nodeId = node.nodeId ∧
    old.status = .active

/-- Every node that has become active has its dependencies complete. -/
def Db.ActivatesReady (db db' : Db) : Prop :=
  ∀ node ∈ db'.nodes, node.status = .active →
    (∀ old ∈ db.nodes, old.nodeId = node.nodeId → old.status ≠ .active) →
      db'.dependenciesComplete node.nodeId = true

theorem Db.NoneActivated.trans {db₁ : Db} (h : db.NoneActivated db₁) (h' : db₁.NoneActivated db') :
    db.NoneActivated db' := by
  intro node hnode hactive
  obtain ⟨mid, hmid, hmidId, hmidActive⟩ := h' node hnode hactive
  obtain ⟨old, hold, holdId, holdActive⟩ := h mid hmid hmidActive
  exact ⟨old, hold, holdId.trans hmidId, holdActive⟩

theorem Db.NoneActivated.updateNodes {p : ThreadGoalPlanNodeRow → Bool}
    {f : ThreadGoalPlanNodeRow → ThreadGoalPlanNodeRow}
    (hf : ∀ node, (f node).nodeId = node.nodeId ∧
      ((f node).status = .active → node.status = .active)) :
    db.NoneActivated (db.updateNodes p f) := by
  intro node hnode hactive
  rcases Table.mem_updateWhere.1 hnode with ⟨old, hold, -, rfl⟩ | ⟨hold, -⟩
  · exact ⟨old, hold, (hf old).1.symm, (hf old).2 hactive⟩
  · exact ⟨node, hold, rfl, hactive⟩

theorem Db.NoneActivated.ready (h : db.NoneActivated db') : db.ActivatesReady db' := by
  intro node hnode hactive hnew
  obtain ⟨old, hold, hid, holdActive⟩ := h node hnode hactive
  exact absurd holdActive (hnew old hold hid)

/-- The kinds of changes that can make a node active. -/
def Kind.activates : Kind → Bool
  | .nodeConvert => true
  | .nodeResume => true
  | .nodeSync => true
  | _ => false

theorem Change.noneActivated {kind : Kind} (hkind : kind.activates = false)
    (h : Change kind db db') : db.NoneActivated db' := by
  have hrefl : ∀ mid : Db, mid.nodes = db.nodes → db.NoneActivated mid := by
    intro mid hmid node hnode hactive
    rw [hmid] at hnode
    exact ⟨node, hnode, rfl, hactive⟩
  cases h with
  | planDelete =>
      intro node hnode hactive
      exact ⟨node, (Table.mem_deleteWhere.1 hnode).1, rfl, hactive⟩
  | nodeInsert _ hstatus =>
      intro node hnode hactive
      rcases List.mem_append.1 hnode with hold | hnew
      · exact ⟨node, hold, rfl, hactive⟩
      · rw [List.mem_singleton.1 hnew, hstatus] at hactive
        cases hactive
  | nodeStatus hstatus => exact .updateNodes fun _ => ⟨rfl, fun hactive => absurd hactive hstatus⟩
  | nodeRecord hstatus => exact .updateNodes fun _ => ⟨rfl, fun hactive => absurd hactive hstatus⟩
  | nodeRequeue => exact .updateNodes fun _ => ⟨rfl, nofun⟩
  | nodeCancel => exact .updateNodes fun _ => ⟨rfl, nofun⟩
  | nodeEdit =>
      apply Db.NoneActivated.updateNodes
      intro node
      exact ⟨rfl, id⟩
  | nodeShift =>
      apply Db.NoneActivated.updateNodes
      intro node
      exact ⟨rfl, id⟩
  | nodeNest =>
      apply Db.NoneActivated.updateNodes
      intro node
      exact ⟨rfl, id⟩
  | @nodeComplete node _ nowMs =>
      intro row hrow hactive
      rcases Table.mem_updateWhere.1 hrow with ⟨old, -, -, rfl⟩ | ⟨hold, -⟩
      · cases hactive
      · exact ⟨row, hold, rfl, hactive⟩
  | nodeUndo =>
      intro row hrow hactive
      rcases Table.mem_updateWhere.1 hrow with ⟨old, -, -, rfl⟩ | ⟨hold, -⟩
      · cases hactive
      · exact ⟨row, hold, rfl, hactive⟩
  | nodeConvert => cases hkind
  | nodeResume => cases hkind
  | nodeSync => cases hkind
  | _ => exact hrefl _ rfl

theorem Changes.noneActivated {kinds : List Kind} (hkinds : ∀ kind ∈ kinds, kind.activates = false)
    (h : Changes kinds db db') : db.NoneActivated db' := by
  apply h.invariant (J := fun mid => db.NoneActivated mid)
  · intro kind hkind a b hchange ha
    exact ha.trans (hchange.noneActivated (hkinds kind hkind))
  · intro node hnode hactive
    exact ⟨node, hnode, rfl, hactive⟩

theorem Db.activated_nodes {goal : ThreadGoal} :
    (db.activated threadId nodeId goal nowMs).nodes = Table.updateWhere
      (fun node => node.nodeId = nodeId && node.status.activatable)
      (fun node => node.activatedBy goal nowMs) db.nodes := by
  simp [Db.activated]

theorem Db.activated_dependencies {goal : ThreadGoal} :
    (db.activated threadId nodeId goal nowMs).dependencies = db.dependencies := by
  simp [Db.activated]

theorem Db.dependenciesComplete_congr (hnodes : db'.nodes = db.nodes)
    (hdependencies : db'.dependencies = db.dependencies) :
    db'.dependenciesComplete nodeId = db.dependenciesComplete nodeId := by
  simp only [Db.dependenciesComplete, Db.dependencyNodes, hnodes, hdependencies]

/-- A node that is activated was no complete dependency, and is none afterwards. -/
theorem Db.dependenciesComplete_activated {goal : ThreadGoal} (hgoal : goal.status ≠ .complete)
    (id : Text) : (db.activated threadId nodeId goal nowMs).dependenciesComplete id = true ↔
      db.dependenciesComplete id = true := by
  have hupdated : (ThreadGoalStatus.toNodeStatus goal.status) ≠ .complete := by
    cases hstatus : goal.status <;> simp_all [ThreadGoalStatus.toNodeStatus]
  simp only [Db.dependenciesComplete_iff, Db.activated_dependencies, Db.activated_nodes]
  constructor
  · intro h dependency hdependency hid node hnode hdependsOn
    cases hmatch : (node.nodeId = nodeId && node.status.activatable : Bool) with
    | false =>
        exact h dependency hdependency hid node (Table.mem_updateWhere.2 (.inr ⟨hnode, hmatch⟩))
          hdependsOn
    | true =>
        have hcomplete := h dependency hdependency hid (node.activatedBy goal nowMs)
          (Table.mem_updateWhere.2 (.inl ⟨node, hnode, hmatch, rfl⟩)) hdependsOn
        exact absurd hcomplete hupdated
  · intro h dependency hdependency hid node hnode hdependsOn
    rcases Table.mem_updateWhere.1 hnode with ⟨old, hold, hmatch, rfl⟩ | ⟨hold, -⟩
    · have hcomplete := h dependency hdependency hid old hold hdependsOn
      simp [hcomplete, ThreadGoalPlanNodeStatus.activatable] at hmatch
    · exact h dependency hdependency hid node hold hdependsOn

theorem activatedGoal_status {plan : ThreadGoalPlan} {node : ThreadGoalPlanNodeRow} :
    (activatedGoal redactStateString threadId goalId nowMs plan node db).status =
      if budgetReached 0 (db.activationBudget plan node) then .budgetLimited else .active := by
  unfold activatedGoal freshThreadGoal statusAfterBudgetLimit Db.activationBudget
  simp

/-- From a stage at which nothing has become active, only the picked node becomes
active. -/
theorem GoesOn.activatesReady {pick : Option Text} (hstage : db.NoneActivated stage)
    (hpick : ∀ nodeId plan node, pick = some nodeId → stage.CanActivate threadId nodeId plan node →
      budgetReached 0 (stage.activationBudget plan node) = false →
        stage.dependenciesComplete nodeId = true)
    (h : GoesOn [.plan] redactStateString threadId goalId nowMs pick stage db') :
    db.ActivatesReady db' := by
  obtain ⟨after, hactivate, hrest⟩ := h
  obtain ⟨-, hnodes, hdependencies⟩ := hrest.of_plan
  rcases hactivate with rfl | ⟨nodeId, goal, hnodeId, hactivate⟩
  · apply Db.NoneActivated.ready
    intro node hnode hactive
    rw [hnodes] at hnode
    exact hstage node hnode hactive
  obtain ⟨plan, picked, hcan, rfl, rfl⟩ := activateNodeInTx_eq_ok.1 hactivate
  intro node hnode hactive hnew
  rw [Db.dependenciesComplete_congr hnodes hdependencies]
  rw [hnodes, Db.activated_nodes] at hnode
  rcases Table.mem_updateWhere.1 hnode with ⟨old, -, hmatch, rfl⟩ | ⟨hold, -⟩
  · -- The goal of the picked node is active only if it has tokens to spend.
    have hbudget : budgetReached 0 (stage.activationBudget plan picked) = false := by
      cases hreached : budgetReached 0 (stage.activationBudget plan picked) with
      | false => rfl
      | true =>
          simp [ThreadGoalPlanNodeRow.activatedBy, activatedGoal_status, hreached,
            ThreadGoalStatus.toNodeStatus] at hactive
    rw [Db.dependenciesComplete_activated (by simp [activatedGoal_status, hbudget])]
    rw [Bool.and_eq_true, decide_eq_true_eq] at hmatch
    rw [ThreadGoalPlanNodeRow.activatedBy, hmatch.1]
    exact hpick nodeId plan picked hnodeId hcan hbudget
  · obtain ⟨first, hfirst, hid, hfirstActive⟩ := hstage node hold hactive
    exact absurd hfirstActive (hnew first hfirst hid)

/-! ## The nodes that are picked -/

theorem mem_readyPlanNodes_of_nextReadyNode {planId : Text}
    {autoExecute : ThreadGoalPlanAutoExecute} {node : ThreadGoalPlanNodeRow}
    (h : db.nextReadyNode threadId planId autoExecute = some node) :
    node ∈ db.readyPlanNodes planId ∧ node.assignedThreadId = threadId := by
  have hmem : node ∈ (db.readyPlanNodes planId).filter fun node =>
      node.assignedThreadId = threadId := by
    unfold Db.nextReadyNode at h
    cases autoExecute with
    | off => cases h
    | readyOnly =>
        simp only at h
        split at h
        · exact List.mem_of_head? h
        · cases h
    | aiDirected => exact List.mem_of_head? h
  obtain ⟨hready, hassigned⟩ := List.mem_filter.1 hmem
  exact ⟨hready, of_decide_eq_true hassigned⟩

theorem of_nextReadyNode {planId : Text} {autoExecute : ThreadGoalPlanAutoExecute}
    {node : ThreadGoalPlanNodeRow} (h : db.nextReadyNode threadId planId autoExecute = some node) :
    node ∈ db.nodes ∧ node.planId = planId ∧ node.status = .pending ∧
      node.assignedThreadId = threadId ∧ db.dependenciesComplete node.nodeId = true := by
  obtain ⟨hready, hassigned⟩ := mem_readyPlanNodes_of_nextReadyNode h
  obtain ⟨hnode, hselected⟩ := Table.mem_selectOrdered.1 hready
  simp only [Bool.and_eq_true, decide_eq_true_eq, Db.isStartable] at hselected
  exact ⟨hnode, hselected.1.1, hselected.1.2, hassigned, hselected.2.2⟩

/-- A plan with a ready node has tokens left. -/
theorem planHasTokensLeft_of_nextReadyNode (hdb : db.Integrity) {plan : ThreadGoalPlan}
    (hplan : plan ∈ db.plans) {autoExecute : ThreadGoalPlanAutoExecute}
    {node : ThreadGoalPlanNodeRow}
    (h : db.nextReadyNode threadId plan.planId autoExecute = some node) :
    db.planHasTokensLeft plan = true := by
  obtain ⟨hnode, hselected⟩ :=
    Table.mem_selectOrdered.1 (mem_readyPlanNodes_of_nextReadyNode h).1
  simp only [Bool.and_eq_true, decide_eq_true_eq, Db.isStartable, List.any_eq_true] at hselected
  obtain ⟨⟨hid, -⟩, ⟨found, hfound, ⟨hfoundId, -⟩, htokens⟩, -⟩ := hselected
  rwa [hdb.eq_of_planId hfound hplan (hfoundId.trans hid)] at htokens

theorem dependenciesComplete_of_nextReadyNodeId {planId : Text}
    {autoExecute : ThreadGoalPlanAutoExecute}
    (h : db.nextReadyNodeId threadId planId autoExecute = some nodeId) :
    db.dependenciesComplete nodeId = true := by
  obtain ⟨node, hnode, rfl⟩ := Option.map_eq_some_iff.1 h
  exact (of_nextReadyNode hnode).2.2.2.2

theorem PlanStage.dependenciesComplete_of_pick (outcome : PlanStage)
    {autoExecute : ThreadGoalPlanAutoExecute}
    (h : outcome.pick threadId autoExecute db = some nodeId) :
    db.dependenciesComplete nodeId = true := by
  cases outcome with
  | unmatched => cases h
  | settled => cases h
  | advances => exact dependenciesComplete_of_nextReadyNodeId h

theorem dependenciesComplete_of_readyNodePlanId {planId : Text}
    (h : db.readyNodePlanId threadId nodeId = some planId) :
    db.dependenciesComplete nodeId = true := by
  obtain ⟨node, hnode, -⟩ := Option.map_eq_some_iff.1 h
  have hready := List.find?_some hnode
  simp only [Bool.and_eq_true, decide_eq_true_eq, Db.isStartable] at hready
  rw [← hready.1.1.2]
  exact hready.2.2

theorem of_resumableDeferredNode {requested : Option Text} {planId : Text}
    (h : db.resumableDeferredNode threadId requested = some (planId, nodeId)) :
    ∃ node ∈ db.nodes, node.nodeId = nodeId ∧ node.planId = planId ∧
      node.assignedThreadId = threadId ∧ node.status = .deferred := by
  have hcandidate : ∀ node, node ∈ (db.nodes.filter fun candidate =>
      candidate.assignedThreadId = threadId && candidate.status = .deferred &&
        db.plans.any fun plan => plan.planId = candidate.planId && plan.status = .active) →
      (node.planId, node.nodeId) = (planId, nodeId) →
      ∃ node ∈ db.nodes, node.nodeId = nodeId ∧ node.planId = planId ∧
        node.assignedThreadId = threadId ∧ node.status = .deferred := by
    intro node hmem hpair
    obtain ⟨hnode, hselected⟩ := List.mem_filter.1 hmem
    simp only [Bool.and_eq_true, decide_eq_true_eq] at hselected
    obtain ⟨hplan, hid⟩ := Prod.mk.inj hpair
    exact ⟨node, hnode, hid, hplan, hselected.1.1, hselected.1.2⟩
  unfold Db.resumableDeferredNode at h
  cases requested with
  | some requested =>
      obtain ⟨node, hnode, hpair⟩ := Option.map_eq_some_iff.1 h
      exact hcandidate node (List.mem_of_find?_eq_some hnode) hpair
  | none =>
      obtain ⟨node, hnode, hpair⟩ := Option.map_eq_some_iff.1 h
      exact hcandidate node (List.mem_insertionSort _ |>.1 (List.mem_of_head? hnode)) hpair

/-! ## The operations that activate nodes -/

def GoalOp.activatesNodes : GoalOp → Bool
  | .createThreadGoalPlan .. => true
  | .completeGoalPlanNodeAndMaybeAdvance .. => true
  | .deferGoalPlanNodeAndMaybeAdvance .. => true
  | .activateThreadGoalPlanNode .. => true
  | .resumeDeferredGoalPlanNode .. => true
  | .setThreadGoalPlanNodeStatus .. => true
  | _ => false

/-- The deferred node that a free thread resumes with tokens to spend has its
dependencies complete. -/
def GoalOp.resumesReady (op : GoalOp) (db : Db) : Prop :=
  match op with
  | .resumeDeferredGoalPlanNode threadId nodeId _ _ =>
      ∀ plan ∈ db.plans, ∀ node ∈ db.nodes,
        db.resumableDeferredNode threadId nodeId = some (plan.planId, node.nodeId) →
        db.threadIsFree threadId = true →
        budgetReached 0 (db.activationBudget plan node) = false →
          db.dependenciesComplete node.nodeId = true
  | _ => True

theorem setThreadGoalPlanNodeStatus_activatesReady {params : ThreadGoalPlanNodeStatusUpdateParams}
    {outcome : ThreadGoalPlanNodeMutationOutcome}
    (h : setThreadGoalPlanNodeStatus redactStateString params goalId nowMs db =
      (.ok outcome, db')) : db.ActivatesReady db' := by
  have hplan : Kind.plan ∈ [Kind.plan] := List.mem_singleton.2 rfl
  obtain ⟨snapshot, node, hrow, -, -, -, -, ⟨-, hmark⟩ | ⟨-, hmark⟩⟩ :=
    setThreadGoalPlanNodeStatus_eq_ok h
  · rcases goesOn_markGoalPlanNodeComplete hplan hmark with
      ⟨-, rfl⟩ | ⟨-, goal, mid, hrecord, hgoesOn⟩
    · exact Db.NoneActivated.ready fun node hnode hactive => ⟨node, hnode, rfl, hactive⟩
    have hcomplete : Kind.nodeComplete ∈ [Kind.plan, .nodeComplete] := by simp
    refine hgoesOn.activatesReady
      ((changes_recordNodeComplete hcomplete (by simp) hrow hrecord).noneActivated (by decide)) ?_
    intro nodeId plan node hpick _ _
    split at hpick
    · exact dependenciesComplete_of_nextReadyNodeId hpick
    · cases hpick
  · have hundo : Kind.nodeUndo ∈ [Kind.plan, .nodeStatus, .nodeUndo] := by simp
    exact ((changes_markGoalPlanNodePending (by simp) (by simp) (fun _ => hundo) hrow
      hmark).noneActivated (by decide)).ready

theorem resumeDeferredGoalPlanNode_activatesReady (hdb : db.Integrity) {requested : Option Text}
    {outcome : Option ThreadGoalPlanAdvanceOutcome}
    (hguard : (GoalOp.resumeDeferredGoalPlanNode threadId requested goalId nowMs).resumesReady db)
    (h : resumeDeferredGoalPlanNode redactStateString threadId requested goalId nowMs db =
      (.ok outcome, db')) : db.ActivatesReady db' := by
  have hrefl : db.NoneActivated db := fun node hnode hactive => ⟨node, hnode, rfl, hactive⟩
  apply (goesOn_activateSelected h).activatesReady hrefl
  intro nodeId plan node hpick hcan hbudget
  obtain ⟨⟨planId, id⟩, hselected, rfl⟩ := Option.map_eq_some_iff.1 hpick
  obtain ⟨row, hrow, hid, hrowPlan, -, -⟩ := of_resumableDeferredNode hselected
  have hfound := List.find?_some hcan.found
  have hnode := List.mem_of_find?_eq_some hcan.found
  simp only [Bool.and_eq_true, decide_eq_true_eq] at hfound
  obtain rfl : row = node := hdb.eq_of_nodeId hrow hnode (hid.trans hfound.1.1.symm)
  have hplan : plan.planId = row.planId := by simpa using List.find?_some hcan.plan
  rw [← hid]
  apply hguard plan (List.mem_of_find?_eq_some hcan.plan) row hrow _
    (Db.threadIsFree_iff.2 ⟨hcan.idle, hcan.room⟩) hbudget
  rw [hselected, hplan, hrowPlan, hid]

theorem GoalOp.step_activatesReady {op : GoalOp} (hop : op.activatesNodes = true)
    (hdb : db.Integrity) (hguard : op.resumesReady db) :
    db.ActivatesReady (op.step redactStateString db) := by
  have hrefl : db.NoneActivated db := fun node hnode hactive => ⟨node, hnode, rfl, hactive⟩
  have hplan : Kind.plan ∈ [Kind.plan] := List.mem_singleton.2 rfl
  rcases GoalOp.step_cases redactStateString op db with hrun | hsame
  · cases op <;> simp only [activatesNodes, Bool.false_eq_true] at hop <;>
      obtain ⟨outcome, hrun⟩ := exists_of_discard_run_ok hrun
    case createThreadGoalPlan =>
      obtain ⟨stage, hrows, hgoesOn⟩ :=
        goesOn_insertThreadGoalPlanInTx (createThreadGoalPlan_eq_ok.1 hrun).2
      have hinsert : Kind.planInsert ∈ [Kind.planInsert, .nodeInsert, .dependency] := by simp
      refine hgoesOn.activatesReady
        ((changes_insertPlanRows hinsert (by simp) (by simp) hrows).noneActivated (by decide)) ?_
      intro nodeId plan node hpick _ _
      exact dependenciesComplete_of_nextReadyNodeId hpick
    case completeGoalPlanNodeAndMaybeAdvance =>
      obtain ⟨outcome, stage, hstage, hgoesOn⟩ := goesOn_completeGoalPlanNode hplan hrun
      have hrecord : Kind.nodeRecord ∈ [Kind.plan, .nodeStatus, .nodeRecord] := by simp
      refine hgoesOn.activatesReady (Changes.noneActivated (by decide)
        ((change_recorded_complete hrecord).trans
          (changes_completeGoalPlanNode (by simp) (by simp) hstage))) ?_
      intro nodeId plan node hpick _ _
      exact outcome.dependenciesComplete_of_pick hpick
    case deferGoalPlanNodeAndMaybeAdvance =>
      obtain ⟨outcome, stage, hstage, hgoesOn⟩ := goesOn_deferGoalPlanNode hrun
      have hrecord : Kind.nodeRecord ∈ [Kind.plan, .nodeStatus, .nodeRecord] := by simp
      refine hgoesOn.activatesReady (Changes.noneActivated (by decide)
        ((change_recorded_deferred hrecord).trans
          (changes_deferGoalPlanNode (by simp) (by simp) hstage))) ?_
      intro nodeId plan node hpick _ _
      exact outcome.dependenciesComplete_of_pick hpick
    case activateThreadGoalPlanNode =>
      apply (goesOn_activateSelected hrun).activatesReady hrefl
      intro nodeId plan node hpick _ _
      rw [Option.map_map] at hpick
      obtain ⟨planId, hready, rfl⟩ := Option.map_eq_some_iff.1 hpick
      exact dependenciesComplete_of_readyNodePlanId hready
    case resumeDeferredGoalPlanNode =>
      exact resumeDeferredGoalPlanNode_activatesReady hdb hguard hrun
    case setThreadGoalPlanNodeStatus => exact setThreadGoalPlanNodeStatus_activatesReady hrun
  · rw [hsame]
    exact hrefl.ready

theorem activateSelected_run {select : Db → Option (Text × Text)} {plan : ThreadGoalPlan}
    (hselected : select db = some (plan.planId, nodeId)) (hdb : db.Integrity)
    (hplan : plan ∈ db.plans) {goal : ThreadGoal}
    (hactivate : activateNodeInTx redactStateString threadId nodeId goalId nowMs db =
      (.ok goal, db')) :
    ∃ outcome, activateSelected redactStateString threadId select goalId nowMs db =
      (.ok outcome, db') := by
  have hplans : db'.plans = db.plans := by
    obtain ⟨_, _, -, -, rfl⟩ := activateNodeInTx_eq_ok.1 hactivate
    simp [Db.activated]
  have hsnapshot : snapshotThreadGoalPlanInTx plan.planId db' =
      (.ok ⟨plan, db'.snapshotNodes plan.planId⟩, db') := by
    apply snapshotThreadGoalPlanInTx_eq_ok.2
    rw [hplans]
    exact ⟨hdb.findPlan_eq hplan rfl, rfl, rfl⟩
  refine ⟨some ⟨⟨plan, db'.snapshotNodes plan.planId⟩, some goal⟩, ?_⟩
  refine Exec.bind_eq_ok.2 ⟨select db, db, rfl, ?_⟩
  simp only [hselected]
  exact Exec.bind_eq_ok.2 ⟨_, _, hactivate, Exec.bind_eq_ok.2 ⟨_, _, hsnapshot, rfl⟩⟩

/-- A free thread resumes the deferred node that is selected. -/
theorem resumeDeferredGoalPlanNode_run (hdb : db.Integrity) {requested : Option Text}
    {plan : ThreadGoalPlan} {node : ThreadGoalPlanNodeRow} (hplan : plan ∈ db.plans)
    (hnode : node ∈ db.nodes)
    (hselected : db.resumableDeferredNode threadId requested = some (plan.planId, node.nodeId))
    (hfree : db.threadIsFree threadId = true) :
    (GoalOp.resumeDeferredGoalPlanNode threadId requested goalId nowMs).step redactStateString db =
      db.activated threadId node.nodeId
        (activatedGoal redactStateString threadId goalId nowMs plan node db) nowMs := by
  obtain ⟨row, hrow, hid, hrowPlan, hassigned, hdeferred⟩ := of_resumableDeferredNode hselected
  obtain rfl : row = node := hdb.eq_of_nodeId hrow hnode hid
  have hcan : db.CanActivate threadId row.nodeId plan row :=
    (hdb.canActivate_iff hrow hplan hrowPlan.symm hassigned
      (by simp [hdeferred, ThreadGoalPlanNodeStatus.activatable])).2 hfree
  have hactivate : activateNodeInTx redactStateString threadId row.nodeId goalId nowMs db = _ :=
    activateNodeInTx_eq_ok.2 ⟨plan, row, hcan, rfl, rfl⟩
  have hrun : ∃ outcome, resumeDeferredGoalPlanNode redactStateString threadId requested goalId
      nowMs db = (.ok outcome, _) := activateSelected_run hselected hdb hplan hactivate
  obtain ⟨outcome, hrun⟩ := hrun
  exact GoalOp.step_of_run (discard_run_ok hrun)

/-- In a reachable state, an operation makes only nodes active whose dependencies
are complete, except that a deferred node may be resumed before them. -/
theorem activated_nodes_ready_iff
    (h : Reaches (GoalOp.step redactStateString) (fun _ _ => True) Db.empty db) {op : GoalOp}
    (hop : op.activatesNodes = true) :
    db.ActivatesReady (op.step redactStateString db) ↔ op.resumesReady db := by
  have hdb := integrity_of_reaches h
  refine ⟨?_, op.step_activatesReady hop hdb⟩
  intro hready
  cases op with
  | resumeDeferredGoalPlanNode threadId requested goalId nowMs =>
      intro plan hplan node hnode hselected hfree hbudget
      rw [resumeDeferredGoalPlanNode_run hdb hplan hnode hselected hfree] at hready
      obtain ⟨row, hrow, hid, -, -, hdeferred⟩ := of_resumableDeferredNode hselected
      obtain rfl : row = node := hdb.eq_of_nodeId hrow hnode hid
      have hgoal : (activatedGoal redactStateString threadId goalId nowMs plan row db).status =
          .active := by simp [activatedGoal_status, hbudget]
      generalize activatedGoal redactStateString threadId goalId nowMs plan row db = goal
        at hready hgoal
      have hnot : goal.status ≠ .complete := by
        rw [hgoal]
        decide
      apply (Db.dependenciesComplete_activated hnot _).1
      apply hready (row.activatedBy goal nowMs)
      · rw [Db.activated_nodes]
        refine Table.mem_updateWhere.2 (.inl ⟨row, hrow, ?_, rfl⟩)
        simp [hdeferred, ThreadGoalPlanNodeStatus.activatable]
      · rw [ThreadGoalPlanNodeRow.activatedBy, hgoal]
        rfl
      · intro old hold holdId
        rw [hdb.eq_of_nodeId hold hrow holdId, hdeferred]
        decide
  | _ => trivial

/-- A plan of two nodes, of which the second depends on the first. -/
def sampleChain : GoalOp :=
  .createThreadGoalPlan
    ⟨sampleThread, .aiDirected, none,
      [⟨"a".toList, "build".toList, none, none, 0, none, []⟩,
        ⟨"b".toList, "test".toList, none, none, 0, none, ["a".toList]⟩]⟩
    ⟨"plan".toList, fun index => if index = 0 then "first".toList else "second".toList,
      "goal 1".toList⟩ 1

/-- The first node is marked complete, and the second becomes active. -/
def sampleFirstDone : GoalOp :=
  .setThreadGoalPlanNodeStatus ⟨sampleThread, "first".toList, .complete, .aiDirected⟩
    "goal 2".toList 2

theorem activated_nodes_ready_iff_sample :
    (runOps (GoalOp.step id) [sampleChain] Db.empty).ActivatesReady
      (sampleFirstDone.step id (runOps (GoalOp.step id) [sampleChain] Db.empty)) :=
  (activated_nodes_ready_iff (.of_runOps [sampleChain] .start) rfl).2 trivial

/-- The second node is deferred, and then the first is undone. -/
def sampleUndone : List GoalOp :=
  [sampleChain, sampleFirstDone,
    .updateThreadGoal sampleThread ⟨none, none, some .deferred, none, none⟩ 3,
    .deferGoalPlanNodeAndMaybeAdvance sampleThread
      (freshThreadGoal sampleThread "goal 2".toList "test".toList none .deferred none 3)
      .aiDirected "unused".toList 4,
    .setThreadGoalPlanNodeStatus ⟨sampleThread, "first".toList, .pending, .off⟩ "unused".toList 5]

/-- The second node becomes active again while the first is pending. -/
theorem deferred_node_resumed_before_dependency :
    ∃ node ∈ (GoalOp.step id (.resumeDeferredGoalPlanNode sampleThread none "goal 3".toList 6)
        (runOps (GoalOp.step id) sampleUndone Db.empty)).nodes,
      node.nodeId = "second".toList ∧ node.status = .active ∧
        ((runOps (GoalOp.step id) sampleUndone Db.empty).nodes.all fun old =>
          old.nodeId ≠ "second".toList || old.status ≠ .active) = true ∧
        (GoalOp.step id (.resumeDeferredGoalPlanNode sampleThread none "goal 3".toList 6)
          (runOps (GoalOp.step id) sampleUndone Db.empty)).dependenciesComplete node.nodeId =
            false := by
  decide +kernel

end Codewith.GoalStore
