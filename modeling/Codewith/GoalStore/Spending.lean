import Codewith.GoalStore.Budget
import Codewith.GoalStore.Readiness

/-!
# The tokens a plan has spent

The total over the nodes of a plan is what its token limit is compared with.  It
falls when a node that was started before is activated again, because its
counters restart, and when a goal is recorded that has fewer tokens than its node.
-/

namespace Codewith.GoalStore

open Lib

variable {redactStateString : Text → Text} {db db' stage : Db} {threadId : ThreadId}
  {nodeId goalId planId : Text} {nowMs : Int}

theorem totalPlanTokens_updateNodes_le {p : ThreadGoalPlanNodeRow → Bool}
    {f : ThreadGoalPlanNodeRow → ThreadGoalPlanNodeRow}
    (hplan : ∀ node, (f node).planId = node.planId)
    (htokens : ∀ node ∈ db.nodes, p node = true → node.tokensUsed ≤ (f node).tokensUsed) :
    db.totalPlanTokens planId ≤ (db.updateNodes p f).totalPlanTokens planId := by
  apply Table.sumWhere_updateWhere_le
  · intro node _ _
    rw [hplan]
  · intro node hnode hmatch _
    exact htokens node hnode hmatch

/-- The kinds of changes that can lower the total of a plan. -/
def Kind.lowersTotals : Kind → Bool
  | .planDelete => true
  | .nodeConvert => true
  | .nodeSync => true
  | .nodeRecord => true
  | .nodeComplete => true
  | .nodeUndo => true
  | _ => false

theorem Change.totalPlanTokens_le {kind : Kind} (hkind : kind.lowersTotals = false)
    (h : Change kind db db') (planId : Text) :
    db.totalPlanTokens planId ≤ db'.totalPlanTokens planId := by
  have hsame : ∀ (p : ThreadGoalPlanNodeRow → Bool)
      (f : ThreadGoalPlanNodeRow → ThreadGoalPlanNodeRow),
      (∀ node, (f node).planId = node.planId ∧ (f node).tokensUsed = node.tokensUsed) →
        db.totalPlanTokens planId ≤ (db.updateNodes p f).totalPlanTokens planId := by
    intro p f hf
    apply totalPlanTokens_updateNodes_le fun node => (hf node).1
    intro node _ _
    rw [(hf node).2]
  cases h with
  | planDelete => cases hkind
  | nodeConvert => cases hkind
  | nodeSync => cases hkind
  | nodeRecord => cases hkind
  | nodeComplete => cases hkind
  | nodeUndo => cases hkind
  | nodeInsert _ _ htokens =>
      rw [Db.totalPlanTokens, Db.totalPlanTokens, Table.sumWhere_append, Table.sumWhere_cons,
        htokens]
      simp [Table.sumWhere]
  | nodeStatus => exact hsame _ _ fun _ => ⟨rfl, rfl⟩
  | nodeRequeue => exact hsame _ _ fun _ => ⟨rfl, rfl⟩
  | nodeCancel => exact hsame _ _ fun _ => ⟨rfl, rfl⟩
  | nodeResume => exact hsame _ _ fun _ => ⟨rfl, rfl⟩
  | nodeEdit => exact hsame _ _ fun _ => ⟨rfl, rfl⟩
  | nodeShift => exact hsame _ _ fun _ => ⟨rfl, rfl⟩
  | nodeNest => exact hsame _ _ fun _ => ⟨rfl, rfl⟩
  | _ => exact le_refl _

theorem Changes.totalPlanTokens_le {kinds : List Kind}
    (hkinds : ∀ kind ∈ kinds, kind.lowersTotals = false) (h : Changes kinds db db')
    (planId : Text) : db.totalPlanTokens planId ≤ db'.totalPlanTokens planId := by
  apply h.invariant (J := fun mid => db.totalPlanTokens planId ≤ mid.totalPlanTokens planId) _
    (le_refl _)
  intro kind hkind a b hchange ha
  exact ha.trans (hchange.totalPlanTokens_le (hkinds kind hkind) planId)

/-- The node has not spent anything that counts for the plan. -/
def Db.UnspentIn (db : Db) (planId nodeId : Text) : Prop :=
  ∀ node ∈ db.nodes, node.nodeId = nodeId → node.planId = planId → node.tokensUsed ≤ 0

/-- The node has not spent anything. -/
def Db.Unspent (db : Db) (nodeId : Text) : Prop :=
  ∀ node ∈ db.nodes, node.nodeId = nodeId → node.tokensUsed ≤ 0

theorem Db.Unspent.unspentIn (h : db.Unspent nodeId) (planId : Text) : db.UnspentIn planId nodeId :=
  fun node hnode hid _ => h node hnode hid

theorem totalPlanTokens_activated_le {goal : ThreadGoal} (hunspent : db.UnspentIn planId nodeId)
    (hactivate : activateNodeInTx redactStateString threadId nodeId goalId nowMs db =
      (.ok goal, db')) : db.totalPlanTokens planId ≤ db'.totalPlanTokens planId := by
  obtain ⟨_, _, -, -, rfl⟩ := activateNodeInTx_eq_ok.1 hactivate
  rw [Db.totalPlanTokens, Db.totalPlanTokens, Db.activated_nodes]
  apply Table.sumWhere_updateWhere_le
  · intro node _ _
    rfl
  · intro node hnode hmatch hplan
    rw [Bool.and_eq_true, decide_eq_true_eq] at hmatch
    exact hunspent node hnode hmatch.1 (of_decide_eq_true hplan)

theorem GoesOn.totalPlanTokens_le {pick : Option Text}
    (hpick : ∀ nodeId, pick = some nodeId → stage.UnspentIn planId nodeId)
    (h : GoesOn [.plan] redactStateString threadId goalId nowMs pick stage db') :
    stage.totalPlanTokens planId ≤ db'.totalPlanTokens planId := by
  obtain ⟨after, hactivate, hrest⟩ := h
  have hlast := hrest.totalPlanTokens_le (by decide) planId
  rcases hactivate with rfl | ⟨nodeId, goal, hnodeId, hactivate⟩
  · exact hlast
  · exact (totalPlanTokens_activated_le (hpick nodeId hnodeId) hactivate).trans hlast

/-! ## The next node of a plan -/

/-- What the plans may spend. -/
def Db.planLimits (db : Db) : List (Text × Option Int) :=
  db.plans.map fun plan => (plan.planId, plan.maxTokens)

theorem Changes.planLimits_eq (h : Changes [.plan] db db') : db'.planLimits = db.planLimits := by
  apply h.invariant (J := fun mid => mid.planLimits = db.planLimits) _ rfl
  intro kind hkind a b hchange ha
  obtain rfl := List.mem_singleton.1 hkind
  have hupdate : ∀ (p : ThreadGoalPlan → Bool) (f : ThreadGoalPlan → ThreadGoalPlan),
      (∀ plan, (f plan).planId = plan.planId ∧ (f plan).maxTokens = plan.maxTokens) →
        (a.updatePlans p f).planLimits = db.planLimits := by
    intro p f hf
    rw [← ha]
    apply Table.map_updateWhere_eq_iff.2
    intro plan _ _
    rw [(hf plan).1, (hf plan).2]
  cases hchange with
  | plan hkeeps => exact hupdate _ _ fun plan => ⟨(hkeeps plan).1, (hkeeps plan).2.2⟩
  | recalculate => exact hupdate _ _ fun _ => ⟨rfl, rfl⟩
  | reopen => exact hupdate _ _ fun _ => ⟨rfl, rfl⟩

/-- The sums over the nodes of a plan depend on the nodes and on the limits. -/
theorem Db.PlanSumsFit.of_same (h : stage.PlanSumsFit planId) (hnodes : stage.nodes = db.nodes)
    (hlimits : stage.planLimits = db.planLimits) : db.PlanSumsFit planId := by
  have hlimited : ∀ mid : Db,
      (mid.plans.any fun plan => plan.planId = planId && plan.maxTokens.isSome) =
        mid.planLimits.any fun limit => limit.1 = planId && limit.2.isSome := by
    intro mid
    rw [Db.planLimits, List.any_map]
    rfl
  obtain ⟨htotal, hreserved⟩ := h
  refine ⟨?_, ?_⟩
  · rwa [Db.totalPlanTokens, ← hnodes]
  · rwa [Db.reservedForReadiness, hlimited, Db.reservedPlanTokens, ← hlimits, ← hnodes, ← hlimited]

def Db.withPlanActive (planId : Text) (db : Db) : Db :=
  db.updatePlans (fun plan => plan.planId = planId) fun plan => { plan with status := .active }

/-- The node that is activated next once the plan is active. -/
def Db.nextNodeOnceActive (db : Db) (threadId : ThreadId) (planId : Text)
    (autoExecute : ThreadGoalPlanAutoExecute) : Option Text :=
  (db.withPlanActive planId).nextReadyNodeId threadId planId autoExecute

theorem planHasTokensLeft_congr {plan plan' : ThreadGoalPlan} (hnodes : stage.nodes = db.nodes)
    (hid : plan'.planId = plan.planId) (hmax : plan'.maxTokens = plan.maxTokens) :
    db.planHasTokensLeft plan' = stage.planHasTokensLeft plan := by
  rw [Db.planHasTokensLeft, Db.planHasTokensLeft, Db.reservedPlanTokens, Db.reservedPlanTokens,
    hnodes, hid, hmax]

theorem nextReadyNode_congr {autoExecute : ThreadGoalPlanAutoExecute}
    (hnodes : stage.nodes = db.nodes)
    (hstartable : ∀ candidate : ThreadGoalPlanNodeRow, candidate.planId = planId →
      db.isStartable (fun status => status = .active) candidate =
        stage.isStartable (fun status => status = .active) candidate) :
    db.nextReadyNode threadId planId autoExecute =
      stage.nextReadyNode threadId planId autoExecute := by
  have hready : db.readyPlanNodes planId = stage.readyPlanNodes planId := by
    rw [Db.readyPlanNodes, Db.readyPlanNodes, hnodes]
    apply congrArg fun p => Table.selectOrdered p activationOrder db.nodes
    funext candidate
    by_cases hcandidate : candidate.planId = planId
    · rw [hstartable candidate hcandidate]
    · simp [hcandidate]
  unfold Db.nextReadyNode
  rw [hready]

/-- A plan that has a next node is active already. -/
theorem nextNodeOnceActive_of_nextReadyNodeId {autoExecute : ThreadGoalPlanAutoExecute}
    (hnodes : stage.nodes = db.nodes) (hdependencies : stage.dependencies = db.dependencies)
    (hlimits : stage.planLimits = db.planLimits)
    (h : stage.nextReadyNodeId threadId planId autoExecute = some nodeId) :
    db.nextNodeOnceActive threadId planId autoExecute = some nodeId := by
  obtain ⟨next, hnext, -⟩ := Option.map_eq_some_iff.1 h
  obtain ⟨-, hselected⟩ := Table.mem_selectOrdered.1 (mem_readyPlanNodes_of_nextReadyNode hnext).1
  simp only [Bool.and_eq_true, decide_eq_true_eq, Db.isStartable, List.any_eq_true] at hselected
  obtain ⟨⟨hnextPlan, -⟩, ⟨plan, hplan, ⟨hid, hactive⟩, hleft⟩, -⟩ := hselected
  rw [hnextPlan] at hid
  obtain ⟨old, hold, hlimit⟩ : ∃ old ∈ db.plans,
      (old.planId, old.maxTokens) = (plan.planId, plan.maxTokens) := by
    rw [← List.mem_map, ← Db.planLimits, ← hlimits]
    exact List.mem_map.2 ⟨plan, hplan, rfl⟩
  obtain ⟨holdId, holdMax⟩ := Prod.mk.inj hlimit
  have hactiveNodes : stage.nodes = (db.withPlanActive planId).nodes := hnodes
  rw [Db.nextNodeOnceActive, Db.nextReadyNodeId, nextReadyNode_congr hactiveNodes]
  · exact h
  · -- Both plans are active and have tokens left, so only the dependencies matter.
    intro candidate hcandidate
    rw [Db.isStartable, Db.isStartable, Db.dependenciesComplete_congr hactiveNodes hdependencies]
    congr 1
    rw [Bool.eq_iff_iff, List.any_eq_true, List.any_eq_true]
    simp only [Bool.and_eq_true, decide_eq_true_eq]
    refine iff_of_true ⟨_, Table.mem_updateWhere.2 (.inl ⟨old, hold, ?_, rfl⟩),
      ⟨?_, rfl⟩, (planHasTokensLeft_congr hactiveNodes holdId holdMax).trans hleft⟩
      ⟨plan, hplan, ⟨hid.trans hcandidate.symm, hactive⟩, hleft⟩
    · exact decide_eq_true (holdId.trans hid)
    · exact (holdId.trans hid).trans hcandidate.symm

/-- The next node was pending before, so it has spent what it had spent. -/
theorem unspentIn_of_nextReadyNodeId {mid : Db} (hmid : mid.Integrity)
    (hpending : ∀ node ∈ mid.nodes, node.status = .pending → node ∈ db.nodes)
    (hset : Changes [.plan] mid stage) {nextPlanId : Text} {autoExecute : ThreadGoalPlanAutoExecute}
    (h : stage.nextReadyNodeId threadId nextPlanId autoExecute = some nodeId)
    (hunspent : mid.nextNodeOnceActive threadId nextPlanId autoExecute = some nodeId →
      db.Unspent nodeId) (planId : Text) : stage.UnspentIn planId nodeId := by
  obtain ⟨-, hnodes, hdependencies⟩ := hset.of_plan
  have hspent := hunspent
    (nextNodeOnceActive_of_nextReadyNodeId hnodes hdependencies hset.planLimits_eq h)
  obtain ⟨next, hnext, rfl⟩ := Option.map_eq_some_iff.1 h
  obtain ⟨hmem, -, hnextPending, -, -⟩ := of_nextReadyNode hnext
  intro node hnode hid _
  rw [hnodes] at hnode hmem
  obtain rfl := hmid.eq_of_nodeId hnode hmem hid
  exact hspent node (hpending node hnode hnextPending) rfl

theorem integrity_recorded (hdb : db.Integrity)
    (matching : Db → ThreadGoalPlanNodeRow → Bool) (status : ThreadGoalPlanNodeStatus)
    (goal : ThreadGoal) (nowMs : Int) : (db.recorded matching status goal nowMs).Integrity :=
  hdb.updateNodes fun _ => ⟨rfl, rfl, rfl⟩

/-- No node is pending because a goal is recorded. -/
theorem mem_nodes_of_mem_recorded {matching : Db → ThreadGoalPlanNodeRow → Bool}
    {status : ThreadGoalPlanNodeStatus} {goal : ThreadGoal} (hstatus : status ≠ .pending)
    {node : ThreadGoalPlanNodeRow} (hnode : node ∈ (db.recorded matching status goal nowMs).nodes)
    (hpending : node.status = .pending) : node ∈ db.nodes := by
  rcases Table.mem_updateWhere.1 hnode with ⟨old, -, -, rfl⟩ | ⟨hmem, -⟩
  · exact absurd hpending hstatus
  · exact hmem

theorem completeGoalPlanNode_advances {goal : ThreadGoal} {autoExecute : ThreadGoalPlanAutoExecute}
    (h : completeGoalPlanNode threadId goal autoExecute nowMs db =
      (.ok (.advances planId), stage)) :
    ∃ node, db.nodes.find? (Db.completeMatches threadId goal db) = some node ∧
      node.planId = planId ∧
      (db.recorded (Db.completeMatches threadId goal) .complete goal nowMs).PlanSumsFit planId ∧
      Changes [.plan] (db.recorded (Db.completeMatches threadId goal) .complete goal nowMs)
        stage := by
  rcases completeGoalPlanNode_cases h with ⟨-, hstage, -⟩ |
    ⟨node, mid, status, hfound, -, hrecalculate, hstage | ⟨hstage, hset⟩⟩
  · cases hstage
  · cases hstage
  · obtain rfl := PlanStage.advances.inj hstage
    obtain ⟨-, hfits, -⟩ := recalculateGoalPlanStatusInTx_eq_ok.1 hrecalculate
    exact ⟨node, hfound, rfl, hfits.of_same hset.of_plan.2.1 hset.planLimits_eq,
      hset.trans (changes_recalculate (List.mem_singleton.2 rfl) hrecalculate)⟩

theorem deferGoalPlanNode_advances {goal : ThreadGoal} {autoExecute : ThreadGoalPlanAutoExecute}
    (h : deferGoalPlanNode threadId goal autoExecute nowMs db = (.ok (.advances planId), stage)) :
    ∃ node, db.nodes.find? (Db.deferMatches threadId goal db) = some node ∧
      node.planId = planId ∧
      (db.recorded (Db.deferMatches threadId goal) .deferred goal nowMs).totalPlanTokens planId ≤
        i64Max ∧
      Changes [.plan] (db.recorded (Db.deferMatches threadId goal) .deferred goal nowMs) stage := by
  rcases deferGoalPlanNode_cases h with
    ⟨hstage, -⟩ | ⟨node, mid, hfound, hset, htotal, ⟨hstage, -⟩ | ⟨hstage, rfl⟩⟩
  · cases hstage
  · cases hstage
  · obtain rfl := PlanStage.advances.inj hstage
    rw [Db.totalPlanTokens, hset.of_plan.2.1] at htotal
    exact ⟨node, hfound, rfl, htotal, hset⟩

/-! ## Operations -/

/-- The goal has at least the tokens that are recorded in the nodes. -/
def Db.coversUsage (matching : Db → ThreadGoalPlanNodeRow → Bool) (goal : ThreadGoal) (db : Db) :
    Prop :=
  ∀ node ∈ db.nodes, matching db node = true → node.tokensUsed ≤ goal.tokensUsed

/-- A node is activated only if it has not spent anything, a goal is recorded only
if it covers what its nodes have spent, and neither plans are deleted nor completed
nodes undone.  A plan whose sums overflow does not go on. -/
def GoalOp.keepsSpending (op : GoalOp) (db : Db) : Prop :=
  match op with
  | .deleteThreadGoalPlansForThread _ => False
  | .syncGoalPlanNodeForGoal threadId goal _ => db.coversUsage (Db.syncMatches threadId goal) goal
  | .completeGoalPlanNodeAndMaybeAdvance threadId goal autoExecute _ nowMs =>
      let recorded := db.recorded (Db.completeMatches threadId goal) .complete goal nowMs
      db.coversUsage (Db.completeMatches threadId goal) goal ∧ ∀ node nodeId,
        db.nodes.find? (Db.completeMatches threadId goal db) = some node →
          recorded.PlanSumsFit node.planId →
            recorded.nextNodeOnceActive threadId node.planId autoExecute = some nodeId →
              db.Unspent nodeId
  | .deferGoalPlanNodeAndMaybeAdvance threadId goal autoExecute _ nowMs =>
      let recorded := db.recorded (Db.deferMatches threadId goal) .deferred goal nowMs
      db.coversUsage (Db.deferMatches threadId goal) goal ∧ ∀ node nodeId,
        db.nodes.find? (Db.deferMatches threadId goal db) = some node →
          recorded.totalPlanTokens node.planId ≤ i64Max →
            recorded.nextNodeOnceActive threadId node.planId autoExecute = some nodeId →
              db.Unspent nodeId
  | .activateThreadGoalPlanNode threadId nodeId _ _ =>
      (db.readyNodePlanId threadId nodeId).isSome → db.Unspent nodeId
  | .resumeDeferredGoalPlanNode threadId requested _ _ =>
      ∀ planId nodeId, db.resumableDeferredNode threadId requested = some (planId, nodeId) →
        db.Unspent nodeId
  | .setThreadGoalPlanNodeStatus params _ nowMs =>
      ∀ node ∈ db.nodes, node.nodeId = Text.trim params.nodeId →
        match params.status with
        | .pending => node.status ≠ .complete
        | .complete =>
            (∀ goal ∈ db.threadGoals, node.isProjectedTo goal = true →
              node.tokensUsed ≤ goal.tokensUsed) ∧
            (node.status.isStarted → (db.withNodeComplete node nowMs).PlanSumsFit node.planId →
              ∀ nodeId, (db.withNodeComplete node nowMs).nextNodeOnceActive params.threadId
                node.planId params.autoExecute = some nodeId → db.Unspent nodeId)
  | _ => True

theorem totalPlanTokens_withNodeComplete_le (hdb : db.Integrity) {node : ThreadGoalPlanNodeRow}
    (hnode : node ∈ db.nodes) (hcovers : ∀ goal ∈ db.threadGoals, node.isProjectedTo goal = true →
      node.tokensUsed ≤ goal.tokensUsed) :
    db.totalPlanTokens planId ≤ (db.withNodeComplete node nowMs).totalPlanTokens planId := by
  apply Table.sumWhere_updateWhere_le
  · intro row _ _
    rfl
  · intro row hrow hmatch _
    obtain rfl : row = node := hdb.eq_of_nodeId hrow hnode (of_decide_eq_true hmatch)
    rcases hfind : db.threadGoals.find? row.isProjectedTo with _ | goal
    · simp
    · simpa using hcovers goal (List.mem_of_find?_eq_some hfind) (List.find?_some hfind)

theorem mem_nodes_of_mem_withNodeComplete {node row : ThreadGoalPlanNodeRow}
    (h : row ∈ (db.withNodeComplete node nowMs).nodes) (hpending : row.status = .pending) :
    row ∈ db.nodes := by
  rcases Table.mem_updateWhere.1 h with ⟨old, -, -, rfl⟩ | ⟨hmem, -⟩
  · cases hpending
  · exact hmem

theorem fresh_of_insertPlanRows {params : ThreadGoalPlanCreateParams} {ids : NewIds} {u : Unit}
    (h : insertPlanRows redactStateString params ids nowMs db = (.ok u, db')) :
    ∀ plan ∈ db.plans, plan.planId ≠ ids.planId := by
  simp only [insertPlanRows, Exec.bind_eq_ok, ofResult_eq_ok, insertPlan_eq_ok] at h
  obtain ⟨_, _, ⟨-, rfl⟩, _, _, ⟨hfresh, -⟩, -⟩ := h
  exact hfresh

/-- A node of a new plan does not count for the plans there were. -/
theorem insertThreadGoalPlanInTx_totalPlanTokens_le (hdb : db.Integrity)
    {params : ThreadGoalPlanCreateParams} {ids : NewIds} {outcome : ThreadGoalPlanAdvanceOutcome}
    (h : insertThreadGoalPlanInTx redactStateString params ids nowMs db = (.ok outcome, db'))
    {plan : ThreadGoalPlan} (hplan : plan ∈ db.plans) :
    db.totalPlanTokens plan.planId ≤ db'.totalPlanTokens plan.planId := by
  obtain ⟨stage, hrows, hgoesOn⟩ := goesOn_insertThreadGoalPlanInTx h
  have hinsert : Kind.planInsert ∈ [Kind.planInsert, .nodeInsert, .dependency] := by simp
  have hchanges := changes_insertPlanRows hinsert (by simp) (by simp) hrows
  have hstage : stage.Integrity :=
    hchanges.invariant (fun _ _ _ _ hchange => hchange.integrity) hdb
  apply (hchanges.totalPlanTokens_le (by decide) plan.planId).trans
  apply hgoesOn.totalPlanTokens_le
  intro nodeId hpick row hrow hid hrowPlan
  obtain ⟨node, hnode, rfl⟩ := Option.map_eq_some_iff.1 hpick
  obtain ⟨hmem, hnodePlan, -⟩ := of_nextReadyNode hnode
  rw [hstage.eq_of_nodeId hrow hmem hid, hnodePlan] at hrowPlan
  exact absurd hrowPlan.symm (fresh_of_insertPlanRows hrows plan hplan)

theorem addThreadGoalToPlan_totalPlanTokens_le (hdb : db.Integrity)
    {params : ThreadGoalPlanAddParams} {ids : NewIds} {outcome : ThreadGoalPlanAddOutcome}
    (h : addThreadGoalToPlan redactStateString params ids nowMs db = (.ok outcome, db'))
    {plan : ThreadGoalPlan} (hplan : plan ∈ db.plans) :
    db.totalPlanTokens plan.planId ≤ db'.totalPlanTokens plan.planId := by
  have happends : ∀ {planId nodeId : Text} {db db' : Db}
      {added : ThreadGoalPlanSnapshot × ThreadGoalPlanNode},
      appendGoalPlanNodeInTx redactStateString planId params nodeId nowMs db = (.ok added, db') →
        db.totalPlanTokens plan.planId ≤ db'.totalPlanTokens plan.planId := by
    intro planId nodeId db db' added happend
    have hinsert : Kind.nodeInsert ∈ appendKinds := by simp [appendKinds]
    exact (changes_appendGoalPlanNodeInTx (by simp [appendKinds]) hinsert (by simp [appendKinds])
      happend).totalPlanTokens_le (by decide) plan.planId
  rcases addThreadGoalToPlan_cases h with
    ⟨planId, added, happend⟩ | ⟨goal, added, hconverts, hcreate⟩ | ⟨added, hcreate⟩
  · exact happends happend
  · obtain ⟨hchange, happend⟩ :=
      createGoalPlanFromGoalInTx_eq_ok (threadGoal?_of_converts hconverts) hcreate
    refine le_trans ?_ (happends happend)
    have hfresh : plan.planId ≠ ids.planId := by
      have hunique := (hchange.integrity hdb).plans
      rw [Db.withGoalConverted, List.map_append, List.nodup_append] at hunique
      exact hunique.2.2 _ (List.mem_map.2 ⟨plan, hplan, rfl⟩) _ (List.mem_singleton.2 rfl)
    rw [Db.totalPlanTokens, Db.totalPlanTokens, Db.withGoalConverted, Table.sumWhere_append,
      Table.sumWhere_cons]
    simp [convertedNode, Table.sumWhere, hfresh.symm]
  · obtain ⟨title, goal, hfresh, hinserted, hactivate⟩ :=
      createGoalPlanFromAddedGoalInTx_eq_ok hcreate
    apply (hinserted.totalPlanTokens_le (by decide) plan.planId).trans
    apply totalPlanTokens_activated_le _ hactivate
    intro row hrow hid hrowPlan
    have hstage : (db.withGoalAdded redactStateString params title ids nowMs).Integrity :=
      hinserted.invariant (fun _ _ _ _ hchange => hchange.integrity) hdb
    have hmem : addedNode redactStateString params title ids nowMs ∈
        (db.withGoalAdded redactStateString params title ids nowMs).nodes :=
      List.mem_append_right _ (List.mem_singleton.2 rfl)
    rw [hstage.eq_of_nodeId hrow hmem hid] at hrowPlan ⊢
    exact le_refl 0

theorem setThreadGoalPlanNodeStatus_totalPlanTokens_le (hdb : db.Integrity)
    {params : ThreadGoalPlanNodeStatusUpdateParams} {outcome : ThreadGoalPlanNodeMutationOutcome}
    (hguard : (GoalOp.setThreadGoalPlanNodeStatus params goalId nowMs).keepsSpending db)
    (h : setThreadGoalPlanNodeStatus redactStateString params goalId nowMs db =
      (.ok outcome, db')) (planId : Text) :
    db.totalPlanTokens planId ≤ db'.totalPlanTokens planId := by
  have hplan : Kind.plan ∈ [Kind.plan] := List.mem_singleton.2 rfl
  obtain ⟨snapshot, node, hrow, hid, -, -, -, ⟨hrequest, hmark⟩ | ⟨hrequest, hmark⟩⟩ :=
    setThreadGoalPlanNodeStatus_eq_ok h
  · have hnode := hguard node.toThreadGoalPlanNodeRow hrow hid
    rw [hrequest] at hnode
    rcases goesOn_markGoalPlanNodeComplete hplan hmark with
      ⟨-, rfl⟩ | ⟨-, goal, mid, hrecord, hgoesOn⟩
    · exact le_refl _
    obtain ⟨-, status, hrecalculate⟩ := recordNodeComplete_eq_ok.1 hrecord
    obtain ⟨-, hfits, -⟩ := recalculateGoalPlanStatusInTx_eq_ok.1 hrecalculate
    calc db.totalPlanTokens planId
        ≤ (db.withNodeComplete node.toThreadGoalPlanNodeRow nowMs).totalPlanTokens planId :=
          totalPlanTokens_withNodeComplete_le hdb hrow hnode.1
      _ ≤ mid.totalPlanTokens planId :=
          (changes_recalculate hplan hrecalculate).totalPlanTokens_le (by decide) planId
      _ ≤ db'.totalPlanTokens planId := by
          apply hgoesOn.totalPlanTokens_le
          intro nodeId hpick
          split at hpick
          · next hstarted =>
              exact unspentIn_of_nextReadyNodeId ((Change.nodeComplete hrow nowMs).integrity hdb)
                (fun _ hmem hpending => mem_nodes_of_mem_withNodeComplete hmem hpending)
                (changes_recalculate hplan hrecalculate) hpick
                  (hnode.2 hstarted hfits nodeId) planId
          · cases hpick
  · have hnode := hguard node.toThreadGoalPlanNodeRow hrow hid
    rw [hrequest] at hnode
    have hstatus : Kind.nodeStatus ∈ [Kind.nodeStatus, .plan] := by simp
    exact (changes_markGoalPlanNodePending hstatus (by simp)
      (fun hcomplete => absurd hcomplete hnode)
      hrow hmark).totalPlanTokens_le (by decide) planId

theorem totalPlanTokens_recorded_le {matching : Db → ThreadGoalPlanNodeRow → Bool}
    {goal : ThreadGoal} (hcovers : db.coversUsage matching goal)
    (status : ThreadGoalPlanNodeStatus) (nowMs : Int) (planId : Text) :
    db.totalPlanTokens planId ≤ (db.recorded matching status goal nowMs).totalPlanTokens planId :=
  totalPlanTokens_updateNodes_le (fun _ => rfl) hcovers

/-- A goal that covers what its nodes have spent is recorded, and the plan goes on with a node
that has not spent anything. -/
theorem totalPlanTokens_recorded_le_of_goesOn (hdb : db.Integrity)
    {matching : Db → ThreadGoalPlanNodeRow → Bool} {status : ThreadGoalPlanNodeStatus}
    {goal : ThreadGoal} (hstatus : status ≠ .pending) (hcovers : db.coversUsage matching goal)
    {kinds : List Kind} (hkinds : ∀ kind ∈ kinds, kind.lowersTotals = false)
    (hstage : Changes kinds (db.recorded matching status goal nowMs) stage)
    {outcome : PlanStage} {autoExecute : ThreadGoalPlanAutoExecute}
    (hgoesOn : GoesOn [.plan] redactStateString threadId goalId nowMs
      (outcome.pick threadId autoExecute stage) stage db')
    (hadvances : ∀ id, outcome = .advances id →
      Changes [.plan] (db.recorded matching status goal nowMs) stage ∧
        ∀ nodeId, (db.recorded matching status goal nowMs).nextNodeOnceActive threadId id
          autoExecute = some nodeId → db.Unspent nodeId) :
    db.totalPlanTokens planId ≤ db'.totalPlanTokens planId := by
  calc db.totalPlanTokens planId
      ≤ (db.recorded matching status goal nowMs).totalPlanTokens planId :=
        totalPlanTokens_recorded_le hcovers status nowMs planId
    _ ≤ stage.totalPlanTokens planId := hstage.totalPlanTokens_le hkinds planId
    _ ≤ db'.totalPlanTokens planId := by
        apply hgoesOn.totalPlanTokens_le
        intro nodeId hpick
        cases outcome with
        | unmatched => cases hpick
        | settled => cases hpick
        | advances id =>
            obtain ⟨hset, hunspent⟩ := hadvances id rfl
            exact unspentIn_of_nextReadyNodeId (integrity_recorded hdb _ _ _ _)
              (fun _ => mem_nodes_of_mem_recorded hstatus) hset hpick (hunspent nodeId) planId

/-- No operation that keeps the spending lowers the total of a plan. -/
theorem GoalOp.run_totalPlanTokens_le (hdb : db.Integrity) {op : GoalOp}
    (hguard : op.keepsSpending db) (hrun : op.run redactStateString db = (.ok (), db'))
    {plan : ThreadGoalPlan} (hplan : plan ∈ db.plans) :
    db.totalPlanTokens plan.planId ≤ db'.totalPlanTokens plan.planId := by
  have hkind : Kind.plan ∈ [Kind.plan] := List.mem_singleton.2 rfl
  have hkeeps : ∀ {kinds : List Kind}, (∀ kind ∈ kinds, kind.lowersTotals = false) →
      Changes kinds db db' → db.totalPlanTokens plan.planId ≤ db'.totalPlanTokens plan.planId :=
    fun hkinds hchanges => hchanges.totalPlanTokens_le hkinds plan.planId
  have hputs : ∀ {kinds : List Kind} {goalId : Text}, (∀ kind ∈ kinds, kind.lowersTotals = false) →
      PutsGoal kinds goalId db db' →
        db.totalPlanTokens plan.planId ≤ db'.totalPlanTokens plan.planId := by
    rintro kinds goalId hkinds ⟨mid, hchanges, rfl | ⟨goal, -, -, -, -, rfl⟩⟩
    · exact hkeeps hkinds hchanges
    · rw [Db.totalPlanTokens, Db.totalPlanTokens, Db.upsertThreadGoal_nodes]
      exact hchanges.totalPlanTokens_le hkinds plan.planId
  have hprogress := GoalOp.progress hrun
  cases op <;> replace hrun := exists_of_discard_run_ok hrun <;>
    obtain ⟨outcome, hrun⟩ := hrun
  case deleteThreadGoalPlansForThread => exact hguard.elim
  case replaceThreadGoal =>
    have haudit : Kind.audit ∈ [Kind.audit, .plan, .nodeStatus] := by simp
    exact hputs (by decide) (putsGoal_replaceThreadGoal (by simp) (by simp) haudit hrun)
  case insertThreadGoal =>
    have hnone : ∀ kind ∈ ([] : List Kind), kind.lowersTotals = false := by simp
    exact hputs hnone (putsGoal_insertThreadGoal hrun)
  case createThreadGoalPlan =>
    exact insertThreadGoalPlanInTx_totalPlanTokens_le hdb
      (createThreadGoalPlan_eq_ok.1 hrun).2 hplan
  case addThreadGoalToPlan => exact addThreadGoalToPlan_totalPlanTokens_le hdb hrun hplan
  case projectWorkflowRunToGoalPlan =>
    have hprojection : Kind.projection ∈ [Kind.projection] := List.mem_singleton.2 rfl
    rcases projectWorkflowRunToGoalPlan_cases hprojection hrun with
      rfl | ⟨run, plan', mid, hcreate, hrest⟩
    · exact le_refl _
    · exact (insertThreadGoalPlanInTx_totalPlanTokens_le hdb hcreate hplan).trans
        (hrest.totalPlanTokens_le (by decide) plan.planId)
  case syncGoalPlanNodeForGoal threadId goal nowMs =>
    have hstatus : Kind.nodeStatus ∈ [Kind.nodeStatus, .plan] := by simp
    exact (totalPlanTokens_recorded_le hguard goal.status.toNodeStatus nowMs plan.planId).trans
      ((changes_syncGoalPlanNodeForGoal hstatus (by simp) hrun).totalPlanTokens_le (by decide)
        plan.planId)
  case completeGoalPlanNodeAndMaybeAdvance threadId goal autoExecute goalId nowMs =>
    obtain ⟨outcome, stage, hstage, hgoesOn⟩ := goesOn_completeGoalPlanNode hkind hrun
    have hstatus : Kind.nodeStatus ∈ [Kind.nodeStatus, .plan] := by simp
    apply totalPlanTokens_recorded_le_of_goesOn hdb (by decide) hguard.1 (by decide)
      (changes_completeGoalPlanNode hstatus (by simp) hstage) hgoesOn
    rintro planId rfl
    obtain ⟨node, hfound, rfl, hfits, hset⟩ := completeGoalPlanNode_advances hstage
    exact ⟨hset, fun nodeId => hguard.2 node nodeId hfound hfits⟩
  case deferGoalPlanNodeAndMaybeAdvance threadId goal autoExecute goalId nowMs =>
    obtain ⟨outcome, stage, hstage, hgoesOn⟩ := goesOn_deferGoalPlanNode hrun
    have hstatus : Kind.nodeStatus ∈ [Kind.nodeStatus, .plan] := by simp
    apply totalPlanTokens_recorded_le_of_goesOn hdb (by decide) hguard.1 (by decide)
      (changes_deferGoalPlanNode hstatus (by simp) hstage) hgoesOn
    rintro planId rfl
    obtain ⟨node, hfound, rfl, htotal, hset⟩ := deferGoalPlanNode_advances hstage
    exact ⟨hset, fun nodeId => hguard.2 node nodeId hfound htotal⟩
  case activateThreadGoalPlanNode =>
    apply (goesOn_activateSelected hrun).totalPlanTokens_le
    intro nodeId hpick
    rw [Option.map_map] at hpick
    obtain ⟨planId, hready, rfl⟩ := Option.map_eq_some_iff.1 hpick
    exact (hguard (by simp [hready])).unspentIn plan.planId
  case resumeDeferredGoalPlanNode =>
    apply (goesOn_activateSelected hrun).totalPlanTokens_le
    intro nodeId hpick
    obtain ⟨⟨planId, id⟩, hselected, rfl⟩ := Option.map_eq_some_iff.1 hpick
    exact (hguard planId id hselected).unspentIn plan.planId
  case setThreadGoalPlanNodeStatus =>
    exact setThreadGoalPlanNodeStatus_totalPlanTokens_le hdb hguard hrun plan.planId
  all_goals exact hkeeps (by simp [GoalOp.kinds, Kind.lowersTotals]) hprogress.changes

/-- The plans there are stay, unless they are deleted. -/
theorem Change.planIds_subset {kind : Kind} (hkind : kind ≠ .planDelete) (h : Change kind db db')
    {plan : ThreadGoalPlan} (hplan : plan ∈ db.plans) :
    ∃ plan' ∈ db'.plans, plan'.planId = plan.planId := by
  have hupdate : ∀ (p : ThreadGoalPlan → Bool) (f : ThreadGoalPlan → ThreadGoalPlan),
      (∀ plan, (f plan).planId = plan.planId) →
        ∃ plan' ∈ (db.updatePlans p f).plans, plan'.planId = plan.planId := by
    intro p f hf
    refine ⟨_, List.mem_map.2 ⟨plan, hplan, rfl⟩, ?_⟩
    split
    · exact hf plan
    · rfl
  cases h with
  | plan hkeeps => exact hupdate _ _ fun plan => (hkeeps plan).1
  | recalculate => exact hupdate _ _ fun _ => rfl
  | reopen => exact hupdate _ _ fun _ => rfl
  | planInsert => exact ⟨plan, List.mem_append_left _ hplan, rfl⟩
  | planDelete => exact absurd rfl hkind
  | nodeConvert => exact ⟨plan, List.mem_append_left _ hplan, rfl⟩
  | _ => exact ⟨plan, hplan, rfl⟩

theorem Put.plans_eq (h : Put goalId db db') : db'.plans = db.plans := by
  cases h with
  | goal => exact Db.upsertThreadGoal_plans ..
  | node => simp [Db.activated]

theorem GoalOp.step_planIds_subset {op : GoalOp} (hguard : op.keepsSpending db)
    {plan : ThreadGoalPlan} (hplan : plan ∈ db.plans) :
    ∃ plan' ∈ (op.step redactStateString db).plans, plan'.planId = plan.planId := by
  apply GoalOp.step_invariant (J := fun mid => ∃ plan' ∈ mid.plans, plan'.planId = plan.planId)
  · rintro kind hkind a b hchange ⟨mid, hmid, hid⟩
    have hkept : kind ≠ .planDelete := by
      rintro rfl
      cases op <;> simp [kinds, keepsSpending] at hkind hguard
    obtain ⟨plan', hplan', hid'⟩ := hchange.planIds_subset hkept hmid
    exact ⟨plan', hplan', hid'.trans hid⟩
  · intro id a b hput ha
    rw [hput.plans_eq]
    exact ha
  · exact ⟨plan, hplan, rfl⟩

/-- From any reachable state on, a run of operations that keep the spending never
lowers the total of a plan. -/
theorem plan_total_never_falls
    (h : Reaches (GoalOp.step redactStateString) (fun _ _ => True) Db.empty db)
    (hrun : Reaches (GoalOp.step redactStateString) GoalOp.keepsSpending db db') :
    ∀ plan ∈ db.plans, db.totalPlanTokens plan.planId ≤ db'.totalPlanTokens plan.planId := by
  have hkept : db'.Integrity ∧ ∀ plan ∈ db.plans,
      (∃ plan' ∈ db'.plans, plan'.planId = plan.planId) ∧
        db.totalPlanTokens plan.planId ≤ db'.totalPlanTokens plan.planId := by
    apply hrun.invariant (J := fun mid => mid.Integrity ∧ ∀ plan ∈ db.plans,
      (∃ plan' ∈ mid.plans, plan'.planId = plan.planId) ∧
        db.totalPlanTokens plan.planId ≤ mid.totalPlanTokens plan.planId)
    · exact ⟨integrity_of_reaches h, fun plan hplan => ⟨⟨plan, hplan, rfl⟩, le_refl _⟩⟩
    · rintro op mid hguard ⟨hmid, hplans⟩
      refine ⟨op.step_integrity hmid, ?_⟩
      intro plan hplan
      obtain ⟨⟨row, hrow, hid⟩, htotal⟩ := hplans plan hplan
      rw [← hid] at htotal ⊢
      refine ⟨op.step_planIds_subset hguard hrow, htotal.trans ?_⟩
      rcases GoalOp.step_cases redactStateString op mid with hstep | hsame
      · exact GoalOp.run_totalPlanTokens_le hmid hguard hstep hrow
      · rw [hsame]
  intro plan hplan
  exact (hkept.2 plan hplan).2

/-- The goal of the sample plan once it has been charged. -/
def sampleChargedGoal (status : ThreadGoalStatus) (nowMs : Int) : ThreadGoal :=
  { freshThreadGoal sampleThread "goal".toList "build".toList none status (some 100) nowMs with
    tokensUsed := 50 }

theorem plan_total_never_falls_sample :
    (runOps (GoalOp.step id) [sampleCreate, sampleCharge] Db.empty).plans.length = 1 ∧
      ∀ plan ∈ (runOps (GoalOp.step id) [sampleCreate, sampleCharge] Db.empty).plans,
        (runOps (GoalOp.step id) [sampleCreate, sampleCharge] Db.empty).totalPlanTokens
            plan.planId ≤
          (GoalOp.step id (.syncGoalPlanNodeForGoal sampleThread (sampleChargedGoal .active 2) 3)
            (runOps (GoalOp.step id) [sampleCreate, sampleCharge] Db.empty)).totalPlanTokens
              plan.planId := by
  have hcharged : Reaches (GoalOp.step id) (fun _ _ => True) Db.empty
      (runOps (GoalOp.step id) [sampleCreate, sampleCharge] Db.empty) := .of_runOps _ .start
  have hguard : GoalOp.keepsSpending
      (.syncGoalPlanNodeForGoal sampleThread (sampleChargedGoal .active 2) 3)
      (runOps (GoalOp.step id) [sampleCreate, sampleCharge] Db.empty) := by
    unfold GoalOp.keepsSpending Db.coversUsage
    decide +kernel
  exact ⟨by decide +kernel, plan_total_never_falls hcharged (.next _ .start hguard)⟩

/-- The node of the plan has spent half of its budget and is deferred. -/
def sampleDeferred : List GoalOp :=
  [sampleCreate, sampleCharge,
    .updateThreadGoal sampleThread ⟨none, none, some .deferred, none, none⟩ 3,
    .deferGoalPlanNodeAndMaybeAdvance sampleThread (sampleChargedGoal .deferred 3) .aiDirected
      "unused".toList 4]

/-- Resuming the deferred node forgets what it has spent. -/
theorem plan_total_falls_after_resume :
    ∃ plan ∈ (runOps (GoalOp.step id) sampleDeferred Db.empty).plans,
      (runOps (GoalOp.step id) sampleDeferred Db.empty).totalPlanTokens plan.planId = 50 ∧
        (GoalOp.step id (.resumeDeferredGoalPlanNode sampleThread none "goal 2".toList 5)
          (runOps (GoalOp.step id) sampleDeferred Db.empty)).totalPlanTokens plan.planId = 0 := by
  decide +kernel

end Codewith.GoalStore
