import Codewith.GoalStore.Readiness

/-!
# Sums over the nodes of a plan

Recalculating the status of a plan adds up what its nodes have used and, if the
plan has a limit and a pending node, what they have reserved.  Neither sum may
leave the range of integers.  Completing a node leaves it only its usage, and
activating the next one reserves no more than what the plan has left.  No node
ever has a negative usage that would be given up then.
-/

namespace Codewith.GoalStore

open Lib

variable {redactStateString : Text → Text} {db db' : Db} {threadId : ThreadId}
  {plan : ThreadGoalPlan} {node : ThreadGoalPlanNodeRow} {goalId : Text} {nowMs : Int}

/-- The tokens that the node has used, as its goal counts them if it still exists. -/
def Db.usageOf (db : Db) (node : ThreadGoalPlanNodeRow) : Int :=
  ((db.threadGoals.find? node.isProjectedTo).map (·.tokensUsed)).getD node.tokensUsed

/-- The tokens of the plan that are used once the node is complete. -/
def Db.totalApartFrom (db : Db) (node : ThreadGoalPlanNodeRow) : Int :=
  Table.sumWhere (fun row => row.planId = node.planId && row.nodeId ≠ node.nodeId)
    (·.tokensUsed) db.nodes + db.usageOf node

/-- The tokens of the plan that are spoken for when the node has only its usage: that
of its goal, if the goal still exists. -/
def Db.reservedApartFrom (db : Db) (node : ThreadGoalPlanNodeRow) : Int :=
  Table.sumWhere (fun row => row.planId = node.planId && row.nodeId ≠ node.nodeId)
      (·.reservedTokens) db.nodes +
    ((db.threadGoals.find? node.isProjectedTo).map (·.tokensUsed)).getD node.tokensUsed

/-- The sums over the nodes of the plan are integers once the node is complete. -/
structure Db.SumsFitApartFrom (db : Db) (plan : ThreadGoalPlan) (node : ThreadGoalPlanNodeRow) :
    Prop where
  total : db.totalApartFrom node ≤ i64Max
  reserved : plan.maxTokens.isSome = true →
    (∃ row ∈ db.nodes, row.planId = node.planId ∧ row.nodeId ≠ node.nodeId ∧
      row.status = .pending) → db.reservedApartFrom node ≤ i64Max

instance (db : Db) (plan : ThreadGoalPlan) (node : ThreadGoalPlanNodeRow) :
    Decidable (db.SumsFitApartFrom plan node) :=
  decidable_of_iff (_ ∧ (_ → _ → _)) ⟨fun h => ⟨h.1, h.2⟩, fun h => ⟨h.total, h.reserved⟩⟩

/-! ## Used tokens -/

/-- No goal and no node has used a negative number of tokens. -/
structure Db.UsageNonneg (db : Db) : Prop where
  goals : ∀ goal ∈ db.threadGoals, 0 ≤ goal.tokensUsed
  nodes : ∀ row ∈ db.nodes, 0 ≤ row.tokensUsed

namespace Db.UsageNonneg

theorem updateThreadGoals (h : db.UsageNonneg) {p : ThreadGoal → Bool}
    {f : ThreadGoal → ThreadGoal} (hf : ∀ goal, goal.tokensUsed ≤ (f goal).tokensUsed) :
    (db.updateThreadGoals p f).UsageNonneg where
  goals := Table.forall_mem_updateWhere h.goals fun goal _ _ hgoal => hgoal.trans (hf goal)
  nodes := h.nodes

theorem deleteThreadGoals (h : db.UsageNonneg) (p : ThreadGoal → Bool) :
    (db.deleteThreadGoals p).UsageNonneg where
  goals goal hgoal := h.goals goal (Table.mem_deleteWhere.1 hgoal).1
  nodes := h.nodes

theorem upsertThreadGoal (h : db.UsageNonneg) {goal : ThreadGoal} (hgoal : 0 ≤ goal.tokensUsed) :
    (db.upsertThreadGoal goal).UsageNonneg := by
  unfold Db.upsertThreadGoal
  split
  · exact ⟨Table.forall_mem_updateWhere h.goals fun _ _ _ _ => hgoal, h.nodes⟩
  · refine ⟨fun other hother => ?_, h.nodes⟩
    rcases List.mem_append.1 hother with hold | hnew
    · exact h.goals other hold
    · rw [List.mem_singleton.1 hnew]
      exact hgoal

theorem updateNodes (h : db.UsageNonneg) {p : ThreadGoalPlanNodeRow → Bool}
    {f : ThreadGoalPlanNodeRow → ThreadGoalPlanNodeRow}
    (hf : ∀ row ∈ db.nodes, 0 ≤ (f row).tokensUsed) : (db.updateNodes p f).UsageNonneg where
  goals := h.goals
  nodes := Table.forall_mem_updateWhere h.nodes fun row hrow _ _ => hf row hrow

theorem insertNode (h : db.UsageNonneg) (hnode : 0 ≤ node.tokensUsed) :
    ∀ row ∈ db.nodes ++ [node], 0 ≤ row.tokensUsed := by
  intro row hrow
  rcases List.mem_append.1 hrow with hold | hnew
  · exact h.nodes row hold
  · rw [List.mem_singleton.1 hnew]
    exact hnode

theorem usageOf (h : db.UsageNonneg) (hnode : node ∈ db.nodes) : 0 ≤ db.usageOf node := by
  unfold Db.usageOf
  cases hgoal : db.threadGoals.find? node.isProjectedTo with
  | none => exact h.nodes node hnode
  | some goal => exact h.goals goal (List.mem_of_find?_eq_some hgoal)

theorem recorded (h : db.UsageNonneg) {goal : ThreadGoal} (hgoal : 0 ≤ goal.tokensUsed)
    (matching : Db → ThreadGoalPlanNodeRow → Bool) (status : ThreadGoalPlanNodeStatus)
    (nowMs : Int) : (db.recorded matching status goal nowMs).UsageNonneg :=
  h.updateNodes fun _ _ => hgoal

end Db.UsageNonneg

/-- The kinds of changes that take the usage of a goal from outside the database. -/
def Kind.recordsUsage : Kind → Bool
  | .nodeSync | .nodeRecord => true
  | _ => false

theorem Change.usageNonneg {kind : Kind} (hkind : kind.recordsUsage = false)
    (h : Change kind db db') (hdb : db.UsageNonneg) : db'.UsageNonneg := by
  have hkept : ∀ (p : ThreadGoalPlanNodeRow → Bool)
      (f : ThreadGoalPlanNodeRow → ThreadGoalPlanNodeRow),
      (∀ row, (f row).tokensUsed = row.tokensUsed) → (db.updateNodes p f).UsageNonneg := by
    intro p f hf
    exact hdb.updateNodes fun row hrow => (hdb.nodes row hrow).trans_eq (hf row).symm
  cases h with
  | goal hkeeps => exact hdb.updateThreadGoals fun goal => (hkeeps goal).2.2
  | goalRaw hkeeps => exact hdb.updateThreadGoals fun goal => (hkeeps goal).2.2
  | goalDelete => exact hdb.deleteThreadGoals _
  | planDelete =>
      refine ⟨(hdb.deleteThreadGoals _).goals, fun row hrow => ?_⟩
      exact hdb.nodes row (Table.mem_deleteWhere.1 hrow).1
  | nodeInsert _ _ htokens => exact ⟨hdb.goals, hdb.insertNode htokens.ge⟩
  | nodeConvert _ _ _ hgoal _ _ htokens =>
      refine ⟨hdb.goals, hdb.insertNode ?_⟩
      rw [htokens]
      exact hdb.goals _ (List.mem_of_find?_eq_some hgoal)
  | nodeStatus => exact hkept _ _ fun _ => rfl
  | nodeRequeue => exact hkept _ _ fun _ => rfl
  | nodeCancel => exact hkept _ _ fun _ => rfl
  | nodeResume => exact hkept _ _ fun _ => rfl
  | nodeEdit => exact hkept _ _ fun _ => rfl
  | nodeShift => exact hkept _ _ fun _ => rfl
  | nodeNest => exact hkept _ _ fun _ => rfl
  | nodeSync => cases hkind
  | nodeRecord => cases hkind
  | nodeComplete hnode =>
      refine (hdb.updateThreadGoals ?_).updateNodes ?_
      · exact fun goal => le_refl goal.tokensUsed
      · exact fun _ _ => hdb.usageOf hnode
  | nodeUndo => exact (hdb.deleteThreadGoals _).updateNodes fun _ _ => le_refl 0
  | _ => exact ⟨hdb.goals, hdb.nodes⟩

theorem Put.usageNonneg (h : Put goalId db db') (hdb : db.UsageNonneg) : db'.UsageNonneg := by
  cases h with
  | goal _ htokens => exact hdb.upsertThreadGoal htokens.ge
  | @node threadId =>
      have hdropped : (db.deleteBlockerAudits fun audit => audit.threadId = threadId).UsageNonneg :=
        ⟨hdb.goals, hdb.nodes⟩
      exact (hdropped.upsertThreadGoal (le_refl 0)).updateNodes fun _ _ => le_refl 0

/-- A goal that is passed in has not used a negative number of tokens. -/
def GoalOp.countsUsage (op : GoalOp) : Prop :=
  match op with
  | .syncGoalPlanNodeForGoal _ goal _ => 0 ≤ goal.tokensUsed
  | .completeGoalPlanNodeAndMaybeAdvance _ goal _ _ _ => 0 ≤ goal.tokensUsed
  | .deferGoalPlanNodeAndMaybeAdvance _ goal _ _ _ => 0 ≤ goal.tokensUsed
  | _ => True

theorem GoalOp.run_usageNonneg {op : GoalOp} (hguard : op.countsUsage) (hdb : db.UsageNonneg)
    (hrun : op.run redactStateString db = (.ok (), db')) : db'.UsageNonneg := by
  have hprogress : ∀ {kinds : List Kind} (newGoalId : Option Text) {stage : Db},
      (∀ kind ∈ kinds, kind.recordsUsage = false) → Progress kinds newGoalId stage db' →
        stage.UsageNonneg → db'.UsageNonneg := by
    intro kinds newGoalId stage hkinds h
    exact h.invariant (fun kind hkind _ _ hchange => hchange.usageNonneg (hkinds kind hkind))
      fun _ _ _ hput => hput.usageNonneg
  have hstatus : Kind.nodeStatus ∈ [Kind.nodeStatus, .plan] := by simp
  have hkind : Kind.plan ∈ [Kind.nodeStatus, .plan] := by simp
  have hwhole := GoalOp.progress hrun
  cases op <;> replace hrun := exists_of_discard_run_ok hrun <;>
    obtain ⟨outcome, hrun⟩ := hrun
  case syncGoalPlanNodeForGoal threadId goal nowMs =>
    exact hprogress none (by decide)
      (.of_changes (changes_syncGoalPlanNodeForGoal hstatus hkind hrun))
      (hdb.recorded hguard _ goal.status.toNodeStatus nowMs)
  case completeGoalPlanNodeAndMaybeAdvance threadId goal autoExecute goalId nowMs =>
    obtain ⟨stage, mid, hstage, hgoesOn⟩ := goesOn_completeGoalPlanNode hkind hrun
    exact hprogress (some goalId) (by decide)
      (hgoesOn.progress.prepend (changes_completeGoalPlanNode hstatus hkind hstage))
      (hdb.recorded hguard _ _ nowMs)
  case deferGoalPlanNodeAndMaybeAdvance threadId goal autoExecute goalId nowMs =>
    obtain ⟨stage, mid, hstage, hgoesOn⟩ := goesOn_deferGoalPlanNode hrun
    exact hprogress (some goalId) (by decide)
      (hgoesOn.progress.prepend (changes_deferGoalPlanNode hstatus hkind hstage))
      (hdb.recorded hguard _ _ nowMs)
  all_goals exact hprogress _ (by simp [GoalOp.kinds, Kind.recordsUsage]) hwhole hdb

theorem usageNonneg_of_reaches
    (h : Reaches (GoalOp.step redactStateString) (fun op _ => op.countsUsage) Db.empty db) :
    db.UsageNonneg := by
  apply h.invariant
  · exact ⟨fun _ hgoal => absurd hgoal List.not_mem_nil, fun _ hrow => absurd hrow List.not_mem_nil⟩
  · intro op mid hguard hmid
    rcases GoalOp.step_cases redactStateString op mid with hrun | hsame
    · exact op.run_usageNonneg hguard hmid hrun
    · rw [hsame]
      exact hmid

/-! ## What nodes reserve -/

theorem tokensUsed_le_reservedTokens (row : ThreadGoalPlanNodeRow) :
    row.tokensUsed ≤ row.reservedTokens := by
  unfold ThreadGoalPlanNodeRow.reservedTokens
  split
  · split
    · next hreserves => exact hreserves.2.le
    · exact le_refl _
  · exact le_refl _

theorem reservedTokens_of_not_reserves {row : ThreadGoalPlanNodeRow}
    (h : row.status.reserves = false) : row.reservedTokens = row.tokensUsed := by
  unfold ThreadGoalPlanNodeRow.reservedTokens
  cases row.tokenBudget <;> simp [h]

theorem totalPlanTokens_le_reservedPlanTokens (planId : Text) :
    db.totalPlanTokens planId ≤ db.reservedPlanTokens planId := by
  apply List.sum_le_sum
  intro row _
  exact tokensUsed_le_reservedTokens row

/-- A node without usage reserves no more than its budget. -/
theorem reservedTokens_le_of_budget {row : ThreadGoalPlanNodeRow} {left : Int}
    (htokens : row.tokensUsed = 0) (hleft : 0 ≤ left)
    (hbudget : ∀ budget, row.tokenBudget = some budget → budget ≤ left) :
    row.reservedTokens ≤ left := by
  unfold ThreadGoalPlanNodeRow.reservedTokens
  cases hrow : row.tokenBudget with
  | none => exact htokens.trans_le hleft
  | some budget =>
      dsimp only
      split
      · exact hbudget budget hrow
      · exact htokens.trans_le hleft

theorem effectiveTokenBudget_le {nodeBudget : Option Int} {remaining budget : Int}
    (h : effectiveTokenBudget nodeBudget (some remaining) = some budget) : budget ≤ remaining := by
  cases nodeBudget with
  | none =>
      cases h
      exact le_refl _
  | some nodeBudget =>
      cases h
      exact min_le_right _ _

/-! ## The sum of the readiness query -/

theorem Db.Integrity.reservedForReadiness_eq (hdb : db.Integrity) (hplan : plan ∈ db.plans) :
    db.reservedForReadiness plan.planId =
      if (db.nodes.any fun row => row.planId = plan.planId && row.status = .pending) &&
          plan.maxTokens.isSome then
        db.reservedPlanTokens plan.planId
      else 0 := by
  have hlimit : (db.plans.any fun row => row.planId = plan.planId && row.maxTokens.isSome) =
      plan.maxTokens.isSome := by
    rw [Bool.eq_iff_iff, List.any_eq_true]
    constructor
    · rintro ⟨row, hrow, hmatch⟩
      rw [Bool.and_eq_true, decide_eq_true_eq] at hmatch
      rw [← hdb.eq_of_planId hrow hplan hmatch.1]
      exact hmatch.2
    · intro hsome
      refine ⟨plan, hplan, ?_⟩
      rw [hsome, Bool.and_true]
      exact decide_eq_true rfl
  rw [Db.reservedForReadiness, hlimit]

/-- The reserved tokens are added up only for a plan with a limit and a pending node. -/
theorem Db.Integrity.reservedForReadiness_le_iff (hdb : db.Integrity) (hplan : plan ∈ db.plans) :
    db.reservedForReadiness plan.planId ≤ i64Max ↔
      (plan.maxTokens.isSome = true →
        (∃ row ∈ db.nodes, row.planId = plan.planId ∧ row.status = .pending) →
          db.reservedPlanTokens plan.planId ≤ i64Max) := by
  have hzero : (0 : Int) ≤ i64Max := by decide
  rw [hdb.reservedForReadiness_eq hplan]
  split
  · next hsums =>
      simp only [Bool.and_eq_true, List.any_eq_true, decide_eq_true_eq] at hsums
      exact ⟨fun hfits _ _ => hfits, fun hfits => hfits hsums.2 hsums.1⟩
  · next hsums =>
      simp only [Bool.and_eq_true, List.any_eq_true, decide_eq_true_eq] at hsums
      exact ⟨fun _ hlimit hpending => absurd ⟨hpending, hlimit⟩ hsums, fun _ => hzero⟩

/-- The sums depend on the nodes and on whether the plan has a limit. -/
theorem Db.PlanSumsFit.congr {plan' : ThreadGoalPlan} (h : db.PlanSumsFit plan.planId)
    (hdb : db.Integrity) (hplan : plan ∈ db.plans) (hdb' : db'.Integrity)
    (hplan' : plan' ∈ db'.plans) (hid : plan'.planId = plan.planId)
    (hlimit : plan'.maxTokens = plan.maxTokens) (hnodes : db'.nodes = db.nodes) :
    db'.PlanSumsFit plan'.planId := by
  have htotal : db'.totalPlanTokens plan'.planId = db.totalPlanTokens plan.planId := by
    rw [Db.totalPlanTokens, Db.totalPlanTokens, hnodes, hid]
  have hreserved : db'.reservedPlanTokens plan'.planId = db.reservedPlanTokens plan.planId := by
    rw [Db.reservedPlanTokens, Db.reservedPlanTokens, hnodes, hid]
  refine ⟨htotal.trans_le h.total, ?_⟩
  rw [hdb'.reservedForReadiness_le_iff hplan', hreserved, hlimit, hnodes, hid]
  exact (hdb.reservedForReadiness_le_iff hplan).1 h.reserved

/-! ## Once a node is complete -/

theorem filter_nodeId_eq (hdb : db.Integrity) (hnode : node ∈ db.nodes) :
    db.nodes.filter (fun row => row.nodeId = node.nodeId) = [node] := by
  apply Table.filter_eq_singleton hdb.nodes.of_map hnode
  intro row hrow
  rw [decide_eq_true_eq]
  constructor
  · exact hdb.eq_of_nodeId hrow hnode
  · rintro rfl
    rfl

/-- A sum in which a complete node counts for its usage. -/
theorem sumWhere_withNodeComplete (hdb : db.Integrity) (hnode : node ∈ db.nodes)
    {g : ThreadGoalPlanNodeRow → Int}
    (hg : ∀ row : ThreadGoalPlanNodeRow, row.status = .complete → g row = row.tokensUsed) :
    Table.sumWhere (fun row => row.planId = node.planId) g (db.withNodeComplete node nowMs).nodes =
      Table.sumWhere (fun row => row.planId = node.planId && row.nodeId ≠ node.nodeId) g db.nodes +
        db.usageOf node := by
  rw [Db.withNodeComplete, Db.updateNodes_nodes, Db.updateThreadGoals_nodes,
    Table.sumWhere_updateWhere_single (filter_nodeId_eq hdb hnode) (decide_eq_true rfl), hg _ rfl]
  simp [Db.usageOf]

theorem totalPlanTokens_withNodeComplete (hdb : db.Integrity) (hnode : node ∈ db.nodes) :
    (db.withNodeComplete node nowMs).totalPlanTokens node.planId = db.totalApartFrom node :=
  sumWhere_withNodeComplete hdb hnode fun _ _ => rfl

theorem reservedPlanTokens_withNodeComplete (hdb : db.Integrity) (hnode : node ∈ db.nodes) :
    (db.withNodeComplete node nowMs).reservedPlanTokens node.planId =
      db.reservedApartFrom node := by
  apply sumWhere_withNodeComplete hdb hnode
  intro row hcomplete
  apply reservedTokens_of_not_reserves
  rw [hcomplete]
  rfl

theorem mem_withNodeComplete {row : ThreadGoalPlanNodeRow}
    (h : row ∈ (db.withNodeComplete node nowMs).nodes) :
    (row.nodeId = node.nodeId ∧ row.status = .complete) ∨
      (row ∈ db.nodes ∧ row.nodeId ≠ node.nodeId) := by
  rcases Table.mem_updateWhere.1 h with ⟨old, -, hid, rfl⟩ | ⟨hmem, hid⟩
  · exact .inl ⟨of_decide_eq_true hid, rfl⟩
  · exact .inr ⟨hmem, of_decide_eq_false hid⟩

theorem pending_withNodeComplete_iff :
    (∃ row ∈ (db.withNodeComplete node nowMs).nodes,
        row.planId = node.planId ∧ row.status = .pending) ↔
      ∃ row ∈ db.nodes, row.planId = node.planId ∧ row.nodeId ≠ node.nodeId ∧
        row.status = .pending := by
  constructor
  · rintro ⟨row, hrow, hrowPlan, hrowPending⟩
    rcases mem_withNodeComplete hrow with ⟨-, hcomplete⟩ | ⟨hmem, hother⟩
    · rw [hcomplete] at hrowPending
      cases hrowPending
    · exact ⟨row, hmem, hrowPlan, hother, hrowPending⟩
  · rintro ⟨row, hrow, hrowPlan, hother, hrowPending⟩
    exact ⟨row, Table.mem_updateWhere.2 (.inr ⟨hrow, decide_eq_false hother⟩), hrowPlan,
      hrowPending⟩

theorem planSumsFit_withNodeComplete (hdb : db.Integrity) (hplan : plan ∈ db.plans)
    (hnode : node ∈ db.nodes) (hid : plan.planId = node.planId) :
    (db.withNodeComplete node nowMs).PlanSumsFit node.planId ↔ db.SumsFitApartFrom plan node := by
  have hmid : (db.withNodeComplete node nowMs).Integrity :=
    (Change.nodeComplete hnode nowMs).integrity hdb
  have hplanMid : plan ∈ (db.withNodeComplete node nowMs).plans := hplan
  have hreserved := hmid.reservedForReadiness_le_iff hplanMid
  rw [hid, reservedPlanTokens_withNodeComplete hdb hnode, pending_withNodeComplete_iff] at hreserved
  have htotal : (db.withNodeComplete node nowMs).totalPlanTokens node.planId =
      db.totalApartFrom node := totalPlanTokens_withNodeComplete hdb hnode
  constructor
  · intro h
    exact ⟨htotal.symm.trans_le h.total, hreserved.1 h.reserved⟩
  · intro h
    exact ⟨htotal.trans_le h.total, hreserved.2 h.reserved⟩

/-! ## Once the next node is activated -/

/-- Only the activated node changes in a sum over the nodes of its plan. -/
theorem sumWhere_activated (hdb : db.Integrity) (hnode : node ∈ db.nodes)
    (hpending : node.status = .pending) (goal : ThreadGoal) (g : ThreadGoalPlanNodeRow → Int) :
    Table.sumWhere (fun row => row.planId = node.planId) g
        (db.activated threadId node.nodeId goal nowMs).nodes =
      Table.sumWhere (fun row => row.planId = node.planId) g db.nodes - g node +
        g (node.activatedBy goal nowMs) := by
  have hsingle : db.nodes.filter
      (fun row => row.nodeId = node.nodeId && row.status.activatable) = [node] := by
    apply Table.filter_eq_singleton hdb.nodes.of_map hnode
    intro row hrow
    rw [Bool.and_eq_true, decide_eq_true_eq]
    constructor
    · exact fun hmatch => hdb.eq_of_nodeId hrow hnode hmatch.1
    · rintro rfl
      exact ⟨rfl, by rw [hpending]; rfl⟩
  have hbefore := Table.sumWhere_single (q := fun row => row.planId = node.planId) hsingle
    (decide_eq_true rfl) g
  rw [Db.activated_nodes, Table.sumWhere_updateWhere_single hsingle (decide_eq_true rfl) g,
    hbefore]
  omega

/-- An activated node reserves no more than what its plan has left. -/
theorem reservedTokens_activatedBy_le {maxTokens : Int} (hlimit : plan.maxTokens = some maxTokens)
    (hroom : db.reservedPlanTokens node.planId < maxTokens) :
    (node.activatedBy (activatedGoal redactStateString threadId goalId nowMs plan node db)
        nowMs).reservedTokens ≤ maxTokens - db.reservedPlanTokens node.planId := by
  apply reservedTokens_le_of_budget rfl (by omega)
  intro budget hbudget
  have heffective : effectiveTokenBudget node.tokenBudget
      (some (max (maxTokens - db.reservedPlanTokens node.planId) 0)) = some budget := by
    rw [← hbudget]
    simp [ThreadGoalPlanNodeRow.activatedBy, activatedGoal, freshThreadGoal, hlimit]
  have hle := effectiveTokenBudget_le heffective
  omega

/-- The next node gives up its usage and reserves no more than the plan has left. -/
theorem planSumsFit_activateNextNode (hdb : db.Integrity) (hplan : plan ∈ db.plans)
    (hmax : ∀ maxTokens, plan.maxTokens = some maxTokens → maxTokens ≤ i64Max)
    (hfits : db.PlanSumsFit plan.planId) {autoExecute : ThreadGoalPlanAutoExecute}
    {next : ThreadGoalPlanNodeRow}
    (hnext : db.nextReadyNode threadId plan.planId autoExecute = some next)
    (husage : 0 ≤ next.tokensUsed) {goal : ThreadGoal}
    (hactivate : activateNodeInTx redactStateString threadId next.nodeId goalId nowMs db =
      (.ok goal, db')) : db'.PlanSumsFit plan.planId := by
  have hintegrity : db'.Integrity := (put_activateNodeInTx hactivate).integrity hdb
  have hleft := planHasTokensLeft_of_nextReadyNode hdb hplan hnext
  obtain ⟨hmem, hnextPlan, hpending, -, -⟩ := of_nextReadyNode hnext
  obtain ⟨plan', found, hcan, rfl, rfl⟩ := activateNodeInTx_eq_ok.1 hactivate
  obtain rfl : found = next := by
    have hmatch := List.find?_some hcan.found
    simp only [Bool.and_eq_true, decide_eq_true_eq] at hmatch
    exact hdb.eq_of_nodeId (List.mem_of_find?_eq_some hcan.found) hmem hmatch.1.1
  obtain rfl : plan' = plan := by
    have hmatch := List.find?_some hcan.plan
    exact hdb.eq_of_planId (List.mem_of_find?_eq_some hcan.plan) hplan
      ((of_decide_eq_true hmatch).trans hnextPlan)
  set goal := activatedGoal redactStateString threadId goalId nowMs plan' found db
  have hsums (g : ThreadGoalPlanNodeRow → Int) :
      Table.sumWhere (fun row => row.planId = found.planId) g
          (db.activated threadId found.nodeId goal nowMs).nodes =
        Table.sumWhere (fun row => row.planId = found.planId) g db.nodes - g found +
          g (found.activatedBy goal nowMs) := sumWhere_activated hdb hmem hpending goal g
  rw [hnextPlan] at hsums
  constructor
  · have htotal := hsums (·.tokensUsed)
    have hzero : (found.activatedBy goal nowMs).tokensUsed = 0 := rfl
    have hbefore := hfits.total
    rw [Db.totalPlanTokens] at hbefore ⊢
    omega
  · have hplanAfter : plan' ∈ (db.activated threadId found.nodeId goal nowMs).plans := by
      simpa [Db.activated] using hplan
    rw [hintegrity.reservedForReadiness_le_iff hplanAfter]
    intro hsome _
    obtain ⟨maxTokens, hlimit⟩ := Option.isSome_iff_exists.1 hsome
    have hroom : db.reservedPlanTokens found.planId < maxTokens := by
      rw [hnextPlan]
      simpa [Db.planHasTokensLeft, hlimit] using hleft
    have hreserves : (found.activatedBy goal nowMs).reservedTokens ≤
        maxTokens - db.reservedPlanTokens found.planId := reservedTokens_activatedBy_le hlimit hroom
    have hown : found.reservedTokens = found.tokensUsed :=
      reservedTokens_of_not_reserves (by rw [hpending]; rfl)
    have hreserved := hsums (·.reservedTokens)
    have hbound := hmax maxTokens hlimit
    rw [hnextPlan, Db.reservedPlanTokens] at hreserves
    rw [Db.reservedPlanTokens]
    omega

end Codewith.GoalStore
