import Codewith.GoalStore.PlanSums

/-!
# Marking a node complete

A node that was started passes on to the next ready node of its plan in the same
transaction.  When that activation is refused, because the thread is busy with
something else, the completion is undone with it; so it is when a sum over the
nodes of the plan leaves the range of integers.
-/

namespace Codewith.GoalStore

open Lib

variable {redactStateString : Text → Text} {db db' : Db} {threadId : ThreadId}
  {plan : ThreadGoalPlan} {node : ThreadGoalPlanNodeRow} {goalId : Text} {nowMs : Int}

/-! ## When going on is refused -/

/-- A pending node of the same plan, for the thread, that waits for no other node. -/
def Db.waitsOnlyFor (db : Db) (threadId : ThreadId) (node candidate : ThreadGoalPlanNodeRow) :
    Bool :=
  candidate.planId = node.planId && candidate.status = .pending &&
    candidate.assignedThreadId = threadId &&
    (db.dependencyNodes candidate.nodeId).all fun row =>
      row.nodeId = node.nodeId || row.status = .complete

/-- Once the node is complete, the mode of execution picks a next node. -/
def Db.picksNext (db : Db) (plan : ThreadGoalPlan) (node : ThreadGoalPlanNodeRow)
    (threadId : ThreadId) (autoExecute : ThreadGoalPlanAutoExecute) : Bool :=
  let waiting := Table.countWhere (db.waitsOnlyFor threadId node) db.nodes
  (plan.maxTokens.all fun maxTokens => db.reservedApartFrom node < maxTokens) &&
    match autoExecute with
    | .off => false
    | .readyOnly => waiting = 1
    | .aiDirected => 0 < waiting

/-- Apart from the node and its goal, nothing keeps the thread busy. -/
def Db.freeApartFrom (db : Db) (threadId : ThreadId) (node : ThreadGoalPlanNodeRow) : Bool :=
  (db.nodes.all fun row => row.assignedThreadId ≠ threadId || row.status ≠ .active ||
      row.nodeId = node.nodeId) &&
    (db.threadGoal? threadId).all fun goal => goal.status.makesRoom || node.isProjectedTo goal

/-- A started node has a next node, but the thread is busy with something else. -/
def Db.advanceIsRefused (db : Db) (plan : ThreadGoalPlan) (node : ThreadGoalPlanNodeRow)
    (params : ThreadGoalPlanNodeStatusUpdateParams) : Bool :=
  node.status.isStarted && db.picksNext plan node params.threadId params.autoExecute &&
    !db.freeApartFrom params.threadId node

/-! ## The database once the node is complete -/

theorem threadGoal?_withNodeComplete :
    (db.withNodeComplete node nowMs).threadGoal? threadId =
      (db.threadGoal? threadId).map fun goal =>
        if node.isProjectedTo goal then { goal with status := .complete, updatedAtMs := nowMs }
        else goal := by
  simp only [Db.threadGoal?, Db.withNodeComplete, Db.updateNodes_threadGoals,
    Db.updateThreadGoals_threadGoals, Table.updateWhere, List.find?_map]
  congr 1
  apply congrArg fun p => db.threadGoals.find? p
  funext goal
  simp only [Function.comp_apply]
  split <;> rfl

theorem threadIsFree_withNodeComplete :
    (db.withNodeComplete node nowMs).threadIsFree threadId = db.freeApartFrom threadId node := by
  rw [Bool.eq_iff_iff, Db.threadIsFree_iff]
  simp only [Db.freeApartFrom, Bool.and_eq_true, List.all_eq_true, Bool.or_eq_true,
    decide_eq_true_eq, Option.all_eq_true, threadGoal?_withNodeComplete]
  constructor
  · rintro ⟨hidle, hroom⟩
    refine ⟨?_, ?_⟩
    · intro row hrow
      by_cases hid : row.nodeId = node.nodeId
      · exact .inr hid
      · left
        by_contra hbusy
        rw [not_or, not_not, not_not] at hbusy
        have hstays : row ∈ (db.withNodeComplete node nowMs).nodes :=
          Table.mem_updateWhere.2 (.inr ⟨hrow, decide_eq_false hid⟩)
        exact hidle row hstays hbusy.1 hbusy.2
    · intro goal hgoal
      cases hprojected : node.isProjectedTo goal with
      | true => exact .inr rfl
      | false =>
          left
          apply hroom goal
          rw [hgoal, Option.map_some, hprojected]
          rfl
  · rintro ⟨hidle, hroom⟩
    refine ⟨?_, ?_⟩
    · intro row hrow hassigned hactive
      rcases mem_withNodeComplete hrow with ⟨-, hcomplete⟩ | ⟨hmem, hid⟩
      · rw [hcomplete] at hactive
        cases hactive
      · rcases hidle row hmem with (hother | hother) | hother
        · exact hother hassigned
        · exact hother hactive
        · exact hid hother
    · intro goal hgoal
      obtain ⟨old, hold, rfl⟩ := Option.map_eq_some_iff.1 hgoal
      cases hprojected : node.isProjectedTo old with
      | true => rfl
      | false => simpa [hprojected] using hroom old hold

theorem dependenciesComplete_withNodeComplete {candidateId : Text} :
    (db.withNodeComplete node nowMs).dependenciesComplete candidateId =
      (db.dependencyNodes candidateId).all fun row =>
        row.nodeId = node.nodeId || row.status = .complete := by
  rw [Bool.eq_iff_iff, Db.dependenciesComplete_iff]
  simp only [Db.dependencyNodes, List.all_eq_true, List.mem_filter, List.any_eq_true,
    decide_eq_true_eq, Bool.or_eq_true]
  constructor
  · rintro h row ⟨hrow, dependency, hdependency, hid, hdependsOn⟩
    by_cases hsame : row.nodeId = node.nodeId
    · exact .inl hsame
    · have hstays : row ∈ (db.withNodeComplete node nowMs).nodes :=
        Table.mem_updateWhere.2 (.inr ⟨hrow, decide_eq_false hsame⟩)
      exact .inr (h dependency hdependency hid row hstays hdependsOn)
  · intro h dependency hdependency hid row hrow hdependsOn
    rcases mem_withNodeComplete hrow with ⟨-, hcomplete⟩ | ⟨hmem, hother⟩
    · exact hcomplete
    · exact (h row ⟨hmem, dependency, hdependency, hid, hdependsOn⟩).resolve_left hother

/-! ## The status of the plan and the next node -/

/-- A plan with a node that can start is active. -/
theorem recalculatedStatus_of_startable (hplan : plan ∈ db.plans)
    {candidate : ThreadGoalPlanNodeRow}
    (hcandidate : candidate ∈ db.nodes) (hid : candidate.planId = plan.planId)
    (hpending : candidate.status = .pending) (htokens : db.planHasTokensLeft plan = true)
    (hready : db.dependenciesComplete candidate.nodeId = true) :
    db.recalculatedStatus plan = .active := by
  have hopen : db.recalculatedStatus plan = db.openPlanStatus plan := by
    rcases db.recalculatedStatus_cases plan with ⟨hcomplete, -⟩ | ⟨hsettled, -⟩ | ⟨-, -, hopen⟩
    · have hstatus := hcomplete.2 candidate hcandidate hid
      rw [hpending] at hstatus
      cases hstatus
    · have hstatus := hsettled.2 candidate hcandidate hid
      rw [hpending] at hstatus
      rcases hstatus with hstatus | hstatus <;> cases hstatus
    · exact hopen
  have hspent : ¬(plan.maxTokens.any fun maxTokens =>
      maxTokens ≤ db.totalPlanTokens plan.planId) = true := by
    rw [Db.planHasTokensLeft] at htokens
    cases hmax : plan.maxTokens with
    | none => simp
    | some maxTokens =>
        have hleft : db.reservedPlanTokens plan.planId < maxTokens := by simpa [hmax] using htokens
        have htotal : db.totalPlanTokens plan.planId ≤ db.reservedPlanTokens plan.planId :=
          totalPlanTokens_le_reservedPlanTokens plan.planId
        simp only [Option.any_some, decide_eq_true_eq]
        omega
  have hcount : 0 < db.readyNodeCountIgnoringPlanStatus plan.planId := by
    rw [Db.readyNodeCountIgnoringPlanStatus, Table.countWhere_pos]
    refine ⟨candidate, hcandidate, ?_⟩
    simp only [Db.isStartable, hready, Bool.and_eq_true, List.any_eq_true, decide_eq_true_eq]
    exact ⟨⟨hid, hpending⟩, ⟨plan, hplan, ⟨hid.symm, trivial⟩, htokens⟩, trivial⟩
  rw [hopen, Db.openPlanStatus, if_neg hspent, if_pos (.inr hcount)]

/-- The database once the plan is recalculated. -/
def Db.recalculated (db : Db) (plan : ThreadGoalPlan) (nowMs : Int) : Db :=
  db.updatePlans (fun row => row.planId = plan.planId) fun row =>
    { row with status := db.recalculatedStatus plan, updatedAtMs := nowMs }

theorem Db.Integrity.recalculate_run (hdb : db.Integrity) (hplan : plan ∈ db.plans)
    (hnode : node ∈ db.nodes) (hid : plan.planId = node.planId)
    (hfits : db.PlanSumsFit node.planId) :
    recalculateGoalPlanStatusInTx node.planId nowMs db =
      (.ok (db.recalculatedStatus plan), db.recalculated plan nowMs) := by
  rw [← hid] at hfits ⊢
  apply recalculateGoalPlanStatusInTx_eq_ok.2
  exact ⟨⟨node, hnode, hid.symm⟩, hfits, plan, hdb.findPlan_eq hplan rfl, rfl, rfl⟩

/-- After a recalculation, the status of the plan does not keep a node from starting. -/
theorem isStartable_recalculated (hdb : db.Integrity) (hplan : plan ∈ db.plans)
    {candidate : ThreadGoalPlanNodeRow} (hcandidate : candidate ∈ db.nodes)
    (hid : candidate.planId = plan.planId) (hpending : candidate.status = .pending) :
    (db.recalculated plan nowMs).isStartable (fun status => status = .active) candidate =
      (db.planHasTokensLeft plan && db.dependenciesComplete candidate.nodeId) := by
  have hdependencies : (db.recalculated plan nowMs).dependenciesComplete candidate.nodeId =
      db.dependenciesComplete candidate.nodeId := rfl
  rw [Bool.eq_iff_iff, Db.isStartable, hdependencies, Bool.and_eq_true, Bool.and_eq_true,
    List.any_eq_true]
  constructor
  · rintro ⟨⟨row, hrow, hmatch⟩, hready⟩
    refine ⟨?_, hready⟩
    rw [Bool.and_eq_true, Bool.and_eq_true, decide_eq_true_eq] at hmatch
    rcases Table.mem_updateWhere.1 hrow with ⟨old, hold, hsame, rfl⟩ | ⟨-, hother⟩
    · obtain rfl := hdb.eq_of_planId hold hplan (of_decide_eq_true hsame)
      exact hmatch.2
    · exact absurd (hmatch.1.1.trans hid) (of_decide_eq_false hother)
  · rintro ⟨htokens, hready⟩
    refine ⟨⟨_, Table.mem_updateWhere.2 (.inl ⟨plan, hplan, decide_eq_true rfl, rfl⟩), ?_⟩, hready⟩
    rw [Bool.and_eq_true, Bool.and_eq_true, decide_eq_true_eq, decide_eq_true_eq]
    exact ⟨⟨hid.symm, recalculatedStatus_of_startable hplan hcandidate hid hpending htokens hready⟩,
      htokens⟩

/-- How many ready nodes of the plan the thread has, whatever their order. -/
theorem nextReadyNode_isSome {planId : Text} {autoExecute : ThreadGoalPlanAutoExecute} :
    (db.nextReadyNode threadId planId autoExecute).isSome =
      let ready := Table.countWhere (fun candidate => (candidate.planId = planId &&
        candidate.status = .pending && db.isStartable (fun status => status = .active) candidate) &&
        candidate.assignedThreadId = threadId) db.nodes
      match autoExecute with
      | .off => false
      | .readyOnly => ready = 1
      | .aiDirected => 0 < ready := by
  have hlength : ((db.readyPlanNodes planId).filter fun candidate =>
      candidate.assignedThreadId = threadId).length =
      Table.countWhere (fun candidate => (candidate.planId = planId &&
        candidate.status = .pending && db.isStartable (fun status => status = .active) candidate) &&
        candidate.assignedThreadId = threadId) db.nodes := by
    rw [Table.countWhere_and, Table.countWhere, List.countP_eq_length_filter]
    apply List.Perm.length_eq
    exact (List.perm_insertionSort _ _).filter _
  simp only [← hlength]
  unfold Db.nextReadyNode
  generalize ((db.readyPlanNodes planId).filter fun candidate =>
    candidate.assignedThreadId = threadId) = ready
  cases autoExecute with
  | off => rfl
  | readyOnly =>
      dsimp only
      split
      · next hone =>
          cases ready with
          | nil => cases hone
          | cons => simpa using hone
      · next hone => simp [hone]
  | aiDirected => cases ready <;> simp

/-- Nothing about the next node has to be read off the completed state. -/
theorem nextReadyNode_completed (hdb : db.Integrity) (hplan : plan ∈ db.plans)
    (hnode : node ∈ db.nodes) (hid : plan.planId = node.planId)
    (hstarted : node.status.isStarted = true) {autoExecute : ThreadGoalPlanAutoExecute} :
    (((db.withNodeComplete node nowMs).recalculated plan nowMs).nextReadyNode threadId node.planId
      autoExecute).isSome = db.picksNext plan node threadId autoExecute := by
  have hmidIntegrity : (db.withNodeComplete node nowMs).Integrity :=
    (Change.nodeComplete hnode nowMs).integrity hdb
  have htokens : (db.withNodeComplete node nowMs).planHasTokensLeft plan =
      plan.maxTokens.all fun maxTokens => db.reservedApartFrom node < maxTokens := by
    rw [Db.planHasTokensLeft, hid, reservedPlanTokens_withNodeComplete hdb hnode]
    cases plan.maxTokens <;> rfl
  have hcount : Table.countWhere (fun candidate => (candidate.planId = node.planId &&
      candidate.status = .pending && ((db.withNodeComplete node nowMs).recalculated plan
        nowMs).isStartable (fun status => status = .active) candidate) &&
      candidate.assignedThreadId = threadId) (db.withNodeComplete node nowMs).nodes =
      Table.countWhere (fun candidate =>
        (plan.maxTokens.all fun maxTokens => db.reservedApartFrom node < maxTokens) &&
          db.waitsOnlyFor threadId node candidate) db.nodes := by
    apply Table.countWhere_updateWhere
    · intro row hrow hsame
      obtain rfl := hdb.eq_of_nodeId hrow hnode (of_decide_eq_true hsame)
      have hnotPending : row.status ≠ .pending := by
        intro hpending
        rw [hpending] at hstarted
        cases hstarted
      simp [Db.waitsOnlyFor, hnotPending]
    · intro row hrow hother
      have hstays : row ∈ (db.withNodeComplete node nowMs).nodes :=
        Table.mem_updateWhere.2 (.inr ⟨hrow, hother⟩)
      by_cases hcandidate : row.planId = node.planId ∧ row.status = .pending
      · rw [isStartable_recalculated hmidIntegrity hplan hstays (hcandidate.1.trans hid.symm)
          hcandidate.2, htokens, dependenciesComplete_withNodeComplete, Db.waitsOnlyFor,
          decide_eq_true hcandidate.1, decide_eq_true hcandidate.2]
        simp only [Bool.true_and, Bool.and_assoc]
        congr 1
        rw [Bool.and_comm]
      · rw [not_and] at hcandidate
        by_cases hrowPlan : row.planId = node.planId
        · simp [Db.waitsOnlyFor, hcandidate hrowPlan]
        · simp [Db.waitsOnlyFor, hrowPlan]
  have hnodes : ((db.withNodeComplete node nowMs).recalculated plan nowMs).nodes =
      (db.withNodeComplete node nowMs).nodes := rfl
  rw [nextReadyNode_isSome, hnodes]
  dsimp only
  rw [hcount]
  unfold Db.picksNext
  cases plan.maxTokens.all fun maxTokens => db.reservedApartFrom node < maxTokens with
  | true => simp only [Bool.true_and]
  | false =>
      cases autoExecute <;> simp [Table.countWhere]

/-! ## The run -/

/-- The next node is activated exactly when the thread is free for it. -/
theorem activateNextReadyNode_isOk_iff (hdb : db.Integrity) (hplan : plan ∈ db.plans)
    {autoExecute : ThreadGoalPlanAutoExecute} :
    (∃ activated after, activateNextReadyNodeInTx redactStateString threadId plan.planId autoExecute
        goalId nowMs db = (.ok activated, after)) ↔
      ((db.nextReadyNode threadId plan.planId autoExecute).isSome = true →
        db.threadIsFree threadId = true) := by
  constructor
  · rintro ⟨activated, after, hrun⟩ hsome
    rcases activateNextReadyNodeInTx_eq_ok.1 hrun with ⟨hnone, -⟩ | ⟨next, -, goal, -, hactivate⟩
    · rw [hnone] at hsome
      cases hsome
    · obtain ⟨_, _, hcan, -, -⟩ := activateNodeInTx_eq_ok.1 hactivate
      exact Db.threadIsFree_iff.2 ⟨hcan.idle, hcan.room⟩
  · intro hfree
    cases hnext : db.nextReadyNode threadId plan.planId autoExecute with
    | none => exact ⟨none, db, activateNextReadyNodeInTx_eq_ok.2 (.inl ⟨hnext, rfl, rfl⟩)⟩
    | some next =>
        obtain ⟨hmem, hnextPlan, hpending, hassigned, -⟩ := of_nextReadyNode hnext
        have hcan := (hdb.canActivate_iff hmem hplan hnextPlan.symm hassigned
          (by simp [hpending, ThreadGoalPlanNodeStatus.activatable])).2 (hfree (by rw [hnext]; rfl))
        have hactivate : activateNodeInTx redactStateString threadId next.nodeId goalId nowMs db =
            (.ok _, _) := activateNodeInTx_eq_ok.2 ⟨plan, next, hcan, rfl, rfl⟩
        exact ⟨_, _, activateNextReadyNodeInTx_eq_ok.2 (.inr ⟨next, hnext, _, rfl, hactivate⟩)⟩

/-- Going on leaves the plans and the complete nodes alone. -/
theorem advanceFromStartedNode_frame (hdb : db.Integrity)
    {params : ThreadGoalPlanNodeStatusUpdateParams} {started : ThreadGoalPlanNode}
    {activated : Option ThreadGoal}
    (h : advanceFromStartedNode redactStateString params started goalId nowMs db =
      (.ok activated, db')) :
    db'.Integrity ∧ db'.plans = db.plans ∧
      ∀ row ∈ db.nodes, row.status = .complete → row ∈ db'.nodes := by
  simp only [advanceFromStartedNode, Exec.ite_run] at h
  split at h
  · rcases activateNextReadyNodeInTx_eq_ok.1 h with ⟨-, -, rfl⟩ | ⟨next, -, goal, -, hactivate⟩
    · exact ⟨hdb, rfl, fun _ hrow _ => hrow⟩
    · refine ⟨(put_activateNodeInTx hactivate).integrity hdb, ?_⟩
      obtain ⟨_, _, -, -, rfl⟩ := activateNodeInTx_eq_ok.1 hactivate
      refine ⟨by simp [Db.activated], ?_⟩
      intro row hrow hcomplete
      rw [Db.activated_nodes]
      refine Table.mem_updateWhere.2 (.inr ⟨hrow, ?_⟩)
      simp [hcomplete, ThreadGoalPlanNodeStatus.activatable]
  · obtain ⟨-, rfl⟩ := Exec.pure_eq_ok.1 h
    exact ⟨hdb, rfl, fun _ hrow _ => hrow⟩

theorem advanceFromStartedNode_isOk_iff (hdb : db.Integrity) (hplan : plan ∈ db.plans)
    (hnode : node ∈ db.nodes) (hid : plan.planId = node.planId)
    {params : ThreadGoalPlanNodeStatusUpdateParams} {dependsOn : List Text} :
    (∃ activated after, advanceFromStartedNode redactStateString params ⟨node, dependsOn⟩ goalId
        nowMs ((db.withNodeComplete node nowMs).recalculated plan nowMs) = (.ok activated, after)) ↔
      db.advanceIsRefused plan node params = false := by
  have hstage : ((db.withNodeComplete node nowMs).recalculated plan nowMs).Integrity :=
    ((Change.nodeComplete hnode nowMs).integrity hdb).updatePlans fun _ => rfl
  have hplanAfter : ∃ after ∈ ((db.withNodeComplete node nowMs).recalculated plan nowMs).plans,
      after.planId = node.planId :=
    ⟨_, Table.mem_updateWhere.2 (.inl ⟨plan, hplan, decide_eq_true rfl, rfl⟩), hid⟩
  obtain ⟨after, hafter, hafterId⟩ := hplanAfter
  have hfree : ((db.withNodeComplete node nowMs).recalculated plan nowMs).threadIsFree
      params.threadId = db.freeApartFrom params.threadId node :=
    threadIsFree_withNodeComplete
  simp only [advanceFromStartedNode, Exec.ite_run]
  cases hstarted : node.status.isStarted with
  | false => simp [Db.advanceIsRefused, hstarted]
  | true =>
      rw [if_pos rfl, ← hafterId, activateNextReadyNode_isOk_iff hstage hafter, hafterId,
        nextReadyNode_completed hdb hplan hnode hid hstarted, hfree]
      simp [Db.advanceIsRefused, hstarted]

/-- The last steps of the operation read back what is there. -/
theorem mutationOutcome_run (nowMs : Int) (hdb : db.Integrity) (hplan : plan ∈ db.plans)
    (hnode : node ∈ db.nodes) (hid : plan.planId = node.planId)
    (hfits : db.PlanSumsFit node.planId) :
    ∃ snapshot found, recalculateGoalPlanStatusInTx node.planId nowMs db =
        (.ok (db.recalculatedStatus plan), db.recalculated plan nowMs) ∧
      snapshotThreadGoalPlanInTx node.planId (db.recalculated plan nowMs) =
        (.ok snapshot, db.recalculated plan nowMs) ∧
      snapshotNode snapshot node.nodeId (db.recalculated plan nowMs) =
        (.ok found, db.recalculated plan nowMs) := by
  have hafter : (db.recalculated plan nowMs).Integrity := hdb.updatePlans fun _ => rfl
  have hplanAfter : { plan with status := db.recalculatedStatus plan, updatedAtMs := nowMs } ∈
      (db.recalculated plan nowMs).plans :=
    Table.mem_updateWhere.2 (.inl ⟨plan, hplan, decide_eq_true rfl, rfl⟩)
  have hfound : ((db.recalculated plan nowMs).snapshotNodes node.planId).find?
      (fun row => row.nodeId = node.nodeId) ≠ none := by
    intro hnone
    have hnodeAfter : node ∈ (db.recalculated plan nowMs).nodes := hnode
    exact List.find?_eq_none.1 hnone _ (mem_snapshotNodes hnodeAfter rfl) (decide_eq_true rfl)
  obtain ⟨found, hfound⟩ := Option.ne_none_iff_exists'.1 hfound
  refine ⟨⟨{ plan with status := db.recalculatedStatus plan, updatedAtMs := nowMs },
    (db.recalculated plan nowMs).snapshotNodes node.planId⟩, found,
    hdb.recalculate_run hplan hnode hid hfits, ?_, ?_⟩
  · exact snapshotThreadGoalPlanInTx_eq_ok.2 ⟨hafter.findPlan_eq hplanAfter hid, rfl, rfl⟩
  · exact snapshotNode_eq_ok.2 ⟨hfound, rfl⟩

/-- Going on leaves the sums over the nodes of the plan in range. -/
theorem planSumsFit_advanceFromStartedNode (hdb : db.Integrity) (hplan : plan ∈ db.plans)
    (hmax : ∀ maxTokens, plan.maxTokens = some maxTokens → maxTokens ≤ i64Max)
    (husage : ∀ row ∈ db.nodes, row.planId = plan.planId → row.status = .pending →
      0 ≤ row.tokensUsed)
    (hfits : db.PlanSumsFit plan.planId) {params : ThreadGoalPlanNodeStatusUpdateParams}
    {started : ThreadGoalPlanNode} (hid : plan.planId = started.planId)
    {activated : Option ThreadGoal}
    (h : advanceFromStartedNode redactStateString params started goalId nowMs db =
      (.ok activated, db')) : db'.PlanSumsFit plan.planId := by
  simp only [advanceFromStartedNode, Exec.ite_run] at h
  split at h
  · rcases activateNextReadyNodeInTx_eq_ok.1 h with ⟨-, -, rfl⟩ | ⟨next, hnext, goal, -, hactivate⟩
    · exact hfits
    · rw [← hid] at hnext
      obtain ⟨hmem, hnextPlan, hpending, -, -⟩ := of_nextReadyNode hnext
      exact planSumsFit_activateNextNode hdb hplan hmax hfits hnext
        (husage next hmem hnextPlan hpending) hactivate
  · obtain ⟨-, rfl⟩ := Exec.pure_eq_ok.1 h
    exact hfits

theorem recalculate_withNodeComplete (hdb : db.Integrity) (hplan : plan ∈ db.plans)
    (hnode : node ∈ db.nodes) (hid : plan.planId = node.planId)
    (hfits : (db.withNodeComplete node nowMs).PlanSumsFit node.planId) :
    recalculateGoalPlanStatusInTx node.planId nowMs (db.withNodeComplete node nowMs) =
      (.ok ((db.withNodeComplete node nowMs).recalculatedStatus plan),
        (db.withNodeComplete node nowMs).recalculated plan nowMs) := by
  obtain ⟨row, hrow, hrowPlan⟩ :
      ∃ row ∈ (db.withNodeComplete node nowMs).nodes, row.planId = node.planId :=
    ⟨_, Table.mem_updateWhere.2 (.inl ⟨node, hnode, decide_eq_true rfl, rfl⟩), rfl⟩
  rw [← hrowPlan] at hfits ⊢
  exact ((Change.nodeComplete hnode nowMs).integrity hdb).recalculate_run hplan hrow
    (hid.trans hrowPlan.symm) hfits

/-- Completing a node and going on leaves the sums over the nodes of its plan in range. -/
theorem planSumsFit_completeAndAdvance (hdb : db.Integrity) (hplan : plan ∈ db.plans)
    (hnode : node ∈ db.nodes) (hid : plan.planId = node.planId)
    (hmax : ∀ maxTokens, plan.maxTokens = some maxTokens → maxTokens ≤ i64Max)
    (husage : ∀ row ∈ db.nodes, row.planId = node.planId → 0 ≤ row.tokensUsed)
    (hfits : (db.withNodeComplete node nowMs).PlanSumsFit node.planId)
    {params : ThreadGoalPlanNodeStatusUpdateParams} {dependsOn : List Text}
    {activated : Option ThreadGoal}
    (h : advanceFromStartedNode redactStateString params ⟨node, dependsOn⟩ goalId nowMs
      ((db.withNodeComplete node nowMs).recalculated plan nowMs) = (.ok activated, db')) :
    db'.PlanSumsFit node.planId := by
  have hmid : (db.withNodeComplete node nowMs).Integrity :=
    (Change.nodeComplete hnode nowMs).integrity hdb
  have hstage : ((db.withNodeComplete node nowMs).recalculated plan nowMs).Integrity :=
    hmid.updatePlans fun _ => rfl
  have hplanStage : { plan with
      status := (db.withNodeComplete node nowMs).recalculatedStatus plan, updatedAtMs := nowMs } ∈
      ((db.withNodeComplete node nowMs).recalculated plan nowMs).plans :=
    Table.mem_updateWhere.2 (.inl ⟨plan, hplan, decide_eq_true rfl, rfl⟩)
  rw [← hid] at hfits ⊢
  have hfitsStage := hfits.congr hmid hplan hstage hplanStage rfl rfl rfl
  have hpendingUsage : ∀ other ∈ (db.withNodeComplete node nowMs).nodes,
      other.planId = plan.planId → other.status = .pending → 0 ≤ other.tokensUsed := by
    intro other hother hotherPlan hpending
    rcases mem_withNodeComplete hother with ⟨-, hdone⟩ | ⟨hmem, -⟩
    · rw [hdone] at hpending
      cases hpending
    · exact husage other hmem (hotherPlan.trans hid)
  have hfitsAfter := planSumsFit_advanceFromStartedNode hstage hplanStage hmax hpendingUsage
    hfitsStage hid h
  exact hfitsAfter

/-- Once the node is complete and the plan has gone on, the operation ends. -/
theorem markGoalPlanNodeComplete_ok (hdb : db.Integrity) (hplan : plan ∈ db.plans)
    (hnode : node ∈ db.nodes) (hid : plan.planId = node.planId) (hopen : node.status ≠ .cancelled)
    (hcomplete : node.status ≠ .complete)
    (hfits : (db.withNodeComplete node nowMs).PlanSumsFit node.planId)
    {params : ThreadGoalPlanNodeStatusUpdateParams} {snapshot : ThreadGoalPlanSnapshot}
    {dependsOn : List Text} {activated : Option ThreadGoal} {advanced : Db}
    (hadvance : advanceFromStartedNode redactStateString params ⟨node, dependsOn⟩ goalId nowMs
      ((db.withNodeComplete node nowMs).recalculated plan nowMs) = (.ok activated, advanced))
    (hfitsAfter : advanced.PlanSumsFit node.planId) :
    ∃ outcome after, markGoalPlanNodeCompleteInTx redactStateString params snapshot
        ⟨node, dependsOn⟩ goalId nowMs db = (.ok outcome, after) ∧
      ∃ row ∈ after.nodes, row.nodeId = node.nodeId ∧ row.status = .complete := by
  obtain ⟨row, hrow, hrowId, hrowPlan, hrowComplete⟩ :
      ∃ row ∈ (db.withNodeComplete node nowMs).nodes, row.nodeId = node.nodeId ∧
        row.planId = node.planId ∧ row.status = .complete :=
    ⟨_, Table.mem_updateWhere.2 (.inl ⟨node, hnode, decide_eq_true rfl, rfl⟩), rfl, rfl, rfl⟩
  have hstage : ((db.withNodeComplete node nowMs).recalculated plan nowMs).Integrity :=
    ((Change.nodeComplete hnode nowMs).integrity hdb).updatePlans fun _ => rfl
  obtain ⟨hadvanced, hplans, hkept⟩ := advanceFromStartedNode_frame hstage hadvance
  have hrowAfter : row ∈ advanced.nodes := hkept row hrow hrowComplete
  obtain ⟨found, hfound, hfoundId⟩ : ∃ found ∈ advanced.plans, found.planId = row.planId := by
    rw [hplans]
    exact ⟨_, Table.mem_updateWhere.2 (.inl ⟨plan, hplan, decide_eq_true rfl, rfl⟩),
      hid.trans hrowPlan.symm⟩
  obtain ⟨last, lastNode, hlast, hlastSnapshot, hlastNode⟩ :=
    mutationOutcome_run nowMs hadvanced hfound hrowAfter hfoundId (hrowPlan ▸ hfitsAfter)
  rw [hrowPlan] at hlast hlastSnapshot
  rw [hrowId] at hlastNode
  obtain ⟨goal, hrecord⟩ : ∃ goal, recordNodeComplete ⟨node, dependsOn⟩ nowMs db =
      (.ok goal, (db.withNodeComplete node nowMs).recalculated plan nowMs) :=
    ⟨_, recordNodeComplete_eq_ok.2
      ⟨rfl, _, recalculate_withNodeComplete hdb hplan hnode hid hfits⟩⟩
  refine ⟨⟨last, lastNode, goal, activated, false⟩, advanced.recalculated found nowMs, ?_,
    row, hrowAfter, hrowId, hrowComplete⟩
  simp only [markGoalPlanNodeCompleteInTx, if_neg hcomplete, Exec.bind_eq_ok, ensure_eq_ok]
  exact ⟨(), db, ⟨hopen, rfl⟩, goal, _, hrecord, activated, advanced, hadvance, _, _, hlast, last,
    _, hlastSnapshot, lastNode, _, hlastNode, rfl⟩

theorem markGoalPlanNodeComplete_isOk_iff (hdb : db.Integrity) (hplan : plan ∈ db.plans)
    (hnode : node ∈ db.nodes) (hid : plan.planId = node.planId) (hopen : node.status ≠ .cancelled)
    (hmax : ∀ maxTokens, plan.maxTokens = some maxTokens → maxTokens ≤ i64Max)
    (husage : ∀ row ∈ db.nodes, row.planId = node.planId → 0 ≤ row.tokensUsed)
    {params : ThreadGoalPlanNodeStatusUpdateParams} {snapshot : ThreadGoalPlanSnapshot}
    {dependsOn : List Text} :
    (∃ outcome after, markGoalPlanNodeCompleteInTx redactStateString params snapshot
        ⟨node, dependsOn⟩ goalId nowMs db = (.ok outcome, after) ∧
      ∃ row ∈ after.nodes, row.nodeId = node.nodeId ∧ row.status = .complete) ↔
      (node.status = .complete ∨ db.SumsFitApartFrom plan node) ∧
        db.advanceIsRefused plan node params = false := by
  by_cases hcomplete : node.status = .complete
  · have hrun : markGoalPlanNodeCompleteInTx redactStateString params snapshot ⟨node, dependsOn⟩
        goalId nowMs db = (.ok ⟨snapshot, ⟨node, dependsOn⟩, none, none, false⟩, db) := by
      simp [markGoalPlanNodeCompleteInTx, hcomplete]
    have hnotRefused : db.advanceIsRefused plan node params = false := by
      simp [Db.advanceIsRefused, hcomplete, ThreadGoalPlanNodeStatus.isStarted]
    simp only [hnotRefused, hcomplete, true_or, and_true, iff_true]
    exact ⟨_, db, hrun, node, hnode, rfl, hcomplete⟩
  have hsums : (db.withNodeComplete node nowMs).PlanSumsFit node.planId ↔
      db.SumsFitApartFrom plan node := planSumsFit_withNodeComplete hdb hplan hnode hid
  rw [or_iff_right hcomplete, ← hsums, ← advanceFromStartedNode_isOk_iff hdb hplan hnode hid]
  constructor
  · rintro ⟨outcome, after, hrun, -⟩
    simp only [markGoalPlanNodeCompleteInTx, if_neg hcomplete, Exec.bind_eq_ok, ensure_eq_ok]
      at hrun
    obtain ⟨_, _, ⟨-, rfl⟩, goal, stage, hrecord, activated, advanced, hadvance, -⟩ := hrun
    obtain ⟨-, status, hstage⟩ := recordNodeComplete_eq_ok.1 hrecord
    obtain ⟨-, hfits, -⟩ := recalculateGoalPlanStatusInTx_eq_ok.1 hstage
    rw [recalculate_withNodeComplete hdb hplan hnode hid hfits] at hstage
    cases hstage
    exact ⟨hfits, activated, advanced, hadvance⟩
  · rintro ⟨hfits, activated, advanced, hadvance⟩
    exact markGoalPlanNodeComplete_ok hdb hplan hnode hid hopen hcomplete hfits hadvance
      (planSumsFit_completeAndAdvance hdb hplan hnode hid hmax husage hfits hadvance)

/-- The checks before the node is marked. -/
theorem setThreadGoalPlanNodeStatus_run (hdb : db.Integrity) (hplan : plan ∈ db.plans)
    (hnode : node ∈ db.nodes) (hid : plan.planId = node.planId)
    {params : ThreadGoalPlanNodeStatusUpdateParams} (howner : plan.threadId = params.threadId)
    (hplanOpen : plan.status ≠ .cancelled) (hnodeId : Text.trim params.nodeId = node.nodeId)
    (hnonempty : node.nodeId ≠ []) (hstatus : params.status = .complete) :
    setThreadGoalPlanNodeStatus redactStateString params goalId nowMs db =
      markGoalPlanNodeCompleteInTx redactStateString params ⟨plan, db.snapshotNodes node.planId⟩
        ⟨node, db.nodeDependencyKeys node.nodeId⟩ goalId nowMs db := by
  have hfound : (db.nodes.find? fun row => row.nodeId = node.nodeId) = some node := by
    apply Table.find?_eq_some_of_unique hnode (decide_eq_true rfl)
    intro other hother hsame
    exact hdb.eq_of_nodeId hother hnode (of_decide_eq_true hsame)
  have hinSnapshot : ((db.snapshotNodes node.planId).find? fun row => row.nodeId = node.nodeId) =
      some ⟨node, db.nodeDependencyKeys node.nodeId⟩ := by
    apply Table.find?_eq_some_of_unique (mem_snapshotNodes hnode rfl) (decide_eq_true rfl)
    intro other hother hsame
    obtain ⟨hmem, -, hdependsOn⟩ := mem_nodes_of_mem_snapshotNodes hother
    have hrow := hdb.eq_of_nodeId hmem hnode (of_decide_eq_true hsame)
    cases other with
    | mk other dependsOn =>
        subst hrow
        exact congrArg (ThreadGoalPlanNode.mk other) hdependsOn
  have hplanId : planIdForNodeInTx node.nodeId db = (.ok node.planId, db) :=
    planIdForNodeInTx_eq_ok.2 ⟨⟨node, hfound, rfl⟩, rfl⟩
  have howned : ownedPlanSnapshotInTx params.threadId node.planId db =
      (.ok ⟨plan, db.snapshotNodes node.planId⟩, db) :=
    ownedPlanSnapshotInTx_eq_ok.2 ⟨hdb.findPlan_eq hplan hid, rfl, howner, rfl⟩
  have hnodeRead : snapshotNode ⟨plan, db.snapshotNodes node.planId⟩ node.nodeId db =
      (.ok ⟨node, db.nodeDependencyKeys node.nodeId⟩, db) :=
    snapshotNode_eq_ok.2 ⟨hinSnapshot, rfl⟩
  have hread : requireNonEmptyId node.nodeId "goal plan node id".toList db =
      (.ok node.nodeId, db) :=
    requireNonEmptyId_eq_ok.2 ⟨hnonempty, rfl, rfl⟩
  unfold setThreadGoalPlanNodeStatus
  rw [hnodeId, Exec.bind_run_ok hread, Exec.bind_run_ok hplanId, Exec.bind_run_ok howned,
    Exec.bind_run_ok (a := ()) (ensure_eq_ok.2 ⟨hplanOpen, rfl⟩), Exec.bind_run_ok hnodeRead,
    hstatus]

def sampleMarkFirst : ThreadGoalPlanNodeStatusUpdateParams :=
  ⟨sampleThread, "first".toList, .complete, .aiDirected⟩

/-- A chain of two nodes in a plan with a limit. -/
def sampleLimitedChain : GoalOp :=
  .createThreadGoalPlan
    ⟨sampleThread, .aiDirected, some 100,
      [⟨"a".toList, "build".toList, none, none, 0, none, []⟩,
        ⟨"b".toList, "test".toList, none, none, 0, none, ["a".toList]⟩]⟩
    ⟨"plan".toList, fun index => if index = 0 then "first".toList else "second".toList,
      "goal 1".toList⟩ 1

end Codewith.GoalStore
