import Codewith.GoalStore.PlanChanges

/-!
# The changes that move plans on

The operations of `goal_plans.rs` on the nodes of existing plans, as sequences of
changes.
-/

namespace Codewith.GoalStore

open Lib

variable {kinds : List Kind} {redactStateString : Text → Text} {db db' : Db} {threadId : ThreadId}
  {planId : Text} {nowMs : Int}

/-! ## Progress of plans -/

theorem recordUsageWhere_eq_ok {p : Db → ThreadGoalPlanNodeRow → Bool}
    {status : ThreadGoalPlanNodeStatus} {goal : ThreadGoal} {updated : Option Text} :
    recordUsageWhere p status goal nowMs db = (.ok updated, db') ↔
      (db.nodes.find? (p db)).map (·.planId) = updated ∧
        db.updateNodes (p db) (fun node => node.withUsage status goal nowMs) = db' := by
  simp only [recordUsageWhere, Exec.bind_eq_ok, Exec.gets_eq_ok, Exec.modify_eq_ok,
    Exec.pure_eq_ok]
  constructor
  · rintro ⟨_, _, ⟨rfl, rfl⟩, _, _, rfl, rfl, rfl⟩
    exact ⟨rfl, rfl⟩
  · rintro ⟨rfl, rfl⟩
    exact ⟨_, db, ⟨rfl, rfl⟩, (), _, rfl, rfl, rfl⟩

theorem phase_of_isStarted {status : ThreadGoalPlanNodeStatus} (h : status.isStarted = true) :
    status.phase = .unsettled := by
  cases status <;> simp_all [ThreadGoalPlanNodeStatus.isStarted, ThreadGoalPlanNodeStatus.phase]

theorem ThreadGoalPlanStatus.phase_of_isOpen {status : ThreadGoalPlanStatus}
    (h : status.isOpen = true) : status.phase = .unsettled := by
  cases status <;> simp_all [isOpen, phase]

/-- The nodes of the goal with its status and its usage. -/
def Db.synced (threadId : ThreadId) (goal : ThreadGoal) (nowMs : Int) (db : Db) : Db :=
  db.updateNodes (Db.syncMatches threadId goal db) fun node =>
    node.withUsage goal.status.toNodeStatus goal nowMs

/-- The plan of the first node of the goal is recalculated. -/
theorem syncGoalPlanNodeForGoal_cases {goal : ThreadGoal} {snapshot : Option ThreadGoalPlanSnapshot}
    (h : syncGoalPlanNodeForGoal threadId goal nowMs db = (.ok snapshot, db')) :
    (db.nodes.find? (Db.syncMatches threadId goal db) = none ∧
      db' = db.synced threadId goal nowMs) ∨
    ∃ node mid status, db.nodes.find? (Db.syncMatches threadId goal db) = some node ∧
      Changes [.nodeStatus] (db.synced threadId goal nowMs) mid ∧
      recalculateGoalPlanStatusInTx node.planId nowMs mid = (.ok status, db') := by
  simp only [syncGoalPlanNodeForGoal, Exec.bind_eq_ok, recordUsageWhere_eq_ok] at h
  obtain ⟨updated, _, ⟨hupdated, rfl⟩, h⟩ := h
  cases updated with
  | none =>
      obtain ⟨-, rfl⟩ := Exec.pure_eq_ok.1 h
      exact .inl ⟨Option.map_eq_none_iff.1 hupdated, rfl⟩
  | some planId =>
      obtain ⟨node, hfound, rfl⟩ := Option.map_eq_some_iff.1 hupdated
      simp only [Exec.bind_eq_ok, Exec.pure_eq_ok] at h
      obtain ⟨_, mid, hmark, status, _, hrecalculate, _, _, hsnapshot, -, rfl⟩ := h
      obtain rfl := snapshot_state hsnapshot
      exact .inr ⟨node, mid, status, hfound,
        changes_markPendingNodesBudgetLimited (fun _ => List.mem_singleton.2 rfl) hmark,
        hrecalculate⟩

theorem changes_syncGoalPlanNodeForGoal (hstatus : .nodeStatus ∈ kinds) (hplan : .plan ∈ kinds)
    {goal : ThreadGoal} {snapshot : Option ThreadGoalPlanSnapshot}
    (h : syncGoalPlanNodeForGoal threadId goal nowMs db = (.ok snapshot, db')) :
    Changes kinds (db.synced threadId goal nowMs) db' := by
  rcases syncGoalPlanNodeForGoal_cases h with
    ⟨-, rfl⟩ | ⟨node, mid, status, -, hmarked, hrecalculate⟩
  · exact .refl _ _
  · refine (hmarked.mono ?_).trans (changes_recalculate hplan hrecalculate)
    intro kind hkind
    rw [List.mem_singleton.1 hkind]
    exact hstatus

theorem changes_setPlanAutoExecute (hplan : .plan ∈ kinds) {autoExecute : ThreadGoalPlanAutoExecute}
    {u : Unit} (h : setPlanAutoExecute planId autoExecute nowMs db = (.ok u, db')) :
    Changes kinds db db' := by
  obtain rfl := Exec.modify_eq_ok.1 h
  refine .single hplan (.plan ?_ ?_)
  · intro plan
    exact ⟨rfl, rfl, rfl⟩
  · intro plan _ _
    rfl

theorem planIsOpen_updatePlans {p : ThreadGoalPlan → Bool} {f : ThreadGoalPlan → ThreadGoalPlan}
    (hf : ∀ plan, (f plan).planId = plan.planId ∧
      (plan.status.isOpen = true → (f plan).status.isOpen = true))
    (h : db.planIsOpen planId = true) : (db.updatePlans p f).planIsOpen planId = true := by
  simp only [Db.planIsOpen, List.any_eq_true, Bool.and_eq_true, decide_eq_true_eq] at h ⊢
  obtain ⟨plan, hmem, hid, hopen⟩ := h
  refine ⟨_, List.mem_map.2 ⟨plan, hmem, rfl⟩, ?_⟩
  split
  · rw [(hf plan).1]
    exact ⟨hid, (hf plan).2 hopen⟩
  · exact ⟨hid, hopen⟩

theorem changes_setPlanStatus (hplan : .plan ∈ kinds) {status : ThreadGoalPlanStatus}
    (hstatus : status.isOpen = true) (hopen : db.planIsOpen planId = true) {u : Unit}
    (h : setPlanStatus planId status nowMs db = (.ok u, db')) :
    Changes kinds db db' ∧ db'.planIsOpen planId = true := by
  obtain rfl := Exec.modify_eq_ok.1 h
  refine ⟨.single hplan (.reopen hopen (ThreadGoalPlanStatus.phase_of_isOpen hstatus)), ?_⟩
  exact planIsOpen_updatePlans (fun _ => ⟨rfl, fun _ => hstatus⟩) hopen

/-- The started nodes of the goal with its usage, in the given status. -/
def Db.recorded (matching : Db → ThreadGoalPlanNodeRow → Bool) (status : ThreadGoalPlanNodeStatus)
    (goal : ThreadGoal) (nowMs : Int) (db : Db) : Db :=
  db.updateNodes (matching db) fun node => node.withUsage status goal nowMs

/-- Recording a completed goal leads to a recalculation of the plan of its node.  While the plan
goes on, only its row has changed before. -/
theorem completeGoalPlanNode_cases {goal : ThreadGoal} {autoExecute : ThreadGoalPlanAutoExecute}
    {stage : PlanStage}
    (h : completeGoalPlanNode threadId goal autoExecute nowMs db = (.ok stage, db')) :
    (db.nodes.find? (Db.completeMatches threadId goal db) = none ∧ stage = .unmatched ∧
      db' = db.recorded (Db.completeMatches threadId goal) .complete goal nowMs) ∨
    ∃ node mid status, db.nodes.find? (Db.completeMatches threadId goal db) = some node ∧
      Changes [.plan, .nodeStatus]
        (db.recorded (Db.completeMatches threadId goal) .complete goal nowMs) mid ∧
      recalculateGoalPlanStatusInTx node.planId nowMs mid = (.ok status, db') ∧
      (stage = .settled node.planId ∨ (stage = .advances node.planId ∧ Changes [.plan]
        (db.recorded (Db.completeMatches threadId goal) .complete goal nowMs) mid)) := by
  simp only [completeGoalPlanNode, Exec.bind_eq_ok, recordUsageWhere_eq_ok] at h
  obtain ⟨updated, _, ⟨hupdated, rfl⟩, h⟩ := h
  cases updated with
  | none =>
      obtain ⟨rfl, rfl⟩ := Exec.pure_eq_ok.1 h
      exact .inl ⟨Option.map_eq_none_iff.1 hupdated, rfl, rfl⟩
  | some planId =>
      obtain ⟨node, hfound, rfl⟩ := Option.map_eq_some_iff.1 hupdated
      simp only [Exec.bind_eq_ok, getThreadGoalPlanInTx_eq_ok, Exec.onlyIf_eq_ok, Exec.gets_eq_ok,
        Exec.pure_eq_ok] at h
      obtain ⟨plan, recorded, ⟨-, hrecorded⟩, _, mid, hauto, hit, marked, hmark, _, _, ⟨-, rfl⟩,
        status, _, hrecalculate, hstage, rfl⟩ := h
      have hset : Changes [.plan] recorded mid := by
        rcases hauto with ⟨-, hset⟩ | ⟨-, rfl⟩
        · exact changes_setPlanAutoExecute (List.mem_singleton.2 rfl) hset
        · exact .refl _ _
      rw [← hrecorded] at hset
      have hmarked : Changes [.plan, .nodeStatus] mid marked :=
        changes_markPendingNodesBudgetLimited (fun _ => by simp) hmark
      have hset' : Changes [.plan, .nodeStatus] _ mid := hset.mono (by simp)
      refine .inr ⟨node, marked, status, hfound, hset'.trans hmarked, hrecalculate, ?_⟩
      split at hstage
      · exact .inl hstage.symm
      · next hgoesOn =>
          rw [not_or] at hgoesOn
          exact .inr ⟨hstage.symm, hset.trans
            (changes_markPendingNodesBudgetLimited (fun hspent => absurd hspent hgoesOn.1) hmark)⟩

theorem changes_completeGoalPlanNode (hstatus : .nodeStatus ∈ kinds) (hplan : .plan ∈ kinds)
    {goal : ThreadGoal} {autoExecute : ThreadGoalPlanAutoExecute} {stage : PlanStage}
    (h : completeGoalPlanNode threadId goal autoExecute nowMs db = (.ok stage, db')) :
    Changes kinds (db.recorded (Db.completeMatches threadId goal) .complete goal nowMs) db' := by
  rcases completeGoalPlanNode_cases h with
    ⟨-, -, rfl⟩ | ⟨node, mid, status, -, hset, hrecalculate, -⟩
  · exact .refl _ _
  · refine (hset.mono ?_).trans (changes_recalculate hplan hrecalculate)
    intro kind hkind
    rcases List.mem_cons.1 hkind with rfl | hlast
    · exact hplan
    · rw [List.mem_singleton.1 hlast]
      exact hstatus

theorem change_recorded_complete (hrecord : .nodeRecord ∈ kinds) {goal : ThreadGoal} :
    Changes kinds db (db.recorded (Db.completeMatches threadId goal) .complete goal nowMs) := by
  refine .single hrecord (.nodeRecord (by decide) ?_)
  intro node hnode
  simp only [Db.completeMatches, Bool.and_eq_true] at hnode
  exact phase_of_isStarted hnode.1.1.2

/-- The node that the plan goes on with. -/
def PlanStage.pick (stage : PlanStage) (threadId : ThreadId)
    (autoExecute : ThreadGoalPlanAutoExecute) (db : Db) : Option Text :=
  match stage with
  | .advances planId => db.nextReadyNodeId threadId planId autoExecute
  | _ => none

theorem goesOn_completeGoalPlanNode (hplan : .plan ∈ kinds) {goal : ThreadGoal}
    {autoExecute : ThreadGoalPlanAutoExecute} {goalId : Text}
    {outcome : Option ThreadGoalPlanAdvanceOutcome}
    (h : completeGoalPlanNodeAndMaybeAdvance redactStateString threadId goal autoExecute goalId
      nowMs db = (.ok outcome, db')) :
    ∃ stage mid, completeGoalPlanNode threadId goal autoExecute nowMs db = (.ok stage, mid) ∧
      GoesOn kinds redactStateString threadId goalId nowMs (stage.pick threadId autoExecute mid) mid
        db' := by
  simp only [completeGoalPlanNodeAndMaybeAdvance, Exec.bind_eq_ok] at h
  obtain ⟨stage, mid, hstage, h⟩ := h
  refine ⟨stage, mid, hstage, ?_⟩
  cases stage with
  | unmatched =>
      obtain ⟨-, rfl⟩ := Exec.pure_eq_ok.1 h
      exact .rest (.refl _ _)
  | settled planId =>
      simp only [Exec.bind_eq_ok, Exec.pure_eq_ok] at h
      obtain ⟨_, _, hsnapshot, -, rfl⟩ := h
      obtain rfl := snapshot_state hsnapshot
      exact .rest (.refl _ _)
  | advances planId =>
      simp only [Exec.bind_eq_ok, Exec.pure_eq_ok] at h
      obtain ⟨_, _, hactivate, _, _, hrecalculate, _, _, hsnapshot, -, rfl⟩ := h
      obtain rfl := snapshot_state hsnapshot
      exact (goesOn_activateNextReadyNodeInTx hactivate).append
        (changes_recalculate hplan hrecalculate)

theorem progress_completeGoalPlanNodeAndMaybeAdvance (hrecord : .nodeRecord ∈ kinds)
    (hstatus : .nodeStatus ∈ kinds) (hplan : .plan ∈ kinds) {goal : ThreadGoal}
    {autoExecute : ThreadGoalPlanAutoExecute} {goalId : Text}
    {outcome : Option ThreadGoalPlanAdvanceOutcome}
    (h : completeGoalPlanNodeAndMaybeAdvance redactStateString threadId goal autoExecute goalId
      nowMs db = (.ok outcome, db')) : Progress kinds (some goalId) db db' := by
  obtain ⟨stage, mid, hstage, hgoesOn⟩ := goesOn_completeGoalPlanNode hplan h
  exact hgoesOn.progress.prepend ((change_recorded_complete hrecord).trans
    (changes_completeGoalPlanNode hstatus hplan hstage))

theorem change_recorded_deferred (hrecord : .nodeRecord ∈ kinds) {goal : ThreadGoal} :
    Changes kinds db (db.recorded (Db.deferMatches threadId goal) .deferred goal nowMs) := by
  refine .single hrecord (.nodeRecord (by decide) ?_)
  intro node hnode
  simp only [Db.deferMatches, Bool.and_eq_true] at hnode
  exact phase_of_isStarted hnode.1.1.2

/-- The plan of the node is open, so that it may be made active again. -/
theorem planIsOpen_of_deferMatches {goal : ThreadGoal}
    (h : (db.nodes.find? (Db.deferMatches threadId goal db)).map (·.planId) = some planId) :
    db.planIsOpen planId = true := by
  obtain ⟨node, hfound, rfl⟩ := Option.map_eq_some_iff.1 h
  have hmatch := List.find?_some hfound
  simp only [Db.deferMatches, Bool.and_eq_true] at hmatch
  exact hmatch.1.2

/-- Recording a deferred goal may reset the row of its plan; the nodes change only if the plan
is spent. -/
theorem deferGoalPlanNode_cases {goal : ThreadGoal} {autoExecute : ThreadGoalPlanAutoExecute}
    {stage : PlanStage}
    (h : deferGoalPlanNode threadId goal autoExecute nowMs db = (.ok stage, db')) :
    (stage = .unmatched ∧ db' = db.recorded (Db.deferMatches threadId goal) .deferred goal nowMs) ∨
    ∃ node mid, db.nodes.find? (Db.deferMatches threadId goal db) = some node ∧
      Changes [.plan] (db.recorded (Db.deferMatches threadId goal) .deferred goal nowMs) mid ∧
      mid.totalPlanTokens node.planId ≤ i64Max ∧
      ((stage = .settled node.planId ∧ Changes [.plan, .nodeStatus] mid db') ∨
        (stage = .advances node.planId ∧ db' = mid)) := by
  have hplan : Kind.plan ∈ [Kind.plan] := List.mem_singleton.2 rfl
  simp only [deferGoalPlanNode, Exec.bind_eq_ok, recordUsageWhere_eq_ok] at h
  obtain ⟨updated, _, ⟨hupdated, rfl⟩, h⟩ := h
  cases updated with
  | none =>
      obtain ⟨rfl, rfl⟩ := Exec.pure_eq_ok.1 h
      exact .inl ⟨rfl, rfl⟩
  | some planId =>
      have hbefore : db.planIsOpen planId = true := planIsOpen_of_deferMatches hupdated
      obtain ⟨node, hfound, rfl⟩ := Option.map_eq_some_iff.1 hupdated
      simp only [Exec.bind_eq_ok, getThreadGoalPlanInTx_eq_ok, Exec.onlyIf_eq_ok,
        totalPlanTokensInTx_eq_ok, Exec.ite_run] at h
      obtain ⟨plan, recorded, ⟨-, hrecorded⟩, _, mid, hauto, _, _, ⟨htotal, -, rfl⟩, h⟩ := h
      have hopen : recorded.planIsOpen node.planId = true := by
        rw [← hrecorded]
        exact hbefore
      have hset : Changes [.plan] recorded mid ∧ mid.planIsOpen node.planId = true := by
        rcases hauto with ⟨-, _, reset, hauto, hactive⟩ | ⟨-, rfl⟩
        · have hfirst := changes_setPlanAutoExecute hplan hauto
          have hstill : reset.planIsOpen node.planId = true := by
            rw [← Exec.modify_eq_ok.1 hauto]
            apply planIsOpen_updatePlans _ hopen
            intro plan
            exact ⟨rfl, id⟩
          obtain ⟨hsecond, hlast⟩ := changes_setPlanStatus hplan rfl hstill hactive
          exact ⟨hfirst.trans hsecond, hlast⟩
        · exact ⟨.refl _ _, hopen⟩
      rw [← hrecorded] at hset
      refine .inr ⟨node, mid, hfound, hset.1, htotal, ?_⟩
      split at h
      · simp only [Exec.bind_eq_ok, Exec.modify_eq_ok, Exec.pure_eq_ok] at h
        obtain ⟨_, marked, hmarked, _, _, hlimited, rfl, rfl⟩ := h
        have hlast : marked.planIsOpen node.planId = true := by
          rw [← hmarked]
          exact hset.2
        have hkinds : Kind.plan ∈ [Kind.plan, .nodeStatus] := by simp
        have hlimit := (changes_setPlanStatus hkinds rfl hlast hlimited).1
        rw [← hmarked] at hlimit
        refine .inl ⟨rfl, Changes.trans (.single (by simp) (.nodeStatus ?_ ?_ ?_)) hlimit⟩
        · decide
        · rfl
        · intro row hrow
          rw [Bool.and_eq_true, decide_eq_true_eq, decide_eq_true_eq] at hrow
          rw [hrow.2]
          rfl
      · obtain ⟨rfl, rfl⟩ := Exec.pure_eq_ok.1 h
        exact .inr ⟨rfl, rfl⟩

theorem changes_deferGoalPlanNode (hstatus : .nodeStatus ∈ kinds) (hplan : .plan ∈ kinds)
    {goal : ThreadGoal} {autoExecute : ThreadGoalPlanAutoExecute} {stage : PlanStage}
    (h : deferGoalPlanNode threadId goal autoExecute nowMs db = (.ok stage, db')) :
    Changes kinds (db.recorded (Db.deferMatches threadId goal) .deferred goal nowMs) db' := by
  rcases deferGoalPlanNode_cases h with
    ⟨-, rfl⟩ | ⟨node, mid, -, hset, -, ⟨-, hlimited⟩ | ⟨-, rfl⟩⟩
  · exact .refl _ _
  · refine (hset.mono ?_).trans (hlimited.mono ?_)
    · simpa using hplan
    · simpa using ⟨hplan, hstatus⟩
  · exact hset.mono (by simpa using hplan)

theorem goesOn_deferGoalPlanNode {goal : ThreadGoal} {autoExecute : ThreadGoalPlanAutoExecute}
    {goalId : Text} {outcome : Option ThreadGoalPlanAdvanceOutcome}
    (h : deferGoalPlanNodeAndMaybeAdvance redactStateString threadId goal autoExecute goalId nowMs
      db = (.ok outcome, db')) :
    ∃ stage mid, deferGoalPlanNode threadId goal autoExecute nowMs db = (.ok stage, mid) ∧
      GoesOn kinds redactStateString threadId goalId nowMs (stage.pick threadId autoExecute mid) mid
        db' := by
  simp only [deferGoalPlanNodeAndMaybeAdvance, Exec.bind_eq_ok] at h
  obtain ⟨stage, mid, hstage, h⟩ := h
  refine ⟨stage, mid, hstage, ?_⟩
  cases stage with
  | unmatched =>
      obtain ⟨-, rfl⟩ := Exec.pure_eq_ok.1 h
      exact .rest (.refl _ _)
  | settled planId =>
      simp only [Exec.bind_eq_ok, Exec.pure_eq_ok] at h
      obtain ⟨_, _, hsnapshot, -, rfl⟩ := h
      obtain rfl := snapshot_state hsnapshot
      exact .rest (.refl _ _)
  | advances planId =>
      simp only [Exec.bind_eq_ok, Exec.pure_eq_ok] at h
      obtain ⟨_, _, hactivate, _, _, hsnapshot, -, rfl⟩ := h
      obtain rfl := snapshot_state hsnapshot
      exact goesOn_activateNextReadyNodeInTx hactivate

theorem progress_deferGoalPlanNodeAndMaybeAdvance (hrecord : .nodeRecord ∈ kinds)
    (hstatus : .nodeStatus ∈ kinds) (hplan : .plan ∈ kinds) {goal : ThreadGoal}
    {autoExecute : ThreadGoalPlanAutoExecute} {goalId : Text}
    {outcome : Option ThreadGoalPlanAdvanceOutcome}
    (h : deferGoalPlanNodeAndMaybeAdvance redactStateString threadId goal autoExecute goalId nowMs
      db = (.ok outcome, db')) : Progress kinds (some goalId) db db' := by
  obtain ⟨stage, mid, hstage, hgoesOn⟩ := goesOn_deferGoalPlanNode h
  exact hgoesOn.progress.prepend ((change_recorded_deferred hrecord).trans
    (changes_deferGoalPlanNode hstatus hplan hstage))

/-! ## All nodes of a thread -/

theorem setNodeStatusWhere_eq_ok {p : ThreadGoalPlanNodeRow → Bool}
    {status : ThreadGoalPlanNodeStatus} {planIds : List Text} :
    setNodeStatusWhere p status nowMs db = (.ok planIds, db') ↔
      Table.distinctBy (·.planId) (db.nodes.filter p) = planIds ∧
        db.updateNodes p (fun node => { node with status, updatedAtMs := nowMs }) = db' := by
  simp only [setNodeStatusWhere, Exec.bind_eq_ok, Exec.gets_eq_ok, Exec.modify_eq_ok,
    Exec.pure_eq_ok]
  constructor
  · rintro ⟨_, _, ⟨rfl, rfl⟩, _, _, rfl, rfl, rfl⟩
    exact ⟨rfl, rfl⟩
  · rintro ⟨rfl, rfl⟩
    exact ⟨_, db, ⟨rfl, rfl⟩, (), _, rfl, rfl, rfl⟩

theorem changes_cancelPendingGoalPlanNodes (hcancel : .nodeCancel ∈ kinds) (hplan : .plan ∈ kinds)
    {snapshots : List ThreadGoalPlanSnapshot}
    (h : cancelPendingGoalPlanNodesAssignedToThread threadId nowMs db = (.ok snapshots, db')) :
    Changes kinds db db' := by
  simp only [cancelPendingGoalPlanNodesAssignedToThread, Exec.bind_eq_ok,
    setNodeStatusWhere_eq_ok] at h
  obtain ⟨planIds, _, ⟨-, rfl⟩, h⟩ := h
  refine Changes.trans (.single hcancel (.nodeCancel ?_)) (changes_recalculateGoalPlans hplan h)
  intro node hnode
  rw [Bool.and_eq_true, decide_eq_true_eq] at hnode
  exact hnode.2

theorem snapshotGoalPlans_state {planIds : List Text} {snapshots : List ThreadGoalPlanSnapshot}
    (h : snapshotGoalPlans planIds db = (.ok snapshots, db')) : db' = db := by
  induction planIds generalizing snapshots with
  | nil => exact (Exec.pure_eq_ok.1 h).2.symm
  | cons planId planIds ih =>
      simp only [snapshotGoalPlans, Exec.bind_eq_ok, Exec.pure_eq_ok] at h
      obtain ⟨_, _, hfirst, _, _, hrest, -, rfl⟩ := h
      obtain rfl := snapshot_state hfirst
      exact ih hrest

theorem changes_blockActiveGoalPlanNodes (hstatus : .nodeStatus ∈ kinds) (hplan : .plan ∈ kinds)
    {snapshots : List ThreadGoalPlanSnapshot}
    (h : blockActiveGoalPlanNodesForThread threadId nowMs db = (.ok snapshots, db')) :
    Changes kinds db db' := by
  simp only [blockActiveGoalPlanNodesForThread, Exec.bind_eq_ok, setNodeStatusWhere_eq_ok] at h
  obtain ⟨planIds, blocked, ⟨-, hblocked⟩, _, last, hloop, hsnapshots⟩ := h
  obtain rfl := snapshotGoalPlans_state hsnapshots
  have hplans : Changes kinds blocked db' := by
    refine Exec.forEach_rel (.refl _) (fun _ _ _ => .trans) ?_ hloop
    intro planId _ mid mid' hrun
    simp only [Exec.bind_eq_ok, Exec.pure_eq_ok] at hrun
    obtain ⟨_, _, hrecalculate, -, rfl⟩ := hrun
    exact changes_recalculate hplan hrecalculate
  rw [← hblocked] at hplans
  refine Changes.trans (.single hstatus (.nodeStatus ?_ ?_ ?_)) hplans
  · decide
  · rfl
  · intro node hnode
    rw [Bool.and_eq_true, decide_eq_true_eq, decide_eq_true_eq] at hnode
    rw [hnode.2]
    rfl

theorem changes_deleteThreadGoalPlansForThread (hdelete : .planDelete ∈ kinds) {count : Nat}
    (h : deleteThreadGoalPlansForThread threadId db = (.ok count, db')) : Changes kinds db db' := by
  simp only [deleteThreadGoalPlansForThread, Exec.bind_eq_ok, Exec.gets_eq_ok, Exec.modify_eq_ok,
    Exec.pure_eq_ok] at h
  obtain ⟨_, _, rfl, _, _, ⟨-, rfl⟩, _, _, rfl, -, rfl⟩ := h
  exact .single hdelete (.planDelete db threadId)

/-! ## Nesting -/

theorem changes_updateNodeHierarchy (hnest : .nodeNest ∈ kinds)
    {existing : List ThreadGoalPlanNode} {node : ThreadGoalPlanNodeHierarchyParams} {u : Unit}
    (h : updateNodeHierarchy planId existing nowMs node db = (.ok u, db')) :
    Changes kinds db db' := by
  simp only [updateNodeHierarchy] at h
  rcases hfind : (existing.find? fun other => other.key = node.key).map (·.nodeId) with _ | nodeId
  · rw [hfind] at h
    exact (bail_eq_ok.1 h).elim
  · rw [hfind] at h
    simp only [Exec.bind_eq_ok, ofResult_eq_ok, Exec.gets_eq_ok, Exec.modify_eq_ok,
      ensure_eq_ok] at h
    obtain ⟨_, _, ⟨-, rfl⟩, _, _, ⟨-, rfl⟩, _, _, rfl, -, rfl⟩ := h
    exact .single hnest (.nodeNest db _ _ _ nowMs)

theorem changes_updateThreadGoalPlanNodeHierarchy (hnest : .nodeNest ∈ kinds)
    (hplan : .plan ∈ kinds) {nodes : List ThreadGoalPlanNodeHierarchyParams}
    {snapshot : ThreadGoalPlanSnapshot}
    (h : updateThreadGoalPlanNodeHierarchy threadId planId nodes nowMs db = (.ok snapshot, db')) :
    Changes kinds db db' := by
  simp only [updateThreadGoalPlanNodeHierarchy, Exec.bind_eq_ok, ofResult_eq_ok, ensure_eq_ok,
    Exec.ite_run] at h
  obtain ⟨_, _, ⟨-, rfl⟩, existing, _, hexisting, _, _, ⟨-, rfl⟩, h⟩ := h
  obtain rfl := snapshot_state hexisting
  split at h
  · obtain ⟨-, rfl⟩ := Exec.pure_eq_ok.1 h
    exact .refl _ _
  · simp only [Exec.bind_eq_ok, ofResult_eq_ok] at h
    obtain ⟨_, _, ⟨-, rfl⟩, _, _, ⟨-, rfl⟩, _, _, hloop, _, _, htouch, hsnapshot⟩ := h
    obtain rfl := snapshot_state hsnapshot
    refine Changes.trans ?_ (changes_touchPlan hplan htouch)
    refine Exec.forEach_rel (.refl _) (fun _ _ _ => .trans) ?_ hloop
    intro node _ mid mid' hrun
    exact changes_updateNodeHierarchy hnest hrun

end Codewith.GoalStore
