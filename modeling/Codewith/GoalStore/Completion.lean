import Codewith.GoalStore.Exactness

/-!
# Plans that are complete

Every operation that leaves a plan stale on the way recalculates it before it
returns, so that between operations the status of each plan is exact.
-/

namespace Codewith.GoalStore

open Lib

variable {redactStateString : Text → Text} {db db' : Db} {threadId : ThreadId} {planId : Text}
  {stale : Text → Prop} {nowMs : Int}

/-! ## Inserting nodes -/

/-- The plan rows of the id are not settled. -/
def Db.PlanUnsettled (db : Db) (planId : Text) : Prop :=
  ∀ plan ∈ db.plans, plan.planId = planId → plan.status.phase = .unsettled

namespace Db.ExactOutside

theorem insertPendingNode (h : db.ExactOutside stale) {node : ThreadGoalPlanNodeRow} {u : Unit}
    (hstatus : node.status = .pending) (hprojected : node.projectedGoalId = none)
    (hrun : GoalStore.insertNode node db = (.ok u, db')) :
    (db'.ExactOutside fun id => stale id ∨ id = node.planId) ∧
      db'.HasNode node.planId .unsettled ∧ db'.plans = db.plans := by
  obtain ⟨hid, hkey, hplan, rfl⟩ := insertNode_eq_ok.1 hrun
  refine ⟨?_, ⟨node, by simp, rfl, by rw [hstatus]; rfl⟩, rfl⟩
  refine h.insertNode (h.integrity.insertNode ⟨hid, hkey, hplan⟩) ?_ fun _ hmem _ => hmem
  intro goalId hgoal
  rw [hprojected] at hgoal
  cases hgoal

/-- The nodes of a plan that is not settled are inserted. -/
theorem insertPlanNodes (h : db.ExactOutside fun id => stale id ∨ id = planId)
    (hplan : db.PlanUnsettled planId) {nextSequence : Int} {nodeId : Nat → Text}
    {nodes : List ThreadGoalPlanNodeCreateParams} (hnodes : nodes ≠ [])
    {nodeIdsByKey : List (Text × Text)}
    (hrun : GoalStore.insertPlanNodes redactStateString threadId planId nextSequence nodeId nowMs
      nodes db = (.ok nodeIdsByKey, db')) : db'.ExactOutside stale := by
  simp only [GoalStore.insertPlanNodes, Exec.bind_eq_ok, Exec.pure_eq_ok] at hrun
  obtain ⟨_, last, hloop, -, rfl⟩ := hrun
  obtain ⟨node, rest, rfl⟩ := List.exists_cons_of_ne_nil hnodes
  rw [List.zipIdx_cons] at hloop
  obtain ⟨mid, hfirst, hrest⟩ := Exec.forEach_cons_eq_ok.1 hloop
  have hcollapse : ∀ id, ((stale id ∨ id = planId) ∨ id = planId) → stale id ∨ id = planId := by
    rintro id ((hstale | hid) | hid)
    · exact .inl hstale
    · exact .inr hid
    · exact .inr hid
  simp only [Exec.bind_eq_ok, ofResult_eq_ok] at hfirst
  obtain ⟨_, _, ⟨-, rfl⟩, hfirst⟩ := hfirst
  obtain ⟨hmid, hhas, hplans⟩ := h.insertPendingNode rfl rfl hfirst
  -- From the first node on, the plan has a node that is not settled.
  let inserted : Db → Prop := fun later =>
    (later.ExactOutside fun id => stale id ∨ id = planId) ∧ later.HasNode planId .unsettled ∧
      later.plans = db.plans
  have hlast : inserted last := by
    refine Exec.Returns.forEach (J := inserted) ?_ mid ⟨hmid.mono hcollapse, hhas, hplans⟩ _ _ hrest
    rintro ⟨next, index⟩ - before ⟨hbefore, -, hsame⟩ _ after hnext
    simp only [Exec.bind_eq_ok, ofResult_eq_ok] at hnext
    obtain ⟨_, _, ⟨-, rfl⟩, hnext⟩ := hnext
    obtain ⟨hafter, hhasAfter, hplansAfter⟩ := hbefore.insertPendingNode rfl rfl hnext
    exact ⟨hafter.mono hcollapse, hhasAfter, hplansAfter.trans hsame⟩
  obtain ⟨hexact, hhasLast, hplansLast⟩ := hlast
  apply hexact.settle _ hhasLast
  rw [hplansLast]
  exact hplan

theorem insertPlan (h : db.Exact) {plan : ThreadGoalPlan}
    (hfresh : ∀ other ∈ db.plans, other.planId ≠ plan.planId) :
    Db.ExactOutside { db with plans := db.plans ++ [plan] } fun id => id = plan.planId := by
  refine ⟨h.integrity.insertPlan hfresh, h.single, ?_⟩
  intro row hrow hkept
  rcases List.mem_append.1 hrow with hold | hnew
  · exact (h.plans row hold id).congr rfl rfl fun _ => Iff.rfl
  · rw [List.mem_singleton.1 hnew] at hkept
    exact absurd rfl hkept

theorem insertPlanRows (h : db.Exact) {params : ThreadGoalPlanCreateParams} {ids : NewIds}
    {u : Unit}
    (hrun : GoalStore.insertPlanRows redactStateString params ids nowMs db = (.ok u, db')) :
    db'.Exact := by
  simp only [GoalStore.insertPlanRows, Exec.bind_eq_ok, ofResult_eq_ok] at hrun
  obtain ⟨_, _, ⟨hvalid, rfl⟩, _, _, hrow, _, _, hnodes, hdependencies⟩ := hrun
  obtain ⟨hnonempty, -⟩ := Result.unless_eq_ok.1 hvalid
  obtain ⟨hfresh, rfl⟩ := insertPlan_eq_ok.1 hrow
  apply (changes_insertPlanDependencies (List.mem_singleton.2 rfl) hdependencies).exactOutside
    (by decide)
  refine insertPlanNodes ((insertPlan h hfresh).mono fun _ hid => .inr hid) ?_ hnonempty hnodes
  intro plan hplan hid
  rcases List.mem_append.1 hplan with hold | hnew
  · exact absurd hid (hfresh plan hold)
  · rw [List.mem_singleton.1 hnew]
    rfl

theorem appendGoalPlanNode (h : db.ExactOutside fun id => id = planId)
    {params : ThreadGoalPlanAddParams} {nodeId : Text}
    {outcome : ThreadGoalPlanSnapshot × ThreadGoalPlanNode}
    (hrun : appendGoalPlanNodeInTx redactStateString planId params nodeId nowMs db =
      (.ok outcome, db')) : db'.Exact := by
  obtain ⟨snapshot, title, mid, mid', status, -, -, -, hrow, hloop, hrecalculate⟩ :=
    appendGoalPlanNodeInTx_eq_ok hrun
  obtain ⟨hmid, -, -⟩ := h.insertPendingNode rfl rfl hrow
  have hlinked : mid'.ExactOutside _ :=
    (changes_insertAppendedDependencies (List.mem_singleton.2 rfl) hloop).exactOutside
      (by decide) hmid
  apply (hlinked.recalculate hrecalculate).mono
  rintro id ⟨hid | hid, hne⟩
  · exact hne hid
  · exact hne hid

end Db.ExactOutside

theorem GoesOn.exact {kinds : List Kind} (hkinds : ∀ kind ∈ kinds, kind.unsettles = false)
    {goalId : Text} {pick : Option Text} {stage : Db} (hunused : stage.Unused goalId)
    (h : GoesOn kinds redactStateString threadId goalId nowMs pick stage db')
    (hstage : stage.Exact) : db'.Exact := by
  obtain ⟨after, rfl | ⟨nodeId, goal, -, hactivate⟩, hrest⟩ := h
  · exact hrest.exactOutside hkinds hstage
  · exact hrest.exactOutside hkinds ((put_activateNodeInTx hactivate).exactOutside hunused hstage)

theorem Changes.unused {kinds : List Kind} {goalId : Text} (h : Changes kinds db db')
    (hdb : db.Unused goalId) : db'.Unused goalId :=
  h.invariant (fun _ _ _ _ hchange => hchange.unused) hdb

theorem insertThreadGoalPlanInTx_exact {params : ThreadGoalPlanCreateParams} {ids : NewIds}
    {outcome : ThreadGoalPlanAdvanceOutcome} (hunused : db.Unused ids.goalId) (hdb : db.Exact)
    (h : insertThreadGoalPlanInTx redactStateString params ids nowMs db = (.ok outcome, db')) :
    db'.Exact := by
  obtain ⟨stage, hrows, hgoesOn⟩ := goesOn_insertThreadGoalPlanInTx h
  have hinserted : Changes [.planInsert, .nodeInsert, .dependency] db stage :=
    changes_insertPlanRows (by simp) (by simp) (by simp) hrows
  have hquiet : ∀ kind ∈ ([] : List Kind), kind.unsettles = false := by simp
  exact hgoesOn.exact hquiet (hinserted.unused hunused) (Db.ExactOutside.insertPlanRows hdb hrows)

theorem appendThreadGoalPlanNodes_exact {params : ThreadGoalPlanAppendParams} {ids : NewIds}
    {outcome : ThreadGoalPlanSnapshot} (hdb : db.Exact)
    (h : appendThreadGoalPlanNodes redactStateString params ids nowMs db = (.ok outcome, db')) :
    db'.Exact := by
  obtain ⟨snapshot, inserted, mid, mid', hnonempty, hplan, -, hactive, -, hnodes, hdependencies,
    htouch⟩ := appendThreadGoalPlanNodes_eq_ok h
  have hunsettled : db.PlanUnsettled params.planId := by
    intro plan hmem hid
    have hfound : snapshot.plan.planId = params.planId := by simpa using List.find?_some hplan
    rw [hdb.integrity.eq_of_planId hmem (List.mem_of_find?_eq_some hplan) (hid.trans hfound.symm),
      hactive]
    rfl
  have hmid : mid.Exact :=
    (hdb.mono fun _ hfalse => .inl hfalse).insertPlanNodes hunsettled hnonempty hnodes
  have hrest : Changes [.plan, .dependency] mid db' :=
    (changes_insertPlanDependencies (by simp) hdependencies).trans
      (changes_touchPlan (by simp) htouch)
  exact hrest.exactOutside (by decide) hmid

theorem insertThreadGoalPlanNode_exact {params : ThreadGoalPlanNodeInsertParams} {newNodeId : Text}
    {outcome : ThreadGoalPlanNodeInsertOutcome} (hdb : db.Exact)
    (h : insertThreadGoalPlanNode params newNodeId nowMs db = (.ok outcome, db')) : db'.Exact := by
  obtain ⟨snapshot, point, title, mid, mid', status, -, -, -, -, hrow, hdependencies,
    hrecalculate⟩ := insertThreadGoalPlanNode_eq_ok h
  have hshifted : (db.shifted (Text.trim params.planId) point.1 nowMs).Exact :=
    (Change.nodeShift db _ nowMs).exactOutside rfl hdb
  obtain ⟨hmid, -, -⟩ := hshifted.insertPendingNode rfl rfl hrow
  have hlinked : mid'.ExactOutside _ :=
    (changes_replaceNodeDependencies (List.mem_singleton.2 rfl) hdependencies).exactOutside
      (by decide) hmid
  apply (hlinked.recalculate hrecalculate).mono
  rintro id ⟨hfalse | hid, hne⟩
  · exact hfalse
  · exact hne hid

/-! ## Adding a goal -/

theorem ThreadGoalPlanStatus.isOpen_of_phase {status : ThreadGoalPlanStatus}
    (h : status.phase = .unsettled) : status.isOpen = true := by
  cases status <;> simp_all [isOpen, phase]

/-- A goal that is converted has no unsettled node: its plan would be extended. -/
theorem settled_of_converts (hdb : db.Exact) {goal : ThreadGoal}
    (h : db.converts threadId goal = true) {node : ThreadGoalPlanNodeRow} (hnode : node ∈ db.nodes)
    (hassigned : node.assignedThreadId = threadId)
    (hprojected : node.projectedGoalId = some goal.goalId) : node.status.phase ≠ .unsettled := by
  intro hphase
  obtain ⟨plan, hplan, hid⟩ := hdb.integrity.nodePlans node hnode
  have hexact := hdb.plans plan hplan id
  have hhas : db.HasNode plan.planId .unsettled := ⟨node, hnode, hid.symm, hphase⟩
  have hopen : plan.status.isOpen = true := by
    apply ThreadGoalPlanStatus.isOpen_of_phase
    cases hplanPhase : plan.status.phase with
    | unsettled => rfl
    | complete =>
        have hall := hexact.complete.1 (ThreadGoalPlanStatus.phase_eq_complete.1 hplanPhase)
        exact absurd hhas (Db.allComplete_iff.1 hall).2.1
    | cancelled =>
        have hall := hexact.cancelled (ThreadGoalPlanStatus.phase_eq_cancelled.1 hplanPhase)
        exact absurd hhas (Db.allSettled_iff.1 hall).2
  simp only [Db.converts, Bool.and_eq_true, decide_eq_true_eq] at h
  have hnone := h.2
  rw [Db.appendableGoalPlanIdForGoal, Option.map_eq_none_iff, List.head?_eq_none_iff] at hnone
  have hselected : plan ∈ ([] : List ThreadGoalPlan) := by
    rw [← hnone]
    refine Table.mem_selectOrdered.2 ⟨hplan, ?_⟩
    rw [Bool.and_eq_true, List.any_eq_true]
    exact ⟨hopen, node, hnode, by simp [hid, hassigned, hprojected]⟩
  cases hselected

theorem addThreadGoalToPlan_exact {params : ThreadGoalPlanAddParams} {ids : NewIds}
    {outcome : ThreadGoalPlanAddOutcome} (hunused : db.Unused ids.goalId) (hdb : db.Exact)
    (h : addThreadGoalToPlan redactStateString params ids nowMs db = (.ok outcome, db')) :
    db'.Exact := by
  rcases addThreadGoalToPlan_cases h with
    ⟨planId, added, happend⟩ | ⟨goal, added, hconverts, hcreate⟩ | ⟨added, hcreate⟩
  · exact (hdb.mono fun _ hfalse => hfalse.elim).appendGoalPlanNode happend
  · obtain ⟨hchange, happend⟩ :=
      createGoalPlanFromGoalInTx_eq_ok (threadGoal?_of_converts hconverts) hcreate
    refine Db.ExactOutside.appendGoalPlanNode ?_ happend
    refine (hdb.insertNode (hchange.integrity hdb.integrity) ?_ ?_).mono ?_
    · intro goalId hgoal other hother hphase hassigned hprojected
      obtain rfl : goal.goalId = goalId := Option.some.inj hgoal
      exact settled_of_converts hdb hconverts hother hassigned hprojected hphase
    · intro plan hplan hne
      rcases List.mem_append.1 hplan with hold | hnew
      · exact hold
      · rw [List.mem_singleton.1 hnew] at hne
        exact absurd rfl hne
    · rintro id (hfalse | hid)
      · exact hfalse.elim
      · exact hid
  · obtain ⟨title, goal, hfresh, hinserted, hactivate⟩ :=
      createGoalPlanFromAddedGoalInTx_eq_ok hcreate
    refine (put_activateNodeInTx hactivate).exactOutside (hinserted.unused hunused) ?_
    have hintegrity : (db.withGoalAdded redactStateString params title ids nowMs).Integrity :=
      hinserted.invariant (fun _ _ _ _ hchange => hchange.integrity) hdb.integrity
    have hkept : ∀ plan ∈ db.plans ++ [unlimitedPlan params ids.planId nowMs],
        plan.planId ≠ ids.planId → plan ∈ db.plans := by
      intro plan hplan hne
      rcases List.mem_append.1 hplan with hold | hnew
      · exact hold
      · rw [List.mem_singleton.1 hnew] at hne
        exact absurd rfl hne
    refine (hdb.insertNode hintegrity ?_ hkept).settle ?_ ?_
    · intro goalId hgoal
      cases hgoal
    · intro plan hplan hid
      rcases List.mem_append.1 hplan with hold | hnew
      · exact absurd hid (hfresh plan hold)
      · rw [List.mem_singleton.1 hnew]
        rfl
    · exact ⟨_, List.mem_append_right _ (List.mem_singleton.2 rfl), rfl, rfl⟩

/-! ## Settling the nodes of a goal -/

/-- The nodes of a goal that are not settled yet are one node, so that recording its
state leaves one plan behind. -/
theorem Db.ExactOutside.record (h : db.Exact) {p : ThreadGoalPlanNodeRow → Bool} {goalId : Text}
    {status : ThreadGoalPlanNodeStatus} {goal : ThreadGoal}
    (hp : ∀ node, p node = true → node.assignedThreadId = threadId ∧
      node.projectedGoalId = some goalId ∧ node.status.phase = .unsettled)
    {first : ThreadGoalPlanNodeRow} (hfound : db.nodes.find? p = some first) :
    (db.updateNodes p fun node => node.withUsage status goal nowMs).ExactOutside
      fun id => id = first.planId := by
  refine (h.mono fun _ hfalse => hfalse.elim).updateNodes
    (h.integrity.updateNodes fun _ => ⟨rfl, rfl, rfl⟩)
    (fun _ => ⟨rfl, rfl, rfl⟩) ?_ ?_
  · intro node _ hmatch
    exact .inr ⟨rfl, fun _ => (hp node hmatch).2.2⟩
  · intro node hnode hmatch hother
    have hfirst := List.mem_of_find?_eq_some hfound
    obtain ⟨hassigned, hprojected, hphase⟩ := hp node hmatch
    obtain ⟨hassigned', hprojected', hphase'⟩ := hp first (List.find?_some hfound)
    have hid := h.single node hnode first hfirst hphase hphase' (hassigned.trans hassigned'.symm) _
      hprojected hprojected'
    rw [h.integrity.eq_of_nodeId hnode hfirst hid] at hother
    exact absurd rfl hother

theorem Db.ExactOutside.record_none (h : db.ExactOutside stale) {p : ThreadGoalPlanNodeRow → Bool}
    {f : ThreadGoalPlanNodeRow → ThreadGoalPlanNodeRow} (hnone : db.nodes.find? p = none) :
    (db.updateNodes p f).ExactOutside stale := by
  have hsame : Table.updateWhere p f db.nodes = db.nodes := by
    have hrows : (Table.updateWhere p f db.nodes).map id = db.nodes.map id := by
      rw [Table.map_updateWhere_eq_iff]
      intro node hnode hmatch
      exact absurd hmatch (List.find?_eq_none.1 hnone node hnode)
    simpa using hrows
  rw [Db.updateNodes, hsame]
  exact h

theorem unsettled_of_syncMatches {goal : ThreadGoal} (node : ThreadGoalPlanNodeRow)
    (h : Db.syncMatches threadId goal db node = true) : node.assignedThreadId = threadId ∧
      node.projectedGoalId = some goal.goalId ∧ node.status.phase = .unsettled := by
  simp only [Db.syncMatches, Bool.and_eq_true, Bool.or_eq_true, decide_eq_true_eq] at h
  refine ⟨h.1.1.1.1, h.1.1.1.2, ?_⟩
  rcases h.1.1.2 with hpending | hstarted
  · rw [hpending]
    rfl
  · exact phase_of_isStarted hstarted

theorem syncGoalPlanNodeForGoal_exact {goal : ThreadGoal} {snapshot : Option ThreadGoalPlanSnapshot}
    (hdb : db.Exact) (h : syncGoalPlanNodeForGoal threadId goal nowMs db = (.ok snapshot, db')) :
    db'.Exact := by
  rcases syncGoalPlanNodeForGoal_cases h with
    ⟨hnone, rfl⟩ | ⟨node, mid, status, hfound, hmarked, hrecalculate⟩
  · exact hdb.record_none hnone
  · have hsynced : (db.synced threadId goal nowMs).ExactOutside fun id => id = node.planId :=
      Db.ExactOutside.record hdb unsettled_of_syncMatches hfound
    exact ((hmarked.exactOutside (by decide) hsynced).recalculate hrecalculate).mono
      fun _ hstale => hstale.2 hstale.1

theorem unsettled_of_completeMatches {goal : ThreadGoal} (node : ThreadGoalPlanNodeRow)
    (h : Db.completeMatches threadId goal db node = true) : node.assignedThreadId = threadId ∧
      node.projectedGoalId = some goal.goalId ∧ node.status.phase = .unsettled := by
  simp only [Db.completeMatches, Bool.and_eq_true, decide_eq_true_eq] at h
  exact ⟨h.1.1.1.1, h.1.1.1.2, phase_of_isStarted h.1.1.2⟩

theorem completeGoalPlanNodeAndMaybeAdvance_exact {goal : ThreadGoal}
    {autoExecute : ThreadGoalPlanAutoExecute} {goalId : Text}
    {outcome : Option ThreadGoalPlanAdvanceOutcome} (hunused : db.Unused goalId) (hdb : db.Exact)
    (h : completeGoalPlanNodeAndMaybeAdvance redactStateString threadId goal autoExecute goalId
      nowMs db = (.ok outcome, db')) : db'.Exact := by
  have hplan : Kind.plan ∈ [Kind.plan] := List.mem_singleton.2 rfl
  obtain ⟨stage, mid, hstage, hgoesOn⟩ := goesOn_completeGoalPlanNode hplan h
  have hchanges : Changes [.nodeRecord, .nodeStatus, .plan] db mid :=
    (change_recorded_complete (by simp)).trans
      (changes_completeGoalPlanNode (by simp) (by simp) hstage)
  refine hgoesOn.exact (by decide) (hchanges.unused hunused) ?_
  rcases completeGoalPlanNode_cases hstage with
    ⟨hnone, -, rfl⟩ | ⟨node, marked, status, hfound, hset, hrecalculate, -⟩
  · exact hdb.record_none hnone
  · have hrecorded : (db.recorded (Db.completeMatches threadId goal) .complete goal
        nowMs).ExactOutside fun id => id = node.planId :=
      Db.ExactOutside.record hdb unsettled_of_completeMatches hfound
    exact ((hset.exactOutside (by decide) hrecorded).recalculate hrecalculate).mono
      fun _ hstale => hstale.2 hstale.1

theorem deferGoalPlanNodeAndMaybeAdvance_exact {goal : ThreadGoal}
    {autoExecute : ThreadGoalPlanAutoExecute} {goalId : Text}
    {outcome : Option ThreadGoalPlanAdvanceOutcome} (hunused : db.Unused goalId) (hdb : db.Exact)
    (h : deferGoalPlanNodeAndMaybeAdvance redactStateString threadId goal autoExecute goalId nowMs
      db = (.ok outcome, db')) : db'.Exact := by
  have hquiet : ∀ kind ∈ ([] : List Kind), kind.unsettles = false := by simp
  obtain ⟨stage, mid, hstage, hgoesOn⟩ := goesOn_deferGoalPlanNode h
  have hrecord : Changes [.nodeRecord, .nodeStatus, .plan] db
      (db.recorded (Db.deferMatches threadId goal) .deferred goal nowMs) :=
    change_recorded_deferred (by simp)
  have hrest : Changes [.nodeStatus, .plan] _ mid :=
    changes_deferGoalPlanNode (by simp) (by simp) hstage
  refine hgoesOn.exact hquiet (hrest.unused (hrecord.unused hunused)) ?_
  apply hrest.exactOutside (by decide)
  have hold : ∀ node, Db.deferMatches threadId goal db node = true →
      node.status.phase = .unsettled := by
    intro node hmatch
    simp only [Db.deferMatches, Bool.and_eq_true] at hmatch
    exact phase_of_isStarted hmatch.1.1.2
  -- A deferred node is no more settled than it was.
  refine hdb.updateNodes (hdb.integrity.updateNodes fun _ => ⟨rfl, rfl, rfl⟩)
    (fun _ => ⟨rfl, rfl, rfl⟩) ?_ ?_
  · intro node _ hmatch
    exact .inr ⟨rfl, fun _ => hold node hmatch⟩
  · intro node _ hmatch _
    rw [hold node hmatch]
    rfl

/-! ## Cancelling -/

theorem Db.ExactOutside.recalculateAll {planIds : List Text}
    (h : db.ExactOutside fun id => stale id ∨ id ∈ planIds)
    {snapshots : List ThreadGoalPlanSnapshot}
    (hrun : recalculateGoalPlans nowMs planIds db = (.ok snapshots, db')) :
    db'.ExactOutside stale := by
  induction planIds generalizing db snapshots with
  | nil =>
      obtain ⟨-, rfl⟩ := Exec.pure_eq_ok.1 hrun
      refine h.mono ?_
      rintro id (hstale | hid)
      · exact hstale
      · cases hid
  | cons planId planIds ih =>
      simp only [recalculateGoalPlans, Exec.bind_eq_ok, Exec.pure_eq_ok] at hrun
      obtain ⟨status, mid, hfirst, snapshot, _, hsnapshot, rest, _, hrest, -, rfl⟩ := hrun
      obtain rfl := snapshot_state hsnapshot
      refine ih ((h.recalculate hfirst).mono ?_) hrest
      rintro id ⟨hstale | hid, hne⟩
      · exact .inl hstale
      · exact .inr (List.mem_of_ne_of_mem hne hid)

theorem cancelPendingGoalPlanNodes_exact {snapshots : List ThreadGoalPlanSnapshot} (hdb : db.Exact)
    (h : cancelPendingGoalPlanNodesAssignedToThread threadId nowMs db = (.ok snapshots, db')) :
    db'.Exact := by
  simp only [cancelPendingGoalPlanNodesAssignedToThread, Exec.bind_eq_ok,
    setNodeStatusWhere_eq_ok] at h
  obtain ⟨planIds, _, ⟨hplanIds, rfl⟩, h⟩ := h
  refine Db.ExactOutside.recalculateAll ?_ h
  refine (hdb.mono fun _ => .inl).updateNodes (hdb.integrity.updateNodes fun _ => ⟨rfl, rfl, rfl⟩)
    (fun _ => ⟨rfl, rfl, rfl⟩) ?_ ?_
  · intro node _ hmatch
    exact .inr ⟨rfl, fun hphase => by cases hphase⟩
  · intro node hnode hmatch hfresh
    rw [← hplanIds] at hfresh
    exact absurd (.inr (Table.mem_distinctBy.2 ⟨node, List.mem_filter.2 ⟨hnode, hmatch⟩, rfl⟩))
      hfresh

/-! ## Marking a node by hand -/

/-- The plan of the node that is marked is the only one that may change. -/
theorem Db.ExactOutside.markNode (h : db.Exact) {node : ThreadGoalPlanNodeRow}
    (hnode : node ∈ db.nodes) {f : ThreadGoalPlanNodeRow → ThreadGoalPlanNodeRow}
    (hids : ∀ row, (f row).nodeId = row.nodeId ∧ (f row).planId = row.planId ∧
      (f row).assignedThreadId = row.assignedThreadId ∧ (f row).key = row.key)
    (hgoals : ∀ row, (f row).projectedGoalId = none ∨
      ((f row).projectedGoalId = row.projectedGoalId ∧ (f row).status.phase ≠ .unsettled)) :
    (db.updateNodes (fun row => row.nodeId = node.nodeId) f).ExactOutside
      fun id => id = node.planId := by
  refine (h.mono fun _ hfalse => hfalse.elim).updateNodes
    (h.integrity.updateNodes fun row => ⟨(hids row).1, (hids row).2.1, (hids row).2.2.2⟩)
    (fun row => ⟨(hids row).1, (hids row).2.1, (hids row).2.2.1⟩) ?_ ?_
  · intro row _ _
    exact (hgoals row).imp_right fun ⟨hsame, hphase⟩ =>
      ⟨hsame, fun hunsettled => absurd hunsettled hphase⟩
  · intro row hrow hmatch hother
    rw [h.integrity.eq_of_nodeId hrow hnode (of_decide_eq_true hmatch)] at hother
    exact absurd rfl hother

theorem recordNodeComplete_exact {node : ThreadGoalPlanNode}
    (hnode : node.toThreadGoalPlanNodeRow ∈ db.nodes) {goal : Option ThreadGoal} (hdb : db.Exact)
    (h : recordNodeComplete node nowMs db = (.ok goal, db')) : db'.Exact := by
  obtain ⟨-, status, hrecalculate⟩ := recordNodeComplete_eq_ok.1 h
  have hgoals : (db.updateThreadGoals node.isProjectedTo fun goal =>
      { goal with status := .complete, updatedAtMs := nowMs }).Exact :=
    hdb.of_same (hdb.integrity.updateThreadGoals fun _ _ => rfl) rfl rfl
  have hmarked : (db.withNodeComplete node.toThreadGoalPlanNodeRow nowMs).ExactOutside
      fun id => id = node.planId := by
    refine Db.ExactOutside.markNode hgoals hnode (fun _ => ⟨rfl, rfl, rfl, rfl⟩) ?_
    intro row
    exact .inr ⟨rfl, fun hphase => by cases hphase⟩
  exact (hmarked.recalculate hrecalculate).mono fun _ hstale => hstale.2 hstale.1

theorem markGoalPlanNodePending_exact {snapshot : ThreadGoalPlanSnapshot}
    {node : ThreadGoalPlanNode} (hnode : node.toThreadGoalPlanNodeRow ∈ db.nodes)
    {outcome : ThreadGoalPlanNodeMutationOutcome} (hdb : db.Exact)
    (h : markGoalPlanNodePendingInTx snapshot node nowMs db = (.ok outcome, db')) : db'.Exact := by
  rcases markGoalPlanNodePending_cases h with
    rfl | ⟨hdeferred, status, hrecalculate⟩ | ⟨hcomplete, status, hrecalculate⟩
  · exact hdb
  · have hqueued : (db.requeued node.toThreadGoalPlanNodeRow nowMs).Exact :=
      (Change.nodeRequeue hnode hdeferred nowMs).exactOutside rfl hdb
    exact (hqueued.recalculate hrecalculate).mono fun _ hstale => hstale.1
  · have hgoals : (db.deleteThreadGoals node.isProjectedTo).Exact :=
      hdb.of_same (hdb.integrity.deleteThreadGoals _) rfl rfl
    have hundone : (db.withNodeUndone node.toThreadGoalPlanNodeRow nowMs).ExactOutside
        fun id => id = node.planId := by
      refine Db.ExactOutside.markNode hgoals hnode (fun _ => ⟨rfl, rfl, rfl, rfl⟩) ?_
      intro row
      exact .inl rfl
    exact (hundone.recalculate hrecalculate).mono fun _ hstale => hstale.2 hstale.1

theorem setThreadGoalPlanNodeStatus_exact {params : ThreadGoalPlanNodeStatusUpdateParams}
    {goalId : Text} {outcome : ThreadGoalPlanNodeMutationOutcome} (hunused : db.Unused goalId)
    (hdb : db.Exact)
    (h : setThreadGoalPlanNodeStatus redactStateString params goalId nowMs db =
      (.ok outcome, db')) : db'.Exact := by
  obtain ⟨snapshot, node, hrow, -, -, -, -, ⟨-, hmark⟩ | ⟨-, hmark⟩⟩ :=
    setThreadGoalPlanNodeStatus_eq_ok h
  · have hplan : Kind.plan ∈ [Kind.plan] := List.mem_singleton.2 rfl
    rcases goesOn_markGoalPlanNodeComplete hplan hmark with
      ⟨-, rfl⟩ | ⟨-, goal, mid, hrecord, hgoesOn⟩
    · exact hdb
    · have hchanges : Changes [.nodeComplete, .plan] db mid :=
        changes_recordNodeComplete (by simp) (by simp) hrow hrecord
      exact hgoesOn.exact (by decide) (hchanges.unused hunused)
        (recordNodeComplete_exact hrow hdb hrecord)
  · exact markGoalPlanNodePending_exact hrow hdb hmark

/-! ## Runs -/

/-- The goal identifier that the operation draws, if it draws one, is new. -/
def GoalOp.drawsNewGoalId (op : GoalOp) (db : Db) : Prop :=
  ∀ id, op.newGoalId = some id → db.Unused id

theorem Progress.exact {kinds : List Kind} {goalId : Option Text}
    (hkinds : ∀ kind ∈ kinds, kind.unsettles = false)
    (hunused : ∀ id, goalId = some id → db.Unused id)
    (h : Progress kinds goalId db db') (hdb : db.Exact) : db'.Exact := by
  obtain ⟨before, after, hbefore, hput, hafter⟩ := h
  have hexact := hbefore.exactOutside hkinds hdb
  apply hafter.exactOutside hkinds
  rcases hput with rfl | ⟨id, hid, hput⟩
  · exact hexact
  · exact hput.exactOutside (hbefore.unused (hunused id hid)) hexact

theorem GoalOp.step_exact {op : GoalOp} (hguard : op.drawsNewGoalId db) (hdb : db.Exact) :
    (op.step redactStateString db).Exact := by
  rcases GoalOp.step_cases redactStateString op db with hrun | hsame
  · by_cases hquiet : ∀ kind ∈ op.kinds, kind.unsettles = false
    · exact (GoalOp.progress hrun).exact hquiet hguard hdb
    · cases op <;> obtain ⟨outcome, hrun⟩ := exists_of_discard_run_ok hrun
      case createThreadGoalPlan =>
        exact insertThreadGoalPlanInTx_exact (hguard _ rfl) hdb
          (createThreadGoalPlan_eq_ok.1 hrun).2
      case appendThreadGoalPlanNodes => exact appendThreadGoalPlanNodes_exact hdb hrun
      case addThreadGoalToPlan => exact addThreadGoalToPlan_exact (hguard _ rfl) hdb hrun
      case cancelPendingGoalPlanNodesAssignedToThread =>
        exact cancelPendingGoalPlanNodes_exact hdb hrun
      case syncGoalPlanNodeForGoal => exact syncGoalPlanNodeForGoal_exact hdb hrun
      case completeGoalPlanNodeAndMaybeAdvance =>
        exact completeGoalPlanNodeAndMaybeAdvance_exact (hguard _ rfl) hdb hrun
      case deferGoalPlanNodeAndMaybeAdvance =>
        exact deferGoalPlanNodeAndMaybeAdvance_exact (hguard _ rfl) hdb hrun
      case insertThreadGoalPlanNode => exact insertThreadGoalPlanNode_exact hdb hrun
      case setThreadGoalPlanNodeStatus =>
        exact setThreadGoalPlanNodeStatus_exact (hguard _ rfl) hdb hrun
      case projectWorkflowRunToGoalPlan =>
        have hprojection : Kind.projection ∈ [Kind.projection] := List.mem_singleton.2 rfl
        rcases projectWorkflowRunToGoalPlan_cases hprojection hrun with
          hsame | ⟨run, plan, mid, hcreate, hrest⟩
        · rw [hsame]
          exact hdb
        · exact hrest.exactOutside (by decide)
            (insertThreadGoalPlanInTx_exact (hguard _ rfl) hdb hcreate)
      all_goals exact absurd (by simp [kinds, Kind.unsettles]) hquiet
  · rw [hsame]
    exact hdb

/-- In a run that draws its goal identifiers anew, a plan is complete exactly when
all its nodes are, and is cancelled only if they are settled and one of them is
cancelled. -/
theorem plan_status_exact
    (h : Reaches (GoalOp.step redactStateString) GoalOp.drawsNewGoalId Db.empty db) :
    ∀ plan ∈ db.plans,
      (plan.status = .complete ↔ ∀ node ∈ db.nodes, node.planId = plan.planId →
        node.status = .complete) ∧
      (plan.status = .cancelled →
        (∀ node ∈ db.nodes, node.planId = plan.planId →
          node.status = .complete ∨ node.status = .cancelled) ∧
        ∃ node ∈ db.nodes, node.planId = plan.planId ∧ node.status = .cancelled) := by
  have hexact : db.Exact := h.invariant Db.ExactOutside.empty fun op _ => op.step_exact
  intro plan hplan
  have hstatus := hexact.plans plan hplan id
  refine ⟨?_, ?_⟩
  · rw [hstatus.complete, Db.AllComplete]
    exact and_iff_right hstatus.nonempty
  · intro hcancelled
    obtain ⟨hsome, hall⟩ := hstatus.cancelled hcancelled
    exact ⟨hall, hsome⟩

/-- The one node of a plan is marked complete. -/
def sampleAllDone : GoalOp :=
  .setThreadGoalPlanNodeStatus ⟨ownerThread, "node".toList, .complete, .off⟩ "goal".toList 2

theorem plan_status_exact_sample :
    ∃ plan ∈ (runOps (GoalOp.step id) [sampleDelegation, sampleAllDone] Db.empty).plans,
      plan.status = .complete ∧
      ∀ node ∈ (runOps (GoalOp.step id) [sampleDelegation, sampleAllDone] Db.empty).nodes,
        node.planId = plan.planId → node.status = .complete := by
  have hcreated : Reaches (GoalOp.step id) GoalOp.drawsNewGoalId Db.empty
      (runOps (GoalOp.step id) [sampleDelegation] Db.empty) := by
    refine .next _ .start ?_
    intro id _
    exact ⟨by simp [Db.empty], by simp [Db.empty]⟩
  have hdone : Reaches (GoalOp.step id) GoalOp.drawsNewGoalId Db.empty
      (runOps (GoalOp.step id) [sampleDelegation, sampleAllDone] Db.empty) := by
    refine .next _ hcreated ?_
    intro id hid
    obtain rfl : "goal".toList = id := Option.some.inj hid
    constructor <;> decide +kernel
  have hcomplete : ∃ plan ∈ (runOps (GoalOp.step id) [sampleDelegation, sampleAllDone]
      Db.empty).plans, plan.status = .complete := by
    decide +kernel
  obtain ⟨plan, hplan, hstatus⟩ := hcomplete
  exact ⟨plan, hplan, hstatus, (plan_status_exact hdone plan hplan).1.1 hstatus⟩

end Codewith.GoalStore
