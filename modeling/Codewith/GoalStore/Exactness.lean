import Codewith.GoalStore.Ties

/-!
# Plans whose status is exact

The stored status of a plan says whether its nodes are settled.  A statement that
settles nodes, undoes one or inserts one leaves the status of their plans behind,
until these plans are recalculated; `Db.ExactOutside` allows for that.

That a goal has one unsettled node at most is part of the invariant: it confines
the statements that look for the nodes of a goal to one plan.
-/

namespace Codewith.GoalStore

open Lib

variable {redactStateString : Text → Text} {db db' : Db} {threadId : ThreadId} {planId : Text}
  {stale : Text → Prop} {nowMs : Int}

/-- The plan has a node in the phase. -/
def Db.HasNode (db : Db) (planId : Text) (phase : Phase) : Prop :=
  ∃ node ∈ db.nodes, node.planId = planId ∧ node.status.phase = phase

theorem ThreadGoalPlanNodeStatus.phase_eq_complete {status : ThreadGoalPlanNodeStatus} :
    status.phase = .complete ↔ status = .complete := by
  cases status <;> simp [phase]

theorem ThreadGoalPlanNodeStatus.phase_eq_cancelled {status : ThreadGoalPlanNodeStatus} :
    status.phase = .cancelled ↔ status = .cancelled := by
  cases status <;> simp [phase]

theorem ThreadGoalPlanStatus.phase_eq_complete {status : ThreadGoalPlanStatus} :
    status.phase = .complete ↔ status = .complete := by
  cases status <;> simp [phase]

theorem ThreadGoalPlanStatus.phase_eq_cancelled {status : ThreadGoalPlanStatus} :
    status.phase = .cancelled ↔ status = .cancelled := by
  cases status <;> simp [phase]

theorem Db.allComplete_iff : db.AllComplete planId ↔
    db.HasNode planId .complete ∧ ¬db.HasNode planId .unsettled ∧
      ¬db.HasNode planId .cancelled := by
  constructor
  · rintro ⟨⟨node, hnode, hplan⟩, hall⟩
    refine ⟨⟨node, hnode, hplan, ?_⟩, ?_, ?_⟩
    · rw [hall node hnode hplan]
      rfl
    · rintro ⟨other, hother, hotherPlan, hphase⟩
      rw [hall other hother hotherPlan] at hphase
      cases hphase
    · rintro ⟨other, hother, hotherPlan, hphase⟩
      rw [hall other hother hotherPlan] at hphase
      cases hphase
  · rintro ⟨⟨node, hnode, hplan, -⟩, hunsettled, hcancelled⟩
    refine ⟨⟨node, hnode, hplan⟩, ?_⟩
    intro other hother hotherPlan
    rw [← ThreadGoalPlanNodeStatus.phase_eq_complete]
    cases hphase : other.status.phase with
    | unsettled => exact absurd ⟨other, hother, hotherPlan, hphase⟩ hunsettled
    | complete => rfl
    | cancelled => exact absurd ⟨other, hother, hotherPlan, hphase⟩ hcancelled

theorem Db.allSettled_iff : db.AllSettled planId ↔
    db.HasNode planId .cancelled ∧ ¬db.HasNode planId .unsettled := by
  constructor
  · rintro ⟨⟨node, hnode, hplan, hstatus⟩, hall⟩
    refine ⟨⟨node, hnode, hplan, by rw [hstatus]; rfl⟩, ?_⟩
    rintro ⟨other, hother, hotherPlan, hphase⟩
    rcases hall other hother hotherPlan with hsettled | hsettled <;> rw [hsettled] at hphase <;>
      cases hphase
  · rintro ⟨⟨node, hnode, hplan, hphase⟩, hunsettled⟩
    refine ⟨⟨node, hnode, hplan, ThreadGoalPlanNodeStatus.phase_eq_cancelled.1 hphase⟩, ?_⟩
    intro other hother hotherPlan
    rw [← ThreadGoalPlanNodeStatus.phase_eq_complete, ← ThreadGoalPlanNodeStatus.phase_eq_cancelled]
    cases hphase : other.status.phase with
    | unsettled => exact absurd ⟨other, hother, hotherPlan, hphase⟩ hunsettled
    | complete => exact .inl rfl
    | cancelled => exact .inr rfl

theorem Db.hasNode_updateNodes {p : ThreadGoalPlanNodeRow → Bool}
    {f : ThreadGoalPlanNodeRow → ThreadGoalPlanNodeRow}
    (hf : ∀ node ∈ db.nodes, p node = true → (f node).planId = node.planId ∧
      (node.planId = planId → (f node).status.phase = node.status.phase)) (phase : Phase) :
    (db.updateNodes p f).HasNode planId phase ↔ db.HasNode planId phase := by
  constructor
  · rintro ⟨row, hrow, hid, hphase⟩
    rcases Table.mem_updateWhere.1 hrow with ⟨old, hold, hmatch, rfl⟩ | ⟨hmem, -⟩
    · obtain ⟨hplan, hsame⟩ := hf old hold hmatch
      have holdId : old.planId = planId := hplan.symm.trans hid
      exact ⟨old, hold, holdId, (hsame holdId).symm.trans hphase⟩
    · exact ⟨row, hmem, hid, hphase⟩
  · rintro ⟨old, hold, hid, hphase⟩
    cases hmatch : p old with
    | false => exact ⟨old, Table.mem_updateWhere.2 (.inr ⟨hold, hmatch⟩), hid, hphase⟩
    | true =>
        obtain ⟨hplan, hsame⟩ := hf old hold hmatch
        exact ⟨f old, Table.mem_updateWhere.2 (.inl ⟨old, hold, hmatch, rfl⟩), hplan.trans hid,
          (hsame hid).trans hphase⟩

/-- The plan has nodes, and its status says whether they are settled. -/
structure Db.IsExact (db : Db) (plan : ThreadGoalPlan) : Prop where
  nonempty : ∃ node ∈ db.nodes, node.planId = plan.planId
  complete : plan.status = .complete ↔ db.AllComplete plan.planId
  cancelled : plan.status = .cancelled → db.AllSettled plan.planId

theorem Db.IsExact.congr {plan plan' : ThreadGoalPlan} (h : db.IsExact plan)
    (hid : plan'.planId = plan.planId) (hstatus : plan'.status.phase = plan.status.phase)
    (hnodes : ∀ phase, db'.HasNode plan.planId phase ↔ db.HasNode plan.planId phase) :
    db'.IsExact plan' := by
  refine ⟨?_, ?_, ?_⟩
  · obtain ⟨node, hnode, hplan⟩ := h.nonempty
    obtain ⟨other, hother, hotherPlan, -⟩ := (hnodes node.status.phase).2 ⟨node, hnode, hplan, rfl⟩
    rw [hid]
    exact ⟨other, hother, hotherPlan⟩
  · rw [← ThreadGoalPlanStatus.phase_eq_complete, hstatus, ThreadGoalPlanStatus.phase_eq_complete,
      h.complete, hid, Db.allComplete_iff, Db.allComplete_iff]
    simp only [hnodes]
  · rw [← ThreadGoalPlanStatus.phase_eq_cancelled, hstatus, ThreadGoalPlanStatus.phase_eq_cancelled,
      hid, Db.allSettled_iff]
    intro hcancelled
    simpa only [hnodes, Db.allSettled_iff] using h.cancelled hcancelled

/-- A plan that is not settled, with a node that is not settled. -/
theorem Db.IsExact.of_unsettled {plan : ThreadGoalPlan} (hplan : plan.status.phase = .unsettled)
    (hnode : db.HasNode plan.planId .unsettled) : db.IsExact plan := by
  refine ⟨?_, ?_, ?_⟩
  · obtain ⟨node, hmem, hid, -⟩ := hnode
    exact ⟨node, hmem, hid⟩
  · rw [← ThreadGoalPlanStatus.phase_eq_complete, hplan, Db.allComplete_iff]
    simp [hnode]
  · rw [← ThreadGoalPlanStatus.phase_eq_cancelled, hplan]
    intro h
    cases h

/-- Every plan that is not in `stale` is exact. -/
structure Db.ExactOutside (db : Db) (stale : Text → Prop) : Prop where
  integrity : db.Integrity
  single : ∀ a ∈ db.nodes, ∀ b ∈ db.nodes, a.status.phase = .unsettled →
    b.status.phase = .unsettled → a.assignedThreadId = b.assignedThreadId →
    ∀ goalId, a.projectedGoalId = some goalId → b.projectedGoalId = some goalId →
      a.nodeId = b.nodeId
  plans : ∀ plan ∈ db.plans, ¬stale plan.planId → db.IsExact plan

/-- Every plan is exact. -/
def Db.Exact (db : Db) : Prop := db.ExactOutside fun _ => False

namespace Db.ExactOutside

theorem mono {stale' : Text → Prop} (h : db.ExactOutside stale)
    (hsub : ∀ id, stale id → stale' id) : db.ExactOutside stale' :=
  ⟨h.integrity, h.single, fun plan hplan hfresh =>
    h.plans plan hplan fun hstale => hfresh (hsub _ hstale)⟩

theorem empty : Db.empty.Exact :=
  ⟨.empty, by simp [Db.empty], by simp [Db.empty]⟩

/-- What is neither a plan nor a node does not matter. -/
theorem of_same (h : db.ExactOutside stale) (hintegrity : db'.Integrity)
    (hplans : db'.plans = db.plans) (hnodes : db'.nodes = db.nodes) : db'.ExactOutside stale := by
  refine ⟨hintegrity, ?_, ?_⟩
  · rw [hnodes]
    exact h.single
  · rw [hplans]
    intro plan hplan hfresh
    refine (h.plans plan hplan hfresh).congr rfl rfl ?_
    intro phase
    rw [Db.HasNode, Db.HasNode, hnodes]

/-- An update of nodes that changes the phase of a node only in stale plans. -/
theorem updateNodes (h : db.ExactOutside stale) {p : ThreadGoalPlanNodeRow → Bool}
    {f : ThreadGoalPlanNodeRow → ThreadGoalPlanNodeRow}
    (hintegrity : (db.updateNodes p f).Integrity)
    (hids : ∀ node, (f node).nodeId = node.nodeId ∧ (f node).planId = node.planId ∧
      (f node).assignedThreadId = node.assignedThreadId)
    (hgoals : ∀ node ∈ db.nodes, p node = true → (f node).projectedGoalId = none ∨
      ((f node).projectedGoalId = node.projectedGoalId ∧
        ((f node).status.phase = .unsettled → node.status.phase = .unsettled)))
    (hphases : ∀ node ∈ db.nodes, p node = true → ¬stale node.planId →
      (f node).status.phase = node.status.phase) :
    (db.updateNodes p f).ExactOutside stale := by
  -- Every unsettled row that points to a goal was such a row before.
  have hold : ∀ row ∈ (db.updateNodes p f).nodes, row.status.phase = .unsettled → ∀ goalId,
      row.projectedGoalId = some goalId → ∃ old ∈ db.nodes, old.nodeId = row.nodeId ∧
        old.assignedThreadId = row.assignedThreadId ∧ old.status.phase = .unsettled ∧
        old.projectedGoalId = some goalId := by
    intro row hrow hphase goalId hgoal
    rcases Table.mem_updateWhere.1 hrow with ⟨old, hold, hmatch, rfl⟩ | ⟨hmem, -⟩
    · rcases hgoals old hold hmatch with hnone | ⟨hsame, hunsettled⟩
      · rw [hnone] at hgoal
        cases hgoal
      · exact ⟨old, hold, (hids old).1.symm, (hids old).2.2.symm, hunsettled hphase,
          hsame.symm.trans hgoal⟩
    · exact ⟨row, hmem, rfl, rfl, hphase, hgoal⟩
  refine ⟨hintegrity, ?_, ?_⟩
  · intro a ha b hb haPhase hbPhase hassigned goalId haGoal hbGoal
    obtain ⟨a', ha', haId, haThread, haOld, haOldGoal⟩ := hold a ha haPhase goalId haGoal
    obtain ⟨b', hb', hbId, hbThread, hbOld, hbOldGoal⟩ := hold b hb hbPhase goalId hbGoal
    rw [← haId, ← hbId]
    apply h.single a' ha' b' hb' haOld hbOld _ goalId haOldGoal hbOldGoal
    rw [haThread, hbThread, hassigned]
  · intro plan hplan hfresh
    refine (h.plans plan hplan hfresh).congr rfl rfl fun phase => Db.hasNode_updateNodes ?_ phase
    intro node hnode hmatch
    refine ⟨(hids node).2.1, ?_⟩
    rintro hid
    rw [← hid] at hfresh
    exact hphases node hnode hmatch hfresh

/-- An update of plans that keeps their phases. -/
theorem updatePlans (h : db.ExactOutside stale) {p : ThreadGoalPlan → Bool}
    {f : ThreadGoalPlan → ThreadGoalPlan} (hids : ∀ plan, (f plan).planId = plan.planId)
    (hphases : ∀ plan ∈ db.plans, p plan = true → (f plan).status.phase = plan.status.phase) :
    (db.updatePlans p f).ExactOutside stale := by
  refine ⟨h.integrity.updatePlans hids, h.single, ?_⟩
  intro plan hplan hfresh
  rcases Table.mem_updateWhere.1 hplan with ⟨old, hold, hmatch, rfl⟩ | ⟨hmem, -⟩
  · rw [hids old] at hfresh
    exact (h.plans old hold hfresh).congr (hids old) (hphases old hold hmatch) fun _ => Iff.rfl
  · exact (h.plans plan hmem hfresh).congr rfl rfl fun _ => Iff.rfl

/-- A plan with nodes is exact in the status that follows from them. -/
theorem withRecalculatedStatus (h : db.ExactOutside stale) {plan : ThreadGoalPlan}
    (hnodes : ∃ node ∈ db.nodes, node.planId = planId)
    (hfound : (db.plans.find? fun plan => plan.planId = planId) = some plan) :
    (db.updatePlans (fun plan => plan.planId = planId) fun row =>
      { row with status := db.recalculatedStatus plan, updatedAtMs := nowMs }).ExactOutside
        fun id => stale id ∧ id ≠ planId := by
  obtain ⟨node, hnode, hnodePlan⟩ := hnodes
  have hplanId : plan.planId = planId := by simpa using List.find?_some hfound
  refine ⟨h.integrity.updatePlans fun _ => rfl, h.single, ?_⟩
  intro row hrow hfresh
  rcases Table.mem_updateWhere.1 hrow with ⟨old, hold, hmatch, rfl⟩ | ⟨hmem, hother⟩
  · have hid : old.planId = planId := of_decide_eq_true hmatch
    have hsame : old.planId = plan.planId := hid.trans hplanId.symm
    refine ⟨⟨node, hnode, hnodePlan.trans hid.symm⟩, ?_, ?_⟩
    · rw [hsame]
      exact Db.recalculatedStatus_eq_complete_iff
    · rw [hsame]
      exact Db.recalculatedStatus_eq_cancelled_iff.1
  · have hkept : ¬stale row.planId := fun hstale => hfresh ⟨hstale, of_decide_eq_false hother⟩
    exact (h.plans row hmem hkept).congr rfl rfl fun _ => Iff.rfl

/-- Recalculating a plan makes it exact. -/
theorem recalculate (h : db.ExactOutside stale) {status : ThreadGoalPlanStatus}
    (hrun : recalculateGoalPlanStatusInTx planId nowMs db = (.ok status, db')) :
    db'.ExactOutside fun id => stale id ∧ id ≠ planId := by
  obtain ⟨hnodes, -, plan, hfound, rfl, rfl⟩ := recalculateGoalPlanStatusInTx_eq_ok.1 hrun
  exact h.withRecalculatedStatus hnodes hfound

/-- A new node that is not settled, in a plan that is not settled. -/
theorem insertNode (h : db.ExactOutside stale) {node : ThreadGoalPlanNodeRow}
    {plans : List ThreadGoalPlan}
    (hintegrity : Db.Integrity { db with plans, nodes := db.nodes ++ [node] })
    (hgoal : ∀ goalId, node.projectedGoalId = some goalId → ∀ other ∈ db.nodes,
      other.status.phase = .unsettled → other.assignedThreadId = node.assignedThreadId →
        other.projectedGoalId ≠ some goalId)
    (hplans : ∀ plan ∈ plans, plan.planId ≠ node.planId → plan ∈ db.plans) :
    Db.ExactOutside { db with plans, nodes := db.nodes ++ [node] }
      fun id => stale id ∨ id = node.planId := by
  refine ⟨hintegrity, ?_, ?_⟩
  · intro a ha b hb haPhase hbPhase hassigned goalId haGoal hbGoal
    rcases List.mem_append.1 ha with haOld | haNew <;>
      rcases List.mem_append.1 hb with hbOld | hbNew
    · exact h.single a haOld b hbOld haPhase hbPhase hassigned goalId haGoal hbGoal
    · obtain rfl := List.mem_singleton.1 hbNew
      exact absurd haGoal (hgoal goalId hbGoal a haOld haPhase hassigned)
    · obtain rfl := List.mem_singleton.1 haNew
      exact absurd hbGoal (hgoal goalId haGoal b hbOld hbPhase hassigned.symm)
    · rw [List.mem_singleton.1 haNew, List.mem_singleton.1 hbNew]
  · intro plan hplan hfresh
    rw [not_or] at hfresh
    refine (h.plans plan (hplans plan hplan hfresh.2) hfresh.1).congr rfl rfl ?_
    intro phase
    constructor
    · rintro ⟨row, hrow, hid, hphase⟩
      rcases List.mem_append.1 hrow with hold | hnew
      · exact ⟨row, hold, hid, hphase⟩
      · rw [List.mem_singleton.1 hnew] at hid
        exact absurd hid.symm hfresh.2
    · rintro ⟨row, hrow, hid, hphase⟩
      exact ⟨row, List.mem_append_left _ hrow, hid, hphase⟩

/-- A plan that is not settled is exact as soon as it has a node that is not settled. -/
theorem settle (h : db.ExactOutside fun id => stale id ∨ id = planId)
    (hplan : ∀ plan ∈ db.plans, plan.planId = planId → plan.status.phase = .unsettled)
    (hnode : db.HasNode planId .unsettled) : db.ExactOutside stale := by
  refine ⟨h.integrity, h.single, ?_⟩
  intro plan hmem hfresh
  by_cases hid : plan.planId = planId
  · apply Db.IsExact.of_unsettled (hplan plan hmem hid)
    rw [hid]
    exact hnode
  · apply h.plans plan hmem
    rintro (hstale | hsame)
    · exact hfresh hstale
    · exact hid hsame

theorem withoutPlansOf (h : db.ExactOutside stale) (threadId : ThreadId) :
    (db.withoutPlansOf threadId).ExactOutside stale := by
  have hkept : ∀ node, node ∈ (db.withoutPlansOf threadId).nodes → node ∈ db.nodes :=
    fun node hnode => (Table.mem_deleteWhere.1 hnode).1
  refine ⟨(Change.planDelete db threadId).integrity h.integrity, ?_, ?_⟩
  · intro a ha b hb
    exact h.single a (hkept a ha) b (hkept b hb)
  · intro plan hplan hfresh
    obtain ⟨hmem, hstays⟩ := Table.mem_deleteWhere.1 hplan
    refine (h.plans plan hmem hfresh).congr rfl rfl ?_
    intro phase
    constructor
    · rintro ⟨row, hrow, hid, hphase⟩
      exact ⟨row, hkept row hrow, hid, hphase⟩
    · rintro ⟨row, hrow, hid, hphase⟩
      refine ⟨row, Table.mem_deleteWhere.2 ⟨hrow, ?_⟩, hid, hphase⟩
      rw [List.any_eq_false]
      intro other hother hgone
      rw [Bool.and_eq_true] at hgone
      have hthread : other.threadId = threadId := of_decide_eq_true hgone.1
      have hsame : other.planId = row.planId := of_decide_eq_true hgone.2
      rw [h.integrity.eq_of_planId hother hmem (hsame.trans hid)] at hthread
      exact of_decide_eq_false hstays hthread

end Db.ExactOutside

/-! ## Changes -/

/-- The kinds of changes after which some plans may be stale. -/
def Kind.unsettles (kind : Kind) : Bool :=
  kind = .planInsert || kind = .nodeInsert || kind = .nodeConvert || kind = .nodeCancel ||
    kind = .nodeSync || kind = .nodeRecord || kind = .nodeComplete || kind = .nodeUndo

theorem Change.exactOutside {kind : Kind} (hkind : kind.unsettles = false)
    (h : Change kind db db') (hdb : db.ExactOutside stale) : db'.ExactOutside stale := by
  have hintegrity := h.integrity hdb.integrity
  cases h with
  | plan hkeeps hphase => exact hdb.updatePlans (fun plan => (hkeeps plan).1) hphase
  | @recalculate _ plan planId nowMs hnode hfound =>
      exact (hdb.withRecalculatedStatus hnode hfound).mono fun _ hstale => hstale.1
  | @reopen _ planId status nowMs hopen hphase =>
      refine hdb.updatePlans (fun _ => rfl) ?_
      intro plan hplan hmatch
      simp only [Db.planIsOpen, List.any_eq_true, Bool.and_eq_true, decide_eq_true_eq] at hopen
      obtain ⟨other, hother, hid, hotherOpen⟩ := hopen
      obtain rfl := hdb.integrity.eq_of_planId hother hplan
        (hid.trans (of_decide_eq_true hmatch).symm)
      rw [ThreadGoalPlanStatus.phase_of_isOpen hotherOpen]
      exact hphase
  | planDelete _ threadId => exact hdb.withoutPlansOf threadId
  | nodeStatus hstatus hphase hold =>
      refine hdb.updateNodes hintegrity (fun _ => ⟨rfl, rfl, rfl⟩) ?_ ?_
      · intro node _ hmatch
        exact .inr ⟨rfl, fun _ => hold node hmatch⟩
      · intro node _ hmatch _
        rw [hold node hmatch]
        exact hphase
  | @nodeRequeue _ node hnode hstatus nowMs =>
      have hold : ∀ row ∈ db.nodes, (row.nodeId = node.nodeId) → row.status.phase = .unsettled := by
        intro row hrow hid
        rw [hdb.integrity.eq_of_nodeId hrow hnode hid, hstatus]
        rfl
      refine hdb.updateNodes hintegrity (fun _ => ⟨rfl, rfl, rfl⟩) ?_ ?_
      · intro row hrow hmatch
        exact .inr ⟨rfl, fun _ => hold row hrow (of_decide_eq_true hmatch)⟩
      · intro row hrow hmatch _
        rw [hold row hrow (of_decide_eq_true hmatch)]
        rfl
  | nodeResume =>
      have hold : ∀ row : ThreadGoalPlanNodeRow, row.status = .paused →
          row.status.phase = .unsettled := by
        intro row hpaused
        rw [hpaused]
        rfl
      refine hdb.updateNodes hintegrity (fun _ => ⟨rfl, rfl, rfl⟩) ?_ ?_
      · intro row _ hmatch
        simp only [Bool.and_eq_true, decide_eq_true_eq] at hmatch
        exact .inr ⟨rfl, fun _ => hold row hmatch.1.2⟩
      · intro row _ hmatch _
        simp only [Bool.and_eq_true, decide_eq_true_eq] at hmatch
        rw [hold row hmatch.1.2]
        rfl
  | nodeEdit =>
      exact hdb.updateNodes hintegrity (fun _ => ⟨rfl, rfl, rfl⟩) (fun _ _ _ => .inr ⟨rfl, id⟩)
        fun _ _ _ _ => rfl
  | nodeShift =>
      exact hdb.updateNodes hintegrity (fun _ => ⟨rfl, rfl, rfl⟩) (fun _ _ _ => .inr ⟨rfl, id⟩)
        fun _ _ _ _ => rfl
  | nodeNest =>
      exact hdb.updateNodes hintegrity (fun _ => ⟨rfl, rfl, rfl⟩) (fun _ _ _ => .inr ⟨rfl, id⟩)
        fun _ _ _ _ => rfl
  | planInsert => cases hkind
  | nodeInsert => cases hkind
  | nodeConvert => cases hkind
  | nodeCancel => cases hkind
  | nodeSync => cases hkind
  | nodeRecord => cases hkind
  | nodeComplete => cases hkind
  | nodeUndo => cases hkind
  | _ => exact hdb.of_same hintegrity rfl rfl

theorem Changes.exactOutside {kinds : List Kind} (hkinds : ∀ kind ∈ kinds, kind.unsettles = false)
    (h : Changes kinds db db') (hdb : db.ExactOutside stale) : db'.ExactOutside stale :=
  h.invariant (fun kind hkind _ _ hchange => hchange.exactOutside (hkinds kind hkind)) hdb

/-- A new goal comes with an identifier of its own. -/
theorem Put.exactOutside {goalId : Text} (h : Put goalId db db') (hunused : db.Unused goalId)
    (hdb : db.ExactOutside stale) : db'.ExactOutside stale := by
  have hintegrity := h.integrity hdb.integrity
  cases h with
  | goal => exact hdb.of_same hintegrity (by simp) (by simp)
  | @node threadId nodeId plan node redactStateString nowMs hcan =>
      generalize hgoal : activatedGoal redactStateString threadId goalId nowMs plan node db = goal
        at hintegrity ⊢
      have hgoalId : goal.goalId = goalId := by
        rw [← hgoal]
        rfl
      have hphase : goal.status.toNodeStatus.phase = .unsettled := by
        rw [← hgoal]
        unfold activatedGoal freshThreadGoal statusAfterBudgetLimit
        dsimp only
        split <;> rfl
      have hstatus {row : ThreadGoalPlanNodeRow} (hrow : row.status.activatable = true) :
          row.status.phase = .unsettled := by
        cases hold : row.status <;> simp_all [ThreadGoalPlanNodeStatus.activatable,
          ThreadGoalPlanNodeStatus.phase]
      have hplans : (db.activated threadId nodeId goal nowMs).plans = db.plans := by
        simp [Db.activated]
      have hnodes : (db.activated threadId nodeId goal nowMs).nodes = Table.updateWhere
          (fun row => row.nodeId = nodeId && row.status.activatable)
          (fun row => row.activatedBy goal nowMs) db.nodes := by
        simp [Db.activated]
      -- The row that is activated is the only one with the new goal.
      have hrow : ∀ row ∈ (db.activated threadId nodeId goal nowMs).nodes,
          (row.nodeId = nodeId ∧ row.projectedGoalId = some goalId) ∨
            (row ∈ db.nodes ∧ row.projectedGoalId ≠ some goalId) := by
        intro row hmem
        rw [hnodes] at hmem
        rcases Table.mem_updateWhere.1 hmem with ⟨old, hold, hmatch, rfl⟩ | ⟨hold, -⟩
        · rw [Bool.and_eq_true, decide_eq_true_eq] at hmatch
          exact .inl ⟨hmatch.1, congrArg some hgoalId⟩
        · exact .inr ⟨hold, hunused.nodes row hold⟩
      refine ⟨hintegrity, ?_, ?_⟩
      · intro a ha b hb haPhase hbPhase hassigned other haGoal hbGoal
        rcases hrow a ha with ⟨haId, haNew⟩ | ⟨haOld, haNew⟩ <;>
          rcases hrow b hb with ⟨hbId, hbNew⟩ | ⟨hbOld, hbNew⟩
        · rw [haId, hbId]
        · rw [haNew] at haGoal
          exact absurd (hbGoal.trans haGoal.symm) hbNew
        · rw [hbNew] at hbGoal
          exact absurd (haGoal.trans hbGoal.symm) haNew
        · exact hdb.single a haOld b hbOld haPhase hbPhase hassigned other haGoal hbGoal
      · rw [hplans]
        intro row hmem hfresh
        refine (hdb.plans row hmem hfresh).congr rfl rfl ?_
        intro phase
        rw [Db.HasNode, hnodes]
        refine Db.hasNode_updateNodes ?_ phase
        intro old _ hmatch
        rw [Bool.and_eq_true] at hmatch
        refine ⟨rfl, fun _ => ?_⟩
        rw [hstatus hmatch.2]
        exact hphase

end Codewith.GoalStore
