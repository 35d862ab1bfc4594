import Mathlib.Logic.Relation
import Codewith.GoalStore.Activation

/-!
# What the operations can do to the database

Every operation that returns is a sequence of changes of a few kinds, with at
most one new goal in between: a goal that is put in place by hand, or the goal of
a node that is activated.  A property of the database is kept by an operation if
it is kept by the kinds of changes the operation is made of.
-/

namespace Codewith.GoalStore

open Lib

inductive Kind
  | audit
  | goal
  | goalRaw
  | goalDelete
  | plan
  | planInsert
  | planDelete
  | nodeInsert
  | nodeConvert
  | nodeStatus
  | nodeCancel
  | nodeResume
  | nodeSync
  | nodeRecord
  | nodeEdit
  | nodeShift
  | nodeComplete
  | nodeUndo
  | nodeNest
  | dependency
  | projection
  deriving DecidableEq, Repr

/-- Where a node or a plan stands, as far as it is settled. -/
inductive Phase
  | unsettled
  | complete
  | cancelled
  deriving DecidableEq, Repr

def ThreadGoalPlanNodeStatus.phase : ThreadGoalPlanNodeStatus → Phase
  | .complete => .complete
  | .cancelled => .cancelled
  | _ => .unsettled

def ThreadGoalPlanStatus.phase : ThreadGoalPlanStatus → Phase
  | .complete => .complete
  | .cancelled => .cancelled
  | _ => .unsettled

theorem phase_of_reserves {status : ThreadGoalPlanNodeStatus} (h : status.reserves = true) :
    status.phase = .unsettled := by
  cases status <;> simp_all [ThreadGoalPlanNodeStatus.reserves, ThreadGoalPlanNodeStatus.phase]

/-- An active goal that has used up its budget. -/
def ThreadGoal.isOverBudget (goal : ThreadGoal) : Bool :=
  goal.status = .active && budgetReached goal.tokensUsed goal.tokenBudget

/-- An update that leaves a goal its identity and forgets no usage. -/
def KeepsGoal (f : ThreadGoal → ThreadGoal) : Prop :=
  ∀ goal, (f goal).threadId = goal.threadId ∧ (f goal).goalId = goal.goalId ∧
    goal.tokensUsed ≤ (f goal).tokensUsed

/-- No active node is projected to the goal of the thread. -/
def Db.Released (db : Db) (threadId : ThreadId) : Prop :=
  ∀ goal, db.threadGoal? threadId = some goal → ∀ node ∈ db.nodes,
    node.assignedThreadId = threadId → node.projectedGoalId = some goal.goalId →
      node.status ≠ .active

/-- A row that `insertNode` accepts. -/
structure Db.Accepts (db : Db) (node : ThreadGoalPlanNodeRow) : Prop where
  id : ∀ other ∈ db.nodes, other.nodeId ≠ node.nodeId
  key : ∀ other ∈ db.nodes, other.planId = node.planId → other.key ≠ node.key
  plan : ∃ plan ∈ db.plans, plan.planId = node.planId

/-- The node is a root of its plan or a sibling of another node of the plan. -/
def Db.Nests (db : Db) (node : ThreadGoalPlanNodeRow) : Prop :=
  (node.parentNodeId = none ∧ node.nestingDepth = 1) ∨
    ∃ sibling ∈ db.nodes, sibling.planId = node.planId ∧
      node.parentNodeId = sibling.parentNodeId ∧ node.nestingDepth = sibling.nestingDepth

/-- The goal a node is projected to. -/
def ThreadGoalPlanNodeRow.isProjectedTo (node : ThreadGoalPlanNodeRow) (goal : ThreadGoal) :
    Bool :=
  goal.threadId = node.assignedThreadId && node.projectedGoalId = some goal.goalId

/-- The database with the node and its goal complete, before the plan is
recalculated. -/
def Db.withNodeComplete (node : ThreadGoalPlanNodeRow) (nowMs : Int) (db : Db) : Db :=
  let goal := db.threadGoals.find? node.isProjectedTo
  (db.updateThreadGoals node.isProjectedTo fun goal =>
      { goal with status := .complete, updatedAtMs := nowMs }).updateNodes
    (fun row => row.nodeId = node.nodeId) fun row =>
      { row with
        status := .complete
        tokensUsed := (goal.map (·.tokensUsed)).getD node.tokensUsed
        timeUsedSeconds := (goal.map (·.timeUsedSeconds)).getD node.timeUsedSeconds
        linesAdded := (goal.map (·.linesAdded)).getD node.linesAdded
        linesDeleted := (goal.map (·.linesDeleted)).getD node.linesDeleted
        updatedAtMs := nowMs }

/-- The database with a completed node undone: its goal is gone, and so is what it
has spent. -/
def Db.withNodeUndone (node : ThreadGoalPlanNodeRow) (nowMs : Int) (db : Db) : Db :=
  (db.deleteThreadGoals node.isProjectedTo).updateNodes (fun row => row.nodeId = node.nodeId)
    fun row =>
      { row with
        status := .pending
        projectedGoalId := none
        tokensUsed := 0
        timeUsedSeconds := 0
        linesAdded := 0
        linesDeleted := 0
        updatedAtMs := nowMs }

/-- The goals of the thread's plans are deleted, and then the plans. -/
def Db.withoutPlansOf (threadId : ThreadId) (db : Db) : Db :=
  (db.deleteThreadGoals fun goal => db.nodes.any fun node =>
    node.assignedThreadId = goal.threadId && node.projectedGoalId = some goal.goalId &&
      db.plans.any fun plan => plan.planId = node.planId && plan.threadId = threadId).deletePlans
    fun plan => plan.threadId = threadId

/-- One change of a kind. -/
inductive Change : Kind → Db → Db → Prop
  | audit (db : Db) (audits : List ThreadGoalBlockerAudit)
      (turns : List ThreadGoalBlockerAuditTurn) :
      Change .audit db { db with blockerAudits := audits, blockerAuditTurns := turns }
  /-- No goal is moved over its budget. -/
  | goal {db : Db} {p : ThreadGoal → Bool} {f : ThreadGoal → ThreadGoal} (hkeeps : KeepsGoal f)
      (hbudget : ∀ goal, p goal = true → goal.isOverBudget = false →
        (f goal).isOverBudget = false) :
      Change .goal db (db.updateThreadGoals p f)
  | goalRaw {db : Db} {p : ThreadGoal → Bool} {f : ThreadGoal → ThreadGoal}
      (hkeeps : KeepsGoal f) : Change .goalRaw db (db.updateThreadGoals p f)
  | goalDelete {db : Db} {threadId : ThreadId} (hreleased : db.Released threadId) :
      Change .goalDelete db (db.deleteThreadGoals fun goal => goal.threadId = threadId)
  | plan {db : Db} {p : ThreadGoalPlan → Bool} {f : ThreadGoalPlan → ThreadGoalPlan}
      (hkeeps : ∀ plan, (f plan).planId = plan.planId ∧ (f plan).threadId = plan.threadId ∧
        (f plan).maxTokens = plan.maxTokens)
      (hphase : ∀ plan ∈ db.plans, p plan = true → (f plan).status.phase = plan.status.phase) :
      Change .plan db (db.updatePlans p f)
  | recalculate {db : Db} {plan : ThreadGoalPlan} {planId : Text} {nowMs : Int}
      (hnode : ∃ node ∈ db.nodes, node.planId = planId)
      (hplan : (db.plans.find? fun plan => plan.planId = planId) = some plan) :
      Change .plan db (db.updatePlans (fun plan => plan.planId = planId) fun row =>
        { row with status := db.recalculatedStatus plan, updatedAtMs := nowMs })
  | reopen {db : Db} {planId : Text} {status : ThreadGoalPlanStatus} {nowMs : Int}
      (hopen : db.planIsOpen planId = true) (hphase : status.phase = .unsettled) :
      Change .plan db (db.updatePlans (fun plan => plan.planId = planId) fun plan =>
        { plan with status, updatedAtMs := nowMs })
  | planInsert {db : Db} {plan : ThreadGoalPlan}
      (hfresh : ∀ other ∈ db.plans, other.planId ≠ plan.planId) :
      Change .planInsert db { db with plans := db.plans ++ [plan] }
  | planDelete (db : Db) (threadId : ThreadId) :
      Change .planDelete db (db.withoutPlansOf threadId)
  | nodeInsert {db : Db} {node : ThreadGoalPlanNodeRow} (haccepts : db.Accepts node)
      (hstatus : node.status = .pending) (htokens : node.tokensUsed = 0)
      (hprojected : node.projectedGoalId = none) (hnests : db.Nests node) :
      Change .nodeInsert db { db with nodes := db.nodes ++ [node] }
  /-- The current goal of the thread becomes the first node of a new plan. -/
  | nodeConvert {db : Db} {plan : ThreadGoalPlan} {node : ThreadGoalPlanNodeRow}
      {goal : ThreadGoal} (hfresh : ∀ other ∈ db.plans, other.planId ≠ plan.planId)
      (haccepts : Db.Accepts { db with plans := db.plans ++ [plan] } node)
      (hplan : node.planId = plan.planId)
      (hgoal : db.threadGoal? node.assignedThreadId = some goal)
      (hprojected : node.projectedGoalId = some goal.goalId)
      (hstatus : node.status = goal.status.toNodeStatus)
      (htokens : node.tokensUsed = goal.tokensUsed)
      (hnests : node.parentNodeId = none ∧ node.nestingDepth = 1) :
      Change .nodeConvert db { db with plans := db.plans ++ [plan], nodes := db.nodes ++ [node] }
  | nodeStatus {db : Db} {p : ThreadGoalPlanNodeRow → Bool} {status : ThreadGoalPlanNodeStatus}
      {nowMs : Int} (hstatus : status ≠ .active) (hphase : status.phase = .unsettled)
      (hold : ∀ node, p node = true → node.status.phase = .unsettled) :
      Change .nodeStatus db (db.updateNodes p fun node =>
        { node with status, updatedAtMs := nowMs })
  | nodeRequeue {db : Db} {node : ThreadGoalPlanNodeRow} (hnode : node ∈ db.nodes)
      (hstatus : node.status = .deferred) (nowMs : Int) :
      Change .nodeStatus db (db.updateNodes (fun row => row.nodeId = node.nodeId) fun row =>
        { row with status := .pending, updatedAtMs := nowMs })
  | nodeCancel {db : Db} {p : ThreadGoalPlanNodeRow → Bool} {nowMs : Int}
      (hold : ∀ node, p node = true → node.status = .pending) :
      Change .nodeCancel db (db.updateNodes p fun node =>
        { node with status := .cancelled, updatedAtMs := nowMs })
  | nodeResume (db : Db) (planId : Text) (nowMs : Int) :
      Change .nodeResume db (db.updateNodes
        (fun node => node.planId = planId && node.status = .paused && db.threadGoals.any fun goal =>
          node.projectedGoalId = some goal.goalId && goal.status = .paused)
        fun node => { node with status := .active, updatedAtMs := nowMs })
  | nodeSync (db : Db) (threadId : ThreadId) (goal : ThreadGoal) (nowMs : Int) :
      Change .nodeSync db (db.updateNodes (Db.syncMatches threadId goal db) fun node =>
        node.withUsage goal.status.toNodeStatus goal nowMs)
  | nodeRecord {db : Db} {p : ThreadGoalPlanNodeRow → Bool} {status : ThreadGoalPlanNodeStatus}
      {goal : ThreadGoal} {nowMs : Int} (hstatus : status ≠ .active)
      (hold : ∀ node, p node = true → node.status.phase = .unsettled) :
      Change .nodeRecord db (db.updateNodes p fun node => node.withUsage status goal nowMs)
  | nodeEdit {db : Db} {node : ThreadGoalPlanNodeRow} {nowMs : Int}
      (hrow : ∃ row ∈ db.nodes, row.nodeId = node.nodeId ∧ row.planId = node.planId)
      (hkey : ∀ other ∈ db.nodes, other.nodeId ≠ node.nodeId → other.planId = node.planId →
        other.key ≠ node.key) :
      Change .nodeEdit db (db.updateNodes (fun row => row.nodeId = node.nodeId) fun row =>
        { row with
          key := node.key
          objective := node.objective
          title := node.title
          priority := node.priority
          tokenBudget := node.tokenBudget
          updatedAtMs := nowMs })
  | nodeShift (db : Db) (p : ThreadGoalPlanNodeRow → Bool) (nowMs : Int) :
      Change .nodeShift db (db.updateNodes p fun node =>
        { node with sequence := node.sequence + 1, updatedAtMs := nowMs })
  | nodeComplete {db : Db} {node : ThreadGoalPlanNodeRow} (hnode : node ∈ db.nodes) (nowMs : Int) :
      Change .nodeComplete db (db.withNodeComplete node nowMs)
  | nodeUndo {db : Db} {node : ThreadGoalPlanNodeRow} (hnode : node ∈ db.nodes)
      (hstatus : node.status = .complete) (nowMs : Int) :
      Change .nodeUndo db (db.withNodeUndone node nowMs)
  | nodeNest (db : Db) (p : ThreadGoalPlanNodeRow → Bool) (parentNodeId : Option Text)
      (nestingDepth nowMs : Int) :
      Change .nodeNest db (db.updateNodes p fun node =>
        { node with parentNodeId, nestingDepth, updatedAtMs := nowMs })
  | dependency {db : Db} {dependencies : List ThreadGoalPlanDependency}
      (hnodes : ∀ dependency ∈ dependencies, dependency ∈ db.dependencies ∨
        ((∃ node ∈ db.nodes, node.nodeId = dependency.nodeId) ∧
          ∃ node ∈ db.nodes, node.nodeId = dependency.dependsOnNodeId)) :
      Change .dependency db { db with dependencies }
  | projection (db : Db) (projections : List WorkflowGoalPlanProjectionRow)
      (nodeProjections : List WorkflowGoalPlanNodeProjectionRow) :
      Change .projection db { db with projections, nodeProjections }

/-- A sequence of changes of the given kinds. -/
def Changes (kinds : List Kind) : Db → Db → Prop :=
  Relation.ReflTransGen fun db db' => ∃ kind ∈ kinds, Change kind db db'

namespace Changes

variable {kinds kinds' : List Kind} {db db₁ db' : Db}

theorem refl (kinds : List Kind) (db : Db) : Changes kinds db db := Relation.ReflTransGen.refl

theorem trans (h : Changes kinds db db₁) (h' : Changes kinds db₁ db') : Changes kinds db db' :=
  Relation.ReflTransGen.trans h h'

theorem single {kind : Kind} (hkind : kind ∈ kinds) (h : Change kind db db') :
    Changes kinds db db' :=
  Relation.ReflTransGen.single ⟨kind, hkind, h⟩

theorem mono (hsub : ∀ kind ∈ kinds, kind ∈ kinds') (h : Changes kinds db db') :
    Changes kinds' db db' := by
  refine Relation.ReflTransGen.mono ?_ _ _ h
  rintro a b ⟨kind, hkind, hchange⟩
  exact ⟨kind, hsub kind hkind, hchange⟩

/-- A property that each kind of change keeps is kept by a sequence of them. -/
theorem invariant {J : Db → Prop}
    (hstep : ∀ kind ∈ kinds, ∀ a b, Change kind a b → J a → J b)
    (h : Changes kinds db db') (hdb : J db) : J db' := by
  induction h with
  | refl => exact hdb
  | tail _ hlast ih =>
      obtain ⟨kind, hkind, hchange⟩ := hlast
      exact hstep kind hkind _ _ hchange ih

end Changes

/-- A goal with a new identifier becomes the goal of its thread. -/
inductive Put (goalId : Text) : Db → Db → Prop
  | goal {db : Db} {goal : ThreadGoal} (hid : goal.goalId = goalId) (htokens : goal.tokensUsed = 0)
      (hbudget : goal.isOverBudget = false) (hreleased : db.Released goal.threadId) :
      Put goalId db (db.upsertThreadGoal goal)
  | node {db : Db} {threadId : ThreadId} {nodeId : Text} {plan : ThreadGoalPlan}
      {node : ThreadGoalPlanNodeRow} (redactStateString : Text → Text) (nowMs : Int)
      (hcan : db.CanActivate threadId nodeId plan node) :
      Put goalId db (db.activated threadId nodeId
        (activatedGoal redactStateString threadId goalId nowMs plan node db) nowMs)

/-- Changes of the given kinds, with at most one new goal in between. -/
def Progress (kinds : List Kind) (goalId : Option Text) (db db' : Db) : Prop :=
  ∃ before after, Changes kinds db before ∧
    (before = after ∨ ∃ id, goalId = some id ∧ Put id before after) ∧ Changes kinds after db'

namespace Progress

variable {kinds : List Kind} {goalId : Option Text} {db db₁ db' : Db}

theorem of_changes (h : Changes kinds db db') : Progress kinds goalId db db' :=
  ⟨db', db', h, .inl rfl, .refl _ _⟩

/-- Without an identifier there is no new goal. -/
theorem changes (h : Progress kinds none db db') : Changes kinds db db' := by
  obtain ⟨before, after, hbefore, rfl | ⟨id, hid, -⟩, hafter⟩ := h
  · exact hbefore.trans hafter
  · cases hid

theorem of_put {id : Text} (h : Put id db db') : Progress kinds (some id) db db' :=
  ⟨db, db', .refl _ _, .inr ⟨id, rfl, h⟩, .refl _ _⟩

theorem mono {kinds' : List Kind} (hsub : ∀ kind ∈ kinds, kind ∈ kinds')
    (h : Progress kinds goalId db db') : Progress kinds' goalId db db' := by
  obtain ⟨before, after, hbefore, hput, hafter⟩ := h
  exact ⟨before, after, hbefore.mono hsub, hput, hafter.mono hsub⟩

theorem prepend (h : Changes kinds db db₁) (h' : Progress kinds goalId db₁ db') :
    Progress kinds goalId db db' := by
  obtain ⟨before, after, hbefore, hput, hafter⟩ := h'
  exact ⟨before, after, h.trans hbefore, hput, hafter⟩

theorem append (h : Progress kinds goalId db db₁) (h' : Changes kinds db₁ db') :
    Progress kinds goalId db db' := by
  obtain ⟨before, after, hbefore, hput, hafter⟩ := h
  exact ⟨before, after, hbefore, hput, hafter.trans h'⟩

theorem invariant {J : Db → Prop}
    (hstep : ∀ kind ∈ kinds, ∀ a b, Change kind a b → J a → J b)
    (hput : ∀ id a b, Put id a b → J a → J b)
    (h : Progress kinds goalId db db') (hdb : J db) : J db' := by
  obtain ⟨before, after, hbefore, hmiddle, hafter⟩ := h
  have hJ : J before := hbefore.invariant hstep hdb
  apply hafter.invariant hstep
  rcases hmiddle with rfl | ⟨id, -, hnew⟩
  · exact hJ
  · exact hput id _ _ hnew hJ

end Progress

/-! ## The helpers -/

section Helpers

variable {kinds : List Kind} {db db' : Db} {nowMs : Int} {planId : Text}

theorem changes_recalculate (hplan : .plan ∈ kinds) {status : ThreadGoalPlanStatus}
    (h : recalculateGoalPlanStatusInTx planId nowMs db = (.ok status, db')) :
    Changes kinds db db' := by
  obtain ⟨hnode, -, plan, hfound, rfl, rfl⟩ := recalculateGoalPlanStatusInTx_eq_ok.1 h
  exact .single hplan (.recalculate hnode hfound)

theorem snapshot_state {snapshot : ThreadGoalPlanSnapshot}
    (h : snapshotThreadGoalPlanInTx planId db = (.ok snapshot, db')) : db' = db :=
  (snapshotThreadGoalPlanInTx_eq_ok.1 h).2.2.symm

theorem changes_recalculateGoalPlans (hplan : .plan ∈ kinds) {planIds : List Text}
    {snapshots : List ThreadGoalPlanSnapshot}
    (h : recalculateGoalPlans nowMs planIds db = (.ok snapshots, db')) : Changes kinds db db' := by
  induction planIds generalizing db snapshots with
  | nil =>
      obtain ⟨-, rfl⟩ := Exec.pure_eq_ok.1 h
      exact .refl _ _
  | cons planId planIds ih =>
      simp only [recalculateGoalPlans, Exec.bind_eq_ok, Exec.pure_eq_ok] at h
      obtain ⟨_, _, hfirst, _, _, hsnapshot, _, _, hrest, -, rfl⟩ := h
      obtain rfl := snapshot_state hsnapshot
      exact (changes_recalculate hplan hfirst).trans (ih hrest)

/-- Nodes change only if the plan is spent. -/
theorem changes_markPendingNodesBudgetLimited {spent : Bool}
    (hstatus : spent = true → .nodeStatus ∈ kinds)
    (h : markPendingNodesBudgetLimitedIfPlanSpentInTx planId nowMs db = (.ok spent, db')) :
    Changes kinds db db' := by
  simp only [markPendingNodesBudgetLimitedIfPlanSpentInTx, Exec.bind_eq_ok,
    getThreadGoalPlanInTx_eq_ok] at h
  obtain ⟨plan, _, ⟨-, rfl⟩, h⟩ := h
  cases hmax : plan.maxTokens with
  | none =>
      rw [hmax] at h
      obtain ⟨-, rfl⟩ := Exec.pure_eq_ok.1 h
      exact .refl _ _
  | some maxTokens =>
      rw [hmax] at h
      simp only [Exec.bind_eq_ok, totalPlanTokensInTx_eq_ok, Exec.ite_run] at h
      obtain ⟨_, _, ⟨-, rfl, rfl⟩, h⟩ := h
      split at h
      · obtain ⟨-, rfl⟩ := Exec.pure_eq_ok.1 h
        exact .refl _ _
      · simp only [Exec.bind_eq_ok, Exec.modify_eq_ok, Exec.pure_eq_ok] at h
        obtain ⟨_, _, rfl, hspent, rfl⟩ := h
        refine .single (hstatus hspent.symm) (.nodeStatus (by decide) rfl ?_)
        intro node hnode
        rw [Bool.and_eq_true, decide_eq_true_eq, decide_eq_true_eq] at hnode
        rw [hnode.2]
        rfl

/-- Changes of plan rows leave the goals, the nodes and their dependencies. -/
theorem Changes.of_plan (h : Changes [.plan] db db') :
    db'.threadGoals = db.threadGoals ∧ db'.nodes = db.nodes ∧
      db'.dependencies = db.dependencies := by
  apply h.invariant (J := fun mid => mid.threadGoals = db.threadGoals ∧ mid.nodes = db.nodes ∧
    mid.dependencies = db.dependencies) _ ⟨rfl, rfl, rfl⟩
  intro kind hkind a b hchange ha
  obtain rfl := List.mem_singleton.1 hkind
  cases hchange with
  | plan => exact ha
  | recalculate => exact ha
  | reopen => exact ha

/-- Once its nodes are blocked, the goal of the thread can go. -/
theorem changes_blockNodesOfCurrentGoal (hstatus : .nodeStatus ∈ kinds) (hplan : .plan ∈ kinds)
    {threadId : ThreadId} {snapshots : List ThreadGoalPlanSnapshot}
    (h : blockNodesOfCurrentGoal threadId nowMs db = (.ok snapshots, db')) :
    Changes kinds db db' ∧ db'.Released threadId := by
  simp only [blockNodesOfCurrentGoal, Exec.bind_eq_ok, Exec.gets_eq_ok] at h
  obtain ⟨current, _, ⟨hcurrent, rfl⟩, h⟩ := h
  cases current with
  | none =>
      obtain ⟨-, rfl⟩ := Exec.pure_eq_ok.1 h
      refine ⟨.refl _ _, ?_⟩
      intro goal hgoal
      rw [hcurrent] at hgoal
      cases hgoal
  | some previous =>
      simp only [blockProjectedGoalPlanNodesInTx, Exec.bind_eq_ok, Exec.gets_eq_ok,
        Exec.modify_eq_ok] at h
      obtain ⟨_, _, ⟨rfl, rfl⟩, _, _, rfl, h⟩ := h
      obtain ⟨hgoals, hnodes, -⟩ := (changes_recalculateGoalPlans (by simp) h).of_plan
      refine ⟨Changes.trans (.single hstatus (.nodeStatus ?_ ?_ ?_))
        (changes_recalculateGoalPlans hplan h), ?_⟩
      · decide
      · rfl
      · intro node hnode
        rw [Bool.and_eq_true] at hnode
        exact phase_of_reserves hnode.2
      · intro goal hgoal node hnode hassigned hprojected hactive
        rw [Db.threadGoal?, hgoals] at hgoal
        obtain rfl : previous = goal := Option.some.inj (hcurrent.symm.trans hgoal)
        rw [hnodes] at hnode
        rcases Table.mem_updateWhere.1 hnode with ⟨old, -, -, rfl⟩ | ⟨-, hkept⟩
        · cases hactive
        · simp [hassigned, hprojected, hactive, ThreadGoalPlanNodeStatus.reserves] at hkept

end Helpers

end Codewith.GoalStore
