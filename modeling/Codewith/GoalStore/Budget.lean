import Codewith.GoalStore.PauseResume
import Codewith.GoalStore.OperationChanges

/-!
# Goals within their budget

No operation leaves a goal active that has used up its budget, except for an edit
of a node that lowers the budget of its active goal, and the resumption of a plan
with a paused goal over budget.
-/

namespace Codewith.GoalStore

open Lib

/-- No active goal has used up its budget. -/
def Db.WithinBudgets (db : Db) : Prop := ∀ goal ∈ db.threadGoals, goal.isOverBudget = false

theorem Db.WithinBudgets.updateThreadGoals {db : Db} {p : ThreadGoal → Bool}
    {f : ThreadGoal → ThreadGoal} (h : db.WithinBudgets)
    (hf : ∀ goal ∈ db.threadGoals, p goal = true → goal.isOverBudget = false →
      (f goal).isOverBudget = false) : (db.updateThreadGoals p f).WithinBudgets :=
  Table.forall_mem_updateWhere h hf

theorem Db.WithinBudgets.upsertThreadGoal {db : Db} {goal : ThreadGoal} (h : db.WithinBudgets)
    (hgoal : goal.isOverBudget = false) : (db.upsertThreadGoal goal).WithinBudgets := by
  unfold Db.upsertThreadGoal
  split
  · exact h.updateThreadGoals fun _ _ _ _ => hgoal
  · intro other hother
    rcases List.mem_append.1 hother with hold | hnew
    · exact h other hold
    · rw [List.mem_singleton.1 hnew]
      exact hgoal

theorem Change.withinBudgets {kind : Kind} {db db' : Db} (hkind : kind ≠ .goalRaw)
    (h : Change kind db db') (hdb : db.WithinBudgets) : db'.WithinBudgets := by
  cases h with
  | goal _ hbudget => exact hdb.updateThreadGoals fun goal _ => hbudget goal
  | goalRaw => exact absurd rfl hkind
  | goalDelete => exact fun goal hgoal => hdb goal (Table.mem_deleteWhere.1 hgoal).1
  | planDelete => exact fun goal hgoal => hdb goal (Table.mem_deleteWhere.1 hgoal).1
  | nodeComplete => exact hdb.updateThreadGoals fun goal _ _ _ => rfl
  | nodeUndo => exact fun goal hgoal => hdb goal (Table.mem_deleteWhere.1 hgoal).1
  | _ => exact hdb

theorem Put.withinBudgets {goalId : Text} {db db' : Db} (h : Put goalId db db')
    (hdb : db.WithinBudgets) : db'.WithinBudgets := by
  cases h with
  | goal _ _ hbudget => exact hdb.upsertThreadGoal hbudget
  | @node threadId =>
      have hdropped :
          (db.deleteBlockerAudits fun audit => audit.threadId = threadId).WithinBudgets := hdb
      exact hdropped.upsertThreadGoal (freshThreadGoal_isOverBudget ..)

/-- The edit of a node leaves its active goal tokens to spend, and no goal that has
spent its budget is resumed with its plan. -/
def GoalOp.sparesBudgets (op : GoalOp) (db : Db) : Prop :=
  match op with
  | .updateThreadGoalPlanNode params _ =>
      ∀ node ∈ db.nodes, node.nodeId = Text.trim params.nodeId → ∀ goal ∈ db.threadGoals,
        node.isProjectedTo goal = true → goal.status = .active →
          budgetReached goal.tokensUsed (params.tokenBudget.apply node.tokenBudget) = false
  | .resumeWorkflowGoalPlanProjection runId _ =>
      ∀ projection, db.projectionByRun runId = some projection → ∀ goal ∈ db.threadGoals,
        db.isProjectedFrom projection.planId goal = true → goal.status = .paused →
          budgetReached goal.tokensUsed goal.tokenBudget = false
  | _ => True

variable {redactStateString : Text → Text} {db : Db}

theorem Changes.withinBudgets {kinds : List Kind} {db db' : Db} (hkinds : .goalRaw ∉ kinds)
    (h : Changes kinds db db') (hdb : db.WithinBudgets) : db'.WithinBudgets := by
  refine h.invariant (fun kind hkind _ _ hchange => hchange.withinBudgets ?_) hdb
  rintro rfl
  exact hkinds hkind

theorem updateThreadGoalPlanNode_withinBudgets {params : ThreadGoalPlanNodeUpdateParams}
    {nowMs : Int} {outcome : ThreadGoalPlanNodeMutationOutcome} {db' : Db}
    (hguard : GoalOp.sparesBudgets (.updateThreadGoalPlanNode params nowMs) db)
    (hdb : db.WithinBudgets)
    (h : updateThreadGoalPlanNode params nowMs db = (.ok outcome, db')) : db'.WithinBudgets := by
  have hedit : Kind.nodeEdit ∈ [Kind.plan, .nodeEdit, .dependency] := by simp
  obtain ⟨node, edited, mid, hedits, hbefore, hafter⟩ :=
    changes_updateThreadGoalPlanNode hedit (by simp) (by simp) h
  apply hafter.withinBudgets (by simp)
  apply (hbefore.withinBudgets (by simp) hdb).updateThreadGoals
  intro goal hgoal hprojected _
  obtain ⟨-, -, hassigned, hprojectedId, hbudget⟩ := params.edited_ids hedits.edited
  have hsame : node.isProjectedTo goal = true := by
    rw [ThreadGoalPlanNodeRow.isProjectedTo, ← hassigned, ← hprojectedId]
    exact hprojected
  rw [hedits.goals] at hgoal
  have hspared := hguard _ hedits.mem hedits.id goal hgoal hsame
  simp only [ThreadGoal.isOverBudget, Bool.and_eq_false_imp, decide_eq_true_eq]
  intro hactive
  rw [hbudget]
  exact hspared hactive

theorem resumeWorkflowGoalPlanProjection_withinBudgets {runId : Text} {nowMs : Int}
    {snapshots : List ThreadGoalPlanSnapshot} {db' : Db}
    (hguard : GoalOp.sparesBudgets (.resumeWorkflowGoalPlanProjection runId nowMs) db)
    (hdb : db.WithinBudgets)
    (h : resumeWorkflowGoalPlanProjection runId nowMs db = (.ok snapshots, db')) :
    db'.WithinBudgets := by
  have hstatus : Kind.nodeStatus ∈ [Kind.plan, .nodeStatus] := by simp
  rcases changes_resumeWorkflowGoalPlanProjection hstatus (by simp) h with
    rfl | ⟨projection, mid, hprojection, hresume, hgoals, hnodes, hrest⟩
  · exact hdb
  apply hrest.withinBudgets (by simp)
  apply (hresume.withinBudgets (by decide) hdb).updateThreadGoals
  intro goal hgoal hmatch _
  rw [Bool.and_eq_true, decide_eq_true_eq] at hmatch
  -- The nodes that were resumed first still have their plan and their goal.
  have hprojected : db.isProjectedFrom projection.planId goal = true := by
    rw [← isProjectedFrom_of_nodes hnodes (by simp) goal]
    exact hmatch.2
  rw [hgoals] at hgoal
  have hspared := hguard projection hprojection goal hgoal hprojected hmatch.1
  simp [ThreadGoal.isOverBudget, hspared]

theorem GoalOp.step_withinBudgets {op : GoalOp} (hguard : op.sparesBudgets db)
    (hdb : db.WithinBudgets) : (op.step redactStateString db).WithinBudgets := by
  by_cases hraw : Kind.goalRaw ∈ op.kinds
  · rcases GoalOp.step_cases redactStateString op db with hrun | hsame
    · cases op <;> simp only [kinds, List.mem_cons, reduceCtorEq, List.not_mem_nil, or_self,
        or_false] at hraw
      case updateThreadGoalPlanNode =>
        obtain ⟨outcome, hrun⟩ := exists_of_discard_run_ok hrun
        exact updateThreadGoalPlanNode_withinBudgets hguard hdb hrun
      case resumeWorkflowGoalPlanProjection =>
        obtain ⟨snapshots, hrun⟩ := exists_of_discard_run_ok hrun
        exact resumeWorkflowGoalPlanProjection_withinBudgets hguard hdb hrun
    · rw [hsame]
      exact hdb
  · refine GoalOp.step_invariant (fun kind hkind _ _ hchange => hchange.withinBudgets ?_)
      (fun _ _ _ hput => hput.withinBudgets) hdb
    rintro rfl
    exact hraw hkind

/-- In a run whose edits and resumptions spare the budgets, no goal is ever active
with its budget used up. -/
theorem no_goal_active_over_budget
    (h : Reaches (GoalOp.step redactStateString) GoalOp.sparesBudgets Db.empty db) :
    ∀ goal ∈ db.threadGoals, ∀ budget, goal.tokenBudget = some budget → goal.status = .active →
      goal.tokensUsed < budget := by
  have hwithin : db.WithinBudgets :=
    h.invariant (by simp [Db.WithinBudgets, Db.empty]) fun op _ => op.step_withinBudgets
  intro goal hgoal budget hbudget hactive
  have hgoal := hwithin goal hgoal
  simpa [ThreadGoal.isOverBudget, hactive, budgetReached, hbudget] using hgoal

/-- A plan with a single node, which is activated at once. -/
def sampleCreate : GoalOp :=
  .createThreadGoalPlan
    ⟨sampleThread, .aiDirected, none, [⟨"a".toList, "build".toList, none, none, 0, some 100, []⟩]⟩
    ⟨"plan".toList, fun _ => "node".toList, "goal".toList⟩ 1

def sampleCharge : GoalOp :=
  .accountThreadGoalUsage sampleThread 0 50 none .activeOnly none 2

/-- An edit of the budget of the node. -/
def sampleBudgetEdit (tokenBudget : Int) : GoalOp :=
  .updateThreadGoalPlanNode
    ⟨sampleThread, "node".toList, none, none, .keep, none, .set (some tokenBudget), none⟩ 3

theorem no_goal_active_over_budget_sample :
    (runOps (GoalOp.step id) [sampleCreate, sampleCharge, sampleBudgetEdit 60]
        Db.empty).threadGoals.length = 1 ∧
      ∀ goal ∈ (runOps (GoalOp.step id) [sampleCreate, sampleCharge, sampleBudgetEdit 60]
          Db.empty).threadGoals,
        ∀ budget, goal.tokenBudget = some budget → goal.status = .active →
          goal.tokensUsed < budget := by
  have hcharged : Reaches (GoalOp.step id) GoalOp.sparesBudgets Db.empty
      (runOps (GoalOp.step id) [sampleCreate, sampleCharge] Db.empty) :=
    .next _ (.next _ .start trivial) trivial
  have hguard : GoalOp.sparesBudgets (sampleBudgetEdit 60)
      (runOps (GoalOp.step id) [sampleCreate, sampleCharge] Db.empty) := by
    unfold sampleBudgetEdit GoalOp.sparesBudgets
    decide +kernel
  exact ⟨by decide +kernel, no_goal_active_over_budget (.next _ hcharged hguard)⟩

/-- Lowering the budget of the node under what its goal has used leaves the goal
active. -/
theorem goal_active_over_budget_after_edit :
    ∃ goal ∈ (runOps (GoalOp.step id) [sampleCreate, sampleCharge, sampleBudgetEdit 10]
        Db.empty).threadGoals,
      goal.status = .active ∧ goal.tokenBudget = some 10 ∧ goal.tokensUsed = 50 := by
  decide +kernel

end Codewith.GoalStore
