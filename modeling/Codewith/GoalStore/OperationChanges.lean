import Codewith.GoalStore.ProjectionChanges

/-!
# The kinds of changes of each operation

`GoalOp.kinds` lists the kinds of changes that an operation is made of, and
`GoalOp.progress` says that nothing else happens.
-/

namespace Codewith.GoalStore

open Lib

def GoalOp.kinds : GoalOp → List Kind
  | .replaceThreadGoal .. => [.audit, .plan, .nodeStatus]
  | .insertThreadGoal .. => []
  | .updateThreadGoal .. => [.goal]
  | .pauseActiveThreadGoal .. => [.goal]
  | .usageLimitActiveThreadGoal .. => [.goal]
  | .observeActiveThreadGoalBlocker .. => [.goal, .audit]
  | .clearThreadGoalBlockerAudit .. => [.audit]
  | .clearThreadGoalBlockerAuditForGoal .. => [.audit]
  | .deleteThreadGoal .. => [.goalDelete, .plan, .nodeStatus]
  | .accountThreadGoalUsage .. => [.goal]
  | .createThreadGoalPlan .. => [.planInsert, .nodeInsert, .dependency]
  | .appendThreadGoalPlanNodes .. => [.plan, .nodeInsert, .dependency]
  | .updateThreadGoalPlanNodeHierarchy .. => [.plan, .nodeNest]
  | .addThreadGoalToPlan .. => [.plan, .planInsert, .nodeInsert, .nodeConvert, .dependency]
  | .deleteThreadGoalPlansForThread .. => [.planDelete]
  | .cancelPendingGoalPlanNodesAssignedToThread .. => [.plan, .nodeCancel]
  | .blockActiveGoalPlanNodesForThread .. => [.plan, .nodeStatus]
  | .syncGoalPlanNodeForGoal .. => [.plan, .nodeStatus, .nodeSync]
  | .completeGoalPlanNodeAndMaybeAdvance .. => [.plan, .nodeStatus, .nodeRecord]
  | .deferGoalPlanNodeAndMaybeAdvance .. => [.plan, .nodeStatus, .nodeRecord]
  | .activateThreadGoalPlanNode .. => []
  | .resumeDeferredGoalPlanNode .. => []
  | .updateThreadGoalPlanNode .. => [.goalRaw, .plan, .nodeEdit, .dependency]
  | .insertThreadGoalPlanNode .. => [.plan, .nodeInsert, .nodeShift, .dependency]
  | .setThreadGoalPlanNodeStatus .. => [.plan, .nodeStatus, .nodeComplete, .nodeUndo]
  | .projectWorkflowRunToGoalPlan .. => [.planInsert, .nodeInsert, .dependency, .projection]
  | .blockWorkflowGoalPlanProjection .. => [.plan, .nodeStatus]
  | .pauseWorkflowGoalPlanProjection .. => [.goal, .plan, .nodeStatus]
  | .resumeWorkflowGoalPlanProjection .. => [.goalRaw, .plan, .nodeStatus, .nodeResume]

/-- The identifier for a new goal that the operation draws. -/
def GoalOp.newGoalId : GoalOp → Option Text
  | .replaceThreadGoal _ _ _ _ _ goalId _ => some goalId
  | .insertThreadGoal _ _ _ _ _ goalId _ => some goalId
  | .createThreadGoalPlan _ ids _ => some ids.goalId
  | .addThreadGoalToPlan _ ids _ => some ids.goalId
  | .completeGoalPlanNodeAndMaybeAdvance _ _ _ goalId _ => some goalId
  | .deferGoalPlanNodeAndMaybeAdvance _ _ _ goalId _ => some goalId
  | .activateThreadGoalPlanNode _ _ goalId _ => some goalId
  | .resumeDeferredGoalPlanNode _ _ goalId _ => some goalId
  | .setThreadGoalPlanNodeStatus _ goalId _ => some goalId
  | .projectWorkflowRunToGoalPlan _ _ _ _ _ ids _ => some ids.goalId
  | _ => none

variable {redactStateString : Text → Text} {op : GoalOp} {db db' : Db}

/-- An operation that returns has made changes of its kinds, and at most one new
goal. -/
theorem GoalOp.progress (h : op.run redactStateString db = (.ok (), db')) :
    Progress op.kinds op.newGoalId db db' := by
  cases op <;> obtain ⟨outcome, h⟩ := exists_of_discard_run_ok h
  case replaceThreadGoal =>
    exact (putsGoal_replaceThreadGoal (by simp [kinds]) (by simp [kinds]) (by simp [kinds])
      h).progress
  case insertThreadGoal => exact (putsGoal_insertThreadGoal h).progress
  case updateThreadGoal => exact .of_changes (changes_updateThreadGoal (by simp [kinds]) h)
  case pauseActiveThreadGoal =>
    exact .of_changes (changes_updateActiveThreadGoalStatus (by simp [kinds]) (by decide) h)
  case usageLimitActiveThreadGoal =>
    exact .of_changes (changes_updateActiveThreadGoalStatus (by simp [kinds]) (by decide) h)
  case observeActiveThreadGoalBlocker =>
    exact .of_changes
      (changes_observeActiveThreadGoalBlocker (by simp [kinds]) (by simp [kinds]) h)
  case clearThreadGoalBlockerAudit =>
    exact .of_changes (changes_clearThreadGoalBlockerAudit (by simp [kinds]) h)
  case clearThreadGoalBlockerAuditForGoal =>
    exact .of_changes (changes_clearThreadGoalBlockerAuditForGoal (by simp [kinds]) h)
  case deleteThreadGoal =>
    exact .of_changes
      (changes_deleteThreadGoal (by simp [kinds]) (by simp [kinds]) (by simp [kinds]) h)
  case accountThreadGoalUsage =>
    exact .of_changes (changes_accountThreadGoalUsage (by simp [kinds]) h)
  case createThreadGoalPlan =>
    exact progress_insertThreadGoalPlanInTx (by simp [kinds]) (by simp [kinds]) (by simp [kinds])
      (createThreadGoalPlan_eq_ok.1 h).2
  case appendThreadGoalPlanNodes =>
    exact .of_changes
      (changes_appendThreadGoalPlanNodes (by simp [kinds]) (by simp [kinds]) (by simp [kinds]) h)
  case updateThreadGoalPlanNodeHierarchy =>
    exact .of_changes
      (changes_updateThreadGoalPlanNodeHierarchy (by simp [kinds]) (by simp [kinds]) h)
  case addThreadGoalToPlan =>
    rcases progress_addThreadGoalToPlan h with hadd | ⟨goal, -, hconvert, hrest⟩
    · exact hadd.mono (by simp [kinds, appendKinds])
    · exact .of_changes (Changes.trans (.single (by simp [kinds]) hconvert)
        (hrest.mono (by simp [kinds, appendKinds])))
  case deleteThreadGoalPlansForThread =>
    exact .of_changes (changes_deleteThreadGoalPlansForThread (by simp [kinds]) h)
  case cancelPendingGoalPlanNodesAssignedToThread =>
    exact .of_changes (changes_cancelPendingGoalPlanNodes (by simp [kinds]) (by simp [kinds]) h)
  case blockActiveGoalPlanNodesForThread =>
    exact .of_changes (changes_blockActiveGoalPlanNodes (by simp [kinds]) (by simp [kinds]) h)
  case syncGoalPlanNodeForGoal =>
    exact .of_changes (Changes.trans (.single (by simp [kinds]) (.nodeSync ..))
      (changes_syncGoalPlanNodeForGoal (by simp [kinds]) (by simp [kinds]) h))
  case completeGoalPlanNodeAndMaybeAdvance =>
    exact progress_completeGoalPlanNodeAndMaybeAdvance (by simp [kinds]) (by simp [kinds])
      (by simp [kinds]) h
  case deferGoalPlanNodeAndMaybeAdvance =>
    exact progress_deferGoalPlanNodeAndMaybeAdvance (by simp [kinds]) (by simp [kinds])
      (by simp [kinds]) h
  case activateThreadGoalPlanNode => exact (goesOn_activateSelected h).progress
  case resumeDeferredGoalPlanNode => exact (goesOn_activateSelected h).progress
  case updateThreadGoalPlanNode =>
    have hedit : Kind.nodeEdit ∈ [Kind.goalRaw, .plan, .nodeEdit, .dependency] := by simp
    obtain ⟨node, edited, mid, -, hbefore, hafter⟩ :=
      changes_updateThreadGoalPlanNode hedit (by simp) (by simp) h
    refine .of_changes ((hbefore.trans (.single (by simp) (.goalRaw ?_))).trans hafter)
    intro goal
    exact ⟨rfl, rfl, le_refl _⟩
  case insertThreadGoalPlanNode =>
    exact .of_changes (changes_insertThreadGoalPlanNode (by simp [kinds]) (by simp [kinds])
      (by simp [kinds]) (by simp [kinds]) h)
  case setThreadGoalPlanNodeStatus =>
    exact progress_setThreadGoalPlanNodeStatus (by simp [kinds]) (by simp [kinds])
      (by simp [kinds]) (by simp [kinds]) h
  case projectWorkflowRunToGoalPlan =>
    exact progress_projectWorkflowRunToGoalPlan (by simp [kinds]) (by simp [kinds])
      (by simp [kinds]) (by simp [kinds]) h
  case blockWorkflowGoalPlanProjection =>
    exact .of_changes
      (changes_blockWorkflowGoalPlanProjection (by simp [kinds]) (by simp [kinds]) h)
  case pauseWorkflowGoalPlanProjection =>
    exact .of_changes (changes_pauseWorkflowGoalPlanProjection (by simp [kinds])
      (by simp [kinds]) (by simp [kinds]) h)
  case resumeWorkflowGoalPlanProjection =>
    have hstatus : Kind.nodeStatus ∈ [Kind.goalRaw, .plan, .nodeStatus, .nodeResume] := by simp
    rcases changes_resumeWorkflowGoalPlanProjection hstatus (by simp) h with
        rfl | ⟨projection, mid, -, hresume, -, -, hrest⟩
    · exact .of_changes (.refl _ _)
    · refine .of_changes (Changes.trans (.single (by simp [kinds]) hresume)
        (Changes.trans (.single (by simp [kinds]) (.goalRaw ?_)) hrest))
      intro goal
      exact ⟨rfl, rfl, le_refl _⟩

/-- A property that the kinds of changes of an operation keep, and a new goal too,
is kept by the operation. -/
theorem GoalOp.step_invariant {J : Db → Prop}
    (hstep : ∀ kind ∈ op.kinds, ∀ a b, Change kind a b → J a → J b)
    (hput : ∀ id a b, Put id a b → J a → J b) (hdb : J db) : J (op.step redactStateString db) := by
  rcases GoalOp.step_cases redactStateString op db with hrun | hsame
  · exact (GoalOp.progress hrun).invariant hstep hput hdb
  · rw [hsame]
    exact hdb

end Codewith.GoalStore
