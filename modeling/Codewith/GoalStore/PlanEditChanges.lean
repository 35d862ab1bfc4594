import Codewith.GoalStore.PlanProgressChanges

/-!
# The changes of plan edits

The operations of `goal_plan_edits.rs` as sequences of changes.
-/

namespace Codewith.GoalStore

open Lib

variable {kinds : List Kind} {redactStateString : Text → Text} {db db' : Db} {threadId : ThreadId}
  {planId : Text} {nowMs : Int}

/-! ## Edits -/

theorem mem_nodes_of_mem_snapshotNodes {node : ThreadGoalPlanNode}
    (h : node ∈ db.snapshotNodes planId) :
    node.toThreadGoalPlanNodeRow ∈ db.nodes ∧ node.planId = planId ∧
      node.dependsOn = db.nodeDependencyKeys node.nodeId := by
  obtain ⟨row, hrow, rfl⟩ := List.mem_map.1 h
  obtain ⟨hmem, hplan⟩ := Table.mem_selectOrdered.1 hrow
  exact ⟨hmem, by simpa using hplan, rfl⟩

theorem mem_snapshotNodes {row : ThreadGoalPlanNodeRow} (hrow : row ∈ db.nodes)
    (hplan : row.planId = planId) :
    { row with dependsOn := db.nodeDependencyKeys row.nodeId } ∈ db.snapshotNodes planId :=
  List.mem_map.2 ⟨row, Table.mem_selectOrdered.2 ⟨hrow, by simpa using hplan⟩, rfl⟩

theorem requireNonEmptyId_eq_ok {value label id : Text} :
    requireNonEmptyId value label db = (.ok id, db') ↔ value ≠ [] ∧ value = id ∧ db = db' := by
  simp only [requireNonEmptyId, Exec.bind_eq_ok, ensure_eq_ok, Exec.pure_eq_ok]
  constructor
  · rintro ⟨_, _, ⟨hne, rfl⟩, hvalue, hstate⟩
    exact ⟨hne, hvalue, hstate⟩
  · rintro ⟨hne, rfl, rfl⟩
    exact ⟨(), db, ⟨hne, rfl⟩, rfl, rfl⟩

theorem planIdForNodeInTx_eq_ok {nodeId : Text} :
    planIdForNodeInTx nodeId db = (.ok planId, db') ↔
      (∃ node, (db.nodes.find? fun node => node.nodeId = nodeId) = some node ∧
        node.planId = planId) ∧ db = db' := by
  simp only [planIdForNodeInTx, Exec.bind_eq_ok, Exec.gets_eq_ok]
  constructor
  · rintro ⟨found, _, ⟨hfound, rfl⟩, hrun⟩
    cases found with
    | none => exact (bail_eq_ok.1 hrun).elim
    | some node =>
        obtain ⟨rfl, hstate⟩ := Exec.pure_eq_ok.1 hrun
        exact ⟨⟨node, hfound, rfl⟩, hstate⟩
  · rintro ⟨⟨node, hfound, rfl⟩, rfl⟩
    refine ⟨_, db, ⟨rfl, rfl⟩, ?_⟩
    rw [hfound]
    rfl

theorem ownedPlanSnapshotInTx_eq_ok {snapshot : ThreadGoalPlanSnapshot} :
    ownedPlanSnapshotInTx threadId planId db = (.ok snapshot, db') ↔
      (db.plans.find? fun plan => plan.planId = planId) = some snapshot.plan ∧
        snapshot.nodes = db.snapshotNodes planId ∧ snapshot.plan.threadId = threadId ∧
        db = db' := by
  simp only [ownedPlanSnapshotInTx, Exec.bind_eq_ok, snapshotThreadGoalPlanInTx_eq_ok,
    ensure_eq_ok, Exec.pure_eq_ok]
  constructor
  · rintro ⟨_, _, ⟨hplan, hnodes, rfl⟩, _, _, ⟨howner, rfl⟩, rfl, rfl⟩
    exact ⟨hplan, hnodes, howner, rfl⟩
  · rintro ⟨hplan, hnodes, howner, rfl⟩
    exact ⟨snapshot, db, ⟨hplan, hnodes, rfl⟩, (), db, ⟨howner, rfl⟩, rfl, rfl⟩

theorem snapshotNode_eq_ok {snapshot : ThreadGoalPlanSnapshot} {nodeId : Text}
    {node : ThreadGoalPlanNode} :
    snapshotNode snapshot nodeId db = (.ok node, db') ↔
      (snapshot.nodes.find? fun node => node.nodeId = nodeId) = some node ∧ db = db' := by
  unfold snapshotNode
  cases hfound : snapshot.nodes.find? fun node => node.nodeId = nodeId with
  | none => simp [bail_eq_ok]
  | some found => simp

theorem Db.updateThreadGoals_eq_self {p : ThreadGoal → Bool} {f : ThreadGoal → ThreadGoal}
    (h : ∀ goal, p goal = false) : db.updateThreadGoals p f = db := by
  have hnone : (db.threadGoals.any fun _ => false) = false := by
    rw [List.any_eq_false]
    simp
  have hnone' : (db.blockerAudits.any fun _ => false) = false := by
    rw [List.any_eq_false]
    simp
  simp [Db.updateThreadGoals, Db.deleteBlockerAudits, Table.updateWhere, Table.deleteWhere, h,
    hnone, hnone']

theorem updateProjectedGoal_eq_ok {node : ThreadGoalPlanNode} {f : ThreadGoal → ThreadGoal}
    {goal : Option ThreadGoal} :
    updateProjectedGoal node f db = (.ok goal, db') ↔
      (db.threadGoals.find? node.isProjectedTo).map f = goal ∧
        db.updateThreadGoals node.isProjectedTo f = db' := by
  unfold updateProjectedGoal
  cases hprojected : node.projectedGoalId with
  | none =>
      have hnone : ∀ goal, node.isProjectedTo goal = false := by
        intro goal
        simp [ThreadGoalPlanNodeRow.isProjectedTo, hprojected]
      have hfind : db.threadGoals.find? node.isProjectedTo = none := by
        simp [hnone]
      rw [Db.updateThreadGoals_eq_self hnone, hfind]
      exact Exec.pure_eq_ok
  | some projectedGoalId =>
      have hmatch : (fun goal : ThreadGoal =>
          decide (goal.threadId = node.assignedThreadId) &&
            decide (goal.goalId = projectedGoalId)) =
            node.isProjectedTo := by
        funext goal
        simp [ThreadGoalPlanNodeRow.isProjectedTo, hprojected, eq_comm]
      simp only [hmatch, Exec.bind_eq_ok, Exec.gets_eq_ok, Exec.modify_eq_ok, Exec.pure_eq_ok]
      constructor
      · rintro ⟨_, _, ⟨rfl, rfl⟩, _, _, rfl, rfl, rfl⟩
        exact ⟨rfl, rfl⟩
      · rintro ⟨rfl, rfl⟩
        exact ⟨_, db, ⟨rfl, rfl⟩, (), _, rfl, rfl, rfl⟩

theorem changes_replaceNodeDependencies (hdependency : .dependency ∈ kinds)
    {node : ThreadGoalPlanNode} {existingNodes : List ThreadGoalPlanNode} {u : Unit}
    (h : replaceNodeDependenciesInTx node existingNodes db = (.ok u, db')) :
    Changes kinds db db' := by
  simp only [replaceNodeDependenciesInTx, Exec.bind_eq_ok, Exec.modify_eq_ok] at h
  obtain ⟨_, _, rfl, hinsert⟩ := h
  refine Changes.trans (.single hdependency (.dependency ?_))
    (changes_insertNodeDependencies hdependency hinsert)
  intro dependency hmem
  exact .inl (Table.mem_deleteWhere.1 hmem).1

/-- Changes of dependencies leave the goals. -/
theorem Changes.of_dependency (h : Changes [.dependency] db db') :
    db'.threadGoals = db.threadGoals := by
  apply h.invariant (J := fun mid => mid.threadGoals = db.threadGoals) _ rfl
  intro kind hkind a b hchange ha
  obtain rfl := List.mem_singleton.1 hkind
  cases hchange
  exact ha

theorem writeEditedNode_eq_ok {node : ThreadGoalPlanNode} {u : Unit} :
    writeEditedNode node nowMs db = (.ok u, db') ↔
      (∀ other ∈ db.nodes, other.nodeId ≠ node.nodeId → other.planId = node.planId →
        other.key ≠ node.key) ∧
      db.updateNodes (fun row => row.nodeId = node.nodeId) (fun row =>
        { row with
          key := node.key
          objective := node.objective
          title := node.title
          priority := node.priority
          tokenBudget := node.tokenBudget
          updatedAtMs := nowMs }) = db' := by
  simp only [writeEditedNode, Exec.bind_eq_ok, Exec.gets_eq_ok, Exec.ite_run]
  constructor
  · rintro ⟨clashes, _, ⟨rfl, rfl⟩, hrun⟩
    split at hrun
    · exact (Exec.fail_eq_ok.1 hrun).elim
    · next hclash =>
        refine ⟨?_, Exec.modify_eq_ok.1 hrun⟩
        intro other hother hid hplan hkey
        apply hclash
        rw [List.any_eq_true]
        exact ⟨other, hother, by simp [hid, hplan, hkey]⟩
  · rintro ⟨hkey, rfl⟩
    refine ⟨_, db, ⟨rfl, rfl⟩, ?_⟩
    rw [if_neg]
    · rfl
    · simp only [List.any_eq_true, Bool.and_eq_true, decide_eq_true_eq, not_exists, not_and]
      rintro other hother ⟨hid, hplan⟩ heq
      exact hkey other hother hid hplan heq

theorem ThreadGoalPlanNodeUpdateParams.edited_ids {params : ThreadGoalPlanNodeUpdateParams}
    {node edited : ThreadGoalPlanNode} (h : params.edited node = .ok edited) :
    edited.nodeId = node.nodeId ∧ edited.planId = node.planId ∧
      edited.assignedThreadId = node.assignedThreadId ∧
      edited.projectedGoalId = node.projectedGoalId ∧
      edited.tokenBudget = params.tokenBudget.apply node.tokenBudget := by
  unfold ThreadGoalPlanNodeUpdateParams.edited at h
  cases htitle : params.title.apply node.title with
  | error message =>
      rw [htitle] at h
      cases h
  | ok title =>
      rw [htitle] at h
      cases h
      exact ⟨rfl, rfl, rfl, rfl, rfl⟩

/-- What an edit of a node has checked, the database it writes the goal in, and the
changes around that. -/
structure EditsNode (params : ThreadGoalPlanNodeUpdateParams) (nowMs : Int) (db : Db)
    (node edited : ThreadGoalPlanNode) (mid : Db) : Prop where
  id : node.nodeId = Text.trim params.nodeId
  mem : node.toThreadGoalPlanNodeRow ∈ db.nodes
  edited : params.edited node = .ok edited
  goals : mid.threadGoals = db.threadGoals

theorem changes_updateThreadGoalPlanNode (hedit : .nodeEdit ∈ kinds)
    (hdependency : .dependency ∈ kinds) (hplan : .plan ∈ kinds)
    {params : ThreadGoalPlanNodeUpdateParams} {outcome : ThreadGoalPlanNodeMutationOutcome}
    (h : updateThreadGoalPlanNode params nowMs db = (.ok outcome, db')) :
    ∃ node edited mid, EditsNode params nowMs db node edited mid ∧ Changes kinds db mid ∧
      Changes kinds (mid.updateThreadGoals edited.isProjectedTo fun goal =>
        { goal with
          objective := edited.objective
          title := edited.title
          tokenBudget := edited.tokenBudget
          updatedAtMs := nowMs }) db' := by
  simp only [updateThreadGoalPlanNode, Exec.bind_eq_ok, requireNonEmptyId_eq_ok,
    planIdForNodeInTx_eq_ok, ownedPlanSnapshotInTx_eq_ok, ensure_eq_ok, snapshotNode_eq_ok,
    ofResult_eq_ok, writeEditedNode_eq_ok, Exec.onlyIf_eq_ok, Exec.pure_eq_ok,
    updateProjectedGoalMetadataInTx, updateProjectedGoal_eq_ok] at h
  obtain ⟨_, _, ⟨-, rfl, rfl⟩, planId, _, ⟨-, rfl⟩, snapshot, _, ⟨-, hnodes, -, rfl⟩, _, _,
    ⟨-, rfl⟩, node, _, ⟨hfind, rfl⟩, _, _, ⟨-, rfl⟩, _, _, ⟨-, rfl⟩, edited, _, ⟨hedited, rfl⟩, _,
    _, ⟨-, rfl⟩, _, written, ⟨hkey, hwritten⟩, _, mid, hreplace, _, _, ⟨-, rfl⟩, _, _, hrecalculate,
    _, _, hsnapshot, _, _, ⟨-, rfl⟩, -, rfl⟩ := h
  obtain rfl := snapshot_state hsnapshot
  obtain ⟨hid, hplanId, hassigned, hprojected, -⟩ := params.edited_ids hedited
  have hmem := List.mem_of_find?_eq_some hfind
  rw [hnodes] at hmem
  obtain ⟨hrow, -, -⟩ := mem_nodes_of_mem_snapshotNodes hmem
  have hwrite : Changes kinds db written := by
    rw [← hwritten]
    exact .single hedit (.nodeEdit ⟨_, hrow, hid.symm, hplanId.symm⟩ hkey)
  have hdependencies : Changes [.dependency] written mid := by
    rcases hreplace with ⟨-, hreplace⟩ | ⟨-, rfl⟩
    · exact changes_replaceNodeDependencies (by simp) hreplace
    · exact .refl _ _
  refine ⟨node, edited, mid, ⟨?_, hrow, hedited, ?_⟩, hwrite.trans (hdependencies.mono ?_),
    changes_recalculate hplan hrecalculate⟩
  · simpa using List.find?_some hfind
  · rw [hdependencies.of_dependency, ← hwritten]
    rfl
  · simpa using hdependency

/-! ## Inserting a node -/

/-- The new node has the parent and the depth of the node it is positioned
against, or is a root. -/
theorem insertionPoint_nests {snapshot : ThreadGoalPlanSnapshot}
    {position : ThreadGoalPlanNodeInsertPosition} {point : Int × Option Text × Int}
    (h : insertionPoint snapshot position db = (.ok point, db')) :
    db = db' ∧ ((point.2.1 = none ∧ point.2.2 = 1) ∨ ∃ reference ∈ snapshot.nodes,
      point.2.1 = reference.parentNodeId ∧ point.2.2 = reference.nestingDepth) := by
  cases position with
  | atEnd =>
      obtain ⟨rfl, hstate⟩ := Exec.pure_eq_ok.1 h
      exact ⟨hstate, .inl ⟨rfl, rfl⟩⟩
  | before referenceNodeId =>
      simp only [insertionPoint, referenceNode, Exec.bind_eq_ok, requireNonEmptyId_eq_ok,
        snapshotNode_eq_ok, Exec.pure_eq_ok] at h
      obtain ⟨reference, _, ⟨_, _, ⟨-, rfl, rfl⟩, hfind, rfl⟩, rfl, rfl⟩ := h
      exact ⟨rfl, .inr ⟨reference, List.mem_of_find?_eq_some hfind, rfl, rfl⟩⟩
  | after referenceNodeId =>
      simp only [insertionPoint, referenceNode, Exec.bind_eq_ok, requireNonEmptyId_eq_ok,
        snapshotNode_eq_ok, Exec.pure_eq_ok] at h
      obtain ⟨reference, _, ⟨_, _, ⟨-, rfl, rfl⟩, hfind, rfl⟩, rfl, rfl⟩ := h
      exact ⟨rfl, .inr ⟨reference, List.mem_of_find?_eq_some hfind, rfl, rfl⟩⟩

/-- The node that is inserted into the plan of a snapshot. -/
def insertedPlanNode (params : ThreadGoalPlanNodeInsertParams) (snapshot : ThreadGoalPlanSnapshot)
    (point : Int × Option Text × Int) (title : Option Text) (newNodeId : Text) (nowMs : Int) :
    ThreadGoalPlanNode where
  nodeId := newNodeId
  planId := Text.trim params.planId
  threadId := snapshot.plan.threadId
  assignedThreadId := params.threadId
  parentNodeId := point.2.1
  nestingDepth := point.2.2
  key := Text.trim params.key
  sequence := point.1
  priority := params.priority
  objective := Text.trim params.objective
  title := title
  status := .pending
  tokenBudget := params.tokenBudget
  createdAtMs := nowMs
  updatedAtMs := nowMs
  dependsOn := normalizeDependencyKeys params.dependsOn

/-- The database with room for a node at the sequence number. -/
def Db.shifted (planId : Text) (insertSequence : Int) (nowMs : Int) (db : Db) : Db :=
  db.updateNodes (fun node => node.planId = planId && insertSequence ≤ node.sequence) fun node =>
    { node with sequence := node.sequence + 1, updatedAtMs := nowMs }

theorem insertThreadGoalPlanNode_eq_ok {params : ThreadGoalPlanNodeInsertParams} {newNodeId : Text}
    {outcome : ThreadGoalPlanNodeInsertOutcome}
    (h : insertThreadGoalPlanNode params newNodeId nowMs db = (.ok outcome, db')) :
    ∃ (snapshot : ThreadGoalPlanSnapshot) (point : Int × Option Text × Int) (title : Option Text)
        (mid mid' : Db) (status : ThreadGoalPlanStatus),
      (db.plans.find? fun plan => plan.planId = Text.trim params.planId) = some snapshot.plan ∧
      snapshot.nodes = db.snapshotNodes (Text.trim params.planId) ∧
      insertionPoint snapshot params.position db = (.ok point, db) ∧
      validatePlanCreateParams
        { threadId := snapshot.plan.threadId
          autoExecute := snapshot.plan.autoExecute
          maxTokens := snapshot.plan.maxTokens
          nodes := snapshot.nodes.map (fun node => node.asCreateParams node.dependsOn) ++
            [(insertedPlanNode params snapshot point title newNodeId nowMs).asCreateParams
              (normalizeDependencyKeys params.dependsOn)] } = .ok () ∧
      insertNode (insertedPlanNode params snapshot point title newNodeId
        nowMs).toThreadGoalPlanNodeRow (db.shifted (Text.trim params.planId) point.1 nowMs) =
          (.ok (), mid) ∧
      replaceNodeDependenciesInTx (insertedPlanNode params snapshot point title newNodeId nowMs)
        snapshot.nodes mid = (.ok (), mid') ∧
      recalculateGoalPlanStatusInTx (Text.trim params.planId) nowMs mid' = (.ok status, db') := by
  simp only [insertThreadGoalPlanNode, Exec.bind_eq_ok, requireNonEmptyId_eq_ok,
    ownedPlanSnapshotInTx_eq_ok, ensure_eq_ok, ofResult_eq_ok, Exec.modify_eq_ok,
    snapshotNode_eq_ok, Exec.pure_eq_ok] at h
  obtain ⟨_, _, ⟨-, rfl, rfl⟩, snapshot, _, ⟨hplan, hnodes, -, rfl⟩, _, _, ⟨-, rfl⟩, _, _, ⟨-, rfl⟩,
    point, _, hpoint, title, _, ⟨-, rfl⟩, _, _, ⟨hvalid, rfl⟩, _, shifted, hshifted, _, mid, hrow,
    _, mid', hdependencies, status, _, hrecalculate, _, _, hsnapshot, _, _, ⟨-, rfl⟩, -, rfl⟩ := h
  obtain ⟨rfl, -⟩ := insertionPoint_nests hpoint
  obtain rfl := snapshot_state hsnapshot
  rw [← hshifted] at hrow
  exact ⟨snapshot, point, title, mid, mid', status, hplan, hnodes, hpoint, hvalid, hrow,
    hdependencies, hrecalculate⟩

theorem changes_insertThreadGoalPlanNode (hshift : .nodeShift ∈ kinds)
    (hinsert : .nodeInsert ∈ kinds) (hdependency : .dependency ∈ kinds) (hplan : .plan ∈ kinds)
    {params : ThreadGoalPlanNodeInsertParams} {newNodeId : Text}
    {outcome : ThreadGoalPlanNodeInsertOutcome}
    (h : insertThreadGoalPlanNode params newNodeId nowMs db = (.ok outcome, db')) :
    Changes kinds db db' := by
  obtain ⟨snapshot, point, title, mid, mid', status, -, hnodes, hpoint, -, hrow, hdependencies,
    hrecalculate⟩ := insertThreadGoalPlanNode_eq_ok h
  obtain ⟨-, hnests⟩ := insertionPoint_nests hpoint
  have hmoved : Changes kinds db (db.shifted (Text.trim params.planId) point.1 nowMs) :=
    .single hshift (.nodeShift db _ nowMs)
  have hinserted : Changes kinds (db.shifted (Text.trim params.planId) point.1 nowMs) mid := by
    refine .insertNode hinsert rfl rfl rfl ?_ hrow
    rcases hnests with hroot | ⟨reference, hreference, hparent, hdepth⟩
    · exact .inl hroot
    · rw [hnodes] at hreference
      obtain ⟨hmem, hplanId, -⟩ := mem_nodes_of_mem_snapshotNodes hreference
      -- The reference row may have been shifted, but not re-parented.
      refine .inr ⟨_, List.mem_map.2 ⟨_, hmem, rfl⟩, ?_⟩
      refine ⟨?_, ?_, ?_⟩
      · split <;> exact hplanId
      · split <;> exact hparent
      · split <;> exact hdepth
  exact ((hmoved.trans hinserted).trans
    (changes_replaceNodeDependencies hdependency hdependencies)).trans
      (changes_recalculate hplan hrecalculate)

/-! ## Marking a node by hand -/

theorem recordNodeComplete_eq_ok {node : ThreadGoalPlanNode} {goal : Option ThreadGoal} :
    recordNodeComplete node nowMs db = (.ok goal, db') ↔
      (db.threadGoals.find? node.isProjectedTo).map (fun goal =>
          { goal with status := .complete, updatedAtMs := nowMs }) = goal ∧
        ∃ status, recalculateGoalPlanStatusInTx node.planId nowMs
          (db.withNodeComplete node.toThreadGoalPlanNodeRow nowMs) = (.ok status, db') := by
  have husage : ∀ column : ThreadGoal → Int,
      (∀ goal, column { goal with status := .complete, updatedAtMs := nowMs } = column goal) →
      ((db.threadGoals.find? node.isProjectedTo).map (fun goal =>
        { goal with status := .complete, updatedAtMs := nowMs })).map column =
        (db.threadGoals.find? node.isProjectedTo).map column := by
    intro column hcolumn
    cases db.threadGoals.find? node.isProjectedTo with
    | none => rfl
    | some goal => exact congrArg some (hcolumn goal)
  have hstate : ∀ goal, (db.threadGoals.find? node.isProjectedTo).map (fun goal =>
        { goal with status := .complete, updatedAtMs := nowMs }) = goal →
      (db.updateThreadGoals node.isProjectedTo (fun goal =>
          { goal with status := .complete, updatedAtMs := nowMs })).updateNodes
        (fun row => row.nodeId = node.nodeId) (fun row =>
          { row with
            status := .complete
            tokensUsed := (goal.map (·.tokensUsed)).getD node.tokensUsed
            timeUsedSeconds := (goal.map (·.timeUsedSeconds)).getD node.timeUsedSeconds
            linesAdded := (goal.map (·.linesAdded)).getD node.linesAdded
            linesDeleted := (goal.map (·.linesDeleted)).getD node.linesDeleted
            updatedAtMs := nowMs }) =
        db.withNodeComplete node.toThreadGoalPlanNodeRow nowMs := by
    rintro _ rfl
    rw [husage (·.tokensUsed) (fun _ => rfl), husage (·.timeUsedSeconds) (fun _ => rfl),
      husage (·.linesAdded) (fun _ => rfl), husage (·.linesDeleted) (fun _ => rfl)]
    rfl
  simp only [recordNodeComplete, markProjectedGoalCompleteInTx, Exec.bind_eq_ok,
    updateProjectedGoal_eq_ok, Exec.modify_eq_ok, Exec.pure_eq_ok]
  constructor
  · rintro ⟨_, _, ⟨rfl, rfl⟩, _, _, hnode, status, _, hrecalculate, rfl, rfl⟩
    rw [hstate _ rfl] at hnode
    rw [← hnode] at hrecalculate
    exact ⟨rfl, status, hrecalculate⟩
  · rintro ⟨rfl, status, hrecalculate⟩
    exact ⟨_, _, ⟨rfl, rfl⟩, (), _, hstate _ rfl, status, db', hrecalculate, rfl, rfl⟩

theorem changes_recordNodeComplete (hcomplete : .nodeComplete ∈ kinds) (hplan : .plan ∈ kinds)
    {node : ThreadGoalPlanNode} (hnode : node.toThreadGoalPlanNodeRow ∈ db.nodes)
    {goal : Option ThreadGoal} (h : recordNodeComplete node nowMs db = (.ok goal, db')) :
    Changes kinds db db' := by
  obtain ⟨-, status, hrecalculate⟩ := recordNodeComplete_eq_ok.1 h
  exact (Changes.single hcomplete (.nodeComplete hnode nowMs)).trans
    (changes_recalculate hplan hrecalculate)

/-- A node that is not complete yet is recorded as complete, and a started one
passes on to the next. -/
theorem goesOn_markGoalPlanNodeComplete (hplan : .plan ∈ kinds)
    {params : ThreadGoalPlanNodeStatusUpdateParams} {snapshot : ThreadGoalPlanSnapshot}
    {node : ThreadGoalPlanNode} {goalId : Text} {outcome : ThreadGoalPlanNodeMutationOutcome}
    (h : markGoalPlanNodeCompleteInTx redactStateString params snapshot node goalId nowMs db =
      (.ok outcome, db')) :
    (node.status = .complete ∧ db' = db) ∨ node.status.phase = .unsettled ∧ ∃ goal mid,
      recordNodeComplete node nowMs db = (.ok goal, mid) ∧
      GoesOn kinds redactStateString params.threadId goalId nowMs
        (if node.status.isStarted then
          mid.nextReadyNodeId params.threadId node.planId params.autoExecute
        else none) mid db' := by
  simp only [markGoalPlanNodeCompleteInTx, Exec.ite_run] at h
  split at h
  · next hcomplete =>
      obtain ⟨-, rfl⟩ := Exec.pure_eq_ok.1 h
      exact .inl ⟨hcomplete, rfl⟩
  · next hcomplete =>
      simp only [Exec.bind_eq_ok, ensure_eq_ok] at h
      obtain ⟨_, _, ⟨hcancelled, rfl⟩, goal, mid, hrecord, activated, advanced, hadvance, _, _,
        hrecalculate, _, _, hsnapshot, _, _, hfound, hreturn⟩ := h
      obtain ⟨-, rfl⟩ := Exec.pure_eq_ok.1 hreturn
      obtain ⟨-, rfl⟩ := snapshotNode_eq_ok.1 hfound
      obtain rfl := snapshot_state hsnapshot
      have hphase : node.status.phase = .unsettled := by
        cases hstatus : node.status <;> simp_all [ThreadGoalPlanNodeStatus.phase]
      refine .inr ⟨hphase, goal, mid, hrecord, ?_⟩
      apply GoesOn.append _ (changes_recalculate hplan hrecalculate)
      simp only [advanceFromStartedNode, Exec.ite_run] at hadvance
      split at hadvance
      · next hstarted =>
          rw [if_pos hstarted]
          exact goesOn_activateNextReadyNodeInTx hadvance
      · obtain ⟨-, rfl⟩ := Exec.pure_eq_ok.1 hadvance
        exact .rest (.refl _ _)

theorem progress_markGoalPlanNodeComplete (hcomplete : .nodeComplete ∈ kinds)
    (hplan : .plan ∈ kinds)
    {params : ThreadGoalPlanNodeStatusUpdateParams} {snapshot : ThreadGoalPlanSnapshot}
    {node : ThreadGoalPlanNode} (hnode : node.toThreadGoalPlanNodeRow ∈ db.nodes) {goalId : Text}
    {outcome : ThreadGoalPlanNodeMutationOutcome}
    (h : markGoalPlanNodeCompleteInTx redactStateString params snapshot node goalId nowMs db =
      (.ok outcome, db')) : Progress kinds (some goalId) db db' := by
  rcases goesOn_markGoalPlanNodeComplete hplan h with ⟨-, rfl⟩ | ⟨-, goal, mid, hrecord, hgoesOn⟩
  · exact .of_changes (.refl _ _)
  · exact hgoesOn.progress.prepend (changes_recordNodeComplete hcomplete hplan hnode hrecord)

theorem mutationOutcome_eq_ok {node : ThreadGoalPlanNode} {clearedGoal : Bool}
    {outcome : ThreadGoalPlanNodeMutationOutcome}
    (h : mutationOutcome node clearedGoal nowMs db = (.ok outcome, db')) :
    ∃ status, recalculateGoalPlanStatusInTx node.planId nowMs db = (.ok status, db') := by
  simp only [mutationOutcome, Exec.bind_eq_ok, snapshotNode_eq_ok, Exec.pure_eq_ok] at h
  obtain ⟨status, _, hrecalculate, _, _, hsnapshot, _, _, ⟨-, rfl⟩, -, rfl⟩ := h
  obtain rfl := snapshot_state hsnapshot
  exact ⟨status, hrecalculate⟩

/-- The database with the node pending again. -/
def Db.requeued (node : ThreadGoalPlanNodeRow) (nowMs : Int) (db : Db) : Db :=
  db.updateNodes (fun row => row.nodeId = node.nodeId) fun row =>
    { row with status := .pending, updatedAtMs := nowMs }

/-- A deferred node is queued again, and a complete one is undone. -/
theorem markGoalPlanNodePending_cases {snapshot : ThreadGoalPlanSnapshot}
    {node : ThreadGoalPlanNode} {outcome : ThreadGoalPlanNodeMutationOutcome}
    (h : markGoalPlanNodePendingInTx snapshot node nowMs db = (.ok outcome, db')) :
    db' = db ∨
    (node.status = .deferred ∧ ∃ status, recalculateGoalPlanStatusInTx node.planId nowMs
      (db.requeued node.toThreadGoalPlanNodeRow nowMs) = (.ok status, db')) ∨
    (node.status = .complete ∧ ∃ status, recalculateGoalPlanStatusInTx node.planId nowMs
      (db.withNodeUndone node.toThreadGoalPlanNodeRow nowMs) = (.ok status, db')) := by
  cases hstatus : node.status with
  | pending =>
      simp only [markGoalPlanNodePendingInTx, hstatus] at h
      exact .inl (Exec.pure_eq_ok.1 h).2.symm
  | deferred =>
      simp only [markGoalPlanNodePendingInTx, hstatus, Exec.bind_eq_ok, Exec.modify_eq_ok] at h
      obtain ⟨_, _, rfl, h⟩ := h
      exact .inr (.inl ⟨rfl, mutationOutcome_eq_ok h⟩)
  | complete =>
      simp only [markGoalPlanNodePendingInTx, hstatus, Exec.bind_eq_ok, Exec.gets_eq_ok,
        Exec.modify_eq_ok] at h
      obtain ⟨_, _, ⟨-, rfl⟩, _, _, rfl, _, _, rfl, h⟩ := h
      exact .inr (.inr ⟨rfl, mutationOutcome_eq_ok h⟩)
  | _ =>
      simp only [markGoalPlanNodePendingInTx, hstatus] at h
      exact (bail_eq_ok.1 h).elim

theorem changes_markGoalPlanNodePending (hstatus : .nodeStatus ∈ kinds) (hplan : .plan ∈ kinds)
    {snapshot : ThreadGoalPlanSnapshot} {node : ThreadGoalPlanNode}
    (hundo : node.status = .complete → .nodeUndo ∈ kinds)
    (hnode : node.toThreadGoalPlanNodeRow ∈ db.nodes)
    {outcome : ThreadGoalPlanNodeMutationOutcome}
    (h : markGoalPlanNodePendingInTx snapshot node nowMs db = (.ok outcome, db')) :
    Changes kinds db db' := by
  rcases markGoalPlanNodePending_cases h with
    rfl | ⟨hdeferred, _, hrecalculate⟩ | ⟨hcomplete, _, hrecalculate⟩
  · exact .refl _ _
  · exact Changes.trans (.single hstatus (.nodeRequeue hnode hdeferred nowMs))
      (changes_recalculate hplan hrecalculate)
  · exact Changes.trans (.single (hundo hcomplete) (.nodeUndo hnode hcomplete nowMs))
      (changes_recalculate hplan hrecalculate)

/-- What `set_thread_goal_plan_node_status` has checked, and the node it then marks. -/
theorem setThreadGoalPlanNodeStatus_eq_ok {params : ThreadGoalPlanNodeStatusUpdateParams}
    {goalId : Text} {outcome : ThreadGoalPlanNodeMutationOutcome}
    (h : setThreadGoalPlanNodeStatus redactStateString params goalId nowMs db =
      (.ok outcome, db')) :
    ∃ snapshot node, node.toThreadGoalPlanNodeRow ∈ db.nodes ∧
      node.nodeId = Text.trim params.nodeId ∧ snapshot.plan ∈ db.plans ∧
      snapshot.plan.planId = node.planId ∧ snapshot.plan.status ≠ .cancelled ∧
      ((params.status = .complete ∧
        markGoalPlanNodeCompleteInTx redactStateString params snapshot node goalId nowMs db =
          (.ok outcome, db')) ∨
      (params.status = .pending ∧
        markGoalPlanNodePendingInTx snapshot node nowMs db = (.ok outcome, db'))) := by
  simp only [setThreadGoalPlanNodeStatus, Exec.bind_eq_ok, requireNonEmptyId_eq_ok,
    planIdForNodeInTx_eq_ok, ownedPlanSnapshotInTx_eq_ok, ensure_eq_ok, snapshotNode_eq_ok] at h
  obtain ⟨_, _, ⟨-, rfl, rfl⟩, planId, _, ⟨-, rfl⟩, snapshot, _, ⟨hplan, hnodes, -, rfl⟩, _, _,
    ⟨hstatus, rfl⟩, node, _, ⟨hfind, rfl⟩, h⟩ := h
  have hmem := List.mem_of_find?_eq_some hfind
  have hid : node.nodeId = Text.trim params.nodeId := by simpa using List.find?_some hfind
  rw [hnodes] at hmem
  obtain ⟨hrow, hnodePlan, -⟩ := mem_nodes_of_mem_snapshotNodes hmem
  have hplanId : snapshot.plan.planId = planId := by simpa using List.find?_some hplan
  refine ⟨snapshot, node, hrow, hid, List.mem_of_find?_eq_some hplan, hplanId.trans hnodePlan.symm,
    hstatus, ?_⟩
  cases hrequest : params.status with
  | complete =>
      rw [hrequest] at h
      exact .inl ⟨rfl, h⟩
  | pending =>
      rw [hrequest] at h
      exact .inr ⟨rfl, h⟩

theorem progress_setThreadGoalPlanNodeStatus (hcomplete : .nodeComplete ∈ kinds)
    (hstatus : .nodeStatus ∈ kinds) (hundo : .nodeUndo ∈ kinds) (hplan : .plan ∈ kinds)
    {params : ThreadGoalPlanNodeStatusUpdateParams} {goalId : Text}
    {outcome : ThreadGoalPlanNodeMutationOutcome}
    (h : setThreadGoalPlanNodeStatus redactStateString params goalId nowMs db =
      (.ok outcome, db')) : Progress kinds (some goalId) db db' := by
  obtain ⟨snapshot, node, hrow, -, -, -, -, ⟨-, hmark⟩ | ⟨-, hmark⟩⟩ :=
    setThreadGoalPlanNodeStatus_eq_ok h
  · exact progress_markGoalPlanNodeComplete hcomplete hplan hrow hmark
  · exact .of_changes (changes_markGoalPlanNodePending hstatus hplan (fun _ => hundo) hrow hmark)

end Codewith.GoalStore
