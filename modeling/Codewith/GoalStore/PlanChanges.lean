import Codewith.Lib.Result
import Codewith.GoalStore.GoalChanges

/-!
# The changes that create plans

The operations of `goal_plans.rs` that create and extend plans, as sequences of
changes, and what an activation adds to them.
-/

namespace Codewith.GoalStore

open Lib

variable {kinds : List Kind} {redactStateString : Text → Text} {db db' : Db} {threadId : ThreadId}
  {planId : Text} {nowMs : Int}

/-! ## Rows of new plans -/

theorem Changes.insertNode (hinsert : .nodeInsert ∈ kinds) {node : ThreadGoalPlanNodeRow} {u : Unit}
    (hstatus : node.status = .pending) (htokens : node.tokensUsed = 0)
    (hprojected : node.projectedGoalId = none) (hnests : db.Nests node)
    (h : GoalStore.insertNode node db = (.ok u, db')) : Changes kinds db db' := by
  obtain ⟨hid, hkey, hplan, rfl⟩ := insertNode_eq_ok.1 h
  exact .single hinsert (.nodeInsert ⟨hid, hkey, hplan⟩ hstatus htokens hprojected hnests)

theorem Changes.insertPlan (hinsert : .planInsert ∈ kinds) {plan : ThreadGoalPlan} {u : Unit}
    (h : GoalStore.insertPlan plan db = (.ok u, db')) : Changes kinds db db' := by
  obtain ⟨hfresh, rfl⟩ := insertPlan_eq_ok.1 h
  exact .single hinsert (.planInsert hfresh)

theorem Changes.insertDependency (hdependency : .dependency ∈ kinds)
    {dependency : ThreadGoalPlanDependency} {u : Unit}
    (h : GoalStore.insertDependency dependency db = (.ok u, db')) : Changes kinds db db' := by
  obtain ⟨-, hnode, hdependsOn, rfl⟩ := insertDependency_eq_ok.1 h
  refine .single hdependency (.dependency ?_)
  intro other hother
  rcases List.mem_append.1 hother with hold | hnew
  · exact .inl hold
  · rw [List.mem_singleton.1 hnew]
    exact .inr ⟨hnode, hdependsOn⟩

theorem changes_insertPlanNodes (hinsert : .nodeInsert ∈ kinds) {nextSequence : Int}
    {nodeId : Nat → Text} {nodes : List ThreadGoalPlanNodeCreateParams}
    {nodeIdsByKey : List (Text × Text)}
    (h : insertPlanNodes redactStateString threadId planId nextSequence nodeId nowMs nodes db =
      (.ok nodeIdsByKey, db')) : Changes kinds db db' := by
  simp only [insertPlanNodes, Exec.bind_eq_ok, Exec.pure_eq_ok] at h
  obtain ⟨_, _, hloop, -, rfl⟩ := h
  refine Exec.forEach_rel (.refl _) (fun _ _ _ => .trans) ?_ hloop
  rintro ⟨node, index⟩ - mid mid' hrun
  simp only [Exec.bind_eq_ok, ofResult_eq_ok] at hrun
  obtain ⟨title, _, ⟨-, rfl⟩, hrun⟩ := hrun
  exact .insertNode hinsert rfl rfl rfl (.inl ⟨rfl, rfl⟩) hrun

theorem changes_insertNodeDependencies (hdependency : .dependency ∈ kinds)
    {nodeIdsByKey : List (Text × Text)} {key nodeId : Text} {dependsOn : List Text} {u : Unit}
    (h : insertNodeDependencies nodeIdsByKey key nodeId dependsOn db = (.ok u, db')) :
    Changes kinds db db' := by
  refine Exec.forEach_rel (.refl _) (fun _ _ _ => .trans) ?_ h
  intro dependencyKey _ mid mid' hrun
  cases hlookup : lookupLast nodeIdsByKey dependencyKey with
  | none =>
      rw [hlookup] at hrun
      exact (bail_eq_ok.1 hrun).elim
  | some dependencyId =>
      rw [hlookup] at hrun
      exact .insertDependency hdependency hrun

theorem changes_insertPlanDependencies (hdependency : .dependency ∈ kinds) {missing : Text}
    {nodeIdsByKey : List (Text × Text)} {nodes : List ThreadGoalPlanNodeCreateParams} {u : Unit}
    (h : insertPlanDependencies missing nodeIdsByKey nodes db = (.ok u, db')) :
    Changes kinds db db' := by
  refine Exec.forEach_rel (.refl _) (fun _ _ _ => .trans) ?_ h
  intro node _ mid mid' hrun
  cases hlookup : lookupLast nodeIdsByKey node.key with
  | none =>
      rw [hlookup] at hrun
      exact (bail_eq_ok.1 hrun).elim
  | some nodeId =>
      rw [hlookup] at hrun
      exact changes_insertNodeDependencies hdependency hrun

theorem changes_insertPlanRows (hplan : .planInsert ∈ kinds) (hinsert : .nodeInsert ∈ kinds)
    (hdependency : .dependency ∈ kinds) {params : ThreadGoalPlanCreateParams} {ids : NewIds}
    {u : Unit} (h : insertPlanRows redactStateString params ids nowMs db = (.ok u, db')) :
    Changes kinds db db' := by
  simp only [insertPlanRows, Exec.bind_eq_ok, ofResult_eq_ok] at h
  obtain ⟨_, _, ⟨-, rfl⟩, _, _, hrow, _, _, hnodes, hdependencies⟩ := h
  exact ((Changes.insertPlan hplan hrow).trans (changes_insertPlanNodes hinsert hnodes)).trans
    (changes_insertPlanDependencies hdependency hdependencies)

/-! ## Activation -/

theorem put_activateNodeInTx {nodeId goalId : Text} {goal : ThreadGoal}
    (h : activateNodeInTx redactStateString threadId nodeId goalId nowMs db = (.ok goal, db')) :
    Put goalId db db' := by
  obtain ⟨plan, node, hcan, rfl, rfl⟩ := activateNodeInTx_eq_ok.1 h
  exact .node redactStateString nowMs hcan

/-- From `stage` on, an operation activates the node it picks, if it picks one, and
changes of the given kinds follow. -/
def GoesOn (kinds : List Kind) (redactStateString : Text → Text) (threadId : ThreadId)
    (goalId : Text) (nowMs : Int) (pick : Option Text) (stage db' : Db) : Prop :=
  ∃ after, (stage = after ∨ ∃ nodeId goal, pick = some nodeId ∧
    activateNodeInTx redactStateString threadId nodeId goalId nowMs stage = (.ok goal, after)) ∧
      Changes kinds after db'

theorem GoesOn.progress {goalId : Text} {pick : Option Text}
    (h : GoesOn kinds redactStateString threadId goalId nowMs pick db db') :
    Progress kinds (some goalId) db db' := by
  obtain ⟨after, rfl | ⟨nodeId, goal, -, hactivate⟩, hrest⟩ := h
  · exact .of_changes hrest
  · exact (Progress.of_put (put_activateNodeInTx hactivate)).append hrest

theorem GoesOn.append {db₁ : Db} {goalId : Text} {pick : Option Text}
    (h : GoesOn kinds redactStateString threadId goalId nowMs pick db db₁)
    (h' : Changes kinds db₁ db') :
    GoesOn kinds redactStateString threadId goalId nowMs pick db db' := by
  obtain ⟨after, hactivate, hrest⟩ := h
  exact ⟨after, hactivate, hrest.trans h'⟩

theorem GoesOn.rest {goalId : Text} {pick : Option Text} (h : Changes kinds db db') :
    GoesOn kinds redactStateString threadId goalId nowMs pick db db' :=
  ⟨db, .inl rfl, h⟩

/-- The node that is activated next in the plan. -/
def Db.nextReadyNodeId (db : Db) (threadId : ThreadId) (planId : Text)
    (autoExecute : ThreadGoalPlanAutoExecute) : Option Text :=
  (db.nextReadyNode threadId planId autoExecute).map (·.nodeId)

theorem goesOn_activateNextReadyNodeInTx {autoExecute : ThreadGoalPlanAutoExecute} {goalId : Text}
    {activated : Option ThreadGoal}
    (h : activateNextReadyNodeInTx redactStateString threadId planId autoExecute goalId nowMs db =
      (.ok activated, db')) :
    GoesOn kinds redactStateString threadId goalId nowMs
      (db.nextReadyNodeId threadId planId autoExecute) db db' := by
  rcases activateNextReadyNodeInTx_eq_ok.1 h with ⟨-, -, rfl⟩ | ⟨next, hnext, goal, -, hactivate⟩
  · exact .rest (.refl _ _)
  · refine ⟨db', .inr ⟨next.nodeId, goal, ?_, hactivate⟩, .refl _ _⟩
    rw [Db.nextReadyNodeId, hnext]
    rfl

theorem goesOn_activateSelected {select : Db → Option (Text × Text)} {goalId : Text}
    {outcome : Option ThreadGoalPlanAdvanceOutcome}
    (h : activateSelected redactStateString threadId select goalId nowMs db = (.ok outcome, db')) :
    GoesOn kinds redactStateString threadId goalId nowMs ((select db).map (·.2)) db db' := by
  simp only [activateSelected, Exec.bind_eq_ok, Exec.gets_eq_ok] at h
  obtain ⟨selected, _, ⟨hselected, rfl⟩, h⟩ := h
  cases selected with
  | none =>
      obtain ⟨-, rfl⟩ := Exec.pure_eq_ok.1 h
      exact .rest (.refl _ _)
  | some pair =>
      simp only [Exec.bind_eq_ok, Exec.pure_eq_ok] at h
      obtain ⟨goal, _, hactivate, snapshot, _, hsnapshot, -, rfl⟩ := h
      obtain rfl := snapshot_state hsnapshot
      rw [hselected]
      exact ⟨_, .inr ⟨pair.2, goal, rfl, hactivate⟩, .refl _ _⟩

/-! ## Creating and extending plans -/

theorem goesOn_insertThreadGoalPlanInTx {params : ThreadGoalPlanCreateParams} {ids : NewIds}
    {outcome : ThreadGoalPlanAdvanceOutcome}
    (h : insertThreadGoalPlanInTx redactStateString params ids nowMs db = (.ok outcome, db')) :
    ∃ stage, insertPlanRows redactStateString params ids nowMs db = (.ok (), stage) ∧
      GoesOn kinds redactStateString params.threadId ids.goalId nowMs
        (stage.nextReadyNodeId params.threadId ids.planId params.autoExecute) stage db' := by
  simp only [insertThreadGoalPlanInTx, Exec.bind_eq_ok, Exec.pure_eq_ok] at h
  obtain ⟨_, stage, hrows, _, _, hactivate, _, _, hsnapshot, -, rfl⟩ := h
  obtain rfl := snapshot_state hsnapshot
  exact ⟨stage, hrows, goesOn_activateNextReadyNodeInTx hactivate⟩

theorem progress_insertThreadGoalPlanInTx (hplan : .planInsert ∈ kinds)
    (hinsert : .nodeInsert ∈ kinds) (hdependency : .dependency ∈ kinds)
    {params : ThreadGoalPlanCreateParams} {ids : NewIds} {outcome : ThreadGoalPlanAdvanceOutcome}
    (h : insertThreadGoalPlanInTx redactStateString params ids nowMs db = (.ok outcome, db')) :
    Progress kinds (some ids.goalId) db db' := by
  obtain ⟨stage, hrows, hgoesOn⟩ := goesOn_insertThreadGoalPlanInTx h
  exact hgoesOn.progress.prepend (changes_insertPlanRows hplan hinsert hdependency hrows)

theorem createThreadGoalPlan_eq_ok {params : ThreadGoalPlanCreateParams} {ids : NewIds}
    {outcome : ThreadGoalPlanAdvanceOutcome} :
    createThreadGoalPlan redactStateString params ids nowMs db = (.ok outcome, db') ↔
      validatePlanCreateParams params = .ok () ∧
        insertThreadGoalPlanInTx redactStateString params ids nowMs db = (.ok outcome, db') := by
  simp only [createThreadGoalPlan, Exec.bind_eq_ok, ofResult_eq_ok]
  constructor
  · rintro ⟨_, _, ⟨hvalid, rfl⟩, h⟩
    exact ⟨hvalid, h⟩
  · rintro ⟨hvalid, h⟩
    exact ⟨(), db, ⟨hvalid, rfl⟩, h⟩

theorem changes_touchPlan (hplan : .plan ∈ kinds) {u : Unit}
    (h : touchPlan planId nowMs db = (.ok u, db')) : Changes kinds db db' := by
  obtain rfl := Exec.modify_eq_ok.1 h
  refine .single hplan (.plan ?_ ?_)
  · intro plan
    exact ⟨rfl, rfl, rfl⟩
  · intro plan _ _
    rfl

/-- A node of a plan as it is validated together with appended ones. -/
def ThreadGoalPlanNode.asExistingParams (node : ThreadGoalPlanNode) :
    ThreadGoalPlanNodeCreateParams where
  key := node.key
  objective := node.objective
  assignedThreadId := none
  title := none
  priority := node.priority
  tokenBudget := node.tokenBudget
  dependsOn := node.dependsOn

/-- What appending to a plan has checked, and the rows it then inserts. -/
theorem appendThreadGoalPlanNodes_eq_ok {params : ThreadGoalPlanAppendParams} {ids : NewIds}
    {outcome : ThreadGoalPlanSnapshot}
    (h : appendThreadGoalPlanNodes redactStateString params ids nowMs db = (.ok outcome, db')) :
    ∃ (snapshot : ThreadGoalPlanSnapshot) (inserted : List (Text × Text)) (mid mid' : Db),
      params.nodes ≠ [] ∧
      (db.plans.find? fun plan => plan.planId = params.planId) = some snapshot.plan ∧
      snapshot.nodes = db.snapshotNodes params.planId ∧ snapshot.plan.status = .active ∧
      validatePlanCreateParams
        { threadId := params.threadId
          autoExecute := snapshot.plan.autoExecute
          maxTokens := snapshot.plan.maxTokens
          nodes := snapshot.nodes.map (·.asExistingParams) ++ params.nodes } = .ok () ∧
      insertPlanNodes redactStateString params.threadId params.planId
        (nextSequence snapshot.nodes) ids.nodeId nowMs params.nodes db = (.ok inserted, mid) ∧
      insertPlanDependencies "missing appended goal node key ".toList
        (snapshot.nodes.map (fun node => (node.key, node.nodeId)) ++ inserted) params.nodes mid =
          (.ok (), mid') ∧
      touchPlan params.planId nowMs mid' = (.ok (), db') := by
  simp only [appendThreadGoalPlanNodes, appendThreadGoalPlanNodesInTx, Exec.bind_eq_ok,
    ofResult_eq_ok, ensure_eq_ok] at h
  obtain ⟨_, _, ⟨hparams, rfl⟩, snapshot, _, hexisting, _, _, ⟨-, rfl⟩, _, _, ⟨hactive, rfl⟩, _, _,
    ⟨-, rfl⟩, _, _, ⟨hvalid, rfl⟩, inserted, mid, hnodes, _, mid', hdependencies, _, _, htouch,
    hsnapshot⟩ := h
  obtain ⟨hplan, hrows, rfl⟩ := snapshotThreadGoalPlanInTx_eq_ok.1 hexisting
  obtain rfl := snapshot_state hsnapshot
  obtain ⟨-, hparams⟩ := Result.unless_eq_ok.1 hparams
  obtain ⟨hnonempty, -⟩ := Result.unless_eq_ok.1 hparams
  exact ⟨snapshot, inserted, mid, mid', hnonempty, hplan, hrows, hactive, hvalid, hnodes,
    hdependencies, htouch⟩

theorem changes_appendThreadGoalPlanNodes (hplan : .plan ∈ kinds) (hinsert : .nodeInsert ∈ kinds)
    (hdependency : .dependency ∈ kinds) {params : ThreadGoalPlanAppendParams} {ids : NewIds}
    {snapshot : ThreadGoalPlanSnapshot}
    (h : appendThreadGoalPlanNodes redactStateString params ids nowMs db = (.ok snapshot, db')) :
    Changes kinds db db' := by
  obtain ⟨_, _, _, _, -, -, -, -, -, hnodes, hdependencies, htouch⟩ :=
    appendThreadGoalPlanNodes_eq_ok h
  exact ((changes_insertPlanNodes hinsert hnodes).trans
    (changes_insertPlanDependencies hdependency hdependencies)).trans
      (changes_touchPlan hplan htouch)

/-- The row of a goal that is appended to a plan. -/
def appendedNode (redactStateString : Text → Text) (planId : Text)
    (params : ThreadGoalPlanAddParams) (snapshot : ThreadGoalPlanSnapshot) (title : Option Text)
    (nodeId : Text) (nowMs : Int) : ThreadGoalPlanNodeRow where
  nodeId := nodeId
  planId := planId
  threadId := snapshot.plan.threadId
  assignedThreadId := params.threadId
  key := nextGoalPlanNodeKey (snapshot.nodes.map (·.key))
  sequence := nextSequence snapshot.nodes
  priority := 0
  objective := redactStateString params.objective
  title := title
  status := .pending
  tokenBudget := params.tokenBudget
  createdAtMs := nowMs
  updatedAtMs := nowMs

/-- The dependency of an appended node on the node with the key. -/
def insertAppendedDependency (snapshot : ThreadGoalPlanSnapshot) (nodeId dependencyKey : Text) :
    Tx Unit :=
  match snapshot.nodes.find? fun node => node.key = dependencyKey with
  | some node => insertDependency ⟨nodeId, node.nodeId⟩
  | none => bail ("missing dependency node ".toList ++ quoted dependencyKey)

theorem appendGoalPlanNodeInTx_eq_ok {params : ThreadGoalPlanAddParams} {nodeId : Text}
    {outcome : ThreadGoalPlanSnapshot × ThreadGoalPlanNode}
    (h : appendGoalPlanNodeInTx redactStateString planId params nodeId nowMs db =
      (.ok outcome, db')) :
    ∃ (snapshot : ThreadGoalPlanSnapshot) (title : Option Text) (mid mid' : Db)
        (status : ThreadGoalPlanStatus),
      (db.plans.find? fun plan => plan.planId = planId) = some snapshot.plan ∧
      snapshot.nodes = db.snapshotNodes planId ∧ snapshot.nodes.length < maxGoalPlanNodes ∧
      insertNode (appendedNode redactStateString planId params snapshot title nodeId nowMs) db =
        (.ok (), mid) ∧
      Exec.forEach (insertAppendedDependency snapshot nodeId) (appendDependencyKeys snapshot.nodes)
        mid = (.ok (), mid') ∧
      recalculateGoalPlanStatusInTx planId nowMs mid' = (.ok status, db') := by
  simp only [appendGoalPlanNodeInTx, Exec.bind_eq_ok, ofResult_eq_ok, ensure_eq_ok] at h
  obtain ⟨snapshot, _, hexisting, _, _, ⟨hroom, rfl⟩, title, _, ⟨-, rfl⟩, _, mid, hrow, _, mid',
    hloop, status, _, hrecalculate, last, lastDb, hlast, h⟩ := h
  obtain ⟨hplan, hrows, rfl⟩ := snapshotThreadGoalPlanInTx_eq_ok.1 hexisting
  obtain rfl := snapshot_state hlast
  have hstate : lastDb = db' := by
    rcases hfind : last.nodes.find? (fun node => node.nodeId = nodeId) with _ | node
    · rw [hfind] at h
      exact (bail_eq_ok.1 h).elim
    · rw [hfind] at h
      exact (Exec.pure_eq_ok.1 h).2
  rw [← hstate]
  exact ⟨snapshot, title, mid, mid', status, hplan, hrows, hroom, hrow, hloop, hrecalculate⟩

theorem changes_insertAppendedDependencies (hdependency : .dependency ∈ kinds)
    {snapshot : ThreadGoalPlanSnapshot} {nodeId : Text} {keys : List Text} {u : Unit}
    (h : Exec.forEach (insertAppendedDependency snapshot nodeId) keys db = (.ok u, db')) :
    Changes kinds db db' := by
  refine Exec.forEach_rel (.refl _) (fun _ _ _ => .trans) ?_ h
  intro dependencyKey _ mid mid' hrun
  rw [insertAppendedDependency] at hrun
  rcases hfind : snapshot.nodes.find? (fun node => node.key = dependencyKey) with _ | node
  · rw [hfind] at hrun
    exact (bail_eq_ok.1 hrun).elim
  · rw [hfind] at hrun
    exact .insertDependency hdependency hrun

theorem changes_appendGoalPlanNodeInTx (hplan : .plan ∈ kinds) (hinsert : .nodeInsert ∈ kinds)
    (hdependency : .dependency ∈ kinds) {params : ThreadGoalPlanAddParams} {nodeId : Text}
    {outcome : ThreadGoalPlanSnapshot × ThreadGoalPlanNode}
    (h : appendGoalPlanNodeInTx redactStateString planId params nodeId nowMs db =
      (.ok outcome, db')) : Changes kinds db db' := by
  obtain ⟨snapshot, title, mid, mid', status, -, -, -, hrow, hloop, hrecalculate⟩ :=
    appendGoalPlanNodeInTx_eq_ok h
  exact ((Changes.insertNode hinsert rfl rfl rfl (.inl ⟨rfl, rfl⟩) hrow).trans
    (changes_insertAppendedDependencies hdependency hloop)).trans
      (changes_recalculate hplan hrecalculate)

/-- The node that a converted goal becomes. -/
def convertedNode (redactStateString : Text → Text) (threadId : ThreadId) (goal : ThreadGoal)
    (ids : NewIds) : ThreadGoalPlanNodeRow where
  nodeId := ids.nodeId 0
  planId := ids.planId
  threadId := threadId
  assignedThreadId := threadId
  key := "current".toList
  sequence := 0
  priority := 0
  objective := redactStateString goal.objective
  title := goal.title.map redactStateString
  status := goal.status.toNodeStatus
  tokenBudget := goal.tokenBudget
  tokensUsed := goal.tokensUsed
  timeUsedSeconds := goal.timeUsedSeconds
  linesAdded := goal.linesAdded
  linesDeleted := goal.linesDeleted
  projectedGoalId := some goal.goalId
  createdAtMs := goal.createdAtMs
  updatedAtMs := goal.updatedAtMs

/-- The database with the goal as the first node of a new plan. -/
def Db.withGoalConverted (redactStateString : Text → Text) (params : ThreadGoalPlanAddParams)
    (goal : ThreadGoal) (ids : NewIds) (nowMs : Int) (db : Db) : Db :=
  { db with
    plans := db.plans ++ [unlimitedPlan params ids.planId nowMs]
    nodes := db.nodes ++ [convertedNode redactStateString params.threadId goal ids] }

/-- Converting the current goal is one change of the database the operation found. -/
theorem createGoalPlanFromGoalInTx_eq_ok {params : ThreadGoalPlanAddParams} {goal : ThreadGoal}
    {ids : NewIds} {outcome : ThreadGoalPlanSnapshot × ThreadGoalPlanNode}
    (hgoal : db.threadGoal? params.threadId = some goal)
    (h : createGoalPlanFromGoalInTx redactStateString params goal ids nowMs db =
      (.ok outcome, db')) :
    Change .nodeConvert db (db.withGoalConverted redactStateString params goal ids nowMs) ∧
      appendGoalPlanNodeInTx redactStateString ids.planId params (ids.nodeId 1) nowMs
        (db.withGoalConverted redactStateString params goal ids nowMs) = (.ok outcome, db') := by
  simp only [createGoalPlanFromGoalInTx, Exec.bind_eq_ok, insertPlan_eq_ok, insertNode_eq_ok] at h
  obtain ⟨_, _, ⟨hfresh, rfl⟩, _, _, ⟨hid, hkey, hplan', rfl⟩, happend⟩ := h
  refine ⟨?_, happend⟩
  exact .nodeConvert hfresh ⟨hid, hkey, hplan'⟩ rfl hgoal rfl rfl rfl ⟨rfl, rfl⟩

/-- The node that an added goal becomes. -/
def addedNode (redactStateString : Text → Text) (params : ThreadGoalPlanAddParams)
    (title : Option Text) (ids : NewIds) (nowMs : Int) : ThreadGoalPlanNodeRow where
  nodeId := ids.nodeId 0
  planId := ids.planId
  threadId := params.threadId
  assignedThreadId := params.threadId
  key := "goal_1".toList
  sequence := 0
  priority := 0
  objective := redactStateString params.objective
  title := title
  status := .pending
  tokenBudget := params.tokenBudget
  createdAtMs := nowMs
  updatedAtMs := nowMs

/-- The database with the added goal as the only node of a new plan. -/
def Db.withGoalAdded (redactStateString : Text → Text) (params : ThreadGoalPlanAddParams)
    (title : Option Text) (ids : NewIds) (nowMs : Int) (db : Db) : Db :=
  { db with
    plans := db.plans ++ [unlimitedPlan params ids.planId nowMs]
    nodes := db.nodes ++ [addedNode redactStateString params title ids nowMs] }

theorem createGoalPlanFromAddedGoalInTx_eq_ok {params : ThreadGoalPlanAddParams} {ids : NewIds}
    {outcome : ThreadGoalPlanSnapshot × ThreadGoalPlanNode × ThreadGoal}
    (h : createGoalPlanFromAddedGoalInTx redactStateString params ids nowMs db =
      (.ok outcome, db')) :
    ∃ title goal, (∀ other ∈ db.plans, other.planId ≠ ids.planId) ∧
      Changes [.planInsert, .nodeInsert] db
        (db.withGoalAdded redactStateString params title ids nowMs) ∧
      activateNodeInTx redactStateString params.threadId (ids.nodeId 0) ids.goalId nowMs
        (db.withGoalAdded redactStateString params title ids nowMs) = (.ok goal, db') := by
  simp only [createGoalPlanFromAddedGoalInTx, Exec.bind_eq_ok, ofResult_eq_ok] at h
  obtain ⟨_, _, hrow, title, _, ⟨-, rfl⟩, _, _, hnode, goal, _, hactivate, snapshot, last,
    hsnapshot, h⟩ := h
  obtain rfl := snapshot_state hsnapshot
  have hstate : last = db' := by
    rcases hfind : snapshot.nodes.find? (fun node => node.nodeId = ids.nodeId 0) with _ | node
    · rw [hfind] at h
      exact (bail_eq_ok.1 h).elim
    · rw [hfind] at h
      exact (Exec.pure_eq_ok.1 h).2
  have hinserted : Changes [.planInsert, .nodeInsert] db _ :=
    (Changes.insertPlan (by simp) hrow).trans
      (.insertNode (by simp) rfl rfl rfl (.inl ⟨rfl, rfl⟩) hnode)
  obtain ⟨hfresh, rfl⟩ := insertPlan_eq_ok.1 hrow
  obtain ⟨-, -, -, rfl⟩ := insertNode_eq_ok.1 hnode
  rw [← hstate]
  exact ⟨title, goal, hfresh, hinserted, hactivate⟩

/-- The current goal would be converted into the first node of a new plan. -/
def Db.converts (db : Db) (threadId : ThreadId) (goal : ThreadGoal) : Bool :=
  db.threadGoal? threadId = some goal && goal.status ≠ .complete && goal.status ≠ .cancelled &&
    db.appendableGoalPlanIdForGoal threadId goal = none

/-- Adding a goal extends a plan, converts the current goal or makes a plan of the
added goal alone. -/
theorem addThreadGoalToPlan_cases {params : ThreadGoalPlanAddParams} {ids : NewIds}
    {outcome : ThreadGoalPlanAddOutcome}
    (h : addThreadGoalToPlan redactStateString params ids nowMs db = (.ok outcome, db')) :
    (∃ planId added, appendGoalPlanNodeInTx redactStateString planId params (ids.nodeId 0) nowMs
      db = (.ok added, db')) ∨
    (∃ goal added, db.converts params.threadId goal = true ∧
      createGoalPlanFromGoalInTx redactStateString params goal ids nowMs db = (.ok added, db')) ∨
    ∃ added, createGoalPlanFromAddedGoalInTx redactStateString params ids nowMs db =
      (.ok added, db') := by
  simp only [addThreadGoalToPlan, Exec.bind_eq_ok, ofResult_eq_ok, Exec.gets_eq_ok] at h
  obtain ⟨_, _, ⟨-, rfl⟩, goal, _, ⟨hgoal, rfl⟩, planOfGoal, _, ⟨hplanOfGoal, rfl⟩, newest, _,
    ⟨-, rfl⟩, h⟩ := h
  cases planOfGoal with
  | some planId =>
      simp only [Exec.bind_eq_ok, Exec.pure_eq_ok] at h
      obtain ⟨added, _, happend, -, rfl⟩ := h
      exact .inl ⟨planId, added, happend⟩
  | none =>
      rcases hcurrent : goal.filter (fun goal => goal.status ≠ .complete &&
        goal.status ≠ .cancelled) with _ | current
      · rw [hcurrent] at h
        cases newest with
        | some planId =>
            simp only [Exec.bind_eq_ok, Exec.pure_eq_ok] at h
            obtain ⟨added, _, happend, -, rfl⟩ := h
            exact .inl ⟨planId, added, happend⟩
        | none =>
            simp only [Exec.bind_eq_ok, Exec.pure_eq_ok] at h
            obtain ⟨added, _, hcreate, -, rfl⟩ := h
            exact .inr (.inr ⟨added, hcreate⟩)
      · rw [hcurrent] at h
        simp only [Exec.bind_eq_ok, Exec.pure_eq_ok] at h
        obtain ⟨added, last, hconvert, -, rfl⟩ := h
        obtain ⟨hsome, hopen⟩ := Option.filter_eq_some_iff.1 hcurrent
        rw [hsome] at hgoal hplanOfGoal
        refine .inr (.inl ⟨current, added, ?_, hconvert⟩)
        simp only [Bool.and_eq_true] at hopen
        have hnone : db.appendableGoalPlanIdForGoal params.threadId current = none := hplanOfGoal
        simp [Db.converts, hgoal, hopen.1, hopen.2, hnone]

theorem threadGoal?_of_converts {goal : ThreadGoal} (h : db.converts threadId goal = true) :
    db.threadGoal? threadId = some goal := by
  simp only [Db.converts, Bool.and_eq_true, decide_eq_true_eq] at h
  exact h.1.1.1

/-- The kinds of changes that extend a plan. -/
def appendKinds : List Kind := [.plan, .nodeInsert, .dependency]

theorem progress_addThreadGoalToPlan {params : ThreadGoalPlanAddParams} {ids : NewIds}
    {outcome : ThreadGoalPlanAddOutcome}
    (h : addThreadGoalToPlan redactStateString params ids nowMs db = (.ok outcome, db')) :
    Progress (.planInsert :: appendKinds) (some ids.goalId) db db' ∨
      ∃ goal, db.converts params.threadId goal = true ∧
        Change .nodeConvert db (db.withGoalConverted redactStateString params goal ids nowMs) ∧
        Changes appendKinds (db.withGoalConverted redactStateString params goal ids nowMs)
          db' := by
  rcases addThreadGoalToPlan_cases h with
    ⟨planId, added, happend⟩ | ⟨goal, added, hconverts, hcreate⟩ | ⟨added, hcreate⟩
  · exact .inl (.of_changes (changes_appendGoalPlanNodeInTx (by simp [appendKinds])
      (by simp [appendKinds]) (by simp [appendKinds]) happend))
  · obtain ⟨hchange, happend⟩ :=
      createGoalPlanFromGoalInTx_eq_ok (threadGoal?_of_converts hconverts) hcreate
    exact .inr ⟨goal, hconverts, hchange, changes_appendGoalPlanNodeInTx (by simp [appendKinds])
      (by simp [appendKinds]) (by simp [appendKinds]) happend⟩
  · obtain ⟨title, goal, -, hinserted, hactivate⟩ := createGoalPlanFromAddedGoalInTx_eq_ok hcreate
    exact .inl ((Progress.of_put (put_activateNodeInTx hactivate)).prepend
      (hinserted.mono (by simp [appendKinds])))

end Codewith.GoalStore
