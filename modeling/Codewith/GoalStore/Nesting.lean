import Mathlib.Logic.Relation
import Codewith.Lib.Result
import Codewith.GoalStore.PauseResume
import Codewith.GoalStore.Integrity

/-!
# The nesting of plan nodes

The parents of the nodes form a forest whose depths are recorded in the nodes.  A
hierarchy update checks the depths of the nodes it mentions; a node that it does
not mention keeps its depth, so its parent must keep its depth too.
-/

namespace Codewith.GoalStore

open Lib

variable {redactStateString : Text → Text} {db db' : Db} {planId : Text} {nowMs : Int}

/-- A root has depth one, and every other node is one deeper than its parent, which
is a node of the same plan. -/
structure Db.Forest (db : Db) : Prop where
  integrity : db.Integrity
  roots : ∀ node ∈ db.nodes, node.parentNodeId = none → node.nestingDepth = 1
  parents : ∀ node ∈ db.nodes, ∀ parentId, node.parentNodeId = some parentId →
    ∃ parent ∈ db.nodes, parent.nodeId = parentId ∧ parent.planId = node.planId ∧
      node.nestingDepth = parent.nestingDepth + 1

/-- `parent_node_id` leads from the first node to the second. -/
def Db.parentLink (db : Db) (childId parentId : Text) : Prop :=
  ∃ node ∈ db.nodes, node.nodeId = childId ∧ node.parentNodeId = some parentId

namespace Db.Forest

theorem empty : Db.empty.Forest :=
  ⟨.empty, by simp [Db.empty], by simp [Db.empty]⟩

/-- Along the parents the depth falls. -/
theorem depth_lt (h : db.Forest) {a b : Text} (hpath : Relation.TransGen db.parentLink a b) :
    ∃ node ∈ db.nodes, node.nodeId = a ∧ ∃ ancestor ∈ db.nodes, ancestor.nodeId = b ∧
      ancestor.nestingDepth < node.nestingDepth := by
  induction hpath with
  | single hlink =>
      obtain ⟨node, hnode, hid, hparent⟩ := hlink
      obtain ⟨parent, hmem, hparentId, -, hdepth⟩ := h.parents node hnode _ hparent
      exact ⟨node, hnode, hid, parent, hmem, hparentId, by omega⟩
  | tail _ hlink ih =>
      obtain ⟨node, hnode, hid, mid, hmid, hmidId, hlt⟩ := ih
      obtain ⟨child, hchild, hchildId, hparent⟩ := hlink
      obtain rfl : child = mid := h.integrity.eq_of_nodeId hchild hmid (hchildId.trans hmidId.symm)
      obtain ⟨parent, hmem, hparentId, -, hdepth⟩ := h.parents child hchild _ hparent
      exact ⟨node, hnode, hid, parent, hmem, hparentId, by omega⟩

theorem acyclic (h : db.Forest) (nodeId : Text) :
    ¬Relation.TransGen db.parentLink nodeId nodeId := by
  intro hcycle
  obtain ⟨node, hnode, hid, ancestor, hancestor, hancestorId, hlt⟩ := h.depth_lt hcycle
  rw [h.integrity.eq_of_nodeId hnode hancestor (hid.trans hancestorId.symm)] at hlt
  omega

/-- An update that leaves the nesting alone. -/
theorem updateNodes (h : db.Forest) {p : ThreadGoalPlanNodeRow → Bool}
    {f : ThreadGoalPlanNodeRow → ThreadGoalPlanNodeRow}
    (hintegrity : (db.updateNodes p f).Integrity)
    (hf : ∀ node, (f node).nodeId = node.nodeId ∧ (f node).planId = node.planId ∧
      (f node).parentNodeId = node.parentNodeId ∧ (f node).nestingDepth = node.nestingDepth) :
    (db.updateNodes p f).Forest := by
  have hrow : ∀ node ∈ (db.updateNodes p f).nodes, ∃ old ∈ db.nodes, node.planId = old.planId ∧
      node.parentNodeId = old.parentNodeId ∧ node.nestingDepth = old.nestingDepth := by
    intro node hnode
    rcases Table.mem_updateWhere.1 hnode with ⟨old, hold, -, rfl⟩ | ⟨hold, -⟩
    · exact ⟨old, hold, (hf old).2⟩
    · exact ⟨node, hold, rfl, rfl, rfl⟩
  refine ⟨hintegrity, ?_, ?_⟩
  · intro node hnode hnone
    obtain ⟨old, hold, -, hparent, hdepth⟩ := hrow node hnode
    rw [hdepth]
    exact h.roots old hold (hparent.symm.trans hnone)
  · intro node hnode parentId hsome
    obtain ⟨old, hold, hplan, hparent, hdepth⟩ := hrow node hnode
    obtain ⟨parent, hmem, hid, hparentPlan, hparentDepth⟩ :=
      h.parents old hold parentId (hparent.symm.trans hsome)
    refine ⟨_, List.mem_map.2 ⟨parent, hmem, rfl⟩, ?_⟩
    rw [hplan, hdepth]
    split
    · obtain ⟨hfId, hfPlan, -, hfDepth⟩ := hf parent
      rw [hfId, hfPlan, hfDepth]
      exact ⟨hid, hparentPlan, hparentDepth⟩
    · exact ⟨hid, hparentPlan, hparentDepth⟩

theorem insertNode (h : db.Forest) {node : ThreadGoalPlanNodeRow} {plans : List ThreadGoalPlan}
    (hintegrity : Db.Integrity { db with plans, nodes := db.nodes ++ [node] })
    (hnests : db.Nests node) : Db.Forest { db with plans, nodes := db.nodes ++ [node] } := by
  refine ⟨hintegrity, ?_, ?_⟩
  · intro row hrow hnone
    rcases List.mem_append.1 hrow with hold | hnew
    · exact h.roots row hold hnone
    · rw [List.mem_singleton.1 hnew] at hnone ⊢
      rcases hnests with ⟨-, hdepth⟩ | ⟨sibling, hsibling, -, hparent, hdepth⟩
      · exact hdepth
      · rw [hdepth]
        exact h.roots sibling hsibling (hparent.symm.trans hnone)
  · intro row hrow parentId hsome
    have hparent : ∃ parent ∈ db.nodes, parent.nodeId = parentId ∧ parent.planId = row.planId ∧
        row.nestingDepth = parent.nestingDepth + 1 := by
      rcases List.mem_append.1 hrow with hold | hnew
      · exact h.parents row hold parentId hsome
      · rw [List.mem_singleton.1 hnew] at hsome ⊢
        rcases hnests with ⟨hnone, -⟩ | ⟨sibling, hsibling, hplan, hparent, hdepth⟩
        · rw [hnone] at hsome
          cases hsome
        · rw [hdepth, ← hplan]
          exact h.parents sibling hsibling parentId (hparent.symm.trans hsome)
    obtain ⟨parent, hmem, hfacts⟩ := hparent
    exact ⟨parent, List.mem_append_left _ hmem, hfacts⟩

end Db.Forest

theorem Change.forest {kind : Kind} (hkind : kind ≠ .nodeNest) (h : Change kind db db')
    (hdb : db.Forest) : db'.Forest := by
  have hintegrity := h.integrity hdb.integrity
  cases h with
  | planDelete =>
      refine ⟨hintegrity, ?_, ?_⟩
      · intro node hnode
        exact hdb.roots node (Table.mem_deleteWhere.1 hnode).1
      · intro node hnode parentId hsome
        obtain ⟨hold, hstays⟩ := Table.mem_deleteWhere.1 hnode
        obtain ⟨parent, hmem, hid, hplan, hdepth⟩ := hdb.parents node hold parentId hsome
        refine ⟨parent, Table.mem_deleteWhere.2 ⟨hmem, ?_⟩, hid, hplan, hdepth⟩
        rw [hplan]
        exact hstays
  | nodeInsert _ _ _ _ hnests => exact hdb.insertNode hintegrity hnests
  | nodeConvert _ _ _ _ _ _ _ hnests => exact hdb.insertNode hintegrity (.inl hnests)
  | nodeStatus => exact hdb.updateNodes hintegrity fun _ => ⟨rfl, rfl, rfl, rfl⟩
  | nodeRequeue => exact hdb.updateNodes hintegrity fun _ => ⟨rfl, rfl, rfl, rfl⟩
  | nodeCancel => exact hdb.updateNodes hintegrity fun _ => ⟨rfl, rfl, rfl, rfl⟩
  | nodeResume => exact hdb.updateNodes hintegrity fun _ => ⟨rfl, rfl, rfl, rfl⟩
  | nodeSync => exact hdb.updateNodes hintegrity fun _ => ⟨rfl, rfl, rfl, rfl⟩
  | nodeRecord => exact hdb.updateNodes hintegrity fun _ => ⟨rfl, rfl, rfl, rfl⟩
  | nodeEdit => exact hdb.updateNodes hintegrity fun _ => ⟨rfl, rfl, rfl, rfl⟩
  | nodeShift => exact hdb.updateNodes hintegrity fun _ => ⟨rfl, rfl, rfl, rfl⟩
  | nodeComplete =>
      apply Db.Forest.updateNodes _ hintegrity fun _ => ⟨rfl, rfl, rfl, rfl⟩
      exact ⟨hdb.integrity.updateThreadGoals fun _ _ => rfl, hdb.roots, hdb.parents⟩
  | nodeUndo =>
      apply Db.Forest.updateNodes _ hintegrity fun _ => ⟨rfl, rfl, rfl, rfl⟩
      exact ⟨hdb.integrity.deleteThreadGoals _, hdb.roots, hdb.parents⟩
  | nodeNest => exact absurd rfl hkind
  | _ => exact ⟨hintegrity, hdb.roots, hdb.parents⟩

theorem Put.forest {goalId : Text} (h : Put goalId db db') (hdb : db.Forest) : db'.Forest := by
  have hintegrity := h.integrity hdb.integrity
  cases h with
  | goal => exact ⟨hintegrity, by simpa using hdb.roots, by simpa using hdb.parents⟩
  | node =>
      apply Db.Forest.updateNodes _ hintegrity fun _ => ⟨rfl, rfl, rfl, rfl⟩
      refine ⟨?_, by simpa using hdb.roots, by simpa using hdb.parents⟩
      apply Db.Integrity.upsertThreadGoal
      exact ⟨hdb.integrity.goals, hdb.integrity.plans, hdb.integrity.nodes, hdb.integrity.keys,
        hdb.integrity.nodePlans, hdb.integrity.dependencies⟩

/-! ## Hierarchy updates -/

theorem validateHierarchyEntry_eq_ok {keys keys' : List Text}
    {node : ThreadGoalPlanNodeHierarchyParams} (h : validateHierarchyEntry keys node = .ok keys') :
    keys' = keys ++ [node.key] ∧ node.key ∉ keys ∧
      (node.parentKey = none → node.nestingDepth = 1) := by
  obtain ⟨-, h⟩ := Result.unless_eq_ok.1 h
  obtain ⟨hnew, h⟩ := Result.unless_eq_ok.1 h
  obtain ⟨-, h⟩ := Result.unless_eq_ok.1 h
  obtain ⟨-, h⟩ := Result.unless_eq_ok.1 h
  obtain ⟨-, h⟩ := Result.unless_eq_ok.1 h
  obtain ⟨hroot, h⟩ := Result.unless_eq_ok.1 h
  obtain ⟨-, h⟩ := Result.unless_eq_ok.1 h
  refine ⟨(Result.pure_eq_ok.1 h).symm, hnew, ?_⟩
  intro hnone
  by_contra hdepth
  exact hroot ⟨hnone, hdepth⟩

theorem validateGoalPlanNodeHierarchyParams_eq_ok {nodes : List ThreadGoalPlanNodeHierarchyParams}
    (h : validateGoalPlanNodeHierarchyParams nodes = .ok ()) :
    (nodes.map (·.key)).Nodup ∧ ∀ node ∈ nodes, node.parentKey = none → node.nestingDepth = 1 := by
  obtain ⟨keys, hkeys, -⟩ := Result.bind_eq_ok.1 h
  obtain ⟨rfl, hnodup, hroots⟩ := Result.foldlM_collect
    (fun _ _ _ hentry => validateHierarchyEntry_eq_ok hentry) hkeys List.nodup_nil
  exact ⟨by simpa using hnodup, hroots⟩

def nodeIdOf (existing : List ThreadGoalPlanNode) (key : Text) : Option Text :=
  (existing.find? fun other => other.key = key).map (·.nodeId)

/-- The row after one entry of a hierarchy update. -/
def nestedBy (planId : Text) (existing : List ThreadGoalPlanNode) (nowMs : Int)
    (row : ThreadGoalPlanNodeRow) (entry : ThreadGoalPlanNodeHierarchyParams) :
    ThreadGoalPlanNodeRow :=
  if row.planId = planId ∧ nodeIdOf existing entry.key = some row.nodeId then
    { row with
      parentNodeId := entry.parentKey.bind (nodeIdOf existing)
      nestingDepth := entry.nestingDepth
      updatedAtMs := nowMs }
  else row

theorem updateNodeHierarchy_nodes {existing : List ThreadGoalPlanNode}
    {entry : ThreadGoalPlanNodeHierarchyParams} {u : Unit}
    (h : updateNodeHierarchy planId existing nowMs entry db = (.ok u, db')) :
    db'.nodes = db.nodes.map fun row => nestedBy planId existing nowMs row entry := by
  simp only [updateNodeHierarchy] at h
  rcases hfind : (existing.find? fun other => other.key = entry.key).map (·.nodeId) with _ | nodeId
  · rw [hfind] at h
    exact (bail_eq_ok.1 h).elim
  · rw [hfind] at h
    simp only [Exec.bind_eq_ok, ofResult_eq_ok, Exec.gets_eq_ok, Exec.modify_eq_ok,
      ensure_eq_ok] at h
    obtain ⟨_, _, ⟨-, rfl⟩, _, _, ⟨-, rfl⟩, _, _, rfl, -, rfl⟩ := h
    apply List.map_congr_left
    intro row _
    have hid : nodeIdOf existing entry.key = some nodeId := hfind
    simp only [nestedBy, hid, Option.some.injEq, Bool.and_eq_true, decide_eq_true_eq]
    by_cases hrow : row.planId = planId ∧ row.nodeId = nodeId
    · rw [if_pos hrow, if_pos ⟨hrow.1, hrow.2.symm⟩]
      rfl
    · rw [if_neg hrow, if_neg fun hother => hrow ⟨hother.1, hother.2.symm⟩]

theorem updateNodeHierarchies_nodes {existing : List ThreadGoalPlanNode}
    {entries : List ThreadGoalPlanNodeHierarchyParams} {u : Unit}
    (h : Exec.forEach (updateNodeHierarchy planId existing nowMs) entries db = (.ok u, db')) :
    db'.nodes = db.nodes.map fun row => entries.foldl (nestedBy planId existing nowMs) row := by
  induction entries generalizing db with
  | nil =>
      rw [Exec.forEach_nil_eq_ok.1 h]
      exact (List.map_id _).symm
  | cons entry entries ih =>
      obtain ⟨mid, hfirst, hrest⟩ := Exec.forEach_cons_eq_ok.1 h
      rw [ih hrest, updateNodeHierarchy_nodes hfirst, List.map_map]
      rfl

/-- The row with the entry that mentions it in place, or as it was. -/
def NestedRow (planId : Text) (existing : List ThreadGoalPlanNode)
    (entries : List ThreadGoalPlanNodeHierarchyParams) (row row' : ThreadGoalPlanNodeRow) : Prop :=
  row'.nodeId = row.nodeId ∧ row'.planId = row.planId ∧
    ((∃ entry ∈ entries, row.planId = planId ∧ nodeIdOf existing entry.key = some row.nodeId ∧
      row'.parentNodeId = entry.parentKey.bind (nodeIdOf existing) ∧
      row'.nestingDepth = entry.nestingDepth) ∨
    ((∀ entry ∈ entries, row.planId = planId → nodeIdOf existing entry.key ≠ some row.nodeId) ∧
      row'.parentNodeId = row.parentNodeId ∧ row'.nestingDepth = row.nestingDepth))

theorem nestedRow_foldl (existing : List ThreadGoalPlanNode)
    (entries : List ThreadGoalPlanNodeHierarchyParams) (row : ThreadGoalPlanNodeRow) :
    NestedRow planId existing entries row (entries.foldl (nestedBy planId existing nowMs) row) := by
  induction entries using List.reverseRecOn with
  | nil => exact ⟨rfl, rfl, .inr ⟨by simp, rfl, rfl⟩⟩
  | append_singleton entries entry ih =>
      rw [List.foldl_append, List.foldl_cons, List.foldl_nil]
      obtain ⟨hid, hplan, hcases⟩ := ih
      generalize entries.foldl (nestedBy planId existing nowMs) row = mid at hid hplan hcases ⊢
      rw [nestedBy, hid, hplan]
      by_cases hmatch : row.planId = planId ∧ nodeIdOf existing entry.key = some row.nodeId
      · rw [if_pos hmatch]
        exact ⟨rfl, rfl, .inl ⟨entry, by simp, hmatch.1, hmatch.2, rfl, rfl⟩⟩
      · rw [if_neg hmatch]
        refine ⟨hid, hplan, ?_⟩
        rcases hcases with ⟨other, hother, hrest⟩ | ⟨hnone, hrest⟩
        · exact .inl ⟨other, List.mem_append_left _ hother, hrest⟩
        · refine .inr ⟨?_, hrest⟩
          intro other hother hrowPlan hmentions
          rcases List.mem_append.1 hother with hold | hnew
          · exact hnone other hold hrowPlan hmentions
          · rw [List.mem_singleton.1 hnew] at hmentions
            exact hmatch ⟨hrowPlan, hmentions⟩

/-! ## Keys of a plan -/

theorem Db.Integrity.find_key (hdb : db.Integrity) {row : ThreadGoalPlanNodeRow}
    (hrow : row ∈ db.nodes) (hplan : row.planId = planId) {key : Text} (hkey : row.key = key) :
    (db.snapshotNodes planId).find? (fun node => node.key = key) =
      some { row with dependsOn := db.nodeDependencyKeys row.nodeId } := by
  apply Table.find?_eq_some_of_unique (mem_snapshotNodes hrow hplan) (decide_eq_true hkey)
  intro other hother hmatch
  obtain ⟨hmem, hotherPlan, hdependsOn⟩ := mem_nodes_of_mem_snapshotNodes hother
  have hsame : other.toThreadGoalPlanNodeRow = row := hdb.eq_of_key hmem hrow
    (hotherPlan.trans hplan.symm) ((of_decide_eq_true hmatch).trans hkey.symm)
  cases other with
  | mk other dependsOn =>
      subst hsame
      exact congrArg (ThreadGoalPlanNode.mk other) hdependsOn

theorem Db.Integrity.nodeIdOf_iff (hdb : db.Integrity) {row : ThreadGoalPlanNodeRow}
    (hrow : row ∈ db.nodes) (hplan : row.planId = planId) {key : Text} :
    nodeIdOf (db.snapshotNodes planId) key = some row.nodeId ↔ row.key = key := by
  constructor
  · intro hid
    obtain ⟨node, hnode, hnodeId⟩ := Option.map_eq_some_iff.1 hid
    obtain ⟨hmem, -, -⟩ := mem_nodes_of_mem_snapshotNodes (List.mem_of_find?_eq_some hnode)
    have hkey : node.key = key := by simpa using List.find?_some hnode
    rw [← hkey, ← hdb.eq_of_nodeId hmem hrow hnodeId]
  · intro hkey
    rw [nodeIdOf, hdb.find_key hrow hplan hkey]
    rfl

theorem exists_of_nodeIdOf {key nodeId : Text}
    (h : nodeIdOf (db.snapshotNodes planId) key = some nodeId) :
    ∃ row ∈ db.nodes, row.planId = planId ∧ row.key = key ∧ row.nodeId = nodeId := by
  obtain ⟨node, hnode, hid⟩ := Option.map_eq_some_iff.1 h
  obtain ⟨hmem, hplan, -⟩ := mem_nodes_of_mem_snapshotNodes (List.mem_of_find?_eq_some hnode)
  exact ⟨_, hmem, hplan, by simpa using List.find?_some hnode, hid⟩

/-! ## What a hierarchy update has checked -/

/-- The request of a hierarchy update, with the checks it has passed. -/
structure Db.NestsAs (db : Db) (planId : Text)
    (entries : List ThreadGoalPlanNodeHierarchyParams) : Prop where
  keys : (entries.map (·.key)).Nodup
  roots : ∀ entry ∈ entries, entry.parentKey = none → entry.nestingDepth = 1
  known : ∀ entry ∈ entries, ∃ row ∈ db.nodes, row.planId = planId ∧ row.key = entry.key
  parents : ∀ entry ∈ entries, ∀ parentKey, entry.parentKey = some parentKey →
    ∃ depth, requestedDepth (db.snapshotNodes planId) entries parentKey = some depth ∧
      entry.nestingDepth = depth + 1

theorem checkHierarchyParent_eq_ok {existing : List ThreadGoalPlanNode}
    {entries : List ThreadGoalPlanNodeHierarchyParams} {entry : ThreadGoalPlanNodeHierarchyParams}
    (h : checkHierarchyParent existing entries entry = .ok ()) {parentKey : Text}
    (hparent : entry.parentKey = some parentKey) :
    ∃ depth, requestedDepth existing entries parentKey = some depth ∧
      entry.nestingDepth = depth + 1 := by
  simp only [checkHierarchyParent, hparent] at h
  split at h
  · cases h
  · next depth hdepth =>
      split at h
      · next hnext => exact ⟨depth, hdepth, hnext⟩
      · cases h

theorem updateThreadGoalPlanNodeHierarchy_nodes {threadId : ThreadId}
    {entries : List ThreadGoalPlanNodeHierarchyParams} {snapshot : ThreadGoalPlanSnapshot}
    (h : updateThreadGoalPlanNodeHierarchy threadId planId entries nowMs db = (.ok snapshot, db')) :
    db' = db ∨ (db.NestsAs planId entries ∧ db'.nodes = db.nodes.map fun row =>
      entries.foldl (nestedBy planId (db.snapshotNodes planId) nowMs) row) := by
  simp only [updateThreadGoalPlanNodeHierarchy, Exec.bind_eq_ok, ofResult_eq_ok, ensure_eq_ok,
    Exec.ite_run] at h
  obtain ⟨_, _, ⟨hvalid, rfl⟩, existing, _, hexisting, _, _, ⟨-, rfl⟩, h⟩ := h
  obtain ⟨-, hnodes, rfl⟩ := snapshotThreadGoalPlanInTx_eq_ok.1 hexisting
  split at h
  · obtain ⟨-, rfl⟩ := Exec.pure_eq_ok.1 h
    exact .inl rfl
  · right
    simp only [Exec.bind_eq_ok, ofResult_eq_ok] at h
    obtain ⟨_, _, ⟨hknown, rfl⟩, _, _, ⟨hparents, rfl⟩, _, _, hloop, _, _, htouch, hsnapshot⟩ := h
    obtain rfl := snapshot_state hsnapshot
    obtain rfl := Exec.modify_eq_ok.1 htouch
    rw [hnodes] at hloop hknown hparents
    obtain ⟨hkeys, hroots⟩ := validateGoalPlanNodeHierarchyParams_eq_ok hvalid
    have hmoved := updateNodeHierarchies_nodes hloop
    refine ⟨⟨hkeys, hroots, ?_, ?_⟩, hmoved⟩
    · intro entry hentry
      have hone := Result.forM_eq_ok.1 hknown entry hentry
      split at hone
      · next hany =>
          obtain ⟨node, hnode, hkey⟩ := List.any_eq_true.1 hany
          obtain ⟨hmem, hplan, -⟩ := mem_nodes_of_mem_snapshotNodes hnode
          exact ⟨_, hmem, hplan, of_decide_eq_true hkey⟩
      · cases hone
    · intro entry hentry parentKey hparent
      exact checkHierarchyParent_eq_ok (Result.forM_eq_ok.1 hparents entry hentry) hparent

namespace Db.NestsAs

variable {entries : List ThreadGoalPlanNodeHierarchyParams} {row row' : ThreadGoalPlanNodeRow}

/-- The depth that the checks have used for a node is the one it ends up with. -/
theorem requestedDepth_eq (h : db.NestsAs planId entries) (hdb : db.Integrity)
    (hrow : row ∈ db.nodes) (hplan : row.planId = planId)
    (hnested : NestedRow planId (db.snapshotNodes planId) entries row row') :
    requestedDepth (db.snapshotNodes planId) entries row.key = some row'.nestingDepth := by
  have hmentions {key : Text} :
      nodeIdOf (db.snapshotNodes planId) key = some row.nodeId ↔ row.key = key :=
    hdb.nodeIdOf_iff hrow hplan
  obtain ⟨-, -, ⟨entry, hentry, -, hid, -, hdepth⟩ | ⟨hnone, -, hdepth⟩⟩ := hnested
  · have hfind : (entries.find? fun node => node.key = row.key) = some entry := by
      apply Table.find?_eq_some_of_unique hentry (decide_eq_true (hmentions.1 hid).symm)
      intro other hother hkey
      exact List.inj_on_of_nodup_map h.keys hother hentry
        ((of_decide_eq_true hkey).trans (hmentions.1 hid))
    simp only [requestedDepth, hfind, hdepth]
  · have hfind : (entries.find? fun node => node.key = row.key) = none := by
      rw [List.find?_eq_none]
      intro entry hentry hkey
      exact hnone entry hentry hplan (hmentions.2 (of_decide_eq_true hkey).symm)
    simp only [requestedDepth, hfind, hdepth, hdb.find_key hrow hplan rfl, Option.map_some]

/-- The key of a requested parent is the key of a node. -/
theorem nodeIdOf_parent (h : db.NestsAs planId entries) (hdb : db.Integrity)
    {entry : ThreadGoalPlanNodeHierarchyParams} (hentry : entry ∈ entries) {parentKey : Text}
    (hparent : entry.parentKey = some parentKey) :
    ∃ parent ∈ db.nodes, parent.planId = planId ∧ parent.key = parentKey ∧
      nodeIdOf (db.snapshotNodes planId) parentKey = some parent.nodeId := by
  have hkey : ∃ parent ∈ db.nodes, parent.planId = planId ∧ parent.key = parentKey := by
    obtain ⟨depth, hdepth, -⟩ := h.parents entry hentry parentKey hparent
    rw [requestedDepth] at hdepth
    split at hdepth
    · next other hother =>
        obtain ⟨parent, hmem, hplan, hkey⟩ := h.known other (List.mem_of_find?_eq_some hother)
        exact ⟨parent, hmem, hplan, hkey.trans (by simpa using List.find?_some hother)⟩
    · obtain ⟨node, hnode, -⟩ := Option.map_eq_some_iff.1 hdepth
      obtain ⟨hmem, hplan, -⟩ := mem_nodes_of_mem_snapshotNodes (List.mem_of_find?_eq_some hnode)
      exact ⟨_, hmem, hplan, by simpa using List.find?_some hnode⟩
  obtain ⟨parent, hmem, hplan, hkey⟩ := hkey
  exact ⟨parent, hmem, hplan, hkey, (hdb.nodeIdOf_iff hmem hplan).2 hkey⟩

end Db.NestsAs

/-- An entry for a node with children that are not in the request keeps the depth of
the node. -/
def Db.keepsDepths (db : Db) (planId : Text)
    (entries : List ThreadGoalPlanNodeHierarchyParams) : Prop :=
  ∀ entry ∈ entries, ∀ parent ∈ db.nodes, parent.planId = planId → parent.key = entry.key →
    ∀ child ∈ db.nodes, child.parentNodeId = some parent.nodeId →
      (∀ other ∈ entries, other.key ≠ child.key) → entry.nestingDepth = parent.nestingDepth

theorem Db.Forest.nest (hdb : db.Forest) (hintegrity : db'.Integrity)
    {entries : List ThreadGoalPlanNodeHierarchyParams} (hguard : db.keepsDepths planId entries)
    (hrequest : db.NestsAs planId entries) {nest : ThreadGoalPlanNodeRow → ThreadGoalPlanNodeRow}
    (hnested : ∀ row, NestedRow planId (db.snapshotNodes planId) entries row (nest row))
    (hnodes : db'.nodes = db.nodes.map nest) : db'.Forest := by
  have hint := hdb.integrity
  refine ⟨hintegrity, ?_, ?_⟩
  · intro node hnode hnone
    rw [hnodes] at hnode
    obtain ⟨row, hrow, rfl⟩ := List.mem_map.1 hnode
    obtain ⟨-, -, ⟨entry, hentry, -, -, hparent, hdepth⟩ | ⟨-, hparent, hdepth⟩⟩ := hnested row
    · rw [hdepth]
      apply hrequest.roots entry hentry
      by_contra hsome
      obtain ⟨parentKey, hkey⟩ := Option.ne_none_iff_exists'.1 hsome
      obtain ⟨parent, -, -, -, hid⟩ := hrequest.nodeIdOf_parent hint hentry hkey
      rw [hnone, hkey, Option.bind_some, hid] at hparent
      cases hparent
    · rw [hdepth]
      exact hdb.roots row hrow (hparent.symm.trans hnone)
  · intro node hnode parentId hsome
    rw [hnodes] at hnode
    obtain ⟨row, hrow, rfl⟩ := List.mem_map.1 hnode
    have hmem {parent : ThreadGoalPlanNodeRow} (hparent : parent ∈ db.nodes) :
        nest parent ∈ db'.nodes := by
      rw [hnodes]
      exact List.mem_map_of_mem hparent
    obtain ⟨-, hplan, ⟨entry, hentry, hrowPlan, -, hparent, hdepth⟩ |
      ⟨hnone, hparent, hdepth⟩⟩ := hnested row
    · -- The request has checked the depth against the one its parent ends up with.
      rw [hsome] at hparent
      obtain ⟨parentKey, hkey, hid⟩ := Option.bind_eq_some_iff.1 hparent.symm
      obtain ⟨parent, hparentMem, hparentPlan, hparentKey, rfl⟩ := exists_of_nodeIdOf hid
      obtain ⟨depth, hrequested, hnext⟩ := hrequest.parents entry hentry parentKey hkey
      rw [← hparentKey, hrequest.requestedDepth_eq hint hparentMem hparentPlan (hnested parent),
        Option.some.injEq] at hrequested
      obtain ⟨hsameId, hsamePlan, -⟩ := hnested parent
      refine ⟨nest parent, hmem hparentMem, hsameId, ?_, ?_⟩
      · rw [hsamePlan, hparentPlan, hplan, hrowPlan]
      · rw [hdepth, hnext, hrequested]
    · -- The node is not in the request: its parent has kept its depth.
      obtain ⟨parent, hparentMem, hparentId, hparentPlan, hparentDepth⟩ :=
        hdb.parents row hrow parentId (hparent.symm.trans hsome)
      obtain ⟨hsameId, hsamePlan, hcases⟩ := hnested parent
      refine ⟨nest parent, hmem hparentMem, hsameId.trans hparentId, ?_, ?_⟩
      · rw [hsamePlan, hparentPlan, hplan]
      · rw [hdepth, hparentDepth]
        rcases hcases with ⟨entry, hentry, hinPlan, hid, -, hnewDepth⟩ | ⟨-, -, hnewDepth⟩
        · have hkey := (hint.nodeIdOf_iff hparentMem hinPlan).1 hid
          have hrowPlan : row.planId = planId := hparentPlan.symm.trans hinPlan
          rw [hnewDepth, hguard entry hentry parent hparentMem hinPlan hkey row hrow]
          · rw [hparentId, ← hparent, hsome]
          · intro other hother hsame
            exact hnone other hother hrowPlan ((hint.nodeIdOf_iff hrow hrowPlan).2 hsame.symm)
        · rw [hnewDepth]

/-! ## Runs -/

/-- A hierarchy update that moves a node to another depth mentions its children. -/
def GoalOp.keepsDepths : GoalOp → Db → Prop
  | .updateThreadGoalPlanNodeHierarchy _ planId nodes _, db => db.keepsDepths planId nodes
  | _, _ => True

theorem GoalOp.step_forest {op : GoalOp} (hguard : op.keepsDepths db) (hdb : db.Forest) :
    (op.step redactStateString db).Forest := by
  by_cases hnest : Kind.nodeNest ∈ op.kinds
  · have hintegrity : (op.step redactStateString db).Integrity := op.step_integrity hdb.integrity
    rcases GoalOp.step_cases redactStateString op db with hrun | hsame
    · cases op <;> simp only [kinds, List.mem_cons, reduceCtorEq, List.not_mem_nil, or_self,
        or_false] at hnest
      case updateThreadGoalPlanNodeHierarchy =>
        obtain ⟨snapshot, hrun⟩ := exists_of_discard_run_ok hrun
        rcases updateThreadGoalPlanNodeHierarchy_nodes hrun with hsame | ⟨hrequest, hnodes⟩
        · rw [hsame]
          exact hdb
        · exact hdb.nest hintegrity hguard hrequest (nestedRow_foldl _ _) hnodes
    · rw [hsame]
      exact hdb
  · refine GoalOp.step_invariant (fun kind hkind _ _ hchange => hchange.forest ?_)
      (fun _ _ _ hput => hput.forest) hdb
    rintro rfl
    exact hnest hkind

/-- In a run whose hierarchy updates mention the children of the nodes they move to
another depth, the nesting stays a forest with the right depths. -/
theorem nesting_is_forest
    (h : Reaches (GoalOp.step redactStateString) GoalOp.keepsDepths Db.empty db) :
    (∀ nodeId, ¬Relation.TransGen db.parentLink nodeId nodeId) ∧
      (∀ node ∈ db.nodes, node.parentNodeId = none → node.nestingDepth = 1) ∧
      ∀ node ∈ db.nodes, ∀ parentId, node.parentNodeId = some parentId →
        ∃ parent ∈ db.nodes, parent.nodeId = parentId ∧
          node.nestingDepth = parent.nestingDepth + 1 := by
  have hforest : db.Forest := h.invariant .empty fun op _ => op.step_forest
  refine ⟨hforest.acyclic, hforest.roots, ?_⟩
  intro node hnode parentId hsome
  obtain ⟨parent, hparent, hid, -, hdepth⟩ := hforest.parents node hnode parentId hsome
  exact ⟨parent, hparent, hid, hdepth⟩

/-- A plan with four roots. -/
def samplePair : GoalOp :=
  let node := fun key : Text => ⟨key, "build".toList, none, none, 0, none, []⟩
  .createThreadGoalPlan
    ⟨sampleThread, .off, none, ["a".toList, "b".toList, "x".toList, "y".toList].map node⟩
    ⟨"plan".toList, fun i => List.replicate (i + 1) 'n', "goal".toList⟩ 1

def sampleNest (entries : List ThreadGoalPlanNodeHierarchyParams) : GoalOp :=
  .updateThreadGoalPlanNodeHierarchy sampleThread "plan".toList entries 2

/-- The second of two nodes under the first, and the fourth under the third. -/
def sampleNestPairs : GoalOp :=
  sampleNest [⟨"b".toList, some "a".toList, 2⟩, ⟨"y".toList, some "x".toList, 2⟩]

theorem nesting_is_forest_sample :
    (runOps (GoalOp.step id) [samplePair, sampleNestPairs] Db.empty).nodes.length = 4 ∧
      ∀ nodeId, ¬Relation.TransGen (runOps (GoalOp.step id) [samplePair, sampleNestPairs]
        Db.empty).parentLink nodeId nodeId := by
  have hcreated : Reaches (GoalOp.step id) GoalOp.keepsDepths Db.empty
      (runOps (GoalOp.step id) [samplePair] Db.empty) := .next _ .start trivial
  have hguard : GoalOp.keepsDepths sampleNestPairs
      (runOps (GoalOp.step id) [samplePair] Db.empty) := by
    unfold sampleNestPairs sampleNest GoalOp.keepsDepths Db.keepsDepths
    decide +kernel
  exact ⟨by decide +kernel, (nesting_is_forest (.next _ hcreated hguard)).1⟩

/-- Moving `a` under `y` leaves its child `b` at depth two, so that `x` can be moved
under `b`: the four nodes are then each other's ancestors. -/
theorem nesting_cycle_after_moves :
    let db := runOps (GoalOp.step id)
      [samplePair, sampleNestPairs, sampleNest [⟨"a".toList, some "y".toList, 3⟩],
        sampleNest [⟨"x".toList, some "b".toList, 3⟩]] Db.empty
    ∃ node ∈ db.nodes, Relation.TransGen db.parentLink node.nodeId node.nodeId := by
  intro db
  have hlink : ∀ child parent : Text, (db.nodes.any fun node =>
      node.nodeId = child && node.parentNodeId = some parent) = true →
        db.parentLink child parent := by
    intro child parent hany
    obtain ⟨node, hnode, hmatch⟩ := List.any_eq_true.1 hany
    rw [Bool.and_eq_true, decide_eq_true_eq, decide_eq_true_eq] at hmatch
    exact ⟨node, hnode, hmatch⟩
  have hnode : ∃ node ∈ db.nodes, node.nodeId = "n".toList := by decide +kernel
  obtain ⟨node, hmem, hid⟩ := hnode
  refine ⟨node, hmem, ?_⟩
  rw [hid]
  have ha : db.parentLink "n".toList "nnnn".toList := hlink _ _ (by decide +kernel)
  have hy : db.parentLink "nnnn".toList "nnn".toList := hlink _ _ (by decide +kernel)
  have hx : db.parentLink "nnn".toList "nn".toList := hlink _ _ (by decide +kernel)
  have hb : db.parentLink "nn".toList "n".toList := hlink _ _ (by decide +kernel)
  exact (((Relation.TransGen.single ha).tail hy).tail hx).tail hb

end Codewith.GoalStore
