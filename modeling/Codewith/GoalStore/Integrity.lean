import Codewith.GoalStore.OperationChanges

/-!
# Keys and references of the goals database

The primary keys, the uniqueness of node keys within a plan and the foreign keys
that the schema declares hold in every reachable state.
-/

namespace Codewith.GoalStore

open Lib

structure Db.Integrity (db : Db) : Prop where
  goals : (db.threadGoals.map (·.threadId)).Nodup
  plans : (db.plans.map (·.planId)).Nodup
  nodes : (db.nodes.map (·.nodeId)).Nodup
  keys : ∀ a ∈ db.nodes, ∀ b ∈ db.nodes, a.planId = b.planId → a.key = b.key → a.nodeId = b.nodeId
  nodePlans : ∀ node ∈ db.nodes, ∃ plan ∈ db.plans, plan.planId = node.planId
  dependencies : ∀ dependency ∈ db.dependencies,
    (∃ node ∈ db.nodes, node.nodeId = dependency.nodeId) ∧
      ∃ node ∈ db.nodes, node.nodeId = dependency.dependsOnNodeId

namespace Db.Integrity

variable {db : Db}

theorem empty : Db.empty.Integrity := by
  constructor <;> simp [Db.empty]

theorem eq_of_nodeId (h : db.Integrity) {a b : ThreadGoalPlanNodeRow} (ha : a ∈ db.nodes)
    (hb : b ∈ db.nodes) (hid : a.nodeId = b.nodeId) : a = b :=
  List.inj_on_of_nodup_map h.nodes ha hb hid

theorem eq_of_key (h : db.Integrity) {a b : ThreadGoalPlanNodeRow} (ha : a ∈ db.nodes)
    (hb : b ∈ db.nodes) (hplan : a.planId = b.planId) (hkey : a.key = b.key) : a = b :=
  h.eq_of_nodeId ha hb (h.keys a ha b hb hplan hkey)

theorem eq_of_planId (h : db.Integrity) {a b : ThreadGoalPlan} (ha : a ∈ db.plans)
    (hb : b ∈ db.plans) (hid : a.planId = b.planId) : a = b :=
  List.inj_on_of_nodup_map h.plans ha hb hid

theorem eq_of_threadId (h : db.Integrity) {a b : ThreadGoal} (ha : a ∈ db.threadGoals)
    (hb : b ∈ db.threadGoals) (hid : a.threadId = b.threadId) : a = b :=
  List.inj_on_of_nodup_map h.goals ha hb hid

/-- A row of the goals is the goal of its thread. -/
theorem threadGoal?_eq (h : db.Integrity) {goal : ThreadGoal} {threadId : ThreadId}
    (hgoal : goal ∈ db.threadGoals) (hthread : goal.threadId = threadId) :
    db.threadGoal? threadId = some goal := by
  apply Table.find?_eq_some_of_unique hgoal (decide_eq_true hthread)
  intro other hother hmatch
  exact h.eq_of_threadId hother hgoal ((of_decide_eq_true hmatch).trans hthread.symm)

theorem findPlan_eq (h : db.Integrity) {plan : ThreadGoalPlan} {planId : Text}
    (hplan : plan ∈ db.plans) (hid : plan.planId = planId) :
    (db.plans.find? fun plan => plan.planId = planId) = some plan := by
  apply Table.find?_eq_some_of_unique hplan (decide_eq_true hid)
  intro other hother hmatch
  exact h.eq_of_planId hother hplan ((of_decide_eq_true hmatch).trans hid.symm)

/-! ## Statements on goals and plans -/

theorem updateThreadGoals (h : db.Integrity) {p : ThreadGoal → Bool} {f : ThreadGoal → ThreadGoal}
    (hf : ∀ goal, p goal = true → (f goal).threadId = goal.threadId) :
    (db.updateThreadGoals p f).Integrity := by
  refine ⟨?_, h.plans, h.nodes, h.keys, h.nodePlans, h.dependencies⟩
  rw [Db.updateThreadGoals_threadGoals, Table.map_updateWhere_eq_iff.2 fun goal _ => hf goal]
  exact h.goals

theorem deleteThreadGoals (h : db.Integrity) (p : ThreadGoal → Bool) :
    (db.deleteThreadGoals p).Integrity := by
  refine ⟨?_, h.plans, h.nodes, h.keys, h.nodePlans, h.dependencies⟩
  exact h.goals.sublist (List.filter_sublist.map _)

theorem upsertThreadGoal (h : db.Integrity) (goal : ThreadGoal) :
    (db.upsertThreadGoal goal).Integrity := by
  unfold Db.upsertThreadGoal
  split
  · apply h.updateThreadGoals
    intro old hold
    simpa using (of_decide_eq_true hold).symm
  · next hnone =>
      refine ⟨?_, h.plans, h.nodes, h.keys, h.nodePlans, h.dependencies⟩
      rw [List.map_append, List.nodup_append]
      refine ⟨h.goals, by simp, ?_⟩
      rintro _ hold _ hnew rfl
      obtain ⟨old, hmem, hid⟩ := List.mem_map.1 hold
      apply hnone
      rw [Db.threadGoal?, List.find?_isSome]
      exact ⟨old, hmem, by simpa [hid] using hnew⟩

theorem updatePlans (h : db.Integrity) {p : ThreadGoalPlan → Bool}
    {f : ThreadGoalPlan → ThreadGoalPlan} (hf : ∀ plan, (f plan).planId = plan.planId) :
    (db.updatePlans p f).Integrity := by
  refine ⟨h.goals, ?_, h.nodes, h.keys, ?_, h.dependencies⟩
  · rw [Db.updatePlans_plans, Table.map_updateWhere_eq_iff.2 fun plan _ _ => hf plan]
    exact h.plans
  · intro node hnode
    obtain ⟨plan, hplan, hid⟩ := h.nodePlans node hnode
    refine ⟨_, List.mem_map.2 ⟨plan, hplan, rfl⟩, ?_⟩
    split
    · rw [hf, hid]
    · exact hid

theorem insertPlan (h : db.Integrity) {plan : ThreadGoalPlan}
    (hfresh : ∀ other ∈ db.plans, other.planId ≠ plan.planId) :
    Db.Integrity { db with plans := db.plans ++ [plan] } := by
  refine ⟨h.goals, ?_, h.nodes, h.keys, ?_, h.dependencies⟩
  · rw [List.map_append, List.nodup_append]
    refine ⟨h.plans, by simp, ?_⟩
    rintro _ hold _ hnew rfl
    obtain ⟨other, hmem, hid⟩ := List.mem_map.1 hold
    exact hfresh other hmem (by simpa [hid] using hnew)
  · intro node hnode
    obtain ⟨other, hmem, hid⟩ := h.nodePlans node hnode
    exact ⟨other, List.mem_append_left _ hmem, hid⟩

/-! ## Statements on nodes and dependencies -/

/-- An update of nodes, given that it leaves the keys distinct. -/
theorem updateNodes_of_keys (h : db.Integrity) {p : ThreadGoalPlanNodeRow → Bool}
    {f : ThreadGoalPlanNodeRow → ThreadGoalPlanNodeRow}
    (hf : ∀ node, (f node).nodeId = node.nodeId ∧ (f node).planId = node.planId)
    (hkeys : ∀ a ∈ (db.updateNodes p f).nodes, ∀ b ∈ (db.updateNodes p f).nodes,
      a.planId = b.planId → a.key = b.key → a.nodeId = b.nodeId) :
    (db.updateNodes p f).Integrity := by
  have hids : (db.updateNodes p f).nodes.map (·.nodeId) = db.nodes.map (·.nodeId) :=
    Table.map_updateWhere_eq_iff.2 fun node _ _ => (hf node).1
  have hexists : ∀ id, (∃ node ∈ db.nodes, node.nodeId = id) →
      ∃ node ∈ (db.updateNodes p f).nodes, node.nodeId = id := by
    rintro id ⟨node, hnode, hid⟩
    have hmem : id ∈ (db.updateNodes p f).nodes.map (·.nodeId) := by
      rw [hids, ← hid]
      exact List.mem_map_of_mem hnode
    exact List.mem_map.1 hmem
  refine ⟨h.goals, h.plans, ?_, hkeys, ?_, ?_⟩
  · rw [hids]
    exact h.nodes
  · intro node hnode
    rcases Table.mem_updateWhere.1 hnode with ⟨old, hold, -, rfl⟩ | ⟨hold, -⟩
    · rw [(hf old).2]
      exact h.nodePlans old hold
    · exact h.nodePlans node hold
  · intro dependency hdependency
    obtain ⟨hnode, hdependsOn⟩ := h.dependencies dependency hdependency
    exact ⟨hexists _ hnode, hexists _ hdependsOn⟩

theorem updateNodes (h : db.Integrity) {p : ThreadGoalPlanNodeRow → Bool}
    {f : ThreadGoalPlanNodeRow → ThreadGoalPlanNodeRow}
    (hf : ∀ node, (f node).nodeId = node.nodeId ∧ (f node).planId = node.planId ∧
      (f node).key = node.key) : (db.updateNodes p f).Integrity := by
  have hrow : ∀ node ∈ (db.updateNodes p f).nodes, ∃ old ∈ db.nodes, node.nodeId = old.nodeId ∧
      node.planId = old.planId ∧ node.key = old.key := by
    intro node hnode
    rcases Table.mem_updateWhere.1 hnode with ⟨old, hold, -, rfl⟩ | ⟨hold, -⟩
    · exact ⟨old, hold, hf old⟩
    · exact ⟨node, hold, rfl, rfl, rfl⟩
  apply h.updateNodes_of_keys fun node => ⟨(hf node).1, (hf node).2.1⟩
  intro a ha b hb hplan hkey
  obtain ⟨a', ha', haId, haPlan, haKey⟩ := hrow a ha
  obtain ⟨b', hb', hbId, hbPlan, hbKey⟩ := hrow b hb
  rw [haId, hbId]
  exact h.keys a' ha' b' hb' (by rw [← haPlan, ← hbPlan, hplan]) (by rw [← haKey, ← hbKey, hkey])

/-- The edited node has a key that no other node of its plan has. -/
theorem editNode (h : db.Integrity) {node : ThreadGoalPlanNodeRow}
    {f : ThreadGoalPlanNodeRow → ThreadGoalPlanNodeRow}
    (hrow : ∃ row ∈ db.nodes, row.nodeId = node.nodeId ∧ row.planId = node.planId)
    (hkey : ∀ other ∈ db.nodes, other.nodeId ≠ node.nodeId → other.planId = node.planId →
      other.key ≠ node.key)
    (hf : ∀ row, (f row).nodeId = row.nodeId ∧ (f row).planId = row.planId ∧
      (f row).key = node.key) :
    (db.updateNodes (fun row => row.nodeId = node.nodeId) f).Integrity := by
  obtain ⟨row, hmem, hid, hplan⟩ := hrow
  -- A row after the edit is the edited node, or an old row with another id.
  have hcases : ∀ a ∈ (db.updateNodes (fun row => row.nodeId = node.nodeId) f).nodes,
      (a.nodeId = node.nodeId ∧ a.planId = node.planId ∧ a.key = node.key) ∨
        (a ∈ db.nodes ∧ a.nodeId ≠ node.nodeId) := by
    intro a ha
    rcases Table.mem_updateWhere.1 ha with ⟨old, hold, hmatch, rfl⟩ | ⟨hold, hmatch⟩
    · have hsame : old.nodeId = node.nodeId := of_decide_eq_true hmatch
      obtain rfl := h.eq_of_nodeId hold hmem (hsame.trans hid.symm)
      exact .inl ⟨(hf old).1.trans hid, (hf old).2.1.trans hplan, (hf old).2.2⟩
    · exact .inr ⟨hold, of_decide_eq_false hmatch⟩
  apply h.updateNodes_of_keys fun row => ⟨(hf row).1, (hf row).2.1⟩
  intro a ha b hb hsamePlan hsameKey
  rcases hcases a ha with ⟨haId, haPlan, haKey⟩ | ⟨haOld, haId⟩ <;>
    rcases hcases b hb with ⟨hbId, hbPlan, hbKey⟩ | ⟨hbOld, hbId⟩
  · rw [haId, hbId]
  · exact absurd (hsameKey.symm.trans haKey) (hkey b hbOld hbId (hsamePlan.symm.trans haPlan))
  · exact absurd (hsameKey.trans hbKey) (hkey a haOld haId (hsamePlan.trans hbPlan))
  · exact h.keys a haOld b hbOld hsamePlan hsameKey

theorem insertNode (h : db.Integrity) {node : ThreadGoalPlanNodeRow} (haccepts : db.Accepts node) :
    Db.Integrity { db with nodes := db.nodes ++ [node] } := by
  refine ⟨h.goals, h.plans, ?_, ?_, ?_, ?_⟩
  · rw [List.map_append, List.nodup_append]
    refine ⟨h.nodes, by simp, ?_⟩
    rintro _ hold _ hnew rfl
    obtain ⟨other, hmem, hid⟩ := List.mem_map.1 hold
    exact haccepts.id other hmem (by simpa [hid] using hnew)
  · intro a ha b hb hplan hkey
    rcases List.mem_append.1 ha with ha | ha <;> rcases List.mem_append.1 hb with hb | hb
    · exact h.keys a ha b hb hplan hkey
    · rw [List.mem_singleton.1 hb] at hplan hkey
      exact absurd hkey (haccepts.key a ha hplan)
    · rw [List.mem_singleton.1 ha] at hplan hkey
      exact absurd hkey.symm (haccepts.key b hb hplan.symm)
    · rw [List.mem_singleton.1 ha, List.mem_singleton.1 hb]
  · intro other hother
    rcases List.mem_append.1 hother with hold | hnew
    · exact h.nodePlans other hold
    · rw [List.mem_singleton.1 hnew]
      exact haccepts.plan
  · intro dependency hdependency
    obtain ⟨⟨a, ha, haId⟩, b, hb, hbId⟩ := h.dependencies dependency hdependency
    exact ⟨⟨a, List.mem_append_left _ ha, haId⟩, b, List.mem_append_left _ hb, hbId⟩

theorem deletePlans (h : db.Integrity) (p : ThreadGoalPlan → Bool) :
    (db.deletePlans p).Integrity := by
  have hkept : ∀ node ∈ db.nodes,
      (db.plans.any fun plan => p plan && plan.planId = node.planId) = false →
        node ∈ (db.deletePlans p).nodes := fun node hnode hstays =>
    Table.mem_deleteWhere.2 ⟨hnode, hstays⟩
  have hmem : ∀ node ∈ (db.deletePlans p).nodes, node ∈ db.nodes := fun node hnode =>
    (Table.mem_deleteWhere.1 hnode).1
  refine ⟨h.goals, ?_, ?_, ?_, ?_, ?_⟩
  · exact h.plans.sublist (List.filter_sublist.map _)
  · exact h.nodes.sublist (List.filter_sublist.map _)
  · intro a ha b hb
    exact h.keys a (hmem a ha) b (hmem b hb)
  · intro node hnode
    obtain ⟨plan, hplan, hid⟩ := h.nodePlans node (hmem node hnode)
    refine ⟨plan, Table.mem_deleteWhere.2 ⟨hplan, ?_⟩, hid⟩
    have hstays := (Table.mem_deleteWhere.1 hnode).2
    rw [List.any_eq_false] at hstays
    simpa [hid] using hstays plan hplan
  · -- A dependency goes with either of its nodes.
    intro dependency hdependency
    obtain ⟨hold, hstays⟩ := Table.mem_deleteWhere.1 hdependency
    rw [Bool.or_eq_false_iff, List.any_eq_false, List.any_eq_false] at hstays
    obtain ⟨⟨a, ha, haId⟩, b, hb, hbId⟩ := h.dependencies dependency hold
    refine ⟨⟨a, hkept a ha ?_, haId⟩, b, hkept b hb ?_, hbId⟩
    · simpa [haId] using hstays.1 a ha
    · simpa [hbId] using hstays.2 b hb

end Db.Integrity

theorem Change.integrity {kind : Kind} {db db' : Db} (h : Change kind db db')
    (hdb : db.Integrity) : db'.Integrity := by
  cases h with
  | audit => exact ⟨hdb.goals, hdb.plans, hdb.nodes, hdb.keys, hdb.nodePlans, hdb.dependencies⟩
  | goal hkeeps => exact hdb.updateThreadGoals fun goal _ => (hkeeps goal).1
  | goalRaw hkeeps => exact hdb.updateThreadGoals fun goal _ => (hkeeps goal).1
  | goalDelete => exact hdb.deleteThreadGoals _
  | plan hkeeps => exact hdb.updatePlans fun plan => (hkeeps plan).1
  | recalculate => exact hdb.updatePlans fun _ => rfl
  | reopen => exact hdb.updatePlans fun _ => rfl
  | planInsert hfresh => exact hdb.insertPlan hfresh
  | planDelete => exact (hdb.deleteThreadGoals _).deletePlans _
  | nodeInsert haccepts => exact hdb.insertNode haccepts
  | nodeConvert hfresh haccepts => exact (hdb.insertPlan hfresh).insertNode haccepts
  | nodeStatus => exact hdb.updateNodes fun _ => ⟨rfl, rfl, rfl⟩
  | nodeRequeue => exact hdb.updateNodes fun _ => ⟨rfl, rfl, rfl⟩
  | nodeCancel => exact hdb.updateNodes fun _ => ⟨rfl, rfl, rfl⟩
  | nodeResume => exact hdb.updateNodes fun _ => ⟨rfl, rfl, rfl⟩
  | nodeSync => exact hdb.updateNodes fun _ => ⟨rfl, rfl, rfl⟩
  | nodeRecord => exact hdb.updateNodes fun _ => ⟨rfl, rfl, rfl⟩
  | nodeEdit hrow hkey => exact hdb.editNode hrow hkey fun _ => ⟨rfl, rfl, rfl⟩
  | nodeShift => exact hdb.updateNodes fun _ => ⟨rfl, rfl, rfl⟩
  | nodeComplete =>
      apply (hdb.updateThreadGoals _).updateNodes
      · intro node
        exact ⟨rfl, rfl, rfl⟩
      · intro goal _
        rfl
  | nodeUndo => exact (hdb.deleteThreadGoals _).updateNodes fun _ => ⟨rfl, rfl, rfl⟩
  | nodeNest => exact hdb.updateNodes fun _ => ⟨rfl, rfl, rfl⟩
  | dependency hnodes =>
      refine ⟨hdb.goals, hdb.plans, hdb.nodes, hdb.keys, hdb.nodePlans, ?_⟩
      intro dependency hdependency
      rcases hnodes dependency hdependency with hold | hnew
      · exact hdb.dependencies dependency hold
      · exact hnew
  | projection =>
      exact ⟨hdb.goals, hdb.plans, hdb.nodes, hdb.keys, hdb.nodePlans, hdb.dependencies⟩

theorem Put.integrity {goalId : Text} {db db' : Db} (h : Put goalId db db')
    (hdb : db.Integrity) : db'.Integrity := by
  cases h with
  | goal => exact hdb.upsertThreadGoal _
  | @node threadId =>
      have hdropped : (db.deleteBlockerAudits fun audit => audit.threadId = threadId).Integrity :=
        ⟨hdb.goals, hdb.plans, hdb.nodes, hdb.keys, hdb.nodePlans, hdb.dependencies⟩
      exact (hdropped.upsertThreadGoal _).updateNodes fun _ => ⟨rfl, rfl, rfl⟩

theorem GoalOp.step_integrity {redactStateString : Text → Text} {op : GoalOp} {db : Db}
    (hdb : db.Integrity) : (op.step redactStateString db).Integrity :=
  GoalOp.step_invariant (fun _ _ _ _ hchange => hchange.integrity)
    (fun _ _ _ hput => hput.integrity) hdb

theorem integrity_of_reaches {redactStateString : Text → Text} {guard : GoalOp → Db → Prop}
    {db : Db} (h : Reaches (GoalOp.step redactStateString) guard Db.empty db) : db.Integrity := by
  apply h.invariant Db.Integrity.empty
  intro op mid _ hmid
  exact op.step_integrity hmid

end Codewith.GoalStore
