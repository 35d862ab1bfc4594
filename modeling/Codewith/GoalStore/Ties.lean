import Codewith.GoalStore.PauseResume
import Codewith.GoalStore.Integrity

/-!
# Active nodes and the goals of their threads

An active node points to the current goal of the thread it is assigned to, so a
thread has at most one active node.  The tie rests on every goal having at most
one node that points to it, which holds as long as a goal is not converted into
a plan while a node of another plan still points to it.
-/

namespace Codewith.GoalStore

open Lib

theorem mem_upsertThreadGoal {db : Db} {goal other : ThreadGoal} :
    other ∈ (db.upsertThreadGoal goal).threadGoals ↔
      other = goal ∨ (other ∈ db.threadGoals ∧ other.threadId ≠ goal.threadId) := by
  unfold Db.upsertThreadGoal
  split
  · next hsome =>
      rw [Db.updateThreadGoals_threadGoals, Table.mem_updateWhere]
      constructor
      · rintro (⟨old, -, -, rfl⟩ | ⟨hold, hthread⟩)
        · exact .inl rfl
        · exact .inr ⟨hold, of_decide_eq_false hthread⟩
      · rintro (rfl | ⟨hold, hthread⟩)
        · rw [Db.threadGoal?, List.find?_isSome] at hsome
          obtain ⟨old, hold, hthread⟩ := hsome
          exact .inl ⟨old, hold, hthread, rfl⟩
        · exact .inr ⟨hold, by simpa using hthread⟩
  · next hnone =>
      rw [List.mem_append, List.mem_singleton]
      constructor
      · rintro (hold | rfl)
        · refine .inr ⟨hold, ?_⟩
          intro hthread
          apply hnone
          rw [Db.threadGoal?, List.find?_isSome]
          exact ⟨other, hold, by simpa using hthread⟩
        · exact .inl rfl
      · rintro (rfl | ⟨hold, -⟩)
        · exact .inr rfl
        · exact .inl hold

/-- The identifier belongs to no goal and no node points to it. -/
structure Db.Unused (db : Db) (goalId : Text) : Prop where
  goals : ∀ goal ∈ db.threadGoals, goal.goalId ≠ goalId
  nodes : ∀ node ∈ db.nodes, node.projectedGoalId ≠ some goalId

structure Db.Tied (db : Db) : Prop where
  integrity : db.Integrity
  /-- A goal has one thread. -/
  goalIds : ∀ a ∈ db.threadGoals, ∀ b ∈ db.threadGoals, a.goalId = b.goalId → a = b
  /-- A node points to no goal of another thread. -/
  owners : ∀ node ∈ db.nodes, ∀ goal ∈ db.threadGoals, node.projectedGoalId = some goal.goalId →
    goal.threadId = node.assignedThreadId
  /-- One node points to a goal. -/
  single : ∀ a ∈ db.nodes, ∀ b ∈ db.nodes, ∀ goalId, a.projectedGoalId = some goalId →
    b.projectedGoalId = some goalId → a.nodeId = b.nodeId
  /-- An active node points to the goal of its thread. -/
  active : ∀ node ∈ db.nodes, node.status = .active → ∃ goal ∈ db.threadGoals,
    goal.threadId = node.assignedThreadId ∧ node.projectedGoalId = some goal.goalId

namespace Db.Tied

variable {db : Db}

theorem empty : Db.empty.Tied := by
  refine ⟨.empty, ?_, ?_, ?_, ?_⟩ <;> simp [Db.empty]

/-- An update of goals that leaves them their identity. -/
theorem updateThreadGoals (h : db.Tied) {p : ThreadGoal → Bool} {f : ThreadGoal → ThreadGoal}
    (hf : ∀ goal, (f goal).threadId = goal.threadId ∧ (f goal).goalId = goal.goalId) :
    (db.updateThreadGoals p f).Tied := by
  have hrow : ∀ goal ∈ (db.updateThreadGoals p f).threadGoals, ∃ old ∈ db.threadGoals,
      goal.threadId = old.threadId ∧ goal.goalId = old.goalId := by
    intro goal hgoal
    rcases Table.mem_updateWhere.1 hgoal with ⟨old, hold, -, rfl⟩ | ⟨hold, -⟩
    · exact ⟨old, hold, hf old⟩
    · exact ⟨goal, hold, rfl, rfl⟩
  have hintegrity : (db.updateThreadGoals p f).Integrity :=
    h.integrity.updateThreadGoals fun goal _ => (hf goal).1
  refine ⟨hintegrity, ?_, ?_, h.single, ?_⟩
  · intro a ha b hb hid
    obtain ⟨a', ha', haThread, haId⟩ := hrow a ha
    obtain ⟨b', hb', hbThread, hbId⟩ := hrow b hb
    have hsame := h.goalIds a' ha' b' hb' (by rw [← haId, ← hbId, hid])
    apply hintegrity.eq_of_threadId ha hb
    rw [haThread, hbThread, hsame]
  · intro node hnode goal hgoal hprojected
    obtain ⟨old, hold, hthread, hid⟩ := hrow goal hgoal
    rw [hthread]
    exact h.owners node hnode old hold (hprojected.trans (by rw [hid]))
  · intro node hnode hactive
    obtain ⟨goal, hgoal, hthread, hprojected⟩ := h.active node hnode hactive
    refine ⟨_, List.mem_map.2 ⟨goal, hgoal, rfl⟩, ?_⟩
    split
    · rw [(hf goal).1, (hf goal).2]
      exact ⟨hthread, hprojected⟩
    · exact ⟨hthread, hprojected⟩

/-- An update of nodes that moves none to another goal, and activates only nodes
whose goal is current. -/
theorem updateNodes (h : db.Tied) {p : ThreadGoalPlanNodeRow → Bool}
    {f : ThreadGoalPlanNodeRow → ThreadGoalPlanNodeRow}
    (hintegrity : (db.updateNodes p f).Integrity)
    (hf : ∀ node, (f node).nodeId = node.nodeId ∧
      (f node).assignedThreadId = node.assignedThreadId ∧
      ((f node).projectedGoalId = node.projectedGoalId ∨ (f node).projectedGoalId = none))
    (hactive : ∀ node ∈ db.nodes, p node = true → (f node).status = .active →
      ∃ goal ∈ db.threadGoals, goal.threadId = node.assignedThreadId ∧
        (f node).projectedGoalId = some goal.goalId) :
    (db.updateNodes p f).Tied := by
  have hrow : ∀ node ∈ (db.updateNodes p f).nodes, ∃ old ∈ db.nodes, node.nodeId = old.nodeId ∧
      node.assignedThreadId = old.assignedThreadId ∧
        (node.projectedGoalId = old.projectedGoalId ∨ node.projectedGoalId = none) := by
    intro node hnode
    rcases Table.mem_updateWhere.1 hnode with ⟨old, hold, -, rfl⟩ | ⟨hold, -⟩
    · exact ⟨old, hold, hf old⟩
    · exact ⟨node, hold, rfl, rfl, .inl rfl⟩
  have hold : ∀ node ∈ (db.updateNodes p f).nodes, ∀ goalId, node.projectedGoalId = some goalId →
      ∃ old ∈ db.nodes, node.nodeId = old.nodeId ∧
        node.assignedThreadId = old.assignedThreadId ∧ old.projectedGoalId = some goalId := by
    intro node hnode goalId hgoal
    obtain ⟨old, hmem, hid, hassigned, hsame | hnone⟩ := hrow node hnode
    · exact ⟨old, hmem, hid, hassigned, hsame.symm.trans hgoal⟩
    · rw [hnone] at hgoal
      cases hgoal
  refine ⟨hintegrity, h.goalIds, ?_, ?_, ?_⟩
  · intro node hnode goal hgoal hprojected
    obtain ⟨old, hmem, -, hassigned, hsome⟩ := hold node hnode _ hprojected
    rw [hassigned]
    exact h.owners old hmem goal hgoal hsome
  · intro a ha b hb goalId haGoal hbGoal
    obtain ⟨a', ha', haId, -, haGoal'⟩ := hold a ha goalId haGoal
    obtain ⟨b', hb', hbId, -, hbGoal'⟩ := hold b hb goalId hbGoal
    rw [haId, hbId]
    exact h.single a' ha' b' hb' goalId haGoal' hbGoal'
  · intro node hnode hstatus
    rcases Table.mem_updateWhere.1 hnode with ⟨old, hmem, hmatch, rfl⟩ | ⟨hmem, -⟩
    · rw [(hf old).2.1]
      exact hactive old hmem hmatch hstatus
    · exact h.active node hmem hstatus

/-- The goals that go have no active node. -/
theorem deleteThreadGoals (h : db.Tied) {p : ThreadGoal → Bool}
    (hidle : ∀ goal ∈ db.threadGoals, p goal = true → ∀ node ∈ db.nodes, node.status = .active →
      goal.threadId = node.assignedThreadId → node.projectedGoalId ≠ some goal.goalId) :
    (db.deleteThreadGoals p).Tied := by
  have hmem : ∀ goal ∈ (db.deleteThreadGoals p).threadGoals, goal ∈ db.threadGoals :=
    fun goal hgoal => (Table.mem_deleteWhere.1 hgoal).1
  refine ⟨h.integrity.deleteThreadGoals p, ?_, ?_, h.single, ?_⟩
  · intro a ha b hb
    exact h.goalIds a (hmem a ha) b (hmem b hb)
  · intro node hnode goal hgoal
    exact h.owners node hnode goal (hmem goal hgoal)
  · intro node hnode hactive
    obtain ⟨goal, hgoal, hthread, hprojected⟩ := h.active node hnode hactive
    refine ⟨goal, Table.mem_deleteWhere.2 ⟨hgoal, ?_⟩, hthread, hprojected⟩
    cases hp : p goal with
    | false => rfl
    | true => exact absurd hprojected (hidle goal hgoal hp node hnode hactive hthread)

/-- A thread without an active node gets a new goal. -/
theorem upsertThreadGoal (h : db.Tied) {goal : ThreadGoal} (hunused : db.Unused goal.goalId)
    (hidle : ∀ node ∈ db.nodes, node.assignedThreadId = goal.threadId → node.status ≠ .active) :
    (db.upsertThreadGoal goal).Tied := by
  refine ⟨h.integrity.upsertThreadGoal goal, ?_, ?_, ?_, ?_⟩
  · intro a ha b hb hid
    rcases mem_upsertThreadGoal.1 ha with rfl | ⟨haOld, -⟩ <;>
      rcases mem_upsertThreadGoal.1 hb with rfl | ⟨hbOld, -⟩
    · rfl
    · exact absurd hid.symm (hunused.goals b hbOld)
    · exact absurd hid (hunused.goals a haOld)
    · exact h.goalIds a haOld b hbOld hid
  · intro node hnode other hother hprojected
    rw [Db.upsertThreadGoal_nodes] at hnode
    rcases mem_upsertThreadGoal.1 hother with rfl | ⟨hother, -⟩
    · exact absurd hprojected (hunused.nodes node hnode)
    · exact h.owners node hnode other hother hprojected
  · rw [Db.upsertThreadGoal_nodes]
    exact h.single
  · intro node hnode hactive
    rw [Db.upsertThreadGoal_nodes] at hnode
    obtain ⟨other, hother, hthread, hprojected⟩ := h.active node hnode hactive
    refine ⟨other, mem_upsertThreadGoal.2 (.inr ⟨hother, ?_⟩), hthread, hprojected⟩
    intro hsame
    exact hidle node hnode (hthread.symm.trans hsame) hactive

/-- Plans go with the goals of their nodes. -/
theorem withoutPlansOf (h : db.Tied) (threadId : ThreadId) : (db.withoutPlansOf threadId).Tied := by
  have hnodes : ∀ node ∈ (db.withoutPlansOf threadId).nodes, node ∈ db.nodes ∧
      ∀ plan ∈ db.plans, plan.threadId = threadId → plan.planId ≠ node.planId := by
    intro node hnode
    obtain ⟨hmem, hstays⟩ := Table.mem_deleteWhere.1 hnode
    rw [List.any_eq_false] at hstays
    refine ⟨hmem, ?_⟩
    intro plan hplan hthread hid
    exact hstays plan hplan (by simp [hthread, hid])
  have hgoals : ∀ goal ∈ (db.withoutPlansOf threadId).threadGoals, goal ∈ db.threadGoals :=
    fun goal hgoal => (Table.mem_deleteWhere.1 hgoal).1
  refine ⟨(h.integrity.deleteThreadGoals _).deletePlans _, ?_, ?_, ?_, ?_⟩
  · intro a ha b hb
    exact h.goalIds a (hgoals a ha) b (hgoals b hb)
  · intro node hnode goal hgoal
    exact h.owners node (hnodes node hnode).1 goal (hgoals goal hgoal)
  · intro a ha b hb
    exact h.single a (hnodes a ha).1 b (hnodes b hb).1
  · intro node hnode hactive
    obtain ⟨hmem, hkept⟩ := hnodes node hnode
    obtain ⟨goal, hgoal, hthread, hprojected⟩ := h.active node hmem hactive
    refine ⟨goal, Table.mem_deleteWhere.2 ⟨hgoal, ?_⟩, hthread, hprojected⟩
    -- Another node that points to the goal would be this one.
    rw [List.any_eq_false]
    intro other hother hmatch
    simp only [Bool.and_eq_true, List.any_eq_true, decide_eq_true_eq] at hmatch
    obtain ⟨⟨-, hprojected'⟩, plan, hplan, hid, howner⟩ := hmatch
    have hsame := h.integrity.eq_of_nodeId hother hmem
      (h.single other hother node hmem _ hprojected' hprojected)
    subst hsame
    exact hkept plan hplan howner hid

theorem insertPendingNode (h : db.Tied) {node : ThreadGoalPlanNodeRow}
    (hintegrity : Db.Integrity { db with nodes := db.nodes ++ [node] })
    (hstatus : node.status = .pending) (hprojected : node.projectedGoalId = none) :
    Db.Tied { db with nodes := db.nodes ++ [node] } := by
  have hold : ∀ other ∈ db.nodes ++ [node], other.projectedGoalId ≠ none ∨ other.status = .active →
      other ∈ db.nodes := by
    intro other hother hrelevant
    rcases List.mem_append.1 hother with hmem | hnew
    · exact hmem
    · rw [List.mem_singleton.1 hnew, hprojected, hstatus] at hrelevant
      simp at hrelevant
  refine ⟨hintegrity, h.goalIds, ?_, ?_, ?_⟩
  · intro other hother goal hgoal hsome
    exact h.owners other (hold other hother (.inl (by simp [hsome]))) goal hgoal hsome
  · intro a ha b hb goalId haGoal hbGoal
    exact h.single a (hold a ha (.inl (by simp [haGoal]))) b (hold b hb (.inl (by simp [hbGoal])))
      goalId haGoal hbGoal
  · intro other hother hactive
    exact h.active other (hold other hother (.inr hactive)) hactive

/-- The current goal gets a node of its own. -/
theorem insertGoalNode (h : db.Tied) {plan : ThreadGoalPlan} {node : ThreadGoalPlanNodeRow}
    {goal : ThreadGoal}
    (hintegrity : Db.Integrity
      { db with plans := db.plans ++ [plan], nodes := db.nodes ++ [node] })
    (hgoal : db.threadGoal? node.assignedThreadId = some goal)
    (hprojected : node.projectedGoalId = some goal.goalId)
    (hfree : ∀ other ∈ db.nodes, other.projectedGoalId ≠ some goal.goalId) :
    Db.Tied { db with plans := db.plans ++ [plan], nodes := db.nodes ++ [node] } := by
  have hmem := List.mem_of_find?_eq_some hgoal
  have hthread : goal.threadId = node.assignedThreadId := by simpa using List.find?_some hgoal
  refine ⟨hintegrity, h.goalIds, ?_, ?_, ?_⟩
  · intro other hother goal' hgoal' hsome
    rcases List.mem_append.1 hother with hold | hnew
    · exact h.owners other hold goal' hgoal' hsome
    · rw [List.mem_singleton.1 hnew] at hsome ⊢
      rw [← h.goalIds goal hmem goal' hgoal' (Option.some.inj (hprojected.symm.trans hsome))]
      exact hthread
  · intro a ha b hb goalId haGoal hbGoal
    rcases List.mem_append.1 ha with haOld | haNew <;>
      rcases List.mem_append.1 hb with hbOld | hbNew
    · exact h.single a haOld b hbOld goalId haGoal hbGoal
    · rw [List.mem_singleton.1 hbNew, hprojected] at hbGoal
      exact absurd (haGoal.trans hbGoal.symm) (hfree a haOld)
    · rw [List.mem_singleton.1 haNew, hprojected] at haGoal
      exact absurd (hbGoal.trans haGoal.symm) (hfree b hbOld)
    · rw [List.mem_singleton.1 haNew, List.mem_singleton.1 hbNew]
  · intro other hother hactive
    rcases List.mem_append.1 hother with hold | hnew
    · exact h.active other hold hactive
    · rw [List.mem_singleton.1 hnew]
      exact ⟨goal, hmem, hthread, hprojected⟩

end Db.Tied

/-! ## Changes -/

/-- Without its goal's nodes active, a thread has no active node at all. -/
theorem Db.Released.idle {db : Db} {threadId : ThreadId} (h : db.Released threadId)
    (hdb : db.Tied) : ∀ node ∈ db.nodes, node.assignedThreadId = threadId →
      node.status ≠ .active := by
  intro node hnode hassigned hactive
  obtain ⟨goal, hgoal, hthread, hprojected⟩ := hdb.active node hnode hactive
  have hcurrent := hdb.integrity.threadGoal?_eq hgoal (hthread.trans hassigned)
  exact h goal hcurrent node hnode hassigned hprojected hactive

theorem Change.tied {kind : Kind} {db db' : Db} (hkind : kind ≠ .nodeConvert)
    (h : Change kind db db') (hdb : db.Tied) : db'.Tied := by
  have hintegrity := h.integrity hdb.integrity
  cases h with
  | audit => exact ⟨hintegrity, hdb.goalIds, hdb.owners, hdb.single, hdb.active⟩
  | goal hkeeps =>
      exact hdb.updateThreadGoals fun goal => ⟨(hkeeps goal).1, (hkeeps goal).2.1⟩
  | goalRaw hkeeps =>
      exact hdb.updateThreadGoals fun goal => ⟨(hkeeps goal).1, (hkeeps goal).2.1⟩
  | goalDelete hreleased =>
      apply hdb.deleteThreadGoals
      intro goal _ hmatch node hnode hactive hthread
      rw [decide_eq_true_eq] at hmatch
      exact absurd hactive (hreleased.idle hdb node hnode (hthread.symm.trans hmatch))
  | plan => exact ⟨hintegrity, hdb.goalIds, hdb.owners, hdb.single, hdb.active⟩
  | recalculate => exact ⟨hintegrity, hdb.goalIds, hdb.owners, hdb.single, hdb.active⟩
  | reopen => exact ⟨hintegrity, hdb.goalIds, hdb.owners, hdb.single, hdb.active⟩
  | planInsert => exact ⟨hintegrity, hdb.goalIds, hdb.owners, hdb.single, hdb.active⟩
  | planDelete => exact hdb.withoutPlansOf _
  | nodeInsert _ hstatus _ hprojected => exact hdb.insertPendingNode hintegrity hstatus hprojected
  | nodeConvert => exact absurd rfl hkind
  | nodeStatus hstatus =>
      apply hdb.updateNodes hintegrity fun _ => ⟨rfl, rfl, .inl rfl⟩
      intro node _ _ hactive
      exact absurd hactive hstatus
  | nodeRequeue =>
      apply hdb.updateNodes hintegrity fun _ => ⟨rfl, rfl, .inl rfl⟩
      intro node _ _ hactive
      cases hactive
  | nodeCancel =>
      apply hdb.updateNodes hintegrity fun _ => ⟨rfl, rfl, .inl rfl⟩
      intro node _ _ hactive
      cases hactive
  | nodeResume =>
      apply hdb.updateNodes hintegrity fun _ => ⟨rfl, rfl, .inl rfl⟩
      intro node hnode hmatch _
      simp only [Bool.and_eq_true, List.any_eq_true, decide_eq_true_eq] at hmatch
      obtain ⟨-, goal, hgoal, hprojected, -⟩ := hmatch
      exact ⟨goal, hgoal, hdb.owners node hnode goal hgoal hprojected, hprojected⟩
  | nodeSync threadId goal =>
      apply hdb.updateNodes hintegrity fun _ => ⟨rfl, rfl, .inl rfl⟩
      intro node _ hmatch _
      simp only [Db.syncMatches, Bool.and_eq_true, List.any_eq_true, decide_eq_true_eq] at hmatch
      obtain ⟨-, current, hcurrent, hthread, hprojected⟩ := hmatch
      exact ⟨current, hcurrent, hthread, hprojected⟩
  | nodeRecord hstatus =>
      apply hdb.updateNodes hintegrity fun _ => ⟨rfl, rfl, .inl rfl⟩
      intro node _ _ hactive
      exact absurd hactive hstatus
  | nodeEdit =>
      apply hdb.updateNodes hintegrity fun _ => ⟨rfl, rfl, .inl rfl⟩
      intro node hnode _ hactive
      exact hdb.active node hnode hactive
  | nodeShift =>
      apply hdb.updateNodes hintegrity fun _ => ⟨rfl, rfl, .inl rfl⟩
      intro node hnode _ hactive
      exact hdb.active node hnode hactive
  | nodeComplete =>
      apply Db.Tied.updateNodes _ hintegrity fun _ => ⟨rfl, rfl, .inl rfl⟩
      · intro node _ _ hactive
        cases hactive
      · exact hdb.updateThreadGoals fun _ => ⟨rfl, rfl⟩
  | nodeUndo hnode hstatus =>
      apply Db.Tied.updateNodes _ hintegrity fun _ => ⟨rfl, rfl, .inr rfl⟩
      · intro node _ _ hactive
        cases hactive
      · -- The node that points to the deleted goal is complete.
        apply hdb.deleteThreadGoals
        intro goal _ hmatch other hother hactive hthread hprojected
        simp only [ThreadGoalPlanNodeRow.isProjectedTo, Bool.and_eq_true, decide_eq_true_eq]
          at hmatch
        have hid := hdb.single other hother _ hnode _ hprojected hmatch.2
        rw [hdb.integrity.eq_of_nodeId hother hnode hid, hstatus] at hactive
        cases hactive
  | nodeNest =>
      apply hdb.updateNodes hintegrity fun _ => ⟨rfl, rfl, .inl rfl⟩
      intro node hnode _ hactive
      exact hdb.active node hnode hactive
  | dependency => exact ⟨hintegrity, hdb.goalIds, hdb.owners, hdb.single, hdb.active⟩
  | projection => exact ⟨hintegrity, hdb.goalIds, hdb.owners, hdb.single, hdb.active⟩

theorem Db.Unused.updateNodes {db : Db} {goalId : Text} (h : db.Unused goalId)
    {p : ThreadGoalPlanNodeRow → Bool} {f : ThreadGoalPlanNodeRow → ThreadGoalPlanNodeRow}
    (hf : ∀ node, (f node).projectedGoalId = node.projectedGoalId ∨
      (f node).projectedGoalId = none) : (db.updateNodes p f).Unused goalId := by
  refine ⟨h.goals, Table.forall_mem_updateWhere h.nodes ?_⟩
  intro node _ _ hnode
  rcases hf node with hsame | hnone
  · rw [hsame]
    exact hnode
  · simp [hnone]

theorem Db.Unused.updateThreadGoals {db : Db} {goalId : Text} (h : db.Unused goalId)
    {p : ThreadGoal → Bool} {f : ThreadGoal → ThreadGoal}
    (hf : ∀ goal, (f goal).goalId = goal.goalId) : (db.updateThreadGoals p f).Unused goalId := by
  refine ⟨Table.forall_mem_updateWhere h.goals ?_, h.nodes⟩
  intro goal _ _ hgoal
  rw [hf]
  exact hgoal

/-- Only a new goal brings a new identifier. -/
theorem Change.unused {kind : Kind} {db db' : Db} {goalId : Text} (h : Change kind db db')
    (hdb : db.Unused goalId) : db'.Unused goalId := by
  cases h with
  | goal hkeeps => exact hdb.updateThreadGoals fun goal => (hkeeps goal).2.1
  | goalRaw hkeeps => exact hdb.updateThreadGoals fun goal => (hkeeps goal).2.1
  | goalDelete =>
      exact ⟨fun goal hgoal => hdb.goals goal (Table.mem_deleteWhere.1 hgoal).1, hdb.nodes⟩
  | planDelete =>
      exact ⟨fun goal hgoal => hdb.goals goal (Table.mem_deleteWhere.1 hgoal).1,
        fun node hnode => hdb.nodes node (Table.mem_deleteWhere.1 hnode).1⟩
  | nodeInsert _ _ _ hprojected =>
      refine ⟨hdb.goals, ?_⟩
      intro node hnode
      rcases List.mem_append.1 hnode with hold | hnew
      · exact hdb.nodes node hold
      · rw [List.mem_singleton.1 hnew, hprojected]
        simp
  | nodeConvert _ _ _ hgoal hprojected =>
      refine ⟨hdb.goals, ?_⟩
      intro node hnode
      rcases List.mem_append.1 hnode with hold | hnew
      · exact hdb.nodes node hold
      · rw [List.mem_singleton.1 hnew, hprojected]
        simpa using hdb.goals _ (List.mem_of_find?_eq_some hgoal)
  | nodeStatus => exact hdb.updateNodes fun _ => .inl rfl
  | nodeRequeue => exact hdb.updateNodes fun _ => .inl rfl
  | nodeCancel => exact hdb.updateNodes fun _ => .inl rfl
  | nodeResume => exact hdb.updateNodes fun _ => .inl rfl
  | nodeSync => exact hdb.updateNodes fun _ => .inl rfl
  | nodeRecord => exact hdb.updateNodes fun _ => .inl rfl
  | nodeEdit => exact hdb.updateNodes fun _ => .inl rfl
  | nodeShift => exact hdb.updateNodes fun _ => .inl rfl
  | nodeComplete =>
      apply Db.Unused.updateNodes
      · exact hdb.updateThreadGoals fun _ => rfl
      · intro row
        exact .inl rfl
  | nodeUndo =>
      apply Db.Unused.updateNodes _ fun _ => .inr rfl
      exact ⟨fun goal hgoal => hdb.goals goal (Table.mem_deleteWhere.1 hgoal).1, hdb.nodes⟩
  | nodeNest => exact hdb.updateNodes fun _ => .inl rfl
  | _ => exact ⟨hdb.goals, hdb.nodes⟩

/-- The row that an activation writes is the one it has found. -/
theorem Db.CanActivate.matches_iff {db : Db} (hdb : db.Integrity) {threadId : ThreadId}
    {nodeId : Text} {plan : ThreadGoalPlan} {node : ThreadGoalPlanNodeRow}
    (h : db.CanActivate threadId nodeId plan node) {row : ThreadGoalPlanNodeRow}
    (hrow : row ∈ db.nodes) :
    (row.nodeId = nodeId && row.status.activatable) = true ↔ row = node := by
  have hnode := List.find?_some h.found
  have hmem := List.mem_of_find?_eq_some h.found
  simp only [Bool.and_eq_true, decide_eq_true_eq] at hnode ⊢
  constructor
  · rintro ⟨hid, -⟩
    exact hdb.eq_of_nodeId hrow hmem (hid.trans hnode.1.1.symm)
  · rintro rfl
    exact ⟨hnode.1.1, hnode.2⟩

/-- A node of the thread is made to point to the current goal, which no other node
points to. -/
theorem Db.Tied.pointNode {db : Db} (h : db.Tied) {goal : ThreadGoal}
    (hgoal : goal ∈ db.threadGoals)
    (hfree : ∀ node ∈ db.nodes, node.projectedGoalId ≠ some goal.goalId)
    {node : ThreadGoalPlanNodeRow} (hassigned : node.assignedThreadId = goal.threadId)
    {p : ThreadGoalPlanNodeRow → Bool} {nowMs : Int}
    (hp : ∀ row ∈ db.nodes, p row = true → row = node) :
    (db.updateNodes p fun row => row.activatedBy goal nowMs).Tied := by
  have hrow : ∀ row ∈ (db.updateNodes p fun row => row.activatedBy goal nowMs).nodes,
      row = node.activatedBy goal nowMs ∨ row ∈ db.nodes := by
    intro row hrow
    rcases Table.mem_updateWhere.1 hrow with ⟨old, hold, hmatch, rfl⟩ | ⟨hold, -⟩
    · rw [hp old hold hmatch]
      exact .inl rfl
    · exact .inr hold
  refine ⟨h.integrity.updateNodes fun _ => ⟨rfl, rfl, rfl⟩, h.goalIds, ?_, ?_, ?_⟩
  · intro row hmem other hother hprojected
    rcases hrow row hmem with rfl | hold
    · have hsame := h.goalIds goal hgoal other hother (Option.some.inj hprojected)
      rw [← hsame]
      exact hassigned.symm
    · exact h.owners row hold other hother hprojected
  · intro a ha b hb goalId haGoal hbGoal
    rcases hrow a ha with rfl | haOld <;> rcases hrow b hb with rfl | hbOld
    · rfl
    · exact absurd (hbGoal.trans haGoal.symm) (hfree b hbOld)
    · exact absurd (haGoal.trans hbGoal.symm) (hfree a haOld)
    · exact h.single a haOld b hbOld goalId haGoal hbGoal
  · intro row hmem hactive
    rcases hrow row hmem with rfl | hold
    · exact ⟨goal, hgoal, hassigned.symm, rfl⟩
    · exact h.active row hold hactive

theorem Put.tied {goalId : Text} {db db' : Db} (h : Put goalId db db') (hunused : db.Unused goalId)
    (hdb : db.Tied) : db'.Tied := by
  cases h with
  | goal hid _ _ hreleased =>
      exact hdb.upsertThreadGoal (by rw [hid]; exact hunused) (hreleased.idle hdb)
  | @node threadId nodeId plan node redactStateString nowMs hcan =>
      have haudits : (db.deleteBlockerAudits fun audit => audit.threadId = threadId).Tied :=
        ⟨⟨hdb.integrity.goals, hdb.integrity.plans, hdb.integrity.nodes, hdb.integrity.keys,
          hdb.integrity.nodePlans, hdb.integrity.dependencies⟩, hdb.goalIds, hdb.owners, hdb.single,
          hdb.active⟩
      have hassigned : node.assignedThreadId = threadId := by
        have hfound := List.find?_some hcan.found
        simp only [Bool.and_eq_true, decide_eq_true_eq] at hfound
        exact hfound.1.2
      let goal := activatedGoal redactStateString threadId goalId nowMs plan node db
      have hput := haudits.upsertThreadGoal
        (show Db.Unused _ goal.goalId from ⟨hunused.goals, hunused.nodes⟩) hcan.idle
      apply hput.pointNode (mem_upsertThreadGoal.2 (.inl rfl)) _ hassigned
      · intro row hrow hmatch
        rw [Db.upsertThreadGoal_nodes] at hrow
        exact (hcan.matches_iff hdb.integrity hrow).1 hmatch
      · rw [Db.upsertThreadGoal_nodes]
        exact hunused.nodes

/-! ## Operations and runs -/

theorem Changes.tied {kinds : List Kind} {db db' : Db} (hkinds : .nodeConvert ∉ kinds)
    (h : Changes kinds db db') (hdb : db.Tied) : db'.Tied := by
  refine h.invariant (fun kind hkind _ _ hchange => hchange.tied ?_) hdb
  rintro rfl
  exact hkinds hkind

theorem Progress.tied {kinds : List Kind} {goalId : Option Text} {db db' : Db}
    (hkinds : .nodeConvert ∉ kinds) (hfresh : ∀ id, goalId = some id → db.Unused id)
    (h : Progress kinds goalId db db') (hdb : db.Tied) : db'.Tied := by
  obtain ⟨before, after, hbefore, hput, hafter⟩ := h
  apply hafter.tied hkinds
  have htied := hbefore.tied hkinds hdb
  rcases hput with rfl | ⟨id, hid, hput⟩
  · exact htied
  · apply hput.tied _ htied
    exact hbefore.invariant (fun _ _ _ _ hchange => hchange.unused) (hfresh id hid)

/-- The operation draws a new identifier, and converts no goal that a node already
points to. -/
structure GoalOp.TiesFreely (op : GoalOp) (db : Db) : Prop where
  fresh : ∀ id, op.newGoalId = some id → db.Unused id
  converts : ∀ params ids nowMs, op = .addThreadGoalToPlan params ids nowMs → ∀ goal,
    db.converts params.threadId goal = true →
      ∀ node ∈ db.nodes, node.projectedGoalId ≠ some goal.goalId

variable {redactStateString : Text → Text} {db : Db}

theorem addThreadGoalToPlan_tied {params : ThreadGoalPlanAddParams} {ids : NewIds} {nowMs : Int}
    {outcome : ThreadGoalPlanAddOutcome} {db' : Db}
    (hguard : GoalOp.TiesFreely (.addThreadGoalToPlan params ids nowMs) db) (hdb : db.Tied)
    (h : addThreadGoalToPlan redactStateString params ids nowMs db = (.ok outcome, db')) :
    db'.Tied := by
  rcases progress_addThreadGoalToPlan h with hadd | ⟨goal, hconverts, hconvert, hrest⟩
  · exact hadd.tied (by simp [appendKinds]) hguard.fresh hdb
  · apply hrest.tied (by simp [appendKinds])
    exact hdb.insertGoalNode (hconvert.integrity hdb.integrity)
      (threadGoal?_of_converts hconverts) rfl
      (hguard.converts _ _ _ rfl goal hconverts)

theorem GoalOp.step_tied {op : GoalOp} (hguard : op.TiesFreely db) (hdb : db.Tied) :
    (op.step redactStateString db).Tied := by
  rcases GoalOp.step_cases redactStateString op db with hrun | hsame
  · by_cases hconvert : Kind.nodeConvert ∈ op.kinds
    · cases op <;> simp only [kinds, List.mem_cons, reduceCtorEq, List.not_mem_nil, or_self,
        or_false] at hconvert
      obtain ⟨outcome, hrun⟩ := exists_of_discard_run_ok hrun
      exact addThreadGoalToPlan_tied hguard hdb hrun
    · exact (GoalOp.progress hrun).tied hconvert hguard.fresh hdb
  · rw [hsame]
    exact hdb

/-- In a run whose identifiers are new and which converts no goal that a node points
to, a thread has at most one active node, and that node points to the current goal
of the thread. -/
theorem active_node_tied_to_current_goal
    (h : Reaches (GoalOp.step redactStateString) GoalOp.TiesFreely Db.empty db)
    (threadId : ThreadId) :
    (∀ a ∈ db.nodes, ∀ b ∈ db.nodes, a.assignedThreadId = threadId → a.status = .active →
      b.assignedThreadId = threadId → b.status = .active → a = b) ∧
    ∀ node ∈ db.nodes, node.assignedThreadId = threadId → node.status = .active →
      ∃ goal, db.threadGoal? threadId = some goal ∧ node.projectedGoalId = some goal.goalId := by
  have htied : db.Tied := h.invariant Db.Tied.empty fun op _ => op.step_tied
  have hcurrent : ∀ node ∈ db.nodes, node.assignedThreadId = threadId → node.status = .active →
      ∃ goal, db.threadGoal? threadId = some goal ∧ node.projectedGoalId = some goal.goalId := by
    intro node hnode hassigned hactive
    obtain ⟨goal, hgoal, hthread, hprojected⟩ := htied.active node hnode hactive
    exact ⟨goal, htied.integrity.threadGoal?_eq hgoal (hthread.trans hassigned), hprojected⟩
  refine ⟨?_, hcurrent⟩
  intro a ha b hb haAssigned haActive hbAssigned hbActive
  obtain ⟨goal, hgoal, haGoal⟩ := hcurrent a ha haAssigned haActive
  obtain ⟨goal', hgoal', hbGoal⟩ := hcurrent b hb hbAssigned hbActive
  obtain rfl : goal = goal' := Option.some.inj (hgoal.symm.trans hgoal')
  exact htied.integrity.eq_of_nodeId ha hb (htied.single a ha b hb _ haGoal hbGoal)

/-- The owner of a plan. -/
def ownerThread : ThreadId := ⟨"owner".toList⟩

def memberThread : ThreadId := ⟨"member".toList⟩

/-- A plan with one node for the member. -/
def sampleDelegation : GoalOp :=
  .createThreadGoalPlan
    ⟨ownerThread, .off, none, [⟨"a".toList, "build".toList, some memberThread, none, 0, none, []⟩]⟩
    ⟨"plan".toList, fun _ => "node".toList, "unused".toList⟩ 1

def sampleActivation : GoalOp :=
  .activateThreadGoalPlanNode memberThread "node".toList "goal".toList 2

theorem active_node_tied_to_current_goal_sample :
    ∃ node ∈ (runOps (GoalOp.step id) [sampleDelegation, sampleActivation] Db.empty).nodes,
      node.status = .active ∧ ∃ goal,
        (runOps (GoalOp.step id) [sampleDelegation, sampleActivation] Db.empty).threadGoal?
          memberThread = some goal ∧ node.projectedGoalId = some goal.goalId := by
  have hcreated : Reaches (GoalOp.step id) GoalOp.TiesFreely Db.empty
      (runOps (GoalOp.step id) [sampleDelegation] Db.empty) := by
    refine .next _ .start ⟨?_, by simp [sampleDelegation]⟩
    intro id _
    exact ⟨by simp [Db.empty], by simp [Db.empty]⟩
  have hactivated : Reaches (GoalOp.step id) GoalOp.TiesFreely Db.empty
      (runOps (GoalOp.step id) [sampleDelegation, sampleActivation] Db.empty) := by
    refine .next _ hcreated ⟨?_, by simp [sampleActivation]⟩
    intro id hid
    obtain rfl : "goal".toList = id := Option.some.inj hid
    constructor <;> decide +kernel
  have hactive : ∃ node ∈ (runOps (GoalOp.step id) [sampleDelegation, sampleActivation]
      Db.empty).nodes, node.assignedThreadId = memberThread ∧ node.status = .active := by
    decide +kernel
  obtain ⟨node, hnode, hassigned, hstatus⟩ := hactive
  exact ⟨node, hnode, hstatus,
    (active_node_tied_to_current_goal hactivated memberThread).2 node hnode hassigned hstatus⟩

/-- The goal of the member, put off and picked up again in a plan of its own. -/
def sampleTwiceProjected : List GoalOp :=
  [sampleDelegation, sampleActivation,
    .updateThreadGoal memberThread ⟨none, none, some .deferred, none, none⟩ 3,
    .syncGoalPlanNodeForGoal memberThread
      (freshThreadGoal memberThread "goal".toList "build".toList none .deferred none 3) 4,
    .setThreadGoalPlanNodeStatus ⟨ownerThread, "node".toList, .pending, .off⟩ "unused".toList 5,
    .cancelPendingGoalPlanNodesAssignedToThread memberThread 6,
    .addThreadGoalToPlan ⟨memberThread, "test".toList, none, none, .off⟩
      ⟨"own plan".toList, fun index => if index = 0 then "current".toList else "next".toList,
        "unused".toList⟩ 7,
    .updateThreadGoal memberThread ⟨none, none, some .active, none, none⟩ 8,
    .syncGoalPlanNodeForGoal memberThread
      (freshThreadGoal memberThread "goal".toList "build".toList none .active none 8) 9,
    .deleteThreadGoalPlansForThread ownerThread]

/-- Deleting the plans of the owner deletes the goal that the member's own plan is
working on: its node stays active without a goal. -/
theorem active_node_without_goal :
    ∃ node ∈ (runOps (GoalOp.step id) sampleTwiceProjected Db.empty).nodes,
      node.assignedThreadId = memberThread ∧ node.status = .active ∧
        (runOps (GoalOp.step id) sampleTwiceProjected Db.empty).threadGoal? memberThread =
          none := by
  decide +kernel

end Codewith.GoalStore
