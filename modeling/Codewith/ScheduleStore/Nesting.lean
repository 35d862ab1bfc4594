import Codewith.ScheduleStore.Effects

/-!
# Nested schedules stay well nested

The triggers check a nested schedule against its parent when it is created and when
its own cadence changes.  The cadence of a parent cannot change while it has
children, so the relation between a schedule and its parent holds as long as both
exist.
-/

namespace Codewith.ScheduleStore

open Lib
open GoalStore (ThreadId)

variable {redactStateString : Text → Text} {db db' : Db} {nowMs : Int}

theorem NestsIn.congr {parent row parent' row' : ThreadSchedule} (h : NestsIn parent row)
    (hparent : parent'.nesting = parent.nesting) (hrow : row'.nesting = row.nesting) :
    NestsIn parent' row' := by
  simp only [ThreadSchedule.nesting, Nesting.mk.injEq] at hparent hrow
  obtain ⟨-, hparentThread, -, hparentDepth, hparentSchedule⟩ := hparent
  obtain ⟨-, hthread, -, hdepth, hschedule⟩ := hrow
  refine ⟨?_, ?_, ?_, ?_⟩
  · rw [hparentThread, hthread, h.thread]
  · rw [hparentDepth, hdepth, h.depth]
  · rw [hparentDepth]
    exact h.bound
  · rw [hparentSchedule, hschedule]
    exact h.slower

/-- Schedules are named once, and each nested one stands below its parent. -/
structure Db.WellNested (db : Db) : Prop where
  ids : (db.schedules.map (·.scheduleId)).Nodup
  parents : ∀ row ∈ db.schedules, ∀ parentScheduleId, row.parentScheduleId = some parentScheduleId →
    ∃ parent ∈ db.schedules, parent.scheduleId = parentScheduleId ∧ NestsIn parent row

namespace Db.WellNested

theorem eq_of_id (h : db.WellNested) {a b : ThreadSchedule} (ha : a ∈ db.schedules)
    (hb : b ∈ db.schedules) (hid : a.scheduleId = b.scheduleId) : a = b :=
  List.inj_on_of_nodup_map h.ids ha hb hid

theorem empty (threads : List ThreadId) : (Db.empty threads).WellNested := by
  refine ⟨List.nodup_nil, ?_⟩
  intro row hrow
  cases hrow

/-- The columns of the nesting decide. -/
theorem congr (h : db.WellNested)
    (hsame : db'.schedules.map (·.nesting) = db.schedules.map (·.nesting)) : db'.WellNested := by
  have hids : ∀ rows : List ThreadSchedule,
      rows.map (·.scheduleId) = (rows.map (·.nesting)).map (·.scheduleId) := by
    intro rows
    rw [List.map_map]
    rfl
  refine ⟨?_, ?_⟩
  · rw [hids, hsame, ← hids]
    exact h.ids
  · intro row hrow parentScheduleId hparent
    have hnesting : row.nesting ∈ db.schedules.map (·.nesting) := by
      rw [← hsame]
      exact List.mem_map_of_mem hrow
    obtain ⟨old, hold, heq⟩ := List.mem_map.1 hnesting
    have holdParent : old.parentScheduleId = some parentScheduleId := by
      rw [← hparent]
      exact congrArg Nesting.parentScheduleId heq
    obtain ⟨parent, hmem, hid, hnests⟩ := h.parents old hold parentScheduleId holdParent
    have hkept : parent.nesting ∈ db'.schedules.map (·.nesting) := by
      rw [hsame]
      exact List.mem_map_of_mem hmem
    obtain ⟨parent', hmem', heq'⟩ := List.mem_map.1 hkept
    refine ⟨parent', hmem', ?_, hnests.congr heq' heq.symm⟩
    rw [← hid]
    exact congrArg Nesting.scheduleId heq'

/-- An update that keeps the columns of the nesting. -/
theorem updateSchedules (h : db.WellNested) {p : ThreadSchedule → Bool}
    {f : ThreadSchedule → ThreadSchedule} (hf : ∀ row, (f row).nesting = row.nesting)
    (hschedules : db'.schedules = Table.updateWhere p f db.schedules) : db'.WellNested := by
  apply h.congr
  rw [hschedules]
  exact Table.map_updateWhere_eq_iff.2 fun row _ _ => hf row

theorem insert (h : db.WellNested) {row : ThreadSchedule} {u : Unit}
    (hrun : insertSchedule row db = (.ok u, db')) : db'.WellNested := by
  obtain ⟨hfresh, hnests, rfl⟩ := insertSchedule_eq_ok hrun
  refine ⟨?_, ?_⟩
  · rw [List.map_append, List.nodup_append']
    refine ⟨h.ids, List.nodup_singleton _, ?_⟩
    intro id hold hnew
    obtain ⟨other, hother, rfl⟩ := List.mem_map.1 hold
    exact hfresh other hother (by simpa using hnew)
  · intro other hother parentScheduleId hparent
    rcases List.mem_append.1 hother with hold | hnew
    · obtain ⟨parent, hmem, hid, hbelow⟩ := h.parents other hold parentScheduleId hparent
      exact ⟨parent, List.mem_append_left _ hmem, hid, hbelow⟩
    · obtain rfl := List.mem_singleton.1 hnew
      rcases hnests with ⟨hroot, -⟩ | ⟨parent, hmem, hid, hbelow⟩
      · rw [hroot] at hparent
        cases hparent
      · rw [hid] at hparent
        exact ⟨parent, List.mem_append_left _ hmem, Option.some.inj hparent, hbelow⟩

theorem delete (h : db.WellNested) {p : ThreadSchedule → Bool}
    (hclosed : ∀ parent ∈ db.schedules, ∀ row ∈ db.schedules,
      row.parentScheduleId = some parent.scheduleId → NestsIn parent row → p parent = true →
        p row = true) : (db.deleteSchedules p).WellNested := by
  refine ⟨h.ids.sublist (List.filter_sublist.map _), ?_⟩
  intro row hrow parentScheduleId hparent
  obtain ⟨hmem, hkept⟩ := Table.mem_deleteWhere.1 hrow
  obtain ⟨parent, hparentMem, rfl, hnests⟩ := h.parents row hmem parentScheduleId hparent
  refine ⟨parent, Table.mem_deleteWhere.2 ⟨hparentMem, ?_⟩, rfl, hnests⟩
  by_contra hdeleted
  have hrowDeleted := hclosed parent hparentMem row hmem hparent hnests (by simpa using hdeleted)
  rw [hkept] at hrowDeleted
  cases hrowDeleted

theorem schedule?_eq (h : db.WellNested) {row : ThreadSchedule} (hrow : row ∈ db.schedules) :
    db.schedule? row.scheduleId = some row := by
  apply Table.find?_eq_some_of_unique hrow (by simp)
  intro other hother hid
  exact h.eq_of_id hother hrow (by simpa using hid)

/-- A new cadence of a schedule, where it is allowed. -/
theorem withSchedule (h : db.WellNested) {row : ThreadSchedule} (hrow : row ∈ db.schedules)
    {f : ThreadSchedule → ThreadSchedule}
    (hf : ∀ other, (f other).nesting = { other.nesting with schedule := (f other).schedule })
    (hallows : db.Allows row (f row).schedule)
    (hschedules : db'.schedules =
      Table.updateWhere (fun other => other.scheduleId = row.scheduleId) f db.schedules) :
    db'.WellNested := by
  rcases hallows with hsame | ⟨hchildren, hslower⟩
  · apply h.congr
    rw [hschedules]
    refine Table.map_updateWhere_eq_iff.2 fun other hother hid => ?_
    obtain rfl := h.eq_of_id hother hrow (by simpa using hid)
    rw [hf, hsame]
    rfl
  · have hids : db'.schedules.map (·.scheduleId) = db.schedules.map (·.scheduleId) := by
      rw [hschedules]
      exact Table.map_updateWhere_eq_iff.2 fun other _ _ => congrArg Nesting.scheduleId (hf other)
    -- The updated row is nobody's parent, so that every parent is a row that stays.
    have hstays : ∀ parent ∈ db.schedules, ∀ child ∈ db.schedules,
        child.parentScheduleId = some parent.scheduleId → parent ∈ db'.schedules := by
      intro parent hparent child hchild hlink
      rw [hschedules]
      refine Table.mem_updateWhere.2 (.inr ⟨hparent, ?_⟩)
      simp only [decide_eq_false_iff_not]
      intro hid
      have hnone := List.any_eq_false.1 hchildren child hchild
      rw [hlink, hid] at hnone
      simp at hnone
    refine ⟨hids ▸ h.ids, ?_⟩
    intro other hother parentScheduleId hparent
    rw [hschedules] at hother
    rcases Table.mem_updateWhere.1 hother with ⟨old, hold, hid, rfl⟩ | ⟨hkept, -⟩
    · obtain rfl := h.eq_of_id hold hrow (by simpa using hid)
      have holdParent : old.parentScheduleId = some parentScheduleId := by
        rw [← hparent]
        exact (congrArg Nesting.parentScheduleId (hf old)).symm
      obtain ⟨parent, hmem, rfl, hnests⟩ := h.parents old hold parentScheduleId holdParent
      refine ⟨parent, hstays parent hmem old hold holdParent, rfl, ?_⟩
      obtain ⟨hcadence, hnotSlower⟩ := hslower parent.scheduleId holdParent
      obtain ⟨_, parentSeconds, -, hparentCadence, -⟩ := hnests.slower
      have hnew := slower_of_notSlower hcadence
        (by rw [hparentCadence]; exact Option.some_ne_none _)
        (hnotSlower parent (h.schedule?_eq hmem))
      have hnesting := hf old
      simp only [ThreadSchedule.nesting, Nesting.mk.injEq] at hnesting
      obtain ⟨-, hthread, -, hdepth, -⟩ := hnesting
      exact ⟨hnests.thread.trans hthread.symm, hdepth.trans hnests.depth, hnests.bound, hnew⟩
    · obtain ⟨parent, hmem, rfl, hnests⟩ := h.parents other hkept parentScheduleId hparent
      exact ⟨parent, hstays parent hmem other hkept hparent, rfl, hnests⟩

theorem write (h : db.WellNested) {existing : ThreadSchedule} {update : ThreadScheduleUpdate}
    {updated : Option ThreadSchedule}
    (hrun : writeThreadScheduleUpdate redactStateString existing update nowMs db =
      (.ok updated, db')) : db'.WellNested := by
  rcases writeThreadScheduleUpdate_eq_ok hrun with ⟨-, -, rfl⟩ | ⟨row, hfound, -, hallows, rfl⟩
  · exact h
  · obtain ⟨hrow, hid⟩ := Db.schedule?_eq_some hfound
    refine h.withSchedule (f := updatedSchedule redactStateString existing update nowMs) hrow
      (fun other => rfl) hallows ?_
    rw [hid, Db.withUpdate]
    split <;> rfl

end Db.WellNested

/-! ## The query for a schedule and all that are nested in it -/

def Db.HasChild (db : Db) (parent child : ThreadSchedule) : Prop :=
  child ∈ db.schedules ∧ child.parentScheduleId = some parent.scheduleId

/-- The schedule of the given id, or one that is reached from it through parent links. -/
def Db.NestedUnder (db : Db) (scheduleId : Text) (row : ThreadSchedule) : Prop :=
  ∃ top ∈ db.schedules, top.scheduleId = scheduleId ∧ Relation.ReflTransGen db.HasChild top row

def Db.children (db : Db) (frontier : List ThreadSchedule) : List ThreadSchedule :=
  frontier.flatMap fun parent =>
    db.schedules.filter fun child => child.parentScheduleId = some parent.scheduleId

theorem Db.mem_children {frontier : List ThreadSchedule} {child : ThreadSchedule} :
    child ∈ db.children frontier ↔ ∃ parent ∈ frontier, db.HasChild parent child := by
  simp [Db.children, Db.HasChild]

/-- The query returns what is reached from its frontier. -/
theorem Db.mem_subtree {fuel : Nat} {frontier rows : List ThreadSchedule}
    (h : db.subtree fuel frontier = some rows) {row : ThreadSchedule} :
    row ∈ rows ↔ ∃ top ∈ frontier, Relation.ReflTransGen db.HasChild top row := by
  induction fuel generalizing frontier rows with
  | zero =>
      cases frontier with
      | nil =>
          obtain rfl := Option.some.inj h
          simp
      | cons schedule frontier => cases h
  | succ fuel ih =>
      cases frontier with
      | nil =>
          obtain rfl := Option.some.inj h
          simp
      | cons schedule frontier =>
          obtain ⟨below, hbelow, hrows⟩ := Option.bind_eq_some_iff.1 h
          obtain rfl := Option.some.inj hrows
          rw [List.mem_append, ih hbelow]
          constructor
          · rintro (htop | ⟨child, hchild, hpath⟩)
            · exact ⟨row, htop, .refl⟩
            · obtain ⟨top, htop, hlink⟩ := Db.mem_children.1 hchild
              exact ⟨top, htop, .head hlink hpath⟩
          · rintro ⟨top, htop, hpath⟩
            rcases Relation.ReflTransGen.cases_head hpath with rfl | ⟨child, hlink, hrest⟩
            · exact .inl htop
            · exact .inr ⟨child, Db.mem_children.2 ⟨top, htop, hlink⟩, hrest⟩

/-- The schedules at a depth or below it. -/
def Db.countFrom (db : Db) (depth : Int) : Nat :=
  Table.countWhere (fun row => depth ≤ row.nestingDepth) db.schedules

theorem Db.countFrom_succ_lt {row : ThreadSchedule} (hrow : row ∈ db.schedules) :
    db.countFrom (row.nestingDepth + 1) < db.countFrom row.nestingDepth := by
  have hsplit : db.countFrom row.nestingDepth =
      Table.countWhere (fun other => other.nestingDepth = row.nestingDepth) db.schedules +
        db.countFrom (row.nestingDepth + 1) := by
    rw [Db.countFrom, Db.countFrom, Table.countWhere_add]
    · apply List.countP_congr
      intro other _
      simp only [decide_eq_true_eq, Bool.or_eq_true]
      omega
    · intro other hdepth
      simp only [decide_eq_true_eq, decide_eq_false_iff_not] at hdepth ⊢
      omega
  have hpos : 0 < Table.countWhere (fun other => other.nestingDepth = row.nestingDepth)
      db.schedules := Table.countWhere_pos.2 ⟨row, hrow, by simp⟩
  omega

namespace Db.WellNested

theorem depth_of_hasChild (h : db.WellNested) {parent child : ThreadSchedule}
    (hparent : parent ∈ db.schedules) (hchild : db.HasChild parent child) :
    child.nestingDepth = parent.nestingDepth + 1 := by
  obtain ⟨other, hother, hid, hnests⟩ := h.parents child hchild.1 _ hchild.2
  obtain rfl := h.eq_of_id hother hparent hid
  exact hnests.depth

/-- Each level of the query is one deeper than the level before, and the rows below it
are fewer. -/
theorem exists_subtree (h : db.WellNested) {fuel : Nat} {depth : Int}
    {frontier : List ThreadSchedule}
    (hfrontier : ∀ row ∈ frontier, row ∈ db.schedules ∧ row.nestingDepth = depth)
    (hfuel : db.countFrom depth ≤ fuel) : ∃ rows, db.subtree fuel frontier = some rows := by
  induction fuel generalizing depth frontier with
  | zero =>
      cases frontier with
      | nil => exact ⟨[], rfl⟩
      | cons schedule frontier =>
          obtain ⟨hmem, rfl⟩ := hfrontier schedule List.mem_cons_self
          have hlt := Db.countFrom_succ_lt hmem
          omega
  | succ fuel ih =>
      cases frontier with
      | nil => exact ⟨[], rfl⟩
      | cons schedule frontier =>
          obtain ⟨hmem, hdepth⟩ := hfrontier schedule List.mem_cons_self
          have hlt := Db.countFrom_succ_lt hmem
          rw [hdepth] at hlt
          obtain ⟨below, hbelow⟩ := @ih (depth + 1) (db.children (schedule :: frontier)) (by
            intro child hchild
            obtain ⟨parent, hparent, hlink⟩ := Db.mem_children.1 hchild
            obtain ⟨hparentMem, rfl⟩ := hfrontier parent hparent
            exact ⟨hlink.1, h.depth_of_hasChild hparentMem hlink⟩) (by omega)
          refine ⟨schedule :: frontier ++ below, ?_⟩
          exact Option.bind_eq_some_iff.2 ⟨below, hbelow, rfl⟩

/-- The query of a deletion returns the schedule and all that are nested in it. -/
theorem exists_subtreeOf (h : db.WellNested) (scheduleId : Text) :
    ∃ rows, db.subtreeOf scheduleId = some rows ∧
      ∀ row, row ∈ rows ↔ db.NestedUnder scheduleId row := by
  have hfrontier : ∃ depth : Int, ∀ row ∈ db.schedules.filter fun schedule =>
      schedule.scheduleId = scheduleId, row ∈ db.schedules ∧ row.nestingDepth = depth := by
    rcases hfound : db.schedule? scheduleId with _ | top
    · refine ⟨0, ?_⟩
      intro row hrow
      obtain ⟨hmem, hid⟩ := List.mem_filter.1 hrow
      exact absurd (of_decide_eq_true hid) (Db.schedule?_eq_none.1 hfound row hmem)
    · obtain ⟨htop, rfl⟩ := Db.schedule?_eq_some hfound
      refine ⟨top.nestingDepth, ?_⟩
      intro row hrow
      obtain ⟨hmem, hid⟩ := List.mem_filter.1 hrow
      obtain rfl := h.eq_of_id hmem htop (of_decide_eq_true hid)
      exact ⟨hmem, rfl⟩
  obtain ⟨depth, hfrontier⟩ := hfrontier
  have hfuel : db.countFrom depth ≤ db.schedules.length + 1 :=
    (List.countP_le_length).trans (Nat.le_succ _)
  obtain ⟨rows, hrows⟩ := h.exists_subtree hfrontier hfuel
  refine ⟨rows, hrows, ?_⟩
  intro row
  rw [Db.mem_subtree hrows]
  simp only [List.mem_filter, decide_eq_true_eq, Db.NestedUnder, and_assoc]

theorem mem_of_nestedUnder {scheduleId : Text} {row : ThreadSchedule}
    (hrow : db.NestedUnder scheduleId row) : row ∈ db.schedules := by
  obtain ⟨top, htop, -, hpath⟩ := hrow
  rcases Relation.ReflTransGen.cases_tail hpath with rfl | ⟨_, _, hlink⟩
  · exact htop
  · exact hlink.1

/-- A row is selected for deletion when its id is among those of the query. -/
theorem any_id_iff (h : db.WellNested) {scheduleId : Text} {rows : List ThreadSchedule}
    (hrows : ∀ row, row ∈ rows ↔ db.NestedUnder scheduleId row) {schedule : ThreadSchedule}
    (hschedule : schedule ∈ db.schedules) :
    (rows.any fun row => row.scheduleId = schedule.scheduleId) = true ↔
      db.NestedUnder scheduleId schedule := by
  simp only [List.any_eq_true, decide_eq_true_eq]
  constructor
  · rintro ⟨row, hrow, hid⟩
    have hunder := (hrows row).1 hrow
    rwa [h.eq_of_id (mem_of_nestedUnder hunder) hschedule hid] at hunder
  · intro hunder
    exact ⟨schedule, (hrows schedule).2 hunder, rfl⟩

theorem deleteTree (h : db.WellNested) {scheduleId : Text} {rows : List ThreadSchedule}
    (hrows : db.subtreeOf scheduleId = some rows) :
    (db.deleteSchedules fun schedule =>
      rows.any fun row => row.scheduleId = schedule.scheduleId).WellNested := by
  obtain ⟨_, hrows', hmem⟩ := h.exists_subtreeOf scheduleId
  obtain rfl := Option.some.inj (hrows.symm.trans hrows')
  apply h.delete
  intro parent hparent row hrow hlink _ hdeleted
  obtain ⟨top, htop, hid, hpath⟩ := (h.any_id_iff hmem hparent).1 hdeleted
  exact (h.any_id_iff hmem hrow).2 ⟨top, htop, hid, hpath.tail ⟨hrow, hlink⟩⟩

end Db.WellNested

/-! ## Runs of operations -/

theorem ScheduleOp.run_wellNested {op : ScheduleOp} {u : Unit} (hdb : db.WellNested)
    (h : op.run redactStateString db = (.ok u, db')) : db'.WellNested := by
  cases op with
  | createThreadSchedule params parentScheduleId authProfile scheduleId nowMs =>
      obtain ⟨row, h⟩ := exists_of_discard_run_ok h
      exact hdb.insert (createThreadSchedule_eq_ok h)
  | updateThreadSchedule scheduleId update nowMs =>
      obtain ⟨updated, h⟩ := exists_of_discard_run_ok h
      rcases updateThreadSchedule_eq_ok h with rfl | ⟨existing, -, hwrite⟩
      · exact hdb
      · exact hdb.write hwrite
  | writeThreadScheduleUpdate existing update nowMs =>
      obtain ⟨updated, h⟩ := exists_of_discard_run_ok h
      exact hdb.write h
  | resumeThreadSchedule scheduleId nextRunAtMs nowMs =>
      obtain ⟨resumed, h⟩ := exists_of_discard_run_ok h
      obtain ⟨f, rfl, hf⟩ := resumeThreadSchedule_eq_ok h
      exact hdb.updateSchedules (fun row => (hf row).1) rfl
  | deleteThreadScheduleTree scheduleId =>
      obtain ⟨deleted, h⟩ := exists_of_discard_run_ok h
      obtain ⟨rows, hrows, -, rfl⟩ := deleteThreadScheduleTree_eq_ok h
      exact hdb.deleteTree hrows
  | deleteThreadSchedulesForThread threadId =>
      obtain ⟨count, h⟩ := exists_of_discard_run_ok h
      obtain rfl := deleteThreadSchedulesForThread_eq_ok h
      apply hdb.delete
      intro parent _ row _ _ hnests hdeleted
      rw [decide_eq_true_eq] at hdeleted ⊢
      rw [← hnests.thread, hdeleted]
  | claimThreadSchedule params surroundings runId =>
      obtain ⟨claim, h⟩ := exists_of_discard_run_ok h
      rcases claimThreadSchedule_eq_ok h with
        rfl | ⟨selected, -, -, ⟨f, rfl, hf⟩ | ⟨f, rfl, hf, -⟩⟩
      · exact hdb
      · exact hdb.updateSchedules (fun row => (hf row).1) rfl
      · exact hdb.updateSchedules (fun row => (hf row).1) rfl
  | markThreadScheduleRunStarted params turnId goalId =>
      obtain ⟨started, h⟩ := exists_of_discard_run_ok h
      rcases markThreadScheduleRunStarted_eq_ok h with rfl | ⟨p, f, g, rfl, hf, -⟩
      · exact hdb
      · exact hdb.updateSchedules (fun row => (hf row).1) rfl
  | extendThreadScheduleLease params =>
      obtain ⟨extended, h⟩ := exists_of_discard_run_ok h
      obtain ⟨p, f, rfl, hf⟩ := extendThreadScheduleLease_eq_ok h
      exact hdb.updateSchedules (fun row => (hf row).1) rfl
  | finishThreadScheduleRun params surroundings =>
      obtain ⟨finished, h⟩ := exists_of_discard_run_ok h
      rcases finishThreadScheduleRun_eq_ok h with rfl | ⟨pauseSchedule, -, rfl⟩
      · exact hdb
      · exact hdb.updateSchedules (f := finishedSchedule params pauseSchedule) (fun _ => rfl) rfl
  | deferThreadScheduleRun params =>
      obtain ⟨deferred, h⟩ := exists_of_discard_run_ok h
      rcases deferThreadScheduleRun_eq_ok h with rfl | ⟨-, -, g, rfl, -⟩
      · exact hdb
      · exact hdb.updateSchedules (f := deferredSchedule params) (fun _ => rfl) rfl
  | expireThreadSchedules nowMs =>
      obtain ⟨count, h⟩ := exists_of_discard_run_ok h
      obtain ⟨f, rfl, hf⟩ := expireThreadSchedules_eq_ok h
      exact hdb.updateSchedules hf rfl

theorem wellNested_runOps (threads : List ThreadId) (ops : List ScheduleOp) :
    (runOps (ScheduleOp.step redactStateString) ops (Db.empty threads)).WellNested := by
  have hreaches : Reaches (ScheduleOp.step redactStateString) (fun _ _ => True) (Db.empty threads)
      (runOps (ScheduleOp.step redactStateString) ops (Db.empty threads)) :=
    Reaches.of_runOps ops .start
  refine hreaches.invariant (Db.WellNested.empty threads) ?_
  intro op db _ hdb
  rcases op.step_cases redactStateString db with hrun | hstep
  · exact ScheduleOp.run_wellNested hdb hrun
  · rw [hstep]
    exact hdb

/-- Whatever operations have been completed: a nested schedule belongs to the thread
of its parent, one level below it and at most at the fifth, with a slower cadence, and
a deletion removes the schedule with all that are nested in it, and nothing else. -/
theorem nested_loops_stay_well_nested (threads : List ThreadId) (ops : List ScheduleOp) :
    let db := runOps (ScheduleOp.step redactStateString) ops (Db.empty threads)
    (∀ row ∈ db.schedules, ∀ parentScheduleId, row.parentScheduleId = some parentScheduleId →
      ∃ parent ∈ db.schedules, parent.scheduleId = parentScheduleId ∧
        row.threadId = parent.threadId ∧
        row.nestingDepth = parent.nestingDepth + 1 ∧ row.nestingDepth ≤ 5 ∧
        ∃ childSeconds parentSeconds, row.schedule.cadence = some childSeconds ∧
          parent.schedule.cadence = some parentSeconds ∧ parentSeconds < childSeconds) ∧
    ∀ scheduleId, ∃ deleted db', deleteThreadScheduleTree scheduleId db = (.ok deleted, db') ∧
      (∀ row, row ∈ db'.schedules ↔ row ∈ db.schedules ∧ ¬db.NestedUnder scheduleId row) ∧
      ∀ id, id ∈ deleted ↔ ∃ row, db.NestedUnder scheduleId row ∧ row.scheduleId = id := by
  intro db
  have hdb : db.WellNested := wellNested_runOps threads ops
  refine ⟨?_, ?_⟩
  · intro row hrow parentScheduleId hparent
    obtain ⟨parent, hmem, hid, hnests⟩ := hdb.parents row hrow parentScheduleId hparent
    have hbound := hnests.bound
    have hdepth := hnests.depth
    exact ⟨parent, hmem, hid, hnests.thread.symm, hdepth, by omega, hnests.slower⟩
  · intro scheduleId
    obtain ⟨rows, hrows, hmem⟩ := hdb.exists_subtreeOf scheduleId
    have hrun : deleteThreadScheduleTree scheduleId db =
        (.ok ((rows.insertionSort deepestFirst).map (·.scheduleId)),
          db.deleteSchedules fun schedule =>
            rows.any fun row => row.scheduleId = schedule.scheduleId) := by
      simp [deleteThreadScheduleTree, Exec.bind_run, hrows]
    refine ⟨_, _, hrun, ?_, ?_⟩
    · intro row
      refine Table.mem_deleteWhere.trans (and_congr_right fun hrow => ?_)
      rw [← hdb.any_id_iff hmem hrow, Bool.not_eq_true]
    · intro id
      simp [hmem]

end Codewith.ScheduleStore
