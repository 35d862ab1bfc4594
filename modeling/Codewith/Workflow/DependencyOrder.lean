import Codewith.Lib.Acyclic
import Codewith.Lib.Result
import Codewith.Workflow.Dependencies

/-!
# The dependency check is exact

The count of a step is the number of its dependencies that are not visited yet, so a step is ready
or visited exactly when it has none left.  A visited step is therefore accessible in the dependency
relation, and a step that is never visited depends on another one.
-/

namespace Codewith.Workflow

open Lib

/-- The step `b` lists `a` among its dependencies. -/
def DependsOn (steps : List WorkflowStep) (a b : Text) : Prop :=
  ∃ step ∈ steps, step.id = b ∧ a ∈ step.dependsOn

/-- Every listed dependency, with the step that lists it. -/
def dependencyPairs (steps : List WorkflowStep) : List (Text × Text) :=
  steps.flatMap fun step => step.dependsOn.map fun dependency => (dependency, step.id)

theorem mem_dependencyPairs {steps : List WorkflowStep} {a b : Text} :
    (a, b) ∈ dependencyPairs steps ↔ DependsOn steps a b := by
  simp only [dependencyPairs, DependsOn, List.mem_flatMap, List.mem_map, Prod.mk.injEq]
  constructor
  · rintro ⟨step, hstep, dependency, hdependency, rfl, rfl⟩
    exact ⟨step, hstep, rfl, hdependency⟩
  · rintro ⟨step, hstep, rfl, hdependency⟩
    exact ⟨step, hstep, a, hdependency, rfl, rfl⟩

/-- The steps that list a name. -/
def dependentsOf (pairs : List (Text × Text)) (a : Text) : List Text :=
  (pairs.filter fun pair => pair.1 = a).map Prod.snd

/-! ### The index -/

/-- The counts of the steps are those of a list of steps. -/
def Counts (ids : List Text) (indegree : Std.TreeMap Text Nat) (todo : List Text) : Prop :=
  ∀ v, indegree[v]? = if v ∈ ids then some (todo.count v) else none

theorem Counts.insert {ids todo todo' : List Text} {indegree : Std.TreeMap Text Nat} {v : Text}
    (h : Counts ids indegree todo) (hv : v ∈ ids)
    (hother : ∀ w, w ≠ v → todo'.count w = todo.count w) :
    Counts ids (indegree.insert v (todo'.count v)) todo' := by
  intro w
  rw [Std.TreeMap.getElem?_insert]
  by_cases hw : w = v
  · subst hw
    simp [hv]
  · have hcompare : ¬compare v w = .eq := by
      rw [Std.LawfulEqCmp.compare_eq_iff_eq]
      exact fun h => hw h.symm
    rw [if_neg hcompare, h w, hother w hw]

theorem Counts.perm {ids todo todo' : List Text} {indegree : Std.TreeMap Text Nat}
    (h : Counts ids indegree todo) (hperm : todo.Perm todo') : Counts ids indegree todo' := by
  intro v
  rw [h v, hperm.count_eq]

/-- The index holds the pairs read so far. -/
structure Indexes (ids : List Text) (pairs : List (Text × Text)) (index : DependencyIndex) :
    Prop where
  counts : Counts ids index.indegree (pairs.map Prod.snd)
  outgoing : ∀ a, index.outgoing.getD a [] = dependentsOf pairs a

theorem Indexes.empty (steps : List WorkflowStep) :
    Indexes (steps.map WorkflowStep.id) [] (emptyIndex steps) := by
  constructor
  · induction steps using List.reverseRecOn with
    | nil => intro v; simp [emptyIndex]
    | append_singleton steps step ih =>
        intro v
        have hprevious := ih v
        simp only [emptyIndex] at hprevious ⊢
        rw [List.foldl_append, List.foldl_cons, List.foldl_nil, Std.TreeMap.getElem?_insert,
          hprevious]
        by_cases hv : step.id = v
        · simp [hv]
        · have hne : v ≠ step.id := fun h => hv h.symm
          simp [Std.LawfulEqCmp.compare_eq_iff_eq, hv, hne]
  · intro a
    simp [emptyIndex, dependentsOf]

theorem Indexes.addDependency {ids : List Text} {pairs : List (Text × Text)}
    {index : DependencyIndex} {stepId : Text} (h : Indexes ids pairs index) (hstep : stepId ∈ ids)
    (dependency : Text) :
    ∃ index', Workflow.addDependency stepId index dependency = .ok index' ∧
      Indexes ids (pairs ++ [(dependency, stepId)]) index' := by
  have hdegree : index.indegree[stepId]? = some ((pairs.map Prod.snd).count stepId) := by
    rw [h.counts stepId, if_pos hstep]
  rw [Workflow.addDependency, hdegree]
  refine ⟨_, rfl, ?_, ?_⟩
  · have hcount : ((pairs ++ [(dependency, stepId)]).map Prod.snd).count stepId =
        (pairs.map Prod.snd).count stepId + 1 := by simp
    dsimp only
    rw [← hcount]
    apply h.counts.insert hstep
    intro w hw
    have hne : stepId ≠ w := fun h => hw h.symm
    simp [hne]
  · intro a
    dsimp only
    rw [Std.TreeMap.getD_insert, h.outgoing, h.outgoing]
    by_cases ha : dependency = a
    · simp [ha, dependentsOf]
    · simp [Std.LawfulEqCmp.compare_eq_iff_eq, ha, dependentsOf]

theorem Indexes.addStepDependencies {ids : List Text} {pairs : List (Text × Text)}
    {index : DependencyIndex} {step : WorkflowStep} (h : Indexes ids pairs index)
    (hstep : step.id ∈ ids) :
    ∃ index', Workflow.addStepDependencies index step = .ok index' ∧
      Indexes ids (pairs ++ dependencyPairs [step]) index' := by
  rw [Workflow.addStepDependencies]
  have hpairs : dependencyPairs [step] = step.dependsOn.map fun name => (name, step.id) := by
    simp [dependencyPairs]
  rw [hpairs]
  generalize step.dependsOn = names
  induction names generalizing pairs index with
  | nil => exact ⟨index, rfl, by simpa using h⟩
  | cons name names ih =>
      obtain ⟨mid, hadd, hmid⟩ := h.addDependency hstep name
      obtain ⟨index', hfold, hindex'⟩ := ih hmid
      refine ⟨index', ?_, ?_⟩
      · rw [List.foldlM_cons, hadd]
        exact hfold
      · simpa using hindex'

theorem Indexes.indexDependencies (steps : List WorkflowStep) :
    ∃ index, Workflow.indexDependencies steps = .ok index ∧
      Indexes (steps.map WorkflowStep.id) (dependencyPairs steps) index := by
  -- The steps are read one after another, over the identifiers of all of them.
  have hfold : ∀ (rest : List WorkflowStep) (pairs : List (Text × Text)) (index : DependencyIndex),
      Indexes (steps.map WorkflowStep.id) pairs index → (∀ step ∈ rest, step ∈ steps) →
      ∃ index', rest.foldlM Workflow.addStepDependencies index = .ok index' ∧
        Indexes (steps.map WorkflowStep.id) (pairs ++ dependencyPairs rest) index' := by
    intro rest
    induction rest with
    | nil =>
        intro pairs index h _
        exact ⟨index, rfl, by simpa [dependencyPairs] using h⟩
    | cons step rest ih =>
        intro pairs index h hsteps
        have hstep : step.id ∈ steps.map WorkflowStep.id :=
          List.mem_map_of_mem (hsteps step List.mem_cons_self)
        obtain ⟨mid, hadd, hmid⟩ := h.addStepDependencies hstep
        obtain ⟨index', hrest, hindex'⟩ :=
          ih _ mid hmid fun other hother => hsteps other (List.mem_cons_of_mem step hother)
        refine ⟨index', ?_, ?_⟩
        · rw [List.foldlM_cons, hadd]
          exact hrest
        · simpa [dependencyPairs] using hindex'
  exact hfold steps [] (emptyIndex steps) (Indexes.empty steps) fun _ hstep => hstep

/-! ### The loop -/

/-- The loop has visited the steps `done`, and the dependencies of the steps `todo` are not released
yet. -/
structure Visits (ids done todo : List Text) (visit : Visit) : Prop where
  visited : visit.visited = done.length
  counts : Counts ids visit.indegree todo
  nodup : (done ++ visit.ready).Nodup
  subset : ∀ v ∈ done ++ visit.ready, v ∈ ids
  todo_subset : ∀ v ∈ todo, v ∈ ids
  /-- A step is ready or visited when no dependency of it is left. -/
  settled : ∀ v ∈ ids, v ∈ done ++ visit.ready ↔ v ∉ todo

theorem Visits.release {ids done todo : List Text} {visit : Visit} {v : Text}
    (h : Visits ids done (v :: todo) visit) :
    ∃ visit', releaseDependent visit v = .ok visit' ∧ Visits ids done todo visit' := by
  have hv : v ∈ ids := h.todo_subset v List.mem_cons_self
  have hdegree : visit.indegree[v]? = some (todo.count v + 1) := by
    rw [h.counts v, if_pos hv, List.count_cons_self]
  have hunsettled : v ∉ done ++ visit.ready := by
    rw [h.settled v hv]
    exact fun hnot => hnot List.mem_cons_self
  have hcounts : Counts ids (visit.indegree.insert v (todo.count v)) todo := by
    apply h.counts.insert hv
    intro w hw
    rw [List.count_cons_of_ne fun h => hw h.symm]
  have htodo : ∀ w ∈ todo, w ∈ ids := fun w hw => h.todo_subset w (List.mem_cons_of_mem v hw)
  rw [releaseDependent, hdegree]
  refine ⟨_, rfl, ?_⟩
  by_cases hzero : todo.count v = 0
  · have hnot : v ∉ todo := List.count_eq_zero.mp hzero
    simp only [hzero, ↓reduceIte]
    refine ⟨h.visited, hzero ▸ hcounts, ?_, ?_, htodo, ?_⟩
    · rw [← List.append_assoc, List.nodup_append]
      refine ⟨h.nodup, List.nodup_singleton v, ?_⟩
      rintro a ha b hb rfl
      exact hunsettled (List.mem_singleton.mp hb ▸ ha)
    · intro w hw
      rw [← List.append_assoc, List.mem_append, List.mem_singleton] at hw
      rcases hw with hw | rfl
      · exact h.subset w hw
      · exact hv
    · intro w hw
      rw [← List.append_assoc, List.mem_append, List.mem_singleton, h.settled w hw]
      by_cases hwv : w = v
      · subst hwv
        simp [hnot]
      · simp [hwv]
  · have hmem : v ∈ todo := by
      by_contra hnot
      exact hzero (List.count_eq_zero.mpr hnot)
    simp only [hzero, ↓reduceIte]
    refine ⟨h.visited, hcounts, h.nodup, h.subset, htodo, ?_⟩
    intro w hw
    rw [h.settled w hw]
    by_cases hwv : w = v
    · subst hwv
      simp [hmem]
    · simp [hwv]

theorem Visits.release_all {ids done todo : List Text} {visit : Visit} (dependents : List Text)
    (h : Visits ids done (dependents ++ todo) visit) :
    ∃ visit', dependents.foldlM releaseDependent visit = .ok visit' ∧
      Visits ids done todo visit' := by
  induction dependents generalizing visit with
  | nil => exact ⟨visit, rfl, h⟩
  | cons v dependents ih =>
      obtain ⟨mid, hrelease, hmid⟩ := h.release
      obtain ⟨visit', hfold, hvisit'⟩ := ih hmid
      refine ⟨visit', ?_, hvisit'⟩
      rw [List.foldlM_cons, hrelease]
      exact hfold

theorem Visits.perm {ids done todo todo' : List Text} {visit : Visit}
    (h : Visits ids done todo visit) (hperm : todo.Perm todo') : Visits ids done todo' visit where
  visited := h.visited
  counts := h.counts.perm hperm
  nodup := h.nodup
  subset := h.subset
  todo_subset := fun v hv => h.todo_subset v (hperm.mem_iff.mpr hv)
  settled := by
    intro v hv
    rw [h.settled v hv, hperm.mem_iff]

/-- A ready step is taken from the front of the queue. -/
theorem Visits.take {ids done todo ready : List Text} {visit : Visit} {u : Text}
    (h : Visits ids done todo visit) (hready : visit.ready = u :: ready) :
    Visits ids (done ++ [u]) todo { visit with ready, visited := visit.visited + 1 } := by
  have hlist : done ++ [u] ++ ready = done ++ visit.ready := by simp [hready]
  constructor
  · simp [h.visited]
  · exact h.counts
  · dsimp only
    rw [hlist]
    exact h.nodup
  · dsimp only
    rw [hlist]
    exact h.subset
  · exact h.todo_subset
  · dsimp only
    rw [hlist]
    exact h.settled

/-- The steps with a dependency outside a set, once for every such dependency. -/
def unreleased (pairs : List (Text × Text)) (done : List Text) : List Text :=
  (pairs.filter fun pair => pair.1 ∉ done).map Prod.snd

theorem unreleased_perm (pairs : List (Text × Text)) {done : List Text} {u : Text} (hu : u ∉ done) :
    (unreleased pairs done).Perm (dependentsOf pairs u ++ unreleased pairs (done ++ [u])) := by
  rw [unreleased, unreleased, dependentsOf, ← List.map_append]
  apply List.Perm.map
  have hsplit := (List.filter_append_perm (fun pair : Text × Text => decide (pair.1 = u))
    (pairs.filter fun pair => pair.1 ∉ done)).symm
  rw [List.filter_filter, List.filter_filter] at hsplit
  have hfirst : (fun pair : Text × Text => decide (pair.1 = u) && decide (pair.1 ∉ done)) =
      fun pair => decide (pair.1 = u) := by
    funext pair
    by_cases hpair : pair.1 = u <;> simp [hpair, hu]
  have hsecond : (fun pair : Text × Text => !decide (pair.1 = u) && decide (pair.1 ∉ done)) =
      fun pair => decide (pair.1 ∉ done ++ [u]) := by
    funext pair
    by_cases hpair : pair.1 = u <;> simp [hpair]
  rw [hfirst, hsecond] at hsplit
  exact hsplit

theorem mem_unreleased {pairs : List (Text × Text)} {done : List Text} {v : Text} :
    v ∈ unreleased pairs done ↔ ∃ a, (a, v) ∈ pairs ∧ a ∉ done := by
  simp [unreleased]

/-- What the loop leaves when nothing is ready: the visited steps, all of them accessible. -/
theorem Visits.run {ids done : List Text} {steps : List WorkflowStep} {visit : Visit}
    {outgoing : Std.TreeMap Text (List Text)}
    (hout : ∀ a, outgoing.getD a [] = dependentsOf (dependencyPairs steps) a)
    {bound : Nat} (hbound : ids.length ≤ done.length + bound)
    (h : Visits ids done (unreleased (dependencyPairs steps) done) visit)
    (hacc : ∀ v ∈ done, Acc (DependsOn steps) v) :
    ∃ last visited, visitReady outgoing bound visit = .ok last ∧ last.ready = [] ∧
      Visits ids visited (unreleased (dependencyPairs steps) visited) last ∧
      ∀ v ∈ visited, Acc (DependsOn steps) v := by
  induction bound generalizing done visit with
  | zero =>
      have hlength := (List.subperm_of_subset h.nodup h.subset).length_le
      rw [List.length_append] at hlength
      have hready : visit.ready = [] := List.eq_nil_of_length_eq_zero (by omega)
      refine ⟨visit, done, ?_, hready, h, hacc⟩
      rw [visitReady, if_pos hready]
  | succ bound ih =>
      rw [visitReady]
      cases hready : visit.ready with
      | nil => exact ⟨visit, done, rfl, hready, h, hacc⟩
      | cons u ready =>
          have hmem : u ∈ done ++ visit.ready := by simp [hready]
          have hu : u ∉ done := by
            have hnodup := h.nodup
            rw [hready, List.nodup_append] at hnodup
            exact fun hdone => hnodup.2.2 u hdone u List.mem_cons_self rfl
          have hreleased : u ∉ unreleased (dependencyPairs steps) done :=
            (h.settled u (h.subset u hmem)).mp hmem
          have haccu : Acc (DependsOn steps) u := by
            constructor
            intro a ha
            apply hacc
            by_contra hnot
            exact hreleased (mem_unreleased.mpr ⟨a, mem_dependencyPairs.mpr ha, hnot⟩)
          have htake := (h.take hready).perm (unreleased_perm (dependencyPairs steps) hu)
          rw [← hout u] at htake
          obtain ⟨mid, hrelease, hmid⟩ := htake.release_all
          have hacc' : ∀ v ∈ done ++ [u], Acc (DependsOn steps) v := by
            intro v hv
            rcases List.mem_append.mp hv with hv | hv
            · exact hacc v hv
            · rw [List.mem_singleton.mp hv]
              exact haccu
          have hbound' : ids.length ≤ (done ++ [u]).length + bound := by
            rw [List.length_append, List.length_singleton]
            omega
          obtain ⟨last, visited, hrun, hlast⟩ := ih hbound' hmid hacc'
          refine ⟨last, visited, ?_, hlast⟩
          dsimp only
          rw [hrelease]
          exact hrun

/-- Before the first turn the ready steps are those without dependencies. -/
theorem Visits.first {ids : List Text} {pairs : List (Text × Text)} {index : DependencyIndex}
    (h : Indexes ids pairs index) (hpairs : ∀ pair ∈ pairs, pair.2 ∈ ids) :
    Visits ids [] (unreleased pairs []) (firstVisit index.indegree) := by
  have htodo : unreleased pairs [] = pairs.map Prod.snd := by simp [unreleased]
  have hready : ∀ v, v ∈ (firstVisit index.indegree).ready ↔ index.indegree[v]? = some 0 := by
    intro v
    rw [firstVisit, ← Std.TreeMap.mem_toList_iff_getElem?_eq_some]
    simp
  rw [htodo]
  refine ⟨rfl, h.counts, ?_, ?_, ?_, ?_⟩
  · rw [List.nil_append, firstVisit]
    have hdistinct := @Std.TreeMap.distinct_keys_toList _ _ _ index.indegree _
    refine List.Pairwise.filterMap _ ?_ hdistinct
    rintro ⟨a, m⟩ ⟨b, n⟩ hne x hx y hy rfl
    simp only [Option.ite_none_right_eq_some, Option.some.injEq] at hx hy
    rw [hx.2, hy.2] at hne
    exact hne Std.ReflCmp.compare_self
  · intro v hv
    rw [List.nil_append, hready, h.counts v] at hv
    by_contra hnot
    rw [if_neg hnot] at hv
    cases hv
  · intro v hv
    obtain ⟨pair, hpair, rfl⟩ := List.mem_map.mp hv
    exact hpairs pair hpair
  · intro v hv
    rw [List.nil_append, hready, h.counts v, if_pos hv, Option.some.injEq, List.count_eq_zero]

/-! ### Every step visited, or a cycle -/

/-- Once nothing is ready, all steps are visited exactly when the dependencies have no cycle. -/
theorem Visits.length_eq_iff {steps : List WorkflowStep} {visited : List Text} {last : Visit}
    (hids : (steps.map WorkflowStep.id).Nodup)
    (hnamed : ∀ step ∈ steps, ∀ dependency ∈ step.dependsOn,
      dependency ∈ steps.map WorkflowStep.id)
    (h : Visits (steps.map WorkflowStep.id) visited
      (unreleased (dependencyPairs steps) visited) last)
    (hready : last.ready = []) (hacc : ∀ v ∈ visited, Acc (DependsOn steps) v) :
    last.visited = steps.length ↔ Acyclic (DependsOn steps) := by
  have hnodup := h.nodup
  have hsubset := h.subset
  have hsettled := h.settled
  rw [hready, List.append_nil] at hnodup hsubset hsettled
  rw [h.visited]
  constructor
  · intro hlength
    have hperm : visited.Perm (steps.map WorkflowStep.id) := by
      apply (List.subperm_of_subset hnodup hsubset).perm_of_length_le
      rw [List.length_map, hlength]
    apply Acyclic.of_acc
    rintro a b ⟨step, hstep, rfl, _⟩
    exact hacc step.id (hperm.mem_iff.mpr (List.mem_map_of_mem hstep))
  · intro hacyclic
    -- The steps that are not visited each depend on another one of them.
    have hempty : {v | v ∈ steps.map WorkflowStep.id ∧ v ∉ visited} = ∅ := by
      apply hacyclic.eq_empty
      · exact (List.finite_toSet (steps.map WorkflowStep.id)).subset fun v hv => hv.1
      · rintro v ⟨hv, hnot⟩
        have htodo : v ∈ unreleased (dependencyPairs steps) visited := by
          by_contra hreleased
          exact hnot ((hsettled v hv).mpr hreleased)
        obtain ⟨a, hpair, ha⟩ := mem_unreleased.mp htodo
        have hdepends := mem_dependencyPairs.mp hpair
        obtain ⟨step, hstep, _, hlisted⟩ := hdepends
        exact ⟨a, ⟨hnamed step hstep a hlisted, ha⟩, mem_dependencyPairs.mp hpair⟩
    have hall : ∀ v ∈ steps.map WorkflowStep.id, v ∈ visited := by
      intro v hv
      by_contra hnot
      exact Set.eq_empty_iff_forall_notMem.mp hempty v ⟨hv, hnot⟩
    have hperm := (List.perm_ext_iff_of_nodup hnodup hids).mpr
      fun v => ⟨hsubset v, hall v⟩
    rw [hperm.length_eq, List.length_map]

/-- For steps with distinct names that only depend on each other the check succeeds exactly when
the dependencies have no cycle, and the only other end is the error that there is one. -/
theorem validateAcyclicDependencies_ok_iff {steps : List WorkflowStep}
    (hids : (steps.map WorkflowStep.id).Nodup)
    (hnamed : ∀ step ∈ steps, ∀ dependency ∈ step.dependsOn,
      dependency ∈ steps.map WorkflowStep.id) :
    (validateAcyclicDependencies steps = .ok () ↔ Acyclic (DependsOn steps)) ∧
      (validateAcyclicDependencies steps = .ok () ∨
        validateAcyclicDependencies steps = .error containsCycle) := by
  obtain ⟨index, hindex, hindexes⟩ := Indexes.indexDependencies steps
  have hpairs : ∀ pair ∈ dependencyPairs steps, pair.2 ∈ steps.map WorkflowStep.id := by
    rintro ⟨a, b⟩ hpair
    obtain ⟨step, hstep, rfl, _⟩ := mem_dependencyPairs.mp hpair
    exact List.mem_map_of_mem hstep
  have hbound : (steps.map WorkflowStep.id).length ≤ ([] : List Text).length + steps.length := by
    simp
  obtain ⟨last, visited, hrun, hready, hvisits, hacc⟩ :=
    (Visits.first hindexes hpairs).run hindexes.outgoing hbound (by simp)
  have hlength := hvisits.length_eq_iff hids hnamed hready hacc
  have hresult : validateAcyclicDependencies steps =
      if last.visited ≠ steps.length then .error containsCycle else .ok () := by
    rw [validateAcyclicDependencies, hindex]
    simp only [bind, Except.bind]
    rw [hrun]
  rw [hresult, ← hlength]
  by_cases hall : last.visited = steps.length <;> simp [hall]

/-- A step that lists its dependency twice, and one that depends on nothing. -/
def twiceListedSteps : List WorkflowStep :=
  [{ id := "test".toList, title := "Test".toList, agent := "runner".toList,
     dependsOn := ["build".toList, "build".toList] },
   { id := "build".toList, title := "Build".toList, agent := "runner".toList }]

theorem validateAcyclicDependencies_twiceListed :
    (validateAcyclicDependencies twiceListedSteps = .ok () ↔
        Acyclic (DependsOn twiceListedSteps)) ∧
      (validateAcyclicDependencies twiceListedSteps = .ok () ∨
        validateAcyclicDependencies twiceListedSteps = .error containsCycle) :=
  validateAcyclicDependencies_ok_iff (by decide) (by decide)

end Codewith.Workflow
