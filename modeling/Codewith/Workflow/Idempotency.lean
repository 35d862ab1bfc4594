import Codewith.Workflow.Runs

/-!
# Creating a run once

What `create_workflow_run` does to the table of runs, and when a request that is repeated finds the
run that it has created: exactly if its key is stored as it was given.
-/

namespace Codewith.Workflow

open Lib
open GoalStore (ThreadId textLe)

section

variable {parseWorkflowYaml : Text → Except Text WorkflowSpec} {redactStateString : Text → Text}
  {db db' : Db} {params : WorkflowRunCreateParams} {ids : WorkflowRunIds} {nowMs : Int}
  {snapshot : WorkflowRunSnapshot}

/-! ## The identity of runs -/

/-- The columns of a run that no statement changes. -/
structure RunIdentity where
  runId : Text
  workflowRecordId : Text
  idempotencyKey : Option Text
  deriving DecidableEq, Repr

def WorkflowRun.identity (run : WorkflowRun) : RunIdentity :=
  ⟨run.runId, run.workflowRecordId, run.idempotencyKey⟩

def Db.identities (db : Db) : List RunIdentity := db.runs.map WorkflowRun.identity

/-- The primary key and the unique index of the table of runs. -/
structure Db.KeysUnique (db : Db) : Prop where
  ids : (db.identities.map RunIdentity.runId).Nodup
  keys : ∀ a ∈ db.identities, ∀ b ∈ db.identities, a.workflowRecordId = b.workflowRecordId →
    a.idempotencyKey = b.idempotencyKey → a.idempotencyKey.isSome → a = b

theorem Db.KeysUnique.eq_of_runId_eq (h : db.KeysUnique) {a b : RunIdentity}
    (ha : a ∈ db.identities) (hb : b ∈ db.identities) (hid : a.runId = b.runId) : a = b :=
  List.inj_on_of_nodup_map h.ids ha hb hid

theorem run?_isSome_of_mem {runId recordId : Text} {key : Option Text}
    (h : ⟨runId, recordId, key⟩ ∈ db.identities) : ∃ run, db.run? runId = some run ∧
      run.runId = runId := by
  obtain ⟨run, hrun, hid⟩ := List.mem_map.1 h
  have hfound : (db.run? runId).isSome := by
    rw [Db.run?, List.find?_isSome]
    exact ⟨run, hrun, by simpa [WorkflowRun.identity] using congrArg RunIdentity.runId hid⟩
  obtain ⟨found, hfound⟩ := Option.isSome_iff_exists.1 hfound
  exact ⟨found, hfound, by simpa using List.find?_some hfound⟩

theorem mem_identities_of_runIdByIdempotency {recordId key runId : Text}
    (h : db.runIdByIdempotency recordId key = some runId) :
    ⟨runId, recordId, some key⟩ ∈ db.identities := by
  obtain ⟨run, hrun, rfl⟩ := Option.map_eq_some_iff.1 h
  have hkey := List.find?_some hrun
  simp only [Bool.and_eq_true, decide_eq_true_eq] at hkey
  refine List.mem_map.2 ⟨run, List.mem_of_find?_eq_some hrun, ?_⟩
  rw [WorkflowRun.identity, hkey.1, hkey.2]

theorem mem_identities_of_snapshot {recordId key : Text}
    (h : db.workflowRunSnapshotByIdempotency recordId key = some snapshot) :
    ⟨snapshot.run.runId, recordId, some key⟩ ∈ db.identities := by
  simp only [Db.workflowRunSnapshotByIdempotency, Option.bind_eq_bind, Option.bind_eq_some_iff] at h
  obtain ⟨runId, hrunId, run, hrun, hsnapshot⟩ := h
  obtain rfl := Option.some.inj hsnapshot
  have hid : run.runId = runId := by simpa using List.find?_some hrun
  rw [Db.snapshot, hid]
  exact mem_identities_of_runIdByIdempotency hrunId

/-- A run is found by the key it is stored with. -/
theorem Db.KeysUnique.snapshot_of_mem (h : db.KeysUnique) {recordId key runId : Text}
    (hmem : ⟨runId, recordId, some key⟩ ∈ db.identities) :
    ∃ found, db.workflowRunSnapshotByIdempotency recordId key = some found ∧
      found.run.runId = runId := by
  obtain ⟨other, hother⟩ : ∃ other, db.runIdByIdempotency recordId key = some other := by
    rw [← Option.isSome_iff_exists, Db.runIdByIdempotency, Option.isSome_map, List.find?_isSome]
    obtain ⟨run, hrun, hid⟩ := List.mem_map.1 hmem
    refine ⟨run, hrun, ?_⟩
    rw [WorkflowRun.identity, RunIdentity.mk.injEq] at hid
    simp [hid.2.1, hid.2.2]
  have hsame : (⟨other, recordId, some key⟩ : RunIdentity) = ⟨runId, recordId, some key⟩ :=
    h.keys _ (mem_identities_of_runIdByIdempotency hother) _ hmem rfl rfl rfl
  obtain rfl : other = runId := congrArg RunIdentity.runId hsame
  obtain ⟨run, hrun, hid⟩ := run?_isSome_of_mem hmem
  refine ⟨db.snapshot run, ?_, hid⟩
  simp [Db.workflowRunSnapshotByIdempotency, hother, hrun]

/-! ## What creating a run does -/

variable (parseWorkflowYaml) in
/-- The spec of a request exists and can be read, and so does the thread it runs in. -/
def Db.Admits (db : Db) (params : WorkflowRunCreateParams) : Prop :=
  ∃ record sourceThreadId spec,
    db.specs.find? (fun record => record.workflowRecordId = params.workflowRecordId) = some record ∧
      resolveRunSourceThreadId params record = .ok sourceThreadId ∧
        (∀ threadId ∈ sourceThreadId, threadId ∈ db.threads) ∧
          parseWorkflowYaml record.sourceYaml = .ok spec

/-- The rest of a run, apart from its row. -/
structure SameRuns (db db' : Db) : Prop where
  runs : db'.runs = db.runs
  specs : db'.specs = db.specs
  threads : db'.threads = db.threads

theorem SameRuns.refl (db : Db) : SameRuns db db := ⟨rfl, rfl, rfl⟩

theorem SameRuns.trans {a b c : Db} (h : SameRuns a b) (h' : SameRuns b c) : SameRuns a c :=
  ⟨h'.runs.trans h.runs, h'.specs.trans h.specs, h'.threads.trans h.threads⟩

theorem insertWorkflowRunStep_sameRuns {entry : WorkflowStep × Nat} {u : Unit}
    (h : insertWorkflowRunStep redactStateString ids nowMs entry db = (.ok u, db')) :
    SameRuns db db' := by
  simp only [insertWorkflowRunStep, Exec.bind_eq_ok, Exec.gets_eq_ok, Store.constrain_eq_ok,
    Exec.modify_eq_ok] at h
  obtain ⟨_, _, ⟨-, rfl⟩, _, _, ⟨-, rfl⟩, _, _, ⟨-, rfl⟩, rfl⟩ := h
  exact ⟨rfl, rfl, rfl⟩

theorem insertWorkflowRunStepDependency_sameRuns {runId stepId dependsOnStepId : Text} {u : Unit}
    (h : insertWorkflowRunStepDependency runId stepId dependsOnStepId db = (.ok u, db')) :
    SameRuns db db' := by
  simp only [insertWorkflowRunStepDependency, Exec.bind_eq_ok, Exec.gets_eq_ok,
    Store.constrain_eq_ok, Exec.modify_eq_ok] at h
  obtain ⟨_, _, ⟨-, rfl⟩, _, _, ⟨-, rfl⟩, _, _, ⟨-, rfl⟩, _, _, ⟨-, rfl⟩, rfl⟩ := h
  exact ⟨rfl, rfl, rfl⟩

theorem insertWorkflowRunStepVerifier_sameRuns {stepId : Text} {verifier : WorkflowVerifier}
    {u : Unit} (h : insertWorkflowRunStepVerifier ids nowMs stepId verifier db = (.ok u, db')) :
    SameRuns db db' := by
  simp only [insertWorkflowRunStepVerifier, Exec.bind_eq_ok, Exec.gets_eq_ok,
    Store.constrain_eq_ok, Exec.modify_eq_ok] at h
  obtain ⟨_, _, ⟨-, rfl⟩, _, _, ⟨-, rfl⟩, _, _, ⟨-, rfl⟩, rfl⟩ := h
  exact ⟨rfl, rfl, rfl⟩

theorem insertWorkflowRunSteps_sameRuns {spec : WorkflowSpec} {u : Unit}
    (h : insertWorkflowRunSteps redactStateString ids spec nowMs db = (.ok u, db')) :
    SameRuns db db' := by
  obtain ⟨_, middle, hsteps, hrest⟩ := Exec.bind_eq_ok.1 h
  have hfirst : SameRuns db middle :=
    Exec.forEach_rel SameRuns.refl (fun _ _ _ => SameRuns.trans)
      (fun entry _ s t hrun => insertWorkflowRunStep_sameRuns hrun) hsteps
  refine hfirst.trans (Exec.forEach_rel SameRuns.refl (fun _ _ _ => SameRuns.trans) ?_ hrest)
  intro step _ s t hrun
  obtain ⟨_, inner, hdependencies, hverifiers⟩ := Exec.bind_eq_ok.1 hrun
  have hinner : SameRuns s inner :=
    Exec.forEach_rel SameRuns.refl (fun _ _ _ => SameRuns.trans)
      (fun _ _ _ _ hrun => insertWorkflowRunStepDependency_sameRuns hrun) hdependencies
  exact hinner.trans (Exec.forEach_rel SameRuns.refl (fun _ _ _ => SameRuns.trans)
    (fun _ _ _ _ hrun => insertWorkflowRunStepVerifier_sameRuns hrun) hverifiers)

theorem insertWorkflowRun_eq_ok {row : WorkflowRun} {inserted : Bool}
    (h : insertWorkflowRun row db = (.ok inserted, db')) :
    inserted = false ∧ db = db' ∨
      inserted = true ∧ db' = { db with runs := db.runs ++ [row] } ∧
        (∀ run ∈ db.runs, run.runId ≠ row.runId) ∧
          ∀ run ∈ db.runs, run.workflowRecordId = row.workflowRecordId →
            row.idempotencyKey.isSome → run.idempotencyKey ≠ row.idempotencyKey := by
  obtain ⟨runs, _, hruns, h⟩ := Exec.bind_eq_ok.1 h
  obtain ⟨rfl, rfl⟩ := Exec.gets_eq_ok.1 hruns
  rw [Exec.ite_run] at h
  split at h
  · obtain ⟨rfl, rfl⟩ := Exec.pure_eq_ok.1 h
    exact .inl ⟨rfl, rfl⟩
  · rename_i hconflict
    simp only [Exec.bind_eq_ok, Store.constrain_eq_ok, Exec.modify_eq_ok, Exec.pure_eq_ok] at h
    obtain ⟨_, _, ⟨hfresh, rfl⟩, _, _, rfl, rfl, rfl⟩ := h
    refine .inr ⟨rfl, rfl, hfresh, ?_⟩
    intro run hrun hrecord hsome hkey
    apply hconflict
    rw [List.any_eq_true]
    exact ⟨run, hrun, by simp [hrecord, hsome, hkey]⟩

/-- The run of a new row. -/
theorem run?_append_of_fresh {row : WorkflowRun} {runs : List WorkflowRun}
    (hruns : db.runs = runs ++ [row]) (hfresh : ∀ run ∈ runs, run.runId ≠ row.runId) :
    db.run? row.runId = some row := by
  have hnone : runs.find? (fun run => run.runId = row.runId) = none := by
    rw [List.find?_eq_none]
    intro run hrun
    simpa using hfresh run hrun
  rw [Db.run?, hruns, List.find?_append, hnone]
  simp

variable (redactStateString) in
/-- The identity that a request stores. -/
def WorkflowRunCreateParams.storedIdentity (params : WorkflowRunCreateParams) (runId : Text) :
    RunIdentity :=
  ⟨runId, params.workflowRecordId, params.idempotencyKey.map redactStateString⟩

/-- A new run: its id and its key were not there. -/
structure Inserts (redactStateString : Text → Text) (params : WorkflowRunCreateParams)
    (runId : Text) (db db' : Db) : Prop where
  identities : db'.identities = db.identities ++ [params.storedIdentity redactStateString runId]
  specs : db'.specs = db.specs
  threads : db'.threads = db.threads
  fresh : ∀ identity ∈ db.identities, identity.runId ≠ runId
  unused : ∀ identity ∈ db.identities, identity.workflowRecordId = params.workflowRecordId →
    params.idempotencyKey.isSome → identity.idempotencyKey ≠
      params.idempotencyKey.map redactStateString

theorem insertRunWithRows_eq_ok {record : WorkflowSpecRecord} {sourceThreadId : Option ThreadId}
    {spec : WorkflowSpec} (hrecord : record.workflowRecordId = params.workflowRecordId)
    (hnone : (params.idempotencyKey.bind fun key =>
      db.workflowRunSnapshotByIdempotency record.workflowRecordId key) = none)
    (h : insertRunWithRows redactStateString params record sourceThreadId spec ids nowMs db =
      (.ok snapshot, db')) :
    snapshot.run.runId = ids.runId ∧ Inserts redactStateString params ids.runId db db' := by
  obtain ⟨inserted, middle, hinsert, h⟩ := Exec.bind_eq_ok.1 h
  rw [Exec.ite_run] at h
  rcases insertWorkflowRun_eq_ok hinsert with ⟨rfl, rfl⟩ | ⟨rfl, rfl, hfresh, hunused⟩
  · -- the run that was not found before is not found now
    rw [if_neg (by simp)] at h
    cases hkey : params.idempotencyKey with
    | none => simp [hkey, skippedRun, Store.bail] at h
    | some key =>
        rw [hkey, Option.bind_some] at hnone
        simp [hkey, skippedRun, Exec.bind_eq_ok, hnone, Store.bail] at h
  · rw [if_pos rfl] at h
    obtain ⟨_, last, hsteps, h⟩ := Exec.bind_eq_ok.1 h
    have hsame := insertWorkflowRunSteps_sameRuns hsteps
    obtain ⟨found, _, hfound, h⟩ := Exec.bind_eq_ok.1 h
    obtain ⟨rfl, rfl⟩ := Exec.gets_eq_ok.1 hfound
    have hrun : last.run? ids.runId =
        some (createdRun redactStateString params record sourceThreadId spec ids.runId nowMs) :=
      run?_append_of_fresh hsame.runs hfresh
    rw [hrun] at h
    obtain ⟨rfl, rfl⟩ := Exec.pure_eq_ok.1 h
    refine ⟨rfl, ⟨?_, hsame.specs, hsame.threads, ?_, ?_⟩⟩
    · rw [Db.identities, hsame.runs, List.map_append]
      simp [Db.identities, WorkflowRun.identity, createdRun, hrecord,
        WorkflowRunCreateParams.storedIdentity]
    · intro identity hidentity
      obtain ⟨run, hrun, rfl⟩ := List.mem_map.1 hidentity
      exact hfresh run hrun
    · intro identity hidentity hsameRecord hsome
      obtain ⟨run, hrun, rfl⟩ := List.mem_map.1 hidentity
      exact hunused run hrun (hsameRecord.trans hrecord.symm) (by simpa [createdRun] using hsome)

/-- What a request reads before its transaction. -/
theorem getWorkflowSpec_eq_ok {recordId : Text} {record : WorkflowSpecRecord} :
    getWorkflowSpec recordId db = (.ok record, db') ↔
      db.specs.find? (fun record => record.workflowRecordId = recordId) = some record ∧
        db = db' := by
  unfold getWorkflowSpec
  rw [Exec.bind_run_ok (Exec.gets_run _ db)]
  cases db.specs.find? (fun record => record.workflowRecordId = recordId) with
  | none => simp [Store.bail]
  | some record => simp

theorem resolveRunSourceWorkspace_eq_ok {sourceThreadId : Option ThreadId} {u : Unit} :
    resolveRunSourceWorkspace sourceThreadId db = (.ok u, db') ↔
      (∀ threadId ∈ sourceThreadId, threadId ∈ db.threads) ∧ db = db' := by
  cases sourceThreadId with
  | none => simp [resolveRunSourceWorkspace]
  | some threadId =>
      simp [resolveRunSourceWorkspace, Exec.bind_eq_ok, Store.ensure_eq_ok, and_comm]

theorem transaction_eq_ok {A : Type} {m : Tx A} {a : A}
    (h : Exec.transaction m db = (.ok a, db')) : m db = (.ok a, db') := by
  rcases hrun : m db with ⟨error | b, last⟩
  · rw [Exec.transaction_run_error hrun] at h
    cases h
  · rw [Exec.transaction_run_ok hrun] at h
    exact h

/-- A request that returns has found its run, or has inserted one. -/
theorem createWorkflowRun_eq_ok
    (h : createWorkflowRun parseWorkflowYaml redactStateString params ids nowMs db =
      (.ok snapshot, db')) :
    db.Admits parseWorkflowYaml params ∧
      ((db' = db ∧ ∃ key, params.idempotencyKey = some key ∧
          db.workflowRunSnapshotByIdempotency params.workflowRecordId key = some snapshot) ∨
        snapshot.run.runId = ids.runId ∧ Inserts redactStateString params ids.runId db db') := by
  have h := transaction_eq_ok h
  simp only [Exec.bind_eq_ok, getWorkflowSpec_eq_ok, Store.ofResult_eq_ok,
    resolveRunSourceWorkspace_eq_ok, Exec.gets_eq_ok] at h
  obtain ⟨record, _, ⟨hrecord, rfl⟩, sourceThreadId, _, ⟨hsource, rfl⟩, _, _, ⟨hthread, rfl⟩, spec,
    _, ⟨hspec, rfl⟩, found, _, ⟨hfound, rfl⟩, h⟩ := h
  have hid : record.workflowRecordId = params.workflowRecordId := by
    simpa using List.find?_some hrecord
  refine ⟨⟨record, sourceThreadId, spec, hrecord, hsource, hthread, hspec⟩, ?_⟩
  cases found with
  | some found =>
      obtain ⟨rfl, rfl⟩ := Exec.pure_eq_ok.1 h
      obtain ⟨key, hkey, hsnapshot⟩ := Option.bind_eq_some_iff.1 hfound
      exact .inl ⟨rfl, key, hkey, hid ▸ hsnapshot⟩
  | none => exact .inr (insertRunWithRows_eq_ok hid hfound h)

/-- A request whose key is stored as it is given returns that run and changes nothing. -/
theorem createWorkflowRun_of_found (hadmits : db.Admits parseWorkflowYaml params) {key : Text}
    (hkey : params.idempotencyKey = some key)
    (hfound : db.workflowRunSnapshotByIdempotency params.workflowRecordId key = some snapshot) :
    createWorkflowRun parseWorkflowYaml redactStateString params ids nowMs db =
      (.ok snapshot, db) := by
  obtain ⟨record, sourceThreadId, spec, hrecord, hsource, hthread, hspec⟩ := hadmits
  have hid : record.workflowRecordId = params.workflowRecordId := by
    simpa using List.find?_some hrecord
  apply Exec.transaction_run_ok
  rw [Exec.bind_run_ok (getWorkflowSpec_eq_ok.2 ⟨hrecord, rfl⟩),
    Exec.bind_run_ok (Store.ofResult_eq_ok.2 ⟨hsource, rfl⟩),
    Exec.bind_run_ok (resolveRunSourceWorkspace_eq_ok (u := ()).2 ⟨hthread, rfl⟩),
    Exec.bind_run_ok (Store.ofResult_eq_ok.2 ⟨hspec, rfl⟩), Exec.bind_run_ok (Exec.gets_run _ db),
    hkey, Option.bind_some, hid, hfound]
  rfl

end

/-! ## Histories of the store -/

section

variable (parseWorkflowYaml : Text → Except Text WorkflowSpec) (redactStateString : Text → Text)

/-- What other operations do: they may add specs and threads, save a spec again and change a run,
but they remove none of them and leave the identities of the runs. -/
structure OtherChange where
  apply : Db → Db
  identities : ∀ db, (apply db).identities = db.identities
  admits : ∀ db params, db.Admits parseWorkflowYaml params →
    (apply db).Admits parseWorkflowYaml params

inductive Operation
  | create (params : WorkflowRunCreateParams) (ids : WorkflowRunIds) (nowMs : Int)
  | other (change : OtherChange parseWorkflowYaml)

def applyOperation : Operation parseWorkflowYaml → Db → Db
  | .create params ids nowMs, db =>
      (createWorkflowRun parseWorkflowYaml redactStateString params ids nowMs db).2
  | .other change, db => change.apply db

/-- A history of the store. -/
abbrev Leads (db db' : Db) : Prop :=
  Reaches (applyOperation parseWorkflowYaml redactStateString) (fun _ _ => True) db db'

/-- After a request has returned a run, every request with its spec and key returns that run and
changes nothing, and none with another key returns it. -/
def CreatesOnce (initial : Db) (params : WorkflowRunCreateParams) : Prop :=
  ∀ db, Leads parseWorkflowYaml redactStateString initial db → ∀ ids nowMs snapshot db',
    createWorkflowRun parseWorkflowYaml redactStateString params ids nowMs db =
      (.ok snapshot, db') →
    ∀ later, Leads parseWorkflowYaml redactStateString db' later →
      later.Admits parseWorkflowYaml params ∧
      (∀ again : WorkflowRunCreateParams, again.workflowRecordId = params.workflowRecordId →
        again.idempotencyKey = params.idempotencyKey → later.Admits parseWorkflowYaml again →
          ∀ ids nowMs, ∃ found,
            createWorkflowRun parseWorkflowYaml redactStateString again ids nowMs
              later = (.ok found, later) ∧ found.run.runId = snapshot.run.runId) ∧
      ∀ other : WorkflowRunCreateParams, other.idempotencyKey ≠ params.idempotencyKey →
        ∀ ids nowMs found db'',
          createWorkflowRun parseWorkflowYaml redactStateString other ids nowMs
            later = (.ok found, db'') → found.run.runId ≠ snapshot.run.runId

variable {parseWorkflowYaml redactStateString} {db db' : Db} {params : WorkflowRunCreateParams}

/-! ## What every history keeps -/

theorem Inserts.keysUnique {runId : Text} (h : Inserts redactStateString params runId db db')
    (hunique : db.KeysUnique) : db'.KeysUnique where
  ids := by
    rw [h.identities, List.map_append, List.nodup_append]
    refine ⟨hunique.ids, by simp, ?_⟩
    intro id hid other hother
    obtain ⟨identity, hidentity, rfl⟩ := List.mem_map.1 hid
    obtain rfl : other = runId := by
      simpa [WorkflowRunCreateParams.storedIdentity] using hother
    exact h.fresh identity hidentity
  keys := by
    intro a ha b hb hrecord hkey hsome
    rw [h.identities, List.mem_append, List.mem_singleton] at ha hb
    -- a new row conflicts with none of the old ones
    have hconflict : ∀ identity ∈ db.identities,
        identity.workflowRecordId = params.workflowRecordId →
          identity.idempotencyKey = params.idempotencyKey.map redactStateString →
            ¬ (params.idempotencyKey.map redactStateString).isSome := by
      intro identity hidentity hsameRecord hsameKey hsomeKey
      rw [Option.isSome_map] at hsomeKey
      exact h.unused identity hidentity hsameRecord hsomeKey hsameKey
    rcases ha with ha | rfl
    · rcases hb with hb | rfl
      · exact hunique.keys a ha b hb hrecord hkey hsome
      · rw [hkey] at hsome
        exact absurd hsome (hconflict a ha hrecord hkey)
    · rcases hb with hb | rfl
      · exact absurd hsome (hconflict b hb hrecord.symm hkey.symm)
      · rfl

theorem Inserts.admits {runId : Text} (h : Inserts redactStateString params runId db db')
    {other : WorkflowRunCreateParams} (hadmits : db.Admits parseWorkflowYaml other) :
    db'.Admits parseWorkflowYaml other := by
  unfold Db.Admits at *
  rw [h.specs, h.threads]
  exact hadmits

/-- What an operation keeps: the keys, the identities that are there, and the requests that are
admitted. -/
structure Keeps (parseWorkflowYaml : Text → Except Text WorkflowSpec) (db db' : Db) : Prop where
  unique : db.KeysUnique → db'.KeysUnique
  identities : db.identities ⊆ db'.identities
  admits : ∀ params, db.Admits parseWorkflowYaml params → db'.Admits parseWorkflowYaml params

theorem createWorkflowRun_keeps {ids : WorkflowRunIds} {nowMs : Int}
    {snapshot : WorkflowRunSnapshot}
    (h : createWorkflowRun parseWorkflowYaml redactStateString params ids nowMs db =
      (.ok snapshot, db')) : Keeps parseWorkflowYaml db db' := by
  rcases (createWorkflowRun_eq_ok h).2 with ⟨rfl, -⟩ | ⟨-, hinserts⟩
  · exact ⟨id, List.Subset.refl _, fun _ => id⟩
  · refine ⟨hinserts.keysUnique, ?_, fun _ => hinserts.admits⟩
    rw [hinserts.identities]
    exact List.subset_append_left _ _

theorem Keeps.refl (db : Db) : Keeps parseWorkflowYaml db db :=
  ⟨id, List.Subset.refl _, fun _ => id⟩

theorem Keeps.trans {a b c : Db} (h : Keeps parseWorkflowYaml a b)
    (h' : Keeps parseWorkflowYaml b c) :
    Keeps parseWorkflowYaml a c :=
  ⟨h'.unique ∘ h.unique, fun _ hmem => h'.identities (h.identities hmem),
    fun params hadmits => h'.admits params (h.admits params hadmits)⟩

theorem OtherChange.keeps (change : OtherChange parseWorkflowYaml) (db : Db) :
    Keeps parseWorkflowYaml db (change.apply db) where
  unique := by
    intro h
    refine ⟨?_, ?_⟩
    · rw [change.identities]
      exact h.ids
    · rw [change.identities]
      exact h.keys
  identities := by
    rw [change.identities]
    exact List.Subset.refl _
  admits params := change.admits db params

theorem applyOperation_keeps (operation : Operation parseWorkflowYaml) (db : Db) :
    Keeps parseWorkflowYaml db
      (applyOperation parseWorkflowYaml redactStateString operation db) := by
  cases operation with
  | create params ids nowMs =>
      refine Exec.transaction_invariant ?_ (Keeps.refl db)
      intro snapshot db' hrun
      have hcreate : createWorkflowRun parseWorkflowYaml redactStateString params ids nowMs db =
          (.ok snapshot, db') := Exec.transaction_run_ok hrun
      exact createWorkflowRun_keeps hcreate
  | other change => exact change.keeps db

theorem Leads.keeps (h : Leads parseWorkflowYaml redactStateString db db') :
    Keeps parseWorkflowYaml db db' := by
  induction h with
  | start => exact Keeps.refl db
  | next operation _ _ ih => exact ih.trans (applyOperation_keeps operation _)

/-! ## Creating once -/

/-- A request with the same spec and key finds the run. -/
theorem createWorkflowRun_again {later : Db} (hunique : later.KeysUnique) {runId key : Text}
    (hkey : params.idempotencyKey = some key)
    (hmem : ⟨runId, params.workflowRecordId, some key⟩ ∈ later.identities)
    (hadmits : later.Admits parseWorkflowYaml params) (ids : WorkflowRunIds) (nowMs : Int) :
    ∃ found, createWorkflowRun parseWorkflowYaml redactStateString params ids nowMs later =
      (.ok found, later) ∧ found.run.runId = runId := by
  obtain ⟨found, hfound, hid⟩ := hunique.snapshot_of_mem hmem
  exact ⟨found, createWorkflowRun_of_found hadmits hkey hfound, hid⟩

/-- A request with another key returns another run. -/
theorem createWorkflowRun_other {later : Db} (hunique : later.KeysUnique)
    {runId recordId key : Text} (hmem : ⟨runId, recordId, some key⟩ ∈ later.identities)
    (hkey : params.idempotencyKey ≠ some key) {ids : WorkflowRunIds} {nowMs : Int}
    {found : WorkflowRunSnapshot}
    (h : createWorkflowRun parseWorkflowYaml redactStateString params ids nowMs later =
      (.ok found, db')) : found.run.runId ≠ runId := by
  rintro rfl
  rcases (createWorkflowRun_eq_ok h).2 with ⟨-, key', hkey', hfound⟩ | ⟨hid, hinserts⟩
  · have hsame := hunique.eq_of_runId_eq (mem_identities_of_snapshot hfound) hmem rfl
    have hkeys : some key' = some key := congrArg RunIdentity.idempotencyKey hsame
    exact hkey (hkey'.trans hkeys)
  · exact hinserts.fresh _ hmem hid

/-- The run that a request has returned is stored with the key of the request. -/
theorem mem_identities_of_createWorkflowRun {key : Text} (hkey : params.idempotencyKey = some key)
    (hredact : redactStateString key = key) {ids : WorkflowRunIds} {nowMs : Int}
    {snapshot : WorkflowRunSnapshot}
    (h : createWorkflowRun parseWorkflowYaml redactStateString params ids nowMs db =
      (.ok snapshot, db')) :
    ⟨snapshot.run.runId, params.workflowRecordId, some key⟩ ∈ db'.identities := by
  rcases (createWorkflowRun_eq_ok h).2 with ⟨rfl, key', hkey', hfound⟩ | ⟨hid, hinserts⟩
  · obtain rfl : key' = key := Option.some.inj (hkey'.symm.trans hkey)
    exact mem_identities_of_snapshot hfound
  · rw [hinserts.identities, List.mem_append, List.mem_singleton, hid]
    refine .inr ?_
    rw [WorkflowRunCreateParams.storedIdentity, hkey, Option.map_some, hredact]

/-- The first run of a store is found by a second request only if its key is stored as given. -/
theorem redact_eq_of_createsOnce {initial : Db} (hruns : initial.runs = []) {key : Text}
    (hkey : params.idempotencyKey = some key) {ids : WorkflowRunIds} {nowMs : Int}
    {snapshot : WorkflowRunSnapshot}
    (hcreate : createWorkflowRun parseWorkflowYaml redactStateString params ids nowMs initial =
      (.ok snapshot, db))
    (h : CreatesOnce parseWorkflowYaml redactStateString initial params) :
    redactStateString key = key := by
  have hnone : initial.identities = [] := by rw [Db.identities, hruns, List.map_nil]
  obtain ⟨hadmits, hagain, -⟩ := h initial .start ids nowMs snapshot db hcreate db .start
  obtain ⟨found, hfound, -⟩ := hagain params rfl rfl hadmits ids nowMs
  rcases (createWorkflowRun_eq_ok hcreate).2 with ⟨-, key', -, hold⟩ | ⟨-, hinserts⟩
  · have hmem := mem_identities_of_snapshot hold
    rw [hnone] at hmem
    cases hmem
  · have hone := hinserts.identities
    rw [hnone, List.nil_append] at hone
    rcases (createWorkflowRun_eq_ok hfound).2 with ⟨-, key', hkey', hfound⟩ | ⟨-, hinserts'⟩
    · have hmem := mem_identities_of_snapshot hfound
      rw [hone, List.mem_singleton, WorkflowRunCreateParams.storedIdentity] at hmem
      have hkeys := congrArg RunIdentity.idempotencyKey hmem
      simp only [hkey, Option.map_some, Option.some.injEq] at hkeys hkey'
      rw [← hkeys, hkey']
    · have hlength := congrArg List.length hinserts'.identities
      simp at hlength

/-- In a store whose specs and threads are there before its first run, a request that can be carried
out creates its run once if and only if its key is stored as it is given. -/
theorem createWorkflowRun_createsOnce_iff (parseWorkflowYaml : Text → Except Text WorkflowSpec)
    (redactStateString : Text → Text) (initial : Db) (hruns : initial.runs = [])
    (params : WorkflowRunCreateParams) (key : Text) (hkey : params.idempotencyKey = some key)
    (hcreate : ∃ ids nowMs snapshot db,
      createWorkflowRun parseWorkflowYaml redactStateString params ids nowMs initial =
        (.ok snapshot, db)) :
    CreatesOnce parseWorkflowYaml redactStateString initial params ↔
      redactStateString key = key := by
  constructor
  · intro h
    obtain ⟨ids, nowMs, snapshot, db, hcreate⟩ := hcreate
    exact redact_eq_of_createsOnce hruns hkey hcreate h
  · intro hredact db hdb ids nowMs snapshot db' hrun later hlater
    have hempty : initial.KeysUnique := by
      refine ⟨?_, ?_⟩ <;> simp [Db.identities, hruns]
    have hfirst := createWorkflowRun_keeps hrun
    have hkeeps := hfirst.trans hlater.keeps
    have hunique : later.KeysUnique := hkeeps.unique (hdb.keeps.unique hempty)
    have hmem := hlater.keeps.identities (mem_identities_of_createWorkflowRun hkey hredact hrun)
    refine ⟨hkeeps.admits params (createWorkflowRun_eq_ok hrun).1, ?_, ?_⟩
    · intro again hrecord hsame hadmits ids nowMs
      rw [← hrecord] at hmem
      exact createWorkflowRun_again hunique (hsame.trans hkey) hmem hadmits ids nowMs
    · intro other hother ids nowMs found db'' hfound
      exact createWorkflowRun_other hunique hmem (hkey ▸ hother) hfound

/-- A spec of one step. -/
def oneStepSpec : WorkflowSpec where
  executionDefaults := ⟨"gateway".toList, "provider".toList⟩
  limits := ⟨1, 1, 1, 1000⟩
  steps := [{ id := "build".toList, title := "Build".toList, agent := "builder".toList }]

/-- A store with one spec. -/
def oneSpecDb : Db where
  threads := []
  specs := [⟨"record".toList, "demo".toList, none, "yaml".toList⟩]

/-- The redactor on keys that hold no secret, apart from one that looks like an API key. -/
def redactSampleKey (text : Text) : Text :=
  if text = "sk-abcdefgh".toList then "[REDACTED_SECRET]".toList else text

def requestWith (key : Text) : WorkflowRunCreateParams :=
  ⟨"record".toList, none, some key⟩

def sampleIds : WorkflowRunIds where
  runId := "run".toList
  stepRunId _ := "step".toList
  verifierRunId _ _ := "verifier".toList

theorem requestWith_returns {key : Text} (hok : (createWorkflowRun (fun _ => .ok oneStepSpec)
      redactSampleKey (requestWith key) sampleIds 0 oneSpecDb).1.isOk = true) :
    ∃ ids nowMs snapshot db, createWorkflowRun (fun _ => .ok oneStepSpec) redactSampleKey
      (requestWith key) ids nowMs oneSpecDb = (.ok snapshot, db) := by
  rcases hrun : createWorkflowRun (fun _ => .ok oneStepSpec) redactSampleKey (requestWith key)
    sampleIds 0 oneSpecDb with ⟨error | snapshot, db⟩
  · rw [hrun] at hok
    cases hok
  · exact ⟨sampleIds, 0, snapshot, db, hrun⟩

theorem createWorkflowRun_createsOnce_nightly :
    CreatesOnce (fun _ => .ok oneStepSpec) redactSampleKey oneSpecDb
      (requestWith "nightly".toList) := by
  apply (createWorkflowRun_createsOnce_iff (fun _ => .ok oneStepSpec) redactSampleKey oneSpecDb rfl
    (requestWith "nightly".toList) "nightly".toList rfl
    (requestWith_returns (by decide +kernel))).2
  decide

/-- A key that looks like a secret is stored as another one, and the second request fails. -/
theorem createWorkflowRun_not_createsOnce_secret :
    ¬ CreatesOnce (fun _ => .ok oneStepSpec) redactSampleKey oneSpecDb
      (requestWith "sk-abcdefgh".toList) := by
  intro h
  obtain ⟨ids, nowMs, snapshot, db, hcreate⟩ :=
    requestWith_returns (by decide +kernel : (createWorkflowRun (fun _ => .ok oneStepSpec)
      redactSampleKey (requestWith "sk-abcdefgh".toList) sampleIds 0 oneSpecDb).1.isOk = true)
  exact absurd (redact_eq_of_createsOnce rfl rfl hcreate h) (by decide)

end

end Codewith.Workflow
