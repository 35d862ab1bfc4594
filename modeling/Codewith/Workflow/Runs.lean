import Codewith.Lib.Store
import Codewith.Lib.Table
import Codewith.Lib.Transaction
import Codewith.ScheduleStore.Schema
import Codewith.Workflow.Schema

/-!
# Creating workflow runs

`create_workflow_run` of `workflows.rs`, with the rows that it writes.  Parsing the source of a spec
and redacting a text are parameters; identifiers and the clock are inputs.  The timers and the
events of a run, and the paths of its workspace, are left out.

A run is found again by its idempotency key.  The key is looked up as it was given and stored as it
is redacted.
-/

namespace Codewith.Workflow

open Lib
open GoalStore (ThreadId textLe)
open ScheduleStore (hasText)

structure WorkflowVerifier where
  id : Text
  kind : Text
  maxAttempts : Option Nat
  deriving DecidableEq, Repr

structure WorkflowStep where
  id : Text
  title : Text
  agent : Text
  model : Option WorkflowModelRoute := none
  workspace : Option WorkflowWorkspaceMode := none
  parallelGroup : Option Text := none
  dependsOn : List Text := []
  approvalGate : Option Text := none
  verifiers : List WorkflowVerifier := []
  deriving DecidableEq, Repr

structure WorkflowSpec where
  executionDefaults : WorkflowModelRoute
  limits : WorkflowLimits
  steps : List WorkflowStep
  deriving DecidableEq, Repr

structure WorkflowSpecRecord where
  workflowRecordId : Text
  specWorkflowId : Text
  sourceThreadId : Option ThreadId
  sourceYaml : Text
  deriving DecidableEq, Repr

structure Db where
  threads : List ThreadId
  specs : List WorkflowSpecRecord
  runs : List WorkflowRun := []
  steps : List WorkflowRunStepRow := []
  dependencies : List WorkflowRunStepDependency := []
  verifiers : List WorkflowRunStepVerifier := []
  deriving DecidableEq, Repr

abbrev Tx (A : Type) := Exec Db StoreError A

structure WorkflowRunCreateParams where
  workflowRecordId : Text
  sourceThreadId : Option ThreadId
  idempotencyKey : Option Text
  deriving DecidableEq, Repr

/-- The new identifiers of a run and its rows. -/
structure WorkflowRunIds where
  runId : Text
  stepRunId : Nat → Text
  verifierRunId : Text → Text → Text

/-! ## Snapshots -/

def Db.run? (db : Db) (runId : Text) : Option WorkflowRun :=
  db.runs.find? fun run => run.runId = runId

/-- `ORDER BY step_id, depends_on_step_id`, of one step. -/
def Db.dependsOn (db : Db) (runId stepId : Text) : List Text :=
  ((db.dependencies.filter fun dependency =>
    dependency.runId = runId && dependency.stepId = stepId).map (·.dependsOnStepId)).insertionSort
      fun a b => textLe a b = true

/-- `ORDER BY sequence, step_id`. -/
def Db.runSteps (db : Db) (runId : Text) : List WorkflowRunStep :=
  (Table.selectOrdered (fun step => step.runId = runId)
    (fun a b => a.sequence < b.sequence ∨ a.sequence = b.sequence ∧ textLe a.stepId b.stepId = true)
    db.steps).map fun step => { step with dependsOn := db.dependsOn runId step.stepId }

/-- `ORDER BY step_id, verifier_id`. -/
def Db.runVerifiers (db : Db) (runId : Text) : List WorkflowRunStepVerifier :=
  Table.selectOrdered (fun verifier => verifier.runId = runId)
    (fun a b => a.stepId ≠ b.stepId ∧ textLe a.stepId b.stepId = true ∨
      a.stepId = b.stepId ∧ textLe a.verifierId b.verifierId = true) db.verifiers

def Db.snapshot (db : Db) (run : WorkflowRun) : WorkflowRunSnapshot where
  run := run
  steps := db.runSteps run.runId
  verifiers := db.runVerifiers run.runId

def snapshotWorkflowRun (runId : Text) : Tx WorkflowRunSnapshot := do
  match (← Exec.gets fun db => (db.run? runId).map db.snapshot) with
  | some snapshot => pure snapshot
  | none => Store.bail ("workflow run ".toList ++ runId ++ " does not exist".toList)

def Db.runIdByIdempotency (db : Db) (workflowRecordId idempotencyKey : Text) : Option Text :=
  (db.runs.find? fun run =>
    run.workflowRecordId = workflowRecordId && run.idempotencyKey = some idempotencyKey).map
      (·.runId)

def Db.workflowRunSnapshotByIdempotency (db : Db) (workflowRecordId idempotencyKey : Text) :
    Option WorkflowRunSnapshot := do
  let runId ← db.runIdByIdempotency workflowRecordId idempotencyKey
  let run ← db.run? runId
  pure (db.snapshot run)

/-! ## Before the transaction -/

def getWorkflowSpec (workflowRecordId : Text) : Tx WorkflowSpecRecord := do
  match (← Exec.gets fun db =>
      db.specs.find? fun record => record.workflowRecordId = workflowRecordId) with
  | some record => pure record
  | none => Store.bail ("workflow spec ".toList ++ workflowRecordId ++ " does not exist".toList)

def resolveRunSourceThreadId (params : WorkflowRunCreateParams) (record : WorkflowSpecRecord) :
    Except Text (Option ThreadId) :=
  match params.sourceThreadId, record.sourceThreadId with
  | some requested, some specThreadId =>
      if requested ≠ specThreadId then
        .error ("workflow spec ".toList ++ record.workflowRecordId ++
          " belongs to a different source thread".toList)
      else .ok (some requested)
  | some requested, none => .ok (some requested)
  | none, specThreadId => .ok specThreadId

/-- The thread of the run exists. -/
def resolveRunSourceWorkspace : Option ThreadId → Tx Unit
  | none => pure ()
  | some threadId => do
      let threads ← Exec.gets Db.threads
      Store.ensure (threadId ∈ threads)
        ("workflow source thread ".toList ++ threadId.uuid ++ " does not exist".toList)

/-! ## The rows of a run -/

section

variable (parseWorkflowYaml : Text → Except Text WorkflowSpec) (redactStateString : Text → Text)

def createdRun (params : WorkflowRunCreateParams) (record : WorkflowSpecRecord)
    (sourceThreadId : Option ThreadId) (spec : WorkflowSpec) (runId : Text) (nowMs : Int) :
    WorkflowRun :=
  { runId
    workflowRecordId := record.workflowRecordId
    sourceThreadId
    idempotencyKey := params.idempotencyKey.map redactStateString
    specWorkflowId := record.specWorkflowId
    status := .pending
    executionDefaults := spec.executionDefaults
    limits := spec.limits
    createdAtMs := nowMs
    updatedAtMs := nowMs }

/-- `ON CONFLICT(workflow_record_id, idempotency_key) DO NOTHING`: two rows without a key do not
conflict. -/
def insertWorkflowRun (row : WorkflowRun) : Tx Bool := do
  let runs ← Exec.gets Db.runs
  if runs.any fun run => run.workflowRecordId = row.workflowRecordId &&
      row.idempotencyKey.isSome && run.idempotencyKey = row.idempotencyKey then pure false
  else do
    Store.constrain (∀ run ∈ runs, run.runId ≠ row.runId)
    Exec.modify fun db => { db with runs := db.runs ++ [row] }
    pure true

def insertWorkflowRunStep (ids : WorkflowRunIds) (nowMs : Int) (entry : WorkflowStep × Nat) :
    Tx Unit := do
  let steps ← Exec.gets Db.steps
  let title := redactStateString entry.1.title
  Store.constrain (hasText entry.1.id = true ∧ hasText title = true ∧ hasText entry.1.agent = true)
  Store.constrain (∀ step ∈ steps, step.stepRunId ≠ ids.stepRunId entry.2 ∧
    (step.runId = ids.runId → step.stepId ≠ entry.1.id))
  Exec.modify fun db =>
    { db with
      steps := db.steps ++
        [{ stepRunId := ids.stepRunId entry.2
           runId := ids.runId
           stepId := entry.1.id
           sequence := entry.2
           title
           agentId := entry.1.agent
           status := .pending
           parallelGroup := entry.1.parallelGroup
           approvalGate := entry.1.approvalGate
           approvalState := entry.1.approvalGate.map fun _ => .pending
           modelRoute := entry.1.model
           workspace := entry.1.workspace
           createdAtMs := nowMs
           updatedAtMs := nowMs }] }

/-- Both steps of a dependency exist and differ. -/
def insertWorkflowRunStepDependency (runId stepId dependsOnStepId : Text) : Tx Unit := do
  let db ← Exec.gets id
  Store.constrain (stepId ≠ dependsOnStepId)
  Store.constrain (⟨runId, stepId, dependsOnStepId⟩ ∉ db.dependencies)
  Store.constrain (∃ step ∈ db.steps, step.runId = runId ∧ step.stepId = dependsOnStepId)
  Exec.modify fun db =>
    { db with dependencies := db.dependencies ++ [⟨runId, stepId, dependsOnStepId⟩] }

def insertWorkflowRunStepVerifier (ids : WorkflowRunIds) (nowMs : Int) (stepId : Text)
    (verifier : WorkflowVerifier) : Tx Unit := do
  let verifiers ← Exec.gets Db.verifiers
  Store.constrain (hasText verifier.id = true ∧ hasText verifier.kind = true ∧
    ∀ maxAttempts ∈ verifier.maxAttempts, 1 ≤ maxAttempts)
  Store.constrain (∀ row ∈ verifiers, row.verifierRunId ≠ ids.verifierRunId stepId verifier.id ∧
    (row.runId = ids.runId → row.stepId = stepId → row.verifierId ≠ verifier.id))
  Exec.modify fun db =>
    { db with
      verifiers := db.verifiers ++
        [{ verifierRunId := ids.verifierRunId stepId verifier.id
           runId := ids.runId
           stepId
           verifierId := verifier.id
           verifierType := verifier.kind
           status := .pending
           maxAttempts := verifier.maxAttempts.map Int.ofNat
           createdAtMs := nowMs
           updatedAtMs := nowMs }] }

def insertWorkflowRunSteps (ids : WorkflowRunIds) (spec : WorkflowSpec) (nowMs : Int) :
    Tx Unit := do
  Exec.forEach (insertWorkflowRunStep redactStateString ids nowMs) spec.steps.zipIdx
  Exec.forEach (fun step : WorkflowStep => do
    Exec.forEach (insertWorkflowRunStepDependency ids.runId step.id) step.dependsOn
    Exec.forEach (insertWorkflowRunStepVerifier ids nowMs step.id) step.verifiers) spec.steps

/-! ## Creating a run -/

/-- The run that stands for one that was not inserted. -/
def skippedRun (workflowRecordId : Text) : Option Text → Tx WorkflowRunSnapshot
  | none => Store.bail "workflow run insert was skipped unexpectedly".toList
  | some idempotencyKey => do
      match (← Exec.gets fun db =>
          db.workflowRunSnapshotByIdempotency workflowRecordId idempotencyKey) with
      | some snapshot => pure snapshot
      | none => Store.bail "idempotent workflow run was not found".toList

/-- The transaction after the run was not found by its key. -/
def insertRunWithRows (params : WorkflowRunCreateParams) (record : WorkflowSpecRecord)
    (sourceThreadId : Option ThreadId) (spec : WorkflowSpec) (ids : WorkflowRunIds) (nowMs : Int) :
    Tx WorkflowRunSnapshot := do
  let inserted ← insertWorkflowRun
    (createdRun redactStateString params record sourceThreadId spec ids.runId nowMs)
  if inserted then do
    insertWorkflowRunSteps redactStateString ids spec nowMs
    snapshotWorkflowRun ids.runId
  else skippedRun record.workflowRecordId params.idempotencyKey

def createWorkflowRun (params : WorkflowRunCreateParams) (ids : WorkflowRunIds) (nowMs : Int) :
    Tx WorkflowRunSnapshot := Exec.transaction do
  let record ← getWorkflowSpec params.workflowRecordId
  let sourceThreadId ← Store.ofResult (resolveRunSourceThreadId params record)
  resolveRunSourceWorkspace sourceThreadId
  let spec ← Store.ofResult (parseWorkflowYaml record.sourceYaml)
  let found ← Exec.gets fun db => params.idempotencyKey.bind fun idempotencyKey =>
    db.workflowRunSnapshotByIdempotency record.workflowRecordId idempotencyKey
  match found with
  | some snapshot => pure snapshot
  | none => insertRunWithRows redactStateString params record sourceThreadId spec ids nowMs

end

end Codewith.Workflow
