import Codewith.GoalStore.Schema

/-!
# The workflow tables

The rows of `0043_workflow_runs.sql` and the migrations after it, as far as the
orchestrator reads them, and the snapshot of a run.  The log of events and the
timers of a run are left out.
-/

namespace Codewith.Workflow

open Lib GoalStore

inductive WorkflowRunStatus
  | pending
  | running
  | waiting
  | blocked
  | paused
  | cancelRequested
  | cancelled
  | failed
  | completed
  deriving DecidableEq, Repr

def WorkflowRunStatus.isTerminal (status : WorkflowRunStatus) : Bool :=
  status = .cancelled || status = .failed || status = .completed

inductive WorkflowRunStepStatus
  | pending
  | ready
  | active
  | waitingVerifier
  | blocked
  | skipped
  | cancelled
  | failed
  | succeeded
  deriving DecidableEq, Repr

inductive WorkflowRunStepVerifierStatus
  | pending
  | running
  | blocked
  | passed
  | failed
  | skipped
  deriving DecidableEq, Repr

/-- The decision on a gated step. -/
inductive WorkflowStepApprovalState
  | pending
  | approved
  | rejected
  deriving DecidableEq, Repr

inductive WorkflowWorkspaceMode
  | isolatedWorktree
  | sharedRepository
  deriving DecidableEq, Repr

structure WorkflowLimits where
  maxParallelSteps : Nat
  maxAgents : Nat
  maxWorktrees : Nat
  maxTokens : Nat
  deriving DecidableEq, Repr

structure WorkflowModelRoute where
  modelGateway : Text
  provider : Text
  deriving DecidableEq, Repr

structure WorkflowRun where
  runId : Text
  workflowRecordId : Text
  sourceThreadId : Option ThreadId
  idempotencyKey : Option Text
  specWorkflowId : Text
  status : WorkflowRunStatus
  statusReason : Option Text := none
  reasonCode : Option Text := none
  generation : Int := 0
  ownerId : Option Text := none
  ownerInstanceId : Option Text := none
  leaseExpiresAtMs : Option Int := none
  heartbeatAtMs : Option Int := none
  executionDefaults : WorkflowModelRoute
  limits : WorkflowLimits
  createdAtMs : Int
  updatedAtMs : Int
  startedAtMs : Option Int := none
  completedAtMs : Option Int := none
  deriving DecidableEq, Repr

/-- A row of `workflow_run_steps`. -/
structure WorkflowRunStepRow where
  stepRunId : Text
  runId : Text
  stepId : Text
  sequence : Int
  title : Text
  agentId : Text
  status : WorkflowRunStepStatus
  statusReason : Option Text := none
  reasonCode : Option Text := none
  parallelGroup : Option Text
  approvalGate : Option Text
  approvalState : Option WorkflowStepApprovalState
  modelRoute : Option WorkflowModelRoute
  workspace : Option WorkflowWorkspaceMode
  backgroundAgentRunId : Option Text := none
  attempt : Int := 0
  createdAtMs : Int
  updatedAtMs : Int
  startedAtMs : Option Int := none
  completedAtMs : Option Int := none
  deriving DecidableEq, Repr

/-- A step as a snapshot shows it, with the ids of the steps it depends on. -/
structure WorkflowRunStep extends WorkflowRunStepRow where
  dependsOn : List Text
  deriving DecidableEq, Repr

/-- A row of `workflow_run_step_dependencies`. -/
structure WorkflowRunStepDependency where
  runId : Text
  stepId : Text
  dependsOnStepId : Text
  deriving DecidableEq, Repr

structure WorkflowRunStepVerifier where
  verifierRunId : Text
  runId : Text
  stepId : Text
  verifierId : Text
  verifierType : Text
  status : WorkflowRunStepVerifierStatus
  statusReason : Option Text := none
  reasonCode : Option Text := none
  attemptCount : Int := 0
  maxAttempts : Option Int
  createdAtMs : Int
  updatedAtMs : Int
  completedAtMs : Option Int := none
  deriving DecidableEq, Repr

structure WorkflowRunSnapshot where
  run : WorkflowRun
  steps : List WorkflowRunStep
  verifiers : List WorkflowRunStepVerifier
  deriving DecidableEq, Repr

end Codewith.Workflow
