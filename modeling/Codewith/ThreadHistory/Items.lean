import Codewith.Session.History

/-!
# Turns, items and events

The items that clients are shown for a turn, and the events and rollout items they are rebuilt
from.  What is only passed on from an event to its item, such as prompts, paths, arguments and
parsed commands, is left out.
-/

namespace Codewith.ThreadHistory

open Lib
open Session (ContentItem FunctionCallOutputPayload)

/-! ### Items -/

inductive CommandExecutionStatus
  | inProgress
  | completed
  | failed
  | declined
deriving DecidableEq, Repr

inductive PatchApplyStatus
  | inProgress
  | completed
  | failed
  | declined
deriving DecidableEq, Repr

/-- The status of a call of an MCP tool, of a dynamic tool or of another agent. -/
inductive ToolCallStatus
  | inProgress
  | completed
  | failed
deriving DecidableEq, Repr

inductive CollabAgentTool
  | spawnAgent
  | sendInput
  | resumeAgent
  | wait
  | closeAgent
deriving DecidableEq, Repr

inductive UserInput
  | text (text : Text)
  | image (url : Text) (detail : Option Text)
  | localImage (path : Text) (detail : Option Text)
deriving DecidableEq, Repr

structure HookPromptFragment where
  text : Text
  hookRunId : Text
deriving DecidableEq, Repr

structure CommandExecution where
  id : Text
  command : Text
  processId : Option Text
  status : CommandExecutionStatus
  aggregatedOutput : Option Text
  exitCode : Option Int
  durationMs : Option Int
deriving DecidableEq, Repr

inductive ThreadItem
  | userMessage (id : Text) (clientId : Option Text) (content : List UserInput)
  | hookPrompt (id : Text) (fragments : List HookPromptFragment)
  | agentMessage (id text : Text)
  | plan (id text : Text)
  | reasoning (id : Text) (summary content : List Text)
  | commandExecution (command : CommandExecution)
  | fileChange (id : Text) (status : PatchApplyStatus)
  | mcpToolCall (id server tool : Text) (status : ToolCallStatus) (error : Option Text)
      (durationMs : Option Int)
  | dynamicToolCall (id : Text) (toolNamespace : Option Text) (tool : Text)
      (status : ToolCallStatus) (success : Option Bool) (durationMs : Option Int)
  | collabAgentToolCall (id : Text) (tool : CollabAgentTool) (status : ToolCallStatus)
      (senderThreadId : Text) (receiverThreadIds : List Text)
  | webSearch (id query : Text)
  | imageView (id path : Text)
  | imageGeneration (id status result : Text)
  | enteredReviewMode (id review : Text)
  | exitedReviewMode (id review : Text)
  | contextCompaction (id : Text)
deriving DecidableEq, Repr

def ThreadItem.id : ThreadItem → Text
  | userMessage id _ _ => id
  | hookPrompt id _ => id
  | agentMessage id _ => id
  | plan id _ => id
  | reasoning id _ _ => id
  | commandExecution command => command.id
  | fileChange id _ => id
  | mcpToolCall id _ _ _ _ _ => id
  | dynamicToolCall id _ _ _ _ _ => id
  | collabAgentToolCall id _ _ _ _ => id
  | webSearch id _ => id
  | imageView id _ => id
  | imageGeneration id _ _ => id
  | enteredReviewMode id _ => id
  | exitedReviewMode id _ => id
  | contextCompaction id => id

/-! ### Turns -/

inductive TurnStatus
  | completed
  | interrupted
  | failed
  | inProgress
deriving DecidableEq, Repr

structure Turn where
  id : Text
  items : List ThreadItem
  error : Option Text
  status : TurnStatus
  startedAt : Option Int
  completedAt : Option Int
  durationMs : Option Int
deriving DecidableEq, Repr

structure PendingTurn extends Turn where
  /-- A `TurnStarted` event opened the turn, so it stays even without items. -/
  openedExplicitly : Bool
  /-- The turn has a compaction mark, so it stays even without items. -/
  sawCompaction : Bool
  rolloutStartIndex : Nat
deriving DecidableEq, Repr

/-! ### Events -/

inductive AgentStatus
  | pendingInit
  | running
  | interrupted
  | completed
  | errored
  | shutdown
  | notFound
deriving DecidableEq, Repr

inductive GuardianAssessmentStatus
  | inProgress
  | approved
  | denied
  | timedOut
  | aborted
deriving DecidableEq, Repr

inductive GuardianAssessmentAction
  | command (command : Text)
  | execve (program : Text) (argv : List Text)
  | other
deriving DecidableEq, Repr

inductive ExecCommandStatus
  | completed
  | failed
  | declined
deriving DecidableEq, Repr

inductive CodexErrorInfo
  | threadRollbackFailed
  | activeTurnNotSteerable
  | other
deriving DecidableEq, Repr

structure UserMessageEvent where
  clientId : Option Text
  message : Text
  images : Option (List Text)
  imageDetails : List (Option Text)
  localImages : List Text
  localImageDetails : List (Option Text)
deriving DecidableEq, Repr

structure ExecCommandBeginEvent where
  callId : Text
  processId : Option Text
  turnId : Text
  command : List Text
deriving DecidableEq, Repr

structure ExecCommandEndEvent extends ExecCommandBeginEvent where
  aggregatedOutput : Text
  exitCode : Int
  durationMillis : Nat
  status : ExecCommandStatus
deriving DecidableEq, Repr

structure GuardianAssessmentEvent where
  targetItemId : Option Text
  turnId : Text
  status : GuardianAssessmentStatus
  action : GuardianAssessmentAction
deriving DecidableEq, Repr

structure DynamicToolCallRequest where
  callId : Text
  turnId : Text
  toolNamespace : Option Text
  tool : Text
deriving DecidableEq, Repr

structure DynamicToolCallResponseEvent extends DynamicToolCallRequest where
  success : Bool
  durationMillis : Nat
deriving DecidableEq, Repr

structure McpToolCallBeginEvent where
  callId : Text
  server : Text
  tool : Text
deriving DecidableEq, Repr

structure McpToolCallEndEvent extends McpToolCallBeginEvent where
  durationMillis : Nat
  /-- Whether the call succeeded with an error as its result, or the error it failed with. -/
  result : Except Text (Option Bool)
deriving DecidableEq

/-- An item as the core reports it.  Of these only plans are shown. -/
inductive TurnItem
  | plan (id text : Text)
  | other
deriving DecidableEq, Repr

inductive LocalShellStatus
  | completed
  | inProgress
  | incomplete
deriving DecidableEq, Repr

inductive ResponseItem
  | message (id : Option Text) (role : Text) (content : List ContentItem)
  | functionCall (name : Text) (toolNamespace : Option Text) (arguments callId : Text)
  | functionCallOutput (callId : Text) (output : FunctionCallOutputPayload)
  | localShellCall (id callId : Option Text) (status : LocalShellStatus) (command : List Text)
  | other
deriving DecidableEq, Repr

inductive EventMsg
  | userMessage (payload : UserMessageEvent)
  | agentMessage (message : Text)
  | agentReasoning (text : Text)
  | agentReasoningRawContent (text : Text)
  | webSearchBegin (callId : Text)
  | webSearchEnd (callId query : Text)
  | execCommandBegin (payload : ExecCommandBeginEvent)
  | execCommandEnd (payload : ExecCommandEndEvent)
  | guardianAssessment (payload : GuardianAssessmentEvent)
  | applyPatchApprovalRequest (callId turnId : Text)
  | patchApplyBegin (callId turnId : Text)
  | patchApplyEnd (callId turnId : Text) (status : ExecCommandStatus)
  | dynamicToolCallRequest (payload : DynamicToolCallRequest)
  | dynamicToolCallResponse (payload : DynamicToolCallResponseEvent)
  | mcpToolCallBegin (payload : McpToolCallBeginEvent)
  | mcpToolCallEnd (payload : McpToolCallEndEvent)
  | viewImageToolCall (callId path : Text)
  | imageGenerationBegin (callId : Text)
  | imageGenerationEnd (callId status result : Text)
  | collabAgentSpawnBegin (callId senderThreadId : Text)
  | collabAgentSpawnEnd (callId senderThreadId : Text) (newThreadId : Option Text)
      (status : AgentStatus)
  | collabAgentInteractionBegin (callId senderThreadId receiverThreadId : Text)
  | collabAgentInteractionEnd (callId senderThreadId receiverThreadId : Text)
      (status : AgentStatus)
  | collabWaitingBegin (callId senderThreadId : Text) (receiverThreadIds : List Text)
  | collabWaitingEnd (callId senderThreadId : Text) (statuses : List (Text × AgentStatus))
  | collabCloseBegin (callId senderThreadId receiverThreadId : Text)
  | collabCloseEnd (callId senderThreadId receiverThreadId : Text) (status : AgentStatus)
  | collabResumeBegin (callId senderThreadId receiverThreadId : Text)
  | collabResumeEnd (callId senderThreadId receiverThreadId : Text) (status : AgentStatus)
  | contextCompacted
  | enteredReviewMode (userFacingHint : Option Text)
  | exitedReviewMode (overallExplanation : Option Text)
  | itemStarted (turnId : Text) (item : TurnItem)
  | itemCompleted (turnId : Text) (item : TurnItem)
  | error (message : Text) (codexErrorInfo : Option CodexErrorInfo)
  | threadRolledBack (numTurns : Nat)
  | turnAborted (turnId : Option Text) (completedAt durationMs : Option Int)
  | turnStarted (turnId : Text) (startedAt : Option Int)
  | turnComplete (turnId : Text) (completedAt durationMs : Option Int)
  | rawResponseItem (item : ResponseItem)
  | other
deriving DecidableEq

inductive RolloutItem
  | eventMsg (event : EventMsg)
  | compacted
  | responseItem (item : ResponseItem)
  | turnContext
  | sessionMeta
deriving DecidableEq

end Codewith.ThreadHistory
