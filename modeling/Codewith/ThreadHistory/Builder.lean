import Codewith.ThreadHistory.Items

/-!
# The builder of a thread's turns

`ThreadHistoryBuilder` reduces events and rollout items to turns.  The parsers of arguments and
of hook prompts are left open, and the identifiers that are drawn at random are supplied with
each input.
-/

namespace Codewith.ThreadHistory

open Lib
open Session (ContentItem FunctionCallOutputPayload FunctionCallOutputBody
  FunctionCallOutputContentItem userRole)

inductive RawCommandValue
  | string (command : Text)
  | argv (command : List Text)
deriving DecidableEq, Repr

structure RawExecCommandFunctionCallParams where
  cmd : Option RawCommandValue
  command : Option RawCommandValue
deriving DecidableEq, Repr

/-- The parsers of third parties. -/
structure Parsers where
  hookPromptXml : Text → Option HookPromptFragment
  /-- The command of the parameters of `shell_command`. -/
  shellCommandToolCallParams : Text → Option Text
  rawExecCommandFunctionCallParams : Text → Option RawExecCommandFunctionCallParams
  shlexJoin : List Text → Text

/-- The identifiers that an input may need for a turn and for an item. -/
structure Uuids where
  turn : Text
  item : Text
deriving DecidableEq, Repr

structure ThreadHistoryBuilder where
  turns : List Turn := []
  currentTurn : Option PendingTurn := none
  nextItemIndex : Nat := 1
  currentRolloutIndex : Nat := 0
  nextRolloutIndex : Nat := 0
deriving DecidableEq, Repr

/-! ### Items of the payloads -/

def i64Max : Nat := 2 ^ 63 - 1

/-- `i64::try_from`. -/
def i64OfNat (n : Nat) : Option Int := if n ≤ i64Max then some n else none

def itemId (index : Nat) : Text := "item-".toList ++ (toString index).toList

def rolloutTurnId (index : Nat) : Text := "rollout-".toList ++ (toString index).toList

def parseHookPromptFragment (parsers : Parsers) (text : Text) : Option HookPromptFragment :=
  (parsers.hookPromptXml (Text.trim text)).filter fun fragment => Text.trim fragment.hookRunId ≠ []

/-- The fragments of a message, all of whose contents are hook prompts. -/
def parseHookPromptMessage (parsers : Parsers) (content : List ContentItem) :
    Option (List HookPromptFragment) := do
  let fragments ← content.mapM fun contentItem => match contentItem with
    | .inputText text => parseHookPromptFragment parsers text
    | _ => none
  if fragments = [] then none else some fragments

/-- A command that is not reported by events but read from the calls of the model. -/
def rawCommandExecution (callId command : Text) (status : CommandExecutionStatus) : ThreadItem :=
  .commandExecution
    { id := callId, command, processId := none, status, aggregatedOutput := none, exitCode := none,
      durationMs := none }

def commandExecutionFromRawCommand (parsers : Parsers) (callId : Text) (command : RawCommandValue)
    (status : CommandExecutionStatus) : ThreadItem :=
  match command with
  | .string command => rawCommandExecution callId command status
  | .argv command => rawCommandExecution callId (parsers.shlexJoin command) status

def commandExecutionFromFunctionCall (parsers : Parsers) (toolNamespace : Option Text)
    (name arguments callId : Text) : Option ThreadItem :=
  if toolNamespace.isSome then none
  else if name = "shell_command".toList then do
    let command ← parsers.shellCommandToolCallParams arguments
    some (rawCommandExecution callId command .inProgress)
  else if name = "exec_command".toList then do
    let params ← parsers.rawExecCommandFunctionCallParams arguments
    let command ← params.cmd.or params.command
    some (commandExecutionFromRawCommand parsers callId command .inProgress)
  else none

def commandExecutionFromLocalShellCall (parsers : Parsers) (callId : Text)
    (status : LocalShellStatus) (command : List Text) : ThreadItem :=
  rawCommandExecution callId (parsers.shlexJoin command)
    (match status with
      | .completed => .completed
      | .inProgress | .incomplete => .inProgress)

def buildCommandExecutionBeginItem (parsers : Parsers) (payload : ExecCommandBeginEvent) :
    ThreadItem :=
  .commandExecution
    { id := payload.callId, command := parsers.shlexJoin payload.command
      processId := payload.processId, status := .inProgress, aggregatedOutput := none
      exitCode := none, durationMs := none }

def CommandExecutionStatus.ofExec : ExecCommandStatus → CommandExecutionStatus
  | .completed => .completed
  | .failed => .failed
  | .declined => .declined

def PatchApplyStatus.ofExec : ExecCommandStatus → PatchApplyStatus
  | .completed => .completed
  | .failed => .failed
  | .declined => .declined

def buildCommandExecutionEndItem (parsers : Parsers) (payload : ExecCommandEndEvent) : ThreadItem :=
  .commandExecution
    { id := payload.callId, command := parsers.shlexJoin payload.command
      processId := payload.processId, status := .ofExec payload.status
      aggregatedOutput :=
        if payload.aggregatedOutput = [] then none else some payload.aggregatedOutput
      exitCode := some payload.exitCode
      durationMs := some ((i64OfNat payload.durationMillis).getD i64Max) }

def buildItemFromGuardianEvent (parsers : Parsers) (assessment : GuardianAssessmentEvent)
    (status : CommandExecutionStatus) : Option ThreadItem :=
  match assessment.action with
  | .command command => assessment.targetItemId.map fun id => rawCommandExecution id command status
  | .execve program argv => assessment.targetItemId.map fun id =>
      let argv := if argv = [] then [program] else program :: argv.drop 1
      rawCommandExecution id (parsers.shlexJoin argv) status
  | .other => none

/-- The tools of other agents fail with an error or without an agent. -/
def agentFailed (status : AgentStatus) : Bool := status = .errored || status = .notFound

def collabStatus (failed : Bool) : ToolCallStatus := if failed then .failed else .completed

def McpToolCallEndEvent.isSuccess (payload : McpToolCallEndEvent) : Bool :=
  match payload.result with
  | .ok isError => !isError.getD false
  | .error _ => false

def affectsTurnStatus (info : Option CodexErrorInfo) : Bool :=
  match info with
  | some .threadRollbackFailed | some .activeTurnNotSteerable => false
  | some .other | none => true

def reviewFallbackMessage : Text := "Reviewer failed to output a response.".toList

def renderReviewOutputText (overallExplanation : Text) : Text :=
  if Text.trim overallExplanation = [] then reviewFallbackMessage else Text.trim overallExplanation

def buildUserInputs (payload : UserMessageEvent) : List UserInput :=
  (if Text.trim payload.message = [] then [] else [.text payload.message]) ++
    ((payload.images.getD []).zipIdx.map fun (image, idx) =>
      .image image (payload.imageDetails[idx]?.join)) ++
    (payload.localImages.zipIdx.map fun (path, idx) =>
      .localImage path (payload.localImageDetails[idx]?.join))

/-! ### Lists of items -/

/-- Replace the first item with the id of the given one, or add it. -/
def upsertTurnItem (item : ThreadItem) : List ThreadItem → List ThreadItem
  | [] => [item]
  | existing :: items =>
      if existing.id = item.id then item :: items else existing :: upsertTurnItem item items

def functionCallOutputContentItemsToText (items : List FunctionCallOutputContentItem) :
    Option Text :=
  let segments := items.filterMap fun item => match item with
    | .inputText text => if Text.trim text = [] then none else some text
    | _ => none
  if segments = [] then none else some (Text.joinWith '\n' segments)

def outputText : FunctionCallOutputBody → Option Text
  | .text content => some content
  | .contentItems items => functionCallOutputContentItemsToText items

def CommandExecution.complete (command : CommandExecution) (output : FunctionCallOutputPayload) :
    CommandExecution :=
  { command with
    status :=
      if command.status = .inProgress then
        if output.success = some false then .failed else .completed
      else command.status
    aggregatedOutput :=
      if command.aggregatedOutput = none then (outputText output.body).filter (· ≠ [])
      else command.aggregatedOutput }

/-- Complete the first command with the id of the call, if there is one. -/
def completeCommandExecutionItem (callId : Text) (output : FunctionCallOutputPayload) :
    List ThreadItem → Option (List ThreadItem)
  | [] => none
  | item :: items =>
      match item with
      | .commandExecution command =>
          if command.id = callId then some (.commandExecution (command.complete output) :: items)
          else (completeCommandExecutionItem callId output items).map (item :: ·)
      | _ => (completeCommandExecutionItem callId output items).map (item :: ·)

/-- Change the items of the first turn where the change applies. -/
def changeFirst (change : List ThreadItem → Option (List ThreadItem)) :
    List Turn → Option (List Turn)
  | [] => none
  | turn :: turns =>
      match change turn.items with
      | some items => some ({ turn with items } :: turns)
      | none => (changeFirst change turns).map (turn :: ·)

/-- Change the first turn with the given id. -/
def changeTurn (turnId : Text) (change : Turn → Turn) : List Turn → Option (List Turn)
  | [] => none
  | turn :: turns =>
      if turn.id = turnId then some (change turn :: turns)
      else (changeTurn turnId change turns).map (turn :: ·)

namespace ThreadHistoryBuilder

/-! ### Turns -/

def finishCurrentTurn (b : ThreadHistoryBuilder) : ThreadHistoryBuilder :=
  match b.currentTurn with
  | none => b
  | some turn =>
      if turn.items = [] ∧ ¬turn.openedExplicitly ∧ ¬turn.sawCompaction then
        { b with currentTurn := none }
      else { b with turns := b.turns ++ [turn.toTurn], currentTurn := none }

def finish (b : ThreadHistoryBuilder) : List Turn := b.finishCurrentTurn.turns

def activeTurnSnapshot (b : ThreadHistoryBuilder) : Option Turn :=
  (b.currentTurn.map PendingTurn.toTurn).or b.turns.getLast?

def activeTurnPosition (b : ThreadHistoryBuilder) : Option Nat :=
  if b.currentTurn.isSome then some b.turns.length
  else if b.turns = [] then none
  else some (b.turns.length - 1)

def newTurn (b : ThreadHistoryBuilder) (uuids : Uuids) (id : Option Text) : PendingTurn where
  id := id.getD (if b.nextRolloutIndex = 0 then uuids.turn else rolloutTurnId b.currentRolloutIndex)
  items := []
  error := none
  status := .completed
  startedAt := none
  completedAt := none
  durationMs := none
  openedExplicitly := false
  sawCompaction := false
  rolloutStartIndex := b.currentRolloutIndex

/-- The open turn, or a new one. -/
def ensureTurn (b : ThreadHistoryBuilder) (uuids : Uuids) : PendingTurn :=
  b.currentTurn.getD (b.newTurn uuids none)

/-- Change the items of the open turn, which is opened for that if necessary. -/
def changeItems (b : ThreadHistoryBuilder) (uuids : Uuids)
    (change : List ThreadItem → List ThreadItem) : ThreadHistoryBuilder :=
  { b with
    currentTurn :=
      some { b.ensureTurn uuids with items := change (b.ensureTurn uuids).items } }

def pushItem (b : ThreadHistoryBuilder) (uuids : Uuids) (item : ThreadItem) :
    ThreadHistoryBuilder :=
  b.changeItems uuids fun items => items ++ [item]

/-- Add an item with the next id. -/
def pushGenerated (b : ThreadHistoryBuilder) (uuids : Uuids) (item : Text → ThreadItem) :
    ThreadHistoryBuilder :=
  { b.pushItem uuids (item (itemId b.nextItemIndex)) with nextItemIndex := b.nextItemIndex + 1 }

def upsertItemInCurrentTurn (b : ThreadHistoryBuilder) (uuids : Uuids) (item : ThreadItem) :
    ThreadHistoryBuilder :=
  b.changeItems uuids (upsertTurnItem item)

/-- An item for a turn that is not known is dropped. -/
def upsertItemInTurnId (b : ThreadHistoryBuilder) (turnId : Text) (item : ThreadItem) :
    ThreadHistoryBuilder :=
  match b.currentTurn.filter fun turn => turn.id = turnId with
  | some turn =>
      { b with currentTurn := some { turn with items := upsertTurnItem item turn.items } }
  | none =>
      match changeTurn turnId (fun turn => { turn with items := upsertTurnItem item turn.items })
          b.turns with
      | some turns => { b with turns }
      | none => b

/-- Without a turn id the item goes to the open turn. -/
def upsertItem (b : ThreadHistoryBuilder) (uuids : Uuids) (turnId : Text) (item : ThreadItem) :
    ThreadHistoryBuilder :=
  if turnId = [] then b.upsertItemInCurrentTurn uuids item else b.upsertItemInTurnId turnId item

def insertRawCommandExecutionInCurrentTurn (b : ThreadHistoryBuilder) (uuids : Uuids)
    (item : ThreadItem) : ThreadHistoryBuilder :=
  b.changeItems uuids fun items =>
    if items.any fun existing => existing.id = item.id then items else items ++ [item]

def completeRawCommandExecution (b : ThreadHistoryBuilder) (callId : Text)
    (output : FunctionCallOutputPayload) : ThreadHistoryBuilder :=
  match b.currentTurn.bind fun turn =>
      (completeCommandExecutionItem callId output turn.items).map fun items =>
        { turn with items } with
  | some turn => { b with currentTurn := some turn }
  | none =>
      match changeFirst (completeCommandExecutionItem callId output) b.turns.reverse with
      | some turns => { b with turns := turns.reverse }
      | none => b

/-! ### Handlers -/

def handleResponseItem (parsers : Parsers) (b : ThreadHistoryBuilder) (uuids : Uuids) :
    ResponseItem → ThreadHistoryBuilder
  | .message id role content =>
      if role ≠ userRole then b
      else match parseHookPromptMessage parsers content with
        | some fragments => b.pushItem uuids (.hookPrompt (id.getD uuids.item) fragments)
        | none => b
  | .functionCall name toolNamespace arguments callId =>
      match commandExecutionFromFunctionCall parsers toolNamespace name arguments callId with
      | some item => b.insertRawCommandExecutionInCurrentTurn uuids item
      | none => b
  | .functionCallOutput callId output => b.completeRawCommandExecution callId output
  | .localShellCall id callId status command =>
      match callId.or id with
      | some callId => b.insertRawCommandExecutionInCurrentTurn uuids
          (commandExecutionFromLocalShellCall parsers callId status command)
      | none => b
  | .other => b

/-- A turn that no event opened takes one message of the user, or a compaction mark and one. -/
def handleUserMessage (b : ThreadHistoryBuilder) (uuids : Uuids) (payload : UserMessageEvent) :
    ThreadHistoryBuilder :=
  let b :=
    if (b.currentTurn.any fun turn =>
      !turn.openedExplicitly && !(turn.sawCompaction && turn.items.isEmpty)) then
      b.finishCurrentTurn
    else b
  b.pushGenerated uuids fun id => .userMessage id payload.clientId (buildUserInputs payload)

def handleAgentMessage (b : ThreadHistoryBuilder) (uuids : Uuids) (text : Text) :
    ThreadHistoryBuilder :=
  if text = [] then b else b.pushGenerated uuids fun id => .agentMessage id text

/-- The text joins the reasoning at the end of the open turn, if there is one there. -/
def handleAgentReasoning (b : ThreadHistoryBuilder) (uuids : Uuids) (text : Text) :
    ThreadHistoryBuilder :=
  if text = [] then b
  else match (b.ensureTurn uuids).items.getLast? with
    | some (.reasoning id summary content) => b.changeItems uuids fun items =>
        items.dropLast ++ [.reasoning id (summary ++ [text]) content]
    | _ => b.pushGenerated uuids fun id => .reasoning id [text] []

def handleAgentReasoningRawContent (b : ThreadHistoryBuilder) (uuids : Uuids) (text : Text) :
    ThreadHistoryBuilder :=
  if text = [] then b
  else match (b.ensureTurn uuids).items.getLast? with
    | some (.reasoning id summary content) => b.changeItems uuids fun items =>
        items.dropLast ++ [.reasoning id summary (content ++ [text])]
    | _ => b.pushGenerated uuids fun id => .reasoning id [] [text]

/-- Only plans are handled as items. -/
def handleItem (b : ThreadHistoryBuilder) (turnId : Text) : TurnItem → ThreadHistoryBuilder
  | .plan id text => if text = [] then b else b.upsertItemInTurnId turnId (.plan id text)
  | .other => b

def handleGuardianAssessment (parsers : Parsers) (b : ThreadHistoryBuilder) (uuids : Uuids)
    (payload : GuardianAssessmentEvent) : ThreadHistoryBuilder :=
  let status? : Option CommandExecutionStatus := match payload.status with
    | .inProgress => some .inProgress
    | .denied | .aborted => some .declined
    | .timedOut => some .failed
    | .approved => none
  match status?.bind (buildItemFromGuardianEvent parsers payload) with
  | some item => b.upsertItem uuids payload.turnId item
  | none => b

def handleError (b : ThreadHistoryBuilder) (message : Text) (info : Option CodexErrorInfo) :
    ThreadHistoryBuilder :=
  if affectsTurnStatus info then
    { b with
      currentTurn := b.currentTurn.map fun turn =>
        { turn with status := .failed, error := some message } }
  else b

def applyAbort (completedAt durationMs : Option Int) (turn : Turn) : Turn :=
  { turn with status := .interrupted, completedAt, durationMs }

/-- Change the open turn. -/
def mapCurrent (b : ThreadHistoryBuilder) (change : Turn → Turn) : ThreadHistoryBuilder :=
  { b with
    currentTurn := b.currentTurn.map fun turn => { turn with toTurn := change turn.toTurn } }

def handleTurnAborted (b : ThreadHistoryBuilder) (turnId : Option Text)
    (completedAt durationMs : Option Int) : ThreadHistoryBuilder :=
  let change := applyAbort completedAt durationMs
  match turnId with
  | none => b.mapCurrent change
  | some turnId =>
      if b.currentTurn.any fun turn => turn.id = turnId then b.mapCurrent change
      else match changeTurn turnId change b.turns with
        | some turns => { b with turns }
        | none => b.mapCurrent change

def handleTurnStarted (b : ThreadHistoryBuilder) (uuids : Uuids) (turnId : Text)
    (startedAt : Option Int) : ThreadHistoryBuilder :=
  let b := b.finishCurrentTurn
  { b with
    currentTurn := some { b.newTurn uuids (some turnId) with
      status := .inProgress, startedAt, openedExplicitly := true } }

def markCompleted (completedAt durationMs : Option Int) (turn : Turn) : Turn :=
  { turn with
    status :=
      if turn.status = .completed ∨ turn.status = .inProgress then .completed else turn.status
    completedAt, durationMs }

def handleTurnComplete (b : ThreadHistoryBuilder) (turnId : Text)
    (completedAt durationMs : Option Int) : ThreadHistoryBuilder :=
  let change := markCompleted completedAt durationMs
  if b.currentTurn.any fun turn => turn.id = turnId then (b.mapCurrent change).finishCurrentTurn
  else match changeTurn turnId change b.turns with
    | some turns => { b with turns }
    | none => (b.mapCurrent change).finishCurrentTurn

def handleCompacted (b : ThreadHistoryBuilder) (uuids : Uuids) : ThreadHistoryBuilder :=
  { b with currentTurn := some { b.ensureTurn uuids with sawCompaction := true } }

def itemCount (turns : List Turn) : Nat := (turns.map fun turn => turn.items.length).sum

def handleThreadRollback (b : ThreadHistoryBuilder) (numTurns : Nat) : ThreadHistoryBuilder :=
  let b := b.finishCurrentTurn
  let turns := if b.turns.length ≤ numTurns then [] else b.turns.take (b.turns.length - numTurns)
  { b with turns, nextItemIndex := itemCount turns + 1 }

def handleEvent (parsers : Parsers) (b : ThreadHistoryBuilder) (uuids : Uuids) :
    EventMsg → ThreadHistoryBuilder
  | .userMessage payload => b.handleUserMessage uuids payload
  | .agentMessage message => b.handleAgentMessage uuids message
  | .agentReasoning text => b.handleAgentReasoning uuids text
  | .agentReasoningRawContent text => b.handleAgentReasoningRawContent uuids text
  | .webSearchBegin callId => b.upsertItemInCurrentTurn uuids (.webSearch callId [])
  | .webSearchEnd callId query => b.upsertItemInCurrentTurn uuids (.webSearch callId query)
  | .execCommandBegin payload =>
      b.upsertItemInTurnId payload.turnId (buildCommandExecutionBeginItem parsers payload)
  | .execCommandEnd payload =>
      b.upsertItemInTurnId payload.turnId (buildCommandExecutionEndItem parsers payload)
  | .guardianAssessment payload => b.handleGuardianAssessment parsers uuids payload
  | .applyPatchApprovalRequest callId turnId =>
      b.upsertItem uuids turnId (.fileChange callId .inProgress)
  | .patchApplyBegin callId turnId => b.upsertItem uuids turnId (.fileChange callId .inProgress)
  | .patchApplyEnd callId turnId status =>
      b.upsertItem uuids turnId (.fileChange callId (.ofExec status))
  | .dynamicToolCallRequest payload =>
      b.upsertItem uuids payload.turnId
        (.dynamicToolCall payload.callId payload.toolNamespace payload.tool .inProgress none none)
  | .dynamicToolCallResponse payload =>
      b.upsertItem uuids payload.turnId
        (.dynamicToolCall payload.callId payload.toolNamespace payload.tool
          (if payload.success then .completed else .failed) (some payload.success)
          (i64OfNat payload.durationMillis))
  | .mcpToolCallBegin payload =>
      b.upsertItemInCurrentTurn uuids
        (.mcpToolCall payload.callId payload.server payload.tool .inProgress none none)
  | .mcpToolCallEnd payload =>
      b.upsertItemInCurrentTurn uuids
        (.mcpToolCall payload.callId payload.server payload.tool
          (if payload.isSuccess then .completed else .failed)
          (match payload.result with
            | .ok _ => none
            | .error message => some message)
          (i64OfNat payload.durationMillis))
  | .viewImageToolCall callId path => b.upsertItemInCurrentTurn uuids (.imageView callId path)
  | .imageGenerationBegin callId => b.upsertItemInCurrentTurn uuids (.imageGeneration callId [] [])
  | .imageGenerationEnd callId status result =>
      b.upsertItemInCurrentTurn uuids (.imageGeneration callId status result)
  | .collabAgentSpawnBegin callId sender =>
      b.upsertItemInCurrentTurn uuids
        (.collabAgentToolCall callId .spawnAgent .inProgress sender [])
  | .collabAgentSpawnEnd callId sender newThreadId status =>
      b.upsertItemInCurrentTurn uuids
        (.collabAgentToolCall callId .spawnAgent
          (collabStatus (agentFailed status || newThreadId.isNone)) sender newThreadId.toList)
  | .collabAgentInteractionBegin callId sender receiver =>
      b.upsertItemInCurrentTurn uuids
        (.collabAgentToolCall callId .sendInput .inProgress sender [receiver])
  | .collabAgentInteractionEnd callId sender receiver status =>
      b.upsertItemInCurrentTurn uuids
        (.collabAgentToolCall callId .sendInput (collabStatus (agentFailed status)) sender
          [receiver])
  | .collabWaitingBegin callId sender receivers =>
      b.upsertItemInCurrentTurn uuids
        (.collabAgentToolCall callId .wait .inProgress sender receivers)
  | .collabWaitingEnd callId sender statuses =>
      b.upsertItemInCurrentTurn uuids
        (.collabAgentToolCall callId .wait
          (collabStatus (statuses.any fun entry => agentFailed entry.2)) sender
          ((statuses.map Prod.fst).mergeSort fun a b => a ≤ b))
  | .collabCloseBegin callId sender receiver =>
      b.upsertItemInCurrentTurn uuids
        (.collabAgentToolCall callId .closeAgent .inProgress sender [receiver])
  | .collabCloseEnd callId sender receiver status =>
      b.upsertItemInCurrentTurn uuids
        (.collabAgentToolCall callId .closeAgent (collabStatus (agentFailed status)) sender
          [receiver])
  | .collabResumeBegin callId sender receiver =>
      b.upsertItemInCurrentTurn uuids
        (.collabAgentToolCall callId .resumeAgent .inProgress sender [receiver])
  | .collabResumeEnd callId sender receiver status =>
      b.upsertItemInCurrentTurn uuids
        (.collabAgentToolCall callId .resumeAgent (collabStatus (agentFailed status)) sender
          [receiver])
  | .contextCompacted => b.pushGenerated uuids .contextCompaction
  | .enteredReviewMode userFacingHint =>
      b.pushGenerated uuids fun id =>
        .enteredReviewMode id (userFacingHint.getD "Review requested.".toList)
  | .exitedReviewMode overallExplanation =>
      b.pushGenerated uuids fun id =>
        .exitedReviewMode id
          ((overallExplanation.map renderReviewOutputText).getD reviewFallbackMessage)
  | .itemStarted turnId item => b.handleItem turnId item
  | .itemCompleted turnId item => b.handleItem turnId item
  | .error message info => b.handleError message info
  | .threadRolledBack numTurns => b.handleThreadRollback numTurns
  | .turnAborted turnId completedAt durationMs => b.handleTurnAborted turnId completedAt durationMs
  | .turnStarted turnId startedAt => b.handleTurnStarted uuids turnId startedAt
  | .turnComplete turnId completedAt durationMs =>
      b.handleTurnComplete turnId completedAt durationMs
  | .rawResponseItem item => b.handleResponseItem parsers uuids item
  | .other => b

def handleRolloutItem (parsers : Parsers) (b : ThreadHistoryBuilder) (uuids : Uuids)
    (item : RolloutItem) : ThreadHistoryBuilder :=
  let b := { b with
    currentRolloutIndex := b.nextRolloutIndex, nextRolloutIndex := b.nextRolloutIndex + 1 }
  match item with
  | .eventMsg event => b.handleEvent parsers uuids event
  | .compacted => b.handleCompacted uuids
  | .responseItem item => b.handleResponseItem parsers uuids item
  | .turnContext | .sessionMeta => b

end ThreadHistoryBuilder

/-! ### Runs -/

/-- What is given to a builder: an event or an item of a rollout. -/
inductive Input
  | event (event : EventMsg)
  | rolloutItem (item : RolloutItem)
deriving DecidableEq

def ThreadHistoryBuilder.handleInput (parsers : Parsers) (b : ThreadHistoryBuilder)
    (uuids : Uuids) : Input → ThreadHistoryBuilder
  | .event event => b.handleEvent parsers uuids event
  | .rolloutItem item => b.handleRolloutItem parsers uuids item

/-- The builder after a sequence of inputs. -/
def built (parsers : Parsers) (inputs : List (Uuids × Input)) : ThreadHistoryBuilder :=
  inputs.foldl (fun b input => b.handleInput parsers input.1 input.2) {}

/-- The turns of a recorded log; the identifiers drawn for an item go by its index. -/
def buildTurnsFromRolloutItems (parsers : Parsers) (drawn : Nat → Uuids)
    (items : List RolloutItem) : List Turn :=
  (built parsers (items.zipIdx.map fun item => (drawn item.2, .rolloutItem item.1))).finish

end Codewith.ThreadHistory
