import Codewith.Lib.Text

/-!
# The transcript of a thread

`ContextManager` keeps the items that are sent to the model.  Items are recorded
one by one, replaced as a whole by a compaction, and dropped from the end by a
rollback of user turns.

How a message text is recognised as a hook prompt, as one of the registered
context fragments or as an instruction of another agent, and how outputs and
messages are shortened, is left open: `HistoryRules` collects these functions.
-/

namespace Codewith.Session

open Lib

/-! ## Items -/

inductive ContentItem
  | inputText (text : Text)
  | inputImage (imageUrl : Text)
  | outputText (text : Text)
deriving DecidableEq, Repr

inductive FunctionCallOutputContentItem
  | inputText (text : Text)
  | inputImage (imageUrl : Text)
  | encryptedContent (encryptedContent : Text)
deriving DecidableEq, Repr

inductive FunctionCallOutputBody
  | text (content : Text)
  | contentItems (items : List FunctionCallOutputContentItem)
deriving DecidableEq, Repr

structure FunctionCallOutputPayload where
  body : FunctionCallOutputBody
  success : Option Bool
deriving DecidableEq, Repr

inductive ResponseItem
  | message (id : Option Text) (role : Text) (content : List ContentItem)
  | agentMessage (author recipient : Text) (content : List Text)
  | reasoning (id : Text) (encryptedContent : Option Text)
  | localShellCall (id callId : Option Text)
  | functionCall (name arguments callId : Text)
  | toolSearchCall (callId : Option Text) (execution : Text)
  | functionCallOutput (callId : Text) (output : FunctionCallOutputPayload)
  | customToolCall (callId name input : Text)
  | customToolCallOutput (callId : Text) (name : Option Text) (output : FunctionCallOutputPayload)
  | toolSearchOutput (callId : Option Text) (status execution : Text)
  | webSearchCall (id status : Option Text)
  | imageGenerationCall (id status result : Text)
  | compaction (encryptedContent : Text)
  | compactionTrigger
  | contextCompaction (encryptedContent : Option Text)
  | other
deriving DecidableEq, Repr

/-- The settings a turn ran with, as far as a resumed session reads them. -/
structure TurnContextItem where
  turnId : Option Text
  model : Text
  modelProviderId : Option Text
  realtimeActive : Option Bool
deriving DecidableEq, Repr

def userRole : Text := "user".toList
def developerRole : Text := "developer".toList
def assistantRole : Text := "assistant".toList
def systemRole : Text := "system".toList

structure HistoryRules where
  /-- The text is a hook prompt with a run id. -/
  isHookPrompt : Text → Bool
  /-- One of the registered fragments of contextual user text matches. -/
  isStandardContextualUserText : Text → Bool
  /-- The text is the serialized form of an instruction of another agent. -/
  isInterAgentCommunication : Text → Bool
  /-- The output, shortened to the serialization budget of the policy. -/
  truncateFunctionOutputPayload : FunctionCallOutputPayload → FunctionCallOutputPayload
  approxTokenCount : Text → Nat
  /-- The text, shortened to a number of tokens. -/
  truncateText : Text → Nat → Text
  summaryPrefix : Text

def contextualDeveloperPrefixes : List Text :=
  ["<permissions instructions>".toList, "<model_switch>".toList, "<collaboration_mode>".toList,
    "<realtime_conversation>".toList, "<personality_spec>".toList]

def asciiLower (t : Text) : Text := t.map Char.toLower

def isContextualDevFragment : ContentItem → Bool
  | .inputText text => contextualDeveloperPrefixes.any fun start =>
      asciiLower ((Text.trimStart text).take start.length) = asciiLower start
  | _ => false

def isContextualDevMessageContent (message : List ContentItem) : Bool :=
  message.any isContextualDevFragment

def hasNonContextualDevMessageContent (message : List ContentItem) : Bool :=
  message.any fun item => !isContextualDevFragment item

/-! ## Recording and replacing -/

structure ContextManager where
  items : List ResponseItem
  historyVersion : Nat
  referenceContextItem : Option TurnContextItem
deriving DecidableEq, Repr

def u64Max : Nat := 2 ^ 64 - 1

def isApiMessage : ResponseItem → Bool
  | .message _ role _ => role ≠ systemRole
  | .compactionTrigger => false
  | .other => false
  | _ => true

section

variable (rules : HistoryRules)

def isContextualUserFragment : ContentItem → Bool
  | .inputText text => rules.isHookPrompt text || rules.isStandardContextualUserText text
  | _ => false

def isContextualUserMessageContent (message : List ContentItem) : Bool :=
  message.any (isContextualUserFragment rules)

def isInterAgentInstructionContent : List ContentItem → Bool
  | [.inputText text] => rules.isInterAgentCommunication text
  | [.outputText text] => rules.isInterAgentCommunication text
  | _ => false

def isUserTurnBoundary : ResponseItem → Bool
  | .agentMessage .. => true
  | .message _ role content =>
      (role = userRole && !isContextualUserMessageContent rules content) ||
        (role = assistantRole && isInterAgentInstructionContent rules content)
  | _ => false

def processItem : ResponseItem → ResponseItem
  | .functionCallOutput callId output =>
      .functionCallOutput callId (rules.truncateFunctionOutputPayload output)
  | .customToolCallOutput callId name output =>
      .customToolCallOutput callId name (rules.truncateFunctionOutputPayload output)
  | item => item

namespace ContextManager

def new : ContextManager := ⟨[], 0, none⟩

def recordItem (m : ContextManager) (item : ResponseItem) : ContextManager :=
  if isApiMessage item then { m with items := m.items ++ [processItem rules item] } else m

def recordItems (m : ContextManager) (items : List ResponseItem) : ContextManager :=
  items.foldl (recordItem rules) m

def replace (m : ContextManager) (items : List ResponseItem) : ContextManager :=
  { m with items, historyVersion := min (m.historyVersion + 1) u64Max }

def replaceRecordedItems (m : ContextManager) (items : List ResponseItem) : ContextManager :=
  m.replace (recordItems rules new items).items

/-! ## Rolling back -/

def userMessagePositions (items : List ResponseItem) : List Nat :=
  items.zipIdx.filterMap fun (item, idx) => if isUserTurnBoundary rules item then some idx else none

/-- Walk back from the cut over the context updates right before it, down to the
first instruction turn at most. -/
def trimPreTurnContextUpdates (m : ContextManager) (snapshot : List ResponseItem)
    (firstInstructionTurnIdx : Nat) : Nat → Nat × ContextManager
  | 0 => (0, m)
  | cutIdx + 1 =>
      if firstInstructionTurnIdx < cutIdx + 1 then
        match snapshot[cutIdx]? with
        | some (.message _ role content) =>
            if role = developerRole ∧ isContextualDevMessageContent content then
              let m := if hasNonContextualDevMessageContent content then
                { m with referenceContextItem := none } else m
              trimPreTurnContextUpdates m snapshot firstInstructionTurnIdx cutIdx
            else if role = userRole ∧ isContextualUserMessageContent rules content then
              trimPreTurnContextUpdates m snapshot firstInstructionTurnIdx cutIdx
            else (cutIdx + 1, m)
        | _ => (cutIdx + 1, m)
      else (cutIdx + 1, m)

def dropLastNUserTurns (m : ContextManager) (numTurns : Nat) : ContextManager :=
  if numTurns = 0 then m
  else
    let userPositions := userMessagePositions rules m.items
    match userPositions.head? with
    | none => m.replace m.items
    | some firstInstructionTurnIdx =>
        let cutIdx :=
          if userPositions.length ≤ numTurns then firstInstructionTurnIdx
          else userPositions.getD (userPositions.length - numTurns) 0
        let (cutIdx, m') :=
          trimPreTurnContextUpdates rules m m.items firstInstructionTurnIdx cutIdx
        m'.replace (m.items.take cutIdx)

end ContextManager

/-! ## Compaction without a replacement -/

def isImageOpenTag (text : Text) : Bool :=
  text = "<image>".toList ||
    (Text.stripPrefix "<image name=".toList text).any fun rest => rest.getLast? = some '>'

def isImageCloseTag (text : Text) : Bool := text = "</image>".toList

def isImage : Option ContentItem → Bool
  | some (.inputImage _) => true
  | _ => false

/-- The texts of a user message, without the tags around images. -/
def userMessageTexts (message : List ContentItem) : List Text :=
  message.zipIdx.filterMap fun (item, idx) =>
    match item with
    | .inputText text =>
        if (isImageOpenTag text && isImage message[idx + 1]?) ||
            (0 < idx && isImageCloseTag text && isImage message[idx - 1]?) then none
        else some text
    | _ => none

def isVisibleHookPromptMessage (content : List ContentItem) : Bool :=
  (content.all fun item => isContextualUserFragment rules item) &&
    content.any fun item => match item with
      | .inputText text => rules.isHookPrompt text
      | _ => false

/-- The text of an item that is a message of the user and no earlier summary. -/
def collectedUserMessage : ResponseItem → Option Text
  | .message _ role content =>
      if role = userRole ∧ ¬ isVisibleHookPromptMessage rules content ∧
          ¬ isContextualUserMessageContent rules content then
        let message := (userMessageTexts content).flatten
        if (rules.summaryPrefix ++ ['\n']).isPrefixOf message then none else some message
      else none
  | _ => none

def collectUserMessages (items : List ResponseItem) : List Text :=
  items.filterMap (collectedUserMessage rules)

/-- The newest messages that fit, newest first. -/
def selectMessages : List Text → Nat → List Text
  | [], _ => []
  | message :: older, remaining =>
      if remaining = 0 then []
      else if rules.approxTokenCount message ≤ remaining then
        message :: selectMessages older (remaining - rules.approxTokenCount message)
      else [rules.truncateText message remaining]

def compactUserMessageMaxTokens : Nat := 20000

def userMessage (text : Text) : ResponseItem := .message none userRole [.inputText text]

def buildCompactedHistory (initialContext : List ResponseItem) (userMessages : List Text)
    (summaryText : Text) : List ResponseItem :=
  let selected := (selectMessages rules userMessages.reverse compactUserMessageMaxTokens).reverse
  let summaryText := if summaryText = [] then "(no summary available)".toList else summaryText
  initialContext ++ selected.map userMessage ++ [userMessage summaryText]

end

/-! ## What the items after an operation depend on -/

section

variable (rules : HistoryRules)

theorem items_recordItem (m : ContextManager) (item : ResponseItem) :
    (m.recordItem rules item).items =
      if isApiMessage item then m.items ++ [processItem rules item] else m.items := by
  unfold ContextManager.recordItem
  split <;> rfl

@[simp] theorem items_replace (m : ContextManager) (items : List ResponseItem) :
    (m.replace items).items = items := rfl

theorem fst_trimPreTurnContextUpdates (m m' : ContextManager) (snapshot : List ResponseItem)
    (first cutIdx : Nat) :
    (m.trimPreTurnContextUpdates rules snapshot first cutIdx).1 =
      (m'.trimPreTurnContextUpdates rules snapshot first cutIdx).1 := by
  induction cutIdx generalizing m m' with
  | zero => rfl
  | succ cutIdx ih =>
      simp only [ContextManager.trimPreTurnContextUpdates]
      split
      · split
        · split
          · exact ih _ _
          · split
            · exact ih _ _
            · rfl
        · rfl
      · rfl

/-- A rollback looks at the items alone. -/
theorem items_dropLastNUserTurns_congr {m m' : ContextManager} (h : m.items = m'.items)
    (numTurns : Nat) :
    (m.dropLastNUserTurns rules numTurns).items = (m'.dropLastNUserTurns rules numTurns).items := by
  unfold ContextManager.dropLastNUserTurns
  split
  · exact h
  · simp only [h]
    split
    · rfl
    · rename_i first _
      simp only [items_replace]
      rw [fst_trimPreTurnContextUpdates rules m m']

end

end Codewith.Session
