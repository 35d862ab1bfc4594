import Mathlib.Data.List.DropRight
import Codewith.ThreadHistory.Builder

/-!
# The messages of the user in the turns

What the turns show as messages of the user.  Inside a turn that its event opened, a response
item adds none of them and the event of a message adds its own; the end of the turn keeps them,
and a rollback takes those of the last turns.
-/

namespace Codewith.ThreadHistory

open Lib
open Session (FunctionCallOutputPayload)

def ThreadItem.userContent : ThreadItem → Option (List UserInput)
  | .userMessage _ _ content => some content
  | _ => none

def Turn.userMessages (turn : Turn) : List (List UserInput) :=
  turn.items.filterMap ThreadItem.userContent

/-- What the turns show as messages of the user. -/
def shownUserMessages (turns : List Turn) : List (List UserInput) :=
  (turns.map Turn.userMessages).flatten

/-! ### Commands and their outputs -/

theorem filterMap_completeCommandExecutionItem {callId : Text} {output : FunctionCallOutputPayload}
    {items items' : List ThreadItem}
    (h : completeCommandExecutionItem callId output items = some items') :
    items'.filterMap ThreadItem.userContent = items.filterMap ThreadItem.userContent := by
  induction items generalizing items' with
  | nil => cases h
  | cons item items ih =>
      have hrest : ∀ rest, (completeCommandExecutionItem callId output items).map (item :: ·) =
          some rest → rest.filterMap ThreadItem.userContent =
            (item :: items).filterMap ThreadItem.userContent := by
        intro rest hmap
        obtain ⟨completed, hcompleted, rfl⟩ := Option.map_eq_some_iff.1 hmap
        rw [List.filterMap_cons, List.filterMap_cons, ih hcompleted]
      cases item with
      | commandExecution command =>
          simp only [completeCommandExecutionItem] at h
          split at h
          · obtain rfl := Option.some.inj h
            rfl
          · exact hrest items' h
      | _ => exact hrest items' h

theorem map_changeFirst_complete {callId : Text} {output : FunctionCallOutputPayload}
    {turns turns' : List Turn}
    (h : changeFirst (completeCommandExecutionItem callId output) turns = some turns') :
    turns'.map Turn.userMessages = turns.map Turn.userMessages := by
  induction turns generalizing turns' with
  | nil => cases h
  | cons turn turns ih =>
      rw [changeFirst] at h
      split at h
      · rename_i items hitems
        obtain rfl := Option.some.inj h
        rw [List.map_cons, List.map_cons, Turn.userMessages, Turn.userMessages,
          filterMap_completeCommandExecutionItem hitems]
      · obtain ⟨rest, hrest, rfl⟩ := Option.map_eq_some_iff.1 h
        rw [List.map_cons, List.map_cons, ih hrest]

/-! ### Inside a turn -/

/-- The builder is inside a turn that was opened by its event. -/
structure InTurn (b : ThreadHistoryBuilder) (turnId : Text)
    (before : List (List (List UserInput))) (shown : List (List UserInput)) : Prop where
  turns : b.turns.map Turn.userMessages = before
  current : ∃ turn, b.currentTurn = some turn ∧ turn.id = turnId ∧
    turn.openedExplicitly = true ∧ turn.toTurn.userMessages = shown

namespace InTurn

variable {b : ThreadHistoryBuilder} {turnId : Text} {before : List (List (List UserInput))}
  {shown : List (List UserInput)}

theorem atPosition (h : InTurn b turnId before shown) (current next : Nat) :
    InTurn { b with currentRolloutIndex := current, nextRolloutIndex := next } turnId before
      shown :=
  ⟨h.turns, h.current⟩

/-- A change of the items of the open turn that adds messages of the user. -/
theorem changeItems (h : InTurn b turnId before shown) (uuids : Uuids)
    {change : List ThreadItem → List ThreadItem} {added : List (List UserInput)}
    (hchange : ∀ items, (change items).filterMap ThreadItem.userContent =
      items.filterMap ThreadItem.userContent ++ added) :
    InTurn (b.changeItems uuids change) turnId before (shown ++ added) := by
  obtain ⟨turn, hcurrent, hid, hopened, hshown⟩ := h.current
  have hturn : b.ensureTurn uuids = turn := by
    rw [ThreadHistoryBuilder.ensureTurn, hcurrent, Option.getD_some]
  refine ⟨h.turns, _, rfl, ?_, ?_, ?_⟩
  · rw [hturn]
    exact hid
  · rw [hturn]
    exact hopened
  · rw [hturn, ← hshown]
    exact hchange turn.items

theorem pushItem (h : InTurn b turnId before shown) (uuids : Uuids) (item : ThreadItem) :
    InTurn (b.pushItem uuids item) turnId before (shown ++ item.userContent.toList) := by
  apply h.changeItems
  intro items
  rw [List.filterMap_append]
  cases hcontent : item.userContent <;> simp [hcontent]

theorem insertRaw (h : InTurn b turnId before shown) (uuids : Uuids) {item : ThreadItem}
    (hitem : item.userContent = none) :
    InTurn (b.insertRawCommandExecutionInCurrentTurn uuids item) turnId before shown := by
  rw [← List.append_nil shown]
  apply h.changeItems
  intro items
  split
  · rw [List.append_nil]
  · simp [hitem]

theorem completeRaw (h : InTurn b turnId before shown) (callId : Text)
    (output : FunctionCallOutputPayload) :
    InTurn (b.completeRawCommandExecution callId output) turnId before shown := by
  obtain ⟨turn, hcurrent, hid, hopened, hshown⟩ := h.current
  unfold ThreadHistoryBuilder.completeRawCommandExecution
  rcases hitems : completeCommandExecutionItem callId output turn.items with _ | items
  · simp only [hcurrent, Option.bind_some, hitems, Option.map_none]
    split
    · rename_i turns hturns
      refine ⟨?_, turn, rfl, hid, hopened, hshown⟩
      rw [← h.turns, List.map_reverse, map_changeFirst_complete hturns, List.map_reverse,
        List.reverse_reverse]
    · exact h
  · simp only [hcurrent, Option.bind_some, hitems, Option.map_some]
    refine ⟨h.turns, _, rfl, hid, hopened, ?_⟩
    rw [← hshown]
    exact filterMap_completeCommandExecutionItem hitems

theorem userContent_of_functionCall {parsers : Parsers} {toolNamespace : Option Text}
    {name arguments callId : Text} {item : ThreadItem}
    (h : commandExecutionFromFunctionCall parsers toolNamespace name arguments callId = some item) :
    item.userContent = none := by
  unfold commandExecutionFromFunctionCall at h
  split at h
  · cases h
  · split at h
    · obtain ⟨command, -, hitem⟩ := Option.bind_eq_some_iff.1 h
      obtain rfl := Option.some.inj hitem
      rfl
    · split at h
      · obtain ⟨params, -, h⟩ := Option.bind_eq_some_iff.1 h
        obtain ⟨command, -, hitem⟩ := Option.bind_eq_some_iff.1 h
        obtain rfl := Option.some.inj hitem
        cases command <;> rfl
      · cases h

/-- A response item is no message of the user here, whatever it is in the history. -/
theorem responseItem (h : InTurn b turnId before shown) (parsers : Parsers) (uuids : Uuids)
    (item : ResponseItem) :
    InTurn (b.handleResponseItem parsers uuids item) turnId before shown := by
  cases item with
  | message id role content =>
      rw [ThreadHistoryBuilder.handleResponseItem]
      split
      · exact h
      · split
        · simpa [ThreadItem.userContent] using h.pushItem uuids (.hookPrompt _ _)
        · exact h
  | functionCall name toolNamespace arguments callId =>
      rw [ThreadHistoryBuilder.handleResponseItem]
      split
      · rename_i item hitem
        exact h.insertRaw uuids (userContent_of_functionCall hitem)
      · exact h
  | functionCallOutput callId output => exact h.completeRaw callId output
  | localShellCall id callId status command =>
      rw [ThreadHistoryBuilder.handleResponseItem]
      split
      · exact h.insertRaw uuids rfl
      · exact h
  | other => exact h

theorem userMessage (h : InTurn b turnId before shown) (uuids : Uuids)
    (payload : UserMessageEvent) :
    InTurn (b.handleUserMessage uuids payload) turnId before
      (shown ++ [buildUserInputs payload]) := by
  obtain ⟨turn, hcurrent, -, hopened, -⟩ := h.current
  unfold ThreadHistoryBuilder.handleUserMessage
  rw [if_neg (by simp [hcurrent, hopened])]
  have hpushed := h.pushItem uuids
    (.userMessage (itemId b.nextItemIndex) payload.clientId (buildUserInputs payload))
  exact ⟨hpushed.turns, hpushed.current⟩

/-! ### The end of a turn -/

theorem finish (h : InTurn b turnId before shown) :
    b.finish.map Turn.userMessages = before ++ [shown] := by
  obtain ⟨turn, hcurrent, -, hopened, hshown⟩ := h.current
  have hfinish : b.finish = b.turns ++ [turn.toTurn] := by
    simp [ThreadHistoryBuilder.finish, ThreadHistoryBuilder.finishCurrentTurn, hcurrent, hopened]
  rw [hfinish, List.map_append, h.turns, List.map_singleton, hshown]

theorem mapCurrent (h : InTurn b turnId before shown) {change : Turn → Turn}
    (hid : ∀ turn, (change turn).id = turn.id) (hitems : ∀ turn, (change turn).items = turn.items) :
    InTurn (b.mapCurrent change) turnId before shown := by
  obtain ⟨turn, hcurrent, hturn, hopened, hshown⟩ := h.current
  refine ⟨h.turns, { turn with toTurn := change turn.toTurn }, ?_, ?_, hopened, ?_⟩
  · rw [ThreadHistoryBuilder.mapCurrent, hcurrent, Option.map_some]
  · exact (hid turn.toTurn).trans hturn
  · rw [← hshown, Turn.userMessages, Turn.userMessages, hitems]

theorem isCurrent (h : InTurn b turnId before shown) :
    b.currentTurn.any (fun turn => turn.id = turnId) = true := by
  obtain ⟨turn, hcurrent, hid, -, -⟩ := h.current
  simp [hcurrent, hid]

end InTurn

namespace ThreadHistoryBuilder

variable {b : ThreadHistoryBuilder}

theorem currentTurn_finishCurrentTurn (b : ThreadHistoryBuilder) :
    b.finishCurrentTurn.currentTurn = none := by
  unfold finishCurrentTurn
  split
  · assumption
  · split <;> rfl

theorem finish_finishCurrentTurn (b : ThreadHistoryBuilder) :
    b.finishCurrentTurn.finish = b.finish := by
  rw [finish, finishCurrentTurn, b.currentTurn_finishCurrentTurn, finish]

/-- The position in the log makes no difference to the turns. -/
theorem finish_atPosition (b : ThreadHistoryBuilder) (current next : Nat) :
    ({ b with currentRolloutIndex := current, nextRolloutIndex := next } :
      ThreadHistoryBuilder).finish = b.finish := by
  unfold finish finishCurrentTurn
  rcases b.currentTurn with _ | turn
  · rfl
  · dsimp only
    split <;> rfl

theorem inTurn_handleTurnStarted (b : ThreadHistoryBuilder) (uuids : Uuids) (turnId : Text)
    (startedAt : Option Int) :
    InTurn (b.handleTurnStarted uuids turnId startedAt) turnId (b.finish.map Turn.userMessages)
      [] :=
  ⟨rfl, _, rfl, rfl, rfl, rfl⟩

theorem finish_handleTurnComplete {turnId : Text} {before : List (List (List UserInput))}
    {shown : List (List UserInput)} (h : InTurn b turnId before shown)
    (completedAt durationMs : Option Int) :
    (b.handleTurnComplete turnId completedAt durationMs).finish.map Turn.userMessages =
      before ++ [shown] := by
  rw [handleTurnComplete, if_pos h.isCurrent, finish_finishCurrentTurn]
  have hchanged : InTurn (b.mapCurrent (markCompleted completedAt durationMs)) turnId before
      shown :=
    h.mapCurrent (fun _ => rfl) fun _ => rfl
  exact hchanged.finish

/-- An abort that does not name the turn ends the open one as well. -/
theorem finish_handleTurnAborted {turnId : Text} {before : List (List (List UserInput))}
    {shown : List (List UserInput)} (h : InTurn b turnId before shown) {named : Option Text}
    (hnamed : ∀ id ∈ named, id = turnId) (completedAt durationMs : Option Int) :
    (b.handleTurnAborted named completedAt durationMs).finish.map Turn.userMessages =
      before ++ [shown] := by
  have hchanged : InTurn (b.mapCurrent (applyAbort completedAt durationMs)) turnId before shown :=
    h.mapCurrent (fun _ => rfl) fun _ => rfl
  cases named with
  | none => exact hchanged.finish
  | some id =>
      obtain rfl := hnamed id rfl
      simp only [handleTurnAborted, h.isCurrent, if_true]
      exact hchanged.finish

theorem finish_handleThreadRollback (b : ThreadHistoryBuilder) (numTurns : Nat) :
    (b.handleThreadRollback numTurns).finish = b.finish.rdrop numTurns := by
  rw [finish, finishCurrentTurn, handleThreadRollback]
  simp only [b.currentTurn_finishCurrentTurn, List.rdrop]
  split
  · rename_i hall
    rw [finish, Nat.sub_eq_zero_of_le hall, List.take_zero]
  · rfl

end ThreadHistoryBuilder

end Codewith.ThreadHistory
