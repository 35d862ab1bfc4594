import Codewith.Session.Replay
import Codewith.ThreadHistory.UserMessages

/-!
# What a rollback removes, shown and remembered

A rollback takes turns from the list that is shown, and messages from the history that
is sent to the model.  The list loses its last `n` turns, whether they hold a message of
the user or not, and the history is cut before its `n`-th last instruction, whichever
turn that is in.  Both sides agree on the messages of the user as long as every rollback
finds as many of them in the last `n` turns as among the last `n` instructions.

The session and the shown turns read one log, but not the same of its items, so an item of
the log here has a form for either side.
-/

namespace Codewith.Session

open Lib
open ThreadHistory (LocalShellStatus UserInput UserMessageEvent Uuids Input Parsers
  ThreadHistoryBuilder Turn InTurn buildUserInputs built buildTurnsFromRolloutItems
  shownUserMessages)

/-! ## Logs of turns and rollbacks -/

/-- What only the shown turns read of a call. -/
structure CallDetails where
  toolNamespace : Option Text
  status : LocalShellStatus
  command : List Text
deriving DecidableEq, Repr

/-- The item, as the shown turns read it. -/
def ResponseItem.shown (details : CallDetails) : ResponseItem → ThreadHistory.ResponseItem
  | .message id role content => .message id role content
  | .functionCall name arguments callId =>
      .functionCall name details.toolNamespace arguments callId
  | .functionCallOutput callId output => .functionCallOutput callId output
  | .localShellCall id callId => .localShellCall id callId details.status details.command
  | _ => .other

/-- An item of the log inside a turn. -/
inductive BodyItem
  | responseItem (item : ResponseItem) (details : CallDetails)
  | userMessage (payload : UserMessageEvent)
deriving DecidableEq, Repr

def BodyItem.recorded : BodyItem → RolloutItem
  | .responseItem item _ => .responseItem item
  | .userMessage payload => .eventMsg (.userMessage payload.message)

def BodyItem.shown : BodyItem → ThreadHistory.RolloutItem
  | .responseItem item details => .responseItem (item.shown details)
  | .userMessage payload => .eventMsg (.userMessage payload)

def BodyItem.eventMessage : BodyItem → Option UserMessageEvent
  | .userMessage payload => some payload
  | .responseItem .. => none

section

variable (rules : HistoryRules)

/-- The text of an item that is a message of the user. -/
def realUserMessage : ResponseItem → Option Text
  | .message _ role content =>
      if role = userRole ∧ isContextualUserMessageContent rules content = false then
        some (userMessageTexts content).flatten
      else none
  | _ => none

def BodyItem.recordedMessage : BodyItem → Option Text
  | .responseItem item _ => realUserMessage rules item
  | .userMessage _ => none

def BodyItem.recordedInstruction : BodyItem → Option ResponseItem
  | .responseItem item _ => if isUserTurnBoundary rules item then some item else none
  | .userMessage _ => none

end

def inputText : UserInput → Option Text
  | .text text => some text
  | _ => none

/-- The texts of a message that is shown; its images are no part of them. -/
def textsOf (content : List UserInput) : List Text := content.filterMap inputText

/-- A blank text is not shown. -/
def shownTexts (message : Text) : List Text := if Text.trim message = [] then [] else [message]

theorem textsOf_buildUserInputs (payload : UserMessageEvent) :
    textsOf (buildUserInputs payload) = shownTexts payload.message := by
  have himages : ∀ {α : Type} (l : List α) (image : α → UserInput),
      (∀ a, inputText (image a) = none) → (l.map image).filterMap inputText = [] := by
    intro α l image himage
    rw [List.filterMap_map, List.filterMap_eq_nil_iff]
    exact fun a _ => himage a
  rw [buildUserInputs, textsOf, List.filterMap_append, List.filterMap_append,
    himages _ _ fun _ => rfl, himages _ _ fun _ => rfl, List.append_nil, List.append_nil,
    shownTexts]
  split <;> rfl

/-- The texts of the messages of the user in a history, as far as they would be shown. -/
def historyUserMessages (rules : HistoryRules) (items : List ResponseItem) : List (List Text) :=
  (items.filterMap (realUserMessage rules)).map shownTexts

inductive TurnEnding
  | complete (completedAt durationMs : Option Int)
  /-- The event of an abort may leave out the id of the turn. -/
  | aborted (named : Bool) (completedAt durationMs : Option Int)
deriving DecidableEq, Repr

def TurnEnding.recorded (turnId : Text) : TurnEnding → EventMsg
  | .complete _ _ => .turnComplete turnId
  | .aborted named _ _ => .turnAborted (if named then some turnId else none)

def TurnEnding.shown (turnId : Text) : TurnEnding → ThreadHistory.EventMsg
  | .complete completedAt durationMs => .turnComplete turnId completedAt durationMs
  | .aborted named completedAt durationMs =>
      .turnAborted (if named then some turnId else none) completedAt durationMs

/-- A turn in which each message of the user is recorded as a response item and as an
event. -/
structure RecordedTurn (rules : HistoryRules) where
  turnId : Text
  startedAt : Option Int
  body : List BodyItem
  ending : TurnEnding
  recorded : body.filterMap (BodyItem.recordedMessage rules) =
    (body.filterMap BodyItem.eventMessage).map UserMessageEvent.message

inductive LogSegment (rules : HistoryRules)
  | turn (turn : RecordedTurn rules)
  | rollback (numTurns : Nat)

variable {rules : HistoryRules} {parsers : Parsers} {drawn : Nat → Uuids}

namespace RecordedTurn

def items (turn : RecordedTurn rules) : List RolloutItem :=
  .eventMsg (.turnStarted turn.turnId) :: turn.body.map BodyItem.recorded ++
    [.eventMsg (turn.ending.recorded turn.turnId)]

def shownItems (turn : RecordedTurn rules) : List ThreadHistory.RolloutItem :=
  .eventMsg (.turnStarted turn.turnId turn.startedAt) :: (turn.body.map BodyItem.shown ++
    [.eventMsg (turn.ending.shown turn.turnId)])

/-- The messages of the user, as they are shown. -/
def messages (turn : RecordedTurn rules) : List (List UserInput) :=
  (turn.body.filterMap BodyItem.eventMessage).map buildUserInputs

/-- The items that a rollback counts in the history. -/
def instructions (turn : RecordedTurn rules) : List ResponseItem :=
  turn.body.filterMap (BodyItem.recordedInstruction rules)

end RecordedTurn

def LogSegment.items : LogSegment rules → List RolloutItem
  | .turn recorded => recorded.items
  | .rollback numTurns => [.eventMsg (.threadRolledBack numTurns)]

def LogSegment.shownItems : LogSegment rules → List ThreadHistory.RolloutItem
  | .turn recorded => recorded.shownItems
  | .rollback numTurns => [.eventMsg (.threadRolledBack numTurns)]

/-- The log, as the session reads it. -/
def rolloutOf (segments : List (LogSegment rules)) : List RolloutItem :=
  segments.flatMap LogSegment.items

/-- The log, as the shown turns read it. -/
def shownRolloutOf (segments : List (LogSegment rules)) : List ThreadHistory.RolloutItem :=
  segments.flatMap LogSegment.shownItems

/-- What is left when turns add entries at the end and rollbacks take the last ones. -/
def leftAfter {α : Type} (entries : RecordedTurn rules → List α) :
    List (LogSegment rules) → List α :=
  List.foldl (fun left segment => match segment with
    | .turn turn => left ++ entries turn
    | .rollback numTurns => left.rdrop numTurns) []

def turnsLeft : List (LogSegment rules) → List (RecordedTurn rules) := leftAfter fun turn => [turn]

def instructionsLeft : List (LogSegment rules) → List ResponseItem :=
  leftAfter RecordedTurn.instructions

theorem leftAfter_turn {α : Type} (entries : RecordedTurn rules → List α)
    (segments : List (LogSegment rules)) (turn : RecordedTurn rules) :
    leftAfter entries (segments ++ [.turn turn]) = leftAfter entries segments ++ entries turn := by
  rw [leftAfter, List.foldl_append]
  rfl

theorem leftAfter_rollback {α : Type} (entries : RecordedTurn rules → List α)
    (segments : List (LogSegment rules)) (numTurns : Nat) :
    leftAfter entries (segments ++ [.rollback numTurns]) =
      (leftAfter entries segments).rdrop numTurns := by
  rw [leftAfter, List.foldl_append]
  rfl

/-! ## The turns that are shown -/

section

variable (parsers)

/-- The builder after some items of the log, each with the identifiers drawn for it. -/
def readOn (b : ThreadHistoryBuilder) (inputs : List (Uuids × Input)) : ThreadHistoryBuilder :=
  inputs.foldl (fun b input => b.handleInput parsers input.1 input.2) b

end

/-- The inputs are the given items of a log. -/
def AreItems (inputs : List (Uuids × Input)) (items : List ThreadHistory.RolloutItem) : Prop :=
  inputs.map Prod.snd = items.map Input.rolloutItem

theorem AreItems.cons {inputs : List (Uuids × Input)} {item : ThreadHistory.RolloutItem}
    {items : List ThreadHistory.RolloutItem} (h : AreItems inputs (item :: items)) :
    ∃ uuids rest, inputs = (uuids, .rolloutItem item) :: rest ∧ AreItems rest items := by
  obtain ⟨⟨uuids, input⟩, rest, rfl, hinput, hrest⟩ := List.map_eq_cons_iff.1 h
  obtain rfl : input = .rolloutItem item := hinput
  exact ⟨uuids, rest, rfl, hrest⟩

theorem AreItems.append {inputs : List (Uuids × Input)}
    {items more : List ThreadHistory.RolloutItem} (h : AreItems inputs (items ++ more)) :
    ∃ front back, inputs = front ++ back ∧ AreItems front items ∧ AreItems back more := by
  rw [AreItems, List.map_append] at h
  exact List.map_eq_append_iff.1 h

/-- The body of a turn shows its messages one after the other. -/
theorem inTurn_body (parsers : Parsers) {b : ThreadHistoryBuilder} {turnId : Text}
    {before : List (List (List UserInput))} {shown : List (List UserInput)}
    (h : InTurn b turnId before shown) {body : List BodyItem} {inputs : List (Uuids × Input)}
    (hinputs : AreItems inputs (body.map BodyItem.shown)) :
    InTurn (readOn parsers b inputs) turnId before
      (shown ++ (body.filterMap BodyItem.eventMessage).map buildUserInputs) := by
  induction body generalizing b shown inputs with
  | nil =>
      obtain rfl := List.map_eq_nil_iff.1 hinputs
      simpa [readOn] using h
  | cons item body ih =>
      obtain ⟨uuids, rest, rfl, hrest⟩ := hinputs.cons
      have hindex := h.atPosition b.nextRolloutIndex (b.nextRolloutIndex + 1)
      rw [readOn, List.foldl_cons, ← readOn]
      cases item with
      | responseItem item details => exact ih (hindex.responseItem parsers uuids _) hrest
      | userMessage payload =>
          have hnext := ih (hindex.userMessage uuids payload) hrest
          rw [List.append_assoc] at hnext
          exact hnext

theorem finish_turn {b : ThreadHistoryBuilder} (turn : RecordedTurn rules)
    {inputs : List (Uuids × Input)} (hinputs : AreItems inputs turn.shownItems) :
    (readOn parsers b inputs).finish.map Turn.userMessages =
      b.finish.map Turn.userMessages ++ [turn.messages] := by
  obtain ⟨uuids, rest, rfl, hrest⟩ := hinputs.cons
  obtain ⟨bodyInputs, back, rfl, hbody, hback⟩ := hrest.append
  obtain ⟨last, rest, rfl, hnone⟩ := hback.cons
  obtain rfl := List.map_eq_nil_iff.1 hnone
  have hstarted : InTurn (b.handleInput parsers uuids
      (.rolloutItem (.eventMsg (.turnStarted turn.turnId turn.startedAt)))) turn.turnId
      (b.finish.map Turn.userMessages) [] := by
    rw [← b.finish_atPosition b.nextRolloutIndex (b.nextRolloutIndex + 1)]
    exact ThreadHistoryBuilder.inTurn_handleTurnStarted _ _ _ _
  have hinside := inTurn_body parsers hstarted hbody
  rw [List.nil_append, ← RecordedTurn.messages] at hinside
  rw [readOn, List.foldl_cons, List.foldl_append, List.foldl_cons, List.foldl_nil]
  rw [readOn] at hinside
  generalize bodyInputs.foldl _ _ = inside at hinside ⊢
  have hindex := hinside.atPosition inside.nextRolloutIndex (inside.nextRolloutIndex + 1)
  cases hending : turn.ending with
  | complete completedAt durationMs =>
      exact ThreadHistoryBuilder.finish_handleTurnComplete hindex completedAt durationMs
  | aborted named completedAt durationMs =>
      refine ThreadHistoryBuilder.finish_handleTurnAborted hindex ?_ completedAt durationMs
      intro id hid
      cases named with
      | false => cases hid
      | true => exact (Option.some.inj hid).symm

/-- The turns that are shown are those that are left. -/
theorem map_userMessages_built (segments : List (LogSegment rules)) {inputs : List (Uuids × Input)}
    (hinputs : AreItems inputs (shownRolloutOf segments)) :
    (built parsers inputs).finish.map Turn.userMessages =
      (turnsLeft segments).map RecordedTurn.messages := by
  induction segments using List.reverseRecOn generalizing inputs with
  | nil =>
      obtain rfl := List.map_eq_nil_iff.1 hinputs
      rfl
  | append_singleton segments segment ih =>
      rw [shownRolloutOf, List.flatMap_append, List.flatMap_singleton] at hinputs
      obtain ⟨front, back, rfl, hfront, hback⟩ := hinputs.append
      have hshown := ih hfront
      have hbuilt : built parsers (front ++ back) = readOn parsers (built parsers front) back := by
        rw [built, List.foldl_append]
        rfl
      rw [hbuilt]
      generalize built parsers front = b at hshown ⊢
      cases segment with
      | turn turn =>
          rw [finish_turn turn hback, hshown, turnsLeft, leftAfter_turn, List.map_append,
            List.map_singleton]
      | rollback numTurns =>
          obtain ⟨uuids, rest, rfl, hrest⟩ := hback.cons
          obtain rfl := List.map_eq_nil_iff.1 hrest
          have hfinish : (readOn parsers b [(uuids, .rolloutItem
              (.eventMsg (.threadRolledBack numTurns)))]).finish = b.finish.rdrop numTurns := by
            rw [← b.finish_atPosition b.nextRolloutIndex (b.nextRolloutIndex + 1)]
            exact ThreadHistoryBuilder.finish_handleThreadRollback _ numTurns
          have hlength := congrArg List.length hshown
          rw [List.length_map, List.length_map] at hlength
          rw [hfinish, turnsLeft, leftAfter_rollback, List.rdrop, List.rdrop, List.map_take, hshown,
            List.map_take, hlength]
          rfl

theorem map_userMessages_buildTurns (segments : List (LogSegment rules)) :
    (buildTurnsFromRolloutItems parsers drawn (shownRolloutOf segments)).map Turn.userMessages =
      (turnsLeft segments).map RecordedTurn.messages := by
  refine map_userMessages_built segments ?_
  rw [AreItems, List.map_map]
  conv_rhs => rw [← List.zipIdx_map_fst 0 (shownRolloutOf segments), List.map_map]
  rfl

/-! ## The history that is rebuilt -/

theorem isUserTurnBoundary_of_realUserMessage {item : ResponseItem} {text : Text}
    (h : realUserMessage rules item = some text) : isUserTurnBoundary rules item = true := by
  cases item with
  | message id role content =>
      rw [realUserMessage] at h
      split at h
      · rename_i hreal
        simp [isUserTurnBoundary, hreal]
      · cases h
  | _ => cases h

/-- The messages of the user are among the instructions. -/
theorem filterMap_realUserMessage (items : List ResponseItem) :
    items.filterMap (realUserMessage rules) =
      (items.filter (isUserTurnBoundary rules)).filterMap (realUserMessage rules) := by
  rw [List.filterMap_filter]
  apply List.filterMap_congr
  intro item _
  split
  · rfl
  · rename_i hother
    rcases hreal : realUserMessage rules item with _ | text
    · rfl
    · exact absurd (isUserTurnBoundary_of_realUserMessage hreal) hother

theorem isApiMessage_of_isUserTurnBoundary {item : ResponseItem}
    (h : isUserTurnBoundary rules item = true) : isApiMessage item = true := by
  cases item with
  | message id role content =>
      have hrole : role = userRole ∨ role = assistantRole := by
        simp only [isUserTurnBoundary, Bool.or_eq_true, Bool.and_eq_true, decide_eq_true_eq] at h
        exact h.imp And.left And.left
      rcases hrole with rfl | rfl <;> simp only [isApiMessage] <;> decide
  | agentMessage author recipient content => rfl
  | _ => cases h

/-- Recording keeps an instruction as it is, and turns nothing else into one. -/
theorem filter_items_recordItem (m : ContextManager) (item : ResponseItem) :
    (m.recordItem rules item).items.filter (isUserTurnBoundary rules) =
      m.items.filter (isUserTurnBoundary rules) ++
        (if isUserTurnBoundary rules item then some item else none).toList := by
  rw [items_recordItem]
  cases hboundary : isUserTurnBoundary rules item with
  | true =>
      have hsame : processItem rules item = item := by
        cases item <;> first | rfl | cases hboundary
      rw [if_pos (isApiMessage_of_isUserTurnBoundary hboundary), hsame, List.filter_append]
      simp [hboundary]
  | false =>
      have hsame : isUserTurnBoundary rules (processItem rules item) = false := by
        cases item <;> exact hboundary
      split
      · rw [List.filter_append]
        simp [hsame]
      · simp

theorem filter_items_replay_body (m : ContextManager) (body : List BodyItem) :
    (replayItems rules m (body.map BodyItem.recorded)).items.filter (isUserTurnBoundary rules) =
      m.items.filter (isUserTurnBoundary rules) ++
        body.filterMap (BodyItem.recordedInstruction rules) := by
  induction body generalizing m with
  | nil => simp [replayItems]
  | cons item body ih =>
      have hrest := ih (replayItem rules m item.recorded)
      rw [List.map_cons, replayItems, List.foldl_cons, ← replayItems, hrest, List.filterMap_cons]
      cases item with
      | responseItem item details =>
          change (m.recordItem rules item).items.filter (isUserTurnBoundary rules) ++ _ = _
          rw [filter_items_recordItem, List.append_assoc, BodyItem.recordedInstruction]
          split <;> simp_all
      | userMessage payload => rfl

/-! ### Cutting the history -/

/-- Before the position of the `k`-th hit there are `k` hits. -/
theorem filter_take_position {α : Type} {p : α → Bool} {items : List α} {start k i : Nat}
    (h : ((items.zipIdx start).filterMap fun (item, idx) =>
      if p item then some idx else none)[k]? = some i) :
    start ≤ i ∧ (items.take (i - start)).filter p = (items.filter p).take k := by
  induction items generalizing start k with
  | nil => simp at h
  | cons item items ih =>
      rw [List.zipIdx_cons, List.filterMap_cons] at h
      cases hp : p item with
      | false =>
          simp only [hp, Bool.false_eq_true, if_false] at h
          obtain ⟨hle, heq⟩ := ih h
          have hpos : i - start = (i - (start + 1)) + 1 := by omega
          refine ⟨by omega, ?_⟩
          rw [hpos, List.take_succ_cons, List.filter_cons_of_neg (by simp [hp]), heq,
            List.filter_cons_of_neg (by simp [hp])]
      | true =>
          simp only [hp, if_true] at h
          cases k with
          | zero =>
              rw [List.getElem?_cons_zero] at h
              obtain rfl := Option.some.inj h
              simp
          | succ k =>
              rw [List.getElem?_cons_succ] at h
              obtain ⟨hle, heq⟩ := ih h
              have hpos : i - start = (i - (start + 1)) + 1 := by omega
              refine ⟨by omega, ?_⟩
              rw [hpos, List.take_succ_cons, List.filter_cons_of_pos hp, heq,
                List.filter_cons_of_pos hp, List.take_succ_cons]

theorem length_positions {α : Type} {p : α → Bool} (items : List α) (start : Nat) :
    ((items.zipIdx start).filterMap fun (item, idx) =>
      if p item then some idx else none).length = (items.filter p).length := by
  induction items generalizing start with
  | nil => rfl
  | cons item items ih =>
      rw [List.zipIdx_cons, List.filterMap_cons]
      cases hp : p item with
      | false => simp [hp, ih]
      | true => simp [hp, ih]

theorem not_boundary_of_developer {id : Option Text} {role : Text} {content : List ContentItem}
    (h : role = developerRole) : isUserTurnBoundary rules (.message id role content) = false := by
  have huser : developerRole ≠ userRole := by decide
  have hassistant : developerRole ≠ assistantRole := by decide
  simp only [isUserTurnBoundary, h, huser, hassistant, decide_false, Bool.false_and, Bool.or_false]

theorem not_boundary_of_contextual {id : Option Text} {role : Text} {content : List ContentItem}
    (h : role = userRole) (hcontextual : isContextualUserMessageContent rules content = true) :
    isUserTurnBoundary rules (.message id role content) = false := by
  have hassistant : userRole ≠ assistantRole := by decide
  simp only [isUserTurnBoundary, h, hcontextual, hassistant, decide_false, Bool.not_true,
    Bool.and_false, Bool.false_and, Bool.or_false]

/-- The context updates that are cut off as well hold no instruction. -/
theorem filter_take_trimPreTurnContextUpdates (m : ContextManager) (snapshot : List ResponseItem)
    (first cutIdx : Nat) :
    (snapshot.take (m.trimPreTurnContextUpdates rules snapshot first cutIdx).1).filter
        (isUserTurnBoundary rules) =
      (snapshot.take cutIdx).filter (isUserTurnBoundary rules) := by
  induction cutIdx generalizing m with
  | zero => rfl
  | succ cutIdx ih =>
      have hskip : ∀ item, snapshot[cutIdx]? = some item → isUserTurnBoundary rules item = false →
          (snapshot.take (cutIdx + 1)).filter (isUserTurnBoundary rules) =
            (snapshot.take cutIdx).filter (isUserTurnBoundary rules) := by
        intro item hitem hother
        rw [List.take_add_one, hitem, List.filter_append]
        simp [hother]
      simp only [ContextManager.trimPreTurnContextUpdates]
      split
      · split
        · rename_i id role content hitem
          split
          · rename_i hdeveloper
            rw [hskip _ hitem (not_boundary_of_developer hdeveloper.1)]
            exact ih _
          · split
            · rename_i hcontextual
              rw [hskip _ hitem (not_boundary_of_contextual hcontextual.1 hcontextual.2)]
              exact ih _
            · rfl
        · rfl
      · rfl

/-- A rollback takes the last instructions off the history. -/
theorem filter_items_dropLastNUserTurns (m : ContextManager) (numTurns : Nat) :
    (m.dropLastNUserTurns rules numTurns).items.filter (isUserTurnBoundary rules) =
      (m.items.filter (isUserTurnBoundary rules)).rdrop numTurns := by
  have hlength : (ContextManager.userMessagePositions rules m.items).length =
      (m.items.filter (isUserTurnBoundary rules)).length := length_positions m.items 0
  unfold ContextManager.dropLastNUserTurns
  by_cases hzero : numTurns = 0
  · rw [if_pos hzero, hzero, List.rdrop_zero]
  · rw [if_neg hzero]
    rcases hfirst : (ContextManager.userMessagePositions rules m.items).head? with _ | first
    · have hnone : m.items.filter (isUserTurnBoundary rules) = [] := by
        rw [← List.length_eq_zero_iff, ← hlength, List.head?_eq_none_iff.1 hfirst]
        rfl
      simp only [hfirst, items_replace, hnone, List.rdrop_nil]
    · simp only [hfirst, items_replace, filter_take_trimPreTurnContextUpdates]
      rw [List.rdrop, ← hlength]
      split
      · rename_i hall
        have hhit : (ContextManager.userMessagePositions rules m.items)[0]? = some first := by
          rw [← List.head?_eq_getElem?, hfirst]
        rw [Nat.sub_eq_zero_of_le hall]
        exact (filter_take_position hhit).2
      · have hlt : (ContextManager.userMessagePositions rules m.items).length - numTurns <
            (ContextManager.userMessagePositions rules m.items).length := by omega
        have hhit : (ContextManager.userMessagePositions rules m.items)[
            (ContextManager.userMessagePositions rules m.items).length - numTurns]? =
            some ((ContextManager.userMessagePositions rules m.items).getD
              ((ContextManager.userMessagePositions rules m.items).length - numTurns) 0) := by
          rw [List.getD_eq_getElem?_getD, List.getElem?_eq_getElem hlt, Option.getD_some]
        exact (filter_take_position hhit).2

/-- The instructions of a plain replay are those that are left. -/
theorem filter_plainReplay (segments : List (LogSegment rules)) :
    (plainReplay rules (rolloutOf segments)).filter (isUserTurnBoundary rules) =
      instructionsLeft segments := by
  induction segments using List.reverseRecOn with
  | nil => rfl
  | append_singleton segments segment ih =>
      rw [plainReplay, rolloutOf, List.flatMap_append, List.flatMap_singleton, replayItems_append,
        ← rolloutOf, instructionsLeft]
      rw [plainReplay] at ih
      generalize replayItems rules .new (rolloutOf segments) = m at ih ⊢
      cases segment with
      | turn turn =>
          have hbody : (replayItems rules m turn.items).items =
              (replayItems rules m (turn.body.map BodyItem.recorded)).items := by
            have hending : ∀ last : ContextManager,
                replayItem rules last (.eventMsg (turn.ending.recorded turn.turnId)) = last := by
              intro last
              cases turn.ending <;> rfl
            rw [RecordedTurn.items, List.cons_append, replayItems, List.foldl_cons,
              List.foldl_append, List.foldl_cons, List.foldl_nil, hending]
            rfl
          rw [leftAfter_turn, ← instructionsLeft, ← ih, LogSegment.items, hbody,
            filter_items_replay_body m turn.body]
          rfl
      | rollback numTurns =>
          rw [leftAfter_rollback, ← instructionsLeft, ← ih]
          exact filter_items_dropLastNUserTurns m numTurns

/-- Without a compaction the history is that of a plain replay. -/
theorem reconstruct_of_not_holdsCheckpoint {rolloutItems : List RolloutItem}
    (h : ¬HoldsCheckpoint rolloutItems) :
    (reconstructHistoryFromRollout rules rolloutItems).history =
      plainReplay rules rolloutItems := by
  have hstart : Phase rolloutItems [] ⟨none, none, .neverSet, 0, rolloutItems, none⟩
      (checkpointRolledBack 0) := .searching rfl (by simp [HoldsCheckpoint]) rfl rfl
  obtain ⟨f, seen, hseen, hphase, -, -⟩ :=
    hstart.run rules (by rw [List.reverse_reverse, List.append_nil])
  change Phase rolloutItems seen (scanRollout rules rolloutItems) f at hphase
  have hnone : ¬HoldsCheckpoint seen := by
    obtain ⟨front, rfl⟩ := hseen
    rintro ⟨item, hitem, hsome⟩
    exact h ⟨item, List.mem_append_right _ hitem, hsome⟩
  unfold reconstructHistoryFromRollout
  simp only
  generalize scanRollout rules rolloutItems = scan at *
  cases hphase with
  | searching hsuffix _ _ hbase =>
      rw [hbase, hsuffix]
      rfl
  | found replacement hnewest => exact absurd hnewest.holdsCheckpoint hnone
  | skipped replacement hnewest => exact absurd hnewest.holdsCheckpoint hnone
  | based replacement hnewest => exact absurd hnewest.holdsCheckpoint hnone
  | covered hsuffix hholds =>
      obtain ⟨front, hfront⟩ := hsuffix
      obtain ⟨item, hitem, hsome⟩ := hholds
      exact absurd ⟨item, hfront ▸ List.mem_append_right _ hitem, hsome⟩ hnone

theorem not_holdsCheckpoint_rolloutOf (segments : List (LogSegment rules)) :
    ¬HoldsCheckpoint (rolloutOf segments) := by
  rintro ⟨item, hitem, hsome⟩
  obtain ⟨segment, -, hmem⟩ := List.mem_flatMap.1 hitem
  cases segment with
  | turn turn =>
      rcases List.mem_append.1 hmem with hfront | hlast
      · rcases List.mem_cons.1 hfront with rfl | hbody
        · cases hsome
        · obtain ⟨entry, -, rfl⟩ := List.mem_map.1 hbody
          cases entry <;> cases hsome
      · rw [List.mem_singleton.1 hlast] at hsome
        cases hsome
  | rollback numTurns =>
      rw [List.mem_singleton.1 hmem] at hsome
      cases hsome

/-! ## Agreement -/

section

variable (parsers drawn)

/-- The messages of the user that are shown are those of the history. -/
def Agrees (segments : List (LogSegment rules)) : Prop :=
  (shownUserMessages
      (buildTurnsFromRolloutItems parsers drawn (shownRolloutOf segments))).map textsOf =
    historyUserMessages rules (reconstructHistoryFromRollout rules (rolloutOf segments)).history

end

/-- Of what is left of the log, the last `numTurns` turns hold as many messages of the user
as the last `numTurns` instructions. -/
def RemovesAlike (segments : List (LogSegment rules)) (numTurns : Nat) : Prop :=
  (((turnsLeft segments).rtake numTurns).flatMap RecordedTurn.messages).length =
    (((instructionsLeft segments).rtake numTurns).filterMap (realUserMessage rules)).length

theorem agrees_iff (segments : List (LogSegment rules)) :
    Agrees parsers drawn segments ↔
      ((turnsLeft segments).flatMap RecordedTurn.messages).map textsOf =
        historyUserMessages rules (instructionsLeft segments) := by
  rw [Agrees, shownUserMessages, map_userMessages_buildTurns,
    reconstruct_of_not_holdsCheckpoint (not_holdsCheckpoint_rolloutOf segments),
    historyUserMessages, filterMap_realUserMessage, filter_plainReplay, List.flatMap]
  rfl

theorem historyUserMessages_append (items more : List ResponseItem) :
    historyUserMessages rules (items ++ more) =
      historyUserMessages rules items ++ historyUserMessages rules more := by
  rw [historyUserMessages, List.filterMap_append, List.map_append]
  rfl

/-- A turn adds the same messages to both sides. -/
theorem historyUserMessages_instructions (turn : RecordedTurn rules) :
    historyUserMessages rules turn.instructions = turn.messages.map textsOf := by
  have hmessages : turn.messages.map textsOf =
      ((turn.body.filterMap BodyItem.eventMessage).map UserMessageEvent.message).map
        shownTexts := by
    rw [RecordedTurn.messages, List.map_map, List.map_map]
    exact List.map_congr_left fun payload _ => textsOf_buildUserInputs payload
  rw [hmessages, historyUserMessages, ← turn.recorded, RecordedTurn.instructions,
    List.filterMap_filterMap]
  congr 1
  apply List.filterMap_congr
  intro item _
  cases item with
  | responseItem item details =>
      rw [BodyItem.recordedInstruction, BodyItem.recordedMessage]
      split
      · rfl
      · rename_i hother
        rcases hreal : realUserMessage rules item with _ | text
        · rfl
        · exact absurd (isUserTurnBoundary_of_realUserMessage hreal) hother
  | userMessage payload => rfl

theorem Agrees.turn {segments : List (LogSegment rules)} (h : Agrees parsers drawn segments)
    (turn : RecordedTurn rules) : Agrees parsers drawn (segments ++ [.turn turn]) := by
  rw [agrees_iff] at h ⊢
  rw [turnsLeft, instructionsLeft, leftAfter_turn, leftAfter_turn, ← turnsLeft, ← instructionsLeft,
    List.flatMap_append, List.map_append, h, historyUserMessages_append,
    historyUserMessages_instructions, List.flatMap_singleton]

theorem rdrop_append_rtake {α : Type} (l : List α) (n : Nat) : l.rdrop n ++ l.rtake n = l :=
  List.take_append_drop (l.length - n) l

/-- After a rollback both sides have a start of the same messages, of the same length if
they have lost the same number. -/
theorem Agrees.rollback_iff {segments : List (LogSegment rules)} (h : Agrees parsers drawn segments)
    (numTurns : Nat) :
    Agrees parsers drawn (segments ++ [.rollback numTurns]) ↔ RemovesAlike segments numTurns := by
  rw [agrees_iff] at h ⊢
  rw [turnsLeft, instructionsLeft, leftAfter_rollback, leftAfter_rollback, ← turnsLeft,
    ← instructionsLeft]
  rw [← rdrop_append_rtake (turnsLeft segments) numTurns,
    ← rdrop_append_rtake (instructionsLeft segments) numTurns, List.flatMap_append,
    List.map_append, historyUserMessages_append] at h
  rw [RemovesAlike]
  constructor
  · intro hkept
    rw [hkept] at h
    have hlength := congrArg List.length (List.append_cancel_left h)
    rw [List.length_map, historyUserMessages, List.length_map] at hlength
    exact hlength
  · intro hlost
    refine (List.append_inj' h ?_).1
    rw [List.length_map, hlost, historyUserMessages, List.length_map]

/-- For every log of turns and rollbacks: shown and remembered messages agree after each
part of it if and only if every rollback finds as many messages of the user in the last
turns that are left as among the last instructions that are left. -/
theorem shown_messages_agree_iff (segments : List (LogSegment rules)) :
    (∀ before after, segments = before ++ after → Agrees parsers drawn before) ↔
      ∀ before numTurns after, segments = before ++ .rollback numTurns :: after →
        RemovesAlike before numTurns := by
  constructor
  · intro hagrees before numTurns after hsplit
    have hbefore : Agrees parsers drawn before := hagrees before _ hsplit
    refine (hbefore.rollback_iff numTurns).1 (hagrees _ after ?_)
    rw [hsplit, List.append_assoc]
    rfl
  · intro hremoves before after hsplit
    induction before using List.reverseRecOn generalizing after with
    | nil => exact (agrees_iff []).2 rfl
    | append_singleton before segment ih =>
        rw [List.append_assoc] at hsplit
        have hbefore : Agrees parsers drawn before := ih _ hsplit
        cases segment with
        | turn turn => exact hbefore.turn turn
        | rollback numTurns =>
            exact (hbefore.rollback_iff numTurns).2 (hremoves before numTurns after hsplit)

/-! ## A turn without a message -/

def plainParsers : Parsers where
  hookPromptXml := fun _ => none
  shellCommandToolCallParams := fun _ => none
  rawExecCommandFunctionCallParams := fun _ => none
  shlexJoin := Text.joinWith ' '

def askingTurn (turnId text : Text) : RecordedTurn plainRules where
  turnId := turnId
  startedAt := none
  body := [.responseItem (userMessage text) ⟨none, .completed, []⟩,
    .userMessage ⟨none, text, none, [], [], []⟩]
  ending := .complete none none
  recorded := by
    have hreal : realUserMessage plainRules (userMessage text) = some text := by
      simp [realUserMessage, userMessage, isContextualUserMessageContent, isContextualUserFragment,
        plainRules, userMessageTexts, isImage]
    rw [List.filterMap_cons, BodyItem.recordedMessage, hreal]
    rfl

/-- A turn that nobody asked for. -/
def silentTurn (turnId : Text) : RecordedTurn plainRules where
  turnId := turnId
  startedAt := none
  body := []
  ending := .complete none none
  recorded := rfl

def silentTurnRolledBack : List (LogSegment plainRules) :=
  [.turn (askingTurn "1".toList "u".toList), .turn (silentTurn "2".toList), .rollback 1]

/-- The turn without a message is gone from the list, and the message from the history. -/
theorem rollback_of_silent_turn_disagrees :
    shownUserMessages (buildTurnsFromRolloutItems plainParsers (fun _ => ⟨[], []⟩)
        (shownRolloutOf silentTurnRolledBack)) = [[.text "u".toList]] ∧
      historyUserMessages plainRules (reconstructHistoryFromRollout plainRules
        (rolloutOf silentTurnRolledBack)).history = [] := by
  decide +kernel

end Codewith.Session
