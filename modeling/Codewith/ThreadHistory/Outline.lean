import Mathlib.Logic.Relation
import Codewith.ThreadHistory.Builder

/-!
# The outline of a thread

Of the state of a builder, the outline keeps the ids of the items in each turn.  Whatever an
input does, on the outline it is a sequence of a few kinds of steps.
-/

namespace Codewith.ThreadHistory

open Lib
open Session (FunctionCallOutputPayload)

/-! ### Outlines and their steps -/

structure OpenTurn where
  ids : List Text
  explicit : Bool
  compacted : Bool

structure Outline where
  turns : List (List Text)
  current : Option OpenTurn
  next : Nat

namespace OpenTurn

def new : OpenTurn := ⟨[], false, false⟩

/-- The turn is shown even if it ends now. -/
def Shown (turn : OpenTurn) : Prop :=
  turn.ids ≠ [] ∨ turn.explicit = true ∨ turn.compacted = true

instance (turn : OpenTurn) : Decidable turn.Shown := inferInstanceAs (Decidable (_ ∨ _))

end OpenTurn

namespace Outline

def ensure (o : Outline) : OpenTurn := o.current.getD .new

def push (o : Outline) (id : Text) : Outline :=
  { o with current := some { o.ensure with ids := o.ensure.ids ++ [id] } }

def finish (o : Outline) : Outline :=
  match o.current with
  | none => o
  | some turn =>
      if turn.Shown then { o with turns := o.turns ++ [turn.ids], current := none }
      else { o with current := none }

theorem current_finish (o : Outline) : o.finish.current = none := by
  rw [finish]
  split
  · assumption
  · split_ifs
    · rfl
    · rfl

def count (turns : List (List Text)) : Nat := (turns.map List.length).sum

/-- What an input can do.  The ids of items that the builder does not generate come from the
input. -/
inductive Step (isInput : Text → Prop) (o : Outline) : Outline → Prop
  | finish : Step isInput o o.finish
  | openExplicitly : Step isInput o { o.finish with current := some ⟨[], true, false⟩ }
  | generate : Step isInput o { o.push (itemId o.next) with next := o.next + 1 }
  | add (id : Text) (hid : isInput id) : Step isInput o (o.push id)
  | addTo (before after : List (List Text)) (ids : List Text) (id : Text) (hid : isInput id)
      (hturns : o.turns = before ++ ids :: after) :
      Step isInput o { o with turns := before ++ (ids ++ [id]) :: after }
  | mark : Step isInput o { o with current := some { o.ensure with compacted := true } }
  | rollback (kept dropped : List (List Text)) (hturns : o.finish.turns = kept ++ dropped) :
      Step isInput o { turns := kept, current := none, next := count kept + 1 }

abbrev Steps (isInput : Text → Prop) : Outline → Outline → Prop :=
  Relation.ReflTransGen (Step isInput)

theorem Step.mono {p q : Text → Prop} (hpq : ∀ id, p id → q id) {o o' : Outline}
    (h : Step p o o') : Step q o o' := by
  cases h with
  | finish => exact .finish
  | openExplicitly => exact .openExplicitly
  | generate => exact .generate
  | add id hid => exact .add id (hpq id hid)
  | addTo before after ids id hid hturns => exact .addTo before after ids id (hpq id hid) hturns
  | mark => exact .mark
  | rollback kept dropped hturns => exact .rollback kept dropped hturns

end Outline

/-! ### The outline of a builder -/

def Turn.itemIds (turn : Turn) : List Text := turn.items.map ThreadItem.id

def PendingTurn.outline (turn : PendingTurn) : OpenTurn :=
  ⟨turn.toTurn.itemIds, turn.openedExplicitly, turn.sawCompaction⟩

def ThreadHistoryBuilder.outline (b : ThreadHistoryBuilder) : Outline :=
  ⟨b.turns.map Turn.itemIds, b.currentTurn.map PendingTurn.outline, b.nextItemIndex⟩

theorem map_id_upsertTurnItem (item : ThreadItem) (items : List ThreadItem) :
    (items ≠ [] ∧ (upsertTurnItem item items).map ThreadItem.id = items.map ThreadItem.id) ∨
      (upsertTurnItem item items).map ThreadItem.id = items.map ThreadItem.id ++ [item.id] := by
  induction items with
  | nil => exact .inr rfl
  | cons existing items ih =>
      rw [upsertTurnItem]
      split_ifs with hid
      · exact .inl ⟨List.cons_ne_nil existing items, by rw [List.map_cons, List.map_cons, hid]⟩
      · rcases ih with ⟨-, hsame⟩ | hadded
        · exact .inl ⟨List.cons_ne_nil existing items, by rw [List.map_cons, List.map_cons, hsame]⟩
        · exact .inr (by rw [List.map_cons, List.map_cons, hadded, List.cons_append])

theorem map_id_completeCommandExecutionItem {callId : Text} {output : FunctionCallOutputPayload}
    {items items' : List ThreadItem}
    (h : completeCommandExecutionItem callId output items = some items') :
    items'.map ThreadItem.id = items.map ThreadItem.id := by
  induction items generalizing items' with
  | nil => cases h
  | cons item items ih =>
      have hrest : ∀ rest, (completeCommandExecutionItem callId output items).map (item :: ·) =
          some rest → rest.map ThreadItem.id = (item :: items).map ThreadItem.id := by
        intro rest hmap
        obtain ⟨completed, hcompleted, rfl⟩ := Option.map_eq_some_iff.1 hmap
        rw [List.map_cons, List.map_cons, ih hcompleted]
      cases item with
      | commandExecution command =>
          rw [completeCommandExecutionItem] at h
          split_ifs at h
          · obtain rfl := Option.some.inj h
            rfl
          · exact hrest items' h
      | _ => exact hrest items' h

theorem map_itemIds_changeFirst {change : List ThreadItem → Option (List ThreadItem)}
    (hchange : ∀ items items', change items = some items' →
      items'.map ThreadItem.id = items.map ThreadItem.id)
    {turns turns' : List Turn} (h : changeFirst change turns = some turns') :
    turns'.map Turn.itemIds = turns.map Turn.itemIds := by
  induction turns generalizing turns' with
  | nil => cases h
  | cons turn turns ih =>
      rw [changeFirst] at h
      split at h
      · rename_i items hitems
        obtain rfl := Option.some.inj h
        rw [List.map_cons, List.map_cons, Turn.itemIds, Turn.itemIds, hchange _ _ hitems]
      · obtain ⟨rest, hrest, rfl⟩ := Option.map_eq_some_iff.1 h
        rw [List.map_cons, List.map_cons, ih hrest]

/-- A change of one turn, where it is. -/
theorem exists_of_changeTurn {turnId : Text} {change : Turn → Turn} {turns turns' : List Turn}
    (h : changeTurn turnId change turns = some turns') :
    ∃ before turn after, turns = before ++ turn :: after ∧
      turns' = before ++ change turn :: after := by
  induction turns generalizing turns' with
  | nil => cases h
  | cons turn turns ih =>
      rw [changeTurn] at h
      split_ifs at h
      · obtain rfl := Option.some.inj h
        exact ⟨[], turn, turns, rfl, rfl⟩
      · obtain ⟨rest, hrest, rfl⟩ := Option.map_eq_some_iff.1 h
        obtain ⟨before, found, after, rfl, rfl⟩ := ih hrest
        exact ⟨turn :: before, found, after, rfl, rfl⟩

namespace ThreadHistoryBuilder

variable (b : ThreadHistoryBuilder) (uuids : Uuids)

theorem outline_ensureTurn : (b.ensureTurn uuids).outline = b.outline.ensure := by
  unfold ensureTurn Outline.ensure outline
  cases b.currentTurn with
  | none => rfl
  | some turn => rfl

theorem outline_finishCurrentTurn : b.finishCurrentTurn.outline = b.outline.finish := by
  unfold finishCurrentTurn Outline.finish
  rcases hcurrent : b.currentTurn with _ | turn
  · simp [outline, hcurrent]
  · have hshown : turn.outline.Shown ↔
        ¬(turn.items = [] ∧ ¬turn.openedExplicitly ∧ ¬turn.sawCompaction) := by
      rw [OpenTurn.Shown, PendingTurn.outline, Turn.itemIds]
      rcases turn.openedExplicitly with _ | _
      · rcases turn.sawCompaction with _ | _
        · simp
        · simp
      · simp
    simp only [outline, hcurrent, Option.map_some]
    by_cases hempty : turn.items = [] ∧ ¬turn.openedExplicitly ∧ ¬turn.sawCompaction
    · rw [if_pos hempty, if_neg (fun h => hshown.mp h hempty)]
      rfl
    · rw [if_neg hempty, if_pos (hshown.mpr hempty)]
      simp [PendingTurn.outline]

theorem outline_pushItem (item : ThreadItem) :
    (b.pushItem uuids item).outline = b.outline.push item.id := by
  have hensure := b.outline_ensureTurn uuids
  rw [PendingTurn.outline] at hensure
  rw [Outline.push, ← hensure]
  simp [pushItem, changeItems, outline, PendingTurn.outline, Turn.itemIds]

theorem outline_pushGenerated {item : Text → ThreadItem} (hitem : ∀ id, (item id).id = id) :
    (b.pushGenerated uuids item).outline =
      { b.outline.push (itemId b.outline.next) with next := b.outline.next + 1 } := by
  have hpush := b.outline_pushItem uuids (item (itemId b.nextItemIndex))
  rw [hitem] at hpush
  rw [show b.outline.next = b.nextItemIndex from rfl, ← hpush]
  rfl

/-- A change of the items that keeps their ids or adds one at the end. -/
theorem steps_changeItems {isInput : Text → Prop} {change : List ThreadItem → List ThreadItem}
    {id : Text} (hid : isInput id)
    (hchange : ∀ items : List ThreadItem,
      (items ≠ [] ∧ (change items).map ThreadItem.id = items.map ThreadItem.id) ∨
        (change items).map ThreadItem.id = items.map ThreadItem.id ++ [id]) :
    Outline.Steps isInput b.outline (b.changeItems uuids change).outline := by
  have hensure := b.outline_ensureTurn uuids
  rw [PendingTurn.outline] at hensure
  rcases hchange (b.ensureTurn uuids).items with ⟨hne, hsame⟩ | hadded
  · have hcurrent : b.currentTurn = some (b.ensureTurn uuids) := by
      unfold ensureTurn at hne ⊢
      cases hcurrent : b.currentTurn with
      | none => simp [hcurrent, newTurn] at hne
      | some turn => rfl
    have hequal : (b.changeItems uuids change).outline = b.outline := by
      simp only [changeItems, outline, hcurrent, Option.map_some, PendingTurn.outline, Turn.itemIds,
        hsame]
    rw [hequal]
  · have hequal : (b.changeItems uuids change).outline = b.outline.push id := by
      rw [Outline.push, ← hensure]
      simp [changeItems, outline, PendingTurn.outline, Turn.itemIds, hadded]
    rw [hequal]
    exact .single (.add id hid)

/-! ### What the handlers do -/

section Handlers

variable {isInput : Text → Prop} {b : ThreadHistoryBuilder} {uuids : Uuids}

theorem steps_upsertItemInCurrentTurn {item : ThreadItem} (hid : isInput item.id) :
    Outline.Steps isInput b.outline (b.upsertItemInCurrentTurn uuids item).outline :=
  b.steps_changeItems uuids hid (map_id_upsertTurnItem item)

theorem steps_insertRawCommandExecution {item : ThreadItem} (hid : isInput item.id) :
    Outline.Steps isInput b.outline
      (b.insertRawCommandExecutionInCurrentTurn uuids item).outline := by
  apply b.steps_changeItems uuids hid
  intro items
  by_cases hany : (items.any fun existing => existing.id = item.id) = true
  · rw [if_pos hany]
    refine .inl ⟨?_, rfl⟩
    rintro rfl
    simp at hany
  · rw [if_neg hany, List.map_append]
    exact .inr rfl

/-- An item added to the finished turn that has the id, or nothing. -/
theorem steps_changeTurn {turnId : Text} {item : ThreadItem} {turns : List Turn}
    (hid : isInput item.id)
    (h : changeTurn turnId (fun turn => { turn with items := upsertTurnItem item turn.items })
      b.turns = some turns) :
    Outline.Steps isInput b.outline { b with turns }.outline := by
  obtain ⟨before, turn, after, hturns, rfl⟩ := exists_of_changeTurn h
  rcases map_id_upsertTurnItem item turn.items with ⟨-, hsame⟩ | hadded
  · have hequal : b.outline = { b with
        turns := before ++ { turn with items := upsertTurnItem item turn.items } ::
          after }.outline := by
      simp [outline, hturns, Turn.itemIds, hsame]
    rw [← hequal]
  · have hstep : Outline.Step isInput b.outline { b.outline with
        turns := before.map Turn.itemIds ++
          (turn.itemIds ++ [item.id]) :: after.map Turn.itemIds } :=
      .addTo _ _ _ item.id hid (by simp [outline, hturns])
    have hequal : { b.outline with
        turns := before.map Turn.itemIds ++
          (turn.itemIds ++ [item.id]) :: after.map Turn.itemIds } = { b with
        turns := before ++ { turn with items := upsertTurnItem item turn.items } ::
          after }.outline := by
      simp [outline, Turn.itemIds, hadded]
    rw [← hequal]
    exact .single hstep

theorem steps_upsertItemInTurnId {turnId : Text} {item : ThreadItem} (hid : isInput item.id) :
    Outline.Steps isInput b.outline (b.upsertItemInTurnId turnId item).outline := by
  unfold upsertItemInTurnId
  split
  · rename_i turn hturn
    obtain ⟨hcurrent, -⟩ := Option.filter_eq_some_iff.mp hturn
    have hequal : { b with
        currentTurn := some { turn with items := upsertTurnItem item turn.items } } =
          b.upsertItemInCurrentTurn ⟨[], []⟩ item := by
      simp [upsertItemInCurrentTurn, changeItems, ensureTurn, hcurrent]
    rw [hequal]
    exact steps_upsertItemInCurrentTurn hid
  · split
    · rename_i turns hturns
      exact steps_changeTurn hid hturns
    · exact .refl

theorem steps_upsertItem {turnId : Text} {item : ThreadItem} (hid : isInput item.id) :
    Outline.Steps isInput b.outline (b.upsertItem uuids turnId item).outline := by
  unfold upsertItem
  split_ifs
  · exact steps_upsertItemInCurrentTurn hid
  · exact steps_upsertItemInTurnId hid

theorem steps_pushGenerated {item : Text → ThreadItem} (hitem : ∀ id, (item id).id = id) :
    Outline.Steps isInput b.outline (b.pushGenerated uuids item).outline := by
  rw [b.outline_pushGenerated uuids hitem]
  exact .single .generate

theorem steps_finishCurrentTurn :
    Outline.Steps isInput b.outline b.finishCurrentTurn.outline := by
  rw [outline_finishCurrentTurn]
  exact .single .finish

theorem outline_completeRawCommandExecution {callId : Text} {output : FunctionCallOutputPayload} :
    (b.completeRawCommandExecution callId output).outline = b.outline := by
  unfold completeRawCommandExecution
  split
  · rename_i turn' hturn'
    obtain ⟨turn, hcurrent, hcompleted⟩ := Option.bind_eq_some_iff.mp hturn'
    obtain ⟨items, hitems, rfl⟩ := Option.map_eq_some_iff.mp hcompleted
    simp [outline, hcurrent, PendingTurn.outline, Turn.itemIds,
      map_id_completeCommandExecutionItem hitems]
  · split
    · rename_i turns hturns
      have hsame := map_itemIds_changeFirst
        (fun _ _ h => map_id_completeCommandExecutionItem h) hturns
      simp only [outline, List.map_reverse, hsame, List.reverse_reverse]
    · rfl

theorem outline_mapCurrent {change : Turn → Turn}
    (hchange : ∀ turn, (change turn).items = turn.items) :
    (b.mapCurrent change).outline = b.outline := by
  cases hcurrent : b.currentTurn with
  | none => simp [mapCurrent, outline, hcurrent]
  | some turn =>
      simp [mapCurrent, outline, hcurrent, PendingTurn.outline, Turn.itemIds, hchange]

theorem outline_changeTurn {turnId : Text} {change : Turn → Turn} {turns : List Turn}
    (hchange : ∀ turn, (change turn).items = turn.items)
    (h : changeTurn turnId change b.turns = some turns) :
    { b with turns }.outline = b.outline := by
  obtain ⟨before, turn, after, hturns, rfl⟩ := exists_of_changeTurn h
  simp [outline, hturns, Turn.itemIds, hchange]

theorem outline_handleTurnAborted {turnId : Option Text} {completedAt durationMs : Option Int} :
    (b.handleTurnAborted turnId completedAt durationMs).outline = b.outline := by
  have hchange : ∀ turn, (applyAbort completedAt durationMs turn).items = turn.items := fun _ => rfl
  rcases turnId with _ | turnId
  · exact outline_mapCurrent hchange
  · rw [handleTurnAborted]
    split_ifs
    · exact outline_mapCurrent hchange
    · split
      · rename_i turns hturns
        exact outline_changeTurn hchange hturns
      · exact outline_mapCurrent hchange

theorem steps_handleTurnComplete {turnId : Text} {completedAt durationMs : Option Int} :
    Outline.Steps isInput b.outline
      (b.handleTurnComplete turnId completedAt durationMs).outline := by
  have hchange : ∀ turn, (markCompleted completedAt durationMs turn).items = turn.items :=
    fun _ => rfl
  have hfinish : Outline.Steps isInput b.outline
      (b.mapCurrent (markCompleted completedAt durationMs)).finishCurrentTurn.outline := by
    rw [← @outline_mapCurrent b _ hchange]
    exact steps_finishCurrentTurn
  unfold handleTurnComplete
  dsimp only
  split_ifs
  · exact hfinish
  · split
    · rename_i turns hturns
      rw [outline_changeTurn hchange hturns]
    · exact hfinish

theorem steps_handleTurnStarted {turnId : Text} {startedAt : Option Int} :
    Outline.Steps isInput b.outline (b.handleTurnStarted uuids turnId startedAt).outline := by
  have hequal : (b.handleTurnStarted uuids turnId startedAt).outline =
      { b.outline.finish with current := some ⟨[], true, false⟩ } := by
    rw [← outline_finishCurrentTurn]
    rfl
  rw [hequal]
  exact .single .openExplicitly

theorem steps_handleCompacted :
    Outline.Steps isInput b.outline (b.handleCompacted uuids).outline := by
  have hequal : (b.handleCompacted uuids).outline =
      { b.outline with current := some { b.outline.ensure with compacted := true } } := by
    rw [← b.outline_ensureTurn uuids]
    rfl
  rw [hequal]
  exact .single .mark

theorem itemCount_eq (turns : List Turn) :
    itemCount turns = Outline.count (turns.map Turn.itemIds) := by
  simp [itemCount, Outline.count, Turn.itemIds, Function.comp_def]

theorem steps_handleThreadRollback {numTurns : Nat} :
    Outline.Steps isInput b.outline (b.handleThreadRollback numTurns).outline := by
  have hnone : b.finishCurrentTurn.currentTurn = none := by
    unfold finishCurrentTurn
    split
    · assumption
    · split_ifs
      · rfl
      · rfl
  obtain ⟨kept, dropped, hturns, hkept⟩ : ∃ kept dropped,
      b.finishCurrentTurn.turns = kept ++ dropped ∧
        (b.handleThreadRollback numTurns) =
          { b.finishCurrentTurn with turns := kept, nextItemIndex := itemCount kept + 1 } := by
    by_cases hle : b.finishCurrentTurn.turns.length ≤ numTurns
    · exact ⟨[], b.finishCurrentTurn.turns, rfl, by simp only [handleThreadRollback, if_pos hle]⟩
    · exact ⟨_, _, (List.take_append_drop (b.finishCurrentTurn.turns.length - numTurns) _).symm,
        by simp only [handleThreadRollback, if_neg hle]⟩
  have hequal : (b.handleThreadRollback numTurns).outline =
      { turns := kept.map Turn.itemIds, current := none
        next := Outline.count (kept.map Turn.itemIds) + 1 } := by
    rw [hkept, ← itemCount_eq]
    simp [outline, hnone]
  rw [hequal]
  apply Relation.ReflTransGen.single
  apply Outline.Step.rollback _ (dropped.map Turn.itemIds)
  rw [← outline_finishCurrentTurn, ← List.map_append, ← hturns]
  rfl

theorem steps_handleUserMessage {payload : UserMessageEvent} :
    Outline.Steps isInput b.outline (b.handleUserMessage uuids payload).outline := by
  unfold handleUserMessage
  dsimp only
  split_ifs
  · exact steps_finishCurrentTurn.trans (steps_pushGenerated fun _ => rfl)
  · exact steps_pushGenerated fun _ => rfl

/-- The last item is replaced by one with its id. -/
theorem outline_changeLast {last item : ThreadItem} (hid : item.id = last.id)
    (hlast : (b.ensureTurn uuids).items.getLast? = some last) :
    (b.changeItems uuids fun items => items.dropLast ++ [item]).outline = b.outline := by
  obtain ⟨items, hitems⟩ := List.getLast?_eq_some_iff.mp hlast
  have hcurrent : b.currentTurn = some (b.ensureTurn uuids) := by
    unfold ensureTurn at hitems ⊢
    cases hcurrent : b.currentTurn with
    | none => simp [hcurrent, newTurn] at hitems
    | some turn => rfl
  simp [changeItems, outline, hcurrent, PendingTurn.outline, Turn.itemIds, hitems, hid]

theorem steps_handleAgentReasoning {text : Text} :
    Outline.Steps isInput b.outline (b.handleAgentReasoning uuids text).outline := by
  unfold handleAgentReasoning
  split_ifs
  · exact .refl
  · split
    · rename_i id summary content hlast
      have hsame := @outline_changeLast b uuids (.reasoning id summary content)
        (.reasoning id (summary ++ [text]) content) rfl hlast
      rw [hsame]
    · exact steps_pushGenerated fun _ => rfl

theorem steps_handleAgentReasoningRawContent {text : Text} :
    Outline.Steps isInput b.outline (b.handleAgentReasoningRawContent uuids text).outline := by
  unfold handleAgentReasoningRawContent
  split_ifs
  · exact .refl
  · split
    · rename_i id summary content hlast
      have hsame := @outline_changeLast b uuids (.reasoning id summary content)
        (.reasoning id summary (content ++ [text])) rfl hlast
      rw [hsame]
    · exact steps_pushGenerated fun _ => rfl

end Handlers

end ThreadHistoryBuilder

/-! ### The ids of an input -/

def ResponseItem.itemIds (uuids : Uuids) : ResponseItem → List Text
  | message id _ _ => [id.getD uuids.item]
  | functionCall _ _ _ callId => [callId]
  | functionCallOutput callId _ => [callId]
  | localShellCall id callId _ _ => id.toList ++ callId.toList
  | other => []

/-- The ids of calls and items in an event. -/
def EventMsg.itemIds (uuids : Uuids) : EventMsg → List Text
  | webSearchBegin callId | webSearchEnd callId _ | applyPatchApprovalRequest callId _
  | patchApplyBegin callId _ | patchApplyEnd callId _ _ | viewImageToolCall callId _
  | imageGenerationBegin callId | imageGenerationEnd callId _ _ | collabAgentSpawnBegin callId _
  | collabAgentSpawnEnd callId _ _ _ | collabAgentInteractionBegin callId _ _
  | collabAgentInteractionEnd callId _ _ _ | collabWaitingBegin callId _ _
  | collabWaitingEnd callId _ _ | collabCloseBegin callId _ _ | collabCloseEnd callId _ _ _
  | collabResumeBegin callId _ _ | collabResumeEnd callId _ _ _ => [callId]
  | execCommandBegin payload => [payload.callId]
  | execCommandEnd payload => [payload.callId]
  | guardianAssessment payload => payload.targetItemId.toList
  | dynamicToolCallRequest payload => [payload.callId]
  | dynamicToolCallResponse payload => [payload.callId]
  | mcpToolCallBegin payload => [payload.callId]
  | mcpToolCallEnd payload => [payload.callId]
  | itemStarted _ (.plan id _) | itemCompleted _ (.plan id _) => [id]
  | rawResponseItem item => item.itemIds uuids
  | _ => []

def Input.itemIds (uuids : Uuids) : Input → List Text
  | event msg => msg.itemIds uuids
  | rolloutItem (.eventMsg msg) => msg.itemIds uuids
  | rolloutItem (.responseItem item) => item.itemIds uuids
  | rolloutItem _ => []

theorem id_of_functionCall {parsers : Parsers} {toolNamespace : Option Text}
    {name arguments callId : Text} {item : ThreadItem}
    (h : commandExecutionFromFunctionCall parsers toolNamespace name arguments callId = some item) :
    item.id = callId := by
  unfold commandExecutionFromFunctionCall at h
  simp only [Option.bind_eq_bind] at h
  split_ifs at h
  · obtain ⟨command, -, h⟩ := Option.bind_eq_some_iff.mp h
    rw [← Option.some.inj h]
    rfl
  · obtain ⟨params, -, h⟩ := Option.bind_eq_some_iff.mp h
    obtain ⟨command, -, h⟩ := Option.bind_eq_some_iff.mp h
    rw [← Option.some.inj h]
    cases command with
    | string command => rfl
    | argv command => rfl

theorem id_of_guardianEvent {parsers : Parsers} {payload : GuardianAssessmentEvent}
    {status : CommandExecutionStatus} {item : ThreadItem}
    (h : buildItemFromGuardianEvent parsers payload status = some item) :
    payload.targetItemId = some item.id := by
  unfold buildItemFromGuardianEvent at h
  split at h
  · obtain ⟨id, hid, rfl⟩ := Option.map_eq_some_iff.mp h
    exact hid
  · obtain ⟨id, hid, rfl⟩ := Option.map_eq_some_iff.mp h
    exact hid
  · cases h

namespace ThreadHistoryBuilder

variable {isInput : Text → Prop} {b : ThreadHistoryBuilder} {uuids : Uuids} {parsers : Parsers}

theorem steps_handleResponseItem {item : ResponseItem}
    (hids : ∀ id ∈ item.itemIds uuids, isInput id) :
    Outline.Steps isInput b.outline (b.handleResponseItem parsers uuids item).outline := by
  cases item with
  | message id role content =>
      rw [handleResponseItem]
      split_ifs
      · exact .refl
      · split
        · rw [outline_pushItem]
          exact .single (.add _ (hids _ (List.mem_singleton.mpr rfl)))
        · exact .refl
  | functionCall name toolNamespace arguments callId =>
      rw [handleResponseItem]
      split
      · rename_i item hitem
        apply steps_insertRawCommandExecution
        rw [id_of_functionCall hitem]
        exact hids _ (List.mem_singleton.mpr rfl)
      · exact .refl
  | functionCallOutput callId output =>
      rw [handleResponseItem, outline_completeRawCommandExecution]
  | localShellCall id callId status command =>
      rw [handleResponseItem]
      split
      · rename_i callId' hcall
        apply steps_insertRawCommandExecution
        apply hids
        rcases Option.or_eq_some_iff.mp hcall with h | ⟨-, h⟩
        · exact List.mem_append_right _ (Option.mem_toList.mpr h)
        · exact List.mem_append_left _ (Option.mem_toList.mpr h)
      · exact .refl
  | other => exact .refl

theorem steps_handleGuardianAssessment {payload : GuardianAssessmentEvent}
    (hids : ∀ id ∈ payload.targetItemId.toList, isInput id) :
    Outline.Steps isInput b.outline (b.handleGuardianAssessment parsers uuids payload).outline := by
  unfold handleGuardianAssessment
  dsimp only
  split
  · rename_i item hitem
    obtain ⟨status, -, hitem⟩ := Option.bind_eq_some_iff.mp hitem
    exact steps_upsertItem (hids _ (Option.mem_toList.mpr (id_of_guardianEvent hitem)))
  · exact .refl

theorem steps_handleItem {turnId : Text} {item : TurnItem}
    (hids : ∀ id text, item = .plan id text → isInput id) :
    Outline.Steps isInput b.outline (b.handleItem turnId item).outline := by
  cases item with
  | plan id text =>
      rw [handleItem]
      split_ifs
      · exact .refl
      · exact steps_upsertItemInTurnId (hids id text rfl)
  | other => exact .refl

theorem steps_handleEvent {event : EventMsg} (hids : ∀ id ∈ event.itemIds uuids, isInput id) :
    Outline.Steps isInput b.outline (b.handleEvent parsers uuids event).outline := by
  have hfirst : ∀ id rest, event.itemIds uuids = id :: rest → isInput id :=
    fun id rest hequal => hids id (hequal ▸ List.mem_cons_self ..)
  cases event with
  | userMessage payload => exact steps_handleUserMessage
  | agentMessage message =>
      rw [handleEvent, handleAgentMessage]
      split_ifs
      · exact .refl
      · exact steps_pushGenerated fun _ => rfl
  | agentReasoning text => exact steps_handleAgentReasoning
  | agentReasoningRawContent text => exact steps_handleAgentReasoningRawContent
  | execCommandBegin payload => exact steps_upsertItemInTurnId (hfirst _ _ rfl)
  | execCommandEnd payload => exact steps_upsertItemInTurnId (hfirst _ _ rfl)
  | guardianAssessment payload => exact steps_handleGuardianAssessment hids
  | applyPatchApprovalRequest callId turnId => exact steps_upsertItem (hfirst _ _ rfl)
  | patchApplyBegin callId turnId => exact steps_upsertItem (hfirst _ _ rfl)
  | patchApplyEnd callId turnId status => exact steps_upsertItem (hfirst _ _ rfl)
  | dynamicToolCallRequest payload => exact steps_upsertItem (hfirst _ _ rfl)
  | dynamicToolCallResponse payload => exact steps_upsertItem (hfirst _ _ rfl)
  | contextCompacted => exact steps_pushGenerated fun _ => rfl
  | enteredReviewMode hint => exact steps_pushGenerated fun _ => rfl
  | exitedReviewMode explanation => exact steps_pushGenerated fun _ => rfl
  | itemStarted turnId item =>
      apply steps_handleItem
      rintro id text rfl
      exact hfirst _ _ rfl
  | itemCompleted turnId item =>
      apply steps_handleItem
      rintro id text rfl
      exact hfirst _ _ rfl
  | error message info =>
      rw [handleEvent, handleError]
      split_ifs
      · have hequal := @outline_mapCurrent b
          (fun turn => { turn with status := .failed, error := some message }) (fun _ => rfl)
        rw [mapCurrent] at hequal
        rw [hequal]
      · exact .refl
  | threadRolledBack numTurns => exact steps_handleThreadRollback
  | turnAborted turnId completedAt durationMs => rw [handleEvent, outline_handleTurnAborted]
  | turnStarted turnId startedAt => exact steps_handleTurnStarted
  | turnComplete turnId completedAt durationMs => exact steps_handleTurnComplete
  | rawResponseItem item => exact steps_handleResponseItem hids
  | other => exact .refl
  -- The other events add or replace one item of the open turn.
  | _ => exact steps_upsertItemInCurrentTurn (hfirst _ _ rfl)

theorem steps_handleInput {input : Input} (hids : ∀ id ∈ input.itemIds uuids, isInput id) :
    Outline.Steps isInput b.outline (b.handleInput parsers uuids input).outline := by
  cases input with
  | event event => exact steps_handleEvent hids
  | rolloutItem item =>
      -- The indexes of the rollout are not part of the outline.
      have hequal : b.outline = { b with
          currentRolloutIndex := b.nextRolloutIndex
          nextRolloutIndex := b.nextRolloutIndex + 1 }.outline := rfl
      rw [hequal]
      cases item with
      | eventMsg event => exact steps_handleEvent hids
      | compacted => exact steps_handleCompacted
      | responseItem item => exact steps_handleResponseItem hids
      | turnContext => exact .refl
      | sessionMeta => exact .refl

end ThreadHistoryBuilder

def Outline.initial : Outline := ⟨[], none, 1⟩

/-- A run of a builder is a run of outlines. -/
theorem steps_built {isInput : Text → Prop} (parsers : Parsers) (inputs : List (Uuids × Input))
    (hids : ∀ input ∈ inputs, ∀ id ∈ input.2.itemIds input.1, isInput id) :
    Outline.Steps isInput .initial (built parsers inputs).outline := by
  induction inputs using List.reverseRecOn with
  | nil => exact .refl
  | append_singleton inputs input ih =>
      have hlast : built parsers (inputs ++ [input]) =
          (built parsers inputs).handleInput parsers input.1 input.2 := by
        simp [built]
      rw [hlast]
      exact (ih fun earlier h => hids earlier (List.mem_append_left _ h)).trans
        (ThreadHistoryBuilder.steps_handleInput (hids input (by simp)))

end Codewith.ThreadHistory
