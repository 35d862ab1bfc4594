import Codewith.Session.History

/-!
# Rebuilding the history of a resumed thread

A rollout is the recorded log of a thread.  To resume the thread, the log is
scanned from the newest item to the oldest: items gather in the segment of a
turn until the turn's start is found; a rollback makes the scan skip as many
segments of user turns as it rolled back; the newest segment that is not skipped
and holds a compaction with a replacement history gives the base.  Then the items
after the narrowed start of the log are replayed forward from that base.
-/

namespace Codewith.Session

open Lib

/-! ## The log -/

structure CompactedItem where
  message : Text
  replacementHistory : Option (List ResponseItem)
deriving DecidableEq, Repr

inductive EventMsg
  | threadRolledBack (numTurns : Nat)
  | turnComplete (turnId : Text)
  | turnAborted (turnId : Option Text)
  | userMessage (message : Text)
  | turnStarted (turnId : Text)
  | other
deriving DecidableEq, Repr

inductive RolloutItem
  | sessionMeta
  | responseItem (item : ResponseItem)
  | compacted (item : CompactedItem)
  | turnContext (item : TurnContextItem)
  | eventMsg (msg : EventMsg)
deriving DecidableEq, Repr

structure PreviousTurnSettings where
  model : Text
  modelProviderId : Option Text
  realtimeActive : Option Bool
deriving DecidableEq, Repr

structure RolloutReconstruction where
  history : List ResponseItem
  previousTurnSettings : Option PreviousTurnSettings
  referenceContextItem : Option TurnContextItem
deriving DecidableEq, Repr

/-! ## The reverse scan -/

inductive TurnReferenceContextItem
  | neverSet
  | cleared
  | latest (item : TurnContextItem)
deriving DecidableEq, Repr

structure ActiveReplaySegment where
  turnId : Option Text := none
  countsAsUserTurn : Bool := false
  previousTurnSettings : Option PreviousTurnSettings := none
  referenceContextItem : TurnReferenceContextItem := .neverSet
  baseReplacementHistory : Option (List ResponseItem) := none
deriving DecidableEq, Repr

structure ReverseScan where
  baseReplacementHistory : Option (List ResponseItem)
  previousTurnSettings : Option PreviousTurnSettings
  referenceContextItem : TurnReferenceContextItem
  pendingRollbackTurns : Nat
  rolloutSuffix : List RolloutItem
  activeSegment : Option ActiveReplaySegment
deriving DecidableEq, Repr

def turnIdsAreCompatible (activeTurnId itemTurnId : Option Text) : Bool :=
  activeTurnId.all fun turnId => itemTurnId.all fun itemTurnId => itemTurnId = turnId

def usizeMax : Nat := 2 ^ 64 - 1

def usizeSaturatingAdd (a b : Nat) : Nat := min (a + b) usizeMax

def finalizeActiveSegment (segment : ActiveReplaySegment) (s : ReverseScan) : ReverseScan :=
  if 0 < s.pendingRollbackTurns then
    if segment.countsAsUserTurn then
      { s with pendingRollbackTurns := s.pendingRollbackTurns - 1 }
    else s
  else
    { s with
      baseReplacementHistory := s.baseReplacementHistory.or segment.baseReplacementHistory
      previousTurnSettings :=
        if s.previousTurnSettings = none ∧ segment.countsAsUserTurn then
          segment.previousTurnSettings
        else s.previousTurnSettings
      referenceContextItem :=
        if s.referenceContextItem = .neverSet ∧
            (segment.countsAsUserTurn ∨ segment.referenceContextItem = .cleared) then
          segment.referenceContextItem
        else s.referenceContextItem }

section

variable (rules : HistoryRules)

namespace ActiveReplaySegment

def noteCompacted (segment : ActiveReplaySegment) (compacted : CompactedItem) :
    ActiveReplaySegment :=
  { segment with
    referenceContextItem :=
      if segment.referenceContextItem = .neverSet then .cleared
      else segment.referenceContextItem
    baseReplacementHistory := segment.baseReplacementHistory.or compacted.replacementHistory }

def noteTurnContext (segment : ActiveReplaySegment) (ctx : TurnContextItem) :
    ActiveReplaySegment :=
  let segment := { segment with turnId := segment.turnId.or ctx.turnId }
  if turnIdsAreCompatible segment.turnId ctx.turnId then
    { segment with
      previousTurnSettings := some ⟨ctx.model, ctx.modelProviderId, ctx.realtimeActive⟩
      referenceContextItem :=
        if segment.referenceContextItem = .neverSet then .latest ctx
        else segment.referenceContextItem }
  else segment

end ActiveReplaySegment

/-- What an item that neither rolls back nor starts a turn does to the segment it
falls into.  Most items open a segment when there is none. -/
def noteItem (active : Option ActiveReplaySegment) : RolloutItem → Option ActiveReplaySegment
  | .compacted compacted => some ((active.getD {}).noteCompacted compacted)
  | .eventMsg (.turnComplete turnId) =>
      let segment := active.getD {}
      some { segment with turnId := segment.turnId.or (some turnId) }
  | .eventMsg (.turnAborted turnId) =>
      match active with
      | some segment => some { segment with turnId := segment.turnId.or turnId }
      | none => turnId.map fun turnId => { turnId := some turnId }
  | .eventMsg (.userMessage _) => some { active.getD {} with countsAsUserTurn := true }
  | .turnContext ctx => some ((active.getD {}).noteTurnContext ctx)
  | .responseItem item =>
      let segment := active.getD {}
      some { segment with
        countsAsUserTurn := segment.countsAsUserTurn || isUserTurnBoundary rules item }
  | _ => active

/-- A turn's start closes the segment if it belongs to it. -/
def closedBy (active : Option ActiveReplaySegment) (turnId : Text) : Option ActiveReplaySegment :=
  active.filter fun segment => turnIdsAreCompatible segment.turnId (some turnId)

/-- One round of the scan.  `newer` are the items after this one. -/
def scanItem (s : ReverseScan) (item : RolloutItem) (newer : List RolloutItem) : ReverseScan :=
  match item with
  | .eventMsg (.threadRolledBack numTurns) =>
      { s with pendingRollbackTurns := usizeSaturatingAdd s.pendingRollbackTurns numTurns }
  | .eventMsg (.turnStarted turnId) =>
      match closedBy s.activeSegment turnId with
      | some segment => finalizeActiveSegment segment { s with activeSegment := none }
      | none => s
  | .compacted compacted =>
      { s with
        activeSegment := noteItem rules s.activeSegment (.compacted compacted)
        rolloutSuffix :=
          if (s.activeSegment.bind (·.baseReplacementHistory)) = none ∧
              compacted.replacementHistory.isSome then newer
          else s.rolloutSuffix }
  | item => { s with activeSegment := noteItem rules s.activeSegment item }

/-- The base and the settings to resume with are known. -/
def ReverseScan.isComplete (s : ReverseScan) : Bool :=
  s.baseReplacementHistory.isSome && s.previousTurnSettings.isSome &&
    s.referenceContextItem ≠ .neverSet

/-- The scan over the items newest first. -/
def scanReverse : List RolloutItem → List RolloutItem → ReverseScan → ReverseScan
  | [], _, s => s
  | item :: older, newer, s =>
      let s := scanItem rules s item newer
      if s.isComplete then s else scanReverse older (item :: newer) s

def finishScan (s : ReverseScan) : ReverseScan :=
  match s.activeSegment with
  | some segment => finalizeActiveSegment segment { s with activeSegment := none }
  | none => s

/-! ## The forward replay -/

def replayItem (m : ContextManager) : RolloutItem → ContextManager
  | .responseItem item => m.recordItems rules [item]
  | .compacted compacted =>
      match compacted.replacementHistory with
      | some replacementHistory => m.replaceRecordedItems rules replacementHistory
      | none =>
          let userMessages := collectUserMessages rules m.items
          m.replace (buildCompactedHistory rules [] userMessages compacted.message)
  | .eventMsg (.threadRolledBack numTurns) => m.dropLastNUserTurns rules numTurns
  | _ => m

def replayItems (m : ContextManager) (items : List RolloutItem) : ContextManager :=
  items.foldl (replayItem rules) m

def isLegacyCompaction : RolloutItem → Bool
  | .compacted compacted => compacted.replacementHistory.isNone
  | _ => false

def scanRollout (rolloutItems : List RolloutItem) : ReverseScan :=
  finishScan (scanReverse rules rolloutItems.reverse []
    ⟨none, none, .neverSet, 0, rolloutItems, none⟩)

def reconstructHistoryFromRollout (rolloutItems : List RolloutItem) : RolloutReconstruction :=
  let scan := scanRollout rules rolloutItems
  let base := match scan.baseReplacementHistory with
    | some baseReplacementHistory =>
        ContextManager.new.replaceRecordedItems rules baseReplacementHistory
    | none => .new
  let history := replayItems rules base scan.rolloutSuffix
  let referenceContextItem := match scan.referenceContextItem with
    | .latest item => some item
    | _ => none
  { history := history.items
    previousTurnSettings := scan.previousTurnSettings
    referenceContextItem :=
      if scan.rolloutSuffix.any isLegacyCompaction then none else referenceContextItem }

/-- The history of a log that is replayed from its first item. -/
def plainReplay (rolloutItems : List RolloutItem) : List ResponseItem :=
  (replayItems rules .new rolloutItems).items

end

end Codewith.Session
