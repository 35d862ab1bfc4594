import Codewith.Session.Reconstruction

/-!
# A resumed history against a plain replay

The scan narrows the log to the items after a compaction as soon as it meets one,
before it knows whether the compaction's segment is rolled back.  If the segment
is skipped and no older segment has a replacement history, the scan ends with the
narrowed log and no base, and the replay starts from nothing instead of from the
compaction.  `checkpointRolledBack` says this of the turns of the log.

`turns` reads a log, newest item first, as the rollbacks and the segments that
the scan meets.  `Phase` says what the scan has found at some point, and which
turns still to come would make it end without a base.
-/

namespace Codewith.Session

open Lib

variable (rules : HistoryRules)

/-! ## The turns of a log -/

inductive TurnEvent
  | rollback (numTurns : Nat)
  | segment (segment : ActiveReplaySegment)
deriving DecidableEq, Repr

def TurnEvent.holdsCheckpoint : TurnEvent → Bool
  | .rollback _ => false
  | .segment turn => turn.baseReplacementHistory.isSome

/-- The rollbacks and segments of a log, newest first. -/
def turns : List RolloutItem → Option ActiveReplaySegment → List TurnEvent
  | [], active => active.toList.map .segment
  | .eventMsg (.threadRolledBack numTurns) :: older, active =>
      .rollback numTurns :: turns older active
  | .eventMsg (.turnStarted turnId) :: older, active =>
      match closedBy active turnId with
      | some segment => .segment segment :: turns older none
      | none => turns older active
  | item :: older, active => turns older (noteItem rules active item)

/-- A segment of a user turn uses up one turn of the rollbacks after it. -/
def pendingAfter (pending : Nat) (segment : ActiveReplaySegment) : Nat :=
  if 0 < pending ∧ segment.countsAsUserTurn then pending - 1 else pending

/-- The newest segment with a replacement history is rolled back, and no older
segment has one. -/
def checkpointRolledBack : Nat → List TurnEvent → Bool
  | _, [] => false
  | pending, .rollback numTurns :: older =>
      checkpointRolledBack (usizeSaturatingAdd pending numTurns) older
  | pending, .segment segment :: older =>
      if segment.baseReplacementHistory.isSome then
        0 < pending && older.all fun event => !event.holdsCheckpoint
      else checkpointRolledBack (pendingAfter pending segment) older

def newestCheckpointRolledBack (rolloutItems : List RolloutItem) : Bool :=
  checkpointRolledBack 0 (turns rules rolloutItems.reverse none)

/-! ## Replaying from different bases -/

def RolloutItem.checkpoint : RolloutItem → Option (List ResponseItem)
  | .compacted item => item.replacementHistory
  | _ => none

def HoldsCheckpoint (items : List RolloutItem) : Prop := ∃ item ∈ items, item.checkpoint.isSome

theorem replayItems_append (m : ContextManager) (older newer : List RolloutItem) :
    replayItems rules m (older ++ newer) = replayItems rules (replayItems rules m older) newer := by
  simp [replayItems, List.foldl_append]

theorem items_replayItem_congr {m m' : ContextManager} (h : m.items = m'.items)
    (item : RolloutItem) :
    (replayItem rules m item).items = (replayItem rules m' item).items := by
  unfold replayItem
  split
  · simp only [ContextManager.recordItems, List.foldl_cons, List.foldl_nil, items_recordItem, h]
  · split
    · rfl
    · simp only [items_replace, h]
  · exact items_dropLastNUserTurns_congr rules h _
  · exact h

/-- The items of a replay depend only on the items it starts from. -/
theorem items_replayItems_congr {m m' : ContextManager} (h : m.items = m'.items)
    (items : List RolloutItem) :
    (replayItems rules m items).items = (replayItems rules m' items).items := by
  induction items generalizing m m' with
  | nil => exact h
  | cons item items ih => exact ih (items_replayItem_congr rules h item)

theorem items_replayItem_checkpoint {item : RolloutItem} {replacement : List ResponseItem}
    (h : item.checkpoint = some replacement) (m : ContextManager) :
    (replayItem rules m item).items =
      (ContextManager.recordItems rules .new replacement).items := by
  cases item with
  | compacted compacted =>
      have hreplacement : compacted.replacementHistory = some replacement := h
      simp only [replayItem, hreplacement]
      rfl
  | _ => cases h

/-- A replay that passes a checkpoint does not depend on where it starts. -/
theorem items_replayItems_of_holdsCheckpoint {items : List RolloutItem} (h : HoldsCheckpoint items)
    (m m' : ContextManager) :
    (replayItems rules m items).items = (replayItems rules m' items).items := by
  obtain ⟨item, hmem, hsome⟩ := h
  obtain ⟨replacement, hreplacement⟩ := Option.isSome_iff_exists.1 hsome
  obtain ⟨older, newer, rfl⟩ := List.append_of_mem hmem
  have hstep := items_replayItem_checkpoint rules hreplacement
  rw [replayItems_append, replayItems_append]
  exact items_replayItems_congr rules
    ((hstep (replayItems rules m older)).trans (hstep (replayItems rules m' older)).symm) newer

/-! ## What a round of the scan does -/

def openBase (active : Option ActiveReplaySegment) : Option (List ResponseItem) :=
  active.bind (·.baseReplacementHistory)

/-- Items other than rollbacks and starts only go into the open segment. -/
def RolloutItem.isNoted : RolloutItem → Bool
  | .eventMsg (.threadRolledBack _) => false
  | .eventMsg (.turnStarted _) => false
  | _ => true

theorem openBase_noteItem (active : Option ActiveReplaySegment) (item : RolloutItem) :
    openBase (noteItem rules active item) = (openBase active).or item.checkpoint := by
  cases active with
  | none =>
      cases item with
      | eventMsg msg =>
          cases msg with
          | turnAborted turnId => cases turnId <;> rfl
          | _ => rfl
      | turnContext ctx =>
          simp only [noteItem, ActiveReplaySegment.noteTurnContext]
          split <;> rfl
      | compacted compacted =>
          simp [noteItem, ActiveReplaySegment.noteCompacted, openBase, RolloutItem.checkpoint]
      | _ => rfl
  | some segment =>
      have hkeep : (openBase (some segment)).or none = openBase (some segment) := Option.or_none
      cases item with
      | eventMsg msg => cases msg <;> simp [noteItem, openBase, RolloutItem.checkpoint]
      | turnContext ctx =>
          simp only [noteItem, ActiveReplaySegment.noteTurnContext, Option.getD_some]
          split <;> simp [openBase, RolloutItem.checkpoint]
      | compacted compacted =>
          simp [noteItem, ActiveReplaySegment.noteCompacted, openBase, RolloutItem.checkpoint]
      | _ => simp [noteItem, openBase, RolloutItem.checkpoint]

theorem scanItem_noted {item : RolloutItem} (h : item.isNoted = true) (s : ReverseScan)
    (newer : List RolloutItem) :
    scanItem rules s item newer = { s with
      activeSegment := noteItem rules s.activeSegment item
      rolloutSuffix :=
        if openBase s.activeSegment = none ∧ item.checkpoint.isSome then newer
        else s.rolloutSuffix } := by
  cases item with
  | eventMsg msg =>
      cases msg with
      | threadRolledBack numTurns => cases h
      | turnStarted turnId => cases h
      | _ => simp [scanItem, RolloutItem.checkpoint]
  | compacted compacted => rfl
  | _ => simp [scanItem, RolloutItem.checkpoint]

theorem turns_noted {item : RolloutItem} (h : item.isNoted = true) (older : List RolloutItem)
    (active : Option ActiveReplaySegment) :
    turns rules (item :: older) active = turns rules older (noteItem rules active item) := by
  cases item with
  | eventMsg msg =>
      cases msg with
      | threadRolledBack numTurns => cases h
      | turnStarted turnId => cases h
      | _ => rfl
  | _ => rfl

theorem finalizeActiveSegment_pending (segment : ActiveReplaySegment) (s : ReverseScan) :
    (finalizeActiveSegment segment s).pendingRollbackTurns =
      pendingAfter s.pendingRollbackTurns segment := by
  unfold finalizeActiveSegment pendingAfter
  split
  · rename_i h
    split <;> simp_all
  · rename_i h
    simp [h]

theorem finalizeActiveSegment_suffix (segment : ActiveReplaySegment) (s : ReverseScan) :
    (finalizeActiveSegment segment s).rolloutSuffix = s.rolloutSuffix := by
  unfold finalizeActiveSegment
  split
  · split <;> rfl
  · rfl

theorem finalizeActiveSegment_active (segment : ActiveReplaySegment) (s : ReverseScan) :
    (finalizeActiveSegment segment s).activeSegment = s.activeSegment := by
  unfold finalizeActiveSegment
  split
  · split <;> rfl
  · rfl

/-- A segment gives the base only if it is not rolled back. -/
theorem finalizeActiveSegment_base (segment : ActiveReplaySegment) (s : ReverseScan) :
    (finalizeActiveSegment segment s).baseReplacementHistory =
      if 0 < s.pendingRollbackTurns then s.baseReplacementHistory
      else s.baseReplacementHistory.or segment.baseReplacementHistory := by
  unfold finalizeActiveSegment
  split
  · split <;> rfl
  · rfl

/-! ## What the scan has found -/

/-- The newest checkpoint among the items, and the items after it. -/
structure Newest (items : List RolloutItem) (replacement : List ResponseItem)
    (after : List RolloutItem) : Prop where
  split : ∃ older item, items = older ++ item :: after ∧ item.checkpoint = some replacement
  newest : ¬ HoldsCheckpoint after

theorem Newest.holdsCheckpoint {items after : List RolloutItem} {replacement : List ResponseItem}
    (h : Newest items replacement after) : HoldsCheckpoint items := by
  obtain ⟨older, item, rfl, hitem⟩ := h.split
  exact ⟨item, by simp, by simp [hitem]⟩

theorem Newest.cons {items after : List RolloutItem} {replacement : List ResponseItem}
    (h : Newest items replacement after) (item : RolloutItem) :
    Newest (item :: items) replacement after := by
  obtain ⟨older, found, rfl, hfound⟩ := h.split
  exact ⟨⟨item :: older, found, rfl, hfound⟩, h.newest⟩

/-- What the scan has found among the `newer` items of the log `all`, with the
turns still to come that make it end without a base. -/
inductive Phase (all newer : List RolloutItem) (s : ReverseScan) :
    (List TurnEvent → Bool) → Prop
  | searching (hsuffix : s.rolloutSuffix = all) (hnone : ¬ HoldsCheckpoint newer)
      (hopen : openBase s.activeSegment = none) (hbase : s.baseReplacementHistory = none) :
      Phase all newer s (checkpointRolledBack s.pendingRollbackTurns)
  | found (replacement : List ResponseItem) (hnewest : Newest newer replacement s.rolloutSuffix)
      (hopen : openBase s.activeSegment = some replacement)
      (hbase : s.baseReplacementHistory = none) :
      Phase all newer s (checkpointRolledBack s.pendingRollbackTurns)
  | skipped (replacement : List ResponseItem) (hnewest : Newest newer replacement s.rolloutSuffix)
      (hopen : openBase s.activeSegment = none) (hbase : s.baseReplacementHistory = none) :
      Phase all newer s (fun events => events.all fun event => !event.holdsCheckpoint)
  | based (replacement : List ResponseItem) (hnewest : Newest newer replacement s.rolloutSuffix)
      (hbase : s.baseReplacementHistory = some replacement) : Phase all newer s (fun _ => false)
  | covered (hsuffix : s.rolloutSuffix <:+ newer) (hholds : HoldsCheckpoint s.rolloutSuffix) :
      Phase all newer s (fun _ => false)

section

variable {all newer : List RolloutItem} {s : ReverseScan} {f : List TurnEvent → Bool}

theorem not_holdsCheckpoint_cons {item : RolloutItem} (hitem : item.checkpoint = none)
    (h : ¬ HoldsCheckpoint newer) : ¬ HoldsCheckpoint (item :: newer) := by
  rintro ⟨found, hmem, hsome⟩
  rcases List.mem_cons.1 hmem with rfl | hmem
  · rw [hitem] at hsome
    cases hsome
  · exact h ⟨found, hmem, hsome⟩

/-- The segment that a turn's start closes is the open one. -/
theorem openBase_closedBy {active : Option ActiveReplaySegment} {turnId : Text}
    {segment : ActiveReplaySegment} (h : closedBy active turnId = some segment) :
    openBase active = segment.baseReplacementHistory := by
  unfold closedBy at h
  rw [Option.filter_eq_some_iff] at h
  rw [h.1]
  rfl

/-- An item without a checkpoint that leaves the scan where it was. -/
theorem Phase.pass (h : Phase all newer s f) {s' : ReverseScan} {item : RolloutItem}
    (hitem : item.checkpoint = none) (hsuffix : s'.rolloutSuffix = s.rolloutSuffix)
    (hbase : s'.baseReplacementHistory = s.baseReplacementHistory)
    (hopen : openBase s'.activeSegment = openBase s.activeSegment)
    (hpending : s'.pendingRollbackTurns = s.pendingRollbackTurns) :
    Phase all (item :: newer) s' f := by
  cases h with
  | searching hall hnone hopened hnobase =>
      rw [← hpending]
      exact .searching (hsuffix.trans hall) (not_holdsCheckpoint_cons hitem hnone)
        (hopen.trans hopened) (hbase.trans hnobase)
  | found replacement hnewest hopened hnobase =>
      rw [← hsuffix] at hnewest
      rw [← hpending]
      exact .found replacement (hnewest.cons item) (hopen.trans hopened) (hbase.trans hnobase)
  | skipped replacement hnewest hopened hnobase =>
      rw [← hsuffix] at hnewest
      exact .skipped replacement (hnewest.cons item) (hopen.trans hopened) (hbase.trans hnobase)
  | based replacement hnewest hsome =>
      rw [← hsuffix] at hnewest
      exact .based replacement (hnewest.cons item) (hbase.trans hsome)
  | covered hsub hholds =>
      rw [← hsuffix] at hsub hholds
      exact .covered (hsub.trans (List.suffix_cons item newer)) hholds

theorem Phase.rollback (h : Phase all newer s f) (numTurns : Nat) (item : RolloutItem)
    (hitem : item.checkpoint = none) (events : List TurnEvent) :
    ∃ f', Phase all (item :: newer)
        { s with
          pendingRollbackTurns := usizeSaturatingAdd s.pendingRollbackTurns numTurns } f' ∧
      f (.rollback numTurns :: events) = f' events := by
  cases h with
  | searching hsuffix hnone hopen hbase =>
      exact ⟨_, .searching hsuffix (not_holdsCheckpoint_cons hitem hnone) hopen hbase, rfl⟩
  | found replacement hnewest hopen hbase =>
      exact ⟨_, .found replacement (hnewest.cons item) hopen hbase, rfl⟩
  | skipped replacement hnewest hopen hbase =>
      refine ⟨_, .skipped replacement (hnewest.cons item) hopen hbase, ?_⟩
      simp [TurnEvent.holdsCheckpoint]
  | based replacement hnewest hbase => exact ⟨_, .based replacement (hnewest.cons item) hbase, rfl⟩
  | covered hsuffix hholds =>
      exact ⟨_, .covered (hsuffix.trans (List.suffix_cons item newer)) hholds, rfl⟩

/-- Closing a segment decides whether its checkpoint is the base. -/
theorem Phase.close (h : Phase all newer s f) {segment : ActiveReplaySegment}
    (hsegment : openBase s.activeSegment = segment.baseReplacementHistory)
    (events : List TurnEvent) :
    ∃ f', Phase all newer (finalizeActiveSegment segment { s with activeSegment := none }) f' ∧
      f (.segment segment :: events) = f' events := by
  have hsuffix := finalizeActiveSegment_suffix segment { s with activeSegment := none }
  have hactive := finalizeActiveSegment_active segment { s with activeSegment := none }
  have hpending := finalizeActiveSegment_pending segment { s with activeSegment := none }
  have hbase := finalizeActiveSegment_base segment { s with activeSegment := none }
  generalize finalizeActiveSegment segment { s with activeSegment := none } = s' at *
  simp only at hsuffix hactive hpending hbase
  have hclosed : openBase s'.activeSegment = none := by
    rw [hactive]
    rfl
  cases h with
  | searching hall hnone hopen hnobase =>
      rw [hopen] at hsegment
      refine ⟨_, .searching (hsuffix.trans hall) hnone hclosed ?_, ?_⟩
      · rw [hbase, hnobase, ← hsegment]
        simp
      · rw [hpending, checkpointRolledBack, ← hsegment]
        rfl
  | found replacement hnewest hopen hnobase =>
      rw [hopen] at hsegment
      rw [← hsuffix] at hnewest
      by_cases hskip : 0 < s.pendingRollbackTurns
      · refine ⟨_, .skipped replacement hnewest hclosed ?_, ?_⟩
        · rw [hbase, if_pos hskip, hnobase]
        · rw [checkpointRolledBack, ← hsegment]
          simp [hskip]
      · refine ⟨_, .based replacement hnewest ?_, ?_⟩
        · rw [hbase, if_neg hskip, hnobase, ← hsegment]
          rfl
        · rw [checkpointRolledBack, ← hsegment]
          simp [hskip]
  | skipped replacement hnewest hopen hnobase =>
      rw [hopen] at hsegment
      rw [← hsuffix] at hnewest
      refine ⟨_, .skipped replacement hnewest hclosed ?_, ?_⟩
      · rw [hbase, hnobase, ← hsegment]
        simp
      · simp [TurnEvent.holdsCheckpoint, ← hsegment]
  | based replacement hnewest hsome =>
      rw [← hsuffix] at hnewest
      refine ⟨_, .based replacement hnewest ?_, rfl⟩
      rw [hbase, hsome]
      simp
  | covered hsub hholds =>
      rw [← hsuffix] at hsub hholds
      exact ⟨_, .covered hsub hholds, rfl⟩

/-- An open segment with a checkpoint is one of the turns to come. -/
theorem turns_hold_openBase {active : Option ActiveReplaySegment} (h : (openBase active).isSome)
    (older : List RolloutItem) :
    ((turns rules older active).all fun event => !event.holdsCheckpoint) = false := by
  induction older generalizing active with
  | nil =>
      cases active with
      | none => cases h
      | some segment =>
          have hsome : segment.baseReplacementHistory.isSome = true := h
          simp [turns, TurnEvent.holdsCheckpoint, hsome]
  | cons item older ih =>
      cases hnoted : item.isNoted with
      | true =>
          rw [turns_noted rules hnoted]
          apply ih
          rw [openBase_noteItem, Option.isSome_or, h, Bool.true_or]
      | false =>
          cases item with
          | eventMsg msg =>
              cases msg with
              | threadRolledBack numTurns => simpa [turns, TurnEvent.holdsCheckpoint] using ih h
              | turnStarted turnId =>
                  rw [turns]
                  split
                  · rename_i segment hclosed
                    have hsome : segment.baseReplacementHistory.isSome = true := by
                      rw [← openBase_closedBy hclosed]
                      exact h
                    simp [TurnEvent.holdsCheckpoint, hsome]
                  · exact ih h
              | _ => cases hnoted
          | _ => cases hnoted

theorem HoldsCheckpoint.mono {items more : List RolloutItem} (h : HoldsCheckpoint items)
    (hsub : items <:+ more) : HoldsCheckpoint more := by
  obtain ⟨item, hmem, hsome⟩ := h
  exact ⟨item, hsub.subset hmem, hsome⟩

/-- A checkpoint narrows the log if it is the first of its segment. -/
theorem Phase.note (h : Phase all newer s f) {item : RolloutItem} (hnoted : item.isNoted = true)
    (older : List RolloutItem) :
    ∃ f', Phase all (item :: newer) (scanItem rules s item newer) f' ∧
      f (turns rules (item :: older) s.activeSegment) =
        f' (turns rules older (scanItem rules s item newer).activeSegment) := by
  have hopen' := openBase_noteItem rules s.activeSegment item
  rw [turns_noted rules hnoted, scanItem_noted rules hnoted]
  cases hitem : item.checkpoint with
  | none =>
      rw [hitem, Option.or_none] at hopen'
      simp only [Option.isSome_none, Bool.false_eq_true, and_false, if_false]
      exact ⟨f, h.pass hitem rfl rfl hopen' rfl, rfl⟩
  | some replacement =>
      rw [hitem] at hopen'
      simp only [Option.isSome_some, and_true]
      cases h with
      | searching hsuffix hnone hopen hbase =>
          rw [if_pos hopen]
          rw [hopen, Option.none_or] at hopen'
          exact ⟨_, .found replacement ⟨⟨[], item, rfl, hitem⟩, hnone⟩ hopen' hbase, rfl⟩
      | found first hnewest hopen hbase =>
          rw [hopen] at hopen' ⊢
          exact ⟨_, .found first (hnewest.cons item) hopen' hbase, rfl⟩
      | skipped first hnewest hopen hbase =>
          rw [if_pos hopen]
          refine ⟨_, .covered (List.suffix_cons item newer) hnewest.holdsCheckpoint, ?_⟩
          apply turns_hold_openBase
          rw [hopen', hopen]
          rfl
      | based first hnewest hbase =>
          split
          · exact ⟨_, .covered (List.suffix_cons item newer) hnewest.holdsCheckpoint, rfl⟩
          · exact ⟨_, .based first (hnewest.cons item) hbase, rfl⟩
      | covered hsuffix hholds =>
          split
          · exact ⟨_, .covered (List.suffix_cons item newer) (hholds.mono hsuffix), rfl⟩
          · exact ⟨_, .covered (hsuffix.trans (List.suffix_cons item newer)) hholds, rfl⟩

theorem Phase.step (h : Phase all newer s f) (item : RolloutItem) (older : List RolloutItem) :
    ∃ f', Phase all (item :: newer) (scanItem rules s item newer) f' ∧
      f (turns rules (item :: older) s.activeSegment) =
        f' (turns rules older (scanItem rules s item newer).activeSegment) := by
  cases hnoted : item.isNoted with
  | true => exact h.note rules hnoted older
  | false =>
      cases item with
      | eventMsg msg =>
          cases msg with
          | threadRolledBack numTurns => exact h.rollback numTurns _ rfl _
          | turnStarted turnId =>
              have hcons : Phase all (.eventMsg (.turnStarted turnId) :: newer) s f :=
                h.pass rfl rfl rfl rfl rfl
              cases hclosed : closedBy s.activeSegment turnId with
              | none =>
                  refine ⟨f, ?_, ?_⟩
                  · simpa only [scanItem, hclosed] using hcons
                  · simp only [turns, scanItem, hclosed]
              | some segment =>
                  obtain ⟨f', hphase, hevents⟩ :=
                    hcons.close (openBase_closedBy hclosed) (turns rules older none)
                  refine ⟨f', ?_, ?_⟩
                  · simpa only [scanItem, hclosed] using hphase
                  · simp only [turns, scanItem, hclosed, finalizeActiveSegment_active]
                    exact hevents
          | _ => cases hnoted
      | _ => cases hnoted

theorem Phase.finish (h : Phase all newer s f) :
    ∃ f', Phase all newer (finishScan s) f' ∧ (finishScan s).activeSegment = none ∧
      f (s.activeSegment.toList.map .segment) = f' [] := by
  unfold finishScan
  cases hactive : s.activeSegment with
  | none => exact ⟨f, h, hactive, rfl⟩
  | some segment =>
      have hsegment : openBase s.activeSegment = segment.baseReplacementHistory := by
        rw [hactive]
        rfl
      obtain ⟨f', hphase, hevents⟩ := h.close hsegment []
      exact ⟨f', hphase, finalizeActiveSegment_active segment _, hevents⟩

/-- Once the base is known, the turns to come do not matter. -/
theorem Phase.of_isComplete (h : Phase all newer s f) (hcomplete : s.isComplete = true)
    (events events' : List TurnEvent) : f events = f events' := by
  have hbase : s.baseReplacementHistory ≠ none := by
    intro hnone
    rw [ReverseScan.isComplete, hnone] at hcomplete
    cases hcomplete
  cases h with
  | searching _ _ _ hnone => exact absurd hnone hbase
  | found _ _ _ hnone => exact absurd hnone hbase
  | skipped _ _ _ hnone => exact absurd hnone hbase
  | based => rfl
  | covered => rfl

theorem Phase.run (h : Phase all newer s f) {older : List RolloutItem}
    (hall : all = older.reverse ++ newer) :
    ∃ f' seen, seen <:+ all ∧ Phase all seen (finishScan (scanReverse rules older newer s)) f' ∧
      (finishScan (scanReverse rules older newer s)).activeSegment = none ∧
      f (turns rules older s.activeSegment) = f' [] := by
  induction older generalizing newer s f with
  | nil =>
      obtain ⟨f', hphase, hactive, hevents⟩ := h.finish
      exact ⟨f', newer, by rw [hall]; exact List.suffix_append _ _, hphase, hactive, hevents⟩
  | cons item older ih =>
      have hall' : all = older.reverse ++ item :: newer := by
        rw [hall]
        simp
      obtain ⟨f', hphase, hevents⟩ := h.step rules item older
      rw [scanReverse]
      by_cases hcomplete : (scanItem rules s item newer).isComplete = true
      · simp only [hcomplete, if_true]
        obtain ⟨f'', hfinished, hactive, hend⟩ := hphase.finish
        refine ⟨f'', item :: newer, by rw [hall']; exact List.suffix_append _ _, hfinished,
          hactive, ?_⟩
        rw [hevents, ← hend]
        exact hphase.of_isComplete hcomplete _ _
      · simp only [hcomplete, Bool.false_eq_true, if_false]
        obtain ⟨f'', seen, hseen, hfinished, hactive, hend⟩ := ih hphase hall'
        exact ⟨f'', seen, hseen, hfinished, hactive, hevents.trans hend⟩

end

/-! ## The resumed history -/

/-- The newest checkpoint of a log, with the items after it. -/
def newestCheckpoint : List RolloutItem → Option (List ResponseItem × List RolloutItem)
  | [] => none
  | item :: items => (newestCheckpoint items).or (item.checkpoint.map (·, items))

theorem newestCheckpoint_eq_none {items : List RolloutItem} (h : ¬ HoldsCheckpoint items) :
    newestCheckpoint items = none := by
  induction items with
  | nil => rfl
  | cons item items ih =>
      have hitem : item.checkpoint = none := by
        by_contra hsome
        exact h ⟨item, List.mem_cons_self, Option.isSome_iff_ne_none.2 hsome⟩
      have hrest : ¬ HoldsCheckpoint items := fun hholds =>
        h (hholds.mono (List.suffix_cons item items))
      rw [newestCheckpoint, ih hrest, hitem]
      rfl

theorem Newest.newestCheckpoint_eq {items after : List RolloutItem}
    {replacement : List ResponseItem} (h : Newest items replacement after) :
    newestCheckpoint items = some (replacement, after) := by
  obtain ⟨older, item, rfl, hitem⟩ := h.split
  induction older with
  | nil =>
      rw [List.nil_append, newestCheckpoint, newestCheckpoint_eq_none h.newest, hitem]
      rfl
  | cons first older ih =>
      rw [List.cons_append, newestCheckpoint, ih ⟨⟨older, item, rfl, hitem⟩, h.newest⟩]
      rfl

/-- The items after the newest checkpoint leave the same history whether they are
replayed from the checkpoint or from nothing. -/
def CheckpointLeavesNoTrace (rolloutItems : List RolloutItem) : Prop :=
  ∀ replacement after, newestCheckpoint rolloutItems = some (replacement, after) →
    (replayItems rules .new after).items =
      (replayItems rules (ContextManager.new.replaceRecordedItems rules replacement) after).items

/-- Past its newest checkpoint, a plain replay starts from that checkpoint. -/
theorem plainReplay_of_newest {items after : List RolloutItem} {replacement : List ResponseItem}
    (h : Newest items replacement after) :
    plainReplay rules items =
      (replayItems rules
        (ContextManager.new.replaceRecordedItems rules replacement) after).items := by
  obtain ⟨older, item, rfl, hitem⟩ := h.split
  unfold plainReplay
  have hstep : (replayItem rules (replayItems rules .new older) item).items =
      (ContextManager.new.replaceRecordedItems rules replacement).items :=
    items_replayItem_checkpoint rules hitem _
  rw [replayItems_append]
  exact items_replayItems_congr rules hstep after

theorem Newest.of_suffix {items seen after : List RolloutItem} {replacement : List ResponseItem}
    (h : Newest seen replacement after) (hseen : seen <:+ items) :
    Newest items replacement after := by
  obtain ⟨front, rfl⟩ := hseen
  obtain ⟨older, item, rfl, hitem⟩ := h.split
  exact ⟨⟨front ++ older, item, by simp, hitem⟩, h.newest⟩

/-- The resumed history is the one of a plain replay, except if the newest
checkpoint is rolled back with no older one to fall back on and still shows in
the replayed history. -/
theorem reconstruct_history_eq_plainReplay_iff (rolloutItems : List RolloutItem) :
    (reconstructHistoryFromRollout rules rolloutItems).history = plainReplay rules rolloutItems ↔
      (newestCheckpointRolledBack rules rolloutItems = true →
        CheckpointLeavesNoTrace rules rolloutItems) := by
  have hstart : Phase rolloutItems [] ⟨none, none, .neverSet, 0, rolloutItems, none⟩
      (checkpointRolledBack 0) := .searching rfl (by simp [HoldsCheckpoint]) rfl rfl
  obtain ⟨f, seen, hseen, hphase, hactive, hevents⟩ :=
    hstart.run rules (by rw [List.reverse_reverse, List.append_nil])
  change Phase rolloutItems seen (scanRollout rules rolloutItems) f at hphase
  change (scanRollout rules rolloutItems).activeSegment = none at hactive
  have hlost : newestCheckpointRolledBack rules rolloutItems = f [] := hevents
  rw [hlost]
  unfold reconstructHistoryFromRollout
  simp only
  generalize scanRollout rules rolloutItems = scan at *
  cases hphase with
  | searching hsuffix hnone hopen hbase =>
      refine iff_of_true ?_ (fun hfalse => by cases hfalse)
      rw [hbase, hsuffix]
      rfl
  | found replacement hnewest hopen hbase =>
      rw [hactive] at hopen
      cases hopen
  | skipped replacement hnewest hopen hbase =>
      have hall := hnewest.of_suffix hseen
      rw [plainReplay_of_newest rules hall, hbase]
      constructor
      · intro heq _ replacement' after hafter
        rw [hall.newestCheckpoint_eq, Option.some.injEq, Prod.mk.injEq] at hafter
        rw [← hafter.1, ← hafter.2]
        exact heq
      · intro htrace
        exact htrace rfl replacement scan.rolloutSuffix hall.newestCheckpoint_eq
  | based replacement hnewest hbase =>
      refine iff_of_true ?_ (fun hfalse => by cases hfalse)
      rw [plainReplay_of_newest rules (hnewest.of_suffix hseen), hbase]
  | covered hsuffix hholds =>
      refine iff_of_true ?_ (fun hfalse => by cases hfalse)
      obtain ⟨front, hfront⟩ := hsuffix.trans hseen
      unfold plainReplay
      rw [← hfront, replayItems_append]
      exact items_replayItems_of_holdsCheckpoint rules hholds _ _

/-- Rules under which no text is special and nothing is shortened. -/
def plainRules : HistoryRules where
  isHookPrompt := fun _ => false
  isStandardContextualUserText := fun _ => false
  isInterAgentCommunication := fun _ => false
  truncateFunctionOutputPayload := id
  approxTokenCount := List.length
  truncateText := fun text tokens => text.take tokens
  summaryPrefix := "Summary".toList

/-- A turn that compacted the history and was rolled back afterwards. -/
def compactedThenRolledBack : List RolloutItem :=
  [.eventMsg (.turnStarted ['t']), .eventMsg (.userMessage ['u']),
    .responseItem (userMessage ['u']),
    .compacted ⟨['s'], some [userMessage ['u'], userMessage ['s']]⟩,
    .eventMsg (.turnComplete ['t']), .eventMsg (.threadRolledBack 1)]

/-- The rolled-back checkpoint is cut off together with everything before it. -/
theorem rolled_back_checkpoint_loses_history :
    plainReplay plainRules compactedThenRolledBack = [userMessage ['u']] ∧
      (reconstructHistoryFromRollout plainRules compactedThenRolledBack).history = [] := by
  decide +kernel

end Codewith.Session
