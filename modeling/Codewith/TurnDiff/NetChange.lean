import Codewith.TurnDiff.UnifiedDiff

/-!
# When the diff of a turn is empty

The diff is empty when every tracked path has its content of the start of the
turn again, up to files that only moved: a file that is the single one to come
from its origin, and still has the content of the origin, is shown nowhere.
-/

namespace Codewith.TurnDiff

open Lib ApplyPatch TurnDiffTracker

/-- The one file that came from the origin has the content the origin had. -/
structure PureRename (tracker : TurnDiffTracker) (origin dest : TrackedPath) : Prop where
  candidate : RenameCandidate tracker origin dest
  unique : ∀ other, RenameCandidate tracker origin other → other = dest
  content : tracker.baselineByPath.lookup origin = tracker.currentByPath.lookup dest

/-- The path is one end of a pure rename. -/
def PurelyRenamed (tracker : TurnDiffTracker) (path : TrackedPath) : Prop :=
  ∃ other, PureRename tracker path other ∨ PureRename tracker other path

section

variable {roots : DisplayRoots} {rendering : Rendering} {tracker : TurnDiffTracker}

theorem RenameCandidate.tracks {origin dest : TrackedPath}
    (h : RenameCandidate tracker origin dest) :
    tracker.tracks origin = true ∧ tracker.tracks dest = true := by
  obtain ⟨-, -, ⟨current, hcurrent⟩, ⟨baseline, hbaseline⟩, -⟩ := isRename_eq_true.1 h.2
  exact ⟨by simp [TurnDiffTracker.tracks, hbaseline], by simp [TurnDiffTracker.tracks, hcurrent]⟩

theorem shownDiff_of_lookup {pairs : RenamePairs} {origin dest : TrackedPath}
    (hpaired : ∀ other, pairs.lookup other ≠ some origin)
    (hlookup : pairs.lookup origin = some dest) :
    shownDiff roots rendering tracker pairs origin =
      tracker.renderRenameDiff roots rendering origin dest := by
  rw [shownDiff, if_neg fun h => ?_]
  · simp only [hlookup]
  · obtain ⟨other, hother⟩ := mem_pairedDestinations.1 h
    exact hpaired other hother

theorem shownDiff_of_unpaired {pairs : RenamePairs} {path : TrackedPath}
    (hpaired : ∀ other, pairs.lookup other ≠ some path) (hlookup : pairs.lookup path = none) :
    shownDiff roots rendering tracker pairs path =
      tracker.renderPathDiff roots rendering path := by
  rw [shownDiff, if_neg fun h => ?_]
  · simp only [hlookup]
  · obtain ⟨other, hother⟩ := mem_pairedDestinations.1 h
    exact hpaired other hother

/-- An origin is paired with no other origin. -/
theorem ne_lookup_of_candidate (order : IterationOrder tracker) {origin dest : TrackedPath}
    (h : RenameCandidate tracker origin dest) (other : TrackedPath) :
    (tracker.renamePairs order.origins).lookup other ≠ some origin :=
  fun hother => (lookup_renamePairs_candidate order hother).not_chained h

/-- A destination that is left without its origin is shown as a new file. -/
theorem shownDiff_unpaired_dest (order : IterationOrder tracker) {origin dest dest' : TrackedPath}
    (hlookup : (tracker.renamePairs order.origins).lookup origin = some dest)
    (h : RenameCandidate tracker origin dest') (hne : dest' ≠ dest) :
    shownDiff roots rendering tracker (tracker.renamePairs order.origins) dest' ≠ none := by
  have hpaired : ∀ other, (tracker.renamePairs order.origins).lookup other ≠ some dest' := by
    intro other hother
    have horigin := (lookup_renamePairs_candidate order hother).origin_unique h
    rw [horigin, hlookup, Option.some.injEq] at hother
    exact hne hother.symm
  have hnone : (tracker.renamePairs order.origins).lookup dest' = none := by
    refine Option.eq_none_iff_forall_ne_some.2 fun next hnext => ?_
    exact h.not_chained (lookup_renamePairs_candidate order hnext)
  obtain ⟨-, -, ⟨content, hcurrent⟩, -, hbaseline⟩ := isRename_eq_true.1 h.2
  rw [shownDiff_of_unpaired hpaired hnone, renderPathDiff, Ne, renderDiff_eq_none, hcurrent,
    hbaseline]
  exact fun heq => nomatch heq

/-- A pair without a diff, none of whose rivals has one, is a pure rename. -/
theorem pureRename_of_shownDiff (order : IterationOrder tracker) {origin dest : TrackedPath}
    (hlookup : (tracker.renamePairs order.origins).lookup origin = some dest)
    (h : ∀ path, tracker.tracks path = true →
      shownDiff roots rendering tracker (tracker.renamePairs order.origins) path = none) :
    PureRename tracker origin dest := by
  have hcandidate := lookup_renamePairs_candidate order hlookup
  refine ⟨hcandidate, fun other hother => ?_, ?_⟩
  · by_contra hne
    exact shownDiff_unpaired_dest order hlookup hother hne (h other hother.tracks.2)
  · have hshown := h origin hcandidate.tracks.1
    rw [shownDiff_of_lookup (ne_lookup_of_candidate order hcandidate) hlookup] at hshown
    exact renderDiff_eq_none.1 hshown

theorem lookup_of_pureRename (order : IterationOrder tracker) {origin dest : TrackedPath}
    (h : PureRename tracker origin dest) :
    (tracker.renamePairs order.origins).lookup origin = some dest := by
  obtain ⟨dest', hlookup⟩ := exists_lookup_renamePairs order h.candidate
  rw [hlookup, h.unique dest' (lookup_renamePairs_candidate order hlookup)]

/-- No path shows a diff exactly when every path is unchanged or purely renamed. -/
theorem shownDiff_eq_none_iff (order : IterationOrder tracker) :
    (∀ path, tracker.tracks path = true →
      shownDiff roots rendering tracker (tracker.renamePairs order.origins) path = none) ↔
    ∀ path, tracker.tracks path = true →
      tracker.baselineByPath.lookup path = tracker.currentByPath.lookup path ∨
        PurelyRenamed tracker path := by
  constructor
  · intro h path htracks
    by_cases hpaired : ∃ origin, (tracker.renamePairs order.origins).lookup origin = some path
    · obtain ⟨origin, hlookup⟩ := hpaired
      exact Or.inr ⟨origin, Or.inr (pureRename_of_shownDiff order hlookup h)⟩
    · cases hlookup : (tracker.renamePairs order.origins).lookup path with
      | some dest => exact Or.inr ⟨dest, Or.inl (pureRename_of_shownDiff order hlookup h)⟩
      | none =>
          have hshown := h path htracks
          rw [shownDiff_of_unpaired (not_exists.1 hpaired) hlookup] at hshown
          exact Or.inl (renderDiff_eq_none.1 hshown)
  · intro h path htracks
    rcases h path htracks with hsame | ⟨other, hrename | hrename⟩
    · by_cases hpaired : ∃ origin, (tracker.renamePairs order.origins).lookup origin = some path
      · obtain ⟨origin, hlookup⟩ := hpaired
        exact shownDiff_of_paired hlookup
      · have hnone : (tracker.renamePairs order.origins).lookup path = none := by
          refine Option.eq_none_iff_forall_ne_some.2 fun dest hlookup => ?_
          obtain ⟨-, hcurrent, -, ⟨content, hbaseline⟩, -⟩ :=
            isRename_eq_true.1 (lookup_renamePairs_candidate order hlookup).2
          rw [hcurrent, hbaseline] at hsame
          cases hsame
        rw [shownDiff_of_unpaired (not_exists.1 hpaired) hnone]
        exact renderDiff_eq_none.2 hsame
    · rw [shownDiff_of_lookup (ne_lookup_of_candidate order hrename.candidate)
        (lookup_of_pureRename order hrename)]
      exact renderDiff_eq_none.2 hrename.content
    · exact shownDiff_of_paired (lookup_of_pureRename order hrename)

end

/-! ## Sequences of records -/

def trackDeltas (deltas : List (Text × AppliedPatchDelta)) : TurnDiffTracker :=
  deltas.foldl (fun tracker d => tracker.trackDelta d.1 d.2) .new

/-- The records, each in its environment, lead from the contents at the start of
the turn to the contents now. -/
def DescribesTurn : List (Text × AppliedPatchDelta) →
    (start now : TrackedPath → Option Text) → Prop
  | [], start, now => now = start
  | (environmentId, delta) :: deltas, start, now =>
      ∃ after : AbsolutePathBuf → Option Text,
        Describes delta.changes (fun p => start ⟨environmentId, p⟩) after ∧
          DescribesTurn deltas (withEnvironment environmentId start after) now

@[simp] theorem valid_seed (tracker : TurnDiffTracker) (path : TrackedPath)
    (content : Option Text) : (tracker.seed path content).valid = tracker.valid := by
  unfold seed
  split
  · split <;> rfl
  · rfl

theorem valid_applyChange (environmentId : Text) (tracker : TurnDiffTracker)
    (change : AppliedPatchChange) :
    (applyChange environmentId tracker change).valid = tracker.valid := by
  obtain ⟨path, change⟩ := change
  cases change with
  | add content overwritten => simp [applyChange, applyAdd]
  | delete content => simp [applyChange, applyDelete]
  | update movePath old overwritten new =>
      cases movePath <;> simp [applyChange, applyUpdate]

theorem valid_trackDelta {tracker : TurnDiffTracker} {environmentId : Text}
    {delta : AppliedPatchDelta} (hexact : delta.exact = true) :
    (tracker.trackDelta environmentId delta).valid = tracker.valid := by
  rw [trackDelta, if_pos hexact]
  induction delta.changes generalizing tracker with
  | nil => rfl
  | cons change changes ih => rw [List.foldl_cons, ih, valid_applyChange]

theorem valid_trackDeltas {deltas : List (Text × AppliedPatchDelta)}
    (hexact : ∀ d ∈ deltas, d.2.exact = true) : (trackDeltas deltas).valid = true := by
  have hfrom : ∀ tracker : TurnDiffTracker, (deltas.foldl
      (fun tracker d => tracker.trackDelta d.1 d.2) tracker).valid = tracker.valid := by
    induction deltas with
    | nil => exact fun tracker => rfl
    | cons d deltas ih =>
        intro tracker
        rw [List.foldl_cons, ih fun e he => hexact e (List.mem_cons_of_mem d he),
          valid_trackDelta (hexact d List.mem_cons_self)]
  exact hfrom .new

theorem withEnvironment_self (environmentId : Text) (now : TrackedPath → Option Text) :
    withEnvironment environmentId now (fun p => now ⟨environmentId, p⟩) = now := by
  funext ⟨env, p⟩
  by_cases henv : env = environmentId
  · subst henv
    simp [withEnvironment]
  · simp [withEnvironment, henv]

/-- The maps hold the contents at the start of the turn and the contents now. -/
theorem tracks_trackDeltas {deltas : List (Text × AppliedPatchDelta)}
    {start now : TrackedPath → Option Text} (hexact : ∀ d ∈ deltas, d.2.exact = true)
    (h : DescribesTurn deltas start now) : Tracks start now (trackDeltas deltas) := by
  have hfrom : ∀ (tracker : TurnDiffTracker) (mid : TrackedPath → Option Text),
      Tracks start mid tracker → DescribesTurn deltas mid now →
        Tracks start now (deltas.foldl (fun tracker d => tracker.trackDelta d.1 d.2) tracker) := by
    clear h
    induction deltas with
    | nil =>
        intro tracker mid htracks hturn
        cases hturn
        exact htracks
    | cons d deltas ih =>
        obtain ⟨environmentId, delta⟩ := d
        intro tracker mid htracks ⟨after, hdelta, hturn⟩
        refine ih (fun e he => hexact e (List.mem_cons_of_mem _ he)) _ _ ?_ hturn
        have hdeltaExact : delta.exact = true := hexact _ List.mem_cons_self
        have hstep : tracker.trackDelta environmentId delta =
            delta.changes.foldl (applyChange environmentId) tracker := if_pos hdeltaExact
        rw [← withEnvironment_self environmentId mid] at htracks
        dsimp only
        rw [hstep]
        exact tracks_foldl_applyChange htracks hdelta
  exact hfrom .new start tracks_new h

/-- After any exact records the diff is empty exactly when every tracked path has
the same content at the start and now, or is an end of a pure rename; where the
records describe what happened to the files, the contents are those of the files. -/
theorem getUnifiedDiff_eq_none_iff (roots : DisplayRoots) (rendering : Rendering)
    (deltas : List (Text × AppliedPatchDelta)) (hexact : ∀ d ∈ deltas, d.2.exact = true)
    (order : IterationOrder (trackDeltas deltas)) :
    let tracker := trackDeltas deltas
    (tracker.getUnifiedDiff roots rendering order = none ↔
      ∀ path, tracker.tracks path = true →
        tracker.baselineByPath.lookup path = tracker.currentByPath.lookup path ∨
          PurelyRenamed tracker path) ∧
    ∀ start now, DescribesTurn deltas start now →
      (tracker.getUnifiedDiff roots rendering order = none ↔
        ∀ path, tracker.tracks path = true →
          start path = now path ∨ PurelyRenamed tracker path) := by
  have hmaps := (@getUnifiedDiff_eq_none roots rendering _ order (valid_trackDeltas hexact)).trans
    (shownDiff_eq_none_iff order)
  refine ⟨hmaps, fun start now hturn => hmaps.trans ?_⟩
  have htracks := tracks_trackDeltas hexact hturn
  apply forall₂_congr
  intro path hpath
  obtain ⟨hstart, hnow⟩ := (htracks path).1 hpath
  rw [hstart, hnow]

/-- The record of a file that moved from `a` to `x` and kept its line. -/
def renameDeltas : List (Text × AppliedPatchDelta) :=
  [([], ⟨[⟨pathA, .update (some pathX) "1\n".toList none "1\n".toList⟩], true⟩)]

def beforeRename (k : TrackedPath) : Option Text := diskWithA k.path

def afterRename : TrackedPath → Option Text :=
  withEnvironment [] beforeRename
    (Function.update (Function.update diskWithA pathX (some "1\n".toList)) pathA none)

theorem describesTurn_renameDeltas : DescribesTurn renameDeltas beforeRename afterRename := by
  refine ⟨_, ⟨_, ⟨?_, ?_, ?_, rfl⟩, rfl⟩, rfl⟩
  · decide
  · decide
  · decide

theorem pureRename_renameDeltas :
    PureRename (trackDeltas renameDeltas) ⟨[], pathA⟩ ⟨[], pathX⟩ := by
  refine ⟨⟨by decide, by decide⟩, fun other hother => ?_, by decide⟩
  have hentries : (trackDeltas renameDeltas).originByCurrentPath.entries =
      [⟨⟨[], pathX⟩, ⟨[], pathA⟩⟩] := by decide
  have hmem := AList.mem_lookup_iff.1 (Option.mem_def.2 hother.1)
  rw [hentries, List.mem_singleton] at hmem
  exact congrArg Sigma.fst hmem

theorem purelyRenamed_renameDeltas (path : TrackedPath)
    (h : (trackDeltas renameDeltas).tracks path = true) :
    PurelyRenamed (trackDeltas renameDeltas) path := by
  have hcurrent : (trackDeltas renameDeltas).currentByPath.keys = [⟨[], pathX⟩] := by
    decide
  have hbaseline : (trackDeltas renameDeltas).baselineByPath.keys = [⟨[], pathA⟩] := by
    decide
  rw [tracks, Bool.or_eq_true, AList.lookup_isSome, AList.lookup_isSome, AList.mem_keys,
    AList.mem_keys, hcurrent, hbaseline, List.mem_singleton, List.mem_singleton] at h
  rcases h with rfl | rfl
  · exact ⟨_, Or.inr pureRename_renameDeltas⟩
  · exact ⟨_, Or.inl pureRename_renameDeltas⟩

/-- After the rename `a` is gone, and the diff is empty. -/
theorem pure_rename_shows_nothing :
    (∀ d ∈ renameDeltas, d.2.exact = true) ∧
      DescribesTurn renameDeltas beforeRename afterRename ∧
      (trackDeltas renameDeltas).tracks ⟨[], pathA⟩ = true ∧
      beforeRename ⟨[], pathA⟩ ≠ afterRename ⟨[], pathA⟩ ∧
      ∀ roots rendering order,
        (trackDeltas renameDeltas).getUnifiedDiff roots rendering order = none := by
  refine ⟨by decide +kernel, describesTurn_renameDeltas, by decide +kernel, by decide +kernel, ?_⟩
  intro roots rendering order
  rw [getUnifiedDiff_eq_none order (by decide +kernel), shownDiff_eq_none_iff]
  exact fun path hpath => Or.inr (purelyRenamed_renameDeltas path hpath)

def noRendering : Rendering := ⟨fun _ => [], fun _ _ _ _ => []⟩

theorem getUnifiedDiff_eq_none_iff_rename :
    (trackDeltas renameDeltas).getUnifiedDiff ∅ noRendering (.listed _) = none ↔
      ∀ path, (trackDeltas renameDeltas).tracks path = true →
        beforeRename path = afterRename path ∨ PurelyRenamed (trackDeltas renameDeltas) path :=
  (getUnifiedDiff_eq_none_iff ∅ noRendering renameDeltas (by decide +kernel) (.listed _)).2
    beforeRename afterRename describesTurn_renameDeltas

end Codewith.TurnDiff
