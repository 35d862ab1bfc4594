import Mathlib.Data.List.AList
import Codewith.ApplyPatch.Record

/-!
# Tracking the net diff of a turn

The tracker never rereads the disk.  It folds the records of the patches of a
turn into a map of baseline contents and a map of current contents, keyed by
environment and path.  Over a turn whose records are exact, in which no file is
moved onto itself and no file is changed under two of its paths, the first map
holds the contents at the start of the turn and the second the contents now, for
every path in either map.
-/

namespace Codewith.TurnDiff

open Lib ApplyPatch

structure TrackedPath where
  environmentId : Text
  path : AbsolutePathBuf
deriving DecidableEq

abbrev Contents := AList fun _ : TrackedPath => Text

structure TurnDiffTracker where
  valid : Bool
  baselineByPath : Contents
  currentByPath : Contents
  originByCurrentPath : AList fun _ : TrackedPath => TrackedPath

namespace TurnDiffTracker

def new : TurnDiffTracker := ⟨true, ∅, ∅, ∅⟩

def invalidate (tracker : TurnDiffTracker) : TurnDiffTracker := { tracker with valid := false }

/-- The path is in one of the two maps. -/
def tracks (tracker : TurnDiffTracker) (path : TrackedPath) : Bool :=
  (tracker.currentByPath.lookup path).isSome || (tracker.baselineByPath.lookup path).isSome

/-- A path that is seen for the first time gets its baseline. -/
def seed (tracker : TurnDiffTracker) (path : TrackedPath) (content : Option Text) :
    TurnDiffTracker :=
  match content with
  | some content =>
      if tracker.tracks path then tracker
      else { tracker with baselineByPath := tracker.baselineByPath.insert path content }
  | none => tracker

def applyAdd (tracker : TurnDiffTracker) (path : TrackedPath) (content : Text)
    (overwrittenContent : Option Text) : TurnDiffTracker :=
  let tracker := { tracker with originByCurrentPath := tracker.originByCurrentPath.erase path }
  let tracker := tracker.seed path overwrittenContent
  { tracker with currentByPath := tracker.currentByPath.insert path content }

def applyDelete (tracker : TurnDiffTracker) (path : TrackedPath) (content : Text) :
    TurnDiffTracker :=
  let tracker := tracker.seed path (some content)
  { tracker with
    currentByPath := tracker.currentByPath.erase path
    originByCurrentPath := tracker.originByCurrentPath.erase path }

def applyUpdate (tracker : TurnDiffTracker) (sourcePath : TrackedPath)
    (movePath : Option TrackedPath) (oldContent : Text) (overwrittenMoveContent : Option Text)
    (newContent : Text) : TurnDiffTracker :=
  let tracker := tracker.seed sourcePath (some oldContent)
  match movePath with
  | some destPath =>
      let tracker := tracker.seed destPath overwrittenMoveContent
      let origin := (tracker.originByCurrentPath.lookup sourcePath).getD sourcePath
      let origins := (tracker.originByCurrentPath.erase sourcePath).erase destPath
      { tracker with
        currentByPath := (tracker.currentByPath.erase sourcePath).insert destPath newContent
        originByCurrentPath :=
          if destPath = origin then origins else origins.insert destPath origin }
  | none => { tracker with currentByPath := tracker.currentByPath.insert sourcePath newContent }

def applyChange (environmentId : Text) (tracker : TurnDiffTracker) (change : AppliedPatchChange) :
    TurnDiffTracker :=
  let sourcePath := ⟨environmentId, change.path⟩
  match change.change with
  | .add content overwrittenContent => tracker.applyAdd sourcePath content overwrittenContent
  | .delete content => tracker.applyDelete sourcePath content
  | .update movePath oldContent overwrittenMoveContent newContent =>
      tracker.applyUpdate sourcePath (movePath.map (⟨environmentId, ·⟩)) oldContent
        overwrittenMoveContent newContent

def trackDelta (tracker : TurnDiffTracker) (environmentId : Text) (delta : AppliedPatchDelta) :
    TurnDiffTracker :=
  if delta.exact then delta.changes.foldl (applyChange environmentId) tracker
  else tracker.invalidate

end TurnDiffTracker

/-! ## What the maps mean -/

open TurnDiffTracker

/-- A tracked path has its content at the start and its content now; any other
path has not changed. -/
def Tracks (start now : TrackedPath → Option Text) (tracker : TurnDiffTracker) : Prop :=
  ∀ k, (tracker.tracks k = true → tracker.baselineByPath.lookup k = start k ∧
      tracker.currentByPath.lookup k = now k) ∧
    (tracker.tracks k = false → start k = now k)

variable {start now : TrackedPath → Option Text} {tracker : TurnDiffTracker}

theorem tracks_new : Tracks start start .new := by
  intro k
  refine ⟨fun h => ?_, fun _ => rfl⟩
  simp [tracks, new] at h

theorem tracks_eq_false {k : TrackedPath} : tracker.tracks k = false ↔
    tracker.currentByPath.lookup k = none ∧ tracker.baselineByPath.lookup k = none := by
  simp [tracks]

/-- One path gets a new current content, and a baseline if it had neither. -/
structure Touched (tracker tracker' : TurnDiffTracker) (path : TrackedPath)
    (overwritten content : Option Text) : Prop where
  baseline : tracker'.baselineByPath.lookup path =
    if tracker.tracks path then tracker.baselineByPath.lookup path else overwritten
  current : tracker'.currentByPath.lookup path = content
  other : ∀ k, k ≠ path →
    tracker'.baselineByPath.lookup k = tracker.baselineByPath.lookup k ∧
      tracker'.currentByPath.lookup k = tracker.currentByPath.lookup k

/-- The maps stay right when the overwritten content is the one the path had. -/
theorem tracks_touched {tracker' : TurnDiffTracker} {path : TrackedPath}
    {overwritten content : Option Text} (h : Tracks start now tracker)
    (htouched : Touched tracker tracker' path overwritten content)
    (hnow : now path = overwritten) : Tracks start (Function.update now path content) tracker' := by
  intro k
  by_cases hk : k = path
  · subst hk
    have hbaseline : tracker'.baselineByPath.lookup k = start k := by
      rw [htouched.baseline]
      cases htracks : tracker.tracks k
      · simpa [hnow] using ((h k).2 htracks).symm
      · simpa using ((h k).1 htracks).1
    refine ⟨fun _ => ⟨hbaseline, ?_⟩, fun hfalse => ?_⟩
    · rw [htouched.current, Function.update_self]
    · obtain ⟨hcurrent, hnone⟩ := tracks_eq_false.1 hfalse
      rw [← hbaseline, hnone, Function.update_self, ← htouched.current, hcurrent]
  · obtain ⟨hbaseline, hcurrent⟩ := htouched.other k hk
    have hsame : tracker'.tracks k = tracker.tracks k := by
      rw [tracks, tracks, hbaseline, hcurrent]
    rw [hsame, hbaseline, hcurrent, Function.update_of_ne hk]
    exact h k

@[simp] theorem seed_currentByPath (tracker : TurnDiffTracker) (path : TrackedPath)
    (content : Option Text) :
    (tracker.seed path content).currentByPath = tracker.currentByPath := by
  unfold seed
  split
  · split <;> rfl
  · rfl

theorem lookup_seed_of_ne {path k : TrackedPath} (hk : k ≠ path) (content : Option Text) :
    (tracker.seed path content).baselineByPath.lookup k = tracker.baselineByPath.lookup k := by
  unfold seed
  split
  · split
    · rfl
    · exact AList.lookup_insert_ne hk
  · rfl

variable (tracker) in
theorem lookup_seed_self (path : TrackedPath) (content : Option Text) :
    (tracker.seed path content).baselineByPath.lookup path =
      if tracker.tracks path then tracker.baselineByPath.lookup path else content := by
  unfold seed
  cases htracks : tracker.tracks path
  · cases content with
    | none => simpa using (tracks_eq_false.1 htracks).2
    | some content => simp
  · cases content <;> simp

theorem touched_applyAdd (tracker : TurnDiffTracker) (path : TrackedPath) (content : Text)
    (overwritten : Option Text) :
    Touched tracker (tracker.applyAdd path content overwritten) path overwritten
      (some content) where
  baseline := lookup_seed_self _ path overwritten
  current := AList.lookup_insert _
  other k hk := by
    refine ⟨lookup_seed_of_ne hk overwritten, ?_⟩
    simp [applyAdd, AList.lookup_insert_ne hk]

theorem touched_applyDelete (tracker : TurnDiffTracker) (path : TrackedPath) (content : Text) :
    Touched tracker (tracker.applyDelete path content) path (some content) none where
  baseline := lookup_seed_self tracker path (some content)
  current := AList.lookup_erase _ _
  other k hk := by
    refine ⟨lookup_seed_of_ne hk (some content), ?_⟩
    simp [applyDelete, AList.lookup_erase_ne hk]

theorem touched_applyUpdate (tracker : TurnDiffTracker) (path : TrackedPath) (oldContent : Text)
    (overwritten : Option Text) (newContent : Text) :
    Touched tracker (tracker.applyUpdate path none oldContent overwritten newContent) path
      (some oldContent) (some newContent) where
  baseline := lookup_seed_self tracker path (some oldContent)
  current := AList.lookup_insert _
  other k hk := by
    refine ⟨lookup_seed_of_ne hk (some oldContent), ?_⟩
    simp [applyUpdate, AList.lookup_insert_ne hk]

/-- A move touches its source, which loses its content, and then its destination. -/
theorem touched_applyUpdate_move (tracker : TurnDiffTracker) {source dest : TrackedPath}
    (hne : dest ≠ source) (oldContent : Text) (overwritten : Option Text) (newContent : Text) :
    Touched (tracker.applyDelete source oldContent)
      (tracker.applyUpdate source (some dest) oldContent overwritten newContent) dest overwritten
      (some newContent) := by
  have hseed : ∀ k, k ≠ source → (tracker.seed source (some oldContent)).tracks k =
      (tracker.applyDelete source oldContent).tracks k := by
    intro k hk
    simp [tracks, applyDelete, AList.lookup_erase_ne hk]
  refine ⟨?_, AList.lookup_insert _, ?_⟩
  · have hself := lookup_seed_self (tracker.seed source (some oldContent)) dest overwritten
    rw [hseed dest hne] at hself
    exact hself
  · intro k hk
    refine ⟨lookup_seed_of_ne hk overwritten, ?_⟩
    simp [applyUpdate, applyDelete, AList.lookup_insert_ne hk]

/-! ## Records and turns -/

/-- The contents of one environment replaced by others. -/
def withEnvironment (environmentId : Text) (now : TrackedPath → Option Text)
    (text : AbsolutePathBuf → Option Text) (k : TrackedPath) : Option Text :=
  if k.environmentId = environmentId then text k.path else now k

theorem withEnvironment_update (environmentId : Text) (now : TrackedPath → Option Text)
    (text : AbsolutePathBuf → Option Text) (p : AbsolutePathBuf) (content : Option Text) :
    withEnvironment environmentId now (Function.update text p content) =
      Function.update (withEnvironment environmentId now text) ⟨environmentId, p⟩ content := by
  funext ⟨env, q⟩
  by_cases henv : env = environmentId
  · subst henv
    by_cases hq : q = p
    · subst hq
      simp [withEnvironment]
    · simp [withEnvironment, hq]
  · simp [withEnvironment, henv]

theorem tracks_applyChange {environmentId : Text} {before after : AbsolutePathBuf → Option Text}
    {change : AppliedPatchChange}
    (h : Tracks start (withEnvironment environmentId now before) tracker)
    (hchange : change.change.Describes change.path before after) :
    Tracks start (withEnvironment environmentId now after)
      (applyChange environmentId tracker change) := by
  obtain ⟨p, change⟩ := change
  have hself : ∀ q, withEnvironment environmentId now before ⟨environmentId, q⟩ = before q :=
    fun q => by simp [withEnvironment]
  cases change with
  | add content overwritten =>
      obtain ⟨hbefore, rfl⟩ := hchange
      rw [withEnvironment_update]
      exact tracks_touched h (touched_applyAdd tracker _ content overwritten)
        ((hself p).trans hbefore)
  | delete content =>
      obtain ⟨hbefore, rfl⟩ := hchange
      rw [withEnvironment_update]
      exact tracks_touched h (touched_applyDelete tracker _ content) ((hself p).trans hbefore)
  | update movePath oldContent overwritten newContent =>
      cases movePath with
      | none =>
          obtain ⟨hbefore, rfl⟩ := hchange
          rw [withEnvironment_update]
          exact tracks_touched h (touched_applyUpdate tracker _ oldContent overwritten newContent)
            ((hself p).trans hbefore)
      | some dest =>
          obtain ⟨hne, hbefore, hdest, rfl⟩ := hchange
          have hne' : (⟨environmentId, dest⟩ : TrackedPath) ≠ ⟨environmentId, p⟩ := by
            simpa using hne
          have hsource := tracks_touched h
            (touched_applyDelete tracker ⟨environmentId, p⟩ oldContent) ((hself p).trans hbefore)
          rw [Function.update_comm hne, withEnvironment_update, withEnvironment_update]
          refine tracks_touched hsource
            (touched_applyUpdate_move tracker hne' oldContent overwritten newContent) ?_
          rw [Function.update_of_ne hne', hself]
          exact hdest

theorem tracks_foldl_applyChange {environmentId : Text}
    {before after : AbsolutePathBuf → Option Text} {changes : List AppliedPatchChange}
    (h : Tracks start (withEnvironment environmentId now before) tracker)
    (hchanges : Describes changes before after) :
    Tracks start (withEnvironment environmentId now after)
      (changes.foldl (applyChange environmentId) tracker) := by
  induction changes generalizing before tracker with
  | nil =>
      cases hchanges
      exact h
  | cons change changes ih =>
      obtain ⟨between, hchange, hrest⟩ := hchanges
      exact ih (tracks_applyChange h hchange) hrest

/-- One call of `applyPatch` in an environment. -/
structure PatchRun where
  environmentId : Text
  patch : Text
  cwd : AbsolutePathBuf
  home : Option PathBuf
  out : Output

/-- The disks of the environments, and the tracker. -/
structure TurnState (σ : Type) where
  disks : Text → σ
  tracker : TurnDiffTracker

section

variable {σ : Type} (fs : Text → FileSystem σ)

def PatchRun.outcome (run : PatchRun) (disks : Text → σ) :
    Except ApplyPatchFailure AppliedPatchDelta × σ :=
  applyPatch (fs run.environmentId) run.home run.out run.patch run.cwd (disks run.environmentId)

/-- A patch runs in its environment, and its record goes to the tracker. -/
def turnStep (s : TurnState σ) (run : PatchRun) : TurnState σ where
  disks := Function.update s.disks run.environmentId (run.outcome fs s.disks).2
  tracker := s.tracker.trackDelta run.environmentId (deltaOf (run.outcome fs s.disks).1)

/-- The runs of a turn, each with the state it starts from. -/
def startedRuns : List PatchRun → TurnState σ → List (PatchRun × TurnState σ)
  | [], _ => []
  | run :: runs, s => (run, s) :: startedRuns runs (turnStep fs s run)

/-- The text of a tracked path. -/
def textAt (text : Text → σ → AbsolutePathBuf → Option Text) (disks : Text → σ)
    (k : TrackedPath) : Option Text :=
  text k.environmentId (disks k.environmentId) k.path

/-- The run returns an exact record and moves no file onto itself. -/
def RunsExactly (run : PatchRun) (s : TurnState σ) : Prop :=
  (deltaOf (run.outcome fs s.disks).1).exact = true ∧
    ∀ e ∈ startedHunksOf (fs run.environmentId) run.home run.patch run.cwd
      (s.disks run.environmentId),
      ¬ MovesOntoItself (fs run.environmentId) run.home run.cwd e.2.disk e.1

instance (run : PatchRun) (s : TurnState σ) : Decidable (RunsExactly fs run s) :=
  inferInstanceAs (Decidable (_ ∧ _))

/-- The paths that a run writes or removes. -/
def PatchRun.changedPaths (run : PatchRun) (disks : Text → σ) : List AbsolutePathBuf :=
  changedPathsOf (fs run.environmentId) run.home run.cwd
    (startedHunksOf (fs run.environmentId) run.home run.patch run.cwd (disks run.environmentId))

/-- The paths that the runs of a turn write or remove in an environment. -/
def turnPaths (runs : List PatchRun) (s : TurnState σ) (environmentId : Text) :
    Set AbsolutePathBuf :=
  {p | ∃ e ∈ startedRuns fs runs s, e.1.environmentId = environmentId ∧
    p ∈ e.1.changedPaths fs e.2.disks}

variable {fs} {text : Text → σ → AbsolutePathBuf → Option Text}
  {shares : Text → σ → AbsolutePathBuf → AbsolutePathBuf → Prop}
  {paths : Text → Set AbsolutePathBuf}

/-- The text of a tracked path, as far as it is one of `paths`. -/
noncomputable def textAtWithin (paths : Text → Set AbsolutePathBuf)
    (text : Text → σ → AbsolutePathBuf → Option Text) : (Text → σ) → TrackedPath → Option Text :=
  textAt fun env disk => textWithin (paths env) (text env disk)

theorem withEnvironment_textAt (disks : Text → σ) (environmentId : Text) (disk : σ) :
    withEnvironment environmentId (textAt text disks) (text environmentId disk) =
      textAt text (Function.update disks environmentId disk) := by
  funext ⟨env, q⟩
  by_cases henv : env = environmentId
  · subst henv
    simp [withEnvironment, textAt]
  · simp [withEnvironment, henv, textAt]

theorem withEnvironment_textAtWithin (disks : Text → σ) (environmentId : Text) (disk : σ) :
    withEnvironment environmentId (textAtWithin paths text disks)
        (textWithin (paths environmentId) (text environmentId disk)) =
      textAtWithin paths text (Function.update disks environmentId disk) :=
  withEnvironment_textAt disks environmentId disk

theorem apart_turnStep {s : TurnState σ} {run : PatchRun}
    (hapart : ∀ env, Apart (shares env) (paths env) (s.disks env))
    (hrun : Apart (shares run.environmentId) (paths run.environmentId) (run.outcome fs s.disks).2)
    (env : Text) : Apart (shares env) (paths env) ((turnStep fs s run).disks env) := by
  by_cases henv : env = run.environmentId
  · subst henv
    simp only [turnStep, Function.update_self]
    exact hrun
  · simp only [turnStep, Function.update_of_ne henv]
    exact hapart env

/-- One run keeps the maps right and its paths apart. -/
theorem tracks_turnStep (hlaws : ∀ env, TextFileLaws (fs env) (text env) (shares env))
    {s : TurnState σ} {run : PatchRun}
    (h : Tracks start (textAtWithin paths text s.disks) s.tracker)
    (hapart : ∀ env, Apart (shares env) (paths env) (s.disks env))
    (hpaths : ∀ p ∈ run.changedPaths fs s.disks, p ∈ paths run.environmentId)
    (hrun : RunsExactly fs run s) :
    Tracks start (textAtWithin paths text (turnStep fs s run).disks) (turnStep fs s run).tracker ∧
      ∀ env, Apart (shares env) (paths env) ((turnStep fs s run).disks env) := by
  obtain ⟨hexact, hmove⟩ := hrun
  obtain ⟨hapart', hdescribes⟩ := applyPatch_describes (hlaws run.environmentId)
    (hapart run.environmentId) hpaths hmove hexact
  refine ⟨?_, apart_turnStep hapart hapart'⟩
  have hbefore : withEnvironment run.environmentId (textAtWithin paths text s.disks)
      (textWithin (paths run.environmentId)
        (text run.environmentId (s.disks run.environmentId))) =
      textAtWithin paths text s.disks := by
    rw [withEnvironment_textAtWithin, Function.update_eq_self]
  rw [← hbefore] at h
  have hafter := tracks_foldl_applyChange h hdescribes
  rw [withEnvironment_textAtWithin] at hafter
  simp only [turnStep, trackDelta, hexact, if_true]
  exact hafter

theorem tracks_turn (hlaws : ∀ env, TextFileLaws (fs env) (text env) (shares env))
    {runs : List PatchRun} {s : TurnState σ}
    (h : Tracks start (textAtWithin paths text s.disks) s.tracker)
    (hapart : ∀ env, Apart (shares env) (paths env) (s.disks env))
    (hruns : ∀ e ∈ startedRuns fs runs s, (∀ p ∈ e.1.changedPaths fs e.2.disks,
      p ∈ paths e.1.environmentId) ∧ RunsExactly fs e.1 e.2) :
    Tracks start (textAtWithin paths text (runs.foldl (turnStep fs) s).disks)
      (runs.foldl (turnStep fs) s).tracker := by
  induction runs generalizing s with
  | nil => exact h
  | cons run runs ih =>
      obtain ⟨hpaths, hrun⟩ := hruns (run, s) List.mem_cons_self
      obtain ⟨h', hapart'⟩ := tracks_turnStep hlaws h hapart hpaths hrun
      refine ih h' hapart' ?_
      exact fun e he => hruns e (List.mem_cons_of_mem _ he)

/-- Only the paths whose text is followed are tracked. -/
theorem mem_of_tracks {disks disks' : Text → σ} {k : TrackedPath}
    (h : Tracks (textAtWithin paths text disks) (textAtWithin paths text disks') tracker)
    (hk : tracker.tracks k = true) : k.path ∈ paths k.environmentId := by
  by_contra hout
  obtain ⟨hbaseline, hcurrent⟩ := (h k).1 hk
  have hnone : ∀ disks : Text → σ, textAtWithin paths text disks k = none :=
    fun disks => textWithin_of_notMem hout _
  rw [hnone] at hbaseline hcurrent
  rw [tracks_eq_false.2 ⟨hcurrent, hbaseline⟩] at hk
  cases hk

end

section

/-- Output that is always accepted. -/
def quiet : Output := ⟨fun _ => .ok (), fun _ => .ok ()⟩

def patchIn (patch : Text) : PatchRun := ⟨[], patch, .root, none, quiet⟩

def disksWithA : Text → AbsolutePathBuf → Option Text := fun _ => diskWithA

/-- A patch that changes the line of `a` and moves `a` onto itself. -/
def selfMoveText : Text :=
  "*** Begin Patch\n*** Update File: a\n*** Move to: a\n@@\n-1\n+2\n*** End Patch".toList

end

end Codewith.TurnDiff
