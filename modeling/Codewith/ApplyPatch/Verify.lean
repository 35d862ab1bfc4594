import Mathlib.Data.List.AList
import Codewith.ApplyPatch.Engine

/-!
# Verifying a patch before it runs

`verifyApplyPatchArgs` computes, hunk by hunk and against one unchanged file
system, the map of changes that is shown for approval.  The map is keyed by the
source path of a hunk, so of several hunks with one source only the last one is
left in it.
-/

namespace Codewith.ApplyPatch

open Lib

inductive ApplyPatchFileChange
  | add (content : Text)
  | delete (content : Text)
  | update (unifiedDiff : Text) (movePath : Option AbsolutePathBuf) (newContent : Text)
deriving DecidableEq

def ApplyPatchFileChange.movePath : ApplyPatchFileChange → Option AbsolutePathBuf
  | update _ movePath _ => movePath
  | _ => none

abbrev Changes := AList fun _ : AbsolutePathBuf => ApplyPatchFileChange

structure ApplyPatchAction where
  changes : Changes
  patch : Text
  cwd : AbsolutePathBuf

inductive MaybeApplyPatchVerified
  | body (action : ApplyPatchAction)
  | correctnessError (error : ApplyPatchError)

structure ApplyPatchFileUpdate where
  unifiedDiff : Text
  originalContent : Text
  content : Text

section

variable {σ : Type} (fs : FileSystem σ) (textDiff : Nat → Text → Text → Text)
  (home : Option PathBuf)

def unifiedDiffFromChunksWithContext (disk : σ) (path : AbsolutePathBuf)
    (chunks : List UpdateFileChunk) (context : Nat) :
    Except ApplyPatchError ApplyPatchFileUpdate := do
  let applied ← deriveNewContentsFromChunks fs disk path chunks
  return ⟨textDiff context applied.originalContents applied.newContents,
    applied.originalContents, applied.newContents⟩

def unifiedDiffFromChunks (disk : σ) (path : AbsolutePathBuf) (chunks : List UpdateFileChunk) :
    Except ApplyPatchError ApplyPatchFileUpdate :=
  unifiedDiffFromChunksWithContext fs textDiff disk path chunks 1

/-- The change that is shown for one hunk. -/
def verifyHunk (disk : σ) (effectiveCwd : AbsolutePathBuf) (hunk : Hunk) :
    Except ApplyPatchError ApplyPatchFileChange :=
  let path := hunk.resolvePath home effectiveCwd
  match hunk with
  | .addFile _ contents => .ok (.add contents)
  | .deleteFile _ =>
      match fs.readFileText disk path with
      | .ok content => .ok (.delete content)
      | .error e => .error (.ioError ("Failed to read ".toList ++ path.display) e)
  | .updateFile _ movePath chunks => do
      let update ← unifiedDiffFromChunks fs textDiff disk path chunks
      return .update update.unifiedDiff (movePath.map (effectiveCwd.join home)) update.content

def verifyHunks (disk : σ) (effectiveCwd : AbsolutePathBuf) :
    List Hunk → Changes → Except ApplyPatchError Changes
  | [], changes => .ok changes
  | hunk :: hunks, changes => do
      let change ← verifyHunk fs textDiff home disk effectiveCwd hunk
      verifyHunks disk effectiveCwd hunks
        (changes.insert (hunk.resolvePath home effectiveCwd) change)

def effectiveCwd (workdir : Option PathBuf) (cwd : AbsolutePathBuf) : AbsolutePathBuf :=
  match workdir with
  | some dir => cwd.join home dir
  | none => cwd

def verifyApplyPatchArgs (disk : σ) (args : ApplyPatchArgs) (cwd : AbsolutePathBuf) :
    MaybeApplyPatchVerified :=
  let cwd := effectiveCwd home args.workdir cwd
  match verifyHunks fs textDiff home disk cwd args.hunks ∅ with
  | .ok changes => .body ⟨changes, args.patch, cwd⟩
  | .error error => .correctnessError error

end

/-! ## The map of changes -/

variable {σ : Type} {fs : FileSystem σ} {textDiff : Nat → Text → Text → Text}
  {home : Option PathBuf} {disk : σ} {cwd : AbsolutePathBuf}

/-- The hunk is the last of the list with its source path. -/
def LastForSource (home : Option PathBuf) (cwd : AbsolutePathBuf) (hunks : List Hunk)
    (hunk : Hunk) : Prop :=
  ∃ before after, hunks = before ++ hunk :: after ∧
    ∀ later ∈ after, later.resolvePath home cwd ≠ hunk.resolvePath home cwd

theorem lastForSource_cons_of_mem {hunks : List Hunk} {hunk other : Hunk}
    (h : LastForSource home cwd hunks hunk) : LastForSource home cwd (other :: hunks) hunk := by
  obtain ⟨before, after, rfl, hafter⟩ := h
  exact ⟨other :: before, after, rfl, hafter⟩

theorem exists_lastForSource {hunks : List Hunk} {p : AbsolutePathBuf}
    (h : ∃ hunk ∈ hunks, hunk.resolvePath home cwd = p) :
    ∃ hunk, LastForSource home cwd hunks hunk ∧ hunk.resolvePath home cwd = p := by
  induction hunks with
  | nil => simp at h
  | cons first hunks ih =>
      by_cases hrest : ∃ hunk ∈ hunks, hunk.resolvePath home cwd = p
      · obtain ⟨hunk, hlast, hp⟩ := ih hrest
        exact ⟨hunk, lastForSource_cons_of_mem hlast, hp⟩
      · obtain ⟨hunk, hmem, hp⟩ := h
        rcases List.mem_cons.1 hmem with rfl | hmem
        · refine ⟨hunk, ⟨[], hunks, rfl, ?_⟩, hp⟩
          intro later hlater heq
          exact hrest ⟨later, hlater, heq.trans hp⟩
        · exact (hrest ⟨hunk, hmem, hp⟩).elim

theorem verifyHunks_cons {hunk : Hunk} {hunks : List Hunk} {changes result : Changes}
    (h : verifyHunks fs textDiff home disk cwd (hunk :: hunks) changes = .ok result) :
    ∃ change, verifyHunk fs textDiff home disk cwd hunk = .ok change ∧
      verifyHunks fs textDiff home disk cwd hunks
        (changes.insert (hunk.resolvePath home cwd) change) = .ok result := by
  rw [verifyHunks] at h
  cases hc : verifyHunk fs textDiff home disk cwd hunk with
  | error e => simp [hc, bind, Except.bind] at h
  | ok change => exact ⟨change, rfl, by simpa [hc, bind, Except.bind] using h⟩

/-- Paths that no hunk has as its source keep their entry. -/
theorem lookup_verifyHunks_of_not_source {hunks : List Hunk} {changes result : Changes}
    (h : verifyHunks fs textDiff home disk cwd hunks changes = .ok result) {p : AbsolutePathBuf}
    (hp : ∀ hunk ∈ hunks, hunk.resolvePath home cwd ≠ p) : result.lookup p = changes.lookup p := by
  induction hunks generalizing changes with
  | nil =>
      cases h
      rfl
  | cons hunk hunks ih =>
      obtain ⟨change, -, hrest⟩ := verifyHunks_cons h
      rw [ih hrest fun g hg => hp g (List.mem_cons_of_mem hunk hg)]
      exact AList.lookup_insert_ne (hp hunk List.mem_cons_self).symm

/-- The entry of a source path is the change of the last hunk with that source. -/
theorem lookup_verifyHunks_of_last {hunks : List Hunk} {changes result : Changes} {hunk : Hunk}
    (h : verifyHunks fs textDiff home disk cwd hunks changes = .ok result)
    (hlast : LastForSource home cwd hunks hunk) :
    ∃ change, verifyHunk fs textDiff home disk cwd hunk = .ok change ∧
      result.lookup (hunk.resolvePath home cwd) = some change := by
  obtain ⟨before, after, rfl, hafter⟩ := hlast
  induction before generalizing changes with
  | nil =>
      obtain ⟨change, hchange, hrest⟩ := verifyHunks_cons h
      refine ⟨change, hchange, ?_⟩
      rw [lookup_verifyHunks_of_not_source hrest hafter]
      exact AList.lookup_insert changes
  | cons first before ih =>
      obtain ⟨_, -, hrest⟩ := verifyHunks_cons h
      exact ih hrest

theorem verifyHunk_deleteFile {path : PathBuf} {change : ApplyPatchFileChange}
    (h : verifyHunk fs textDiff home disk cwd (.deleteFile path) = .ok change) :
    ∃ content, fs.readFileText disk ((Hunk.deleteFile path).resolvePath home cwd) = .ok content ∧
      change = .delete content := by
  unfold verifyHunk at h
  dsimp only at h
  split at h
  · rename_i content hread
    exact ⟨content, hread, (Except.ok.inj h).symm⟩
  · cases h

theorem verifyHunk_updateFile {path : PathBuf} {movePath : Option PathBuf}
    {chunks : List UpdateFileChunk} {change : ApplyPatchFileChange}
    (h : verifyHunk fs textDiff home disk cwd (.updateFile path movePath chunks) = .ok change) :
    ∃ applied, deriveNewContentsFromChunks fs disk
        ((Hunk.updateFile path movePath chunks).resolvePath home cwd) chunks = .ok applied ∧
      change = .update (textDiff 1 applied.originalContents applied.newContents)
        ((Hunk.updateFile path movePath chunks).destination home cwd) applied.newContents := by
  unfold verifyHunk unifiedDiffFromChunks unifiedDiffFromChunksWithContext at h
  dsimp only at h
  cases hd : deriveNewContentsFromChunks fs disk
      ((Hunk.updateFile path movePath chunks).resolvePath home cwd) chunks with
  | error err => simp [hd, bind, Except.bind] at h
  | ok applied =>
      simp only [hd, bind, Except.bind, pure, Except.pure, Except.ok.injEq] at h
      refine ⟨applied, rfl, ?_⟩
      rw [← h]
      cases movePath <;> rfl

theorem verifyHunk_movePath {hunk : Hunk} {change : ApplyPatchFileChange}
    (h : verifyHunk fs textDiff home disk cwd hunk = .ok change) :
    change.movePath = hunk.destination home cwd := by
  cases hunk with
  | addFile path contents =>
      cases h
      rfl
  | deleteFile path =>
      obtain ⟨content, -, rfl⟩ := verifyHunk_deleteFile h
      rfl
  | updateFile path movePath chunks =>
      obtain ⟨applied, -, rfl⟩ := verifyHunk_updateFile h
      rfl

/-- An entry of the map comes from the last hunk with its path as source. -/
theorem exists_last_of_lookup {hunks : List Hunk} {result : Changes} {p : AbsolutePathBuf}
    {change : ApplyPatchFileChange}
    (h : verifyHunks fs textDiff home disk cwd hunks ∅ = .ok result)
    (hp : result.lookup p = some change) :
    ∃ hunk, LastForSource home cwd hunks hunk ∧ hunk.resolvePath home cwd = p ∧
      verifyHunk fs textDiff home disk cwd hunk = .ok change := by
  by_cases hsource : ∃ hunk ∈ hunks, hunk.resolvePath home cwd = p
  · obtain ⟨hunk, hlast, rfl⟩ := exists_lastForSource hsource
    obtain ⟨change', hchange, hlookup⟩ := lookup_verifyHunks_of_last h hlast
    rw [hlookup, Option.some.injEq] at hp
    exact ⟨hunk, hlast, rfl, hp ▸ hchange⟩
  · push Not at hsource
    rw [lookup_verifyHunks_of_not_source h hsource] at hp
    simp at hp

theorem verifyApplyPatchArgs_body {args : ApplyPatchArgs} {action : ApplyPatchAction}
    (h : verifyApplyPatchArgs fs textDiff home disk args cwd = .body action) :
    action.cwd = effectiveCwd home args.workdir cwd ∧
      verifyHunks fs textDiff home disk action.cwd args.hunks ∅ = .ok action.changes := by
  unfold verifyApplyPatchArgs at h
  cases hv : verifyHunks fs textDiff home disk (effectiveCwd home args.workdir cwd)
      args.hunks ∅ with
  | error e => simp [hv] at h
  | ok changes =>
      simp only [hv, MaybeApplyPatchVerified.body.injEq] at h
      subst h
      exact ⟨rfl, hv⟩

end Codewith.ApplyPatch
