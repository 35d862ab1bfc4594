import Codewith.Lib.Exec
import Codewith.ApplyPatch.Parser

/-!
# Applying hunks to a file system

The file system is any implementation of the executor's interface: reads are
functions of its state, while a write, a removal and a directory creation may
fail and leave any state behind.  The engine applies the hunks in order and
stops at the first failure, accumulating the changes it committed and whether
that record is still exact.
-/

namespace Codewith.ApplyPatch

open Lib

inductive ErrorKind
  | notFound
  | invalidInput
  | other
deriving DecidableEq, Repr

structure IoError where
  kind : ErrorKind
  message : Text
deriving DecidableEq, Repr

structure FileMetadata where
  isDirectory : Bool
  isFile : Bool
  isSymlink : Bool
deriving DecidableEq, Repr

/-- The part of the executor's file system that patches use, under a fixed
sandbox.  Directories are created recursively; removals are not recursive. -/
structure FileSystem (σ : Type) where
  getMetadata : σ → AbsolutePathBuf → Except IoError FileMetadata
  readFileText : σ → AbsolutePathBuf → Except IoError Text
  writeFile : AbsolutePathBuf → Text → Exec σ IoError Unit
  createDirectory : AbsolutePathBuf → Exec σ IoError Unit
  remove : AbsolutePathBuf → Exec σ IoError Unit

def noSuchFile : IoError := ⟨.notFound, "No such file or directory".toList⟩

/-- A flat file system in memory, on which no write fails. -/
def memoryFileSystem : FileSystem (AbsolutePathBuf → Option Text) where
  getMetadata disk path :=
    match disk path with
    | some _ => .ok ⟨false, true, false⟩
    | none => .error noSuchFile
  readFileText disk path :=
    match disk path with
    | some content => .ok content
    | none => .error noSuchFile
  writeFile path contents := fun disk => (.ok (), Function.update disk path (some contents))
  createDirectory _ := fun disk => (.ok (), disk)
  remove path := fun disk =>
    match disk path with
    | some _ => (.ok (), Function.update disk path none)
    | none => (.error noSuchFile, disk)

def pathA : AbsolutePathBuf := AbsolutePathBuf.root.join none "a".toList

def pathX : AbsolutePathBuf := AbsolutePathBuf.root.join none "x".toList

/-- A disk that holds the line `1` in the file `/a`. -/
def diskWithA : AbsolutePathBuf → Option Text :=
  Function.update (fun _ => none) pathA (some "1\n".toList)

/-- A patch that renames `a` to `x` and changes its line. -/
def renameText : Text :=
  "*** Begin Patch\n*** Update File: a\n*** Move to: x\n@@\n-1\n+2\n*** End Patch".toList

inductive ApplyPatchError
  | parseError (source : ParseError)
  | ioError (context : Text) (source : IoError)
  | computeReplacements (message : Text)
deriving DecidableEq, Repr

/-- Errors inside the engine, as they are wrapped on the way out. -/
inductive EngineError
  | message (text : Text)
  | io (source : IoError)
  | applyPatch (source : ApplyPatchError)
  | context (text : Text) (source : EngineError)
deriving DecidableEq, Repr

inductive AppliedPatchFileChange
  | add (content : Text) (overwrittenContent : Option Text)
  | delete (content : Text)
  | update (movePath : Option AbsolutePathBuf) (oldContent : Text)
      (overwrittenMoveContent : Option Text) (newContent : Text)
deriving DecidableEq

structure AppliedPatchChange where
  path : AbsolutePathBuf
  change : AppliedPatchFileChange
deriving DecidableEq

/-- The textual changes a run committed, in order. -/
structure AppliedPatchDelta where
  changes : List AppliedPatchChange
  exact : Bool
deriving DecidableEq

def AppliedPatchDelta.empty : AppliedPatchDelta := ⟨[], true⟩

/-- The paths a run affected, in the spelling of the patch. -/
structure AffectedPaths where
  added : List PathBuf
  modified : List PathBuf
  deleted : List PathBuf
deriving DecidableEq, Repr

def AffectedPaths.empty : AffectedPaths := ⟨[], [], []⟩

structure EngineState (σ : Type) where
  disk : σ
  delta : AppliedPatchDelta
  affected : AffectedPaths

namespace EngineState

variable {σ : Type}

def start (disk : σ) (delta : AppliedPatchDelta) : EngineState σ := ⟨disk, delta, .empty⟩

def setDisk (s : EngineState σ) (disk : σ) : EngineState σ := { s with disk := disk }

def inexact (s : EngineState σ) : EngineState σ :=
  { s with delta := { s.delta with exact := false } }

def andExact (b : Bool) (s : EngineState σ) : EngineState σ :=
  { s with delta := { s.delta with exact := s.delta.exact && b } }

def pushChange (path : AbsolutePathBuf) (change : AppliedPatchFileChange) (s : EngineState σ) :
    EngineState σ :=
  { s with delta := { s.delta with changes := s.delta.changes ++ [⟨path, change⟩] } }

def setChange (index : Nat) (path : AbsolutePathBuf) (change : AppliedPatchFileChange)
    (s : EngineState σ) : EngineState σ :=
  { s with delta := { s.delta with changes := s.delta.changes.set index ⟨path, change⟩ } }

def pushAdded (path : PathBuf) (s : EngineState σ) : EngineState σ :=
  { s with affected := { s.affected with added := s.affected.added ++ [path] } }

def pushModified (path : PathBuf) (s : EngineState σ) : EngineState σ :=
  { s with affected := { s.affected with modified := s.affected.modified ++ [path] } }

def pushDeleted (path : PathBuf) (s : EngineState σ) : EngineState σ :=
  { s with affected := { s.affected with deleted := s.affected.deleted ++ [path] } }

end EngineState

/-- The contents of a file before and after an update. -/
structure AppliedPatch where
  originalContents : Text
  newContents : Text
deriving DecidableEq, Repr

section

variable {σ : Type} (fs : FileSystem σ)

def deriveNewContentsFromChunks (disk : σ) (path : AbsolutePathBuf)
    (chunks : List UpdateFileChunk) : Except ApplyPatchError AppliedPatch :=
  match fs.readFileText disk path with
  | .error err =>
      .error (.ioError ("Failed to read file to update ".toList ++ path.display) err)
  | .ok originalContents =>
      match newContentsFromChunks path chunks originalContents with
      | .error err => .error (.computeReplacements err.message)
      | .ok newContents => .ok ⟨originalContents, newContents⟩

/-- The chunks of an update hunk apply to the file as it is on this disk. -/
def Hunk.chunksApply (home : Option PathBuf) (cwd : AbsolutePathBuf) (disk : σ) (hunk : Hunk) :
    Bool :=
  match hunk with
  | updateFile _ _ chunks =>
      (deriveNewContentsFromChunks fs disk (hunk.resolvePath home cwd) chunks).isOk
  | _ => false

/-- The paths a hunk names. -/
def Hunk.paths (home : Option PathBuf) (cwd : AbsolutePathBuf) (hunk : Hunk) :
    List AbsolutePathBuf :=
  hunk.resolvePath home cwd :: (hunk.destination home cwd).toList

/-- The paths that a hunk writes or removes when it is started on this disk: none for an update
whose chunks do not apply. -/
def Hunk.changedPaths (home : Option PathBuf) (cwd : AbsolutePathBuf) (disk : σ) (hunk : Hunk) :
    List AbsolutePathBuf :=
  match hunk with
  | updateFile _ _ _ => if hunk.chunksApply fs home cwd disk then hunk.paths home cwd else []
  | _ => hunk.paths home cwd

abbrev Engine (σ A : Type) : Type := Exec (EngineState σ) EngineError A

def onDisk {E A : Type} (m : Exec σ E A) : Exec (EngineState σ) E A :=
  Exec.zoom EngineState.disk EngineState.setDisk m

def withContext {S A : Type} (text : Text) (m : Exec S IoError A) : Exec S EngineError A :=
  Exec.mapErr (fun err => .context text (.io err)) m

/-- The path is a plain file or nothing at all. -/
def supportsDelta (disk : σ) (path : AbsolutePathBuf) : Bool :=
  match fs.getMetadata disk path with
  | .ok metadata => metadata.isFile && !metadata.isSymlink
  | .error source => source.kind = .notFound

def noteExistingPathDeltaSupport (path : AbsolutePathBuf) : Engine σ Unit :=
  Exec.modify fun s => if supportsDelta fs s.disk path then s else s.inexact

def readOptionalFileTextForDelta (path : AbsolutePathBuf) : Engine σ (Option Text) := do
  noteExistingPathDeltaSupport fs path
  match ← Exec.gets fun s => fs.readFileText s.disk path with
  | .ok content => return some content
  | .error source =>
      if source.kind = .notFound then return none
      else do
        Exec.modify EngineState.inexact
        return none

def ensureNotDirectory (path : AbsolutePathBuf) : Exec σ IoError Unit := do
  match ← Exec.gets fun disk => fs.getMetadata disk path with
  | .error err => Exec.fail err
  | .ok metadata =>
      if metadata.isDirectory then
        Exec.fail ⟨.invalidInput, "path is a directory".toList⟩
      else return ()

def removeFailureWasSideEffectFree (disk : σ) (path : AbsolutePathBuf)
    (expectedContent : Option Text) : Bool :=
  match expectedContent, fs.readFileText disk path with
  | some expectedContent, .ok content => content = expectedContent
  | _, _ => false

def writeFailure (path : AbsolutePathBuf) : Text := "Failed to write file ".toList ++ path.display

def createParentDirectories (path : AbsolutePathBuf) : Exec σ EngineError Unit :=
  match path.parent with
  | some parent =>
      withContext ("Failed to create parent directories for ".toList ++ path.display)
        (fs.createDirectory parent)
  | none => pure ()

def writeFileWithMissingParentRetry (path : AbsolutePathBuf) (contents : Text) :
    Exec σ EngineError Unit := do
  match ← Exec.attempt (fs.writeFile path contents) with
  | .ok () => return ()
  | .error err =>
      if err.kind = .notFound then do
        createParentDirectories fs path
        withContext (writeFailure path) (fs.writeFile path contents)
      else Exec.fail (.context (writeFailure path) (.io err))

/-- A failed write may already have changed its target, so the record of the
run is no longer exact. -/
def tryWrite (m : Exec σ EngineError Unit) : Engine σ Unit := do
  match ← onDisk (Exec.attempt m) with
  | .ok () => return ()
  | .error err => do
      Exec.modify EngineState.inexact
      Exec.fail err

/-- A removal that fails keeps the record exact only when the file still reads
as before. -/
def removeOrNote (context : Text) (path : AbsolutePathBuf) (expectedContent : Option Text) :
    Engine σ Unit := do
  withContext context (onDisk (ensureNotDirectory fs path))
  match ← onDisk (Exec.attempt (fs.remove path)) with
  | .ok () => return ()
  | .error err => do
      Exec.modify fun s =>
        s.andExact (removeFailureWasSideEffectFree fs s.disk path expectedContent)
      Exec.fail (.context context (.io err))

def applyAddFile (affectedPath : PathBuf) (path : AbsolutePathBuf) (contents : Text) :
    Engine σ Unit := do
  let overwrittenContent ← readOptionalFileTextForDelta fs path
  tryWrite (writeFileWithMissingParentRetry fs path contents)
  Exec.modify fun s =>
    (s.pushChange path (.add contents overwrittenContent)).pushAdded affectedPath

def applyDeleteFile (affectedPath : PathBuf) (path : AbsolutePathBuf) : Engine σ Unit := do
  noteExistingPathDeltaSupport fs path
  let deletedContent ← Exec.gets fun s => (fs.readFileText s.disk path).toOption
  Exec.modify fun s => if deletedContent.isNone then s.inexact else s
  removeOrNote fs ("Failed to delete file ".toList ++ path.display) path deletedContent
  Exec.modify fun s =>
    let s := match deletedContent with
      | some content => s.pushChange path (.delete content)
      | none => s
    s.pushDeleted affectedPath

def applyUpdateInPlace (affectedPath : PathBuf) (path : AbsolutePathBuf)
    (applied : AppliedPatch) : Engine σ Unit := do
  tryWrite (withContext (writeFailure path) (fs.writeFile path applied.newContents))
  Exec.modify fun s =>
    (s.pushChange path
      (.update none applied.originalContents none applied.newContents)).pushModified affectedPath

/-- What is left of a move once the destination has been written. -/
def finishMove (affectedPath : PathBuf) (path dest : AbsolutePathBuf) (applied : AppliedPatch)
    (overwrittenMoveContent : Option Text) : Engine σ Unit := do
  let destWriteChangeIndex ← Exec.gets fun s => s.delta.changes.length
  Exec.modify (EngineState.pushChange dest (.add applied.newContents overwrittenMoveContent))
  removeOrNote fs ("Failed to remove original ".toList ++ path.display) path
    (some applied.originalContents)
  -- With both halves done, the write of the destination becomes a move.
  Exec.modify fun s =>
    (s.setChange destWriteChangeIndex path
      (.update (some dest) applied.originalContents overwrittenMoveContent
        applied.newContents)).pushModified affectedPath

def applyMove (affectedPath : PathBuf) (path dest : AbsolutePathBuf) (applied : AppliedPatch) :
    Engine σ Unit := do
  let overwrittenMoveContent ← readOptionalFileTextForDelta fs dest
  tryWrite (writeFileWithMissingParentRetry fs dest applied.newContents)
  finishMove fs affectedPath path dest applied overwrittenMoveContent

def applyUpdateFile (home : Option PathBuf) (cwd : AbsolutePathBuf) (affectedPath : PathBuf)
    (path : AbsolutePathBuf) (movePath : Option PathBuf) (chunks : List UpdateFileChunk) :
    Engine σ Unit := do
  noteExistingPathDeltaSupport fs path
  match ← Exec.gets fun s => deriveNewContentsFromChunks fs s.disk path chunks with
  | .error err => Exec.fail (.applyPatch err)
  | .ok applied =>
      match movePath with
      | some dest =>
          applyMove fs affectedPath path (.resolvePathAgainstBase home dest cwd) applied
      | none => applyUpdateInPlace fs affectedPath path applied

def applyHunk (home : Option PathBuf) (cwd : AbsolutePathBuf) (hunk : Hunk) : Engine σ Unit :=
  match hunk with
  | .addFile _ contents => applyAddFile fs hunk.path (hunk.resolvePath home cwd) contents
  | .deleteFile _ => applyDeleteFile fs hunk.path (hunk.resolvePath home cwd)
  | .updateFile _ movePath chunks =>
      applyUpdateFile fs home cwd hunk.path (hunk.resolvePath home cwd) movePath chunks

def applyHunksToFiles (home : Option PathBuf) (cwd : AbsolutePathBuf) (hunks : List Hunk) :
    Engine σ AffectedPaths := do
  if hunks = [] then Exec.fail (.message "No files were modified.".toList)
  else do
    Exec.forEach (applyHunk fs home cwd) hunks
    Exec.gets EngineState.affected

/-- The hunks a run starts, each with the engine's state at that point. -/
def startedHunks (home : Option PathBuf) (cwd : AbsolutePathBuf) (hunks : List Hunk) (disk : σ) :
    List (Hunk × EngineState σ) :=
  Exec.entered (applyHunk fs home cwd) hunks (.start disk .empty)

end

/-! ## Single steps -/

section

variable {σ : Type} {fs : FileSystem σ}

/-- What is known to be read at a path: a text, or that there is no file. -/
def ReadsAs (fs : FileSystem σ) (disk : σ) (p : AbsolutePathBuf) (content : Option Text) : Prop :=
  match fs.readFileText disk p with
  | .ok text => content = some text
  | .error err => err.kind = .notFound ∧ content = none

/-- A step that only looks at the disk, and keeps the record exact only if `P`. -/
structure Looks (s s' : EngineState σ) (P : Prop) : Prop where
  disk : s'.disk = s.disk
  changes : s'.delta.changes = s.delta.changes
  affected : s'.affected = s.affected
  exact : s'.delta.exact = true → s.delta.exact = true ∧ P

variable (fs) in
theorem noteExistingPathDeltaSupport_run (p : AbsolutePathBuf) (s : EngineState σ) :
    ∃ s', noteExistingPathDeltaSupport fs p s = (.ok (), s') ∧
      Looks s s' (supportsDelta fs s.disk p = true) := by
  refine ⟨if supportsDelta fs s.disk p then s else s.inexact, rfl, ?_⟩
  cases supportsDelta fs s.disk p
  · exact ⟨rfl, rfl, rfl, fun h => by simp [EngineState.inexact] at h⟩
  · exact ⟨rfl, rfl, rfl, fun h => ⟨h, rfl⟩⟩

variable (fs) in
theorem readOptionalFileTextForDelta_run (p : AbsolutePathBuf) (s : EngineState σ) :
    ∃ content s', readOptionalFileTextForDelta fs p s = (.ok content, s') ∧
      Looks s s' (supportsDelta fs s.disk p = true ∧ ReadsAs fs s.disk p content) := by
  obtain ⟨s₁, hnote, hlooks⟩ := noteExistingPathDeltaSupport_run fs p s
  unfold readOptionalFileTextForDelta
  rw [Exec.bind_run_ok hnote, Exec.bind_run_ok (Exec.gets_run _ s₁), hlooks.disk]
  unfold ReadsAs
  cases hread : fs.readFileText s.disk p with
  | ok content =>
      refine ⟨some content, s₁, rfl, hlooks.disk, hlooks.changes, hlooks.affected, ?_⟩
      intro h
      obtain ⟨hexact, hplain⟩ := hlooks.exact h
      exact ⟨hexact, hplain, rfl⟩
  | error err =>
      by_cases hkind : err.kind = .notFound
      · refine ⟨none, s₁, by simp [hkind], hlooks.disk, hlooks.changes, hlooks.affected, ?_⟩
        intro h
        obtain ⟨hexact, hplain⟩ := hlooks.exact h
        exact ⟨hexact, hplain, hkind, rfl⟩
      · refine ⟨none, s₁.inexact, by simp [hkind, Exec.bind_run], hlooks.disk, hlooks.changes,
          hlooks.affected, ?_⟩
        intro h
        simp [EngineState.inexact] at h

variable (fs) in
/-- Apart from the empty patch, which fails at once, a run is its loop. -/
theorem applyHunksToFiles_state (home : Option PathBuf) (cwd : AbsolutePathBuf)
    (hunks : List Hunk) (s : EngineState σ) :
    (applyHunksToFiles fs home cwd hunks s).2 =
      (Exec.forEach (applyHunk fs home cwd) hunks s).2 := by
  unfold applyHunksToFiles
  by_cases hempty : hunks = []
  · subst hempty
    rfl
  · simp only [hempty, if_false]
    rcases hrun : Exec.forEach (applyHunk fs home cwd) hunks s with ⟨_ | _, s'⟩
    · rw [Exec.bind_run_error hrun]
    · rw [Exec.bind_run_ok hrun, Exec.gets_run]

end

end Codewith.ApplyPatch
