import Codewith.ApplyPatch.Verify

/-!
# The paths a run touches and the paths that were approved

The approval of a patch looks at the keys of the map of changes and at the
destinations of its moves.  A run is watched by a file system that keeps a log
of the operations it is asked for, so that the paths it writes or removes are
known even when it fails part-way.

A hunk asks for a write or a removal of its source, and, when it moves a file
whose chunks apply, for a write of the destination.  Sources are always keys.
A destination is lost from the map when a later hunk has the same source.
-/

namespace Codewith.ApplyPatch

open Lib

inductive FileOp
  | write (path : AbsolutePathBuf)
  | createDirectory (path : AbsolutePathBuf)
  | remove (path : AbsolutePathBuf)
deriving DecidableEq

/-- The file an operation writes or removes.  Creating the directories above a
file is part of writing that file. -/
def FileOp.touched : FileOp → Option AbsolutePathBuf
  | write path => some path
  | createDirectory _ => none
  | remove path => some path

def touchedPaths (ops : List FileOp) : List AbsolutePathBuf := ops.filterMap FileOp.touched

@[simp] theorem touchedPaths_append (ops ops' : List FileOp) :
    touchedPaths (ops ++ ops') = touchedPaths ops ++ touchedPaths ops' :=
  List.filterMap_append

section

variable {σ : Type}

def logging {A : Type} (op : FileOp) (m : Exec σ IoError A) : Exec (σ × List FileOp) IoError A :=
  fun s => ((m s.1).1, ((m s.1).2, s.2 ++ [op]))

/-- The same file system, with a log of the operations that change it. -/
def logged (fs : FileSystem σ) : FileSystem (σ × List FileOp) where
  getMetadata s path := fs.getMetadata s.1 path
  readFileText s path := fs.readFileText s.1 path
  writeFile path contents := logging (.write path) (fs.writeFile path contents)
  createDirectory path := logging (.createDirectory path) (fs.createDirectory path)
  remove path := logging (.remove path) (fs.remove path)

/-- The operations a run asks for, whether it succeeds or fails part-way. -/
def requestedOps (fs : FileSystem σ) (home : Option PathBuf) (cwd : AbsolutePathBuf)
    (hunks : List Hunk) (disk : σ) : List FileOp :=
  (applyHunksToFiles (logged fs) home cwd hunks (.start (disk, []) .empty)).2.disk.2

end

/-! ## Logging does not change a run -/

section

variable {σ : Type} {fs : FileSystem σ} {home : Option PathBuf} {cwd : AbsolutePathBuf}

def SameDisk (s : σ × List FileOp) (disk : σ) : Prop := s.1 = disk

def SameEngine (s : EngineState (σ × List FileOp)) (t : EngineState σ) : Prop :=
  s.disk.1 = t.disk ∧ s.delta = t.delta ∧ s.affected = t.affected

theorem sim_logging {A : Type} (op : FileOp) (m : Exec σ IoError A) :
    Exec.Sim SameDisk (logging op m) m := by
  rintro ⟨disk, ops⟩ _ rfl
  exact ⟨rfl, rfl⟩

theorem sim_onDisk {E A : Type} {m : Exec (σ × List FileOp) E A} {n : Exec σ E A}
    (h : Exec.Sim SameDisk m n) : Exec.Sim SameEngine (onDisk m) (onDisk n) := by
  rintro s t ⟨hdisk, hdelta, haffected⟩
  obtain ⟨hval, hstate⟩ := h s.disk t.disk hdisk
  exact ⟨hval, hstate, hdelta, haffected⟩

theorem sim_modify_inexact :
    Exec.Sim (E := EngineError) SameEngine (Exec.modify (S := EngineState (σ × List FileOp))
      EngineState.inexact) (Exec.modify EngineState.inexact) := by
  refine Exec.Sim.modify ?_
  rintro s t ⟨hdisk, hdelta, haffected⟩
  exact ⟨hdisk, by simp [EngineState.inexact, hdelta], haffected⟩

theorem sim_noteExistingPathDeltaSupport (path : AbsolutePathBuf) :
    Exec.Sim SameEngine (noteExistingPathDeltaSupport (logged fs) path)
      (noteExistingPathDeltaSupport fs path) := by
  refine Exec.Sim.modify ?_
  rintro ⟨⟨disk, ops⟩, delta, affected⟩ ⟨disk', delta', affected'⟩ ⟨rfl, rfl, rfl⟩
  have hsame : supportsDelta (logged fs) (disk, ops) path = supportsDelta fs disk path := rfl
  cases hplain : supportsDelta fs disk path <;>
    simp [hsame, hplain, SameEngine, EngineState.inexact]

theorem sim_readOptionalFileTextForDelta (path : AbsolutePathBuf) :
    Exec.Sim SameEngine (readOptionalFileTextForDelta (logged fs) path)
      (readOptionalFileTextForDelta fs path) := by
  refine Exec.Sim.bind (sim_noteExistingPathDeltaSupport path) fun _ => ?_
  refine Exec.Sim.bind (Exec.Sim.gets ?_) fun r => ?_
  · rintro s t ⟨hdisk, -, -⟩
    simp [logged, hdisk]
  · cases r with
    | ok content => exact Exec.Sim.pure _
    | error source =>
        by_cases hkind : source.kind = .notFound
        · simpa [hkind] using Exec.Sim.pure none
        · simp only [hkind, if_false]
          exact Exec.Sim.bind sim_modify_inexact fun _ => Exec.Sim.pure _

theorem sim_createParentDirectories (path : AbsolutePathBuf) :
    Exec.Sim SameDisk (createParentDirectories (logged fs) path)
      (createParentDirectories fs path) := by
  unfold createParentDirectories
  cases path.parent with
  | none => exact Exec.Sim.pure _
  | some parent => exact Exec.Sim.mapErr _ (sim_logging _ _)

theorem sim_writeFileWithMissingParentRetry (path : AbsolutePathBuf) (contents : Text) :
    Exec.Sim SameDisk (writeFileWithMissingParentRetry (logged fs) path contents)
      (writeFileWithMissingParentRetry fs path contents) := by
  have hwrite := sim_logging (.write path) (fs.writeFile path contents)
  refine Exec.Sim.bind (Exec.Sim.attempt hwrite) fun r => ?_
  cases r with
  | ok u => exact Exec.Sim.pure _
  | error err =>
      by_cases hkind : err.kind = .notFound
      · simp only [hkind, if_true]
        exact Exec.Sim.bind (sim_createParentDirectories path) fun _ => Exec.Sim.mapErr _ hwrite
      · simp only [hkind, if_false]
        exact Exec.Sim.fail _

theorem sim_tryWrite {m : Exec (σ × List FileOp) EngineError Unit} {n : Exec σ EngineError Unit}
    (h : Exec.Sim SameDisk m n) : Exec.Sim SameEngine (tryWrite m) (tryWrite n) := by
  refine Exec.Sim.bind (sim_onDisk (Exec.Sim.attempt h)) fun r => ?_
  cases r with
  | ok u => exact Exec.Sim.pure _
  | error err => exact Exec.Sim.bind sim_modify_inexact fun _ => Exec.Sim.fail _

theorem sim_ensureNotDirectory (path : AbsolutePathBuf) :
    Exec.Sim SameDisk (ensureNotDirectory (logged fs) path) (ensureNotDirectory fs path) := by
  refine Exec.Sim.bind (Exec.Sim.gets ?_) fun r => ?_
  · rintro s _ rfl
    rfl
  · cases r with
    | error err => exact Exec.Sim.fail _
    | ok metadata =>
        cases hdir : metadata.isDirectory
        · simpa [hdir] using Exec.Sim.pure ()
        · simpa [hdir] using Exec.Sim.fail _

theorem sim_removeOrNote (context : Text) (path : AbsolutePathBuf) (expected : Option Text) :
    Exec.Sim SameEngine (removeOrNote (logged fs) context path expected)
      (removeOrNote fs context path expected) := by
  refine Exec.Sim.bind (Exec.Sim.mapErr _ (sim_onDisk (sim_ensureNotDirectory path))) fun _ => ?_
  refine Exec.Sim.bind (sim_onDisk (Exec.Sim.attempt (sim_logging _ _))) fun r => ?_
  cases r with
  | ok u => exact Exec.Sim.pure _
  | error err =>
      refine Exec.Sim.bind (Exec.Sim.modify ?_) fun _ => Exec.Sim.fail _
      rintro ⟨⟨disk, ops⟩, delta, affected⟩ ⟨disk', delta', affected'⟩ ⟨rfl, rfl, rfl⟩
      exact ⟨rfl, rfl, rfl⟩

/-- Updates of the record that do not look at the file system. -/
theorem sim_modify_record {f : EngineState (σ × List FileOp) → EngineState (σ × List FileOp)}
    {g : EngineState σ → EngineState σ} (hf : ∀ s, (f s).disk = s.disk)
    (hg : ∀ t, (g t).disk = t.disk)
    (h : ∀ s t, SameEngine s t → (f s).delta = (g t).delta ∧ (f s).affected = (g t).affected) :
    Exec.Sim (E := EngineError) SameEngine (Exec.modify f) (Exec.modify g) := by
  refine Exec.Sim.modify fun s t hst => ?_
  obtain ⟨hdelta, haffected⟩ := h s t hst
  refine ⟨?_, hdelta, haffected⟩
  rw [hf, hg]
  exact hst.1

theorem sim_applyMove (affectedPath : PathBuf) (path dest : AbsolutePathBuf)
    (applied : AppliedPatch) :
    Exec.Sim SameEngine (applyMove (logged fs) affectedPath path dest applied)
      (applyMove fs affectedPath path dest applied) := by
  refine Exec.Sim.bind (sim_readOptionalFileTextForDelta _) fun overwritten => ?_
  refine Exec.Sim.bind (sim_tryWrite (sim_writeFileWithMissingParentRetry _ _)) fun _ => ?_
  refine Exec.Sim.bind (Exec.Sim.gets ?_) fun index => ?_
  · rintro s t ⟨-, hdelta, -⟩
    rw [hdelta]
  refine Exec.Sim.bind (sim_modify_record (fun _ => rfl) (fun _ => rfl) ?_) fun _ => ?_
  · rintro s t ⟨-, hdelta, haffected⟩
    simp [EngineState.pushChange, hdelta, haffected]
  refine Exec.Sim.bind (sim_removeOrNote _ _ _) fun _ => ?_
  refine sim_modify_record (fun _ => rfl) (fun _ => rfl) ?_
  rintro s t ⟨-, hdelta, haffected⟩
  simp [EngineState.setChange, EngineState.pushModified, hdelta, haffected]

variable (fs home cwd) in
theorem sim_applyHunk (hunk : Hunk) :
    Exec.Sim SameEngine (applyHunk (logged fs) home cwd hunk) (applyHunk fs home cwd hunk) := by
  cases hunk with
  | addFile path contents =>
      refine Exec.Sim.bind (sim_readOptionalFileTextForDelta _) fun overwritten => ?_
      refine Exec.Sim.bind (sim_tryWrite (sim_writeFileWithMissingParentRetry _ _)) fun _ => ?_
      refine sim_modify_record (fun _ => rfl) (fun _ => rfl) ?_
      rintro s t ⟨-, hdelta, haffected⟩
      simp [EngineState.pushChange, EngineState.pushAdded, hdelta, haffected]
  | deleteFile path =>
      refine Exec.Sim.bind (sim_noteExistingPathDeltaSupport _) fun _ => ?_
      refine Exec.Sim.bind (Exec.Sim.gets ?_) fun deleted => ?_
      · rintro s t ⟨hdisk, -, -⟩
        simp [logged, hdisk]
      refine Exec.Sim.bind (sim_modify_record ?_ ?_ ?_) fun _ => ?_
      · intro s
        cases deleted <;> rfl
      · intro t
        cases deleted <;> rfl
      · rintro s t ⟨-, hdelta, haffected⟩
        cases deleted <;> simp [EngineState.inexact, hdelta, haffected]
      refine Exec.Sim.bind (sim_removeOrNote _ _ _) fun _ => ?_
      refine sim_modify_record ?_ ?_ ?_
      · intro s
        cases deleted <;> rfl
      · intro t
        cases deleted <;> rfl
      · rintro s t ⟨-, hdelta, haffected⟩
        cases deleted <;>
          simp [EngineState.pushChange, EngineState.pushDeleted, hdelta, haffected]
  | updateFile path movePath chunks =>
      refine Exec.Sim.bind (sim_noteExistingPathDeltaSupport _) fun _ => ?_
      refine Exec.Sim.bind (Exec.Sim.gets ?_) fun derived => ?_
      · rintro s t ⟨hdisk, -, -⟩
        simp [deriveNewContentsFromChunks, logged, hdisk]
      cases derived with
      | error err => exact Exec.Sim.fail _
      | ok applied =>
          cases movePath with
          | none =>
              refine Exec.Sim.bind (sim_tryWrite (Exec.Sim.mapErr _ (sim_logging _ _))) fun _ => ?_
              refine sim_modify_record (fun _ => rfl) (fun _ => rfl) ?_
              rintro s t ⟨-, hdelta, haffected⟩
              simp [EngineState.pushChange, EngineState.pushModified, hdelta, haffected]
          | some dest => exact sim_applyMove _ _ _ _

/-- Watching a run does not change what it returns, records or leaves on disk. -/
theorem sim_applyHunksToFiles (hunks : List Hunk) :
    Exec.Sim SameEngine (applyHunksToFiles (logged fs) home cwd hunks)
      (applyHunksToFiles fs home cwd hunks) := by
  unfold applyHunksToFiles
  by_cases hempty : hunks = []
  · simpa [hempty] using Exec.Sim.fail _
  · simp only [hempty, if_false]
    refine Exec.Sim.bind (Exec.Sim.forEach (sim_applyHunk fs home cwd) hunks) fun _ =>
      Exec.Sim.gets ?_
    rintro s t ⟨-, -, haffected⟩
    exact haffected

end

/-! ## The paths one hunk touches -/

section

variable {σ : Type} {fs : FileSystem σ} {home : Option PathBuf} {cwd : AbsolutePathBuf}
  {allowed : Set AbsolutePathBuf}

/-- The log has grown, by operations on allowed paths only. -/
def Grows (allowed : Set AbsolutePathBuf) (s s' : σ × List FileOp) : Prop :=
  ∃ ops, s'.2 = s.2 ++ ops ∧ ∀ p ∈ touchedPaths ops, p ∈ allowed

theorem grows_refl (s : σ × List FileOp) : Grows allowed s s := ⟨[], by simp [touchedPaths]⟩

theorem grows_trans (a b c : σ × List FileOp) (hab : Grows allowed a b) (hbc : Grows allowed b c) :
    Grows allowed a c := by
  obtain ⟨ops, hops, hin⟩ := hab
  obtain ⟨ops', hops', hin'⟩ := hbc
  refine ⟨ops ++ ops', by rw [hops', hops, List.append_assoc], ?_⟩
  intro p hp
  rw [touchedPaths_append, List.mem_append] at hp
  exact hp.elim (hin p) (hin' p)

theorem within_logging {A : Type} {op : FileOp} (m : Exec σ IoError A)
    (hop : ∀ p, op.touched = some p → p ∈ allowed) :
    Exec.Within (Grows allowed) (logging op m) := by
  rintro ⟨disk, ops⟩
  refine ⟨[op], rfl, ?_⟩
  intro p hp
  exact hop p (by simpa [touchedPaths] using hp)

theorem within_writeFile {path : AbsolutePathBuf} (hpath : path ∈ allowed) (contents : Text) :
    Exec.Within (Grows allowed) ((logged fs).writeFile path contents) := by
  refine within_logging _ ?_
  rintro p ⟨⟩
  exact hpath

theorem within_createParentDirectories (path : AbsolutePathBuf) :
    Exec.Within (Grows allowed) (createParentDirectories (logged fs) path) := by
  unfold createParentDirectories
  cases path.parent with
  | none => exact Exec.Within.pure grows_refl _
  | some parent =>
      refine Exec.Within.mapErr _ (within_logging _ ?_)
      rintro p ⟨⟩

theorem within_writeFileWithMissingParentRetry {path : AbsolutePathBuf} (hpath : path ∈ allowed)
    (contents : Text) :
    Exec.Within (Grows allowed) (writeFileWithMissingParentRetry (logged fs) path contents) := by
  have hwrite : Exec.Within (Grows allowed) ((logged fs).writeFile path contents) :=
    within_writeFile hpath contents
  refine Exec.Within.bind grows_trans (Exec.Within.attempt hwrite) fun r => ?_
  cases r with
  | ok u => exact Exec.Within.pure grows_refl _
  | error err =>
      by_cases hkind : err.kind = .notFound
      · simp only [hkind, if_true]
        exact Exec.Within.bind grows_trans (within_createParentDirectories path)
          fun _ => Exec.Within.mapErr _ hwrite
      · simp only [hkind, if_false]
        exact Exec.Within.fail grows_refl _

/-- The same for the engine, whose state carries the log in its disk. -/
def EngineGrows (allowed : Set AbsolutePathBuf) (s s' : EngineState (σ × List FileOp)) : Prop :=
  Grows allowed s.disk s'.disk

theorem engineGrows_refl (s : EngineState (σ × List FileOp)) : EngineGrows allowed s s :=
  grows_refl s.disk

theorem engineGrows_trans (a b c : EngineState (σ × List FileOp)) (hab : EngineGrows allowed a b)
    (hbc : EngineGrows allowed b c) : EngineGrows allowed a c :=
  grows_trans _ _ _ hab hbc

theorem within_onDisk {E A : Type} {m : Exec (σ × List FileOp) E A}
    (h : Exec.Within (Grows allowed) m) : Exec.Within (EngineGrows allowed) (onDisk m) :=
  fun s => h s.disk

theorem within_modify_record {f : EngineState (σ × List FileOp) → EngineState (σ × List FileOp)}
    (hf : ∀ s, (f s).disk = s.disk) :
    Exec.Within (E := EngineError) (EngineGrows allowed) (Exec.modify f) := by
  refine Exec.Within.modify fun s => ?_
  unfold EngineGrows
  rw [hf]
  exact grows_refl s.disk

theorem within_noteExistingPathDeltaSupport (path : AbsolutePathBuf) :
    Exec.Within (EngineGrows allowed) (noteExistingPathDeltaSupport (logged fs) path) := by
  refine within_modify_record fun s => ?_
  split <;> rfl

theorem within_readOptionalFileTextForDelta (path : AbsolutePathBuf) :
    Exec.Within (EngineGrows allowed) (readOptionalFileTextForDelta (logged fs) path) := by
  refine Exec.Within.bind engineGrows_trans (within_noteExistingPathDeltaSupport path) fun _ => ?_
  refine Exec.Within.bind engineGrows_trans (Exec.Within.gets engineGrows_refl _) fun r => ?_
  cases r with
  | ok content => exact Exec.Within.pure engineGrows_refl _
  | error source =>
      by_cases hkind : source.kind = .notFound
      · simpa [hkind] using Exec.Within.pure engineGrows_refl none
      · simp only [hkind, if_false]
        exact Exec.Within.bind engineGrows_trans (within_modify_record fun _ => rfl)
          fun _ => Exec.Within.pure engineGrows_refl _

theorem within_tryWrite {m : Exec (σ × List FileOp) EngineError Unit}
    (h : Exec.Within (Grows allowed) m) : Exec.Within (EngineGrows allowed) (tryWrite m) := by
  refine Exec.Within.bind engineGrows_trans (within_onDisk (Exec.Within.attempt h)) fun r => ?_
  cases r with
  | ok u => exact Exec.Within.pure engineGrows_refl _
  | error err =>
      exact Exec.Within.bind engineGrows_trans (within_modify_record fun _ => rfl)
        fun _ => Exec.Within.fail engineGrows_refl _

theorem within_ensureNotDirectory (path : AbsolutePathBuf) :
    Exec.Within (Grows allowed) (ensureNotDirectory (logged fs) path) := by
  refine Exec.Within.bind grows_trans (Exec.Within.gets grows_refl _) fun r => ?_
  cases r with
  | error err => exact Exec.Within.fail grows_refl _
  | ok metadata =>
      cases hdir : metadata.isDirectory
      · simpa [hdir] using Exec.Within.pure grows_refl ()
      · simpa [hdir] using Exec.Within.fail grows_refl _

theorem within_removeOrNote (context : Text) {path : AbsolutePathBuf} (hpath : path ∈ allowed)
    (expected : Option Text) :
    Exec.Within (EngineGrows allowed) (removeOrNote (logged fs) context path expected) := by
  have hremove : Exec.Within (Grows allowed) ((logged fs).remove path) := by
    refine within_logging _ ?_
    rintro p ⟨⟩
    exact hpath
  refine Exec.Within.bind engineGrows_trans
    (Exec.Within.mapErr _ (within_onDisk (within_ensureNotDirectory path))) fun _ => ?_
  refine Exec.Within.bind engineGrows_trans
    (within_onDisk (Exec.Within.attempt hremove)) fun r => ?_
  cases r with
  | ok u => exact Exec.Within.pure engineGrows_refl _
  | error err =>
      exact Exec.Within.bind engineGrows_trans (within_modify_record fun _ => rfl)
        fun _ => Exec.Within.fail engineGrows_refl _

theorem within_applyAddFile (affectedPath : PathBuf) {path : AbsolutePathBuf}
    (hpath : path ∈ allowed) (contents : Text) :
    Exec.Within (EngineGrows allowed) (applyAddFile (logged fs) affectedPath path contents) := by
  refine Exec.Within.bind engineGrows_trans (within_readOptionalFileTextForDelta _) fun _ => ?_
  refine Exec.Within.bind engineGrows_trans
    (within_tryWrite (within_writeFileWithMissingParentRetry hpath _)) fun _ => ?_
  exact within_modify_record fun _ => rfl

theorem within_applyDeleteFile (affectedPath : PathBuf) {path : AbsolutePathBuf}
    (hpath : path ∈ allowed) :
    Exec.Within (EngineGrows allowed) (applyDeleteFile (logged fs) affectedPath path) := by
  refine Exec.Within.bind engineGrows_trans (within_noteExistingPathDeltaSupport _) fun _ => ?_
  refine Exec.Within.bind engineGrows_trans (Exec.Within.gets engineGrows_refl _) fun deleted => ?_
  refine Exec.Within.bind engineGrows_trans (within_modify_record fun s => ?_) fun _ => ?_
  · split <;> rfl
  refine Exec.Within.bind engineGrows_trans (within_removeOrNote _ hpath _) fun _ => ?_
  refine within_modify_record fun s => ?_
  cases deleted <;> rfl

theorem within_applyUpdateInPlace (affectedPath : PathBuf) {path : AbsolutePathBuf}
    (hpath : path ∈ allowed) (applied : AppliedPatch) :
    Exec.Within (EngineGrows allowed)
      (applyUpdateInPlace (logged fs) affectedPath path applied) := by
  refine Exec.Within.bind engineGrows_trans
    (within_tryWrite (Exec.Within.mapErr _ (within_writeFile hpath _))) fun _ => ?_
  exact within_modify_record fun _ => rfl

theorem within_finishMove (affectedPath : PathBuf) {path : AbsolutePathBuf}
    (hpath : path ∈ allowed) (dest : AbsolutePathBuf) (applied : AppliedPatch)
    (overwritten : Option Text) :
    Exec.Within (EngineGrows allowed)
      (finishMove (logged fs) affectedPath path dest applied overwritten) := by
  refine Exec.Within.bind engineGrows_trans (Exec.Within.gets engineGrows_refl _) fun _ => ?_
  refine Exec.Within.bind engineGrows_trans (within_modify_record fun _ => rfl) fun _ => ?_
  refine Exec.Within.bind engineGrows_trans (within_removeOrNote _ hpath _) fun _ => ?_
  exact within_modify_record fun _ => rfl

variable (fs) in
theorem within_applyMove (affectedPath : PathBuf) {path dest : AbsolutePathBuf}
    (hpath : path ∈ allowed) (hdest : dest ∈ allowed) (applied : AppliedPatch) :
    Exec.Within (EngineGrows allowed) (applyMove (logged fs) affectedPath path dest applied) := by
  refine Exec.Within.bind engineGrows_trans (within_readOptionalFileTextForDelta _) fun _ => ?_
  refine Exec.Within.bind engineGrows_trans
    (within_tryWrite (within_writeFileWithMissingParentRetry hdest _)) fun _ => ?_
  exact within_finishMove affectedPath hpath dest applied _

/-- The log has grown, and the path is among those touched. -/
def Touches (path : AbsolutePathBuf) (s s' : σ × List FileOp) : Prop :=
  ∃ ops, s'.2 = s.2 ++ ops ∧ path ∈ touchedPaths ops

theorem touches_grows {path : AbsolutePathBuf} (a b c : σ × List FileOp) (hab : Touches path a b)
    (hbc : Grows allowed b c) : Touches path a c := by
  obtain ⟨ops, hops, hmem⟩ := hab
  obtain ⟨ops', hops', -⟩ := hbc
  refine ⟨ops ++ ops', by rw [hops', hops, List.append_assoc], ?_⟩
  rw [touchedPaths_append]
  exact List.mem_append_left _ hmem

theorem grows_touches {path : AbsolutePathBuf} (a b c : σ × List FileOp) (hab : Grows allowed a b)
    (hbc : Touches path b c) : Touches path a c := by
  obtain ⟨ops, hops, -⟩ := hab
  obtain ⟨ops', hops', hmem⟩ := hbc
  refine ⟨ops ++ ops', by rw [hops', hops, List.append_assoc], ?_⟩
  rw [touchedPaths_append]
  exact List.mem_append_right _ hmem

/-- A write is logged before anything else happens, whether or not it fails. -/
theorem touches_writeFileWithMissingParentRetry (path : AbsolutePathBuf) (contents : Text) :
    Exec.Within (Touches path) (writeFileWithMissingParentRetry (logged fs) path contents) := by
  have hwrite : Exec.Within (Touches path) ((logged fs).writeFile path contents) :=
    fun _ => ⟨[.write path], rfl, by simp [touchedPaths, FileOp.touched]⟩
  have hmore : Exec.Within (Grows Set.univ) ((logged fs).writeFile path contents) :=
    within_writeFile (Set.mem_univ path) contents
  refine Exec.Within.bind_left (Q := Grows Set.univ) touches_grows (Exec.Within.attempt hwrite)
    fun r => ?_
  cases r with
  | ok u => exact Exec.Within.pure grows_refl _
  | error err =>
      by_cases hkind : err.kind = .notFound
      · simp only [hkind, if_true]
        exact Exec.Within.bind grows_trans (within_createParentDirectories path)
          fun _ => Exec.Within.mapErr _ hmore
      · simp only [hkind, if_false]
        exact Exec.Within.fail grows_refl _

theorem readOptionalFileTextForDelta_ok (path : AbsolutePathBuf) (s : EngineState σ) :
    ∃ content, (readOptionalFileTextForDelta fs path s).1 = .ok content := by
  obtain ⟨content, s', hrun, -⟩ := readOptionalFileTextForDelta_run fs path s
  exact ⟨content, by rw [hrun]⟩

def EngineTouches (path : AbsolutePathBuf) (s s' : EngineState (σ × List FileOp)) : Prop :=
  Touches path s.disk s'.disk

theorem engineTouches_grows {path : AbsolutePathBuf} (a b c : EngineState (σ × List FileOp))
    (hab : EngineTouches path a b) (hbc : EngineGrows Set.univ b c) : EngineTouches path a c :=
  touches_grows _ _ _ hab hbc

theorem engineGrows_touches {path : AbsolutePathBuf} (a b c : EngineState (σ × List FileOp))
    (hab : EngineGrows Set.univ a b) (hbc : EngineTouches path b c) : EngineTouches path a c :=
  grows_touches _ _ _ hab hbc

variable (fs) in
theorem touches_applyMove (affectedPath : PathBuf) (path dest : AbsolutePathBuf)
    (applied : AppliedPatch) :
    Exec.Within (EngineTouches dest)
      (applyMove (logged fs) affectedPath path dest applied) := by
  have hretry : Exec.Within (Touches dest)
      (writeFileWithMissingParentRetry (logged fs) dest applied.newContents) :=
    touches_writeFileWithMissingParentRetry dest applied.newContents
  refine Exec.Within.bind_right engineGrows_touches (within_readOptionalFileTextForDelta dest)
    (readOptionalFileTextForDelta_ok dest) fun _ => ?_
  refine Exec.Within.bind_left engineTouches_grows ?_
    fun _ => within_finishMove affectedPath (Set.mem_univ path) dest applied _
  refine Exec.Within.bind_left engineTouches_grows (fun s => hretry s.disk) fun r => ?_
  cases r with
  | ok u => exact Exec.Within.pure engineGrows_refl _
  | error err =>
      exact Exec.Within.bind engineGrows_trans (within_modify_record fun _ => rfl)
        fun _ => Exec.Within.fail engineGrows_refl _

/-- The hunk writes its destination when it starts on this disk. -/
def MovesTo (fs : FileSystem σ) (home : Option PathBuf) (cwd : AbsolutePathBuf) (disk : σ)
    (hunk : Hunk) (path : AbsolutePathBuf) : Prop :=
  hunk.destination home cwd = some path ∧ hunk.chunksApply fs home cwd disk

theorem applyUpdateFile_run (fs : FileSystem σ) (home : Option PathBuf) (cwd : AbsolutePathBuf)
    (affectedPath : PathBuf) (path : AbsolutePathBuf) (movePath : Option PathBuf)
    (chunks : List UpdateFileChunk) (s : EngineState σ) :
    ∃ s' : EngineState σ, s'.disk = s.disk ∧
      applyUpdateFile fs home cwd affectedPath path movePath chunks s =
        match deriveNewContentsFromChunks fs s.disk path chunks with
        | .error err => (.error (.applyPatch err), s')
        | .ok applied =>
            match movePath with
            | some dest =>
                applyMove fs affectedPath path (.resolvePathAgainstBase home dest cwd) applied s'
            | none => applyUpdateInPlace fs affectedPath path applied s' := by
  refine ⟨if supportsDelta fs s.disk path then s else s.inexact, ?_, ?_⟩
  · split <;> rfl
  · unfold applyUpdateFile noteExistingPathDeltaSupport
    have hdisk : (if supportsDelta fs s.disk path then s else s.inexact).disk = s.disk := by
      split <;> rfl
    rw [Exec.bind_run_ok (Exec.modify_run _ s), Exec.bind_run_ok (Exec.gets_run _ _), hdisk]
    cases deriveNewContentsFromChunks fs s.disk path chunks with
    | error err => rfl
    | ok applied => cases movePath <;> rfl

theorem not_movesTo_of_destination_none {disk : σ} {hunk : Hunk}
    (h : hunk.destination home cwd = none) (p : AbsolutePathBuf) :
    ¬ MovesTo fs home cwd disk hunk p := by
  rintro ⟨hdest, -⟩
  rw [h] at hdest
  cases hdest

/-- One hunk touches its source at most, and its destination exactly when it
moves a file whose chunks apply. -/
def TouchesAsHunk (fs : FileSystem σ) (home : Option PathBuf) (cwd : AbsolutePathBuf)
    (hunk : Hunk) (s s' : EngineState (σ × List FileOp)) : Prop :=
  ∃ ops, s'.disk.2 = s.disk.2 ++ ops ∧
    (∀ p ∈ touchedPaths ops,
      p = hunk.resolvePath home cwd ∨ MovesTo fs home cwd s.disk.1 hunk p) ∧
    ∀ p, MovesTo fs home cwd s.disk.1 hunk p → p ∈ touchedPaths ops

theorem touchesAsHunk_of_grows {hunk : Hunk} {s s' : EngineState (σ × List FileOp)}
    (h : EngineGrows {hunk.resolvePath home cwd} s s')
    (hstay : ∀ p, ¬ MovesTo fs home cwd s.disk.1 hunk p) :
    TouchesAsHunk fs home cwd hunk s s' := by
  obtain ⟨ops, hops, hin⟩ := h
  exact ⟨ops, hops, fun p hp => .inl (hin p hp), fun p hp => (hstay p hp).elim⟩

variable (fs home cwd) in
theorem chunksApply_updateFile (disk : σ) (path : PathBuf) (movePath : Option PathBuf)
    (chunks : List UpdateFileChunk) :
    (Hunk.updateFile path movePath chunks).chunksApply fs home cwd disk =
      (deriveNewContentsFromChunks fs disk
        ((Hunk.updateFile path movePath chunks).resolvePath home cwd) chunks).isOk := rfl

theorem applyUpdateFile_touched (path : PathBuf) (movePath : Option PathBuf)
    (chunks : List UpdateFileChunk) (s : EngineState (σ × List FileOp)) :
    TouchesAsHunk fs home cwd (.updateFile path movePath chunks) s
      (applyHunk (logged fs) home cwd (.updateFile path movePath chunks) s).2 := by
  have happly := chunksApply_updateFile fs home cwd s.disk.1 path movePath chunks
  obtain ⟨s', hdisk, hrun⟩ := applyUpdateFile_run (logged fs) home cwd
    (Hunk.updateFile path movePath chunks).path
    ((Hunk.updateFile path movePath chunks).resolvePath home cwd) movePath chunks s
  rw [applyHunk, hrun]
  cases hderive : deriveNewContentsFromChunks (logged fs) s.disk
      ((Hunk.updateFile path movePath chunks).resolvePath home cwd) chunks with
  | error err =>
      have hfails : deriveNewContentsFromChunks fs s.disk.1
        ((Hunk.updateFile path movePath chunks).resolvePath home cwd) chunks = .error err := hderive
      refine touchesAsHunk_of_grows ⟨[], by simp [hdisk], by simp [touchedPaths]⟩ ?_
      rintro p ⟨-, hp⟩
      rw [happly, hfails] at hp
      cases hp
  | ok applied =>
      have hderives : deriveNewContentsFromChunks fs s.disk.1
        ((Hunk.updateFile path movePath chunks).resolvePath home cwd) chunks =
          .ok applied := hderive
      cases movePath with
      | none =>
          refine touchesAsHunk_of_grows ?_ (not_movesTo_of_destination_none rfl)
          rw [EngineGrows, ← hdisk]
          exact within_applyUpdateInPlace _ (Set.mem_singleton _) applied s'
      | some dest =>
          have hmoves : MovesTo fs home cwd s.disk.1 (.updateFile path (some dest) chunks)
              (.resolvePathAgainstBase home dest cwd) := by
            refine ⟨rfl, ?_⟩
            rw [happly, hderives]
            rfl
          have hgrows := within_applyMove fs (Hunk.updateFile path (some dest) chunks).path
            (Set.mem_insert ((Hunk.updateFile path (some dest) chunks).resolvePath home cwd)
              {.resolvePathAgainstBase home dest cwd})
            (Set.mem_insert_of_mem _ (Set.mem_singleton _)) applied s'
          have htouches := touches_applyMove fs (Hunk.updateFile path (some dest) chunks).path
            ((Hunk.updateFile path (some dest) chunks).resolvePath home cwd)
            (.resolvePathAgainstBase home dest cwd) applied s'
          obtain ⟨ops, hops, hin⟩ := hgrows
          obtain ⟨ops', hops', hmem⟩ := htouches
          obtain rfl : ops' = ops := List.append_cancel_left (hops'.symm.trans hops)
          refine ⟨ops', by rw [← hdisk]; exact hops', ?_, ?_⟩
          · intro p hp
            rcases hin p hp with rfl | rfl
            · exact .inl rfl
            · exact .inr hmoves
          · rintro p ⟨hp, -⟩
            cases hp
            exact hmem

variable (fs home cwd) in
theorem applyHunk_touched (hunk : Hunk) (s : EngineState (σ × List FileOp)) :
    TouchesAsHunk fs home cwd hunk s (applyHunk (logged fs) home cwd hunk s).2 := by
  cases hunk with
  | addFile path contents =>
      refine touchesAsHunk_of_grows ?_ (not_movesTo_of_destination_none rfl)
      exact within_applyAddFile path (Set.mem_singleton _) contents s
  | deleteFile path =>
      refine touchesAsHunk_of_grows ?_ (not_movesTo_of_destination_none rfl)
      exact within_applyDeleteFile path (Set.mem_singleton _) s
  | updateFile path movePath chunks => exact applyUpdateFile_touched path movePath chunks s

/-! ## The paths a run touches -/

variable (fs home cwd) in
/-- The watched loop, judged by the hunks that the unwatched loop starts. -/
theorem forEach_touched (hunks : List Hunk) {s : EngineState (σ × List FileOp)}
    {t : EngineState σ} (hst : SameEngine s t) :
    ∃ ops, (Exec.forEach (applyHunk (logged fs) home cwd) hunks s).2.disk.2 = s.disk.2 ++ ops ∧
      (∀ p ∈ touchedPaths ops, ∃ e ∈ Exec.entered (applyHunk fs home cwd) hunks t,
        p = e.1.resolvePath home cwd ∨ MovesTo fs home cwd e.2.disk e.1 p) ∧
      ∀ e ∈ Exec.entered (applyHunk fs home cwd) hunks t, ∀ p,
        MovesTo fs home cwd e.2.disk e.1 p → p ∈ touchedPaths ops := by
  induction hunks generalizing s t with
  | nil => exact ⟨[], by simp [Exec.forEach, Exec.entered, touchedPaths]⟩
  | cons hunk hunks ih =>
      obtain ⟨ops, hops, hin, hout⟩ := applyHunk_touched fs home cwd hunk s
      obtain ⟨hval, hstate⟩ := sim_applyHunk fs home cwd hunk s t hst
      rw [hst.1] at hin hout
      rcases hrun : applyHunk (logged fs) home cwd hunk s with ⟨r, s'⟩
      rcases hrun' : applyHunk fs home cwd hunk t with ⟨r', t'⟩
      rw [hrun] at hops hval hstate
      rw [hrun'] at hval hstate
      dsimp only at hops hval hstate
      subst hval
      cases r with
      | error e =>
          rw [Exec.forEach_cons, Exec.bind_run_error hrun, Exec.entered_cons_error hrun']
          exact ⟨ops, hops, by simpa using hin, by simpa using hout⟩
      | ok u =>
          rw [Exec.forEach_cons, Exec.bind_run_ok hrun, Exec.entered_cons_ok hrun']
          obtain ⟨more, hmore, hinMore, houtMore⟩ := ih hstate
          refine ⟨ops ++ more, by rw [hmore, hops, List.append_assoc], ?_, ?_⟩
          · intro p hp
            rw [touchedPaths_append, List.mem_append] at hp
            rcases hp with hp | hp
            · exact ⟨(hunk, t), List.mem_cons_self, hin p hp⟩
            · obtain ⟨e, he, hep⟩ := hinMore p hp
              exact ⟨e, List.mem_cons_of_mem _ he, hep⟩
          · intro e he p hp
            rw [touchedPaths_append, List.mem_append]
            rcases List.mem_cons.1 he with rfl | he
            · exact .inl (hout p hp)
            · exact .inr (houtMore e he p hp)

variable (fs home cwd) in
theorem requestedOps_touched (hunks : List Hunk) (disk : σ) :
    (∀ p ∈ touchedPaths (requestedOps fs home cwd hunks disk),
      ∃ e ∈ startedHunks fs home cwd hunks disk,
        p = e.1.resolvePath home cwd ∨ MovesTo fs home cwd e.2.disk e.1 p) ∧
    ∀ e ∈ startedHunks fs home cwd hunks disk, ∀ p,
      MovesTo fs home cwd e.2.disk e.1 p →
        p ∈ touchedPaths (requestedOps fs home cwd hunks disk) := by
  have hstart : SameEngine (.start (disk, []) .empty) (EngineState.start disk .empty) :=
    ⟨rfl, rfl, rfl⟩
  obtain ⟨ops, hops, hin, hout⟩ := forEach_touched fs home cwd hunks hstart
  have hall : requestedOps fs home cwd hunks disk = ops := by
    rw [requestedOps, applyHunksToFiles_state, hops]
    rfl
  rw [hall]
  exact ⟨hin, hout⟩

/-! ## What the approval covers -/

/-- The paths that the safety check of an action looks at: the keys of the map
and the destinations of its updates. -/
def approvedPaths (action : ApplyPatchAction) : List AbsolutePathBuf :=
  action.changes.keys ++ action.changes.entries.filterMap fun entry => entry.2.movePath

theorem mem_approvedPaths {action : ApplyPatchAction} {p : AbsolutePathBuf} :
    p ∈ approvedPaths action ↔ p ∈ action.changes.keys ∨
      ∃ q change, action.changes.lookup q = some change ∧ change.movePath = some p := by
  simp only [approvedPaths, List.mem_append, List.mem_filterMap, Sigma.exists,
    ← AList.mem_lookup_iff, Option.mem_def]

/-- A destination that is still visible in the map of changes: it is the source
of a hunk, or the destination of the last hunk for some source. -/
def DestinationVisible (home : Option PathBuf) (cwd : AbsolutePathBuf) (hunks : List Hunk)
    (p : AbsolutePathBuf) : Prop :=
  (∃ hunk ∈ hunks, hunk.resolvePath home cwd = p) ∨
    ∃ hunk, LastForSource home cwd hunks hunk ∧ hunk.destination home cwd = some p

/-- Every move that a run carries out has a visible destination. -/
def MovesVisible (fs : FileSystem σ) (home : Option PathBuf) (cwd : AbsolutePathBuf)
    (hunks : List Hunk) (disk : σ) : Prop :=
  ∀ e ∈ startedHunks fs home cwd hunks disk, ∀ p,
    MovesTo fs home cwd e.2.disk e.1 p → DestinationVisible home cwd hunks p

variable {textDiff : Nat → Text → Text → Text} {disk : σ}

theorem mem_approvedPaths_iff_visible {hunks : List Hunk} {action : ApplyPatchAction}
    (h : verifyHunks fs textDiff home disk cwd hunks ∅ = .ok action.changes)
    (p : AbsolutePathBuf) : p ∈ approvedPaths action ↔ DestinationVisible home cwd hunks p := by
  rw [mem_approvedPaths]
  constructor
  · rintro (hkey | ⟨q, change, hlookup, hmove⟩)
    · obtain ⟨change, hchange⟩ := Option.isSome_iff_exists.1 (AList.lookup_isSome.2 hkey)
      obtain ⟨hunk, ⟨before, after, rfl, -⟩, hp, -⟩ := exists_last_of_lookup h hchange
      exact .inl ⟨hunk, by simp, hp⟩
    · obtain ⟨hunk, hlast, -, hchange⟩ := exists_last_of_lookup h hlookup
      exact .inr ⟨hunk, hlast, (verifyHunk_movePath hchange).symm.trans hmove⟩
  · rintro (hsource | ⟨hunk, hlast, hdest⟩)
    · obtain ⟨hunk, hlast, rfl⟩ := exists_lastForSource hsource
      obtain ⟨change, -, hlookup⟩ := lookup_verifyHunks_of_last h hlast
      exact .inl (AList.lookup_isSome.1 (by simp [hlookup]))
    · obtain ⟨change, hchange, hlookup⟩ := lookup_verifyHunks_of_last h hlast
      exact .inr ⟨_, change, hlookup, (verifyHunk_movePath hchange).trans hdest⟩

/-- Every path that a run of a verified patch writes or removes was shown for
approval exactly when each move it carries out has a visible destination. -/
theorem touched_covered_iff_movesVisible {args : ApplyPatchArgs} {action : ApplyPatchAction}
    (hverify : verifyApplyPatchArgs fs textDiff home disk args cwd = .body action) :
    (∀ p ∈ touchedPaths (requestedOps fs home action.cwd args.hunks disk),
        p ∈ approvedPaths action) ↔
      MovesVisible fs home action.cwd args.hunks disk := by
  obtain ⟨-, hchanges⟩ := verifyApplyPatchArgs_body hverify
  obtain ⟨hin, hout⟩ := requestedOps_touched fs home action.cwd args.hunks disk
  have hcovered := mem_approvedPaths_iff_visible hchanges
  constructor
  · intro hall e he p hp
    exact (hcovered p).1 (hall p (hout e he p hp))
  · intro hvisible p hp
    rw [hcovered]
    obtain ⟨e, he, rfl | hmoves⟩ := hin p hp
    · exact .inl ⟨e.1, Exec.mem_of_mem_entered he, rfl⟩
    · exact hvisible e he p hmoves

end

section

def replaceOne (line : Text) : List UpdateFileChunk := [⟨none, ["1".toList], [line], false⟩]

def renameArgs : ApplyPatchArgs where
  patch := renameText
  hunks := [.updateFile "a".toList (some "x".toList) (replaceOne "2".toList)]
  workdir := none
  environmentId := none

def renameAction : ApplyPatchAction where
  changes := AList.singleton pathA (.update [] (some pathX) "2\n".toList)
  patch := renameText
  cwd := .root

theorem touched_covered_iff_movesVisible_rename :
    parsePatch renameText = .ok renameArgs ∧
      ((∀ p ∈ touchedPaths
          (requestedOps memoryFileSystem none renameAction.cwd renameArgs.hunks diskWithA),
          p ∈ approvedPaths renameAction) ↔
        MovesVisible memoryFileSystem none renameAction.cwd renameArgs.hunks diskWithA) := by
  have hverify : verifyApplyPatchArgs memoryFileSystem (fun _ _ _ => []) none diskWithA
      renameArgs .root = .body renameAction := rfl
  exact ⟨by decide +kernel, touched_covered_iff_movesVisible hverify⟩

/-- A patch that renames `a` to `x` and then updates `a` once more. -/
def renameThenUpdateText : Text :=
  ("*** Begin Patch\n*** Update File: a\n*** Move to: x\n@@\n-1\n+2\n" ++
    "*** Update File: a\n@@\n-1\n+3\n*** End Patch").toList

def renameThenUpdateArgs : ApplyPatchArgs where
  patch := renameThenUpdateText
  hunks := [.updateFile "a".toList (some "x".toList) (replaceOne "2".toList),
    .updateFile "a".toList none (replaceOne "3".toList)]
  workdir := none
  environmentId := none

def renameThenUpdateAction : ApplyPatchAction where
  changes := AList.singleton pathA (.update [] none "3\n".toList)
  patch := renameThenUpdateText
  cwd := .root

/-- The second hunk takes the rename out of the map, but the run still writes
the destination before it fails. -/
theorem renamed_destination_not_approved :
    parsePatch renameThenUpdateText = .ok renameThenUpdateArgs ∧
      verifyApplyPatchArgs memoryFileSystem (fun _ _ _ => []) none diskWithA
        renameThenUpdateArgs .root = .body renameThenUpdateAction ∧
      ¬ ∀ p ∈ touchedPaths (requestedOps memoryFileSystem none renameThenUpdateAction.cwd
          renameThenUpdateArgs.hunks diskWithA), p ∈ approvedPaths renameThenUpdateAction := by
  refine ⟨by decide +kernel, rfl, ?_⟩
  intro hall
  have htouched : pathX ∈ touchedPaths (requestedOps memoryFileSystem none
      renameThenUpdateAction.cwd renameThenUpdateArgs.hunks diskWithA) := by
    decide +kernel
  have hmissing : pathX ∉ approvedPaths renameThenUpdateAction := by decide +kernel
  exact hmissing (hall pathX htouched)

end

end Codewith.ApplyPatch
