import Codewith.ApplyPatch.Record

/-!
# Moved files

A move writes the destination and then removes the source.  The destination is there
afterwards exactly if it is not reached through the directory entry that is removed, as it is
if the two paths coincide once they are resolved, or if one is a link to the other.
-/

namespace Codewith.ApplyPatch

open Lib

/-- How files are reached: `through disk p q` says that the path `p` leads over the directory
entry of `q`.  A file that has been written is read back.  A removal takes away one entry, and
with it every path that leads over it.  Writing a file or creating a directory changes no
entry that is there. -/
structure EntryLaws {σ : Type} (fs : FileSystem σ)
    (through : σ → AbsolutePathBuf → AbsolutePathBuf → Prop) : Prop where
  through_self : ∀ disk p, through disk p p
  write_ok : ∀ disk disk' p content, fs.writeFile p content disk = (.ok (), disk') →
    fs.readFileText disk' p = .ok content ∧ through disk' = through disk
  write_notFound : ∀ disk disk' p content err, fs.writeFile p content disk = (.error err, disk') →
    err.kind = .notFound → through disk' = through disk
  createDirectory_ok : ∀ disk disk' p, fs.createDirectory p disk = (.ok (), disk') →
    through disk' = through disk
  remove_through : ∀ disk disk' p q, fs.remove q disk = (.ok (), disk') → through disk p q →
    ∀ content, fs.readFileText disk' p ≠ .ok content
  remove_other : ∀ disk disk' p q, fs.remove q disk = (.ok (), disk') → ¬ through disk p q →
    fs.readFileText disk' p = fs.readFileText disk p

section

variable {σ : Type} {fs : FileSystem σ} {through : σ → AbsolutePathBuf → AbsolutePathBuf → Prop}
  {home : Option PathBuf} {cwd : AbsolutePathBuf}

theorem writeFileWithMissingParentRetry_entries (hlaws : EntryLaws fs through) {disk disk' : σ}
    {p : AbsolutePathBuf} {content : Text}
    (hrun : writeFileWithMissingParentRetry fs p content disk = (.ok (), disk')) :
    fs.readFileText disk' p = .ok content ∧ through disk' = through disk := by
  unfold writeFileWithMissingParentRetry at hrun
  rw [Exec.bind_run_ok (Exec.attempt_run _ disk)] at hrun
  rcases hwrite : fs.writeFile p content disk with ⟨_ | _, disk₁⟩
  · rename_i err
    rw [hwrite] at hrun
    by_cases hkind : err.kind = .notFound
    · have h₁ := hlaws.write_notFound disk disk₁ p content err hwrite hkind
      simp only [hkind, if_true] at hrun
      obtain ⟨_, disk₂, hparents, hsecond⟩ := Exec.exists_of_bind_run_ok hrun
      have h₂ : through disk₂ = through disk₁ := by
        unfold createParentDirectories at hparents
        cases hparent : p.parent with
        | none =>
            rw [hparent] at hparents
            cases hparents
            rfl
        | some parent =>
            rw [hparent] at hparents
            exact hlaws.createDirectory_ok disk₁ disk₂ parent (Exec.of_mapErr_run_ok hparents)
      obtain ⟨hread, h₃⟩ := hlaws.write_ok disk₂ disk' p content (Exec.of_mapErr_run_ok hsecond)
      exact ⟨hread, by rw [h₃, h₂, h₁]⟩
    · simp only [hkind, if_false] at hrun
      cases hrun
  · rw [hwrite] at hrun
    obtain rfl : disk₁ = disk' := congrArg Prod.snd hrun
    exact hlaws.write_ok disk disk₁ p content hwrite

theorem finishMove_ok {affectedPath : PathBuf} {source dest : AbsolutePathBuf}
    {applied : AppliedPatch} {overwritten : Option Text} {s s' : EngineState σ}
    (hrun : finishMove fs affectedPath source dest applied overwritten s = (.ok (), s')) :
    fs.remove source s.disk = (.ok (), s'.disk) := by
  unfold finishMove at hrun
  rw [Exec.bind_run_ok (Exec.gets_run _ s), Exec.bind_run_ok (Exec.modify_run _ s)] at hrun
  rcases removeOrNote_run fs ("Failed to remove original ".toList ++ source.display) source
      (some applied.originalContents)
      (s.pushChange dest (.add applied.newContents overwritten)) with
    ⟨err, hfail⟩ | ⟨disk', hremove, hok⟩ | ⟨err, hfail⟩
  · rw [Exec.bind_run_error hfail] at hrun
    cases hrun
  · rw [Exec.bind_run_ok hok] at hrun
    cases hrun
    exact hremove
  · rw [Exec.bind_run_error hfail] at hrun
    cases hrun

/-- A move that ends has written the destination, and then removed the source. -/
theorem applyMove_ok {affectedPath : PathBuf} {source dest : AbsolutePathBuf}
    {applied : AppliedPatch} {s s' : EngineState σ}
    (hrun : applyMove fs affectedPath source dest applied s = (.ok (), s')) :
    ∃ disk, writeFileWithMissingParentRetry fs dest applied.newContents s.disk = (.ok (), disk) ∧
      fs.remove source disk = (.ok (), s'.disk) := by
  obtain ⟨overwritten, s₁, hread, hlooks⟩ := readOptionalFileTextForDelta_run fs dest s
  have hwrite := tryWrite_run (writeFileWithMissingParentRetry fs dest applied.newContents) s₁
  unfold applyMove at hrun
  rw [Exec.bind_run_ok hread] at hrun
  rw [hlooks.disk] at hwrite
  rcases hwritten : writeFileWithMissingParentRetry fs dest applied.newContents s.disk with
    ⟨_ | _, disk⟩
  · rw [hwritten] at hwrite
    rw [Exec.bind_run_error hwrite] at hrun
    cases hrun
  · rw [hwritten] at hwrite
    rw [Exec.bind_run_ok hwrite] at hrun
    exact ⟨disk, rfl, finishMove_ok hrun⟩

theorem applyMove_kept_iff (hlaws : EntryLaws fs through) {affectedPath : PathBuf}
    {source dest : AbsolutePathBuf} {applied : AppliedPatch} {s s' : EngineState σ}
    (hrun : applyMove fs affectedPath source dest applied s = (.ok (), s')) :
    fs.readFileText s'.disk dest = .ok applied.newContents ↔ ¬ through s.disk dest source := by
  obtain ⟨disk, hwrite, hremove⟩ := applyMove_ok hrun
  obtain ⟨hread, hentries⟩ := writeFileWithMissingParentRetry_entries hlaws hwrite
  rw [← hentries]
  constructor
  · intro hkept hthrough
    exact hlaws.remove_through disk s'.disk dest source hremove hthrough _ hkept
  · intro hother
    rw [hlaws.remove_other disk s'.disk dest source hremove hother]
    exact hread

theorem applyUpdateFile_move {affectedPath : PathBuf} {source : AbsolutePathBuf} {dest : PathBuf}
    {chunks : List UpdateFileChunk} {s s' : EngineState σ}
    (hrun : applyUpdateFile fs home cwd affectedPath source (some dest) chunks s = (.ok (), s')) :
    ∃ applied s₁, deriveNewContentsFromChunks fs s.disk source chunks = .ok applied ∧
      s₁.disk = s.disk ∧ applyMove fs affectedPath source
        (.resolvePathAgainstBase home dest cwd) applied s₁ = (.ok (), s') := by
  obtain ⟨s₁, hnote, hlooks⟩ := noteExistingPathDeltaSupport_run fs source s
  unfold applyUpdateFile at hrun
  rw [Exec.bind_run_ok hnote, Exec.bind_run_ok (Exec.gets_run _ s₁), hlooks.disk] at hrun
  cases hderive : deriveNewContentsFromChunks fs s.disk source chunks with
  | error err =>
      rw [hderive] at hrun
      cases hrun
  | ok applied =>
      rw [hderive] at hrun
      exact ⟨applied, s₁, rfl, hlooks.disk, hrun⟩

end

/-- The last hunk of a run moved its file, and the destination holds what the hunk derives from
the source. -/
def MovedFileKept {σ : Type} (fs : FileSystem σ) (home : Option PathBuf) (cwd : AbsolutePathBuf)
    (before after : EngineState σ) (path dest : PathBuf) (chunks : List UpdateFileChunk) : Prop :=
  ∃ applied, deriveNewContentsFromChunks fs before.disk (.resolvePathAgainstBase home path cwd)
      chunks = .ok applied ∧
    fs.readFileText after.disk (.resolvePathAgainstBase home dest cwd) = .ok applied.newContents

theorem entryLaws_memoryFileSystem : EntryLaws memoryFileSystem fun _ p q => p = q where
  through_self _ _ := rfl
  write_ok disk disk' p content h := by
    cases h
    exact ⟨by simp [memoryFileSystem], rfl⟩
  write_notFound disk disk' p content err h := by
    cases h
  createDirectory_ok _ _ _ _ := rfl
  remove_through disk disk' p q h hthrough content := by
    subst hthrough
    cases hp : disk p with
    | none => simp [memoryFileSystem, hp] at h
    | some old =>
        simp only [memoryFileSystem, hp, Prod.mk.injEq, true_and] at h
        simp [memoryFileSystem, ← h]
  remove_other disk disk' p q h hother := by
    cases hq : disk q with
    | none => simp [memoryFileSystem, hq] at h
    | some old =>
        simp only [memoryFileSystem, hq, Prod.mk.injEq, true_and] at h
        simp [memoryFileSystem, ← h, hother]

/-- The chunk of a patch that changes the line of `/a`. -/
def changeLine : List UpdateFileChunk := [⟨none, ["1".toList], ["2".toList], false⟩]

def moveA (dest : String) : Hunk := .updateFile "a".toList (some dest.toList) changeLine

/-- The state after one hunk on a disk with the file `/a`. -/
def movedState (dest : String) : EngineState (AbsolutePathBuf → Option Text) :=
  (applyHunk memoryFileSystem none .root (moveA dest) (.start diskWithA .empty)).2

end Codewith.ApplyPatch
