import Codewith.ApplyPatch.Coverage

/-!
# The preview of a patch and its effect

Verification computes every change against the file system as it is before the
run, while the run recomputes each update from what earlier hunks left.  When
the paths of the hunks are pairwise distinct, lead to files of their own, and
the operations on them succeed, the run ends in the file system that the map of
changes describes.
-/

namespace Codewith.ApplyPatch

open Lib

variable {σ : Type}

/-- The text files of a disk: what reading a path returns. -/
def textOf (fs : FileSystem σ) (disk : σ) (p : AbsolutePathBuf) : Option Text :=
  (fs.readFileText disk p).toOption

/-- The operations on the text files at `paths` succeed, in every state of the
class `good`.  A write may first miss the parent directory of a file that does
not exist yet; it then succeeds once the directory has been created. -/
structure OperationsSucceed (fs : FileSystem σ) (paths : Set AbsolutePathBuf) (good : σ → Prop) :
    Prop where
  write_existing : ∀ disk p contents, good disk → p ∈ paths → textOf fs disk p ≠ none →
    ∃ disk', fs.writeFile p contents disk = (.ok (), disk') ∧ good disk' ∧
      textOf fs disk' p = some contents
  write_missing : ∀ disk p contents, good disk → p ∈ paths → textOf fs disk p = none →
    (∃ disk', fs.writeFile p contents disk = (.ok (), disk') ∧ good disk' ∧
      textOf fs disk' p = some contents) ∨
    ∃ err disk₁ parent disk₂ disk', fs.writeFile p contents disk = (.error err, disk₁) ∧
      good disk₁ ∧ err.kind = .notFound ∧ p.parent = some parent ∧
      fs.createDirectory parent disk₁ = (.ok (), disk₂) ∧ good disk₂ ∧
      fs.writeFile p contents disk₂ = (.ok (), disk') ∧ good disk' ∧
      textOf fs disk' p = some contents
  remove : ∀ disk p, good disk → p ∈ paths → textOf fs disk p ≠ none →
    ∃ disk', fs.remove p disk = (.ok (), disk') ∧ good disk' ∧ textOf fs disk' p = none
  not_directory : ∀ disk p, good disk → p ∈ paths → textOf fs disk p ≠ none →
    ∃ metadata, fs.getMetadata disk p = .ok metadata ∧ metadata.isDirectory = false

/-- The paths lead to files of their own: in the states of the class, writing or
removing one of them, or creating its parent directory, changes the text of no
other path. -/
structure NoAliases (fs : FileSystem σ) (paths : Set AbsolutePathBuf) (good : σ → Prop) :
    Prop where
  write : ∀ disk p q contents, good disk → p ∈ paths → q ≠ p →
    textOf fs (fs.writeFile p contents disk).2 q = textOf fs disk q
  remove : ∀ disk p q, good disk → p ∈ paths → q ≠ p →
    textOf fs (fs.remove p disk).2 q = textOf fs disk q
  createDirectory : ∀ disk p q parent, good disk → p ∈ paths → q ≠ p → p.parent = some parent →
    textOf fs (fs.createDirectory parent disk).2 q = textOf fs disk q

def patchPaths (home : Option PathBuf) (cwd : AbsolutePathBuf) (hunks : List Hunk) :
    List AbsolutePathBuf :=
  hunks.flatMap (Hunk.paths home cwd)

/-- What an entry of the map of changes says about the text files. -/
def ApplyPatchFileChange.effect (p : AbsolutePathBuf) :
    ApplyPatchFileChange → (AbsolutePathBuf → Option Text) → AbsolutePathBuf → Option Text
  | add content, text => Function.update text p (some content)
  | delete _, text => Function.update text p none
  | update _ none newContent, text => Function.update text p (some newContent)
  | update _ (some dest) newContent, text =>
      Function.update (Function.update text dest (some newContent)) p none

variable {fs : FileSystem σ} {paths : Set AbsolutePathBuf} {good : σ → Prop}
  {home : Option PathBuf} {cwd : AbsolutePathBuf} {textDiff : Nat → Text → Text → Text}

theorem textOf_eq_some {disk : σ} {p : AbsolutePathBuf} {content : Text} :
    textOf fs disk p = some content ↔ fs.readFileText disk p = .ok content := by
  unfold textOf
  cases fs.readFileText disk p <;> simp [Except.toOption]

theorem textOf_eq_update {disk disk' : σ} {p : AbsolutePathBuf} {content : Option Text}
    (hself : textOf fs disk' p = content)
    (hother : ∀ q, q ≠ p → textOf fs disk' q = textOf fs disk q) :
    textOf fs disk' = Function.update (textOf fs disk) p content := by
  funext q
  by_cases hq : q = p
  · subst hq
    rw [Function.update_self, hself]
  · rw [Function.update_of_ne hq, hother q hq]

theorem write_existing_text (h : OperationsSucceed fs paths good)
    (hown : NoAliases fs paths good) {disk : σ} {p : AbsolutePathBuf} (hgood : good disk)
    (hp : p ∈ paths) (hthere : textOf fs disk p ≠ none) (contents : Text) :
    ∃ disk', fs.writeFile p contents disk = (.ok (), disk') ∧ good disk' ∧
      textOf fs disk' = Function.update (textOf fs disk) p (some contents) := by
  obtain ⟨disk', hwrite, hgood', hself⟩ := h.write_existing disk p contents hgood hp hthere
  refine ⟨disk', hwrite, hgood', textOf_eq_update hself fun q hq => ?_⟩
  rw [← hown.write disk p q contents hgood hp hq, hwrite]

theorem remove_text (h : OperationsSucceed fs paths good) (hown : NoAliases fs paths good)
    {disk : σ} {p : AbsolutePathBuf} (hgood : good disk) (hp : p ∈ paths)
    (hthere : textOf fs disk p ≠ none) :
    ∃ disk', fs.remove p disk = (.ok (), disk') ∧ good disk' ∧
      textOf fs disk' = Function.update (textOf fs disk) p none := by
  obtain ⟨disk', hremove, hgood', hself⟩ := h.remove disk p hgood hp hthere
  refine ⟨disk', hremove, hgood', textOf_eq_update hself fun q hq => ?_⟩
  rw [← hown.remove disk p q hgood hp hq, hremove]

theorem writeFileWithMissingParentRetry_direct {disk disk' : σ} {p : AbsolutePathBuf}
    {contents : Text} (hwrite : fs.writeFile p contents disk = (.ok (), disk')) :
    writeFileWithMissingParentRetry fs p contents disk = (.ok (), disk') := by
  unfold writeFileWithMissingParentRetry
  rw [Exec.bind_run_ok (Exec.attempt_run _ disk), hwrite]
  rfl

/-- Writing with the retry succeeds, whether or not the parent directory exists. -/
theorem writeFileWithMissingParentRetry_succeeds (h : OperationsSucceed fs paths good)
    (hown : NoAliases fs paths good) {disk : σ} {p : AbsolutePathBuf} (hgood : good disk)
    (hp : p ∈ paths) (contents : Text) :
    ∃ disk', writeFileWithMissingParentRetry fs p contents disk = (.ok (), disk') ∧ good disk' ∧
      textOf fs disk' = Function.update (textOf fs disk) p (some contents) := by
  by_cases hmissing : textOf fs disk p = none
  · rcases h.write_missing disk p contents hgood hp hmissing with
      ⟨disk', hwrite, hgood', hself⟩ |
      ⟨err, disk₁, parent, disk₂, disk', hfirst, hgood₁, hkind, hparent, hcreate, hgood₂, hwrite,
        hgood', hself⟩
    · refine ⟨disk', writeFileWithMissingParentRetry_direct hwrite, hgood', ?_⟩
      refine textOf_eq_update hself fun q hq => ?_
      rw [← hown.write disk p q contents hgood hp hq, hwrite]
    · refine ⟨disk', ?_, hgood', textOf_eq_update hself fun q hq => ?_⟩
      · have hparents : createParentDirectories fs p disk₁ = (.ok (), disk₂) := by
          rw [createParentDirectories, hparent]
          exact Exec.mapErr_run_ok hcreate _
        unfold writeFileWithMissingParentRetry
        rw [Exec.bind_run_ok (Exec.attempt_run _ disk), hfirst]
        simp only [hkind, if_true]
        rw [Exec.bind_run_ok hparents]
        exact Exec.mapErr_run_ok hwrite _
      · have hfirstKeeps := hown.write disk p q contents hgood hp hq
        have hcreateKeeps := hown.createDirectory disk₁ p q parent hgood₁ hp hq hparent
        have hwriteKeeps := hown.write disk₂ p q contents hgood₂ hp hq
        rw [hfirst] at hfirstKeeps
        rw [hcreate] at hcreateKeeps
        rw [hwrite] at hwriteKeeps
        rw [hwriteKeeps, hcreateKeeps, hfirstKeeps]
  · obtain ⟨disk', hwrite, hafter⟩ := write_existing_text h hown hgood hp hmissing contents
    exact ⟨disk', writeFileWithMissingParentRetry_direct hwrite, hafter⟩

/-! ## One hunk -/

theorem tryWrite_succeeds {m : Exec σ EngineError Unit} {s : EngineState σ} {disk' : σ}
    (h : m s.disk = (.ok (), disk')) : tryWrite m s = (.ok (), s.setDisk disk') := by
  unfold tryWrite
  have hrun : onDisk (Exec.attempt m : Exec σ EngineError _) s =
      (.ok (.ok ()), s.setDisk disk') := by
    simp only [onDisk, Exec.zoom_run, Exec.attempt_run, h]
  rw [Exec.bind_run_ok hrun]
  rfl

theorem removeOrNote_succeeds {context : Text} {p : AbsolutePathBuf} {expected : Option Text}
    {s : EngineState σ} {disk' : σ} {metadata : FileMetadata}
    (hmeta : fs.getMetadata s.disk p = .ok metadata) (hdir : metadata.isDirectory = false)
    (hremove : fs.remove p s.disk = (.ok (), disk')) :
    removeOrNote fs context p expected s = (.ok (), s.setDisk disk') := by
  have hensure : ensureNotDirectory fs p s.disk = (.ok (), s.disk) := by
    unfold ensureNotDirectory
    rw [Exec.bind_run_ok (Exec.gets_run _ _), hmeta]
    simp only [hdir]
    rfl
  have hcheck : withContext context (onDisk (ensureNotDirectory fs p)) s = (.ok (), s) := by
    refine Exec.mapErr_run_ok ?_ _
    simp only [onDisk, Exec.zoom_run, hensure]
    rfl
  have hrun : onDisk (Exec.attempt (fs.remove p) : Exec σ EngineError _) s =
      (.ok (.ok ()), s.setDisk disk') := by
    simp only [onDisk, Exec.zoom_run, Exec.attempt_run, hremove]
  unfold removeOrNote
  rw [Exec.bind_run_ok hcheck, Exec.bind_run_ok hrun]
  rfl

theorem applyAddFile_succeeds (h : OperationsSucceed fs paths good)
    (hown : NoAliases fs paths good) {p : AbsolutePathBuf}
    {s : EngineState σ} (hgood : good s.disk) (hp : p ∈ paths) (affectedPath : PathBuf)
    (contents : Text) :
    ∃ s', applyAddFile fs affectedPath p contents s = (.ok (), s') ∧ good s'.disk ∧
      textOf fs s'.disk = Function.update (textOf fs s.disk) p (some contents) := by
  obtain ⟨content, s₁, hread, hlooks⟩ := readOptionalFileTextForDelta_run fs p s
  rw [← hlooks.disk] at hgood ⊢
  obtain ⟨disk', hwrite, hgood', htext⟩ :=
    writeFileWithMissingParentRetry_succeeds h hown hgood hp contents
  refine ⟨((s₁.setDisk disk').pushChange p (.add contents content)).pushAdded affectedPath, ?_,
    hgood', htext⟩
  unfold applyAddFile
  rw [Exec.bind_run_ok hread, Exec.bind_run_ok (tryWrite_succeeds hwrite)]
  rfl

theorem applyDeleteFile_succeeds (h : OperationsSucceed fs paths good)
    (hown : NoAliases fs paths good) {p : AbsolutePathBuf}
    {s : EngineState σ} (hgood : good s.disk) (hp : p ∈ paths) (affectedPath : PathBuf)
    (htext : textOf fs s.disk p ≠ none) :
    ∃ s', applyDeleteFile fs affectedPath p s = (.ok (), s') ∧ good s'.disk ∧
      textOf fs s'.disk = Function.update (textOf fs s.disk) p none := by
  obtain ⟨s₁, hnote, hlooks⟩ := noteExistingPathDeltaSupport_run fs p s
  rw [← hlooks.disk] at hgood htext ⊢
  obtain ⟨content, hcontent⟩ := Option.ne_none_iff_exists'.1 htext
  obtain ⟨metadata, hmeta, hdir⟩ := h.not_directory s₁.disk p hgood hp htext
  obtain ⟨disk', hremove, hgood', hafter⟩ := remove_text h hown hgood hp htext
  refine ⟨((s₁.setDisk disk').pushChange p (.delete content)).pushDeleted affectedPath, ?_,
    hgood', hafter⟩
  have hread : (fs.readFileText s₁.disk p).toOption = some content := hcontent
  have hkeep : (Exec.modify fun s : EngineState σ =>
      if (some content).isNone then s.inexact else s : Engine σ Unit) s₁ = (.ok (), s₁) := rfl
  unfold applyDeleteFile
  rw [Exec.bind_run_ok hnote, Exec.bind_run_ok (Exec.gets_run _ s₁), hread,
    Exec.bind_run_ok hkeep, Exec.bind_run_ok (removeOrNote_succeeds hmeta hdir hremove)]
  rfl

theorem applyUpdateInPlace_succeeds (h : OperationsSucceed fs paths good)
    (hown : NoAliases fs paths good) {p : AbsolutePathBuf}
    {s : EngineState σ} (hgood : good s.disk) (hp : p ∈ paths) (affectedPath : PathBuf)
    (htext : textOf fs s.disk p ≠ none) (applied : AppliedPatch) :
    ∃ s', applyUpdateInPlace fs affectedPath p applied s = (.ok (), s') ∧ good s'.disk ∧
      textOf fs s'.disk =
        Function.update (textOf fs s.disk) p (some applied.newContents) := by
  obtain ⟨disk', hwrite, hgood', hafter⟩ :=
    write_existing_text h hown hgood hp htext applied.newContents
  refine ⟨((s.setDisk disk').pushChange p (.update none applied.originalContents none
    applied.newContents)).pushModified affectedPath, ?_, hgood', hafter⟩
  have hrun : withContext (writeFailure p) (fs.writeFile p applied.newContents) s.disk =
      (.ok (), disk') := Exec.mapErr_run_ok hwrite _
  unfold applyUpdateInPlace
  rw [Exec.bind_run_ok (tryWrite_succeeds hrun)]
  rfl

theorem applyMove_succeeds (h : OperationsSucceed fs paths good)
    (hown : NoAliases fs paths good) {p dest : AbsolutePathBuf}
    {s : EngineState σ} (hgood : good s.disk) (hp : p ∈ paths) (hdest : dest ∈ paths)
    (hne : dest ≠ p) (affectedPath : PathBuf) (htext : textOf fs s.disk p ≠ none)
    (applied : AppliedPatch) :
    ∃ s', applyMove fs affectedPath p dest applied s = (.ok (), s') ∧ good s'.disk ∧
      textOf fs s'.disk = Function.update
        (Function.update (textOf fs s.disk) dest (some applied.newContents)) p none := by
  obtain ⟨overwritten, s₁, hread, hlooks⟩ := readOptionalFileTextForDelta_run fs dest s
  rw [← hlooks.disk] at hgood htext ⊢
  obtain ⟨disk₂, hwrite, hgood₂, htext₂⟩ :=
    writeFileWithMissingParentRetry_succeeds h hown hgood hdest applied.newContents
  have hsource : textOf fs disk₂ p ≠ none := by
    rw [htext₂, Function.update_of_ne hne.symm]
    exact htext
  obtain ⟨metadata, hmeta, hdir⟩ := h.not_directory disk₂ p hgood₂ hp hsource
  obtain ⟨disk₃, hremove, hgood₃, htext₃⟩ := remove_text h hown hgood₂ hp hsource
  set s₂ := (s₁.setDisk disk₂).pushChange dest (.add applied.newContents overwritten) with hs₂
  refine ⟨((s₂.setDisk disk₃).setChange s₁.delta.changes.length p (.update (some dest)
    applied.originalContents overwritten applied.newContents)).pushModified affectedPath, ?_,
    hgood₃, htext₂ ▸ htext₃⟩
  have hremoved : ∀ context expected, removeOrNote fs context p expected s₂ =
      (.ok (), s₂.setDisk disk₃) :=
    fun _ _ => removeOrNote_succeeds hmeta hdir hremove
  unfold applyMove finishMove
  rw [Exec.bind_run_ok hread, Exec.bind_run_ok (tryWrite_succeeds hwrite),
    Exec.bind_run_ok (Exec.gets_run _ _), Exec.bind_run_ok (Exec.modify_run _ _), ← hs₂,
    Exec.bind_run_ok (hremoved _ _)]
  rfl

theorem deriveNewContentsFromChunks_congr {disk disk' : σ} {p : AbsolutePathBuf}
    {chunks : List UpdateFileChunk} {applied : AppliedPatch}
    (hsame : textOf fs disk p = textOf fs disk' p)
    (h : deriveNewContentsFromChunks fs disk' p chunks = .ok applied) :
    textOf fs disk p ≠ none ∧ deriveNewContentsFromChunks fs disk p chunks = .ok applied := by
  unfold deriveNewContentsFromChunks at h ⊢
  cases hread : fs.readFileText disk' p with
  | error err => simp [hread] at h
  | ok content =>
      have hcontent : fs.readFileText disk p = .ok content := by
        rw [← textOf_eq_some, hsame, textOf_eq_some, hread]
      rw [hread] at h
      rw [hcontent]
      exact ⟨by rw [textOf_eq_some.2 hcontent]; simp, h⟩

/-- The hunk was verified on one disk and runs on another that holds the same
text at its source. -/
theorem applyHunk_succeeds (h : OperationsSucceed fs paths good)
    (hown : NoAliases fs paths good) {verified : σ} {hunk : Hunk}
    {change : ApplyPatchFileChange} {s : EngineState σ}
    (hverify : verifyHunk fs textDiff home verified cwd hunk = .ok change)
    (hsource : textOf fs s.disk (hunk.resolvePath home cwd) =
      textOf fs verified (hunk.resolvePath home cwd))
    (hgood : good s.disk) (hpaths : ∀ p ∈ hunk.paths home cwd, p ∈ paths)
    (hmove : hunk.destination home cwd ≠ some (hunk.resolvePath home cwd)) :
    ∃ s', applyHunk fs home cwd hunk s = (.ok (), s') ∧ good s'.disk ∧
      textOf fs s'.disk = change.effect (hunk.resolvePath home cwd) (textOf fs s.disk) := by
  have hin : hunk.resolvePath home cwd ∈ paths := hpaths _ List.mem_cons_self
  cases hunk with
  | addFile path contents =>
      cases hverify
      exact applyAddFile_succeeds h hown hgood hin _ contents
  | deleteFile path =>
      obtain ⟨content, hread, rfl⟩ := verifyHunk_deleteFile hverify
      have htext : textOf fs s.disk ((Hunk.deleteFile path).resolvePath home cwd) ≠ none := by
        rw [hsource, textOf_eq_some.2 hread]
        simp
      exact applyDeleteFile_succeeds h hown hgood hin _ htext
  | updateFile path movePath chunks =>
      obtain ⟨applied, hderive, rfl⟩ := verifyHunk_updateFile hverify
      obtain ⟨htext, hderive'⟩ := deriveNewContentsFromChunks_congr hsource hderive
      obtain ⟨s', hdisk, hrun⟩ := applyUpdateFile_run fs home cwd
        (Hunk.updateFile path movePath chunks).path
        ((Hunk.updateFile path movePath chunks).resolvePath home cwd) movePath chunks s
      rw [hderive'] at hrun
      rw [← hdisk] at hgood htext ⊢
      cases movePath with
      | none =>
          obtain ⟨t, ht, hafter⟩ := applyUpdateInPlace_succeeds h hown hgood hin
            (Hunk.updateFile path none chunks).path htext applied
          exact ⟨t, hrun.trans ht, hafter⟩
      | some dest =>
          have hdest := hpaths (.resolvePathAgainstBase home dest cwd)
            (List.mem_cons_of_mem _ (List.mem_singleton_self _))
          have hne : AbsolutePathBuf.resolvePathAgainstBase home dest cwd ≠
              (Hunk.updateFile path (some dest) chunks).resolvePath home cwd :=
            fun heq => hmove (congrArg some heq)
          obtain ⟨t, ht, hafter⟩ := applyMove_succeeds h hown hgood hin hdest hne
            (Hunk.updateFile path (some dest) chunks).path htext applied
          exact ⟨t, hrun.trans ht, hafter⟩

/-! ## The whole run -/

/-- The text files are as the entry of the map at `p` predicts. -/
def ApplyPatchFileChange.Holds (text : AbsolutePathBuf → Option Text) (p : AbsolutePathBuf) :
    ApplyPatchFileChange → Prop
  | add content => text p = some content
  | delete _ => text p = none
  | update _ none newContent => text p = some newContent
  | update _ (some dest) newContent => text dest = some newContent ∧ text p = none

theorem holds_effect {change : ApplyPatchFileChange} {p : AbsolutePathBuf}
    (hmove : change.movePath ≠ some p) (text : AbsolutePathBuf → Option Text) :
    change.Holds (change.effect p text) p := by
  cases change with
  | add content => exact Function.update_self _ _ _
  | delete content => exact Function.update_self _ _ _
  | update diff movePath newContent =>
      cases movePath with
      | none => exact Function.update_self _ _ _
      | some dest =>
          have hne : dest ≠ p := fun heq => hmove (congrArg some heq)
          refine ⟨?_, Function.update_self _ _ _⟩
          simp only [ApplyPatchFileChange.effect]
          rw [Function.update_of_ne hne, Function.update_self]

theorem holds_congr {change : ApplyPatchFileChange} {p : AbsolutePathBuf}
    {text text' : AbsolutePathBuf → Option Text} (h : change.Holds text p)
    (hp : text' p = text p) (hdest : ∀ q, change.movePath = some q → text' q = text q) :
    change.Holds text' p := by
  cases change with
  | add content => exact hp.trans h
  | delete content => exact hp.trans h
  | update diff movePath newContent =>
      cases movePath with
      | none => exact hp.trans h
      | some dest => exact ⟨(hdest dest rfl).trans h.1, hp.trans h.2⟩

theorem effect_of_ne {change : ApplyPatchFileChange} {p q : AbsolutePathBuf} (hp : q ≠ p)
    (hmove : change.movePath ≠ some q) (text : AbsolutePathBuf → Option Text) :
    change.effect p text q = text q := by
  cases change with
  | add content => exact Function.update_of_ne hp _ _
  | delete content => exact Function.update_of_ne hp _ _
  | update diff movePath newContent =>
      cases movePath with
      | none => exact Function.update_of_ne hp _ _
      | some dest =>
          have hne : q ≠ dest := fun heq => hmove (congrArg some heq.symm)
          simp only [ApplyPatchFileChange.effect]
          rw [Function.update_of_ne hp, Function.update_of_ne hne]

theorem mem_paths {hunk : Hunk} {p : AbsolutePathBuf} :
    p ∈ hunk.paths home cwd ↔
      p = hunk.resolvePath home cwd ∨ hunk.destination home cwd = some p := by
  simp [Hunk.paths]

/-- The run, from any disk that still holds the verified text at the paths of
the hunks to come. -/
theorem forEach_succeeds (h : OperationsSucceed fs paths good)
    (hown : NoAliases fs paths good) {verified : σ} {hunks : List Hunk}
    {changes result : Changes} {s : EngineState σ}
    (hverify : verifyHunks fs textDiff home verified cwd hunks changes = .ok result)
    (hgood : good s.disk) (hpaths : ∀ p ∈ patchPaths home cwd hunks, p ∈ paths)
    (hnodup : (patchPaths home cwd hunks).Nodup)
    (hsame : ∀ p ∈ patchPaths home cwd hunks, textOf fs s.disk p = textOf fs verified p) :
    ∃ s', Exec.forEach (applyHunk fs home cwd) hunks s = (.ok (), s') ∧
      (∀ hunk ∈ hunks, ∀ change, verifyHunk fs textDiff home verified cwd hunk = .ok change →
        change.Holds (textOf fs s'.disk) (hunk.resolvePath home cwd)) ∧
      ∀ p ∉ patchPaths home cwd hunks, textOf fs s'.disk p = textOf fs s.disk p := by
  induction hunks generalizing changes s with
  | nil => exact ⟨s, rfl, by simp, fun _ _ => rfl⟩
  | cons hunk hunks ih =>
      obtain ⟨change, hchange, hrest⟩ := verifyHunks_cons hverify
      have hsplit : patchPaths home cwd (hunk :: hunks) =
          hunk.paths home cwd ++ patchPaths home cwd hunks := rfl
      rw [hsplit] at hpaths hnodup hsame
      obtain ⟨hhead, htail, hdisjoint⟩ := List.nodup_append'.1 hnodup
      have hmove : hunk.destination home cwd ≠ some (hunk.resolvePath home cwd) := by
        intro hdest
        simp [Hunk.paths, hdest] at hhead
      have hsource : hunk.resolvePath home cwd ∈ hunk.paths home cwd := List.mem_cons_self
      obtain ⟨s₁, hrun, hgood₁, htext₁⟩ := applyHunk_succeeds h hown hchange
        (hsame _ (List.mem_append_left _ hsource)) hgood
        (fun p hp => hpaths p (List.mem_append_left _ hp)) hmove
      have hframe : ∀ p ∉ hunk.paths home cwd, textOf fs s₁.disk p = textOf fs s.disk p := by
        intro p hp
        rw [mem_paths, not_or, ← verifyHunk_movePath hchange] at hp
        rw [htext₁, effect_of_ne hp.1 hp.2]
      obtain ⟨s', hrun', hholds, hframe'⟩ := ih hrest hgood₁
        (fun p hp => hpaths p (List.mem_append_right _ hp)) htail (by
          intro p hp
          rw [hframe p fun hmem => hdisjoint hmem hp]
          exact hsame p (List.mem_append_right _ hp))
      refine ⟨s', ?_, ?_, ?_⟩
      · rw [Exec.forEach_cons, Exec.bind_run_ok hrun, hrun']
      · intro g hg change' hchange'
        rcases List.mem_cons.1 hg with rfl | hg
        · rw [hchange] at hchange'
          cases hchange'
          have hafter := holds_effect (verifyHunk_movePath hchange ▸ hmove) (textOf fs s.disk)
          rw [← htext₁] at hafter
          refine holds_congr hafter (hframe' _ fun hmem => hdisjoint hsource hmem) ?_
          intro q hq
          rw [verifyHunk_movePath hchange] at hq
          exact hframe' q fun hmem => hdisjoint (mem_paths.2 (.inr hq)) hmem
        · exact hholds g hg change' hchange'
      · intro p hp
        rw [hsplit, List.mem_append, not_or] at hp
        rw [hframe' p hp.2, hframe p hp.1]

theorem lastForSource_of_nodup {hunks : List Hunk} {hunk : Hunk}
    (hnodup : (patchPaths home cwd hunks).Nodup) (hmem : hunk ∈ hunks) :
    LastForSource home cwd hunks hunk := by
  obtain ⟨before, after, rfl⟩ := List.append_of_mem hmem
  refine ⟨before, after, rfl, ?_⟩
  intro later hlater hsame
  have hsplit : patchPaths home cwd (before ++ hunk :: after) =
      patchPaths home cwd before ++ (hunk.paths home cwd ++ patchPaths home cwd after) := by
    simp [patchPaths]
  rw [hsplit] at hnodup
  have hdisjoint := (List.nodup_append'.1 (List.nodup_append'.1 hnodup).2.1).2.2
  refine hdisjoint (mem_paths.2 (.inl rfl)) (List.mem_flatMap.2 ⟨later, hlater, ?_⟩)
  exact mem_paths.2 (.inl hsame.symm)

/-- The run of a verified, non-empty patch with pairwise distinct paths that lead
to files of their own succeeds, and leaves the text files that the map of
changes predicts. -/
theorem applyHunksToFiles_as_previewed {disk : σ} {args : ApplyPatchArgs}
    {action : ApplyPatchAction} {delta : AppliedPatchDelta}
    (hfs : OperationsSucceed fs {p | p ∈ patchPaths home action.cwd args.hunks} good)
    (hown : NoAliases fs {p | p ∈ patchPaths home action.cwd args.hunks} good)
    (hgood : good disk) (hdistinct : (patchPaths home action.cwd args.hunks).Nodup)
    (hne : args.hunks ≠ [])
    (hverify : verifyApplyPatchArgs fs textDiff home disk args cwd = .body action) :
    ∃ affected s', applyHunksToFiles fs home action.cwd args.hunks (.start disk delta) =
        (.ok affected, s') ∧
      (∀ p change, action.changes.lookup p = some change →
        change.Holds (textOf fs s'.disk) p) ∧
      ∀ p ∉ approvedPaths action, textOf fs s'.disk p = textOf fs disk p := by
  obtain ⟨-, hchanges⟩ := verifyApplyPatchArgs_body hverify
  obtain ⟨s', hrun, hholds, hframe⟩ := forEach_succeeds (s := .start disk delta) hfs hown hchanges
    hgood (fun p hp => hp) hdistinct (fun p _ => rfl)
  refine ⟨s'.affected, s', ?_, ?_, ?_⟩
  · unfold applyHunksToFiles
    simp only [hne, if_false]
    rw [Exec.bind_run_ok hrun, Exec.gets_run]
  · intro p change hlookup
    obtain ⟨hunk, ⟨before, after, hsplit, -⟩, rfl, hchange⟩ :=
      exists_last_of_lookup hchanges hlookup
    exact hholds hunk (by simp [hsplit]) change hchange
  · intro p hp
    refine hframe p fun hmem => hp ?_
    rw [mem_approvedPaths_iff_visible hchanges]
    obtain ⟨hunk, hhunk, hpath⟩ := List.mem_flatMap.1 hmem
    rcases mem_paths.1 hpath with rfl | hdest
    · exact .inl ⟨hunk, hhunk, rfl⟩
    · exact .inr ⟨hunk, lastForSource_of_nodup hdistinct hhunk, hdest⟩

theorem textOf_memoryFileSystem (disk : AbsolutePathBuf → Option Text) :
    textOf memoryFileSystem disk = disk := by
  funext p
  cases hp : disk p <;> simp [textOf, memoryFileSystem, hp, Except.toOption]

/-- A memory in which every path is looked up under another name, as links do it. -/
def linkedFileSystem (name : AbsolutePathBuf → AbsolutePathBuf) :
    FileSystem (AbsolutePathBuf → Option Text) where
  getMetadata disk path := memoryFileSystem.getMetadata disk (name path)
  readFileText disk path := memoryFileSystem.readFileText disk (name path)
  writeFile path contents := memoryFileSystem.writeFile (name path) contents
  createDirectory path := memoryFileSystem.createDirectory (name path)
  remove path := memoryFileSystem.remove (name path)

theorem textOf_linkedFileSystem (name : AbsolutePathBuf → AbsolutePathBuf)
    (disk : AbsolutePathBuf → Option Text) (p : AbsolutePathBuf) :
    textOf (linkedFileSystem name) disk p = disk (name p) :=
  congrFun (textOf_memoryFileSystem disk) (name p)

theorem operationsSucceed_linkedFileSystem (name : AbsolutePathBuf → AbsolutePathBuf)
    (paths : Set AbsolutePathBuf) :
    OperationsSucceed (linkedFileSystem name) paths fun _ => True := by
  have hwritten : ∀ (disk : AbsolutePathBuf → Option Text) (p : AbsolutePathBuf) (contents : Text),
      textOf (linkedFileSystem name) (Function.update disk (name p) (some contents)) p =
        some contents := by
    intro disk p contents
    rw [textOf_linkedFileSystem, Function.update_self]
  refine ⟨?_, ?_, ?_, ?_⟩
  · intro disk p contents _ _ _
    exact ⟨_, rfl, trivial, hwritten disk p contents⟩
  · intro disk p contents _ _ _
    exact .inl ⟨_, rfl, trivial, hwritten disk p contents⟩
  · intro disk p _ _ hp
    rw [textOf_linkedFileSystem] at hp
    obtain ⟨content, hcontent⟩ := Option.ne_none_iff_exists'.1 hp
    refine ⟨Function.update disk (name p) none, ?_, trivial, ?_⟩
    · simp [linkedFileSystem, memoryFileSystem, hcontent]
    · rw [textOf_linkedFileSystem, Function.update_self]
  · intro disk p _ _ hp
    rw [textOf_linkedFileSystem] at hp
    obtain ⟨content, hcontent⟩ := Option.ne_none_iff_exists'.1 hp
    refine ⟨⟨false, true, false⟩, ?_, rfl⟩
    simp [linkedFileSystem, memoryFileSystem, hcontent]

theorem operationsSucceed_memoryFileSystem (paths : Set AbsolutePathBuf) :
    OperationsSucceed memoryFileSystem paths fun _ => True :=
  operationsSucceed_linkedFileSystem id paths

theorem noAliases_memoryFileSystem (paths : Set AbsolutePathBuf) :
    NoAliases memoryFileSystem paths fun _ => True where
  write disk p q contents _ _ hq := by
    rw [textOf_memoryFileSystem, textOf_memoryFileSystem]
    exact Function.update_of_ne hq _ _
  remove disk p q _ _ hq := by
    rw [textOf_memoryFileSystem, textOf_memoryFileSystem]
    cases hp : disk p <;> simp [memoryFileSystem, hp, hq]
  createDirectory _ _ _ _ _ _ _ _ := rfl

theorem applyHunksToFiles_as_previewed_rename :
    ∃ affected s', applyHunksToFiles memoryFileSystem none renameAction.cwd renameArgs.hunks
        (.start diskWithA .empty) = (.ok affected, s') ∧
      (∀ p change, renameAction.changes.lookup p = some change →
        change.Holds (textOf memoryFileSystem s'.disk) p) ∧
      ∀ p ∉ approvedPaths renameAction,
        textOf memoryFileSystem s'.disk p = textOf memoryFileSystem diskWithA p := by
  have hverify : verifyApplyPatchArgs memoryFileSystem (fun _ _ _ => []) none diskWithA
      renameArgs .root = .body renameAction := rfl
  exact applyHunksToFiles_as_previewed (operationsSucceed_memoryFileSystem _)
    (noAliases_memoryFileSystem _) trivial (by decide +kernel) (by simp [renameArgs]) hverify

/-- The patch has pairwise distinct paths, is verified, and its run fails. -/
def VerifiedAndRefused (fs : FileSystem σ) (disk : σ) (args : ApplyPatchArgs)
    (action : ApplyPatchAction) : Prop :=
  (patchPaths none action.cwd args.hunks).Nodup ∧
    verifyApplyPatchArgs fs (fun _ _ _ => []) none disk args .root = .body action ∧
    ¬ ∃ affected, (applyHunksToFiles fs none action.cwd args.hunks (.start disk .empty)).1 =
      .ok affected

def emptyPatchText : Text := "*** Begin Patch\n*** End Patch".toList

def emptyPatchArgs : ApplyPatchArgs := ⟨emptyPatchText, [], none, none⟩

/-- A patch without hunks is verified, with an empty map. -/
theorem empty_patch_refused :
    VerifiedAndRefused memoryFileSystem diskWithA emptyPatchArgs ⟨∅, emptyPatchText, .root⟩ := by
  refine ⟨List.nodup_nil, rfl, ?_⟩
  rintro ⟨affected, h⟩
  cases h

theorem normal_throughLink (p : AbsolutePathBuf) : ∀ c ∈ ['d'] :: p.parts.tail, IsNormal c := by
  intro c hc
  rcases List.mem_cons.1 hc with rfl | hc
  · decide
  · exact p.normal c (List.mem_of_mem_tail hc)

/-- The directory `/l` is a link to `/d`. -/
def throughLink (p : AbsolutePathBuf) : AbsolutePathBuf :=
  if p.parts.head? = some ['l'] then ⟨['d'] :: p.parts.tail, normal_throughLink p⟩ else p

def pathInD : AbsolutePathBuf := AbsolutePathBuf.root.join none "d/a".toList

def pathInL : AbsolutePathBuf := AbsolutePathBuf.root.join none "l/a".toList

/-- A disk that holds the line `1` in the file `/d/a`. -/
def diskWithLink : AbsolutePathBuf → Option Text :=
  Function.update (fun _ => none) pathInD (some "1\n".toList)

/-- A patch that changes the line of one file under both of its paths. -/
def aliasedText : Text :=
  ("*** Begin Patch\n*** Update File: d/a\n@@\n-1\n+2\n" ++
    "*** Update File: l/a\n@@\n-1\n+2\n*** End Patch").toList

def aliasedArgs : ApplyPatchArgs where
  patch := aliasedText
  hunks := [.updateFile "d/a".toList none (replaceOne "2".toList),
    .updateFile "l/a".toList none (replaceOne "2".toList)]
  workdir := none
  environmentId := none

def aliasedAction : ApplyPatchAction where
  changes := (AList.singleton pathInD (.update [] none "2\n".toList)).insert pathInL
    (.update [] none "2\n".toList)
  patch := aliasedText
  cwd := .root

theorem aliased_patch_refused :
    VerifiedAndRefused (linkedFileSystem throughLink) diskWithLink aliasedArgs aliasedAction := by
  refine ⟨by decide, rfl, ?_⟩
  rintro ⟨affected, h⟩
  have hfails : (applyHunksToFiles (linkedFileSystem throughLink) none .root aliasedArgs.hunks
      (.start diskWithLink .empty)).1.isOk = false := by decide +kernel
  rw [show aliasedAction.cwd = AbsolutePathBuf.root from rfl] at h
  rw [h] at hfails
  cases hfails

/-- A patch without hunks is verified and then refused, and so is a patch that
updates one file under two paths, although every operation succeeds. -/
theorem verified_patches_refused :
    (parsePatch emptyPatchText = .ok emptyPatchArgs ∧
      OperationsSucceed memoryFileSystem Set.univ (fun _ => True) ∧
      NoAliases memoryFileSystem Set.univ (fun _ => True) ∧
      VerifiedAndRefused memoryFileSystem diskWithA emptyPatchArgs
        ⟨∅, emptyPatchText, .root⟩) ∧
    (parsePatch aliasedText = .ok aliasedArgs ∧
      OperationsSucceed (linkedFileSystem throughLink) Set.univ (fun _ => True) ∧
      VerifiedAndRefused (linkedFileSystem throughLink) diskWithLink aliasedArgs
        aliasedAction) := by
  refine ⟨⟨by decide +kernel, ?_, ?_, empty_patch_refused⟩, by decide +kernel, ?_,
    aliased_patch_refused⟩
  · exact operationsSucceed_memoryFileSystem _
  · exact noAliases_memoryFileSystem _
  · exact operationsSucceed_linkedFileSystem _ _

end Codewith.ApplyPatch
