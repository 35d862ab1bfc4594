import Codewith.ApplyPatch.Engine

/-!
# What an exact record says about the disk

`applyPatch` returns the record of the changes it committed, on success and on
failure.  As long as that record is exact it describes, change by change, how
the text files went from what they were before the run to what they are after
it.  The one exception is a move of a file onto itself: the file is written and
then removed, while the record shows an update.
-/

namespace Codewith.ApplyPatch

open Lib

/-! ## The entry points -/

def ParseError.display : ParseError → Text
  | invalidPatchError message => "invalid patch: ".toList ++ message
  | invalidHunkError message lineNumber =>
      "invalid hunk at line ".toList ++ (toString lineNumber).toList ++ ", ".toList ++ message

def ApplyPatchError.display : ApplyPatchError → Text
  | parseError source => source.display
  | ioError context source => context ++ ": ".toList ++ source.message
  | computeReplacements message => message

def ApplyPatchError.ofIo (err : IoError) : ApplyPatchError := .ioError "I/O error".toList err

namespace EngineError

/-- The outermost message. -/
def display : EngineError → Text
  | message text => text
  | io source => source.message
  | applyPatch source => source.display
  | context text _ => text

/-- The I/O error behind an error, through its contexts. -/
def ioSource : EngineError → Option IoError
  | message _ => none
  | io source => some source
  | applyPatch _ => none
  | context _ source => source.ioSource

def toApplyPatchError (error : EngineError) : ApplyPatchError :=
  match error.ioSource with
  | some source => .ofIo source
  | none => .ioError error.display ⟨.other, error.display⟩

end EngineError

/-- Where a run prints: each write of lines may fail. -/
structure Output where
  stdout : List Text → Except IoError Unit
  stderr : List Text → Except IoError Unit

def summary (affected : AffectedPaths) : List Text :=
  "Success. Updated the following files:".toList ::
    (affected.added.map ("A ".toList ++ ·) ++ affected.modified.map ("M ".toList ++ ·) ++
      affected.deleted.map ("D ".toList ++ ·))

structure ApplyPatchFailure where
  error : ApplyPatchError
  delta : AppliedPatchDelta

section

variable {σ : Type} (fs : FileSystem σ) (home : Option PathBuf) (out : Output)

def applyHunks (hunks : List Hunk) (cwd : AbsolutePathBuf) :
    Exec σ ApplyPatchFailure AppliedPatchDelta := fun disk =>
  match applyHunksToFiles fs home cwd hunks (.start disk .empty) with
  | (.ok affected, s) =>
      match out.stdout (summary affected) with
      | .ok () => (.ok s.delta, s.disk)
      | .error err => (.error ⟨.ofIo err, s.delta⟩, s.disk)
  | (.error error, s) =>
      match out.stderr [error.display] with
      | .ok () => (.error ⟨error.toApplyPatchError, s.delta⟩, s.disk)
      | .error err => (.error ⟨.ofIo err, s.delta⟩, s.disk)

def parseFailureLine : ParseError → Text
  | .invalidPatchError message => "Invalid patch: ".toList ++ message
  | .invalidHunkError message lineNumber =>
      "Invalid patch hunk on line ".toList ++ (toString lineNumber).toList ++ ": ".toList ++ message

def applyPatch (patch : Text) (cwd : AbsolutePathBuf) :
    Exec σ ApplyPatchFailure AppliedPatchDelta := fun disk =>
  match parsePatch patch with
  | .ok source => applyHunks fs home out source.hunks cwd disk
  | .error e =>
      match out.stderr [parseFailureLine e] with
      | .ok () => (.error ⟨.parseError e, .empty⟩, disk)
      | .error err => (.error ⟨.ofIo err, .empty⟩, disk)

end

/-- The record of a finished run, successful or not. -/
def deltaOf : Except ApplyPatchFailure AppliedPatchDelta → AppliedPatchDelta
  | .ok delta => delta
  | .error failure => failure.delta

/-! ## Text files -/

section

variable {σ : Type}

/-- Between the two disks no paths come to share a file, and a plain file that is there stays
one. -/
structure Settled (fs : FileSystem σ) (text : σ → AbsolutePathBuf → Option Text)
    (shares : σ → AbsolutePathBuf → AbsolutePathBuf → Prop) (disk disk' : σ) : Prop where
  shares : ∀ p q, shares disk' p q → shares disk p q
  plain : ∀ p, text disk p ≠ none → supportsDelta fs disk p = true → supportsDelta fs disk' p = true

/-- The text of the files of a disk, the paths that share a file, and how the operations act on
them.  Paths share a file when links make them lead to it, whether it is there yet or not.  Writing
or removing a plain file changes the text of the paths that share it and of no other.  Nothing is
assumed about a write that fails, other than that one which misses a directory has written
nothing. -/
structure TextFileLaws (fs : FileSystem σ) (text : σ → AbsolutePathBuf → Option Text)
    (shares : σ → AbsolutePathBuf → AbsolutePathBuf → Prop) : Prop where
  read_ok : ∀ disk p content, fs.readFileText disk p = .ok content → text disk p = some content
  read_notFound : ∀ disk p err, fs.readFileText disk p = .error err → err.kind = .notFound →
    text disk p = none
  write_ok : ∀ disk disk' p content, supportsDelta fs disk p = true →
    fs.writeFile p content disk = (.ok (), disk') →
    text disk' p = some content ∧
      (∀ q, q ≠ p → ¬ shares disk p q → text disk' q = text disk q) ∧
      Settled fs text shares disk disk'
  write_notFound : ∀ disk disk' p content err, supportsDelta fs disk p = true →
    fs.writeFile p content disk = (.error err, disk') → err.kind = .notFound →
    text disk' = text disk ∧ supportsDelta fs disk' p = true ∧ Settled fs text shares disk disk'
  createDirectory_ok : ∀ disk disk' p parent, p.parent = some parent →
    supportsDelta fs disk p = true → fs.createDirectory parent disk = (.ok (), disk') →
    text disk' = text disk ∧ supportsDelta fs disk' p = true ∧ Settled fs text shares disk disk'
  remove_frame : ∀ disk p q, supportsDelta fs disk p = true → q ≠ p → ¬ shares disk p q →
    text (fs.remove p disk).2 q = text disk q
  remove_shares : ∀ disk p q r, supportsDelta fs disk p = true →
    shares (fs.remove p disk).2 q r → shares disk q r
  remove_ok : ∀ disk disk' p, supportsDelta fs disk p = true →
    fs.remove p disk = (.ok (), disk') → text disk' p = none

/-- No two of the paths share a file. -/
def Apart (shares : σ → AbsolutePathBuf → AbsolutePathBuf → Prop) (paths : Set AbsolutePathBuf)
    (disk : σ) : Prop :=
  ∀ p ∈ paths, ∀ q ∈ paths, q ≠ p → ¬ shares disk p q

open Classical in
/-- The text of the files at some of the paths. -/
noncomputable def textWithin (paths : Set AbsolutePathBuf)
    (text : AbsolutePathBuf → Option Text) (p : AbsolutePathBuf) : Option Text :=
  if p ∈ paths then text p else none

variable {fs : FileSystem σ} {text : σ → AbsolutePathBuf → Option Text}
  {shares : σ → AbsolutePathBuf → AbsolutePathBuf → Prop} {paths : Set AbsolutePathBuf}

theorem textWithin_of_mem {p : AbsolutePathBuf} (hp : p ∈ paths)
    (content : AbsolutePathBuf → Option Text) : textWithin paths content p = content p :=
  if_pos hp

theorem textWithin_of_notMem {p : AbsolutePathBuf} (hp : p ∉ paths)
    (content : AbsolutePathBuf → Option Text) : textWithin paths content p = none :=
  if_neg hp

/-- Within the paths, only the text at `p` has changed. -/
theorem textWithin_update {p : AbsolutePathBuf} {before after : AbsolutePathBuf → Option Text}
    {content : Option Text} (hp : p ∈ paths) (hself : after p = content)
    (hother : ∀ q ∈ paths, q ≠ p → after q = before q) :
    textWithin paths after = Function.update (textWithin paths before) p content := by
  funext q
  by_cases hq : q = p
  · subst hq
    rw [Function.update_self, textWithin_of_mem hp, hself]
  · rw [Function.update_of_ne hq]
    by_cases hmem : q ∈ paths
    · rw [textWithin_of_mem hmem, textWithin_of_mem hmem, hother q hmem hq]
    · rw [textWithin_of_notMem hmem, textWithin_of_notMem hmem]

theorem Settled.refl (disk : σ) : Settled fs text shares disk disk :=
  ⟨fun _ _ h => h, fun _ _ h => h⟩

theorem Settled.trans {disk disk₁ disk₂ : σ} (h : Settled fs text shares disk disk₁)
    (htext : text disk₁ = text disk) (h' : Settled fs text shares disk₁ disk₂) :
    Settled fs text shares disk disk₂ where
  shares p q hshares := h.shares p q (h'.shares p q hshares)
  plain p hp hplain := h'.plain p (htext ▸ hp) (h.plain p hp hplain)

theorem Apart.of_shares {disk disk' : σ} (h : Apart shares paths disk)
    (hshares : ∀ p q, shares disk' p q → shares disk p q) : Apart shares paths disk' :=
  fun p hp q hq hne hshare => h p hp q hq hne (hshares p q hshare)

end

/-- The recorded change is how the text files went from `before` to `after`. -/
def AppliedPatchFileChange.Describes (p : AbsolutePathBuf)
    (before after : AbsolutePathBuf → Option Text) : AppliedPatchFileChange → Prop
  | add content overwritten =>
      before p = overwritten ∧ after = Function.update before p (some content)
  | delete content => before p = some content ∧ after = Function.update before p none
  | update none oldContent _ newContent =>
      before p = some oldContent ∧ after = Function.update before p (some newContent)
  | update (some dest) oldContent overwritten newContent =>
      dest ≠ p ∧ before p = some oldContent ∧ before dest = overwritten ∧
        after = Function.update (Function.update before dest (some newContent)) p none

/-- The recorded changes lead, one after the other, from `before` to `after`. -/
def Describes : List AppliedPatchChange → (before after : AbsolutePathBuf → Option Text) → Prop
  | [], before, after => after = before
  | c :: changes, before, after =>
      ∃ between, c.change.Describes c.path before between ∧ Describes changes between after

theorem describes_concat {changes : List AppliedPatchChange} {c : AppliedPatchChange}
    {before between after : AbsolutePathBuf → Option Text} (h : Describes changes before between)
    (hc : c.change.Describes c.path between after) : Describes (changes ++ [c]) before after := by
  induction changes generalizing before with
  | nil =>
      cases h
      exact ⟨after, hc, rfl⟩
  | cons first changes ih =>
      obtain ⟨next, hfirst, hrest⟩ := h
      exact ⟨next, hfirst, ih hrest⟩

/-! ## Outcomes of the engine's steps -/

section

variable {σ : Type} {fs : FileSystem σ}

theorem tryWrite_run (m : Exec σ EngineError Unit) (s : EngineState σ) :
    tryWrite m s = match m s.disk with
      | (.ok (), disk') => (.ok (), s.setDisk disk')
      | (.error err, disk') => (.error err, (s.setDisk disk').inexact) := by
  have hrun : onDisk (Exec.attempt m : Exec σ EngineError _) s =
      (.ok (m s.disk).1, s.setDisk (m s.disk).2) := rfl
  unfold tryWrite
  rw [Exec.bind_run_ok hrun]
  rcases m s.disk with ⟨_ | _, disk'⟩ <;> rfl

/-- A removal leaves the disk alone, succeeds, or fails and keeps the record
exact only if the file still reads as expected. -/
theorem removeOrNote_run (fs : FileSystem σ) (context : Text) (p : AbsolutePathBuf)
    (expected : Option Text) (s : EngineState σ) :
    (∃ err, removeOrNote fs context p expected s = (.error err, s)) ∨
    (∃ disk', fs.remove p s.disk = (.ok (), disk') ∧
      removeOrNote fs context p expected s = (.ok (), s.setDisk disk')) ∨
    ∃ err, removeOrNote fs context p expected s =
      (.error err, (s.setDisk (fs.remove p s.disk).2).andExact
        (removeFailureWasSideEffectFree fs (fs.remove p s.disk).2 p expected)) := by
  unfold removeOrNote
  obtain ⟨r, hensure⟩ : ∃ r, ensureNotDirectory fs p s.disk = (r, s.disk) := by
    unfold ensureNotDirectory
    rw [Exec.bind_run_ok (Exec.gets_run _ _)]
    rcases fs.getMetadata s.disk p with err | metadata
    · exact ⟨_, rfl⟩
    · by_cases hdir : metadata.isDirectory = true
      · exact ⟨_, by simp only [hdir, if_true]; rfl⟩
      · exact ⟨_, by simp only [hdir]; rfl⟩
  cases r with
  | error err =>
      have hcheck : withContext context (onDisk (ensureNotDirectory fs p)) s =
          (.error (.context context (.io err)), s) := by
        refine Exec.mapErr_run_error ?_ _
        simp only [onDisk, Exec.zoom_run, hensure]
        rfl
      rw [Exec.bind_run_error hcheck]
      exact .inl ⟨_, rfl⟩
  | ok u =>
      have hcheck : withContext context (onDisk (ensureNotDirectory fs p)) s = (.ok (), s) := by
        refine Exec.mapErr_run_ok ?_ _
        simp only [onDisk, Exec.zoom_run, hensure]
        rfl
      have hrun : onDisk (Exec.attempt (fs.remove p) : Exec σ EngineError _) s =
          (.ok (fs.remove p s.disk).1, s.setDisk (fs.remove p s.disk).2) := rfl
      rw [Exec.bind_run_ok hcheck, Exec.bind_run_ok hrun]
      rcases hremove : fs.remove p s.disk with ⟨_ | _, disk'⟩
      · exact .inr (.inr ⟨_, rfl⟩)
      · exact .inr (.inl ⟨disk', rfl, rfl⟩)

end

/-! ## The record stays true -/

section

variable {σ : Type} {fs : FileSystem σ} {text : σ → AbsolutePathBuf → Option Text}
  {shares : σ → AbsolutePathBuf → AbsolutePathBuf → Prop} {paths : Set AbsolutePathBuf}
  {before : AbsolutePathBuf → Option Text} {home : Option PathBuf} {cwd : AbsolutePathBuf}

/-- While the record is exact no two of the paths share a file, and it leads from `before` to the
text files now. -/
def RecordTrue (text : σ → AbsolutePathBuf → Option Text)
    (shares : σ → AbsolutePathBuf → AbsolutePathBuf → Prop) (paths : Set AbsolutePathBuf)
    (before : AbsolutePathBuf → Option Text) (s : EngineState σ) : Prop :=
  s.delta.exact = true → Apart shares paths s.disk ∧
    Describes s.delta.changes before (textWithin paths (text s.disk))

theorem recordTrue_inexact {s : EngineState σ} (h : s.delta.exact = false) :
    RecordTrue text shares paths before s := by
  intro hexact
  rw [h] at hexact
  cases hexact

theorem recordTrue_of_looks {s s' : EngineState σ} {P : Prop}
    (h : RecordTrue text shares paths before s) (hlooks : Looks s s' P) :
    RecordTrue text shares paths before s' := by
  intro hexact
  rw [hlooks.changes, hlooks.disk]
  exact h (hlooks.exact hexact).1

theorem readsAs_text (hlaws : TextFileLaws fs text shares) {disk : σ} {p : AbsolutePathBuf}
    {content : Option Text} (h : ReadsAs fs disk p content) : text disk p = content := by
  unfold ReadsAs at h
  cases hread : fs.readFileText disk p with
  | ok c =>
      rw [hread] at h
      rw [h, hlaws.read_ok disk p c hread]
  | error err =>
      rw [hread] at h
      rw [h.2, hlaws.read_notFound disk p err hread h.1]

theorem createParentDirectories_text (hlaws : TextFileLaws fs text shares) {disk disk' : σ}
    {p : AbsolutePathBuf} (hplain : supportsDelta fs disk p = true)
    (hrun : createParentDirectories fs p disk = (.ok (), disk')) :
    text disk' = text disk ∧ supportsDelta fs disk' p = true ∧
      Settled fs text shares disk disk' := by
  unfold createParentDirectories at hrun
  cases hparent : p.parent with
  | none =>
      rw [hparent] at hrun
      cases hrun
      exact ⟨rfl, hplain, Settled.refl disk⟩
  | some parent =>
      rw [hparent] at hrun
      exact hlaws.createDirectory_ok disk disk' p parent hparent hplain
        (Exec.of_mapErr_run_ok hrun)

theorem write_ok_text (hlaws : TextFileLaws fs text shares) {disk disk' : σ}
    {p : AbsolutePathBuf} {content : Text} (hp : p ∈ paths) (hapart : Apart shares paths disk)
    (hplain : supportsDelta fs disk p = true)
    (hrun : fs.writeFile p content disk = (.ok (), disk')) :
    textWithin paths (text disk') =
        Function.update (textWithin paths (text disk)) p (some content) ∧
      Settled fs text shares disk disk' := by
  obtain ⟨hself, hother, hsettled⟩ := hlaws.write_ok disk disk' p content hplain hrun
  refine ⟨textWithin_update hp hself ?_, hsettled⟩
  intro q hq hne
  exact hother q hne (hapart p hp q hq hne)

/-- Among paths that share no files, a write with the retry acts on the path it is for. -/
theorem writeFileWithMissingParentRetry_text (hlaws : TextFileLaws fs text shares) {disk disk' : σ}
    {p : AbsolutePathBuf} {content : Text} (hp : p ∈ paths) (hapart : Apart shares paths disk)
    (hplain : supportsDelta fs disk p = true)
    (hrun : writeFileWithMissingParentRetry fs p content disk = (.ok (), disk')) :
    textWithin paths (text disk') =
        Function.update (textWithin paths (text disk)) p (some content) ∧
      Settled fs text shares disk disk' := by
  unfold writeFileWithMissingParentRetry at hrun
  rw [Exec.bind_run_ok (Exec.attempt_run _ disk)] at hrun
  rcases hwrite : fs.writeFile p content disk with ⟨_ | _, disk₁⟩
  · rename_i err
    rw [hwrite] at hrun
    by_cases hkind : err.kind = .notFound
    · obtain ⟨htext₁, hplain₁, hsettled₁⟩ :=
        hlaws.write_notFound disk disk₁ p content err hplain hwrite hkind
      simp only [hkind, if_true] at hrun
      obtain ⟨_, disk₂, hparents, hsecond⟩ := Exec.exists_of_bind_run_ok hrun
      obtain ⟨htext₂, hplain₂, hsettled₂⟩ := createParentDirectories_text hlaws hplain₁ hparents
      have hbefore := hsettled₁.trans htext₁ hsettled₂
      have hsame : text disk₂ = text disk := htext₂.trans htext₁
      obtain ⟨htext, hsettled⟩ := write_ok_text hlaws hp (hapart.of_shares hbefore.shares) hplain₂
        (Exec.of_mapErr_run_ok hsecond)
      exact ⟨by rw [htext, hsame], hbefore.trans hsame hsettled⟩
    · simp only [hkind, if_false] at hrun
      cases hrun
  · rw [hwrite] at hrun
    obtain rfl : disk₁ = disk' := congrArg Prod.snd hrun
    exact write_ok_text hlaws hp hapart hplain hwrite

theorem remove_ok_text (hlaws : TextFileLaws fs text shares) {disk disk' : σ}
    {p : AbsolutePathBuf} (hp : p ∈ paths) (hapart : Apart shares paths disk)
    (hplain : supportsDelta fs disk p = true) (hrun : fs.remove p disk = (.ok (), disk')) :
    textWithin paths (text disk') = Function.update (textWithin paths (text disk)) p none := by
  refine textWithin_update hp (hlaws.remove_ok disk disk' p hplain hrun) ?_
  intro q hq hne
  rw [← hlaws.remove_frame disk p q hplain hne (hapart p hp q hq hne), hrun]

/-- A removal that failed but left the file readable as before changed nothing. -/
theorem remove_failure_text (hlaws : TextFileLaws fs text shares) {disk : σ}
    {p : AbsolutePathBuf} {content : Text} (hp : p ∈ paths) (hapart : Apart shares paths disk)
    (hplain : supportsDelta fs disk p = true) (htext : text disk p = some content)
    (hfree : removeFailureWasSideEffectFree fs (fs.remove p disk).2 p (some content) = true) :
    textWithin paths (text (fs.remove p disk).2) = textWithin paths (text disk) := by
  have hself : text (fs.remove p disk).2 p = some content := by
    unfold removeFailureWasSideEffectFree at hfree
    cases hread : fs.readFileText (fs.remove p disk).2 p with
    | error err => simp [hread] at hfree
    | ok content' =>
        simp only [hread, decide_eq_true_eq] at hfree
        rw [hlaws.read_ok _ _ _ hread, hfree]
  rw [textWithin_update hp hself fun q hq hne =>
    hlaws.remove_frame disk p q hplain hne (hapart p hp q hq hne)]
  rw [← htext, ← textWithin_of_mem hp (text disk), Function.update_eq_self]

theorem apart_remove (hlaws : TextFileLaws fs text shares) {disk : σ} {p : AbsolutePathBuf}
    (hapart : Apart shares paths disk) (hplain : supportsDelta fs disk p = true) :
    Apart shares paths (fs.remove p disk).2 :=
  hapart.of_shares fun q r => hlaws.remove_shares disk p q r hplain

theorem recordTrue_pushChange {s t : EngineState σ} {p : AbsolutePathBuf}
    {change : AppliedPatchFileChange} (h : RecordTrue text shares paths before s)
    (hdelta : t.delta = ⟨s.delta.changes ++ [⟨p, change⟩], s.delta.exact⟩)
    (hstep : s.delta.exact = true → Apart shares paths s.disk → Apart shares paths t.disk ∧
      change.Describes p (textWithin paths (text s.disk)) (textWithin paths (text t.disk))) :
    RecordTrue text shares paths before t := by
  intro hexact
  rw [hdelta] at hexact ⊢
  obtain ⟨hapart, hdescribes⟩ := h hexact
  obtain ⟨hapart', hchange⟩ := hstep hexact hapart
  exact ⟨hapart', describes_concat hdescribes hchange⟩

/-- The removal either fails with the record still true, or has removed the file. -/
theorem recordTrue_removeOrNote (hlaws : TextFileLaws fs text shares) {s : EngineState σ}
    {p : AbsolutePathBuf} {expected : Option Text} (hp : p ∈ paths)
    (h : RecordTrue text shares paths before s)
    (hknown : s.delta.exact = true → supportsDelta fs s.disk p = true ∧
      ∃ content, expected = some content ∧ text s.disk p = some content) (context : Text) :
    (∃ err t, removeOrNote fs context p expected s = (.error err, t) ∧
      RecordTrue text shares paths before t) ∨
    ∃ disk', removeOrNote fs context p expected s = (.ok (), s.setDisk disk') ∧
      (s.delta.exact = true → Apart shares paths disk' ∧
        textWithin paths (text disk') =
          Function.update (textWithin paths (text s.disk)) p none) := by
  rcases removeOrNote_run fs context p expected s with
    ⟨err, hrun⟩ | ⟨disk', hremove, hrun⟩ | ⟨err, hrun⟩
  · exact .inl ⟨err, s, hrun, h⟩
  · refine .inr ⟨disk', hrun, fun hexact => ?_⟩
    have hapart := (h hexact).1
    have hplain := (hknown hexact).1
    have hapart' := apart_remove hlaws hapart hplain
    rw [hremove] at hapart'
    exact ⟨hapart', remove_ok_text hlaws hp hapart hplain hremove⟩
  · refine .inl ⟨err, _, hrun, ?_⟩
    intro hexact
    obtain ⟨hs, hfree⟩ := Bool.and_eq_true_iff.1 hexact
    obtain ⟨hplain, content, rfl, htext⟩ := hknown hs
    obtain ⟨hapart, hdescribes⟩ := h hs
    rw [← remove_failure_text hlaws hp hapart hplain htext hfree] at hdescribes
    exact ⟨apart_remove hlaws hapart hplain, hdescribes⟩

theorem recordTrue_applyAddFile (hlaws : TextFileLaws fs text shares) {s : EngineState σ}
    (h : RecordTrue text shares paths before s) (affectedPath : PathBuf) {p : AbsolutePathBuf}
    (hp : p ∈ paths) (contents : Text) :
    RecordTrue text shares paths before (applyAddFile fs affectedPath p contents s).2 := by
  obtain ⟨overwritten, s₁, hread, hlooks⟩ := readOptionalFileTextForDelta_run fs p s
  have hwrite := tryWrite_run (writeFileWithMissingParentRetry fs p contents) s₁
  unfold applyAddFile
  rw [Exec.bind_run_ok hread]
  rcases hrun : writeFileWithMissingParentRetry fs p contents s₁.disk with ⟨_ | _, disk'⟩
  · rw [hrun] at hwrite
    rw [Exec.bind_run_error hwrite]
    exact recordTrue_inexact rfl
  · rw [hrun] at hwrite
    rw [Exec.bind_run_ok hwrite]
    refine recordTrue_pushChange (recordTrue_of_looks h hlooks) rfl fun hexact hapart => ?_
    obtain ⟨-, hplain, hreads⟩ := hlooks.exact hexact
    rw [← hlooks.disk] at hplain hreads
    obtain ⟨htext, hsettled⟩ := writeFileWithMissingParentRetry_text hlaws hp hapart hplain hrun
    refine ⟨hapart.of_shares hsettled.shares, ?_, htext⟩
    rw [textWithin_of_mem hp]
    exact readsAs_text hlaws hreads

/-- A content that cannot be read makes the record inexact before the removal. -/
theorem delete_known (hlaws : TextFileLaws fs text shares) {s : EngineState σ} {p : AbsolutePathBuf}
    {deleted : Option Text} (hdeleted : (fs.readFileText s.disk p).toOption = deleted)
    (h : RecordTrue text shares paths before s)
    (hplain : s.delta.exact = true → supportsDelta fs s.disk p = true) :
    ∃ t, t = (if deleted.isNone then s.inexact else s) ∧ RecordTrue text shares paths before t ∧
      (t.delta.exact = true → supportsDelta fs t.disk p = true ∧
        ∃ content, deleted = some content ∧ text t.disk p = some content) := by
  subst hdeleted
  refine ⟨_, rfl, ?_⟩
  cases hread : fs.readFileText s.disk p with
  | error err =>
      refine ⟨recordTrue_inexact rfl, fun hexact => ?_⟩
      cases hexact
  | ok content =>
      refine ⟨h, fun hexact => ⟨hplain hexact, content, rfl, ?_⟩⟩
      exact hlaws.read_ok _ _ _ hread

theorem recordTrue_applyDeleteFile (hlaws : TextFileLaws fs text shares) {s : EngineState σ}
    (h : RecordTrue text shares paths before s) (affectedPath : PathBuf) {p : AbsolutePathBuf}
    (hp : p ∈ paths) :
    RecordTrue text shares paths before (applyDeleteFile fs affectedPath p s).2 := by
  obtain ⟨s₁, hnote, hlooks⟩ := noteExistingPathDeltaSupport_run fs p s
  have hplain : s₁.delta.exact = true → supportsDelta fs s₁.disk p = true := by
    intro hexact
    rw [hlooks.disk]
    exact (hlooks.exact hexact).2
  obtain ⟨deleted, hdeleted⟩ : ∃ deleted, (fs.readFileText s₁.disk p).toOption = deleted := ⟨_, rfl⟩
  obtain ⟨s₂, hs₂, h₂, hknown⟩ :=
    delete_known hlaws hdeleted (recordTrue_of_looks h hlooks) hplain
  unfold applyDeleteFile
  rw [Exec.bind_run_ok hnote, Exec.bind_run_ok (Exec.gets_run _ s₁), hdeleted,
    Exec.bind_run_ok (Exec.modify_run _ s₁), ← hs₂]
  rcases recordTrue_removeOrNote hlaws hp h₂ hknown
      ("Failed to delete file ".toList ++ p.display) with
    ⟨err, t, hrun, ht⟩ | ⟨disk', hrun, hremoved⟩
  · rw [Exec.bind_run_error hrun]
    exact ht
  · rw [Exec.bind_run_ok hrun]
    cases deleted with
    | none =>
        refine recordTrue_inexact ?_
        rw [hs₂]
        rfl
    | some content =>
        refine recordTrue_pushChange h₂ rfl fun hexact _ => ?_
        obtain ⟨-, c, hc, htext⟩ := hknown hexact
        cases hc
        obtain ⟨hapart, hafter⟩ := hremoved hexact
        exact ⟨hapart, (textWithin_of_mem hp _).trans htext, hafter⟩

theorem recordTrue_applyUpdateInPlace (hlaws : TextFileLaws fs text shares) {s : EngineState σ}
    {p : AbsolutePathBuf} {applied : AppliedPatch} (hp : p ∈ paths)
    (h : RecordTrue text shares paths before s)
    (hplain : s.delta.exact = true → supportsDelta fs s.disk p = true)
    (htext : text s.disk p = some applied.originalContents) (affectedPath : PathBuf) :
    RecordTrue text shares paths before (applyUpdateInPlace fs affectedPath p applied s).2 := by
  have hwrite := tryWrite_run
    (withContext (writeFailure p) (fs.writeFile p applied.newContents)) s
  unfold applyUpdateInPlace
  rcases hrun : withContext (writeFailure p) (fs.writeFile p applied.newContents) s.disk with
    ⟨_ | _, disk'⟩
  · rw [hrun] at hwrite
    rw [Exec.bind_run_error hwrite]
    exact recordTrue_inexact rfl
  · rw [hrun] at hwrite
    rw [Exec.bind_run_ok hwrite]
    refine recordTrue_pushChange h rfl fun hexact hapart => ?_
    obtain ⟨hafter, hsettled⟩ :=
      write_ok_text hlaws hp hapart (hplain hexact) (Exec.of_mapErr_run_ok hrun)
    exact ⟨hapart.of_shares hsettled.shares, (textWithin_of_mem hp _).trans htext, hafter⟩

theorem recordTrue_finishMove (hlaws : TextFileLaws fs text shares) {s t : EngineState σ}
    {p dest : AbsolutePathBuf} {applied : AppliedPatch} {overwritten : Option Text}
    (hp : p ∈ paths) (hdestIn : dest ∈ paths) (h : RecordTrue text shares paths before s)
    (hne : dest ≠ p) (hdelta : t.delta = s.delta)
    (hplain : s.delta.exact = true → supportsDelta fs t.disk p = true)
    (htext : text s.disk p = some applied.originalContents)
    (hdest : s.delta.exact = true → text s.disk dest = overwritten)
    (hwritten : s.delta.exact = true → Apart shares paths t.disk ∧
      textWithin paths (text t.disk) =
        Function.update (textWithin paths (text s.disk)) dest (some applied.newContents))
    (affectedPath : PathBuf) :
    RecordTrue text shares paths before
      (finishMove fs affectedPath p dest applied overwritten t).2 := by
  -- The write of the destination is recorded first, and stands if the removal fails.
  set t₁ := t.pushChange dest (.add applied.newContents overwritten) with ht₁
  have hoverwritten : s.delta.exact = true → textWithin paths (text s.disk) dest = overwritten :=
    fun hexact => (textWithin_of_mem hdestIn _).trans (hdest hexact)
  have h₁ : RecordTrue text shares paths before t₁ := by
    refine recordTrue_pushChange h (by rw [ht₁, ← hdelta]; rfl) fun hexact _ => ?_
    exact ⟨(hwritten hexact).1, hoverwritten hexact, (hwritten hexact).2⟩
  have hexact₁ : t₁.delta.exact = s.delta.exact := by rw [ht₁, ← hdelta]; rfl
  have hknown : t₁.delta.exact = true → supportsDelta fs t₁.disk p = true ∧
      ∃ content, some applied.originalContents = some content ∧ text t₁.disk p = some content := by
    intro hexact
    rw [hexact₁] at hexact
    refine ⟨hplain hexact, _, rfl, ?_⟩
    have hother := congrFun (hwritten hexact).2 p
    rw [Function.update_of_ne hne.symm, textWithin_of_mem hp, textWithin_of_mem hp, htext] at hother
    exact hother
  unfold finishMove
  rw [Exec.bind_run_ok (Exec.gets_run _ t), Exec.bind_run_ok (Exec.modify_run _ t), ← ht₁]
  rcases recordTrue_removeOrNote hlaws hp h₁ hknown
      ("Failed to remove original ".toList ++ p.display) with
    ⟨err, t₂, hrun, ht₂⟩ | ⟨disk', hrun, hremoved⟩
  · rw [Exec.bind_run_error hrun]
    exact ht₂
  · rw [Exec.bind_run_ok hrun]
    have hrecord : (t₁.delta.changes.set t.delta.changes.length ⟨p, .update (some dest)
        applied.originalContents overwritten applied.newContents⟩) =
        s.delta.changes ++ [⟨p, .update (some dest) applied.originalContents overwritten
          applied.newContents⟩] := by
      rw [ht₁, ← hdelta]
      simp [EngineState.pushChange]
    have hdelta₂ : (Exec.modify (E := EngineError) (fun s : EngineState σ =>
        (s.setChange t.delta.changes.length p (.update (some dest) applied.originalContents
          overwritten applied.newContents)).pushModified affectedPath) (t₁.setDisk disk')).2.delta =
        ⟨s.delta.changes ++ [⟨p, .update (some dest) applied.originalContents overwritten
          applied.newContents⟩], s.delta.exact⟩ := by
      rw [← hrecord, ← hexact₁]
      rfl
    refine recordTrue_pushChange h hdelta₂ fun hexact _ => ?_
    obtain ⟨hapart, hafter⟩ := hremoved (hexact₁.trans hexact)
    refine ⟨hapart, hne, (textWithin_of_mem hp _).trans htext, hoverwritten hexact, ?_⟩
    rw [← (hwritten hexact).2]
    exact hafter

theorem recordTrue_applyMove (hlaws : TextFileLaws fs text shares) {s : EngineState σ}
    {p dest : AbsolutePathBuf} {applied : AppliedPatch} (hp : p ∈ paths) (hdestIn : dest ∈ paths)
    (h : RecordTrue text shares paths before s)
    (hne : dest ≠ p) (hplain : s.delta.exact = true → supportsDelta fs s.disk p = true)
    (htext : text s.disk p = some applied.originalContents) (affectedPath : PathBuf) :
    RecordTrue text shares paths before (applyMove fs affectedPath p dest applied s).2 := by
  obtain ⟨overwritten, s₁, hread, hlooks⟩ := readOptionalFileTextForDelta_run fs dest s
  have hwrite := tryWrite_run (writeFileWithMissingParentRetry fs dest applied.newContents) s₁
  have h₁ := recordTrue_of_looks h hlooks
  unfold applyMove
  rw [Exec.bind_run_ok hread]
  rcases hrun : writeFileWithMissingParentRetry fs dest applied.newContents s₁.disk with
    ⟨_ | _, disk'⟩
  · rw [hrun] at hwrite
    rw [Exec.bind_run_error hwrite]
    exact recordTrue_inexact rfl
  · rw [hrun] at hwrite
    rw [Exec.bind_run_ok hwrite]
    rw [← hlooks.disk] at hplain htext
    have hreads : s₁.delta.exact = true → text s₁.disk dest = overwritten := by
      intro hexact
      obtain ⟨-, -, hreads⟩ := hlooks.exact hexact
      rw [← hlooks.disk] at hreads
      exact readsAs_text hlaws hreads
    have hwritten : s₁.delta.exact = true →
        textWithin paths (text disk') =
            Function.update (textWithin paths (text s₁.disk)) dest (some applied.newContents) ∧
          Settled fs text shares s₁.disk disk' := by
      intro hexact
      obtain ⟨-, hdestPlain, -⟩ := hlooks.exact hexact
      rw [← hlooks.disk] at hdestPlain
      exact writeFileWithMissingParentRetry_text hlaws hdestIn (h₁ hexact).1 hdestPlain hrun
    refine recordTrue_finishMove (t := s₁.setDisk disk') hlaws hp hdestIn h₁ hne rfl ?_ htext
      hreads ?_ affectedPath
    · intro hexact
      refine (hwritten hexact).2.plain p ?_ (hplain (hlooks.exact hexact).1)
      rw [htext]
      simp
    · intro hexact
      exact ⟨(h₁ hexact).1.of_shares (hwritten hexact).2.shares, (hwritten hexact).1⟩

/-- Started on this disk, the hunk writes its file and then removes it again:
it moves the file onto itself, and its chunks apply. -/
def MovesOntoItself (fs : FileSystem σ) (home : Option PathBuf) (cwd : AbsolutePathBuf) (disk : σ)
    (hunk : Hunk) : Prop :=
  hunk.destination home cwd = some (hunk.resolvePath home cwd) ∧
    hunk.chunksApply fs home cwd disk = true

instance (disk : σ) (hunk : Hunk) : Decidable (MovesOntoItself fs home cwd disk hunk) :=
  inferInstanceAs (Decidable (_ ∧ _))

theorem derive_ok_text (hlaws : TextFileLaws fs text shares) {disk : σ} {p : AbsolutePathBuf}
    {chunks : List UpdateFileChunk} {applied : AppliedPatch}
    (h : deriveNewContentsFromChunks fs disk p chunks = .ok applied) :
    text disk p = some applied.originalContents := by
  unfold deriveNewContentsFromChunks at h
  cases hread : fs.readFileText disk p with
  | error err => simp [hread] at h
  | ok content =>
      rw [hread] at h
      dsimp only at h
      split at h
      · cases h
      · cases h
        exact hlaws.read_ok _ _ _ hread

theorem recordTrue_applyUpdateFile (hlaws : TextFileLaws fs text shares) {s : EngineState σ}
    {p : AbsolutePathBuf} {movePath : Option PathBuf} {chunks : List UpdateFileChunk}
    (h : RecordTrue text shares paths before s)
    (hin : (deriveNewContentsFromChunks fs s.disk p chunks).isOk = true → p ∈ paths ∧
      ∀ dest, movePath = some dest →
        AbsolutePathBuf.resolvePathAgainstBase home dest cwd ∈ paths ∧
          AbsolutePathBuf.resolvePathAgainstBase home dest cwd ≠ p)
    (affectedPath : PathBuf) :
    RecordTrue text shares paths before
      (applyUpdateFile fs home cwd affectedPath p movePath chunks s).2 := by
  obtain ⟨s₁, hnote, hlooks⟩ := noteExistingPathDeltaSupport_run fs p s
  have h₁ := recordTrue_of_looks h hlooks
  have hplain : s₁.delta.exact = true → supportsDelta fs s₁.disk p = true := by
    intro hexact
    rw [hlooks.disk]
    exact (hlooks.exact hexact).2
  unfold applyUpdateFile
  rw [Exec.bind_run_ok hnote, Exec.bind_run_ok (Exec.gets_run _ s₁)]
  cases hderive : deriveNewContentsFromChunks fs s₁.disk p chunks with
  | error err => exact h₁
  | ok applied =>
      have htext := derive_ok_text hlaws hderive
      obtain ⟨hp, hmove⟩ := hin (by rw [← hlooks.disk, hderive]; rfl)
      cases movePath with
      | none => exact recordTrue_applyUpdateInPlace hlaws hp h₁ hplain htext affectedPath
      | some dest =>
          obtain ⟨hdest, hne⟩ := hmove dest rfl
          exact recordTrue_applyMove hlaws hp hdest h₁ hne hplain htext affectedPath

theorem mem_changedPaths_updateFile {disk : σ} {path : PathBuf} {movePath : Option PathBuf}
    {chunks : List UpdateFileChunk} {p : AbsolutePathBuf}
    (happly : (Hunk.updateFile path movePath chunks).chunksApply fs home cwd disk = true)
    (hp : p ∈ (Hunk.updateFile path movePath chunks).paths home cwd) :
    p ∈ (Hunk.updateFile path movePath chunks).changedPaths fs home cwd disk := by
  simp only [Hunk.changedPaths, happly, if_true]
  exact hp

theorem recordTrue_applyHunk (hlaws : TextFileLaws fs text shares) {s : EngineState σ}
    {hunk : Hunk} (h : RecordTrue text shares paths before s)
    (hside : (∀ p ∈ hunk.changedPaths fs home cwd s.disk, p ∈ paths) ∧
      ¬ MovesOntoItself fs home cwd s.disk hunk) :
    RecordTrue text shares paths before (applyHunk fs home cwd hunk s).2 := by
  obtain ⟨hpaths, hmove⟩ := hside
  cases hunk with
  | addFile path contents =>
      exact recordTrue_applyAddFile hlaws h _ (hpaths _ List.mem_cons_self) _
  | deleteFile path => exact recordTrue_applyDeleteFile hlaws h _ (hpaths _ List.mem_cons_self)
  | updateFile path movePath chunks =>
      refine recordTrue_applyUpdateFile hlaws h (fun happly => ⟨?_, ?_⟩) _
      · exact hpaths _ (mem_changedPaths_updateFile happly List.mem_cons_self)
      · rintro dest rfl
        refine ⟨hpaths _ (mem_changedPaths_updateFile happly ?_), ?_⟩
        · exact List.mem_cons_of_mem _ (List.mem_singleton_self _)
        · exact fun heq => hmove ⟨congrArg some heq, happly⟩

/-- The paths that the hunks of a run write or remove. -/
def changedPathsOf (fs : FileSystem σ) (home : Option PathBuf) (cwd : AbsolutePathBuf)
    (started : List (Hunk × EngineState σ)) : List AbsolutePathBuf :=
  started.flatMap fun e => e.1.changedPaths fs home cwd e.2.disk

/-- A run that moves no file onto itself keeps its record true. -/
theorem recordTrue_applyHunksToFiles (hlaws : TextFileLaws fs text shares) {disk : σ}
    {hunks : List Hunk} (hapart : Apart shares paths disk)
    (hpaths : ∀ p ∈ changedPathsOf fs home cwd (startedHunks fs home cwd hunks disk), p ∈ paths)
    (hmove : ∀ e ∈ startedHunks fs home cwd hunks disk,
      ¬ MovesOntoItself fs home cwd e.2.disk e.1) :
    RecordTrue text shares paths (textWithin paths (text disk))
      (applyHunksToFiles fs home cwd hunks (.start disk .empty)).2 := by
  have hside : ∀ e ∈ startedHunks fs home cwd hunks disk,
      (∀ p ∈ e.1.changedPaths fs home cwd e.2.disk, p ∈ paths) ∧
        ¬ MovesOntoItself fs home cwd e.2.disk e.1 := by
    intro e he
    exact ⟨fun p hp => hpaths p (List.mem_flatMap.2 ⟨e, he, hp⟩), hmove e he⟩
  rw [applyHunksToFiles_state]
  exact Exec.forEach_invariant (fun _ _ hs hside => recordTrue_applyHunk hlaws hs hside)
    (fun _ => ⟨hapart, rfl⟩) hside

variable {out : Output} {patch : Text} {disk : σ}

/-- The hunks that a run of a patch text starts. -/
def startedHunksOf (fs : FileSystem σ) (home : Option PathBuf) (patch : Text)
    (cwd : AbsolutePathBuf) (disk : σ) : List (Hunk × EngineState σ) :=
  match parsePatch patch with
  | .ok source => startedHunks fs home cwd source.hunks disk
  | .error _ => []

/-- A run with an exact record, returned on success or on failure: the record describes it, and its
paths stay apart. -/
theorem applyPatch_describes (hlaws : TextFileLaws fs text shares)
    (hapart : Apart shares paths disk)
    (hpaths : ∀ p ∈ changedPathsOf fs home cwd (startedHunksOf fs home patch cwd disk), p ∈ paths)
    (hmove : ∀ e ∈ startedHunksOf fs home patch cwd disk,
      ¬ MovesOntoItself fs home cwd e.2.disk e.1)
    (hexact : (deltaOf (applyPatch fs home out patch cwd disk).1).exact = true) :
    Apart shares paths (applyPatch fs home out patch cwd disk).2 ∧
      Describes (deltaOf (applyPatch fs home out patch cwd disk).1).changes
        (textWithin paths (text disk))
        (textWithin paths (text (applyPatch fs home out patch cwd disk).2)) := by
  unfold applyPatch startedHunksOf at *
  cases hparse : parsePatch patch with
  | error e =>
      simp only
      rcases out.stderr [parseFailureLine e] with _ | _ <;> exact ⟨hapart, rfl⟩
  | ok source =>
      simp only [hparse] at hpaths hmove hexact ⊢
      have htrue := recordTrue_applyHunksToFiles hlaws hapart hpaths hmove
      unfold applyHunks at hexact ⊢
      rcases hrun : applyHunksToFiles fs home cwd source.hunks (.start disk .empty) with ⟨_ | _, s⟩
      · rename_i err
        rw [hrun] at htrue
        simp only [hrun] at hexact ⊢
        rcases hout : out.stderr [err.display] with _ | _ <;> simp only [hout] at hexact ⊢ <;>
          exact htrue hexact
      · rename_i affected
        rw [hrun] at htrue
        simp only [hrun] at hexact ⊢
        rcases hout : out.stdout (summary affected) with _ | _ <;> simp only [hout] at hexact ⊢ <;>
          exact htrue hexact

end

theorem supportsDelta_memoryFileSystem (disk : AbsolutePathBuf → Option Text)
    (p : AbsolutePathBuf) : supportsDelta memoryFileSystem disk p = true := by
  cases h : disk p <;> simp [supportsDelta, memoryFileSystem, h, noSuchFile]

theorem settled_memoryFileSystem (disk disk' : AbsolutePathBuf → Option Text) :
    Settled memoryFileSystem (fun disk => disk) (fun _ p q => p = q) disk disk' :=
  ⟨fun _ _ h => h, fun p _ _ => supportsDelta_memoryFileSystem disk' p⟩

theorem textFileLaws_memoryFileSystem :
    TextFileLaws memoryFileSystem (fun disk => disk) fun _ p q => p = q where
  read_ok disk p content h := by
    cases hp : disk p <;> simp_all [memoryFileSystem]
  read_notFound disk p err h _ := by
    cases hp : disk p <;> simp_all [memoryFileSystem]
  write_ok disk disk' p content _ h := by
    cases h
    refine ⟨Function.update_self _ _ _, fun q hq _ => Function.update_of_ne hq _ _, ?_⟩
    exact settled_memoryFileSystem _ _
  write_notFound disk disk' p content err _ h _ := by
    cases h
  createDirectory_ok disk disk' p parent _ hplain h := by
    cases h
    exact ⟨rfl, hplain, settled_memoryFileSystem _ _⟩
  remove_frame disk p q _ hq _ := by
    cases hp : disk p <;> simp [memoryFileSystem, hp, hq]
  remove_shares _ _ _ _ _ h := h
  remove_ok disk disk' p _ h := by
    cases hp : disk p with
    | none => simp [memoryFileSystem, hp] at h
    | some content =>
        simp only [memoryFileSystem, hp, Prod.mk.injEq, true_and] at h
        rw [← h]
        exact Function.update_self _ _ _

end Codewith.ApplyPatch
