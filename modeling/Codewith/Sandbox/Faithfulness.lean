import Codewith.Sandbox.Projection

/-!
# When the projection is faithful

If it is used, the projection answers like the policy for every path exactly if, for a policy
with full disk write access, `/tmp` resolves to write access, and, for any other policy, what
`.git` files in its writable roots point to is an entry of both policies or of neither.
-/

namespace Codewith.Sandbox

open Lib

namespace FileSystemSandboxPolicy

variable {env : Environment} {policy : FileSystemSandboxPolicy} {cwd path : AbsolutePathBuf}

/-! ### The expanded legacy policy -/

theorem mem_foldl_appendDefault {base : List FileSystemSandboxEntry} {paths : List AbsolutePathBuf}
    {entry : FileSystemSandboxEntry} :
    entry ∈ paths.foldl appendDefaultReadOnlyPathIfNoExplicitRule base ↔
      entry ∈ base ∨ ∃ path ∈ paths, entry = ⟨.path path, .read⟩ ∧
        (base.any fun entry => fileSystemPathsShareTarget entry.path (.path path)) = false := by
  induction paths generalizing base with
  | nil => simp
  | cons first paths ih =>
      rw [List.foldl_cons, ih]
      unfold appendDefaultReadOnlyPathIfNoExplicitRule
      split
      · rename_i hshare
        constructor
        · rintro (hbase | ⟨path, hpath, rfl, hnone⟩)
          · exact .inl hbase
          · exact .inr ⟨path, List.mem_cons_of_mem _ hpath, rfl, hnone⟩
        · rintro (hbase | ⟨path, hpath, rfl, hnone⟩)
          · exact .inl hbase
          · rcases List.mem_cons.mp hpath with rfl | hpath
            · rw [hshare] at hnone
              cases hnone
            · exact .inr ⟨path, hpath, rfl, hnone⟩
      · rename_i hshare
        have hshare : (base.any fun entry =>
            fileSystemPathsShareTarget entry.path (.path first)) = false := by
          simpa using hshare
        have happend : ∀ path : AbsolutePathBuf,
            ((base ++ [(⟨.path first, .read⟩ : FileSystemSandboxEntry)]).any fun entry =>
              fileSystemPathsShareTarget entry.path (.path path)) =
            ((base.any fun entry => fileSystemPathsShareTarget entry.path (.path path)) ||
              decide (first = path)) := by
          intro path
          rw [List.any_append, List.any_cons, List.any_nil, Bool.or_false]
          rfl
        simp only [happend, Bool.or_eq_false_iff, decide_eq_false_iff_not]
        constructor
        · rintro (hbase | ⟨path, hpath, rfl, hnone, -⟩)
          · rcases List.mem_append.mp hbase with hbase | hfirst
            · exact .inl hbase
            · exact .inr ⟨first, List.mem_cons_self, List.mem_singleton.mp hfirst, hshare⟩
          · exact .inr ⟨path, List.mem_cons_of_mem _ hpath, rfl, hnone⟩
        · rintro (hbase | ⟨path, hpath, rfl, hnone⟩)
          · exact .inl (List.mem_append_left _ hbase)
          · by_cases hfirst : first = path
            · exact .inl (by simp [hfirst])
            · rcases List.mem_cons.mp hpath with heq | hpath
              · exact absurd heq.symm hfirst
              · exact .inr ⟨path, hpath, rfl, hnone, hfirst⟩

/-- What an entry for a path would share its target with. -/
theorem legacyRuntimeEntries_share {roots : List AbsolutePathBuf}
    {excludeTmpdirEnvVar excludeSlashTmp : Bool} :
    ((legacyRuntimeEntries roots excludeTmpdirEnvVar excludeSlashTmp).any fun entry =>
        fileSystemPathsShareTarget entry.path (.path path)) = true ↔
      path = .root ∨ (excludeSlashTmp = false ∧ path = slashTmpPath) ∨ path ∈ roots := by
  have hroot : path.parent = none ↔ path = .root := by
    constructor
    · intro h
      exact eq_root_of_parent (by rw [h]; rfl)
    · rintro rfl
      rfl
  cases excludeSlashTmp <;> cases excludeTmpdirEnvVar <;>
    simp [legacyRuntimeEntries, fileSystemPathsShareTarget, specialPathMatchesAbsolutePath, hroot]

variable (env policy cwd) in
/-- What the runtime expands a projection with writable workspace root to. -/
def expandedLegacy : FileSystemSandboxPolicy :=
  legacyRuntimeFileSystemPolicyForCwd env cwd
    (.workspaceWrite (dedupAbsolutePaths env (policy.legacyWritableRoots env cwd) false) false
      (!policy.specialWritable .tmpdir) (!policy.specialWritable .slashTmp))

theorem mem_expandedLegacy {entry : FileSystemSandboxEntry} :
    entry ∈ (expandedLegacy env policy cwd).entries ↔
      entry = ⟨.special .root, .read⟩ ∨ entry = ⟨.special (.projectRoots none), .write⟩ ∨
      (policy.specialWritable .slashTmp = true ∧ entry = ⟨.special .slashTmp, .write⟩) ∨
      (policy.specialWritable .tmpdir = true ∧ entry = ⟨.special .tmpdir, .write⟩) ∨
      (∃ root ∈ policy.legacyWritableRoots env cwd, entry = ⟨.path root, .write⟩) ∨
      ∃ subpath, entry = ⟨.path subpath, .read⟩ ∧ subpath ≠ .root ∧
        ¬ (policy.specialWritable .slashTmp = true ∧ subpath = slashTmpPath) ∧
        subpath ∉ policy.legacyWritableRoots env cwd ∧
        (subpath ∈ defaultReadOnlySubpathsForWritableRoot env cwd true ∨
          ∃ root ∈ policy.legacyWritableRoots env cwd,
            subpath ∈ defaultReadOnlySubpathsForWritableRoot env root false) := by
  simp only [expandedLegacy, legacyRuntimeFileSystemPolicyForCwd, mem_foldl_appendDefault,
    ← Bool.not_eq_true, legacyRuntimeEntries_share, legacyProtectedPaths, mem_dedupAbsolutePaths,
    List.mem_append, List.mem_flatMap, not_or]
  have hbase : entry ∈ legacyRuntimeEntries
      (dedupAbsolutePaths env (policy.legacyWritableRoots env cwd) false)
        (!policy.specialWritable .tmpdir) (!policy.specialWritable .slashTmp) ↔
      entry = ⟨.special .root, .read⟩ ∨ entry = ⟨.special (.projectRoots none), .write⟩ ∨
      (policy.specialWritable .slashTmp = true ∧ entry = ⟨.special .slashTmp, .write⟩) ∨
      (policy.specialWritable .tmpdir = true ∧ entry = ⟨.special .tmpdir, .write⟩) ∨
      (∃ root ∈ policy.legacyWritableRoots env cwd, entry = ⟨.path root, .write⟩) := by
    cases policy.specialWritable .slashTmp <;> cases policy.specialWritable .tmpdir <;>
      simp [legacyRuntimeEntries, mem_dedupAbsolutePaths, eq_comm]
  rw [hbase]
  constructor
  · rintro (h | ⟨subpath, hmem, rfl, hroot, htmp, hroots⟩)
    · rcases h with h | h | h | h | h
      · exact .inl h
      · exact .inr (.inl h)
      · exact .inr (.inr (.inl h))
      · exact .inr (.inr (.inr (.inl h)))
      · exact .inr (.inr (.inr (.inr (.inl h))))
    · refine .inr (.inr (.inr (.inr (.inr ⟨subpath, rfl, hroot, ?_, hroots, hmem⟩))))
      simpa using htmp
  · rintro (h | h | h | h | h | ⟨subpath, rfl, hroot, htmp, hroots, hmem⟩)
    · exact .inl (.inl h)
    · exact .inl (.inr (.inl h))
    · exact .inl (.inr (.inr (.inl h)))
    · exact .inl (.inr (.inr (.inr (.inl h))))
    · exact .inl (.inr (.inr (.inr (.inr h))))
    · refine .inr ⟨subpath, hmem, rfl, hroot, ?_, hroots⟩
      simpa using htmp

theorem lists_of_mem_legacyWritableRoots {root : AbsolutePathBuf}
    (h : root ∈ policy.legacyWritableRoots env cwd) : Lists env policy cwd root .write := by
  obtain ⟨source, hsource, hroot⟩ := List.mem_filterMap.mp h
  split at hroot
  swap
  · cases hroot
  rename_i hwrite
  refine mem_resolvedEntries.mpr ⟨source, hsource, ?_, canWrite_eq_true.mp hwrite⟩
  split at hroot
  · rename_i path hpath
    split at hroot
    · cases hroot
    · rw [hpath]
      exact hroot
  · rename_i subpath hpath
    rw [hpath]
    exact hroot
  · cases hroot

theorem lists_of_specialWritable {value : FileSystemSpecialPath}
    (h : policy.specialWritable value = true) {root : AbsolutePathBuf}
    (hroot : resolveEntryPath env cwd (.special value) = some root) :
    Lists env policy cwd root .write := by
  simp only [specialWritable, List.any_eq_true, Bool.and_eq_true, canWrite_eq_true,
    decide_eq_true_eq] at h
  obtain ⟨source, hsource, hwrite, hpath⟩ := h
  exact mem_resolvedEntries.mpr ⟨source, hsource, by rw [hpath]; exact hroot, hwrite⟩

theorem lists_cwd (h : policy.workspaceRootWritable cwd = true) :
    Lists env policy cwd cwd .write := by
  simp only [workspaceRootWritable, List.any_eq_true, Bool.and_eq_true, canWrite_eq_true] at h
  obtain ⟨source, hsource, hwrite, hpath⟩ := h
  refine mem_resolvedEntries.mpr ⟨source, hsource, ?_, hwrite⟩
  split at hpath
  · rename_i path hsame
    rw [hsame, of_decide_eq_true hpath]
    rfl
  · rename_i hsame
    rw [hsame]
    rfl
  · cases hpath

/-- A write entry is the workspace root, or is projected, or is for the file system's root. -/
theorem projected_of_lists (hno : policy.workspaceRootWritable cwd = false)
    (hroots : policy.legacyWritableRoots env cwd = [])
    (hroot : policy.specialWritable .root = false)
    (htmpdir : policy.specialWritable .tmpdir = false)
    (hslashTmp : policy.specialWritable .slashTmp = false) :
    ¬ Lists env policy cwd path .write := by
  intro hlisted
  obtain ⟨source, hsource, hresolved, hwrite⟩ := mem_resolvedEntries.mp hlisted
  have hcan : source.access.canWrite = true := canWrite_eq_true.mpr hwrite
  have hspecial : ∀ value, policy.specialWritable value = false → source.path ≠ .special value := by
    intro value hvalue hpath
    unfold specialWritable at hvalue
    rw [List.any_eq_false] at hvalue
    exact hvalue source hsource (by simp [hcan, hpath])
  have hworkspace := (List.any_eq_false.mp hno) source hsource
  have hnone := (List.filterMap_eq_nil_iff.mp hroots) source hsource
  rw [if_pos hcan] at hnone
  rw [hcan, Bool.true_and] at hworkspace
  cases hpath : source.path with
  | path path =>
      rw [hpath] at hnone hworkspace
      dsimp only at hnone hworkspace
      rw [decide_eq_true_eq] at hworkspace
      rw [if_neg hworkspace] at hnone
      cases hnone
  | globPattern pattern =>
      rw [hpath] at hresolved
      cases hresolved
  | special value =>
      rw [hpath] at hresolved hnone hworkspace
      cases value with
      | root => exact hspecial _ hroot hpath
      | tmpdir => exact hspecial _ htmpdir hpath
      | slashTmp => exact hspecial _ hslashTmp hpath
      | minimal => cases hresolved
      | unknown name subpath => cases hresolved
      | projectRoots subpath =>
          cases subpath with
          | none => exact hworkspace rfl
          | some subpath => cases hnone

theorem lists_of_expandedLegacy (hworkspace : policy.workspaceRootWritable cwd = true)
    (h : Lists env (expandedLegacy env policy cwd) cwd path .write) :
    Lists env policy cwd path .write := by
  obtain ⟨source, hsource, hresolved, hwrite⟩ := mem_resolvedEntries.mp h
  rcases mem_expandedLegacy.mp hsource with rfl | rfl | ⟨hslash, rfl⟩ | ⟨htmpdir, rfl⟩ |
    ⟨root, hroot, rfl⟩ | ⟨subpath, rfl, -⟩
  · cases hwrite
  · have hcwd : cwd = path := Option.some.inj hresolved
    exact hcwd ▸ lists_cwd hworkspace
  · exact lists_of_specialWritable hslash hresolved
  · exact lists_of_specialWritable htmpdir hresolved
  · have hpath : root = path := Option.some.inj hresolved
    exact hpath ▸ lists_of_mem_legacyWritableRoots hroot
  · cases hwrite

/-- The read entries of the expanded policy: the root of the file system, and default read-only
paths for which there is no other entry. -/
theorem lists_expandedLegacy_read :
    Lists env (expandedLegacy env policy cwd) cwd path .read ↔
      path = .root ∨ (path ≠ .root ∧
        ¬ (policy.specialWritable .slashTmp = true ∧ path = slashTmpPath) ∧
        path ∉ policy.legacyWritableRoots env cwd ∧
        (path ∈ defaultReadOnlySubpathsForWritableRoot env cwd true ∨
          ∃ root ∈ policy.legacyWritableRoots env cwd,
            path ∈ defaultReadOnlySubpathsForWritableRoot env root false)) := by
  constructor
  · intro h
    obtain ⟨source, hsource, hresolved, hread⟩ := mem_resolvedEntries.mp h
    rcases mem_expandedLegacy.mp hsource with rfl | rfl | ⟨-, rfl⟩ | ⟨-, rfl⟩ | ⟨root, -, rfl⟩ |
      ⟨subpath, rfl, hsubpath⟩
    · exact .inl (Option.some.inj hresolved).symm
    · cases hread
    · cases hread
    · cases hread
    · cases hread
    · have hpath : subpath = path := Option.some.inj hresolved
      exact .inr (hpath ▸ hsubpath)
  · rintro (rfl | hsubpath)
    · exact mem_resolvedEntries.mpr ⟨_, mem_expandedLegacy.mpr (.inl rfl), rfl, rfl⟩
    · refine mem_resolvedEntries.mpr ⟨⟨.path path, .read⟩, mem_expandedLegacy.mpr ?_, rfl, rfl⟩
      exact .inr (.inr (.inr (.inr (.inr ⟨path, rfl, hsubpath⟩))))

theorem expandedLegacy_deny : (expandedLegacy env policy cwd).DeniesNothing := by
  intro entry hentry
  rcases mem_expandedLegacy.mp hentry with rfl | rfl | ⟨-, rfl⟩ | ⟨-, rfl⟩ | ⟨root, -, rfl⟩ |
    ⟨subpath, rfl, -⟩ <;> exact FileSystemAccessMode.noConfusion

theorem expandedLegacy_full : (expandedLegacy env policy cwd).hasFullDiskWriteAccess = false := by
  have hroot : (expandedLegacy env policy cwd).hasRootAccess FileSystemAccessMode.canWrite =
      false := by
    unfold hasRootAccess
    rw [Bool.and_eq_false_iff]
    right
    rw [List.any_eq_false]
    intro entry hentry
    rcases mem_expandedLegacy.mp hentry with rfl | rfl | ⟨-, rfl⟩ | ⟨-, rfl⟩ | ⟨root, -, rfl⟩ |
      ⟨subpath, rfl, -⟩ <;> simp [FileSystemAccessMode.canWrite]
  have hkind : (expandedLegacy env policy cwd).kind = .restricted := rfl
  simp [hasFullDiskWriteAccess, hkind, hroot]

/-! ### The condition -/

variable (env policy cwd) in
/-- The working directory, the write entries and what the projection protects below them are
spelled as their effective paths. -/
structure EffectiveNames : Prop where
  paths : EffectivePaths env policy cwd
  root : normalizeEffectiveAbsolutePath env .root = .root
  protectedPaths : ∀ subpath ∈ legacyProtectedPaths env cwd (policy.legacyWritableRoots env cwd),
    normalizeEffectiveAbsolutePath env subpath = subpath

variable (env policy cwd) in
/-- The place above is not writable anyway, or the path is a protected metadata directory. -/
def Shielded (path : AbsolutePathBuf) : Prop :=
  (∃ parent, path.parent = some parent ∧ policy.canWritePathWithCwd env cwd parent = false) ∨
    ∃ root, Lists env policy cwd root .write ∧ ∃ name ∈ protectedMetadataPathNames,
      path = root.join env.home name ∧ policy.canWritePathWithCwd env cwd path = false

variable (env policy cwd) in
/-- The path is what the `.git` file of a projected root points to, and is added for it. -/
def AddedAsGitdir (path : AbsolutePathBuf) : Prop :=
  ¬ (policy.specialWritable .slashTmp = true ∧ path = slashTmpPath) ∧
    ∃ root ∈ cwd :: policy.legacyWritableRoots env cwd, gitdirOf env root = some path

variable (env policy cwd) in
/-- What the `.git` file of a writable root points to inside the root is a write entry, is
shielded, or is a read entry exactly if the projection has one. -/
def GitdirsCovered : Prop :=
  ∀ root gitdir, Lists env policy cwd root .write → gitdirOf env root = some gitdir →
    root.parts <+: gitdir.parts → root ≠ gitdir →
      Lists env policy cwd gitdir .write ∨ Shielded env policy cwd gitdir ∨
        (Lists env policy cwd gitdir .read ↔ AddedAsGitdir env policy cwd gitdir)

theorem effective_of_mem_expandedLegacy (hworkspace : policy.workspaceRootWritable cwd = true)
    (heffective : EffectiveNames env policy cwd) {entry : ResolvedFileSystemEntry}
    (hentry : entry ∈ (expandedLegacy env policy cwd).resolvedEntriesWithCwd env cwd) :
    normalizeEffectiveAbsolutePath env entry.path = entry.path := by
  obtain ⟨path, access⟩ := entry
  have hlisted : Lists env (expandedLegacy env policy cwd) cwd path access := hentry
  cases access with
  | deny => exact absurd rfl (expandedLegacy_deny.resolved hentry)
  | write => exact heffective.paths.ofWrite _ (lists_of_expandedLegacy hworkspace hlisted) rfl
  | read =>
      rcases lists_expandedLegacy_read.mp hlisted with rfl | ⟨-, -, -, hdefault⟩
      · exact heffective.root
      · refine heffective.protectedPaths path ?_
        rw [legacyProtectedPaths, List.mem_append, List.mem_flatMap]
        exact hdefault

theorem plain_expandedLegacy (hworkspace : policy.workspaceRootWritable cwd = true)
    (heffective : EffectiveNames env policy cwd) :
    Plain env (expandedLegacy env policy cwd) cwd where
  kind := rfl
  full := expandedLegacy_full
  deny := expandedLegacy_deny
  effective :=
    { ofCwd := heffective.paths.ofCwd
      ofWrite := fun _ hentry _ => effective_of_mem_expandedLegacy hworkspace heffective hentry
      ofAll := fun _ _ hentry => effective_of_mem_expandedLegacy hworkspace heffective hentry }

/-! ### Around a path -/

/-- The parent of a path below a base lies between the two. -/
theorem exists_parent {base : AbsolutePathBuf} (hbelow : base.parts <+: path.parts)
    (hne : base ≠ path) :
    ∃ parent, path.parent = some parent ∧ parent.parts.length < path.parts.length ∧
      parent.parts <+: path.parts ∧ ∀ above : AbsolutePathBuf, above.parts <+: path.parts →
        above ≠ path → above.parts <+: parent.parts := by
  have hlt : ∀ above : AbsolutePathBuf, above.parts <+: path.parts → above ≠ path →
      above.parts.length < path.parts.length := by
    intro above habove hne
    refine lt_of_le_of_ne habove.length_le fun hlength => hne ?_
    exact AbsolutePathBuf.ext (habove.eq_of_length hlength)
  have hpos : path.parts ≠ [] := by
    intro hnil
    have hlength := hlt base hbelow hne
    rw [hnil] at hlength
    simp at hlength
  refine ⟨_, if_neg hpos, ?_, List.dropLast_prefix _, ?_⟩
  · have hlength := List.length_pos_of_ne_nil hpos
    rw [List.length_dropLast]
    omega
  · intro above habove hne
    refine List.prefix_of_prefix_length_le habove (List.dropLast_prefix _) ?_
    have hlength := hlt above habove hne
    rw [List.length_dropLast]
    omega

/-- Where a path is not writable and its parent is, the path itself is withheld. -/
theorem withheld_itself (hplain : Plain env policy cwd) {root parent : AbsolutePathBuf}
    (hroot : Lists env policy cwd root .write) (habove : root.parts <+: path.parts)
    (hparent : parent.parts <+: path.parts)
    (hcan : policy.canWritePathWithCwd env cwd parent = true)
    (hlast : ∀ above : AbsolutePathBuf, above.parts <+: path.parts → above ≠ path →
      above.parts <+: parent.parts)
    (hno : policy.canWritePathWithCwd env cwd path = false) :
    Lists env policy cwd path .read ∨ ∃ root, Lists env policy cwd root .write ∧
      ∃ name ∈ protectedMetadataPathNames, path = root.join env.home name := by
  obtain ⟨root, part, hwithheld⟩ := exists_withheld hplain hno hroot habove
  have hpart : part = path := by
    by_contra hne
    have hbelow := hlast part hwithheld.part_above hne
    have hnoParent : policy.canWritePathWithCwd env cwd parent = false := by
      refine not_canWrite_below hplain hwithheld.part_no hbelow
        fun nested hnested hpre hinside => ?_
      have hle := hinside.trans (hwithheld.longest nested hnested (hpre.trans hparent))
      exact hwithheld.root_ne (AbsolutePathBuf.ext (hwithheld.root_above.eq_of_length
        (le_antisymm hwithheld.root_above.length_le hle.length_le)))
    rw [hcan] at hnoParent
    cases hnoParent
  subst hpart
  rcases hwithheld.reason with hread | ⟨name, hname, heq⟩
  · exact .inl hread
  · exact .inr ⟨root, hwithheld.root_listed, name, hname, heq⟩

/-! ### Policies with the roots of their projection -/

section

variable (hworkspace : policy.workspaceRootWritable cwd = true)
  (heffective : EffectiveNames env policy cwd) (hpolicy : Plain env policy cwd)
  (hlegacy : Plain env (expandedLegacy env policy cwd) cwd)
  (hkept : RootsKept env cwd policy (expandedLegacy env policy cwd))
  (hback : RootsKept env cwd (expandedLegacy env policy cwd) policy)

include hworkspace in
/-- A default read-only path of a projected root is one of its metadata directories, or what
its `.git` file points to. -/
theorem addedAsGitdir_of_read (hroot : path ≠ .root)
    (hread : Lists env (expandedLegacy env policy cwd) cwd path .read) :
    AddedAsGitdir env policy cwd path ∨ ∃ root, Lists env policy cwd root .write ∧
      ∃ name ∈ protectedMetadataPathNames, path = root.join env.home name := by
  obtain ⟨-, htmp, -, hdefault⟩ := (lists_expandedLegacy_read.mp hread).resolve_left hroot
  have hprojected : ∃ root ∈ cwd :: policy.legacyWritableRoots env cwd, ∃ protectMissing,
      path ∈ defaultReadOnlySubpathsForWritableRoot env root protectMissing := by
    rcases hdefault with hcwd | ⟨root, hmem, hsub⟩
    · exact ⟨cwd, List.mem_cons_self, true, hcwd⟩
    · exact ⟨root, List.mem_cons_of_mem _ hmem, false, hsub⟩
  obtain ⟨root, hmem, protectMissing, hsub⟩ := hprojected
  have hlisted : Lists env policy cwd root .write := by
    rcases List.mem_cons.mp hmem with rfl | hmem
    · exact lists_cwd hworkspace
    · exact lists_of_mem_legacyWritableRoots hmem
  rcases mem_defaultReadOnlySubpaths hsub with ⟨name, hname, heq⟩ | hgitdir
  · exact .inr ⟨root, hlisted, name, hname, heq⟩
  · exact .inl ⟨htmp, root, hmem, hgitdir⟩

theorem read_of_addedAsGitdir (hroot : path ≠ .root)
    (hwrite : path ∉ policy.legacyWritableRoots env cwd)
    (hadded : AddedAsGitdir env policy cwd path) :
    Lists env (expandedLegacy env policy cwd) cwd path .read := by
  obtain ⟨htmp, root, hmem, hgitdir⟩ := hadded
  refine lists_expandedLegacy_read.mpr (.inr ⟨hroot, htmp, hwrite, ?_⟩)
  rcases List.mem_cons.mp hmem with rfl | hmem
  · exact .inl (gitdir_mem_defaultReadOnlySubpaths hgitdir)
  · exact .inr ⟨root, hmem, gitdir_mem_defaultReadOnlySubpaths hgitdir⟩

theorem ne_root_of_below {base : AbsolutePathBuf} (hbelow : base.parts <+: path.parts)
    (hne : base ≠ path) : path ≠ .root := by
  rintro rfl
  exact hne (AbsolutePathBuf.ext (List.prefix_nil.mp hbelow))

include hpolicy in
/-- A place between a root and the parent that is not writable, if the parent is not. -/
theorem root_ne_of_not_canWrite {root parent : AbsolutePathBuf}
    (hroot : Lists env policy cwd root .write)
    (hno : policy.canWritePathWithCwd env cwd parent = false) : root ≠ parent := by
  rintro rfl
  rw [canWrite_of_writeEntry hpolicy hroot] at hno
  cases hno

include hworkspace heffective hpolicy hlegacy hkept in
/-- What the projection adds for a `.git` file, and the policy does not list, lies below a root
with such a file. -/
theorem exists_root_of_addedAsGitdir
    (hread : Lists env (expandedLegacy env policy cwd) cwd path .read)
    (hnone : ∀ access, ¬ Lists env policy cwd path access)
    (hadded : AddedAsGitdir env policy cwd path) :
    ∃ root, Lists env policy cwd root .write ∧ gitdirOf env root = some path ∧
      root.parts <+: path.parts ∧ root ≠ path := by
  obtain ⟨-, root, hmem, hgitdir⟩ := hadded
  have hroot : Lists env policy cwd root .write := by
    rcases List.mem_cons.mp hmem with rfl | hmem
    · exact lists_cwd hworkspace
    · exact lists_of_mem_legacyWritableRoots hmem
  have hname := heffective.paths.ofWrite _ hroot rfl
  have hexplicit : hasExplicitResolvedPathEntry (policy.resolvedEntriesWithCwd env cwd) path =
      false := by
    rw [hasExplicitResolvedPathEntry, List.any_eq_false]
    rintro ⟨other, access⟩ hentry hsame
    obtain rfl : other = path := by simpa using hsame
    exact hnone access hentry
  -- The policy withholds the path below the root by default, so the legacy policy does so too.
  have hsubpath := hkept.subpaths root hroot path ((mem_readOnlySubpaths hpolicy.effective
    hname).mpr (.inl ⟨gitdir_mem_defaultReadOnlySubpaths hgitdir, hexplicit⟩))
  rcases (mem_readOnlySubpaths hlegacy.effective hname).mp hsubpath with ⟨-, hexplicit⟩ |
    ⟨-, -, -, -, -, hne, hbelow⟩
  · rw [hasExplicitResolvedPathEntry, List.any_eq_false] at hexplicit
    exact absurd (decide_eq_true rfl) (hexplicit _ hread)
  · exact ⟨root, hroot, hgitdir, hbelow, hne.symm⟩

include hworkspace hpolicy hlegacy hkept hback

include heffective in
theorem canWrite_eq_of_covered (hcovered : GitdirsCovered env policy cwd)
    (path : AbsolutePathBuf) :
    (expandedLegacy env policy cwd).canWritePathWithCwd env cwd path =
      policy.canWritePathWithCwd env cwd path := by
  have hforward := not_canWrite_of_rootsKept hpolicy hlegacy hkept hback
    fun root subpath hroot hbelow hne hread hsubpath hnone ih => by
      rcases (mem_readOnlySubpaths hlegacy.effective (heffective.paths.ofWrite _ hroot rfl)).mp
        hsubpath with ⟨hdefault, -⟩ | ⟨entry, hentry, -, -, hreported, -, -⟩
      swap
      · rw [reportedPath_of_effective (effective_of_mem_expandedLegacy hworkspace heffective
          hentry)] at hreported
        exact absurd (hreported ▸ hentry) (hnone entry.access)
      rcases mem_defaultReadOnlySubpaths hdefault with ⟨name, hname, rfl⟩ | hgitdir
      · have hno := not_canWrite_of_readEntry hpolicy hread fun hwrite =>
          hnone _ (hkept.roots _ hwrite)
        exact ⟨_, hbelow, hne, List.prefix_refl _, hkept.names root hroot name hname hno⟩
      rcases hcovered root subpath hroot hgitdir hbelow hne with hwrite |
        (⟨parent, hparent, hno⟩ | ⟨nested, hnested, name, hname, rfl, hno⟩) | hiff
      · exact absurd (hkept.roots subpath hwrite) (hnone _)
      · obtain ⟨parent', hparent', hlt, hpre, hlast⟩ := exists_parent hbelow hne
        obtain rfl : parent' = parent := Option.some.inj (hparent'.symm.trans hparent)
        exact ⟨parent', hlast root hbelow hne, root_ne_of_not_canWrite hpolicy hroot hno, hpre,
          ih parent' hlt hno⟩
      · exact ⟨_, hbelow, hne, List.prefix_refl _, hkept.names nested hnested name hname hno⟩
      · have hnot : subpath ∉ policy.legacyWritableRoots env cwd := fun hmem =>
          hnone _ (hkept.roots subpath (lists_of_mem_legacyWritableRoots hmem))
        have hadded := read_of_addedAsGitdir (ne_root_of_below hbelow hne) hnot (hiff.mp hread)
        exact absurd hadded (hnone _)
  have hbackward := not_canWrite_of_rootsKept hlegacy hpolicy hback hkept
    fun root subpath hroot hbelow hne hread _ hnone _ => by
      have hrootListed := hback.roots root hroot
      rcases addedAsGitdir_of_read hworkspace (ne_root_of_below hbelow hne) hread with
        hadded | ⟨nested, hnested, name, hname, rfl⟩
      swap
      · have hno := not_canWrite_of_readEntry hlegacy hread fun hwrite =>
          hnone _ (hback.roots _ hwrite)
        exact ⟨_, hbelow, hne, List.prefix_refl _,
          hback.names nested (hkept.roots nested hnested) name hname hno⟩
      obtain ⟨owner, howner, hgitdir, hbelowOwner, hneOwner⟩ :=
        exists_root_of_addedAsGitdir hworkspace heffective hpolicy hlegacy hkept hread hnone hadded
      rcases hcovered owner subpath howner hgitdir hbelowOwner hneOwner with hwrite |
        (⟨parent, hparent, hno⟩ | ⟨nested, hnested, name, hname, rfl, hno⟩) | hiff
      · exact absurd hwrite (hnone _)
      · obtain ⟨parent', hparent', hlt, hpre, hlast⟩ := exists_parent hbelow hne
        obtain rfl : parent' = parent := Option.some.inj (hparent'.symm.trans hparent)
        exact ⟨parent', hlast root hbelow hne, root_ne_of_not_canWrite hpolicy hrootListed hno,
          hpre, hno⟩
      · exact ⟨_, hbelow, hne, List.prefix_refl _, hno⟩
      · exact absurd (hiff.mpr hadded) (hnone _)
  rw [Bool.eq_iff_iff, ← Bool.not_eq_false, ← Bool.not_eq_false, not_iff_not]
  exact ⟨hbackward path, hforward path⟩

theorem covered_of_canWrite_eq
    (hagree : ∀ path, (expandedLegacy env policy cwd).canWritePathWithCwd env cwd path =
      policy.canWritePathWithCwd env cwd path) : GitdirsCovered env policy cwd := by
  intro root gitdir hroot hgitdir hbelow hne
  by_cases hwrite : Lists env policy cwd gitdir .write
  · exact .inl hwrite
  by_cases hshielded : Shielded env policy cwd gitdir
  · exact .inr (.inl hshielded)
  refine .inr (.inr ?_)
  obtain ⟨parent, hparent, -, hpre, hlast⟩ := exists_parent hbelow hne
  have hcan : policy.canWritePathWithCwd env cwd parent = true := by
    by_contra hno
    exact hshielded (.inl ⟨parent, hparent, by simpa using hno⟩)
  have hnoMetadata : policy.canWritePathWithCwd env cwd gitdir = false →
      ¬ ∃ nested, Lists env policy cwd nested .write ∧
        ∃ name ∈ protectedMetadataPathNames, gitdir = nested.join env.home name := by
    rintro hno ⟨nested, hnested, name, hname, heq⟩
    exact hshielded (.inr ⟨nested, hnested, name, hname, heq, hno⟩)
  constructor
  · intro hread
    have hno := not_canWrite_of_readEntry hpolicy hread hwrite
    have hlegacyRead : Lists env (expandedLegacy env policy cwd) cwd gitdir .read := by
      have hcanLegacy := (hagree parent).trans hcan
      have hnoLegacy := (hagree gitdir).trans hno
      rcases withheld_itself hlegacy (hkept.roots root hroot) hbelow hpre hcanLegacy hlast
        hnoLegacy with hread | ⟨nested, hnested, name, hname, heq⟩
      · exact hread
      · exact absurd ⟨nested, hback.roots nested hnested, name, hname, heq⟩ (hnoMetadata hno)
    rcases addedAsGitdir_of_read hworkspace (ne_root_of_below hbelow hne) hlegacyRead with
      hadded | hmetadata
    · exact hadded
    · exact absurd hmetadata (hnoMetadata hno)
  · intro hadded
    have hnot : gitdir ∉ policy.legacyWritableRoots env cwd := fun hmem =>
      hwrite (lists_of_mem_legacyWritableRoots hmem)
    have hlegacyRead := read_of_addedAsGitdir (ne_root_of_below hbelow hne) hnot hadded
    have hno : policy.canWritePathWithCwd env cwd gitdir = false := by
      rw [← hagree gitdir]
      exact not_canWrite_of_readEntry hlegacy hlegacyRead fun hlisted =>
        hwrite (hback.roots gitdir hlisted)
    rcases withheld_itself hpolicy hroot hbelow hpre hcan hlast hno with hread | hmetadata
    · exact hread
    · exact absurd hmetadata (hnoMetadata hno)

end

/-! ### Full access -/

theorem access_of_not_restricted (hkind : policy.kind ≠ .restricted) :
    policy.canReadPathWithCwd env cwd path = true ∧
      policy.canWritePathWithCwd env cwd path = true := by
  have haccess : policy.resolveAccessWithCwd env cwd path = .write := by
    unfold resolveAccessWithCwd
    split
    · contradiction
    · rfl
  have hfull : policy.hasFullDiskWriteAccess = true := by
    unfold hasFullDiskWriteAccess
    split
    · contradiction
    · rfl
  simp [canReadPathWithCwd, canWritePathWithCwd, haccess, hfull, FileSystemAccessMode.canRead,
    FileSystemAccessMode.canWrite]

theorem denies_nothing_of_fullRead (hkind : policy.kind = .restricted)
    (hread : policy.hasFullDiskReadAccess = true) : policy.DeniesNothing := by
  simp only [hasFullDiskReadAccess, hkind, Bool.and_eq_true, hasDeniedReadRestrictions,
    Bool.not_eq_true', decide_true, Bool.true_and, List.any_eq_false, decide_eq_true_eq] at hread
  exact hread.2

theorem root_entry_of_fullRead (env : Environment) (cwd : AbsolutePathBuf)
    (hkind : policy.kind = .restricted)
    (hread : policy.hasFullDiskReadAccess = true) :
    ∃ access, Lists env policy cwd .root access := by
  simp only [hasFullDiskReadAccess, hkind, Bool.and_eq_true, hasRootAccess, List.any_eq_true,
    decide_eq_true_eq] at hread
  obtain ⟨⟨-, source, hsource, hpath, -⟩, -⟩ := hread
  exact ⟨source.access, mem_resolvedEntries.mpr ⟨source, hsource, by rw [hpath]; rfl, rfl⟩⟩

theorem canRead_of_fullRead (hread : policy.hasFullDiskReadAccess = true) :
    policy.canReadPathWithCwd env cwd path = true := by
  by_cases hkind : policy.kind = .restricted
  · obtain ⟨access, hroot⟩ := root_entry_of_fullRead env cwd hkind hread
    obtain ⟨winner, hwinner, -, haccess, -⟩ :=
      exists_deciding_entry hkind hroot (List.nil_prefix (l := path.parts))
    have hdeny := (denies_nothing_of_fullRead hkind hread).resolved hwinner
    simpa [canReadPathWithCwd, haccess, FileSystemAccessMode.canRead] using hdeny
  · exact (access_of_not_restricted hkind).1

/-! ### The projection -/

theorem toLegacy_of_fullWrite (hfull : policy.hasFullDiskWriteAccess = true) (env : Environment)
    (cwd : AbsolutePathBuf) (network : NetworkSandboxPolicy) :
    ∃ legacy, policy.toLegacySandboxPolicy env cwd network = .ok legacy ∧
      (legacyRuntimeFileSystemPolicyForCwd env cwd legacy).kind ≠ .restricted := by
  unfold toLegacySandboxPolicy
  cases policy.kind with
  | restricted =>
      dsimp only
      rw [if_pos hfull]
      cases network <;> exact ⟨_, rfl, FileSystemSandboxKind.noConfusion⟩
  | unrestricted => cases network <;> exact ⟨_, rfl, FileSystemSandboxKind.noConfusion⟩
  | externalSandbox => exact ⟨_, rfl, FileSystemSandboxKind.noConfusion⟩

/-- Without full disk write access the projection opens the workspace root and what is
projected with it, or there is no write entry at all. -/
theorem toLegacy_of_not_fullWrite (hfull : policy.hasFullDiskWriteAccess = false)
    {network : NetworkSandboxPolicy} {legacy : SandboxPolicy}
    (h : policy.toLegacySandboxPolicy env cwd network = .ok legacy) :
    (policy.workspaceRootWritable cwd = true ∧
      legacyRuntimeFileSystemPolicyForCwd env cwd legacy = expandedLegacy env policy cwd) ∨
    (legacyRuntimeFileSystemPolicyForCwd env cwd legacy =
        ⟨.restricted, [⟨.special .root, .read⟩]⟩ ∧
      ∀ path, ¬ Lists env policy cwd path .write) := by
  unfold toLegacySandboxPolicy at h
  rw [restricted_of_not_full hfull] at h
  dsimp only at h
  rw [if_neg (by simp [hfull])] at h
  split at h
  · rename_i hworkspace
    rw [← Except.ok.inj h]
    exact .inl ⟨hworkspace, rfl⟩
  · rename_i hworkspace
    split at h
    · cases h
    · rename_i hwrites
      rw [← Except.ok.inj h]
      refine .inr ⟨rfl, fun path => ?_⟩
      simp only [Bool.or_eq_true, not_or, Bool.not_eq_true, decide_eq_true_eq,
        not_not] at hwrites hworkspace
      obtain ⟨⟨⟨hroot, hroots⟩, htmpdir⟩, hslashTmp⟩ := hwrites
      exact projected_of_lists hworkspace (by simpa using hroots) hroot htmpdir hslashTmp

theorem signature_of_used (hkind : policy.kind = .restricted) {network : NetworkSandboxPolicy}
    (hused : policy.needsDirectRuntimeEnforcement env cwd network = false) :
    ∃ legacy, policy.toLegacySandboxPolicy env cwd network = .ok legacy ∧
      policy.semanticSignature env cwd =
        (legacyRuntimeFileSystemPolicyForCwd env cwd legacy).semanticSignature env cwd := by
  unfold needsDirectRuntimeEnforcement at hused
  rw [if_neg (by simp [hkind])] at hused
  split at hused
  · cases hused
  · rename_i legacy hlegacy
    simp only [Bool.or_eq_false_iff, decide_eq_false_iff_not, not_not] at hused
    exact ⟨legacy, hlegacy, hused.2⟩

theorem expandedLegacy_fullRead : (expandedLegacy env policy cwd).hasFullDiskReadAccess = true := by
  have hkind : (expandedLegacy env policy cwd).kind = .restricted := rfl
  have hroot : (expandedLegacy env policy cwd).hasRootAccess FileSystemAccessMode.canRead =
      true := by
    rw [hasRootAccess, hkind, decide_eq_true rfl, Bool.true_and, List.any_eq_true]
    exact ⟨_, mem_expandedLegacy.mpr (.inl rfl), by decide⟩
  have hdeny : (expandedLegacy env policy cwd).hasDeniedReadRestrictions = false := by
    rw [hasDeniedReadRestrictions, hkind, decide_eq_true rfl, Bool.true_and, List.any_eq_false]
    intro entry hentry
    simpa using expandedLegacy_deny entry hentry
  simp [hasFullDiskReadAccess, hkind, hroot, hdeny]

variable (env policy cwd) in
/-- With full disk write access, `/tmp` resolves to write access; otherwise the directories of
`.git` files are covered. -/
def AccessKept : Prop :=
  (policy.hasFullDiskWriteAccess = true →
    policy.resolveAccessWithCwd env cwd slashTmpPath = .write) ∧
  (policy.hasFullDiskWriteAccess = false → GitdirsCovered env policy cwd)

/-- The projection of a policy with full disk write access grants everything. -/
theorem faithful_of_fullWrite (hfull : policy.hasFullDiskWriteAccess = true)
    (hdeny : policy.DeniesNothing) (hread : policy.hasFullDiskReadAccess = true)
    {legacy : FileSystemSandboxPolicy} (hlegacy : legacy.kind ≠ .restricted) :
    (∀ path, legacy.canReadPathWithCwd env cwd path = policy.canReadPathWithCwd env cwd path ∧
        legacy.canWritePathWithCwd env cwd path = policy.canWritePathWithCwd env cwd path) ↔
      policy.resolveAccessWithCwd env cwd slashTmpPath = .write := by
  have hcan : ∀ path, policy.canWritePathWithCwd env cwd path = true ↔
      policy.resolveAccessWithCwd env cwd path = .write := by
    intro path
    simp [canWritePathWithCwd, hfull, canWrite_eq_true]
  constructor
  · intro h
    rw [← hcan, ← (h slashTmpPath).2]
    exact (access_of_not_restricted hlegacy).2
  · intro htmp path
    rw [(access_of_not_restricted hlegacy).1, (access_of_not_restricted hlegacy).2,
      canRead_of_fullRead hread, (hcan path).mpr (resolveAccess_of_fullDiskWrite hfull hdeny htmp)]
    exact ⟨rfl, rfl⟩

theorem faithful_of_not_fullWrite (hfull : policy.hasFullDiskWriteAccess = false)
    (heffective : policy.workspaceRootWritable cwd = true → EffectiveNames env policy cwd)
    {network : NetworkSandboxPolicy} {legacy : SandboxPolicy}
    (hlegacy : policy.toLegacySandboxPolicy env cwd network = .ok legacy)
    (hsignature : policy.semanticSignature env cwd =
      (legacyRuntimeFileSystemPolicyForCwd env cwd legacy).semanticSignature env cwd) :
    (∀ path, (legacyRuntimeFileSystemPolicyForCwd env cwd legacy).canReadPathWithCwd env cwd path =
          policy.canReadPathWithCwd env cwd path ∧
        (legacyRuntimeFileSystemPolicyForCwd env cwd legacy).canWritePathWithCwd env cwd path =
          policy.canWritePathWithCwd env cwd path) ↔
      GitdirsCovered env policy cwd := by
  have hkind := restricted_of_not_full hfull
  have hreads : policy.hasFullDiskReadAccess =
      (legacyRuntimeFileSystemPolicyForCwd env cwd legacy).hasFullDiskReadAccess :=
    congrArg FileSystemSemanticSignature.hasFullDiskReadAccess hsignature
  rcases toLegacy_of_not_fullWrite hfull hlegacy with ⟨hworkspace, hexpanded⟩ | ⟨hreadOnly, hnone⟩
  · rw [hexpanded] at hreads hsignature ⊢
    have hread := hreads.trans expandedLegacy_fullRead
    have heffective := heffective hworkspace
    have hplain : Plain env policy cwd :=
      ⟨hkind, hfull, denies_nothing_of_fullRead hkind hread, heffective.paths⟩
    have hexpandedPlain := plain_expandedLegacy hworkspace heffective
    have hroots := congrArg FileSystemSemanticSignature.writableRoots hsignature
    have hkept := rootsKept_of_sortedWritableRoots hplain hexpandedPlain hroots
    have hback := rootsKept_of_sortedWritableRoots hexpandedPlain hplain hroots.symm
    constructor
    · intro h
      exact covered_of_canWrite_eq hworkspace hplain hexpandedPlain hkept hback fun path =>
        (h path).2
    · intro hcovered path
      rw [canRead_of_fullRead hread, canRead_of_fullRead expandedLegacy_fullRead]
      exact ⟨rfl, canWrite_eq_of_covered hworkspace heffective hplain hexpandedPlain hkept hback
        hcovered path⟩
  · rw [hreadOnly] at hreads ⊢
    have hreadLegacy : (⟨.restricted, [⟨.special .root, .read⟩]⟩ :
        FileSystemSandboxPolicy).hasFullDiskReadAccess = true := by decide
    refine iff_of_true (fun path => ?_) fun root gitdir hroot => absurd hroot (hnone root)
    rw [canRead_of_fullRead (hreads.trans hreadLegacy), canRead_of_fullRead hreadLegacy]
    refine ⟨rfl, ?_⟩
    have hno : policy.canWritePathWithCwd env cwd path = false := by
      rw [← Bool.not_eq_true]
      intro hcan
      obtain ⟨root, hroot, -⟩ := exists_granting_entry hkind ((canWrite_iff hfull).mp hcan).1
      exact hnone root hroot
    have hnoLegacy : (⟨.restricted, [⟨.special .root, .read⟩]⟩ :
        FileSystemSandboxPolicy).canWritePathWithCwd env cwd path = false := by
      rw [← Bool.not_eq_true]
      intro hcan
      obtain ⟨root, hroot, -⟩ := exists_granting_entry rfl ((canWrite_iff rfl).mp hcan).1
      obtain ⟨source, hsource, -, hwrite⟩ := mem_resolvedEntries.mp hroot
      rw [List.mem_singleton.mp hsource] at hwrite
      cases hwrite
    rw [hno, hnoLegacy]

/-- Where the projection is used, it answers like the policy exactly if the condition holds. -/
theorem projection_faithful_iff (env : Environment) (policy : FileSystemSandboxPolicy)
    (network : NetworkSandboxPolicy) (cwd : AbsolutePathBuf)
    (hused : policy.needsDirectRuntimeEnforcement env cwd network = false)
    (heffective : policy.hasFullDiskWriteAccess = false →
      policy.workspaceRootWritable cwd = true → EffectiveNames env policy cwd) :
    (∃ legacy, policy.toLegacySandboxPolicy env cwd network = .ok legacy ∧ ∀ path,
      (legacyRuntimeFileSystemPolicyForCwd env cwd legacy).canReadPathWithCwd env cwd path =
          policy.canReadPathWithCwd env cwd path ∧
        (legacyRuntimeFileSystemPolicyForCwd env cwd legacy).canWritePathWithCwd env cwd path =
          policy.canWritePathWithCwd env cwd path) ↔
      AccessKept env policy cwd := by
  have hprojected : ∃ legacy, policy.toLegacySandboxPolicy env cwd network = .ok legacy ∧
      ((∀ path, (legacyRuntimeFileSystemPolicyForCwd env cwd legacy).canReadPathWithCwd env cwd
            path = policy.canReadPathWithCwd env cwd path ∧
          (legacyRuntimeFileSystemPolicyForCwd env cwd legacy).canWritePathWithCwd env cwd path =
            policy.canWritePathWithCwd env cwd path) ↔ AccessKept env policy cwd) := by
    cases hfull : policy.hasFullDiskWriteAccess with
    | true =>
        have hkept : AccessKept env policy cwd ↔
            policy.resolveAccessWithCwd env cwd slashTmpPath = .write := by
          simp [AccessKept, hfull]
        obtain ⟨legacy, hlegacy, hlegacyKind⟩ :=
          toLegacy_of_fullWrite hfull env cwd network
        refine ⟨legacy, hlegacy, ?_⟩
        rw [hkept]
        by_cases hkind : policy.kind = .restricted
        · obtain ⟨legacy', hlegacy', hsignature⟩ := signature_of_used hkind hused
          obtain rfl : legacy = legacy' := Except.ok.inj (hlegacy.symm.trans hlegacy')
          have hread : policy.hasFullDiskReadAccess = true := by
            refine (congrArg FileSystemSemanticSignature.hasFullDiskReadAccess hsignature).trans ?_
            show hasFullDiskReadAccess _ = true
            unfold hasFullDiskReadAccess
            split
            · contradiction
            · rfl
          exact faithful_of_fullWrite hfull (denies_nothing_of_fullRead hkind hread) hread
            hlegacyKind
        · refine iff_of_true (fun path => ?_) ?_
          · rw [(access_of_not_restricted hkind).1, (access_of_not_restricted hkind).2]
            exact access_of_not_restricted hlegacyKind
          · have hcan : policy.canWritePathWithCwd env cwd slashTmpPath = true :=
              (access_of_not_restricted hkind).2
            simpa [canWritePathWithCwd, hfull, canWrite_eq_true] using hcan
    | false =>
        have hkept : AccessKept env policy cwd ↔ GitdirsCovered env policy cwd := by
          simp [AccessKept, hfull]
        obtain ⟨legacy, hlegacy, hsignature⟩ :=
          signature_of_used (restricted_of_not_full hfull) hused
        refine ⟨legacy, hlegacy, ?_⟩
        rw [hkept]
        exact faithful_of_not_fullWrite hfull (heffective hfull) hlegacy hsignature
  obtain ⟨legacy, hlegacy, hiff⟩ := hprojected
  rw [← hiff]
  constructor
  · rintro ⟨legacy', hlegacy', h⟩
    obtain rfl : legacy = legacy' := Except.ok.inj (hlegacy.symm.trans hlegacy')
    exact h
  · intro h
    exact ⟨legacy, hlegacy, h⟩

/-! ### Checkouts -/

theorem normal_checkoutGit : ∀ c ∈ [['a'], ".git".toList], IsNormal c := by decide +kernel

def checkoutGit : AbsolutePathBuf := ⟨[['a'], ".git".toList], normal_checkoutGit⟩
def checkoutAgents : AbsolutePathBuf := ⟨[['a'], ".agents".toList], by decide +kernel⟩
def bareRepository : AbsolutePathBuf := ⟨[['a'], ".bare".toList], by decide +kernel⟩
def bareConfig : AbsolutePathBuf := ⟨[['a'], ".bare".toList, "config".toList], by decide +kernel⟩

/-- A checkout with its metadata in `.git`. -/
def plainCheckout : Environment :=
  { emptyDisk with isDir := fun path => path = checkoutGit || path = checkoutAgents }

/-- A checkout whose `.git` file points to a repository beside it. -/
def bareCheckout : Environment :=
  { emptyDisk with
    isFile := fun path => path = checkoutGit
    isDir := fun path => path = checkoutAgents
    pathExists := fun path => path = bareRepository
    readToString := fun path =>
      if path = checkoutGit then some "gitdir: ./.bare\n".toList else none }

/-- Everything may be read, and the workspace written. -/
def workspacePolicy : FileSystemSandboxPolicy :=
  ⟨.restricted, [⟨.special .root, .read⟩, ⟨.special (.projectRoots none), .write⟩]⟩

def linkL : AbsolutePathBuf := ⟨[['l']], by decide +kernel⟩
def targetL : AbsolutePathBuf := ⟨["usr".toList, ['l']], by decide +kernel⟩

/-- The plain checkout on a machine with a link `/l` to `/usr/l`. -/
def linkedCheckout : Environment :=
  { plainCheckout with
    symlinkMetadata := fun path =>
      path = .root || path = dirA || path = checkoutGit || path = checkoutAgents || path = linkL
    isSymlink := fun path => path = linkL
    canonicalize := fun path => some (if path = linkL then targetL else path) }

/-- The workspace policy with a read entry for the link. -/
def linkedPolicy : FileSystemSandboxPolicy :=
  ⟨.restricted, workspacePolicy.entries ++ [⟨.path linkL, .read⟩]⟩

theorem projection_faithful_iff_plainCheckout :
    linkedPolicy.needsDirectRuntimeEnforcement linkedCheckout dirA .restricted = false ∧
      normalizeEffectiveAbsolutePath linkedCheckout linkL = targetL ∧
      ∃ legacy, linkedPolicy.toLegacySandboxPolicy linkedCheckout dirA .restricted = .ok legacy ∧
        ∀ path,
          (legacyRuntimeFileSystemPolicyForCwd linkedCheckout dirA legacy).canReadPathWithCwd
              linkedCheckout dirA path =
            linkedPolicy.canReadPathWithCwd linkedCheckout dirA path ∧
          (legacyRuntimeFileSystemPolicyForCwd linkedCheckout dirA legacy).canWritePathWithCwd
              linkedCheckout dirA path =
            linkedPolicy.canWritePathWithCwd linkedCheckout dirA path := by
  have hused : linkedPolicy.needsDirectRuntimeEnforcement linkedCheckout dirA .restricted =
      false := by decide +kernel
  have hfull : linkedPolicy.hasFullDiskWriteAccess = false := by decide +kernel
  have hpaths : EffectivePaths linkedCheckout linkedPolicy dirA := by
    refine ⟨by decide +kernel, by decide +kernel, fun hroot => absurd hroot (by decide +kernel)⟩
  refine ⟨hused, by decide +kernel, (projection_faithful_iff linkedCheckout linkedPolicy .restricted
    dirA hused fun _ _ => ⟨hpaths, by decide +kernel, by decide +kernel⟩).mpr ⟨?_, ?_⟩⟩
  · intro h
    rw [hfull] at h
    cases h
  · intro _ root gitdir _ hgitdir
    cases hgitdir

/-- The legacy policy protects the repository, and the policy itself does not. -/
theorem bareCheckout_projection :
    workspacePolicy.needsDirectRuntimeEnforcement bareCheckout dirA .restricted = false ∧
      workspacePolicy.toLegacySandboxPolicy bareCheckout dirA .restricted =
        .ok (.workspaceWrite [] false true true) ∧
      workspacePolicy.canWritePathWithCwd bareCheckout dirA bareConfig = true ∧
      (legacyRuntimeFileSystemPolicyForCwd bareCheckout dirA
        (.workspaceWrite [] false true true)).canWritePathWithCwd bareCheckout dirA bareConfig =
          false := by
  refine ⟨by decide +kernel, by rfl, by decide +kernel, by decide +kernel⟩

/-- Write access to everything and to `/tmp`, and read access to the path `/tmp`. -/
def slashTmpPolicy : FileSystemSandboxPolicy :=
  ⟨.restricted, [⟨.special .root, .write⟩, ⟨.special .slashTmp, .write⟩,
    ⟨.path slashTmpPath, .read⟩]⟩

-- Without a directory `/tmp`, what is projected to full access does not grant `/tmp`.
example :
    slashTmpPolicy.needsDirectRuntimeEnforcement emptyDisk dirA .restricted = false ∧
      slashTmpPolicy.canWritePathWithCwd emptyDisk dirA slashTmpPath = false := by
  decide +kernel

end FileSystemSandboxPolicy

end Codewith.Sandbox
