import Codewith.Sandbox.SameTarget

/-!
# Faithfulness of the projection

Where the projection is used, the policy and the expanded legacy policy have the same
writable roots, with the same carve-outs and the same protected names.  The access to a path
is decided by the longest write entry above it and by what is withheld below that entry, so
the two policies agree except where a carve-out of the root is no entry of the policy: a
default read-only path.  The metadata directories among these are protected in any case.
The directory that a `.git` file points to is not; it is withheld by a policy only if it is
an entry, and the legacy policy lists it where the given policy may not.
-/

namespace Codewith.Sandbox

open Lib

namespace FileSystemSandboxPolicy

variable {env : Environment} {policy : FileSystemSandboxPolicy} {cwd path : AbsolutePathBuf}

/-! ### Write access along a path -/

variable (env policy cwd) in
def Lists (path : AbsolutePathBuf) (access : FileSystemAccessMode) : Prop :=
  ⟨path, access⟩ ∈ policy.resolvedEntriesWithCwd env cwd

variable (env policy cwd) in
/-- Read and write entries only, spelled by effective paths, and not everything is writable. -/
structure Plain : Prop where
  kind : policy.kind = .restricted
  full : policy.hasFullDiskWriteAccess = false
  deny : policy.DeniesNothing
  effective : EffectivePaths env policy cwd

theorem canWrite_of_writeEntry (hplain : Plain env policy cwd)
    (hentry : Lists env policy cwd path .write) :
    policy.canWritePathWithCwd env cwd path = true := by
  rw [canWrite_iff hplain.full]
  refine ⟨resolveAccess_of_writeEntry hplain.kind hplain.deny hentry, ?_⟩
  rw [← Bool.not_eq_true]
  intro hdenied
  obtain ⟨parent, name, -, -, hmetadata, -, hbetween⟩ := exists_denying_entry hplain.kind hdenied
  exact hbetween _ hentry rfl (List.prefix_refl _) hmetadata

/-- Write access comes from a write entry that is as specific as any other. -/
theorem exists_granting_entry (hkind : policy.kind = .restricted)
    (haccess : policy.resolveAccessWithCwd env cwd path = .write) :
    ∃ root, Lists env policy cwd root .write ∧ root.parts <+: path.parts ∧
      ∀ other ∈ policy.resolvedEntriesWithCwd env cwd, other.path.parts <+: path.parts →
        resolvedEntryPrecedence other ≤ resolvedEntryPrecedence ⟨root, .write⟩ := by
  have hsome : ∃ entry ∈ policy.resolvedEntriesWithCwd env cwd,
      entry.path.parts <+: path.parts := by
    by_contra hnone
    have hfilter : (policy.resolvedEntriesWithCwd env cwd).filter
        (fun entry => startsWith path entry.path) = [] := by
      rw [List.filter_eq_nil_iff]
      intro entry hentry hstarts
      exact hnone ⟨entry, hentry, startsWith_iff.mp hstarts⟩
    simp [resolveAccessWithCwd, hkind, hfilter] at haccess
  obtain ⟨entry, hentry, habove⟩ := hsome
  obtain ⟨winner, hwinner, hpre, hwins, hmax⟩ := exists_deciding_entry hkind hentry habove
  have hsame : winner = ⟨winner.path, .write⟩ := by
    rw [← haccess, hwins]
  exact ⟨winner.path, hsame ▸ hwinner, hpre, hsame ▸ hmax⟩

/-- What is not writable stays so below, up to the next write entry. -/
theorem not_canWrite_below (hplain : Plain env policy cwd) {above : AbsolutePathBuf}
    (hno : policy.canWritePathWithCwd env cwd above = false) (hbelow : above.parts <+: path.parts)
    (hbetween : ∀ root, Lists env policy cwd root .write → root.parts <+: path.parts →
      ¬ above.parts <+: root.parts) :
    policy.canWritePathWithCwd env cwd path = false := by
  rw [← Bool.not_eq_true] at hno ⊢
  intro hcan
  obtain ⟨haccess, hallowed⟩ := (canWrite_iff hplain.full).mp hcan
  refine hno ((canWrite_iff hplain.full).mpr ⟨?_, ?_⟩)
  · obtain ⟨root, hroot, hpre, hmax⟩ := exists_granting_entry hplain.kind haccess
    have habove : root.parts <+: above.parts :=
      (List.prefix_or_prefix_of_prefix hpre hbelow).resolve_right (hbetween root hroot hpre)
    obtain ⟨winner, hwinner, hwinnerPre, hwins, hwinnerMax⟩ :=
      exists_deciding_entry hplain.kind hroot habove
    have hle := hmax winner hwinner (hwinnerPre.trans hbelow)
    have hge := hwinnerMax _ hroot habove
    have hrank : winner.access.rank = FileSystemAccessMode.rank .write :=
      (Prod.mk.inj (toLex.injective (le_antisymm hle hge))).2
    rw [hwins, rank_injective hrank]
  · rw [← Bool.not_eq_true] at hallowed ⊢
    intro hdenied
    obtain ⟨found, hfound, hexplicit⟩ := (isMetadataWriteDenied_iff hplain.kind).mp hdenied
    refine hallowed ((isMetadataWriteDenied_iff hplain.kind).mpr ⟨found, ?_, ?_⟩)
    · -- A write entry with the path, but not the place above it, in its metadata lies between.
      rw [metadataChildOfWritableRoot_eq, List.findSome?_eq_some_iff] at hfound ⊢
      obtain ⟨before, entry, after, hlist, hentry, hbefore⟩ := hfound
      obtain ⟨hname, hpath, hin⟩ := metadataOf_eq_some.mp hentry
      refine ⟨before, entry, after, hlist,
        metadataOf_eq_some.mpr ⟨hname, hpath, hin.trans hbelow⟩, ?_⟩
      intro other hother
      by_contra hsome
      obtain ⟨found', hfound'⟩ := Option.ne_none_iff_exists'.mp hsome
      obtain ⟨hname', hpath', hin'⟩ := metadataOf_eq_some.mp hfound'
      have hnone := hbefore other hother
      have hfilter :
          other ∈ (policy.resolvedEntriesWithCwd env cwd).filter (·.access.canWrite) := by
        rw [hlist]
        simp [hother]
      obtain ⟨hmem, hwrite⟩ := List.mem_filter.mp hfilter
      rw [canWrite_eq_true] at hwrite
      rcases List.prefix_or_prefix_of_prefix hin' hbelow with hup | hdown
      · rw [metadataOf_eq_some.mpr ⟨hname', hpath', hup⟩] at hnone
        cases hnone
      · rcases List.prefix_concat_iff.mp hdown with heq | hinside
        · rw [metadataOf_eq_some.mpr ⟨hname', hpath', heq ▸ List.prefix_refl _⟩] at hnone
          cases hnone
        · have hlisted : Lists env policy cwd other.path .write := hwrite ▸ hmem
          exact hbetween other.path hlisted ((List.prefix_append _ _).trans hin') hinside
    · rw [← Bool.not_eq_true] at hexplicit ⊢
      intro hsome
      obtain ⟨entry, hentry, hwrite, hup, hdown⟩ := hasExplicitWriteEntry_iff.mp hsome
      have hlisted : Lists env policy cwd entry.path .write := hwrite ▸ hentry
      refine hexplicit (hasExplicitWriteEntry_iff.mpr ⟨entry, hentry, hwrite, ?_, hdown⟩)
      exact (List.prefix_or_prefix_of_prefix hup hbelow).resolve_right
        (hbetween entry.path hlisted hup)

theorem exists_longest_root {root : AbsolutePathBuf} (hroot : Lists env policy cwd root .write)
    (habove : root.parts <+: path.parts) :
    ∃ longest, Lists env policy cwd longest .write ∧ longest.parts <+: path.parts ∧
      ∀ other, Lists env policy cwd other .write → other.parts <+: path.parts →
        other.parts <+: longest.parts := by
  let roots := ((policy.resolvedEntriesWithCwd env cwd).filter fun entry =>
    entry.access.canWrite && startsWith path entry.path).map (·.path)
  have hroots : ∀ other, other ∈ roots ↔
      Lists env policy cwd other .write ∧ other.parts <+: path.parts := by
    intro other
    simp only [roots, List.mem_map, List.mem_filter, Bool.and_eq_true, canWrite_eq_true,
      startsWith_iff]
    constructor
    · rintro ⟨entry, ⟨hmem, hwrite, hpre⟩, rfl⟩
      have hlisted : Lists env policy cwd entry.path .write := hwrite ▸ hmem
      exact ⟨hlisted, hpre⟩
    · rintro ⟨hlisted, hpre⟩
      exact ⟨⟨other, .write⟩, ⟨hlisted, rfl, hpre⟩, rfl⟩
  have hne : roots.argmax (·.parts.length) ≠ none := by
    rw [Ne, List.argmax_eq_none]
    exact List.ne_nil_of_mem ((hroots root).mpr ⟨hroot, habove⟩)
  obtain ⟨longest, hlongest⟩ := Option.ne_none_iff_exists'.mp hne
  obtain ⟨hlisted, hpre⟩ := (hroots longest).mp (List.argmax_mem hlongest)
  refine ⟨longest, hlisted, hpre, fun other hother hotherPre => ?_⟩
  have hle : other.parts.length ≤ longest.parts.length :=
    List.le_of_mem_argmax (f := fun root : AbsolutePathBuf => root.parts.length)
      ((hroots other).mpr ⟨hother, hotherPre⟩) hlongest
  exact List.prefix_of_prefix_length_le hotherPre hpre hle

variable (env policy cwd path) in
/-- Why a path is not writable: what is withheld below the longest write entry above it is a
read entry or one of the entry's metadata directories. -/
structure Withheld (root part : AbsolutePathBuf) : Prop where
  root_listed : Lists env policy cwd root .write
  root_above : root.parts <+: part.parts
  root_ne : root ≠ part
  part_above : part.parts <+: path.parts
  longest : ∀ other, Lists env policy cwd other .write → other.parts <+: path.parts →
    other.parts <+: root.parts
  part_no : policy.canWritePathWithCwd env cwd part = false
  reason : Lists env policy cwd part .read ∨
    ∃ name ∈ protectedMetadataPathNames, part = root.join env.home name

theorem exists_withheld (hplain : Plain env policy cwd)
    (hno : policy.canWritePathWithCwd env cwd path = false) {root : AbsolutePathBuf}
    (hroot : Lists env policy cwd root .write) (habove : root.parts <+: path.parts) :
    ∃ root part, Withheld env policy cwd path root part := by
  by_cases haccess : policy.resolveAccessWithCwd env cwd path = .write
  · have hdenied : policy.isMetadataWriteDenied env cwd path = true := by
      by_contra hallowed
      rw [← Bool.not_eq_true] at hno
      exact hno ((canWrite_iff hplain.full).mpr ⟨haccess, by simpa using hallowed⟩)
    obtain ⟨parent, name, hparent, hname, hmetadata, hinner, hbetween⟩ :=
      exists_denying_entry hplain.kind hdenied
    have hparts := parts_join_metadata hname env.home parent
    refine ⟨parent, parent.join env.home name, hparent, ?_, ?_, hmetadata, ?_, ?_,
      .inr ⟨name, hname, rfl⟩⟩
    · rw [hparts]
      exact List.prefix_append _ _
    · intro heq
      have hlength := congrArg (·.parts.length) heq
      simp [hparts] at hlength
    · intro other hother hpre
      have hcompare := List.prefix_or_prefix_of_prefix hpre hmetadata
      rcases hcompare with hup | hdown
      · rw [hparts] at hup
        rcases List.prefix_concat_iff.mp hup with heq | hinside
        · exact absurd (hparts.trans heq.symm ▸ List.prefix_refl _) (hbetween _ hother rfl hpre)
        · exact hinside
      · exact absurd hdown (hbetween _ hother rfl hpre)
    · rw [← Bool.not_eq_true, canWrite_iff hplain.full, hinner]
      simp
  · obtain ⟨longest, hlisted, hpre, hlongest⟩ := exists_longest_root hroot habove
    obtain ⟨winner, hwinner, hwinnerPre, hwins, hmax⟩ :=
      exists_deciding_entry hplain.kind hlisted hpre
    have hread : winner.access = .read := by
      cases hmode : winner.access with
      | read => rfl
      | write => exact absurd (hwins.trans hmode) haccess
      | deny => exact absurd hmode (hplain.deny.resolved hwinner)
    have hown : policy.resolveAccessWithCwd env cwd winner.path = winner.access :=
      access_of_deciding_entry hplain.kind hwinner fun other hother hotherPre =>
        hmax other hother (hotherPre.trans hwinnerPre)
    have hlt : longest.parts.length < winner.path.parts.length := by
      rcases precedence_le_iff.mp (hmax _ hlisted hpre) with hlt | ⟨-, hrank⟩
      · exact hlt
      · rw [hread] at hrank
        exact absurd hrank (Nat.not_succ_le_zero 0)
    refine ⟨longest, winner.path, hlisted, ?_, ?_, hwinnerPre, hlongest, ?_,
      .inl (hread ▸ hwinner)⟩
    · exact List.prefix_of_prefix_length_le hpre hwinnerPre hlt.le
    · rintro rfl
      omega
    · simp [canWritePathWithCwd, hown, hread, FileSystemAccessMode.canWrite]

/-! ### Two policies with the same roots -/

variable {other : FileSystemSandboxPolicy}

theorem mem_sortedAbsolutePaths {paths : List AbsolutePathBuf} :
    path ∈ sortedAbsolutePaths paths ↔ path ∈ paths :=
  List.mem_insertionSort _

theorem mem_sortDedup {texts : List Text} {text : Text} :
    text ∈ sortDedup texts ↔ text ∈ texts := by
  rw [sortDedup, List.mem_eraseDups, List.mem_insertionSort]

theorem mem_sortedWritableRoots {roots : List WritableRoot} {root : WritableRoot} :
    root ∈ sortedWritableRoots roots ↔ ∃ source ∈ roots,
      { source with
        readOnlySubpaths := sortedAbsolutePaths source.readOnlySubpaths
        protectedMetadataNames := sortDedup source.protectedMetadataNames } = root := by
  rw [sortedWritableRoots, List.mem_insertionSort, List.mem_map]

variable (env) in
/-- The directory that the `.git` file of a root points to. -/
def gitdirOf (root : AbsolutePathBuf) : Option AbsolutePathBuf :=
  if env.isFile (root.join env.home ".git".toList) then
    resolveGitdirFromFile env (root.join env.home ".git".toList)
  else none

/-- A default read-only path is a metadata directory or that of a `.git` file. -/
theorem mem_defaultReadOnlySubpaths {root subpath : AbsolutePathBuf} {protectMissing : Bool}
    (h : subpath ∈ defaultReadOnlySubpathsForWritableRoot env root protectMissing) :
    (∃ name ∈ protectedMetadataPathNames, subpath = root.join env.home name) ∨
      gitdirOf env root = some subpath := by
  unfold defaultReadOnlySubpathsForWritableRoot at h
  rw [mem_dedupAbsolutePaths] at h
  simp only [List.mem_append] at h
  have hnamed : ∀ {condition : Bool} {name : Text}, name ∈ protectedMetadataPathNames →
      subpath ∈ (if condition then [root.join env.home name] else []) →
        ∃ name ∈ protectedMetadataPathNames, subpath = root.join env.home name := by
    intro condition name hname hmem
    cases condition with
    | true => exact ⟨name, hname, by simpa using hmem⟩
    | false => simp at hmem
  rcases h with ((hgit | hagents) | hcodewith) | hcodex
  · split at hgit
    · rcases List.mem_append.mp hgit with hgitdir | hgit
      · right
        unfold gitdirOf
        split at hgitdir
        · rename_i hfile
          rw [if_pos hfile]
          exact Option.mem_toList.mp hgitdir
        · cases hgitdir
      · exact .inl ⟨".git".toList, by decide, List.mem_singleton.mp hgit⟩
    · cases hgit
  · exact .inl (hnamed (by decide) hagents)
  · exact .inl (hnamed (by decide) hcodewith)
  · exact .inl (hnamed (by decide) hcodex)

theorem gitdir_mem_defaultReadOnlySubpaths {root gitdir : AbsolutePathBuf} {protectMissing : Bool}
    (h : gitdirOf env root = some gitdir) :
    gitdir ∈ defaultReadOnlySubpathsForWritableRoot env root protectMissing := by
  unfold gitdirOf at h
  split at h
  · rename_i hfile
    unfold defaultReadOnlySubpathsForWritableRoot
    rw [mem_dedupAbsolutePaths]
    rw [if_pos (by rw [hfile, Bool.or_true]), if_pos hfile, h]
    refine List.mem_append_left _ (List.mem_append_left _ (List.mem_append_left _ ?_))
    exact List.mem_append_left _ (List.mem_singleton_self gitdir)
  · cases h

variable (env cwd) in
/-- The roots of one policy are roots of the other, which withholds as much below them. -/
structure RootsKept (policy other : FileSystemSandboxPolicy) : Prop where
  roots : ∀ root, Lists env policy cwd root .write → Lists env other cwd root .write
  subpaths : ∀ root, Lists env policy cwd root .write →
    ∀ subpath ∈ (policy.writableRoot env cwd root).readOnlySubpaths,
      subpath ∈ (other.writableRoot env cwd root).readOnlySubpaths
  names : ∀ root, Lists env policy cwd root .write → ∀ name ∈ protectedMetadataPathNames,
    policy.canWritePathWithCwd env cwd (root.join env.home name) = false →
      other.canWritePathWithCwd env cwd (root.join env.home name) = false

theorem rootsKept_of_sortedWritableRoots (hpolicy : Plain env policy cwd)
    (hother : Plain env other cwd)
    (h : sortedWritableRoots (policy.getWritableRootsWithCwd env cwd) =
      sortedWritableRoots (other.getWritableRootsWithCwd env cwd)) :
    RootsKept env cwd policy other := by
  have hroot : ∀ root, Lists env policy cwd root .write → Lists env other cwd root .write ∧
      sortedAbsolutePaths (other.writableRoot env cwd root).readOnlySubpaths =
        sortedAbsolutePaths (policy.writableRoot env cwd root).readOnlySubpaths ∧
      sortDedup (other.writableRoot env cwd root).protectedMetadataNames =
        sortDedup (policy.writableRoot env cwd root).protectedMetadataNames := by
    intro root hlisted
    have hmem : policy.writableRoot env cwd root ∈ policy.getWritableRootsWithCwd env cwd :=
      (mem_getWritableRoots hpolicy.effective).mpr
        ⟨hpolicy.full, _, hlisted, rfl, canWrite_of_writeEntry hpolicy hlisted, rfl⟩
    have hsorted := mem_sortedWritableRoots.mpr ⟨_, hmem, rfl⟩
    rw [h] at hsorted
    obtain ⟨found, hfound, heq⟩ := mem_sortedWritableRoots.mp hsorted
    obtain ⟨-, entry, hentry, hwrite, -, rfl⟩ := (mem_getWritableRoots hother.effective).mp hfound
    obtain ⟨hpath, hsubpaths, hnames⟩ := WritableRoot.mk.inj heq
    have hpath : entry.path = root := hpath
    subst hpath
    have hlisted' : Lists env other cwd entry.path .write := hwrite ▸ hentry
    exact ⟨hlisted', hsubpaths, hnames⟩
  refine ⟨fun root hlisted => (hroot root hlisted).1, ?_, ?_⟩
  · intro root hlisted subpath hsubpath
    rw [← mem_sortedAbsolutePaths, (hroot root hlisted).2.1, mem_sortedAbsolutePaths]
    exact hsubpath
  · intro root hlisted name hname hno
    have hprotected := (mem_protectedMetadataNames hpolicy.effective).mpr ⟨hname, hno⟩
    rw [← mem_sortDedup, ← (hroot root hlisted).2.2, mem_sortDedup] at hprotected
    exact ((mem_protectedMetadataNames hother.effective).mp hprotected).2

theorem not_canWrite_of_readEntry (hplain : Plain env policy cwd)
    (hread : Lists env policy cwd path .read) (hwrite : ¬ Lists env policy cwd path .write) :
    policy.canWritePathWithCwd env cwd path = false := by
  rw [← Bool.not_eq_true]
  intro hcan
  obtain ⟨root, hroot, hpre, hmax⟩ :=
    exists_granting_entry hplain.kind ((canWrite_iff hplain.full).mp hcan).1
  have hle := precedence_le_iff.mp (hmax _ hread (List.prefix_refl _))
  have hlength : root.parts.length = path.parts.length := by
    have hroot := hpre.length_le
    dsimp only at hle
    omega
  exact hwrite ((AbsolutePathBuf.ext (hpre.eq_of_length hlength)) ▸ hroot)

/-- A root calls an entry below it by the path of the entry. -/
theorem reportedPath_of_below (hplain : Plain env policy cwd) {root : AbsolutePathBuf}
    (hroot : Lists env policy cwd root .write) {access : FileSystemAccessMode}
    (hlisted : Lists env policy cwd path access) (hbelow : root.parts <+: path.parts) :
    reportedPath env root path = path := by
  by_cases htop : root = .root
  · subst htop
    exact reportedPath_of_effective (hplain.effective.ofAll hroot _ hlisted)
  · have hparent : root.parent.isSome = true := by
      rw [← Option.not_isNone, Bool.not_eq_true', ← Bool.not_eq_true]
      exact fun hnone => htop (eq_root_of_parent hnone)
    rw [reportedPath, if_pos ⟨hparent, startsWith_iff.mpr hbelow⟩]

/-- If the roots are kept, what is not writable stays so, but for what the other policy withholds
below a root without an entry of its own. -/
theorem not_canWrite_of_rootsKept (hpolicy : Plain env policy cwd) (hother : Plain env other cwd)
    (hkept : RootsKept env cwd policy other) (hback : RootsKept env cwd other policy)
    (hunlisted : ∀ root subpath, Lists env policy cwd root .write →
      root.parts <+: subpath.parts → root ≠ subpath → Lists env policy cwd subpath .read →
      subpath ∈ (other.writableRoot env cwd root).readOnlySubpaths →
      (∀ access, ¬ Lists env other cwd subpath access) →
      (∀ path : AbsolutePathBuf, path.parts.length < subpath.parts.length →
        policy.canWritePathWithCwd env cwd path = false →
          other.canWritePathWithCwd env cwd path = false) →
      ∃ part : AbsolutePathBuf, root.parts <+: part.parts ∧ root ≠ part ∧
        part.parts <+: subpath.parts ∧ other.canWritePathWithCwd env cwd part = false)
    (path : AbsolutePathBuf) (hno : policy.canWritePathWithCwd env cwd path = false) :
    other.canWritePathWithCwd env cwd path = false := by
  induction hlength : path.parts.length using Nat.strong_induction_on generalizing path with
  | _ length ih =>
  subst hlength
  by_cases hroots : ∃ root, Lists env policy cwd root .write ∧ root.parts <+: path.parts
  swap
  · rw [← Bool.not_eq_true]
    intro hcan
    obtain ⟨root, hroot, hpre, -⟩ :=
      exists_granting_entry hother.kind ((canWrite_iff hother.full).mp hcan).1
    exact hroots ⟨root, hback.roots root hroot, hpre⟩
  obtain ⟨root, hroot, hpre⟩ := hroots
  obtain ⟨root, part, hwithheld⟩ := exists_withheld hpolicy hno hroot hpre
  -- It is enough that the other policy withholds something between the root and the part.
  suffices hpart : ∃ inner : AbsolutePathBuf, root.parts <+: inner.parts ∧ root ≠ inner ∧
      inner.parts <+: part.parts ∧ other.canWritePathWithCwd env cwd inner = false by
    obtain ⟨inner, habove, hne, hinner, hnoInner⟩ := hpart
    refine not_canWrite_below hother hnoInner (hinner.trans hwithheld.part_above) ?_
    intro nested hnested hnestedPre hbelow
    have hle := hbelow.trans (hwithheld.longest nested (hback.roots nested hnested) hnestedPre)
    exact hne (AbsolutePathBuf.ext (habove.eq_of_length (le_antisymm habove.length_le
      hle.length_le)))
  by_cases hnoPart : other.canWritePathWithCwd env cwd part = false
  · exact ⟨part, hwithheld.root_above, hwithheld.root_ne, List.prefix_refl _, hnoPart⟩
  rcases hwithheld.reason with hread | ⟨name, hname, hpart⟩
  swap
  · rw [hpart] at hnoPart
    exact absurd (hkept.names root hwithheld.root_listed name hname (hpart ▸ hwithheld.part_no))
      hnoPart
  have hmode : FileSystemAccessMode.read ≠ .write := by decide
  have hsubpath := hkept.subpaths root hwithheld.root_listed part
    ((mem_readOnlySubpaths hpolicy.effective (hpolicy.effective.ofWrite _ hwithheld.root_listed
      rfl)).mpr (.inr ⟨_, hread, hmode, hwithheld.part_no, reportedPath_of_below hpolicy
        hwithheld.root_listed hread hwithheld.root_above, hwithheld.root_ne.symm,
        hwithheld.root_above⟩))
  refine hunlisted root part hwithheld.root_listed hwithheld.root_above hwithheld.root_ne hread
    hsubpath ?_ fun path hlt hnoPath => ih path.parts.length ?_ path hnoPath rfl
  · intro access hlisted
    have hwrite : ¬ Lists env other cwd part .write := by
      intro hwrite
      have hcan := canWrite_of_writeEntry hpolicy (hback.roots part hwrite)
      rw [hwithheld.part_no] at hcan
      cases hcan
    cases access with
    | read => exact hnoPart (not_canWrite_of_readEntry hother hlisted hwrite)
    | write => exact hwrite hlisted
    | deny => exact hother.deny.resolved hlisted rfl
  · exact hlt.trans_le hwithheld.part_above.length_le

end FileSystemSandboxPolicy

end Codewith.Sandbox
