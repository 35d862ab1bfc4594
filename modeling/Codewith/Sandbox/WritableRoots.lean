import Codewith.Sandbox.Policy

/-!
# Writable roots against the access to a path

A writable root reports a path writable if the path is below the root and below
none of its carve-outs.  The most specific entry above such a path is a write
entry, since a narrower entry without write access is a carve-out.

Metadata directories are protected below every write entry, but the names a
root carves out are those directly below the root.  A write entry below another
root therefore leaves its own metadata directories to that other root, which
reports them writable unless something else there is carved out.
-/

namespace Codewith.Sandbox

open Lib

/-! ## Paths below paths -/

theorem startsWith_iff {path base : AbsolutePathBuf} :
    startsWith path base = true ↔ base.parts <+: path.parts :=
  List.isPrefixOf_iff_prefix

theorem firstComponentBelow_eq_some {base path : AbsolutePathBuf} {name : Text} :
    firstComponentBelow base path = some name ↔ base.parts ++ [name] <+: path.parts := by
  unfold firstComponentBelow
  by_cases h : base.parts <+: path.parts
  · obtain ⟨rest, hrest⟩ := h
    rw [if_pos (startsWith_iff.2 ⟨rest, hrest⟩), ← hrest, List.drop_left]
    cases rest with
    | nil =>
        refine iff_of_false (by simp) fun hpre => ?_
        have hlength := hpre.length_le
        simp at hlength
    | cons c rest =>
        rw [List.prefix_append_right_inj]
        simp [eq_comm]
  · rw [if_neg fun hstarts => h (startsWith_iff.1 hstarts)]
    constructor
    · intro hnone
      cases hnone
    · intro hpre
      exact absurd ((List.prefix_append _ _).trans hpre) h

theorem metadataPathName_eq_some {name found : Text} :
    metadataPathName name = some found ↔ found = name ∧ name ∈ protectedMetadataPathNames := by
  unfold metadataPathName
  constructor
  · intro h
    have hfound : found = name := by simpa using List.find?_some h
    exact ⟨hfound, hfound ▸ List.mem_of_find?_eq_some h⟩
  · rintro ⟨rfl, hmem⟩
    have hsome : (protectedMetadataPathNames.find? (· = found)).isSome = true :=
      List.find?_isSome.2 ⟨found, hmem, by simp⟩
    obtain ⟨other, hother⟩ := Option.isSome_iff_exists.1 hsome
    have hsame : other = found := by simpa using List.find?_some hother
    rw [hother, hsame]

theorem parts_join_metadata {name : Text} (h : name ∈ protectedMetadataPathNames)
    (home : Option PathBuf) (p : AbsolutePathBuf) :
    (p.join home name).parts = p.parts ++ [name] := by
  have hnames : ∀ name ∈ protectedMetadataPathNames, Text.stripPrefix ['~'] name = none ∧
      PathBuf.isAbsolute name = false ∧ PathBuf.components name = [name] ∧ IsNormal name := by
    decide
  obtain ⟨hhome, hrelative, hcomponents, hnormal⟩ := hnames name h
  exact AbsolutePathBuf.parts_join_of_components hhome hrelative hcomponents hnormal home p

/-! ## Without links, paths are their own effective paths -/

/-- Making a path canonical does not lead elsewhere. -/
def NoSymlinks (env : Environment) : Prop :=
  ∀ path canonical, env.canonicalize path = some canonical → canonical = path

section

variable {env : Environment} (hlinks : NoSymlinks env)

include hlinks

theorem canonicalizePreservingSymlinks_eq (path : AbsolutePathBuf) :
    canonicalizePreservingSymlinks env path = path := by
  unfold canonicalizePreservingSymlinks
  split
  · rename_i canonical hcanonical
    rw [hlinks path canonical hcanonical, ite_self]
  · rfl

theorem normalizeEffectiveAbsolutePath_eq (path : AbsolutePathBuf) :
    normalizeEffectiveAbsolutePath env path = path := by
  unfold normalizeEffectiveAbsolutePath
  split
  · rename_i ancestor hancestor
    have hmem := List.mem_of_find?_eq_some hancestor
    simp only [ancestors, List.mem_map, List.mem_reverse, List.mem_range] at hmem
    obtain ⟨n, hn, rfl⟩ := hmem
    rw [canonicalizePreservingSymlinks_eq hlinks]
    apply AbsolutePathBuf.ext
    have hlength : (path.parts.take n).length = n := List.length_take_of_le (by omega)
    simp only [rebase, hlength, List.take_append_drop]
  · rfl

end

theorem mem_dedupAbsolutePaths {env : Environment} {paths : List AbsolutePathBuf}
    {path : AbsolutePathBuf} : path ∈ dedupAbsolutePaths env paths false ↔ path ∈ paths := by
  simp [dedupAbsolutePaths]

theorem mem_dedupAbsolutePaths_effective {env : Environment} {paths : List AbsolutePathBuf}
    (hpaths : ∀ path ∈ paths, normalizeEffectiveAbsolutePath env path = path)
    {path : AbsolutePathBuf} :
    path ∈ dedupAbsolutePaths env paths true ↔ path ∈ paths := by
  have hmap : paths.map (normalizeEffectiveAbsolutePath env) = paths := by
    rw [List.map_congr_left hpaths, List.map_id']
  simp [dedupAbsolutePaths, hmap]

/-! ## The entry that decides -/

namespace FileSystemSandboxPolicy

variable {env : Environment} {policy : FileSystemSandboxPolicy} {cwd path : AbsolutePathBuf}

/-- The access to a path is that of a most specific entry above it. -/
theorem exists_deciding_entry (hkind : policy.kind = .restricted) {entry : ResolvedFileSystemEntry}
    (hentry : entry ∈ policy.resolvedEntriesWithCwd env cwd)
    (habove : entry.path.parts <+: path.parts) :
    ∃ winner ∈ policy.resolvedEntriesWithCwd env cwd, winner.path.parts <+: path.parts ∧
      policy.resolveAccessWithCwd env cwd path = winner.access ∧
      ∀ other ∈ policy.resolvedEntriesWithCwd env cwd, other.path.parts <+: path.parts →
        resolvedEntryPrecedence other ≤ resolvedEntryPrecedence winner := by
  have hmem : entry ∈ (policy.resolvedEntriesWithCwd env cwd).filter fun entry =>
      startsWith path entry.path :=
    List.mem_filter.2 ⟨hentry, startsWith_iff.2 habove⟩
  have hsome : ((policy.resolvedEntriesWithCwd env cwd).filter fun entry =>
      startsWith path entry.path).argmax resolvedEntryPrecedence ≠ none := by
    rw [Ne, List.argmax_eq_none]
    exact List.ne_nil_of_mem hmem
  obtain ⟨winner, hwinner⟩ := Option.ne_none_iff_exists'.1 hsome
  obtain ⟨hin, hstarts⟩ := List.mem_filter.1 (List.argmax_mem hwinner)
  refine ⟨winner, hin, startsWith_iff.1 hstarts, ?_, ?_⟩
  · simp only [resolveAccessWithCwd, hkind, hwinner]
  · intro other hother hpre
    exact List.le_of_mem_argmax (List.mem_filter.2 ⟨hother, startsWith_iff.2 hpre⟩) hwinner

theorem precedence_le_iff {a b : ResolvedFileSystemEntry} :
    resolvedEntryPrecedence a ≤ resolvedEntryPrecedence b ↔
      a.path.parts.length < b.path.parts.length ∨
        (a.path.parts.length = b.path.parts.length ∧ a.access.rank ≤ b.access.rank) := by
  simp [resolvedEntryPrecedence, Prod.Lex.toLex_le_toLex]

theorem rank_injective {a b : FileSystemAccessMode} (h : a.rank = b.rank) : a = b := by
  cases a <;> cases b <;> first | rfl | cases h

/-- Nothing above an entry's own path is more specific than the entry. -/
theorem access_of_deciding_entry (hkind : policy.kind = .restricted)
    {winner : ResolvedFileSystemEntry}
    (hwinner : winner ∈ policy.resolvedEntriesWithCwd env cwd)
    (hmax : ∀ other ∈ policy.resolvedEntriesWithCwd env cwd,
      other.path.parts <+: winner.path.parts →
        resolvedEntryPrecedence other ≤ resolvedEntryPrecedence winner) :
    policy.resolveAccessWithCwd env cwd winner.path = winner.access := by
  obtain ⟨own, hown, hpre, haccess, hle⟩ :=
    exists_deciding_entry hkind hwinner (List.prefix_refl winner.path.parts)
  have hsame : resolvedEntryPrecedence own = resolvedEntryPrecedence winner :=
    le_antisymm (hmax own hown hpre) (hle winner hwinner (List.prefix_refl _))
  have hrank : own.access.rank = winner.access.rank := by
    have hpair := toLex.injective hsame
    exact (Prod.mk.inj hpair).2
  rw [haccess, rank_injective hrank]

theorem canWrite_eq_true {mode : FileSystemAccessMode} : mode.canWrite = true ↔ mode = .write := by
  simp [FileSystemAccessMode.canWrite]

/-- Below a writable root, only a narrower entry without write access can take
the write access away. -/
theorem resolveAccess_below_root (hkind : policy.kind = .restricted)
    {root : ResolvedFileSystemEntry} (hroot : root ∈ policy.resolvedEntriesWithCwd env cwd)
    (haccess : policy.resolveAccessWithCwd env cwd root.path = .write)
    (hbelow : root.path.parts <+: path.parts)
    (hnarrow : ∀ entry ∈ policy.resolvedEntriesWithCwd env cwd, entry.access ≠ .write →
      policy.canWritePathWithCwd env cwd entry.path = false → entry.path ≠ root.path →
      root.path.parts <+: entry.path.parts → ¬ entry.path.parts <+: path.parts) :
    policy.resolveAccessWithCwd env cwd path = .write := by
  obtain ⟨winner, hwinner, hpre, hwins, hmax⟩ := exists_deciding_entry hkind hroot hbelow
  rw [hwins]
  by_contra hnot
  have hrootLe := precedence_le_iff.1 (hmax root hroot hbelow)
  have hrootWinner : root.path.parts <+: winner.path.parts :=
    List.prefix_of_prefix_length_le hbelow hpre (by omega)
  have hown : policy.resolveAccessWithCwd env cwd winner.path = winner.access :=
    access_of_deciding_entry hkind hwinner fun other hother habove =>
      hmax other hother (habove.trans hpre)
  have hne : winner.path ≠ root.path := by
    intro heq
    rw [heq, haccess] at hown
    exact hnot hown.symm
  refine hnarrow winner hwinner hnot ?_ hne hrootWinner hpre
  simp [canWritePathWithCwd, hown, FileSystemAccessMode.canWrite, hnot]

/-! ## Protected metadata -/

/-- The metadata directory of an entry that a path lies in. -/
def metadataOf (env : Environment) (target : AbsolutePathBuf) (entry : ResolvedFileSystemEntry) :
    Option (AbsolutePathBuf × Text) := do
  let firstComponent ← firstComponentBelow entry.path target
  let metadataName ← metadataPathName firstComponent
  return (AbsolutePathBuf.join env.home entry.path metadataName, metadataName)

theorem metadataOf_eq_some {target : AbsolutePathBuf} {entry : ResolvedFileSystemEntry}
    {found : AbsolutePathBuf × Text} :
    metadataOf env target entry = some found ↔
      found.2 ∈ protectedMetadataPathNames ∧ found.1 = entry.path.join env.home found.2 ∧
        entry.path.parts ++ [found.2] <+: target.parts := by
  simp only [metadataOf, Option.bind_eq_bind, Option.bind_eq_some_iff, Option.pure_def,
    Option.some.injEq, firstComponentBelow_eq_some, metadataPathName_eq_some]
  constructor
  · rintro ⟨name, hpre, other, ⟨rfl, hmem⟩, rfl⟩
    exact ⟨hmem, rfl, hpre⟩
  · rintro ⟨hmem, hpath, hpre⟩
    exact ⟨found.2, hpre, found.2, ⟨rfl, hmem⟩, Prod.ext hpath.symm rfl⟩

theorem metadataChildOfWritableRoot_eq (target : AbsolutePathBuf) :
    policy.metadataChildOfWritableRoot env cwd target =
      ((policy.resolvedEntriesWithCwd env cwd).filter (·.access.canWrite)).findSome?
        (metadataOf env target) := rfl

/-- A path in a metadata directory and the directory itself have the same first
write entry above them. -/
theorem metadataChild_of_prefix {inner outer : AbsolutePathBuf} {found : AbsolutePathBuf × Text}
    (hpre : inner.parts <+: outer.parts)
    (houter : policy.metadataChildOfWritableRoot env cwd outer = some found)
    (hinner : found.1.parts <+: inner.parts) :
    policy.metadataChildOfWritableRoot env cwd inner = some found := by
  rw [metadataChildOfWritableRoot_eq, List.findSome?_eq_some_iff] at houter ⊢
  obtain ⟨before, entry, after, hlist, hentry, hbefore⟩ := houter
  refine ⟨before, entry, after, hlist, ?_, ?_⟩
  · obtain ⟨hmem, hpath, -⟩ := metadataOf_eq_some.1 hentry
    rw [hpath, parts_join_metadata hmem] at hinner
    exact metadataOf_eq_some.2 ⟨hmem, hpath, hinner⟩
  · intro other hother
    by_contra hsome
    obtain ⟨found', hfound'⟩ := Option.ne_none_iff_exists'.1 hsome
    obtain ⟨hmem, hpath, hbelow⟩ := metadataOf_eq_some.1 hfound'
    have hother' : metadataOf env outer other = some found' :=
      metadataOf_eq_some.2 ⟨hmem, hpath, hbelow.trans hpre⟩
    rw [hbefore other hother] at hother'
    cases hother'

theorem hasExplicitWriteEntry_iff {metadata target : AbsolutePathBuf} :
    policy.hasExplicitWriteEntryForMetadataPath env cwd metadata target = true ↔
      ∃ entry ∈ policy.resolvedEntriesWithCwd env cwd, entry.access = .write ∧
        entry.path.parts <+: target.parts ∧ metadata.parts <+: entry.path.parts := by
  simp [hasExplicitWriteEntryForMetadataPath, canWrite_eq_true, startsWith_iff, and_assoc]

/-- The write is denied because of the first write entry above the path that has
it in a metadata directory. -/
theorem isMetadataWriteDenied_iff (hkind : policy.kind = .restricted) :
    policy.isMetadataWriteDenied env cwd path = true ↔
      ∃ found, policy.metadataChildOfWritableRoot env cwd path = some found ∧
        policy.hasExplicitWriteEntryForMetadataPath env cwd found.1 path = false := by
  unfold isMetadataWriteDenied
  cases policy.metadataChildOfWritableRoot env cwd path with
  | none => simp [hkind]
  | some found => simp [hkind]

/-- A denied path lies in a metadata directory of a write entry that is denied itself, and no
write entry lies between this directory and the path. -/
theorem exists_denying_entry (hkind : policy.kind = .restricted)
    (hdenied : policy.isMetadataWriteDenied env cwd path = true) :
    ∃ parent name, ⟨parent, .write⟩ ∈ policy.resolvedEntriesWithCwd env cwd ∧
      name ∈ protectedMetadataPathNames ∧ (parent.join env.home name).parts <+: path.parts ∧
      policy.isMetadataWriteDenied env cwd (parent.join env.home name) = true ∧
      ∀ entry ∈ policy.resolvedEntriesWithCwd env cwd, entry.access = .write →
        entry.path.parts <+: path.parts →
          ¬ (parent.join env.home name).parts <+: entry.path.parts := by
  obtain ⟨⟨metadata, name⟩, hfound, hexplicit⟩ := (isMetadataWriteDenied_iff hkind).1 hdenied
  have hfound' := hfound
  rw [metadataChildOfWritableRoot_eq] at hfound'
  obtain ⟨parent, hfilter, hparent⟩ := List.exists_of_findSome?_eq_some hfound'
  obtain ⟨hmem, hwrite⟩ := List.mem_filter.1 hfilter
  rw [canWrite_eq_true] at hwrite
  obtain ⟨hname, hpath, hin⟩ := metadataOf_eq_some.1 hparent
  dsimp only at hname hpath hin hexplicit
  subst hpath
  have hmetadata : (parent.path.join env.home name).parts <+: path.parts := by
    rw [parts_join_metadata hname]
    exact hin
  have hbetween : ∀ entry ∈ policy.resolvedEntriesWithCwd env cwd, entry.access = .write →
      entry.path.parts <+: path.parts →
        ¬ (parent.path.join env.home name).parts <+: entry.path.parts := by
    intro entry hentry hentryWrite habove hbelow
    rw [← Bool.not_eq_true] at hexplicit
    exact hexplicit (hasExplicitWriteEntry_iff.2 ⟨entry, hentry, hentryWrite, habove, hbelow⟩)
  refine ⟨parent.path, name, hwrite ▸ hmem, hname, hmetadata, ?_, hbetween⟩
  -- The metadata directory itself is denied for the same reason as the path.
  refine (isMetadataWriteDenied_iff hkind).2
    ⟨_, metadataChild_of_prefix hmetadata hfound (List.prefix_refl _), ?_⟩
  rw [← Bool.not_eq_true]
  intro hsome
  obtain ⟨entry, hentry, hentryWrite, hup, hdown⟩ := hasExplicitWriteEntry_iff.1 hsome
  exact hbetween entry hentry hentryWrite (hup.trans hmetadata) hdown

/-! ## What a root carves out -/

variable (env policy cwd) in
/-- The path lies at or below a part that the root withholds: an entry without
write access below the root, one of the root's default read-only paths that no
entry speaks about, or a metadata directory directly below the root. -/
def CarvedOut (root path : AbsolutePathBuf) : Prop :=
  (∃ entry ∈ policy.resolvedEntriesWithCwd env cwd, entry.access ≠ .write ∧
    policy.canWritePathWithCwd env cwd entry.path = false ∧ entry.path ≠ root ∧
    root.parts <+: entry.path.parts ∧ entry.path.parts <+: path.parts) ∨
  (∃ subpath ∈ defaultReadOnlySubpathsForWritableRoot env root (cwd = root),
    hasExplicitResolvedPathEntry (policy.resolvedEntriesWithCwd env cwd) subpath = false ∧
    subpath.parts <+: path.parts) ∨
  (∃ name ∈ protectedMetadataPathNames, root.parts ++ [name] <+: path.parts ∧
    policy.canWritePathWithCwd env cwd (root.join env.home name) = false)

theorem CarvedOut.mono {root inner outer : AbsolutePathBuf}
    (h : CarvedOut env policy cwd root inner) (hpre : inner.parts <+: outer.parts) :
    CarvedOut env policy cwd root outer := by
  rcases h with ⟨entry, hentry, haccess, hno, hne, hroot, hbelow⟩ | ⟨subpath, hsub, hno, hbelow⟩ |
    ⟨name, hname, hbelow, hno⟩
  · exact .inl ⟨entry, hentry, haccess, hno, hne, hroot, hbelow.trans hpre⟩
  · exact .inr (.inl ⟨subpath, hsub, hno, hbelow.trans hpre⟩)
  · exact .inr (.inr ⟨name, hname, hbelow.trans hpre, hno⟩)

variable (env policy cwd) in
/-- The working directory and the write entries are spelled as their effective paths, and so is
every entry if the root of the file system is a write entry. -/
structure EffectivePaths : Prop where
  ofCwd : normalizeEffectiveAbsolutePath env cwd = cwd
  ofWrite : ∀ entry ∈ policy.resolvedEntriesWithCwd env cwd, entry.access = .write →
    normalizeEffectiveAbsolutePath env entry.path = entry.path
  -- A root reports the carve-outs below it as they are spelled, but for this root.
  ofAll : ⟨.root, .write⟩ ∈ policy.resolvedEntriesWithCwd env cwd →
    ∀ entry ∈ policy.resolvedEntriesWithCwd env cwd,
      normalizeEffectiveAbsolutePath env entry.path = entry.path

theorem effectivePaths_of_noSymlinks (hlinks : NoSymlinks env) :
    EffectivePaths env policy cwd where
  ofCwd := normalizeEffectiveAbsolutePath_eq hlinks cwd
  ofWrite := fun entry _ _ => normalizeEffectiveAbsolutePath_eq hlinks entry.path
  ofAll := fun _ entry _ => normalizeEffectiveAbsolutePath_eq hlinks entry.path

variable (env) in
/-- What a root calls the path of an entry. -/
def reportedPath (root path : AbsolutePathBuf) : AbsolutePathBuf :=
  if root.parent.isSome ∧ startsWith path root then path
  else normalizeEffectiveAbsolutePath env path

theorem reportedPath_of_effective {root : AbsolutePathBuf}
    (hpath : normalizeEffectiveAbsolutePath env path = path) :
    reportedPath env root path = path := by
  rw [reportedPath, hpath, ite_self]

theorem carveoutPath_eq_some {root subpath : AbsolutePathBuf}
    {rawWritableRoots : List AbsolutePathBuf} (hraw : ∀ raw ∈ rawWritableRoots, raw = root)
    (hroot : normalizeEffectiveAbsolutePath env root = root) :
    carveoutPath env root rawWritableRoots path = some subpath ↔
      reportedPath env root path = subpath ∧ subpath ≠ root ∧ root.parts <+: subpath.parts := by
  have heffective : (if normalizeEffectiveAbsolutePath env path = root ∨
        ¬ startsWith (normalizeEffectiveAbsolutePath env path) root then none
      else some (normalizeEffectiveAbsolutePath env path)) = some subpath ↔
      normalizeEffectiveAbsolutePath env path = subpath ∧ subpath ≠ root ∧
        root.parts <+: subpath.parts := by
    rw [← startsWith_iff]
    constructor
    · intro h
      split at h
      · cases h
      · rename_i hnot
        obtain rfl := Option.some.inj h
        rw [not_or, not_not] at hnot
        exact ⟨rfl, hnot.1, hnot.2⟩
    · rintro ⟨rfl, hne, hbelow⟩
      rw [if_neg (by simp [hne, hbelow])]
  by_cases hreported : root.parent.isSome = true ∧ startsWith path root = true
  · rw [reportedPath, if_pos hreported]
    by_cases hsame : path = root
    · subst hsame
      rw [carveoutPath, if_pos hreported.1, if_pos rfl, hroot, if_pos (.inl rfl)]
      refine iff_of_false (by simp) ?_
      rintro ⟨rfl, hne, -⟩
      exact hne rfl
    · rw [carveoutPath, if_pos hreported.1, if_neg hsame, if_pos hreported.2, Option.some_or,
        Option.some.injEq, ← startsWith_iff]
      constructor
      · rintro rfl
        exact ⟨rfl, hsame, hreported.2⟩
      · exact And.left
  · rw [reportedPath, if_neg hreported, ← heffective]
    have hnone : (if root.parent.isSome then
        if path = root then none
        else if startsWith path root then some path
        else rawWritableRoots.findSome? fun rawRoot =>
          if startsWith path rawRoot ∧ path ≠ rawRoot then
            some (AbsolutePathBuf.join env.home root
              (Text.joinWith '/' (path.parts.drop rawRoot.parts.length)))
          else none
        else none) = none := by
      split
      · rename_i hparent
        have hbelow : ¬ startsWith path root = true := fun h => hreported ⟨hparent, h⟩
        split
        · rfl
        · rw [List.findSome?_eq_none_iff]
          intro raw hmem
          rw [hraw raw hmem, if_neg fun h => hbelow h.1]
      · rfl
    simp only [carveoutPath, hnone, Option.none_or]

theorem effective_of_mem_writableEntries (heffective : EffectivePaths env policy cwd)
    (h : path ∈ policy.writableEntries env cwd) :
    normalizeEffectiveAbsolutePath env path = path := by
  obtain ⟨entry, hentry, rfl⟩ := List.mem_map.1 h
  obtain ⟨hmem, hwrite⟩ := List.mem_filter.1 hentry
  rw [Bool.and_eq_true, canWrite_eq_true] at hwrite
  exact heffective.ofWrite entry hmem hwrite.1

theorem eq_root_of_mem_raw (heffective : EffectivePaths env policy cwd)
    {root raw : AbsolutePathBuf}
    (h : raw ∈ (policy.writableEntries env cwd).filter fun path =>
      normalizeEffectiveAbsolutePath env path = root) :
    raw = root := by
  obtain ⟨hmem, hroot⟩ := List.mem_filter.1 h
  rw [effective_of_mem_writableEntries heffective hmem] at hroot
  simpa using hroot

theorem mem_readOnlySubpaths (heffective : EffectivePaths env policy cwd)
    {root subpath : AbsolutePathBuf} (hroot : normalizeEffectiveAbsolutePath env root = root) :
    subpath ∈ (policy.writableRoot env cwd root).readOnlySubpaths ↔
      (subpath ∈ defaultReadOnlySubpathsForWritableRoot env root (cwd = root) ∧
        hasExplicitResolvedPathEntry (policy.resolvedEntriesWithCwd env cwd) subpath = false) ∨
      ∃ entry ∈ policy.resolvedEntriesWithCwd env cwd, entry.access ≠ .write ∧
        policy.canWritePathWithCwd env cwd entry.path = false ∧
        reportedPath env root entry.path = subpath ∧ subpath ≠ root ∧
        root.parts <+: subpath.parts := by
  have hraw : ∀ raw ∈ (policy.writableEntries env cwd).filter fun path =>
      normalizeEffectiveAbsolutePath env path = root, raw = root :=
    fun raw hmem => eq_root_of_mem_raw heffective hmem
  have hentry : ∀ entry ∈ policy.resolvedEntriesWithCwd env cwd,
      (if !entry.access.canWrite && !policy.canWritePathWithCwd env cwd entry.path then
        carveoutPath env root ((policy.writableEntries env cwd).filter fun path =>
          normalizeEffectiveAbsolutePath env path = root) entry.path
      else none) = some subpath ↔
      entry.access ≠ .write ∧ policy.canWritePathWithCwd env cwd entry.path = false ∧
        reportedPath env root entry.path = subpath ∧ subpath ≠ root ∧
        root.parts <+: subpath.parts := by
    intro entry _
    rw [Option.ite_none_right_eq_some, carveoutPath_eq_some hraw hroot]
    simp [FileSystemAccessMode.canWrite, and_assoc]
  simp only [writableRoot, mem_dedupAbsolutePaths, List.mem_append, List.mem_filter,
    List.mem_filterMap, heffective.ofCwd, Bool.not_eq_true']
  exact or_congr Iff.rfl (exists_congr fun entry => and_congr_right (hentry entry))

theorem mem_protectedMetadataNames (heffective : EffectivePaths env policy cwd)
    {root : AbsolutePathBuf} {name : Text} :
    name ∈ (policy.writableRoot env cwd root).protectedMetadataNames ↔
      name ∈ protectedMetadataPathNames ∧
        policy.canWritePathWithCwd env cwd (root.join env.home name) = false := by
  have hraw : ∀ raw ∈ (policy.writableEntries env cwd).filter fun path =>
      normalizeEffectiveAbsolutePath env path = root, raw = root :=
    fun raw hmem => eq_root_of_mem_raw heffective hmem
  simp only [writableRoot, protectedMetadataNamesForWritableRoot, List.mem_filter, List.all_cons,
    Bool.and_eq_true, Bool.not_eq_true', and_congr_right_iff]
  intro _
  refine and_iff_left_of_imp fun hroot => ?_
  rw [List.all_eq_true]
  intro path hpath
  obtain ⟨raw, hmem, rfl⟩ := List.mem_map.1 hpath
  rw [hraw raw hmem, hroot]
  rfl

/-- A root reports what is below it and not carved out. -/
theorem isPathWritable_iff (hlinks : NoSymlinks env) {root : AbsolutePathBuf} :
    (policy.writableRoot env cwd root).isPathWritable path = true ↔
      root.parts <+: path.parts ∧ ¬ CarvedOut env policy cwd root path := by
  have hsubpaths : ((policy.writableRoot env cwd root).readOnlySubpaths.any fun subpath =>
      startsWith path subpath) = true ↔
      (∃ entry ∈ policy.resolvedEntriesWithCwd env cwd, entry.access ≠ .write ∧
        policy.canWritePathWithCwd env cwd entry.path = false ∧ entry.path ≠ root ∧
        root.parts <+: entry.path.parts ∧ entry.path.parts <+: path.parts) ∨
      (∃ subpath ∈ defaultReadOnlySubpathsForWritableRoot env root (cwd = root),
        hasExplicitResolvedPathEntry (policy.resolvedEntriesWithCwd env cwd) subpath = false ∧
        subpath.parts <+: path.parts) := by
    have hreported : ∀ path, reportedPath env root path = path := fun path =>
      reportedPath_of_effective (normalizeEffectiveAbsolutePath_eq hlinks path)
    simp only [List.any_eq_true, mem_readOnlySubpaths (effectivePaths_of_noSymlinks hlinks)
      (normalizeEffectiveAbsolutePath_eq hlinks root), startsWith_iff, hreported]
    constructor
    · rintro ⟨subpath, ⟨hdefault, hno⟩ | ⟨entry, hentry, haccess, hno, rfl, hne, hroot⟩, hbelow⟩
      · exact .inr ⟨subpath, hdefault, hno, hbelow⟩
      · exact .inl ⟨entry, hentry, haccess, hno, hne, hroot, hbelow⟩
    · rintro (⟨entry, hentry, haccess, hno, hne, hroot, hbelow⟩ | ⟨subpath, hdefault, hno, hbelow⟩)
      · exact ⟨entry.path, .inr ⟨entry, hentry, haccess, hno, rfl, hne, hroot⟩, hbelow⟩
      · exact ⟨subpath, .inl ⟨hdefault, hno⟩, hbelow⟩
  have hnames : (policy.writableRoot env cwd root).pathContainsProtectedMetadataName path = true ↔
      ∃ name ∈ protectedMetadataPathNames, root.parts ++ [name] <+: path.parts ∧
        policy.canWritePathWithCwd env cwd (root.join env.home name) = false := by
    have hroot : (policy.writableRoot env cwd root).root = root := rfl
    unfold WritableRoot.pathContainsProtectedMetadataName
    rw [hroot]
    cases hfirst : firstComponentBelow root path with
    | none =>
        refine iff_of_false (by simp) ?_
        rintro ⟨name, -, hbelow, -⟩
        rw [firstComponentBelow_eq_some.2 hbelow] at hfirst
        cases hfirst
    | some first =>
        simp only [List.any_eq_true, decide_eq_true_eq,
          mem_protectedMetadataNames (effectivePaths_of_noSymlinks hlinks)]
        constructor
        · rintro ⟨name, ⟨hname, hno⟩, rfl⟩
          exact ⟨name, hname, firstComponentBelow_eq_some.1 hfirst, hno⟩
        · rintro ⟨name, hname, hbelow, hno⟩
          rw [firstComponentBelow_eq_some.2 hbelow, Option.some.injEq] at hfirst
          exact ⟨name, ⟨hname, hno⟩, hfirst⟩
  rw [WritableRoot.isPathWritable, Bool.and_eq_true, Bool.and_eq_true, Bool.not_eq_true',
    Bool.not_eq_true', ← Bool.not_eq_true, ← Bool.not_eq_true, hsubpaths, hnames, startsWith_iff]
  constructor
  · rintro ⟨⟨hroot, hsub⟩, hname⟩
    refine ⟨hroot, ?_⟩
    rintro (hentry | hdefault | hprotected)
    · exact hsub (.inl hentry)
    · exact hsub (.inr hdefault)
    · exact hname hprotected
  · rintro ⟨hroot, hcarved⟩
    refine ⟨⟨hroot, ?_⟩, fun hprotected => hcarved (.inr (.inr hprotected))⟩
    rintro (hentry | hdefault)
    · exact hcarved (.inl hentry)
    · exact hcarved (.inr (.inl hdefault))

/-! ## Roots never grant too much -/

variable (env policy cwd) in
/-- Each metadata directory of a write entry below a writable root is either
writable itself or carved out of that root. -/
def NestedMetadataCarvedOut : Prop :=
  policy.hasFullDiskWriteAccess = true ∨
    ∀ root ∈ policy.resolvedEntriesWithCwd env cwd, root.access = .write →
      policy.canWritePathWithCwd env cwd root.path = true →
      ∀ nested ∈ policy.resolvedEntriesWithCwd env cwd, nested.access = .write →
        nested.path ≠ root.path → root.path.parts <+: nested.path.parts →
        ∀ name ∈ protectedMetadataPathNames,
          policy.isMetadataWriteDenied env cwd (nested.path.join env.home name) = true →
          CarvedOut env policy cwd root.path (nested.path.join env.home name)

theorem mem_getWritableRoots (heffective : EffectivePaths env policy cwd)
    {root : WritableRoot} :
    root ∈ policy.getWritableRootsWithCwd env cwd ↔ policy.hasFullDiskWriteAccess = false ∧
      ∃ entry ∈ policy.resolvedEntriesWithCwd env cwd, entry.access = .write ∧
        policy.canWritePathWithCwd env cwd entry.path = true ∧
        policy.writableRoot env cwd entry.path = root := by
  unfold getWritableRootsWithCwd
  cases policy.hasFullDiskWriteAccess with
  | true => simp
  | false =>
      have hmem : ∀ path, path ∈ dedupAbsolutePaths env (policy.writableEntries env cwd) true ↔
          path ∈ policy.writableEntries env cwd := fun path =>
        mem_dedupAbsolutePaths_effective fun path hpath =>
          effective_of_mem_writableEntries heffective hpath
      simp only [Bool.false_eq_true, if_false, List.mem_map, hmem]
      simp [writableEntries, canWrite_eq_true, and_assoc]

theorem canWrite_iff (hfull : policy.hasFullDiskWriteAccess = false) :
    policy.canWritePathWithCwd env cwd path = true ↔
      policy.resolveAccessWithCwd env cwd path = .write ∧
        policy.isMetadataWriteDenied env cwd path = false := by
  simp [canWritePathWithCwd, hfull, canWrite_eq_true]

theorem restricted_of_not_full (hfull : policy.hasFullDiskWriteAccess = false) :
    policy.kind = .restricted := by
  unfold hasFullDiskWriteAccess at hfull
  cases hkind : policy.kind with
  | restricted => rfl
  | unrestricted =>
      rw [hkind] at hfull
      cases hfull
  | externalSandbox =>
      rw [hkind] at hfull
      cases hfull

/-- A path of a root is writable unless it lies in a metadata directory that is
protected because of a write entry below the root. -/
theorem canWrite_or_nested (hlinks : NoSymlinks env)
    (hfull : policy.hasFullDiskWriteAccess = false) {root : ResolvedFileSystemEntry}
    (hroot : root ∈ policy.resolvedEntriesWithCwd env cwd) (hwrite : root.access = .write)
    (hcan : policy.canWritePathWithCwd env cwd root.path = true)
    (hreported : (policy.writableRoot env cwd root.path).isPathWritable path = true) :
    policy.canWritePathWithCwd env cwd path = true ∨
      ∃ nested ∈ policy.resolvedEntriesWithCwd env cwd, nested.access = .write ∧
        nested.path ≠ root.path ∧ root.path.parts <+: nested.path.parts ∧
        ∃ name ∈ protectedMetadataPathNames,
          policy.isMetadataWriteDenied env cwd (nested.path.join env.home name) = true ∧
          (nested.path.join env.home name).parts <+: path.parts := by
  have hkind := restricted_of_not_full hfull
  obtain ⟨hbelow, hcarved⟩ := (isPathWritable_iff hlinks).1 hreported
  have haccess : policy.resolveAccessWithCwd env cwd path = .write := by
    refine resolveAccess_below_root hkind hroot ((canWrite_iff hfull).1 hcan).1 hbelow ?_
    intro entry hentry hnot hno hne habove hpre
    exact hcarved (.inl ⟨entry, hentry, hnot, hno, hne, habove, hpre⟩)
  by_cases hdenied : policy.isMetadataWriteDenied env cwd path = true
  swap
  · exact .inl ((canWrite_iff hfull).2 ⟨haccess, by simpa using hdenied⟩)
  obtain ⟨parent, name, hparent, hname, hmetadata, hinner, hexplicit⟩ :=
    exists_denying_entry hkind hdenied
  have hparts := parts_join_metadata hname env.home parent
  have hin : parent.parts ++ [name] <+: path.parts := hparts ▸ hmetadata
  rcases Nat.lt_trichotomy parent.parts.length root.path.parts.length with hlt | heq | hgt
  · -- The root is itself an explicit entry inside the metadata directory.
    exfalso
    refine hexplicit root hroot hwrite hbelow (List.prefix_of_prefix_length_le hmetadata hbelow ?_)
    rw [hparts, List.length_append, List.length_singleton]
    omega
  · -- The name is one of those that the root protects.
    exfalso
    have hsame : parent = root.path := by
      apply AbsolutePathBuf.ext
      exact (List.prefix_of_prefix_length_le ((List.prefix_append _ _).trans hin) hbelow
        heq.le).eq_of_length heq
    refine hcarved (.inr (.inr ⟨name, hname, hsame ▸ hin, ?_⟩))
    rw [← Bool.not_eq_true, canWrite_iff hfull, ← hsame, hinner]
    simp
  · refine .inr ⟨_, hparent, rfl, ?_, ?_, name, hname, hinner, hmetadata⟩
    · rintro rfl
      omega
    · exact List.prefix_of_prefix_length_le hbelow ((List.prefix_append _ _).trans hin) hgt.le

/-- What the writable roots report writable is writable, for every path, exactly
if the metadata directories of nested write entries are carved out. -/
theorem writable_roots_sound_iff (hlinks : NoSymlinks env) :
    (∀ root ∈ policy.getWritableRootsWithCwd env cwd, ∀ path, root.isPathWritable path = true →
      policy.canWritePathWithCwd env cwd path = true) ↔
      NestedMetadataCarvedOut env policy cwd := by
  constructor
  · intro hsound
    by_cases hfull : policy.hasFullDiskWriteAccess = true
    · exact .inl hfull
    · right
      intro root hroot hwrite hcan nested hnested hnestedWrite hne hbelow name hname hdenied
      by_contra hcarved
      have hno : policy.hasFullDiskWriteAccess = false := by simpa using hfull
      have hmem : policy.writableRoot env cwd root.path ∈ policy.getWritableRootsWithCwd env cwd :=
        (mem_getWritableRoots (effectivePaths_of_noSymlinks hlinks)).2
          ⟨hno, root, hroot, hwrite, hcan, rfl⟩
      have hpath : root.path.parts <+: (nested.path.join env.home name).parts := by
        rw [parts_join_metadata hname]
        exact hbelow.trans (List.prefix_append _ _)
      have hreported := (isPathWritable_iff hlinks).2 ⟨hpath, hcarved⟩
      have hwritable := hsound _ hmem _ hreported
      rw [canWrite_iff hno, hdenied] at hwritable
      exact absurd hwritable.2 (by simp)
  · intro hcond root hroot path hreported
    obtain ⟨hfull, entry, hentry, hwrite, hcan, rfl⟩ :=
      (mem_getWritableRoots (effectivePaths_of_noSymlinks hlinks)).1 hroot
    rcases canWrite_or_nested hlinks hfull hentry hwrite hcan hreported with hok |
      ⟨nested, hnested, hnestedWrite, hne, hbelow, name, hname, hdenied, hpre⟩
    · exact hok
    · rcases hcond with hdisk | hcond
      · rw [hfull] at hdisk
        cases hdisk
      · have hcarved := hcond entry hentry hwrite hcan nested hnested hnestedWrite hne hbelow name
          hname hdenied
        exact absurd (hcarved.mono hpre) ((isPathWritable_iff hlinks).1 hreported).2

instance (root path : AbsolutePathBuf) : Decidable (CarvedOut env policy cwd root path) :=
  inferInstanceAs (Decidable (_ ∨ _))

instance : Decidable (NestedMetadataCarvedOut env policy cwd) :=
  inferInstanceAs (Decidable (_ ∨ _))

/-- A machine with an empty disk. -/
def emptyDisk : Environment where
  home := none
  tmpdir := none
  isDir := fun _ => false
  isFile := fun _ => false
  pathExists := fun _ => false
  readToString := fun _ => none
  symlinkMetadata := fun _ => false
  isSymlink := fun _ => false
  canonicalize := fun _ => none

def dirA : AbsolutePathBuf := ⟨[['a']], by decide⟩
def dirAB : AbsolutePathBuf := ⟨[['a'], ['b']], by decide⟩
def dirABC : AbsolutePathBuf := ⟨[['a'], ['b'], ['c']], by decide⟩

/-- A write entry below a read entry below a write entry. -/
def guardedPolicy : FileSystemSandboxPolicy :=
  ⟨.restricted, [⟨.path dirA, .write⟩, ⟨.path dirAB, .read⟩, ⟨.path dirABC, .write⟩]⟩

theorem writable_roots_sound_iff_guarded :
    (guardedPolicy.getWritableRootsWithCwd emptyDisk .root).length = 2 ∧
      ∀ root ∈ guardedPolicy.getWritableRootsWithCwd emptyDisk .root, ∀ path,
        root.isPathWritable path = true →
          guardedPolicy.canWritePathWithCwd emptyDisk .root path = true := by
  have hlinks : NoSymlinks emptyDisk := by
    intro path canonical hcanonical
    cases hcanonical
  exact ⟨by decide +kernel, (writable_roots_sound_iff hlinks).2 (by decide +kernel)⟩

/-- A write entry directly below another one. -/
def nestedPolicy : FileSystemSandboxPolicy :=
  ⟨.restricted, [⟨.path dirA, .write⟩, ⟨.path dirAB, .write⟩]⟩

def nestedGitConfig : AbsolutePathBuf :=
  ⟨[['a'], ['b'], ".git".toList, "config".toList], by decide +kernel⟩

/-- The outer root reports the metadata of the inner entry writable. -/
theorem nested_metadata_reported_writable :
    NoSymlinks emptyDisk ∧
      (∃ root ∈ nestedPolicy.getWritableRootsWithCwd emptyDisk .root,
        root.root = dirA ∧ root.isPathWritable nestedGitConfig = true) ∧
      nestedPolicy.canWritePathWithCwd emptyDisk .root nestedGitConfig = false := by
  refine ⟨?_, by decide +kernel, by decide +kernel⟩
  intro path canonical hcanonical
  cases hcanonical

end FileSystemSandboxPolicy

end Codewith.Sandbox
