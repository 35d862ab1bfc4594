import Codewith.Sandbox.Legacy

/-!
# Entries that share a target

Two entries share a target if they name the same location without reference to the
working directory.  Subpaths of the workspace are compared component by component; such
paths lead to the same place, also below the home directory.

Full disk write access is meant to say that every path resolves to write access.  It
counts an entry as harmless if a write entry shares its target, and this is so where the
write entry resolves to a path: `/tmp` does not if there is no such directory.
-/

namespace Codewith

open Lib

namespace PathBuf

theorem components_append_sep (a b : PathBuf) :
    components (a ++ '/' :: b) = components a ++ components b := by
  have hsplit : Text.split '/' (a ++ '/' :: b) = Text.split '/' a ++ Text.split '/' b := by
    unfold Text.split
    rw [Text.pieces_append, Text.pieces_sep_cons]
    simp [Text.prepend]
  simp [components, hsplit]

theorem components_sep_cons (b : PathBuf) : components ('/' :: b) = components b :=
  components_append_sep [] b

theorem components_dropWhile (p : PathBuf) :
    components (p.dropWhile (· = '/')) = components p := by
  induction p with
  | nil => rfl
  | cons c p ih =>
      by_cases hc : c = '/'
      · subst hc
        rw [List.dropWhile_cons_of_pos (by simp), ih, components_sep_cons]
      · rw [List.dropWhile_cons_of_neg (by simpa using hc)]

theorem isAbsolute_dropWhile (p : PathBuf) : isAbsolute (p.dropWhile (· = '/')) = false := by
  have hhead := List.head?_dropWhile_not (fun c => decide (c = '/')) p
  unfold isAbsolute
  cases hdrop : (p.dropWhile (· = '/')).head? with
  | none => simp
  | some c =>
      rw [hdrop] at hhead
      simpa using hhead

theorem components_join {base p : PathBuf} (h : isAbsolute p = false) :
    components (join base p) = components base ++ components p := by
  unfold join
  rw [if_neg (by simp [h])]
  split
  · rename_i hend
    rcases hend with rfl | hend
    · rfl
    · obtain ⟨start, rfl⟩ := List.getLast?_eq_some_iff.mp hend
      rw [List.append_assoc, List.singleton_append, components_append_sep, components_append_sep]
      simp [components, Text.split, Text.pieces]
  · exact components_append_sep base p

theorem isAbsolute_join {base p : PathBuf} (h : isAbsolute p = false) :
    isAbsolute (join base p) = isAbsolute base := by
  unfold join
  rw [if_neg (by simp [h])]
  cases base with
  | nil => simpa [isAbsolute] using h
  | cons c base =>
      split
      · rfl
      · rfl

theorem components_of_not_mem {p : PathBuf} (hne : p ≠ []) (h : '/' ∉ p) : components p = [p] := by
  have hpieces : Text.pieces '/' p = ([], p) := by
    simpa [Text.pieces, Text.prepend] using Text.pieces_append_of_not_mem h []
  simp [components, Text.split, hpieces, hne]

/-- The first component of a relative path goes up to the first slash. -/
theorem components_cons {c : Char} (hc : c ≠ '/') (s : Text) :
    components (c :: s) =
      (c :: s.takeWhile (· ≠ '/')) :: components (s.dropWhile (· ≠ '/')) := by
  have hfirst : components (c :: s.takeWhile (· ≠ '/')) = [c :: s.takeWhile (· ≠ '/')] := by
    apply components_of_not_mem (List.cons_ne_nil _ _)
    intro hmem
    rcases List.mem_cons.mp hmem with heq | hmem
    · exact hc heq.symm
    · simpa using List.mem_takeWhile_imp hmem
  have hsplit : c :: s = (c :: s.takeWhile (· ≠ '/')) ++ s.dropWhile (· ≠ '/') := by
    rw [List.cons_append, List.takeWhile_append_dropWhile]
  cases hrest : s.dropWhile (· ≠ '/') with
  | nil =>
      rw [hrest, List.append_nil] at hsplit
      rw [hsplit, hfirst]
      rfl
  | cons d rest =>
      have hd : d = '/' := by
        have hhead := List.head?_dropWhile_not (fun c => decide (c ≠ '/')) s
        rw [hrest] at hhead
        simpa using hhead
      subst hd
      rw [hrest] at hsplit
      rw [hsplit, components_append_sep, hfirst, components_sep_cons]
      rfl

end PathBuf

namespace AbsolutePathBuf

/-- Only a first component `~` is expanded, and the others are kept below the home
directory. -/
theorem maybeExpandHomeDirectory_spec (home p : PathBuf)
    (hrelative : PathBuf.isAbsolute p = false) :
    if (PathBuf.components p).head? = some ['~'] then
      PathBuf.isAbsolute (maybeExpandHomeDirectory (some home) p) = PathBuf.isAbsolute home ∧
        PathBuf.components (maybeExpandHomeDirectory (some home) p) =
          PathBuf.components home ++ (PathBuf.components p).tail
    else maybeExpandHomeDirectory (some home) p = p := by
  cases p with
  | nil => simp [PathBuf.components, Text.split, Text.pieces, maybeExpandHomeDirectory,
      Text.stripPrefix, List.dropPrefix?]
  | cons c s =>
      have hc : c ≠ '/' := by simpa [PathBuf.isAbsolute] using hrelative
      rw [PathBuf.components_cons hc]
      by_cases htilde : c = '~'
      swap
      · have hstrip : Text.stripPrefix ['~'] (c :: s) = none := by
          simp [Text.stripPrefix, List.dropPrefix?, htilde]
        simp [htilde, maybeExpandHomeDirectory, hstrip]
      subst htilde
      have hstrip : Text.stripPrefix ['~'] ('~' :: s) = some s := by
        simp [Text.stripPrefix, List.dropPrefix?]
      cases s with
      | nil => simp [maybeExpandHomeDirectory, hstrip, PathBuf.components, Text.split, Text.pieces]
      | cons d s =>
          by_cases hd : d = '/'
          · subst hd
            have hdrop : Text.stripPrefix ['/'] ('/' :: s) = some s := by
              simp [Text.stripPrefix, List.dropPrefix?]
            have hexpand : maybeExpandHomeDirectory (some home) ('~' :: '/' :: s) =
                PathBuf.join home (s.dropWhile (· = '/')) := by
              simp only [maybeExpandHomeDirectory, hstrip, hdrop]
              rfl
            have hrel := PathBuf.isAbsolute_dropWhile s
            simp [hexpand, PathBuf.components_join hrel, PathBuf.isAbsolute_join hrel,
              PathBuf.components_dropWhile, PathBuf.components_sep_cons]
          · have hdrop : Text.stripPrefix ['/'] (d :: s) = none := by
              simp [Text.stripPrefix, List.dropPrefix?, hd]
            simp [maybeExpandHomeDirectory, hstrip, hdrop, hd]

/-- A dot component changes nothing. -/
theorem foldl_normalizeStep_filter (components normalized : List Text) :
    (components.filter (· ≠ ['.'])).foldl normalizeStep normalized =
      components.foldl normalizeStep normalized := by
  induction components generalizing normalized with
  | nil => rfl
  | cons c components ih =>
      by_cases hdot : c = ['.']
      · have hstep : normalizeStep normalized c = normalized := by
          rw [normalizeStep, if_pos hdot]
        rw [List.filter_cons_of_neg (by simpa using hdot), ih, List.foldl_cons, hstep]
      · rw [List.filter_cons_of_pos (by simpa using hdot), List.foldl_cons, List.foldl_cons, ih]

theorem absolutizeFrom_congr {p q : PathBuf}
    (habsolute : PathBuf.isAbsolute p = PathBuf.isAbsolute q)
    (hcomponents : (PathBuf.components p).filter (· ≠ ['.']) =
      (PathBuf.components q).filter (· ≠ ['.']))
    (base : AbsolutePathBuf) : absolutizeFrom p base = absolutizeFrom q base := by
  have hfilter : (pathWithBase p base).filter (· ≠ ['.']) =
      (pathWithBase q base).filter (· ≠ ['.']) := by
    unfold pathWithBase
    rw [habsolute]
    split
    · exact hcomponents
    · rw [List.filter_append, List.filter_append, hcomponents]
  apply AbsolutePathBuf.ext
  simp only [absolutizeFrom, normalizePath]
  rw [← foldl_normalizeStep_filter, hfilter, foldl_normalizeStep_filter]

/-- What the comparison of relative paths keeps of the components. -/
theorem components_of_sameComponents {p q : PathBuf}
    (hcompared : PathBuf.comparedComponents p = PathBuf.comparedComponents q)
    (hp : PathBuf.isAbsolute p = false) (hq : PathBuf.isAbsolute q = false) :
    (PathBuf.components p).head? = (PathBuf.components q).head? ∧
      (PathBuf.components p).tail.filter (· ≠ ['.']) =
        (PathBuf.components q).tail.filter (· ≠ ['.']) := by
  unfold PathBuf.comparedComponents at hcompared
  rw [if_neg (by simp [hp]), if_neg (by simp [hq])] at hcompared
  cases hleft : PathBuf.components p <;> cases hright : PathBuf.components q <;>
    simp_all

/-- Paths with the same components are resolved alike. -/
theorem resolvePathAgainstBase_congr {p q : PathBuf} (h : PathBuf.sameComponents p q = true)
    (home : Option PathBuf) (base : AbsolutePathBuf) :
    resolvePathAgainstBase home p base = resolvePathAgainstBase home q base := by
  unfold PathBuf.sameComponents at h
  rw [Bool.and_eq_true, decide_eq_true_eq, decide_eq_true_eq] at h
  obtain ⟨habsolute, hcompared⟩ := h
  unfold resolvePathAgainstBase
  cases hq : PathBuf.isAbsolute q with
  | true =>
      -- An absolute path starts with a slash and is not expanded.
      have hkeep : ∀ path, PathBuf.isAbsolute path = true →
          maybeExpandHomeDirectory home path = path := by
        intro path hpath
        cases home with
        | none => rfl
        | some home =>
            cases path with
            | nil => simp [PathBuf.isAbsolute] at hpath
            | cons c s =>
                have hc : c = '/' := by simpa [PathBuf.isAbsolute] using hpath
                subst hc
                simp [maybeExpandHomeDirectory, Text.stripPrefix, List.dropPrefix?]
      rw [hkeep p (habsolute.trans hq), hkeep q hq]
      refine absolutizeFrom_congr habsolute ?_ base
      simpa [PathBuf.comparedComponents, habsolute.trans hq, hq] using hcompared
  | false =>
      have hp := habsolute.trans hq
      obtain ⟨hhead, htail⟩ := components_of_sameComponents hcompared hp hq
      have hall : (PathBuf.components p).filter (· ≠ ['.']) =
          (PathBuf.components q).filter (· ≠ ['.']) := by
        cases hleft : PathBuf.components p <;> cases hright : PathBuf.components q <;>
          simp_all [List.filter_cons]
      cases home with
      | none => exact absolutizeFrom_congr habsolute hall base
      | some home =>
          have hexpandp := maybeExpandHomeDirectory_spec home p hp
          have hexpandq := maybeExpandHomeDirectory_spec home q hq
          rw [hhead] at hexpandp
          split at hexpandp
          · rename_i htilde
            rw [if_pos htilde] at hexpandq
            refine absolutizeFrom_congr (hexpandp.1.trans hexpandq.1.symm) ?_ base
            rw [hexpandp.2, hexpandq.2, List.filter_append, List.filter_append, htail]
          · rename_i htilde
            rw [if_neg htilde] at hexpandq
            rw [hexpandp, hexpandq]
            exact absolutizeFrom_congr habsolute hall base

end AbsolutePathBuf

namespace Sandbox

theorem eq_root_of_parent {path : AbsolutePathBuf} (h : path.parent.isNone = true) :
    path = .root := by
  apply AbsolutePathBuf.ext
  unfold AbsolutePathBuf.parent at h
  split at h
  · assumption
  · cases h

theorem resolveEntryPath_special_congr {env : Environment} {cwd : AbsolutePathBuf}
    {left right : FileSystemSpecialPath} (h : specialPathsShareTarget left right = true) :
    resolveEntryPath env cwd (.special left) = resolveEntryPath env cwd (.special right) := by
  by_cases hsame : left = right
  · rw [hsame]
  · unfold specialPathsShareTarget at h
    split at h
    · rename_i leftSubpath rightSubpath
      cases leftSubpath with
      | none =>
          cases rightSubpath with
          | none => exact absurd rfl hsame
          | some subpath => cases h
      | some subpath =>
          cases rightSubpath with
          | none => cases h
          | some other =>
              have hresolved := AbsolutePathBuf.resolvePathAgainstBase_congr h env.home cwd
              simp only [resolveEntryPath, resolveFileSystemSpecialPath, hresolved]
    · rfl
    · exact absurd (of_decide_eq_true h) hsame

/-- Entries that share a target resolve alike, but for a missing `/tmp`. -/
theorem resolveEntryPath_of_shareTarget {env : Environment} {cwd target : AbsolutePathBuf}
    {candidate path : FileSystemPath} (h : fileSystemPathsShareTarget candidate path = true)
    (hpath : resolveEntryPath env cwd path = some target) :
    resolveEntryPath env cwd candidate = some target ∨ target = slashTmpPath := by
  cases candidate with
  | path left =>
      cases path with
      | path right =>
          have hsame : left = right := by simpa [fileSystemPathsShareTarget] using h
          exact .inl (hsame ▸ hpath)
      | globPattern pattern => cases h
      | special value =>
          cases value with
          | root =>
              have hroot : left = .root := eq_root_of_parent h
              exact .inl (by rw [hroot]; exact hpath)
          | slashTmp =>
              refine .inr ?_
              simp only [resolveEntryPath, resolveFileSystemSpecialPath] at hpath
              split at hpath
              · exact (Option.some.inj hpath).symm
              · cases hpath
          | minimal => cases h
          | projectRoots subpath => cases h
          | tmpdir => cases h
          | unknown name subpath => cases h
  | globPattern pattern =>
      cases path with
      | path right => cases h
      | globPattern other => cases hpath
      | special value => cases h
  | special value =>
      cases path with
      | globPattern pattern => cases h
      | path right =>
          have hright : right = target := Option.some.inj hpath
          cases value with
          | root =>
              have hroot : right = .root := eq_root_of_parent h
              exact .inl (by rw [← hright, hroot]; rfl)
          | slashTmp =>
              have htmp : right = slashTmpPath := by
                simpa [fileSystemPathsShareTarget, specialPathMatchesAbsolutePath] using h
              exact .inr (hright ▸ htmp)
          | minimal => cases h
          | projectRoots subpath => cases h
          | tmpdir => cases h
          | unknown name subpath => cases h
      | special other =>
          exact .inl ((resolveEntryPath_special_congr h).trans hpath)

namespace FileSystemSandboxPolicy

variable {env : Environment} {policy : FileSystemSandboxPolicy} {cwd path : AbsolutePathBuf}

theorem mem_resolvedEntries {entry : ResolvedFileSystemEntry} :
    entry ∈ policy.resolvedEntriesWithCwd env cwd ↔
      ∃ source ∈ policy.entries, resolveEntryPath env cwd source.path = some entry.path ∧
        source.access = entry.access := by
  simp only [resolvedEntriesWithCwd, List.mem_filterMap, Option.map_eq_some_iff]
  constructor
  · rintro ⟨source, hsource, path, hpath, rfl⟩
    exact ⟨source, hsource, hpath, rfl⟩
  · rintro ⟨source, hsource, hpath, haccess⟩
    exact ⟨source, hsource, entry.path, hpath, by rw [haccess]⟩

/-- No entry denies access. -/
def DeniesNothing (policy : FileSystemSandboxPolicy) : Prop :=
  ∀ entry ∈ policy.entries, entry.access ≠ .deny

theorem DeniesNothing.resolved (h : policy.DeniesNothing) {entry : ResolvedFileSystemEntry}
    (hentry : entry ∈ policy.resolvedEntriesWithCwd env cwd) : entry.access ≠ .deny := by
  obtain ⟨source, hsource, -, haccess⟩ := mem_resolvedEntries.mp hentry
  exact haccess ▸ h source hsource

/-- At the path of a write entry there is write access. -/
theorem resolveAccess_of_writeEntry (hkind : policy.kind = .restricted)
    (hdeny : policy.DeniesNothing)
    (hentry : ⟨path, .write⟩ ∈ policy.resolvedEntriesWithCwd env cwd) :
    policy.resolveAccessWithCwd env cwd path = .write := by
  obtain ⟨winner, hwinner, hpre, haccess, hmax⟩ :=
    exists_deciding_entry hkind hentry (List.prefix_refl path.parts)
  have hle := precedence_le_iff.mp (hmax _ hentry (List.prefix_refl _))
  have hlength := hpre.length_le
  have hrank : FileSystemAccessMode.rank .write ≤ winner.access.rank := by
    rcases hle with hlt | ⟨-, hrank⟩
    · exact absurd hlength (by simpa using hlt)
    · exact hrank
  rw [haccess]
  cases hmode : winner.access with
  | read =>
      rw [hmode] at hrank
      exact absurd hrank (by decide)
  | write => rfl
  | deny => exact absurd hmode (hdeny.resolved hwinner)

/-- A read entry that does not narrow the write access stands beside a write entry for the
same path, or is one for `/tmp`. -/
theorem writeEntry_of_not_narrows
    (hroot : policy.hasRootAccess FileSystemAccessMode.canWrite = true)
    {source : FileSystemSandboxEntry} (hread : source.access = .read)
    (hnarrows : policy.narrowsWrite source = false) {target : AbsolutePathBuf}
    (hresolved : resolveEntryPath env cwd source.path = some target) :
    ⟨target, .write⟩ ∈ policy.resolvedEntriesWithCwd env cwd ∨ target = slashTmpPath := by
  have hoverride : policy.hasSameTargetWriteOverride source = true →
      ⟨target, .write⟩ ∈ policy.resolvedEntriesWithCwd env cwd ∨ target = slashTmpPath := by
    intro h
    simp only [hasSameTargetWriteOverride, List.any_eq_true, Bool.and_eq_true,
      canWrite_eq_true] at h
    obtain ⟨candidate, hcandidate, ⟨hwrite, -⟩, hshare⟩ := h
    rcases resolveEntryPath_of_shareTarget hshare hresolved with hsame | htmp
    · exact .inl (mem_resolvedEntries.mpr ⟨candidate, hcandidate, hsame, hwrite⟩)
    · exact .inr htmp
  unfold narrowsWrite at hnarrows
  rw [hread] at hnarrows
  cases hpath : source.path with
  | path path => exact hoverride (by simpa [hpath, FileSystemAccessMode.canWrite] using hnarrows)
  | globPattern pattern => simp [hpath, FileSystemAccessMode.canWrite] at hnarrows
  | special value =>
      rw [hpath] at hresolved
      cases value with
      | root =>
          left
          simp only [hasRootAccess, Bool.and_eq_true, List.any_eq_true, decide_eq_true_eq,
            canWrite_eq_true] at hroot
          obtain ⟨-, entry, hentry, hroot, hwrite⟩ := hroot
          exact mem_resolvedEntries.mpr ⟨entry, hentry, by rw [hroot]; exact hresolved, hwrite⟩
      | minimal => cases hresolved
      | unknown name subpath => cases hresolved
      | projectRoots subpath =>
          exact hoverride (by simpa [hpath, FileSystemAccessMode.canWrite] using hnarrows)
      | tmpdir => exact hoverride (by simpa [hpath, FileSystemAccessMode.canWrite] using hnarrows)
      | slashTmp => exact hoverride (by simpa [hpath, FileSystemAccessMode.canWrite] using hnarrows)

/-- With full disk write access every path resolves to write access if `/tmp` does. -/
theorem resolveAccess_of_fullDiskWrite (hfull : policy.hasFullDiskWriteAccess = true)
    (hdeny : policy.DeniesNothing)
    (htmp : policy.resolveAccessWithCwd env cwd slashTmpPath = .write) :
    policy.resolveAccessWithCwd env cwd path = .write := by
  by_cases hkind : policy.kind = .restricted
  swap
  · unfold resolveAccessWithCwd
    split
    · contradiction
    · rfl
  simp only [hasFullDiskWriteAccess, hkind, Bool.and_eq_true, Bool.not_eq_true'] at hfull
  obtain ⟨hroot, hnarrow⟩ := hfull
  have hnarrows : ∀ source ∈ policy.entries, policy.narrowsWrite source = false := by
    simpa [hasWriteNarrowingEntries, hkind] using hnarrow
  have hrootEntry : ⟨.root, .write⟩ ∈ policy.resolvedEntriesWithCwd env cwd := by
    simp only [hasRootAccess, Bool.and_eq_true, List.any_eq_true, decide_eq_true_eq,
      canWrite_eq_true] at hroot
    obtain ⟨-, entry, hentry, hspecial, hwrite⟩ := hroot
    exact mem_resolvedEntries.mpr ⟨entry, hentry, by rw [hspecial]; rfl, hwrite⟩
  obtain ⟨winner, hwinner, hpre, haccess, hmax⟩ :=
    exists_deciding_entry hkind hrootEntry (List.nil_prefix (l := path.parts))
  rw [haccess]
  -- A write entry at the same path would win over a read entry.
  have hwins : ⟨winner.path, .write⟩ ∈ policy.resolvedEntriesWithCwd env cwd →
      winner.access = .write := by
    intro hbeside
    have hle := precedence_le_iff.mp (hmax _ hbeside hpre)
    cases hmode : winner.access with
    | read => simp [hmode, FileSystemAccessMode.rank] at hle
    | write => rfl
    | deny => exact absurd hmode (hdeny.resolved hwinner)
  cases hmode : winner.access with
  | write => rfl
  | deny => exact absurd hmode (hdeny.resolved hwinner)
  | read =>
      obtain ⟨source, hsource, hresolved, hread⟩ := mem_resolvedEntries.mp hwinner
      rw [hmode] at hread
      rcases writeEntry_of_not_narrows hroot hread (hnarrows source hsource) hresolved with
        hbeside | hslash
      · rw [← hmode, hwins hbeside]
      · have hown : policy.resolveAccessWithCwd env cwd winner.path = winner.access :=
          access_of_deciding_entry hkind hwinner fun other hother habove =>
            hmax other hother (habove.trans hpre)
        rw [← hmode, ← hown, hslash, htmp]

end FileSystemSandboxPolicy

end Sandbox

end Codewith
