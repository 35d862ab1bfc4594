import Codewith.Sandbox.Faithfulness

/-!
# Additional roots

A root is added as one more entry, and only if the policy does not give the access already.  The
entry is more specific than what is above it, so it could take access away from what is below; it
does not.
-/

namespace Codewith.Sandbox

open Lib

namespace FileSystemSandboxPolicy

def push (policy : FileSystemSandboxPolicy) (path : AbsolutePathBuf)
    (access : FileSystemAccessMode) : FileSystemSandboxPolicy :=
  { policy with entries := policy.entries ++ [⟨.path path, access⟩] }

section

variable (env : Environment) (cwd : AbsolutePathBuf)

def addReadableRoot (policy : FileSystemSandboxPolicy) (path : AbsolutePathBuf) :
    FileSystemSandboxPolicy :=
  if policy.canReadPathWithCwd env cwd path then policy else policy.push path .read

def withAdditionalReadableRoots (policy : FileSystemSandboxPolicy)
    (additionalReadableRoots : List AbsolutePathBuf) : FileSystemSandboxPolicy :=
  if policy.hasFullDiskReadAccess then policy
  else additionalReadableRoots.foldl (addReadableRoot env cwd) policy

def addWritableRoot (policy : FileSystemSandboxPolicy) (path : AbsolutePathBuf) :
    FileSystemSandboxPolicy :=
  if policy.canWritePathWithCwd env cwd path then policy else policy.push path .write

def withAdditionalWritableRoots (policy : FileSystemSandboxPolicy)
    (additionalWritableRoots : List AbsolutePathBuf) : FileSystemSandboxPolicy :=
  additionalWritableRoots.foldl (addWritableRoot env cwd) policy

end

/-! ## One more entry -/

section Push

variable {env : Environment} {policy : FileSystemSandboxPolicy}
  {cwd root path : AbsolutePathBuf} {access : FileSystemAccessMode}

theorem resolvedEntries_push :
    (policy.push root access).resolvedEntriesWithCwd env cwd =
      policy.resolvedEntriesWithCwd env cwd ++ [⟨root, access⟩] := by
  simp [resolvedEntriesWithCwd, push, resolveEntryPath]

/-- The access to a path is that of any entry above it that no other one precedes. -/
theorem access_of_winner (hkind : policy.kind = .restricted) {winner : ResolvedFileSystemEntry}
    (hwinner : winner ∈ policy.resolvedEntriesWithCwd env cwd)
    (habove : winner.path.parts <+: path.parts)
    (hmax : ∀ other ∈ policy.resolvedEntriesWithCwd env cwd, other.path.parts <+: path.parts →
      resolvedEntryPrecedence other ≤ resolvedEntryPrecedence winner) :
    policy.resolveAccessWithCwd env cwd path = winner.access := by
  obtain ⟨own, hown, hpre, haccess, hle⟩ := exists_deciding_entry hkind hwinner habove
  have hsame : resolvedEntryPrecedence own = resolvedEntryPrecedence winner :=
    le_antisymm (hmax own hown hpre) (hle winner hwinner habove)
  have hrank : own.access.rank = winner.access.rank :=
    (Prod.mk.inj (toLex.injective hsame)).2
  rw [haccess, rank_injective hrank]

theorem access_eq_deny_of_none (hkind : policy.kind = .restricted)
    (hnone : ∀ entry ∈ policy.resolvedEntriesWithCwd env cwd, ¬ entry.path.parts <+: path.parts) :
    policy.resolveAccessWithCwd env cwd path = .deny := by
  have hfilter : ((policy.resolvedEntriesWithCwd env cwd).filter fun entry =>
      startsWith path entry.path) = [] := by
    rw [List.filter_eq_nil_iff]
    intro entry hentry
    rw [startsWith_iff]
    exact hnone entry hentry
  simp only [resolveAccessWithCwd, hkind, hfilter, List.argmax_nil]

/-- Another entry decides only below its own path, and only if no entry above precedes it. -/
theorem access_push (hkind : policy.kind = .restricted) :
    (policy.push root access).resolveAccessWithCwd env cwd path =
        policy.resolveAccessWithCwd env cwd path ∨
      root.parts <+: path.parts ∧
        (policy.push root access).resolveAccessWithCwd env cwd path = access ∧
          ∀ other ∈ policy.resolvedEntriesWithCwd env cwd, other.path.parts <+: path.parts →
            resolvedEntryPrecedence other ≤ resolvedEntryPrecedence ⟨root, access⟩ := by
  have hkind' : (policy.push root access).kind = .restricted := hkind
  by_cases hsome : ∃ entry ∈ (policy.push root access).resolvedEntriesWithCwd env cwd,
      entry.path.parts <+: path.parts
  · obtain ⟨entry, hentry, habove⟩ := hsome
    obtain ⟨winner, hwinner, hpre, haccess, hmax⟩ := exists_deciding_entry hkind' hentry habove
    have hold : ∀ other ∈ policy.resolvedEntriesWithCwd env cwd, other.path.parts <+: path.parts →
        resolvedEntryPrecedence other ≤ resolvedEntryPrecedence winner := by
      intro other hother
      apply hmax
      rw [resolvedEntries_push]
      exact List.mem_append_left _ hother
    rw [resolvedEntries_push, List.mem_append, List.mem_singleton] at hwinner
    rcases hwinner with hwinner | rfl
    · exact .inl (haccess.trans (access_of_winner hkind hwinner hpre hold).symm)
    · exact .inr ⟨hpre, haccess, hold⟩
  · push Not at hsome
    left
    rw [access_eq_deny_of_none hkind' hsome, access_eq_deny_of_none hkind]
    intro entry hentry
    apply hsome
    rw [resolvedEntries_push]
    exact List.mem_append_left _ hentry

/-- What decides for a path decides for a root above it, if it is not below that root. -/
theorem access_above (hkind : policy.kind = .restricted) (hroot : root.parts <+: path.parts)
    {winner : ResolvedFileSystemEntry}
    (hwinner : winner ∈ policy.resolvedEntriesWithCwd env cwd)
    (hpre : winner.path.parts <+: path.parts)
    (hmax : ∀ other ∈ policy.resolvedEntriesWithCwd env cwd, other.path.parts <+: path.parts →
      resolvedEntryPrecedence other ≤ resolvedEntryPrecedence winner)
    (hlength : winner.path.parts.length ≤ root.parts.length) :
    policy.resolveAccessWithCwd env cwd root = winner.access := by
  apply access_of_winner hkind hwinner (List.prefix_of_prefix_length_le hpre hroot hlength)
  intro other hother habove
  exact hmax other hother (habove.trans hroot)

/-! ## Full access -/

theorem fullDiskWrite_restricted (hkind : policy.kind = .restricted) :
    policy.hasFullDiskWriteAccess = true ↔
      policy.hasRootAccess FileSystemAccessMode.canWrite = true ∧
        ∀ source ∈ policy.entries, policy.narrowsWrite source = false := by
  simp [hasFullDiskWriteAccess, hasWriteNarrowingEntries, hkind]

/-- An entry that denies access and could apply to a path narrows the write access. -/
theorem narrowsWrite_of_deny {source : FileSystemSandboxEntry} {target : AbsolutePathBuf}
    (hdeny : source.access = .deny)
    (hresolved : resolveEntryPath env cwd source.path = some target) :
    policy.narrowsWrite source = true := by
  have hoverride : policy.hasSameTargetWriteOverride source = false := by
    rw [hasSameTargetWriteOverride, List.any_eq_false]
    intro candidate _
    cases candidate.access <;>
      simp [hdeny, FileSystemAccessMode.canWrite, FileSystemAccessMode.rank]
  rw [narrowsWrite, hdeny, hoverride]
  cases hpath : source.path with
  | path path => rfl
  | globPattern pattern =>
      rw [hpath] at hresolved
      cases hresolved
  | special value =>
      rw [hpath] at hresolved
      cases value with
      | minimal => cases hresolved
      | unknown name subpath => cases hresolved
      | root => rfl
      | projectRoots subpath => rfl
      | tmpdir => rfl
      | slashTmp => rfl

theorem exists_root_entry (hroot : policy.hasRootAccess FileSystemAccessMode.canWrite = true) :
    ⟨.root, .write⟩ ∈ policy.resolvedEntriesWithCwd env cwd := by
  simp only [hasRootAccess, Bool.and_eq_true, List.any_eq_true, decide_eq_true_eq,
    canWrite_eq_true] at hroot
  obtain ⟨-, entry, hentry, hspecial, hwrite⟩ := hroot
  exact mem_resolvedEntries.mpr ⟨entry, hentry, by rw [hspecial]; rfl, hwrite⟩

/-- With full disk write access every path is readable. -/
theorem canRead_of_fullDiskWrite (hfull : policy.hasFullDiskWriteAccess = true) :
    policy.canReadPathWithCwd env cwd path = true := by
  by_cases hkind : policy.kind = .restricted
  · obtain ⟨hroot, hnarrow⟩ := (fullDiskWrite_restricted hkind).mp hfull
    have hentry : ⟨.root, .write⟩ ∈ policy.resolvedEntriesWithCwd env cwd := exists_root_entry hroot
    have habove : AbsolutePathBuf.root.parts <+: path.parts := List.nil_prefix
    obtain ⟨winner, hwinner, -, haccess, -⟩ := exists_deciding_entry hkind hentry habove
    obtain ⟨source, hsource, hresolved, hmode⟩ := mem_resolvedEntries.mp hwinner
    have hdeny : winner.access ≠ .deny := by
      intro hdeny
      have hnarrows := hnarrow source hsource
      rw [narrowsWrite_of_deny (hmode.trans hdeny) hresolved] at hnarrows
      cases hnarrows
    simp [canReadPathWithCwd, haccess, FileSystemAccessMode.canRead, hdeny]
  · exact (access_of_not_restricted hkind).1

/-- A further write entry narrows nothing. -/
theorem fullDiskWrite_push_write (hfull : policy.hasFullDiskWriteAccess = true) :
    (policy.push root .write).hasFullDiskWriteAccess = true := by
  by_cases hkind : policy.kind = .restricted
  · have hkind' : (policy.push root .write).kind = .restricted := hkind
    rw [fullDiskWrite_restricted hkind] at hfull
    obtain ⟨hroot, hnarrow⟩ := hfull
    refine (fullDiskWrite_restricted hkind').mpr ⟨?_, ?_⟩
    · simp only [hasRootAccess, push, List.any_append, Bool.and_eq_true, Bool.or_eq_true] at hroot ⊢
      exact ⟨hroot.1, .inl hroot.2⟩
    · intro source hsource
      rcases List.mem_append.mp hsource with hold | hnew
      · have hkept := hnarrow source hold
        rw [narrowsWrite] at hkept ⊢
        cases hoverride : (policy.push root .write).hasSameTargetWriteOverride source with
        | true =>
            cases hpath : source.path with
            | path path => simp
            | globPattern pattern => simpa [hpath] using hkept
            | special value =>
                rw [hpath] at hkept
                cases value with
                | root => exact hkept
                | minimal => exact hkept
                | unknown name subpath => exact hkept
                | projectRoots subpath => simp
                | tmpdir => simp
                | slashTmp => simp
        | false =>
            have hbefore : policy.hasSameTargetWriteOverride source = false := by
              rw [hasSameTargetWriteOverride, push, List.any_append, Bool.or_eq_false_iff]
                at hoverride
              exact hoverride.1
            rw [hbefore] at hkept
            exact hkept
      · rw [List.mem_singleton.mp hnew]
        rfl
  · cases hcase : policy.kind with
    | restricted => exact absurd hcase hkind
    | unrestricted => simp [hasFullDiskWriteAccess, push, hcase]
    | externalSandbox => simp [hasFullDiskWriteAccess, push, hcase]

/-! ## Protected metadata -/

/-- The first write entry with the path in its metadata is the same, or it is the new one. -/
theorem metadataChild_push {found : AbsolutePathBuf × Text}
    (h : (policy.push root access).metadataChildOfWritableRoot env cwd path = some found) :
    policy.metadataChildOfWritableRoot env cwd path = some found ∨
      policy.metadataChildOfWritableRoot env cwd path = none ∧ access = .write ∧
        metadataOf env path ⟨root, access⟩ = some found := by
  rw [metadataChildOfWritableRoot_eq, resolvedEntries_push, List.filter_append,
    List.findSome?_append, ← metadataChildOfWritableRoot_eq] at h
  cases hold : policy.metadataChildOfWritableRoot env cwd path with
  | some other =>
      rw [hold] at h
      exact .inl h
  | none =>
      rw [hold, Option.none_or] at h
      obtain ⟨entry, hentry, hfound⟩ := List.exists_of_findSome?_eq_some h
      obtain ⟨hmem, hwrite⟩ := List.mem_filter.mp hentry
      rw [List.mem_singleton.mp hmem] at hwrite hfound
      exact .inr ⟨rfl, canWrite_eq_true.mp hwrite, hfound⟩

theorem hasExplicitWriteEntry_push {metadata : AbsolutePathBuf}
    (h : policy.hasExplicitWriteEntryForMetadataPath env cwd metadata path = true) :
    (policy.push root access).hasExplicitWriteEntryForMetadataPath env cwd metadata path =
      true := by
  rw [hasExplicitWriteEntryForMetadataPath, resolvedEntries_push, List.any_append, Bool.or_eq_true]
  exact .inl h

/-- What a further entry denies was denied before, or the entry itself has it in its metadata and
no write entry lies between. -/
theorem metadataWriteDenied_push (hkind : policy.kind = .restricted)
    (h : (policy.push root access).isMetadataWriteDenied env cwd path = true) :
    policy.isMetadataWriteDenied env cwd path = true ∨
      policy.metadataChildOfWritableRoot env cwd path = none ∧ access = .write ∧
        ∃ name, root.parts ++ [name] <+: path.parts ∧
          ∀ entry ∈ policy.resolvedEntriesWithCwd env cwd, entry.access = .write →
            entry.path.parts <+: path.parts → entry.path.parts.length ≤ root.parts.length := by
  have hkind' : (policy.push root access).kind = .restricted := hkind
  obtain ⟨found, hfound, hexplicit⟩ := (isMetadataWriteDenied_iff hkind').mp h
  rcases metadataChild_push hfound with hold | ⟨hnone, hwrite, hnew⟩
  · left
    refine (isMetadataWriteDenied_iff hkind).mpr ⟨found, hold, ?_⟩
    rw [← Bool.not_eq_true] at hexplicit ⊢
    exact fun hbefore => hexplicit (hasExplicitWriteEntry_push hbefore)
  · obtain ⟨hname, hpath, hbelow⟩ := metadataOf_eq_some.mp hnew
    refine .inr ⟨hnone, hwrite, found.2, hbelow, ?_⟩
    intro entry hentry haccess habove
    by_contra hlong
    rw [← Bool.not_eq_true, hasExplicitWriteEntry_iff] at hexplicit
    refine hexplicit ⟨entry, ?_, haccess, habove, ?_⟩
    · rw [resolvedEntries_push]
      exact List.mem_append_left _ hentry
    · rw [hpath, parts_join_metadata hname]
      refine List.prefix_of_prefix_length_le hbelow habove ?_
      rw [List.length_append, List.length_singleton]
      dsimp only
      omega

/-- Metadata that a root lies in is the metadata of what is below the root. -/
theorem metadataChild_below (hroot : root.parts <+: path.parts)
    (h : policy.metadataChildOfWritableRoot env cwd path = none) :
    policy.metadataChildOfWritableRoot env cwd root = none := by
  rw [metadataChildOfWritableRoot_eq, List.findSome?_eq_none_iff] at h ⊢
  intro entry hentry
  by_contra hsome
  obtain ⟨found, hfound⟩ := Option.ne_none_iff_exists'.mp hsome
  obtain ⟨hname, hpath, hbelow⟩ := metadataOf_eq_some.mp hfound
  have hnone := h entry hentry
  rw [metadataOf_eq_some.mpr ⟨hname, hpath, hbelow.trans hroot⟩] at hnone
  cases hnone

end Push

/-! ## Access is only added -/

/-- What is readable or writable under the first policy is so under the second. -/
structure Extends (env : Environment) (cwd : AbsolutePathBuf)
    (policy extended : FileSystemSandboxPolicy) : Prop where
  canRead : ∀ path, policy.canReadPathWithCwd env cwd path = true →
    extended.canReadPathWithCwd env cwd path = true
  canWrite : ∀ path, policy.canWritePathWithCwd env cwd path = true →
    extended.canWritePathWithCwd env cwd path = true

section Adding

variable {env : Environment} {policy extended further : FileSystemSandboxPolicy}
  {cwd root path : AbsolutePathBuf}

theorem Extends.refl (policy : FileSystemSandboxPolicy) : Extends env cwd policy policy :=
  ⟨fun _ h => h, fun _ h => h⟩

theorem Extends.trans (h : Extends env cwd policy extended)
    (h' : Extends env cwd extended further) : Extends env cwd policy further :=
  ⟨fun path hread => h'.canRead path (h.canRead path hread),
    fun path hwrite => h'.canWrite path (h.canWrite path hwrite)⟩

theorem canRead_iff : policy.canReadPathWithCwd env cwd path = true ↔
    policy.resolveAccessWithCwd env cwd path ≠ .deny := by
  simp [canReadPathWithCwd, FileSystemAccessMode.canRead]

theorem canWrite_iff_access : policy.canWritePathWithCwd env cwd path = true ↔
    policy.resolveAccessWithCwd env cwd path = .write ∧
      (policy.hasFullDiskWriteAccess = true ∨
        policy.isMetadataWriteDenied env cwd path = false) := by
  simp [canWritePathWithCwd, canWrite_eq_true]

/-- Below a root that cannot be read, nothing is readable but through an entry below the root. -/
theorem access_push_read (hkind : policy.kind = .restricted)
    (hroot : policy.canReadPathWithCwd env cwd root = false)
    (hpath : policy.resolveAccessWithCwd env cwd path ≠ .deny) :
    (policy.push root .read).resolveAccessWithCwd env cwd path =
      policy.resolveAccessWithCwd env cwd path := by
  rcases access_push hkind with hsame | ⟨hbelow, -, hmax⟩
  · exact hsame
  · by_cases hsome : ∃ entry ∈ policy.resolvedEntriesWithCwd env cwd,
        entry.path.parts <+: path.parts
    · obtain ⟨entry, hentry, habove⟩ := hsome
      obtain ⟨winner, hwinner, hpre, haccess, hle⟩ := exists_deciding_entry hkind hentry habove
      have hlength : winner.path.parts.length ≤ root.parts.length := by
        rcases precedence_le_iff.mp (hmax winner hwinner hpre) with hlt | ⟨heq, -⟩
        · exact hlt.le
        · exact heq.le
      have hown := access_above hkind hbelow hwinner hpre hle hlength
      rw [haccess, ← hown, ← canRead_iff, hroot] at hpath
      cases hpath
    · push Not at hsome
      exact absurd (access_eq_deny_of_none hkind hsome) hpath

theorem extends_addReadableRoot (policy : FileSystemSandboxPolicy) (root : AbsolutePathBuf) :
    Extends env cwd policy (addReadableRoot env cwd policy root) := by
  rw [addReadableRoot]
  split_ifs with hreadable
  · exact Extends.refl policy
  rw [Bool.not_eq_true] at hreadable
  have hkind : policy.kind = .restricted := by
    by_contra hkind
    rw [(access_of_not_restricted hkind).1] at hreadable
    cases hreadable
  have hfull : policy.hasFullDiskWriteAccess = false := by
    by_contra hfull
    rw [canRead_of_fullDiskWrite (Bool.not_eq_false _ ▸ hfull)] at hreadable
    cases hreadable
  constructor
  · intro path hpath
    rw [canRead_iff] at hpath ⊢
    rwa [access_push_read hkind hreadable hpath]
  · intro path hpath
    rw [canWrite_iff_access] at hpath ⊢
    obtain ⟨haccess, hallowed⟩ := hpath
    refine ⟨by rwa [access_push_read hkind hreadable (by simp [haccess])], .inr ?_⟩
    rw [hfull] at hallowed
    have hopen := hallowed.resolve_left Bool.false_ne_true
    by_contra hdenied
    rw [Bool.not_eq_false] at hdenied
    rcases metadataWriteDenied_push hkind hdenied with hbefore | ⟨-, hwrite, -⟩
    · rw [hopen] at hbefore
      cases hbefore
    · cases hwrite

theorem extends_addWritableRoot (policy : FileSystemSandboxPolicy) (root : AbsolutePathBuf) :
    Extends env cwd policy (addWritableRoot env cwd policy root) := by
  rw [addWritableRoot]
  split_ifs with hwritable
  · exact Extends.refl policy
  have hkind : policy.kind = .restricted := by
    by_contra hkind
    exact hwritable (access_of_not_restricted hkind).2
  have haccess : ∀ path, (policy.push root .write).resolveAccessWithCwd env cwd path =
      policy.resolveAccessWithCwd env cwd path ∨
        (policy.push root .write).resolveAccessWithCwd env cwd path = .write := by
    intro path
    rcases access_push hkind with hsame | ⟨-, hnew, -⟩
    · exact .inl hsame
    · exact .inr hnew
  constructor
  · intro path hpath
    rw [canRead_iff] at hpath ⊢
    rcases haccess path with hsame | hnew
    · rwa [hsame]
    · rw [hnew]
      decide
  · intro path hpath
    rw [canWrite_iff_access] at hpath ⊢
    obtain ⟨hwrite, hallowed⟩ := hpath
    refine ⟨(haccess path).elim (fun hsame => hsame.trans hwrite) id, ?_⟩
    by_cases hfull : policy.hasFullDiskWriteAccess = true
    · exact .inl (fullDiskWrite_push_write hfull)
    have hopen := hallowed.resolve_left hfull
    right
    by_contra hdenied
    rw [Bool.not_eq_false] at hdenied
    rcases metadataWriteDenied_push hkind hdenied with hbefore | ⟨hnone, -, name, hin, hshort⟩
    · rw [hopen] at hbefore
      cases hbefore
    · -- what gives the write access is above the root, and so the root was writable
      have hbelow : root.parts <+: path.parts := (List.prefix_append _ _).trans hin
      obtain ⟨winner, hwinner, hpre, hwins, hmax⟩ :
          ∃ winner ∈ policy.resolvedEntriesWithCwd env cwd,
          winner.path.parts <+: path.parts ∧
            policy.resolveAccessWithCwd env cwd path = winner.access ∧
              ∀ other ∈ policy.resolvedEntriesWithCwd env cwd, other.path.parts <+: path.parts →
                resolvedEntryPrecedence other ≤ resolvedEntryPrecedence winner := by
        by_contra hnobody
        have hempty : ∀ entry ∈ policy.resolvedEntriesWithCwd env cwd,
            ¬ entry.path.parts <+: path.parts :=
          fun entry hentry habove => hnobody (exists_deciding_entry hkind hentry habove)
        rw [access_eq_deny_of_none hkind hempty] at hwrite
        cases hwrite
      have hmode : winner.access = .write := hwins.symm.trans hwrite
      have hown := access_above hkind hbelow hwinner hpre hmax (hshort winner hwinner hmode hpre)
      refine hwritable (canWrite_iff_access.mpr ⟨hown.trans hmode, .inr ?_⟩)
      rw [← Bool.not_eq_true, isMetadataWriteDenied_iff hkind]
      rintro ⟨found, hfound, -⟩
      rw [metadataChild_below hbelow hnone] at hfound
      cases hfound

theorem extends_foldl {add : FileSystemSandboxPolicy → AbsolutePathBuf → FileSystemSandboxPolicy}
    (hadd : ∀ policy root, Extends env cwd policy (add policy root)) (roots : List AbsolutePathBuf)
    (policy : FileSystemSandboxPolicy) : Extends env cwd policy (roots.foldl add policy) := by
  induction roots generalizing policy with
  | nil => exact Extends.refl policy
  | cons root roots ih => exact (hadd policy root).trans (ih (add policy root))

theorem extends_withAdditionalReadableRoots (policy : FileSystemSandboxPolicy)
    (roots : List AbsolutePathBuf) :
    Extends env cwd policy (withAdditionalReadableRoots env cwd policy roots) := by
  rw [withAdditionalReadableRoots]
  split_ifs
  · exact Extends.refl policy
  · exact extends_foldl extends_addReadableRoot roots policy

theorem extends_withAdditionalWritableRoots (policy : FileSystemSandboxPolicy)
    (roots : List AbsolutePathBuf) :
    Extends env cwd policy (withAdditionalWritableRoots env cwd policy roots) :=
  extends_foldl extends_addWritableRoot roots policy

/-! ## Added roots -/

/-- No entry that covers the path takes precedence over a write entry for it: none is more
specific, and none of the path itself is a deny entry, which outranks the write entry. -/
def NotCovered (env : Environment) (cwd : AbsolutePathBuf) (policy : FileSystemSandboxPolicy)
    (path : AbsolutePathBuf) : Prop :=
  ∀ entry ∈ policy.resolvedEntriesWithCwd env cwd, entry.path.parts <+: path.parts →
    resolvedEntryPrecedence entry ≤ resolvedEntryPrecedence ⟨path, .write⟩

theorem NotCovered.addWritableRoot (h : NotCovered env cwd policy path) (root : AbsolutePathBuf) :
    NotCovered env cwd (addWritableRoot env cwd policy root) path := by
  rw [FileSystemSandboxPolicy.addWritableRoot]
  split_ifs
  · exact h
  · intro entry hentry habove
    rw [resolvedEntries_push, List.mem_append, List.mem_singleton] at hentry
    rcases hentry with hold | rfl
    · exact h entry hold habove
    · rw [precedence_le_iff]
      rcases habove.length_le.lt_or_eq with hlt | heq
      · exact .inl hlt
      · exact .inr ⟨heq, le_refl _⟩

/-- The entry of an added root decides for the root, and keeps its metadata open. -/
theorem canWrite_addWritableRoot (h : NotCovered env cwd policy root) :
    (addWritableRoot env cwd policy root).canWritePathWithCwd env cwd root = true := by
  rw [addWritableRoot]
  split_ifs with hwritable
  · exact hwritable
  have hkind : policy.kind = .restricted := by
    by_contra hkind
    exact hwritable (access_of_not_restricted hkind).2
  have hkind' : (policy.push root .write).kind = .restricted := hkind
  have hmem : ⟨root, .write⟩ ∈ (policy.push root .write).resolvedEntriesWithCwd env cwd := by
    rw [resolvedEntries_push]
    exact List.mem_append_right _ List.mem_cons_self
  refine canWrite_iff_access.mpr ⟨?_, .inr ?_⟩
  · refine access_of_winner hkind' hmem (List.prefix_refl _) ?_
    intro other hother habove
    rw [resolvedEntries_push, List.mem_append, List.mem_singleton] at hother
    rcases hother with hold | rfl
    · exact h other hold habove
    · exact le_refl _
  · rw [← Bool.not_eq_true, isMetadataWriteDenied_iff hkind']
    rintro ⟨found, hfound, hexplicit⟩
    rw [metadataChildOfWritableRoot_eq] at hfound
    obtain ⟨entry, -, hentry⟩ := List.exists_of_findSome?_eq_some hfound
    obtain ⟨hname, hpath, hin⟩ := metadataOf_eq_some.mp hentry
    rw [← Bool.not_eq_true, hasExplicitWriteEntry_iff] at hexplicit
    refine hexplicit ⟨_, hmem, rfl, List.prefix_refl _, ?_⟩
    rw [hpath, parts_join_metadata hname]
    exact hin

theorem canWrite_of_mem {roots : List AbsolutePathBuf} (hroot : root ∈ roots)
    (h : NotCovered env cwd policy root) :
    (withAdditionalWritableRoots env cwd policy roots).canWritePathWithCwd env cwd root = true := by
  induction roots generalizing policy with
  | nil => cases hroot
  | cons other roots ih =>
      rcases List.mem_cons.mp hroot with rfl | hrest
      · exact (extends_withAdditionalWritableRoots
          (addWritableRoot env cwd policy root) roots).canWrite root (canWrite_addWritableRoot h)
      · exact ih hrest (h.addWritableRoot other)

/-- Additional roots take no access away, and an additional writable root that no entry of the same
path or more specific outranks is writable. -/
theorem additionalRoots_only_add (env : Environment) (cwd : AbsolutePathBuf)
    (policy : FileSystemSandboxPolicy) (roots : List AbsolutePathBuf) :
    Extends env cwd policy (withAdditionalReadableRoots env cwd policy roots) ∧
      Extends env cwd policy (withAdditionalWritableRoots env cwd policy roots) ∧
      ∀ root ∈ roots, NotCovered env cwd policy root →
        (withAdditionalWritableRoots env cwd policy roots).canWritePathWithCwd env cwd root =
          true :=
  ⟨extends_withAdditionalReadableRoots policy roots,
    extends_withAdditionalWritableRoots policy roots,
    fun _ hroot h => canWrite_of_mem hroot h⟩

/-- A root that can only be read becomes writable, and the entry below it keeps its access. -/
theorem additionalRoots_only_add_guarded :
    guardedPolicy.canWritePathWithCwd emptyDisk .root dirAB = false ∧
      (withAdditionalWritableRoots emptyDisk .root guardedPolicy [dirAB]).canWritePathWithCwd
        emptyDisk .root dirAB = true ∧
      (withAdditionalWritableRoots emptyDisk .root guardedPolicy [dirAB]).canWritePathWithCwd
        emptyDisk .root dirABC = true := by
  obtain ⟨-, hextends, hroots⟩ := additionalRoots_only_add emptyDisk .root guardedPolicy [dirAB]
  refine ⟨by decide +kernel, hroots dirAB List.mem_cons_self ?_, ?_⟩
  · unfold NotCovered
    decide +kernel
  · exact hextends.canWrite dirABC (by decide +kernel)

def deniedPolicy : FileSystemSandboxPolicy := ⟨.restricted, [⟨.path dirAB, .deny⟩]⟩

/-- A deny entry is not more specific than the root it names, but outranks the entry that is added
for it. -/
theorem denied_root_stays_unwritable :
    ¬ ∀ (env : Environment) (cwd : AbsolutePathBuf) (policy : FileSystemSandboxPolicy)
      (roots : List AbsolutePathBuf), ∀ root ∈ roots,
        (∀ entry ∈ policy.resolvedEntriesWithCwd env cwd, entry.path.parts <+: root.parts →
          entry.path.parts.length ≤ root.parts.length) →
        (withAdditionalWritableRoots env cwd policy roots).canWritePathWithCwd env cwd root =
          true := by
  intro hclaim
  have hadded := hclaim emptyDisk .root deniedPolicy [dirAB] dirAB List.mem_cons_self
    fun entry _ habove => habove.length_le
  have hdenied : (withAdditionalWritableRoots emptyDisk .root deniedPolicy
      [dirAB]).canWritePathWithCwd emptyDisk .root dirAB = false := by decide +kernel
  rw [hdenied] at hadded
  cases hadded

end Adding

end FileSystemSandboxPolicy

end Codewith.Sandbox
