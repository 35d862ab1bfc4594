import Codewith.Sandbox.WritableRoots

/-!
# The order of entries

The access to a path is that of a most specific entry, in whichever order the entries stand.
Not so the protection of metadata: it is that of the first write entry which has the path in
one of its metadata directories, and entries below that directory lift it.  The order does not
matter exactly if all write entries that come into question agree.
-/

namespace Codewith.Sandbox

open Lib

namespace FileSystemSandboxPolicy

variable {env : Environment} {policy : FileSystemSandboxPolicy} {cwd path : AbsolutePathBuf}
  {entries : List FileSystemSandboxEntry}

/-- The policy with its entries in another order. -/
def reordered (policy : FileSystemSandboxPolicy) (entries : List FileSystemSandboxEntry) :
    FileSystemSandboxPolicy :=
  { policy with entries := entries }

/-! ### What does not depend on the order -/

theorem resolvedEntries_perm (h : policy.entries.Perm entries) :
    (policy.resolvedEntriesWithCwd env cwd).Perm
      ((policy.reordered entries).resolvedEntriesWithCwd env cwd) :=
  h.filterMap _

theorem hasFullDiskWriteAccess_reordered (h : policy.entries.Perm entries) :
    (policy.reordered entries).hasFullDiskWriteAccess = policy.hasFullDiskWriteAccess := by
  have hnarrows : (policy.reordered entries).narrowsWrite = policy.narrowsWrite := by
    funext entry
    unfold narrowsWrite
    have hoverride : (policy.reordered entries).hasSameTargetWriteOverride entry =
        policy.hasSameTargetWriteOverride entry := (h.any_eq).symm
    rw [hoverride]
  unfold hasFullDiskWriteAccess hasRootAccess hasWriteNarrowingEntries
  rw [hnarrows]
  simp only [reordered, h.any_eq]
  rfl

/-- Two most specific entries have the same access. -/
theorem access_argmax_perm {l l' : List ResolvedFileSystemEntry} (h : l.Perm l') :
    (l.argmax resolvedEntryPrecedence).map (·.access) =
      (l'.argmax resolvedEntryPrecedence).map (·.access) := by
  cases hl : l.argmax resolvedEntryPrecedence with
  | none =>
      rw [List.argmax_eq_none] at hl
      subst hl
      rw [List.nil_perm.mp h]
      rfl
  | some a =>
      cases hl' : l'.argmax resolvedEntryPrecedence with
      | none =>
          rw [List.argmax_eq_none] at hl'
          subst hl'
          rw [List.perm_nil.mp h] at hl
          cases hl
      | some b =>
          have hab : resolvedEntryPrecedence a = resolvedEntryPrecedence b :=
            le_antisymm (List.le_of_mem_argmax (h.mem_iff.mp (List.argmax_mem hl)) hl')
              (List.le_of_mem_argmax (h.mem_iff.mpr (List.argmax_mem hl')) hl)
          have hrank : a.access.rank = b.access.rank := (Prod.mk.inj (toLex.injective hab)).2
          rw [Option.map_some, Option.map_some, rank_injective hrank]

theorem resolveAccess_reordered (h : policy.entries.Perm entries) :
    (policy.reordered entries).resolveAccessWithCwd env cwd path =
      policy.resolveAccessWithCwd env cwd path := by
  have hperm : (policy.resolvedEntriesWithCwd env cwd).Perm
      ((policy.reordered entries).resolvedEntriesWithCwd env cwd) := resolvedEntries_perm h
  have haccess := access_argmax_perm (hperm.filter fun entry => startsWith path entry.path)
  unfold resolveAccessWithCwd
  cases hkind : policy.kind with
  | unrestricted => simp [reordered, hkind]
  | externalSandbox => simp [reordered, hkind]
  | restricted =>
      have hkind' : (policy.reordered entries).kind = .restricted := hkind
      rw [hkind']
      dsimp only
      generalize ((policy.resolvedEntriesWithCwd env cwd).filter fun entry =>
        startsWith path entry.path).argmax resolvedEntryPrecedence = a at haccess ⊢
      generalize (((policy.reordered entries).resolvedEntriesWithCwd env cwd).filter fun entry =>
        startsWith path entry.path).argmax resolvedEntryPrecedence = b at haccess ⊢
      cases a <;> cases b <;> simp_all

theorem hasExplicitWriteEntry_reordered (h : policy.entries.Perm entries)
    (metadata target : AbsolutePathBuf) :
    (policy.reordered entries).hasExplicitWriteEntryForMetadataPath env cwd metadata target =
      policy.hasExplicitWriteEntryForMetadataPath env cwd metadata target := by
  have hperm : (policy.resolvedEntriesWithCwd env cwd).Perm
      ((policy.reordered entries).resolvedEntriesWithCwd env cwd) := resolvedEntries_perm h
  exact hperm.any_eq.symm

/-! ### What does -/

variable (env policy cwd path) in
/-- A metadata directory that the path lies in, below a write entry. -/
def InMetadata (metadata : AbsolutePathBuf) : Prop :=
  ∃ entry ∈ policy.resolvedEntriesWithCwd env cwd, entry.access = .write ∧
    ∃ name, metadataOf env path entry = some (metadata, name)

variable (env policy cwd path) in
/-- If the path may be written at all, and not only because everything may, then the metadata
directories that it lies in are either all opened by a write entry inside them, or none is. -/
def MetadataAgrees : Prop :=
  policy.kind = .restricted → policy.resolveAccessWithCwd env cwd path = .write →
    policy.hasFullDiskWriteAccess = false → ∀ outer inner,
      InMetadata env policy cwd path outer → InMetadata env policy cwd path inner →
        policy.hasExplicitWriteEntryForMetadataPath env cwd outer path =
          policy.hasExplicitWriteEntryForMetadataPath env cwd inner path

theorem inMetadata_of_metadataChild {found : AbsolutePathBuf × Text}
    (h : policy.metadataChildOfWritableRoot env cwd path = some found) :
    InMetadata env policy cwd path found.1 := by
  rw [metadataChildOfWritableRoot_eq] at h
  obtain ⟨entry, hentry, hfound⟩ := List.exists_of_findSome?_eq_some h
  obtain ⟨hmem, hwrite⟩ := List.mem_filter.mp hentry
  exact ⟨entry, hmem, canWrite_eq_true.mp hwrite, found.2, hfound⟩

theorem metadataChild_of_inMetadata {metadata : AbsolutePathBuf}
    (h : InMetadata env policy cwd path metadata) :
    ∃ found, policy.metadataChildOfWritableRoot env cwd path = some found := by
  obtain ⟨entry, hmem, hwrite, name, hfound⟩ := h
  rw [metadataChildOfWritableRoot_eq, ← Option.isSome_iff_exists, List.findSome?_isSome_iff]
  exact ⟨entry, List.mem_filter.mpr ⟨hmem, canWrite_eq_true.mpr hwrite⟩, by rw [hfound]; rfl⟩

theorem inMetadata_reordered (h : policy.entries.Perm entries) {metadata : AbsolutePathBuf} :
    InMetadata env (policy.reordered entries) cwd path metadata ↔
      InMetadata env policy cwd path metadata := by
  unfold InMetadata
  simp only [(resolvedEntries_perm h).mem_iff]

/-- With agreeing directories it is the same which of them comes first. -/
theorem isMetadataWriteDenied_reordered (h : policy.entries.Perm entries)
    (hkind : policy.kind = .restricted)
    (hagrees : ∀ outer inner, InMetadata env policy cwd path outer →
      InMetadata env policy cwd path inner →
        policy.hasExplicitWriteEntryForMetadataPath env cwd outer path =
          policy.hasExplicitWriteEntryForMetadataPath env cwd inner path) :
    (policy.reordered entries).isMetadataWriteDenied env cwd path =
      policy.isMetadataWriteDenied env cwd path := by
  have hkind' : (policy.reordered entries).kind = .restricted := hkind
  rw [Bool.eq_iff_iff, isMetadataWriteDenied_iff hkind, isMetadataWriteDenied_iff hkind']
  simp only [hasExplicitWriteEntry_reordered h]
  constructor
  · rintro ⟨found, hfound, hnone⟩
    have hin := (inMetadata_reordered h).mp (inMetadata_of_metadataChild hfound)
    obtain ⟨found', hfound'⟩ := metadataChild_of_inMetadata hin
    refine ⟨found', hfound', ?_⟩
    rw [hagrees found'.1 found.1 (inMetadata_of_metadataChild hfound') hin, hnone]
  · rintro ⟨found, hfound, hnone⟩
    have hin := inMetadata_of_metadataChild hfound
    obtain ⟨found', hfound'⟩ := metadataChild_of_inMetadata ((inMetadata_reordered h).mpr hin)
    refine ⟨found', hfound', ?_⟩
    rw [hagrees found'.1 found.1 ((inMetadata_reordered h).mp (inMetadata_of_metadataChild hfound'))
      hin, hnone]

/-- Any of the directories comes first in some order. -/
theorem exists_first {metadata : AbsolutePathBuf} (h : InMetadata env policy cwd path metadata) :
    ∃ entries name, policy.entries.Perm entries ∧
      (policy.reordered entries).metadataChildOfWritableRoot env cwd path =
        some (metadata, name) := by
  obtain ⟨resolved, hmem, hwrite, name, hfound⟩ := h
  obtain ⟨entry, hentry, hresolved⟩ := List.mem_filterMap.mp hmem
  obtain ⟨before, after, hsplit⟩ := List.append_of_mem hentry
  refine ⟨entry :: (before ++ after), name, hsplit ▸ List.perm_middle, ?_⟩
  have hfirst : (policy.reordered (entry :: (before ++ after))).resolvedEntriesWithCwd env cwd =
      resolved :: (policy.reordered (before ++ after)).resolvedEntriesWithCwd env cwd := by
    unfold resolvedEntriesWithCwd reordered
    dsimp only
    rw [List.filterMap_cons, hresolved]
  rw [metadataChildOfWritableRoot_eq, hfirst]
  simp [canWrite_eq_true.mpr hwrite, hfound]

/-- Where the path may be written otherwise, the first directory decides. -/
theorem canWrite_of_first (h : policy.entries.Perm entries) (hkind : policy.kind = .restricted)
    (haccess : policy.resolveAccessWithCwd env cwd path = .write)
    (hfull : policy.hasFullDiskWriteAccess = false) {metadata : AbsolutePathBuf} {name : Text}
    (hfirst : (policy.reordered entries).metadataChildOfWritableRoot env cwd path =
      some (metadata, name)) :
    (policy.reordered entries).canWritePathWithCwd env cwd path =
      policy.hasExplicitWriteEntryForMetadataPath env cwd metadata path := by
  have hkind' : (policy.reordered entries).kind = .restricted := hkind
  unfold canWritePathWithCwd isMetadataWriteDenied
  rw [resolveAccess_reordered h, haccess, hasFullDiskWriteAccess_reordered h, hfull, hfirst]
  simp [hkind', FileSystemAccessMode.canWrite, hasExplicitWriteEntry_reordered h]

/-- Reading and writing do not depend on the order of the entries exactly if the metadata
directories of the path agree. -/
theorem access_reordered_iff (env : Environment) (policy : FileSystemSandboxPolicy)
    (cwd path : AbsolutePathBuf) :
    (∀ entries, policy.entries.Perm entries →
        (policy.reordered entries).canReadPathWithCwd env cwd path =
            policy.canReadPathWithCwd env cwd path ∧
          (policy.reordered entries).canWritePathWithCwd env cwd path =
            policy.canWritePathWithCwd env cwd path) ↔
      MetadataAgrees env policy cwd path := by
  constructor
  · intro h hkind haccess hfull outer inner houter hinner
    obtain ⟨entries₁, name₁, hperm₁, hfirst₁⟩ := exists_first houter
    obtain ⟨entries₂, name₂, hperm₂, hfirst₂⟩ := exists_first hinner
    rw [← canWrite_of_first hperm₁ hkind haccess hfull hfirst₁,
      ← canWrite_of_first hperm₂ hkind haccess hfull hfirst₂, (h entries₁ hperm₁).2,
      (h entries₂ hperm₂).2]
  · intro hagrees entries hperm
    unfold canReadPathWithCwd canWritePathWithCwd
    rw [resolveAccess_reordered hperm, hasFullDiskWriteAccess_reordered hperm]
    refine ⟨rfl, ?_⟩
    by_cases hkind : policy.kind = .restricted
    · by_cases haccess : policy.resolveAccessWithCwd env cwd path = .write
      · cases hfull : policy.hasFullDiskWriteAccess with
        | true => simp
        | false =>
            rw [isMetadataWriteDenied_reordered hperm hkind (hagrees hkind haccess hfull)]
      · have hnot : (policy.resolveAccessWithCwd env cwd path).canWrite = false := by
          rw [← Bool.not_eq_true, canWrite_eq_true]
          exact haccess
        simp [hnot]
    · have hkind' : (policy.reordered entries).kind ≠ .restricted := hkind
      simp [isMetadataWriteDenied, hkind, hkind']

/-! ### Nested metadata -/

def dirAGit : AbsolutePathBuf := ⟨[['a'], ".git".toList], by decide +kernel⟩

def nestedCodexFile : AbsolutePathBuf :=
  ⟨[['a'], ".git".toList, ".codex".toList, ['f']], by decide +kernel⟩

/-- A write entry for a metadata directory of another one. -/
def openedMetadata : FileSystemSandboxPolicy :=
  ⟨.restricted, [⟨.path dirA, .write⟩, ⟨.path dirAGit, .write⟩]⟩

/-- Whether the inner metadata is protected depends on which entry comes first. -/
theorem openedMetadata_reordered :
    openedMetadata.entries.Perm openedMetadata.entries.reverse ∧
      openedMetadata.canWritePathWithCwd emptyDisk .root nestedCodexFile = true ∧
      (openedMetadata.reordered openedMetadata.entries.reverse).canWritePathWithCwd emptyDisk .root
        nestedCodexFile = false :=
  ⟨(List.reverse_perm _).symm, by decide +kernel, by decide +kernel⟩

end FileSystemSandboxPolicy

end Codewith.Sandbox
