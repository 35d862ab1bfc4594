import Codewith.Sandbox.WritableRoots
import Mathlib.Data.List.Sort

/-!
# Projection to the legacy sandbox policy

Runtimes that do not enforce a policy directly get it as a legacy policy, and
expand that one again for the working directory.  Whether this is allowed is
decided by comparing the roots that the two policies compute.
-/

namespace Codewith.Sandbox

open Lib

inductive NetworkSandboxPolicy
  | restricted
  | enabled
deriving DecidableEq, Repr

def NetworkSandboxPolicy.isEnabled (network : NetworkSandboxPolicy) : Bool := network = .enabled

inductive NetworkAccess
  | restricted
  | enabled
deriving DecidableEq, Repr

inductive SandboxPolicy
  | dangerFullAccess
  | readOnly (networkAccess : Bool)
  | externalSandbox (networkAccess : NetworkAccess)
  | workspaceWrite (writableRoots : List AbsolutePathBuf) (networkAccess : Bool)
      (excludeTmpdirEnvVar excludeSlashTmp : Bool)
deriving DecidableEq

namespace FileSystemSandboxPolicy

/-! ## Signatures -/

section

variable (policy : FileSystemSandboxPolicy)

def hasDeniedReadRestrictions : Bool :=
  policy.kind = .restricted && policy.entries.any fun entry => entry.access = .deny

def hasFullDiskReadAccess : Bool :=
  match policy.kind with
  | .restricted =>
      policy.hasRootAccess FileSystemAccessMode.canRead && !policy.hasDeniedReadRestrictions
  | _ => true

def includePlatformDefaults : Bool :=
  !policy.hasFullDiskReadAccess && policy.kind = .restricted &&
    policy.entries.any fun entry => entry.path = .special .minimal && entry.access.canRead

variable (env : Environment) (cwd : AbsolutePathBuf)

def getReadableRootsWithCwd : List AbsolutePathBuf :=
  if policy.hasFullDiskReadAccess then []
  else dedupAbsolutePaths env
    (((policy.resolvedEntriesWithCwd env cwd).filter fun entry =>
      entry.access.canRead && policy.canReadPathWithCwd env cwd entry.path).map (·.path)) true

def getUnreadableRootsWithCwd : List AbsolutePathBuf :=
  if policy.kind ≠ .restricted then []
  else dedupAbsolutePaths env
    (((policy.resolvedEntriesWithCwd env cwd).filter fun entry =>
      entry.access = .deny && !policy.canReadPathWithCwd env cwd entry.path &&
        entry.path ≠ .root).map (·.path)) true

/-- Sorted, and without duplicates. -/
def sortDedup (texts : List Text) : List Text := (texts.insertionSort (· ≤ ·)).eraseDups

def getUnreadableGlobsWithCwd : List Text :=
  if policy.kind ≠ .restricted then []
  else sortDedup (policy.entries.filterMap fun entry =>
    match entry.access, entry.path with
    | .deny, .globPattern pattern =>
        some (AbsolutePathBuf.resolvePathAgainstBase env.home pattern cwd).display
    | _, _ => none)

def sortedAbsolutePaths (paths : List AbsolutePathBuf) : List AbsolutePathBuf :=
  paths.insertionSort fun left right => left.parts ≤ right.parts

def sortedWritableRoots (roots : List WritableRoot) : List WritableRoot :=
  (roots.map fun root =>
    { root with
      readOnlySubpaths := sortedAbsolutePaths root.readOnlySubpaths
      protectedMetadataNames := sortDedup root.protectedMetadataNames }).insertionSort
    fun left right => left.root.parts ≤ right.root.parts

structure FileSystemSemanticSignature where
  hasFullDiskReadAccess : Bool
  hasFullDiskWriteAccess : Bool
  includePlatformDefaults : Bool
  readableRoots : List AbsolutePathBuf
  writableRoots : List WritableRoot
  unreadableRoots : List AbsolutePathBuf
  unreadableGlobs : List Text
deriving DecidableEq

def semanticSignature : FileSystemSemanticSignature where
  hasFullDiskReadAccess := policy.hasFullDiskReadAccess
  hasFullDiskWriteAccess := policy.hasFullDiskWriteAccess
  includePlatformDefaults := policy.includePlatformDefaults
  readableRoots := sortedAbsolutePaths (policy.getReadableRootsWithCwd env cwd)
  writableRoots := sortedWritableRoots (policy.getWritableRootsWithCwd env cwd)
  unreadableRoots := sortedAbsolutePaths (policy.getUnreadableRootsWithCwd env cwd)
  unreadableGlobs := policy.getUnreadableGlobsWithCwd env cwd

/-! ## To the legacy policy -/

/-- The workspace root itself is writable. -/
def workspaceRootWritable : Bool :=
  policy.entries.any fun entry => entry.access.canWrite && match entry.path with
    | .path path => path = cwd
    | .special (.projectRoots none) => true
    | _ => false

/-- The other write entries for paths and for subpaths of the workspace. -/
def legacyWritableRoots : List AbsolutePathBuf :=
  policy.entries.filterMap fun entry =>
    if entry.access.canWrite then
      match entry.path with
      | .path path => if path = cwd then none else some path
      | .special (.projectRoots (some subpath)) =>
          resolveFileSystemSpecialPath env cwd (.projectRoots (some subpath))
      | _ => none
    else none

def specialWritable (value : FileSystemSpecialPath) : Bool :=
  policy.entries.any fun entry => entry.access.canWrite && entry.path = .special value

def unbridgeableWrites : Text :=
  ("permissions profile requests filesystem writes outside the workspace root, which is not " ++
    "supported until the runtime enforces FileSystemSandboxPolicy directly").toList

def toLegacySandboxPolicy (network : NetworkSandboxPolicy) : Except Text SandboxPolicy :=
  match policy.kind with
  | .externalSandbox =>
      .ok (.externalSandbox (if network.isEnabled then .enabled else .restricted))
  | .unrestricted =>
      .ok (if network.isEnabled then .dangerFullAccess else .externalSandbox .restricted)
  | .restricted =>
      let tmpdirWritable := policy.specialWritable .tmpdir
      let slashTmpWritable := policy.specialWritable .slashTmp
      let unbridgeableRootWrite := policy.specialWritable .root
      let writableRoots := policy.legacyWritableRoots env cwd
      if policy.hasFullDiskWriteAccess then
        .ok (if network.isEnabled then .dangerFullAccess else .externalSandbox .restricted)
      else if policy.workspaceRootWritable cwd then
        .ok (.workspaceWrite (dedupAbsolutePaths env writableRoots false) network.isEnabled
          (!tmpdirWritable) (!slashTmpWritable))
      else if unbridgeableRootWrite || writableRoots ≠ [] || tmpdirWritable || slashTmpWritable then
        .error unbridgeableWrites
      else
        .ok (.readOnly network.isEnabled)

end

/-! ## And back -/

section

variable (env : Environment) (cwd : AbsolutePathBuf)

def appendDefaultReadOnlyPathIfNoExplicitRule (entries : List FileSystemSandboxEntry)
    (path : AbsolutePathBuf) : List FileSystemSandboxEntry :=
  if entries.any fun entry => fileSystemPathsShareTarget entry.path (.path path) then entries
  else entries ++ [⟨.path path, .read⟩]

/-- The entries before the protected paths are added. -/
def legacyRuntimeEntries (writableRoots : List AbsolutePathBuf)
    (excludeTmpdirEnvVar excludeSlashTmp : Bool) : List FileSystemSandboxEntry :=
  [⟨.special .root, .read⟩, ⟨.special (.projectRoots none), .write⟩] ++
    (if excludeSlashTmp then [] else [⟨.special .slashTmp, .write⟩]) ++
    (if excludeTmpdirEnvVar then [] else [⟨.special .tmpdir, .write⟩]) ++
    writableRoots.map fun path => ⟨.path path, .write⟩

/-- The paths below the workspace root and the other writable roots that are to
stay read-only. -/
def legacyProtectedPaths (writableRoots : List AbsolutePathBuf) : List AbsolutePathBuf :=
  defaultReadOnlySubpathsForWritableRoot env cwd true ++
    writableRoots.flatMap fun root => defaultReadOnlySubpathsForWritableRoot env root false

def legacyRuntimeFileSystemPolicyForCwd : SandboxPolicy → FileSystemSandboxPolicy
  | .dangerFullAccess => ⟨.unrestricted, []⟩
  | .externalSandbox _ => ⟨.externalSandbox, []⟩
  | .readOnly _ => ⟨.restricted, [⟨.special .root, .read⟩]⟩
  | .workspaceWrite writableRoots _ excludeTmpdirEnvVar excludeSlashTmp =>
      ⟨.restricted, (legacyProtectedPaths env cwd writableRoots).foldl
        appendDefaultReadOnlyPathIfNoExplicitRule
        (legacyRuntimeEntries writableRoots excludeTmpdirEnvVar excludeSlashTmp)⟩

end

end FileSystemSandboxPolicy

namespace SandboxPolicy

/-- The roots that a legacy runtime opens. -/
def getWritableRootsWithCwd (env : Environment) (cwd : AbsolutePathBuf) :
    SandboxPolicy → List WritableRoot
  | .workspaceWrite writableRoots _ excludeTmpdirEnvVar excludeSlashTmp =>
      (writableRoots ++ [cwd] ++
        (if !excludeSlashTmp && env.isDir slashTmpPath then [slashTmpPath] else []) ++
        (if excludeTmpdirEnvVar then [] else env.tmpdir.toList)).map fun root =>
          { root
            readOnlySubpaths := defaultReadOnlySubpathsForWritableRoot env root (cwd = root)
            protectedMetadataNames := [] }
  | _ => []

end SandboxPolicy

/-! ## Whether the projection is used -/

namespace FileSystemSandboxPolicy

variable (env : Environment) (policy : FileSystemSandboxPolicy) (cwd : AbsolutePathBuf)

def protectedMetadataNamesNeedDirectRuntimeEnforcement (legacyPolicy : SandboxPolicy) : Bool :=
  let legacyRoots := legacyPolicy.getWritableRootsWithCwd env cwd
  (policy.getWritableRootsWithCwd env cwd).any fun writableRoot =>
    match legacyRoots.find? fun candidate => candidate.root = writableRoot.root with
    | none => writableRoot.protectedMetadataNames ≠ []
    | some legacyRoot => writableRoot.protectedMetadataNames.any fun metadataName =>
        !legacyRoot.readOnlySubpaths.any fun subpath =>
          subpath = AbsolutePathBuf.join env.home writableRoot.root metadataName

def needsDirectRuntimeEnforcement (network : NetworkSandboxPolicy) : Bool :=
  if policy.kind ≠ .restricted then false
  else match policy.toLegacySandboxPolicy env cwd network with
    | .error _ => true
    | .ok legacyPolicy =>
        policy.protectedMetadataNamesNeedDirectRuntimeEnforcement env cwd legacyPolicy ||
          policy.semanticSignature env cwd ≠
            (legacyRuntimeFileSystemPolicyForCwd env cwd legacyPolicy).semanticSignature env cwd

end FileSystemSandboxPolicy

end Codewith.Sandbox
