import Codewith.Path
import Mathlib.Data.List.MinMax
import Mathlib.Data.Prod.Lex

/-!
# File-system sandbox policies

A policy is a list of entries that give read, write or no access to the paths
below them.  The access to a path is that of the most specific entry above it;
on top of that, the metadata directories directly below a write entry are
protected.  For sandboxes that work with roots, the policy is turned into a list
of writable roots with carve-outs.

`Environment` holds what the code asks the operating system for.
-/

namespace Codewith.Sandbox

open Lib

/-! ## Entries -/

inductive FileSystemAccessMode
  | read
  | write
  | deny
deriving DecidableEq, Repr

namespace FileSystemAccessMode

def canRead (mode : FileSystemAccessMode) : Bool := mode ≠ deny

def canWrite (mode : FileSystemAccessMode) : Bool := mode = write

/-- Which of two equally specific entries wins. -/
def rank : FileSystemAccessMode → Nat
  | read => 0
  | write => 1
  | deny => 2

end FileSystemAccessMode

inductive FileSystemSpecialPath
  | root
  | minimal
  | projectRoots (subpath : Option PathBuf)
  | tmpdir
  | slashTmp
  | unknown (path : Text) (subpath : Option PathBuf)
deriving DecidableEq, Repr

inductive FileSystemPath
  | path (path : AbsolutePathBuf)
  | globPattern (pattern : Text)
  | special (value : FileSystemSpecialPath)
deriving DecidableEq

structure FileSystemSandboxEntry where
  path : FileSystemPath
  access : FileSystemAccessMode
deriving DecidableEq

inductive FileSystemSandboxKind
  | restricted
  | unrestricted
  | externalSandbox
deriving DecidableEq, Repr

structure FileSystemSandboxPolicy where
  kind : FileSystemSandboxKind
  entries : List FileSystemSandboxEntry
deriving DecidableEq

structure ResolvedFileSystemEntry where
  path : AbsolutePathBuf
  access : FileSystemAccessMode
deriving DecidableEq

structure WritableRoot where
  root : AbsolutePathBuf
  readOnlySubpaths : List AbsolutePathBuf
  protectedMetadataNames : List Text
deriving DecidableEq

structure Environment where
  home : Option PathBuf
  /-- `TMPDIR`, made absolute. -/
  tmpdir : Option AbsolutePathBuf
  isDir : AbsolutePathBuf → Bool
  isFile : AbsolutePathBuf → Bool
  pathExists : AbsolutePathBuf → Bool
  readToString : AbsolutePathBuf → Option Text
  /-- A directory entry of this name exists, be it a dangling link. -/
  symlinkMetadata : AbsolutePathBuf → Bool
  isSymlink : AbsolutePathBuf → Bool
  canonicalize : AbsolutePathBuf → Option AbsolutePathBuf

/-! ## Paths -/

def slashTmpPath : AbsolutePathBuf := ⟨["tmp".toList], by decide +kernel⟩

def protectedMetadataPathNames : List Text :=
  [".git".toList, ".agents".toList, ".codewith".toList, ".codex".toList]

def startsWith (path base : AbsolutePathBuf) : Bool := base.parts.isPrefixOf path.parts

/-- The first component of a path below a base. -/
def firstComponentBelow (base path : AbsolutePathBuf) : Option Text :=
  if startsWith path base then (path.parts.drop base.parts.length).head? else none

/-- The path, its parent, and so on up to the root. -/
def ancestors (path : AbsolutePathBuf) : List AbsolutePathBuf :=
  ((List.range (path.parts.length + 1)).reverse).map fun n =>
    ⟨path.parts.take n, fun c hc => path.normal c (List.mem_of_mem_take hc)⟩

/-- A path below a base, moved to another base. -/
def rebase (base path : AbsolutePathBuf) (depth : Nat) : AbsolutePathBuf :=
  ⟨base.parts ++ path.parts.drop depth, by
    intro c hc
    rcases List.mem_append.1 hc with hc | hc
    · exact base.normal c hc
    · exact path.normal c (List.mem_of_mem_drop hc)⟩

section

variable (env : Environment)

/-- A nested link is kept as it is spelled. -/
def shouldPreserveLogicalPath (logical : AbsolutePathBuf) : Bool :=
  (ancestors logical).any fun ancestor => env.isSymlink ancestor && 2 ≤ ancestor.parts.length

def canonicalizePreservingSymlinks (path : AbsolutePathBuf) : AbsolutePathBuf :=
  match env.canonicalize path with
  | some canonical =>
      if shouldPreserveLogicalPath env path ∧ canonical ≠ path then path else canonical
  | none => path

/-- The path with its nearest existing ancestor made canonical. -/
def normalizeEffectiveAbsolutePath (path : AbsolutePathBuf) : AbsolutePathBuf :=
  match (ancestors path).find? env.symlinkMetadata with
  | some ancestor =>
      rebase (canonicalizePreservingSymlinks env ancestor) path ancestor.parts.length
  | none => path

def dedupAbsolutePaths (paths : List AbsolutePathBuf) (normalizeEffectivePaths : Bool) :
    List AbsolutePathBuf :=
  (if normalizeEffectivePaths then paths.map (normalizeEffectiveAbsolutePath env)
    else paths).eraseDups

def resolveFileSystemSpecialPath (cwd : AbsolutePathBuf) :
    FileSystemSpecialPath → Option AbsolutePathBuf
  | .projectRoots (some subpath) =>
      some (AbsolutePathBuf.resolvePathAgainstBase env.home subpath cwd)
  | .projectRoots none => some cwd
  | .tmpdir => env.tmpdir
  | .slashTmp => if env.isDir slashTmpPath then some slashTmpPath else none
  | _ => none

def resolveEntryPath (cwd : AbsolutePathBuf) : FileSystemPath → Option AbsolutePathBuf
  | .special .root => some .root
  | .path path => some path
  | .globPattern _ => none
  | .special value => resolveFileSystemSpecialPath env cwd value

end

/-! ## Access to a path -/

def specialPathMatchesAbsolutePath (value : FileSystemSpecialPath) (path : AbsolutePathBuf) :
    Bool :=
  match value with
  | .root => path.parent.isNone
  | .slashTmp => path = slashTmpPath
  | _ => false

def sameSubpath : Option PathBuf → Option PathBuf → Bool
  | some left, some right => PathBuf.sameComponents left right
  | none, none => true
  | _, _ => false

def specialPathsShareTarget : FileSystemSpecialPath → FileSystemSpecialPath → Bool
  | .projectRoots left, .projectRoots right => sameSubpath left right
  | .unknown left leftSubpath, .unknown right rightSubpath =>
      left = right && sameSubpath leftSubpath rightSubpath
  | left, right => left = right

def fileSystemPathsShareTarget : FileSystemPath → FileSystemPath → Bool
  | .path left, .path right => left = right
  | .special left, .special right => specialPathsShareTarget left right
  | .path path, .special value => specialPathMatchesAbsolutePath value path
  | .special value, .path path => specialPathMatchesAbsolutePath value path
  | .globPattern left, .globPattern right => left = right
  | _, _ => false

def resolvedEntryPrecedence (entry : ResolvedFileSystemEntry) : Nat ×ₗ Nat :=
  toLex (entry.path.parts.length + 1, entry.access.rank)

def metadataPathName (name : Text) : Option Text :=
  protectedMetadataPathNames.find? (· = name)

namespace FileSystemSandboxPolicy

def hasRootAccess (policy : FileSystemSandboxPolicy) (test : FileSystemAccessMode → Bool) : Bool :=
  policy.kind = .restricted &&
    policy.entries.any fun entry => entry.path = .special .root && test entry.access

/-- A write entry for the same location takes precedence. -/
def hasSameTargetWriteOverride (policy : FileSystemSandboxPolicy)
    (entry : FileSystemSandboxEntry) : Bool :=
  policy.entries.any fun candidate =>
    candidate.access.canWrite && entry.access.rank < candidate.access.rank &&
      fileSystemPathsShareTarget candidate.path entry.path

def narrowsWrite (policy : FileSystemSandboxPolicy) (entry : FileSystemSandboxEntry) : Bool :=
  !entry.access.canWrite && match entry.path with
    | .path _ => !policy.hasSameTargetWriteOverride entry
    | .globPattern _ => true
    | .special .root => entry.access = .deny
    | .special .minimal => false
    | .special (.unknown ..) => false
    | .special _ => !policy.hasSameTargetWriteOverride entry

def hasWriteNarrowingEntries (policy : FileSystemSandboxPolicy) : Bool :=
  policy.kind = .restricted && policy.entries.any policy.narrowsWrite

def hasFullDiskWriteAccess (policy : FileSystemSandboxPolicy) : Bool :=
  match policy.kind with
  | .restricted =>
      policy.hasRootAccess FileSystemAccessMode.canWrite && !policy.hasWriteNarrowingEntries
  | _ => true

variable (env : Environment) (policy : FileSystemSandboxPolicy) (cwd : AbsolutePathBuf)

def resolvedEntriesWithCwd : List ResolvedFileSystemEntry :=
  policy.entries.filterMap fun entry =>
    (resolveEntryPath env cwd entry.path).map (⟨·, entry.access⟩)

def resolveAccessWithCwd (path : AbsolutePathBuf) : FileSystemAccessMode :=
  match policy.kind with
  | .restricted =>
      match ((policy.resolvedEntriesWithCwd env cwd).filter fun entry =>
          startsWith path entry.path).argmax resolvedEntryPrecedence with
      | some entry => entry.access
      | none => .deny
  | _ => .write

/-- The first write entry, in the order of the list, that has the path below one
of its metadata names. -/
def metadataChildOfWritableRoot (target : AbsolutePathBuf) : Option (AbsolutePathBuf × Text) :=
  ((policy.resolvedEntriesWithCwd env cwd).filter (·.access.canWrite)).findSome? fun entry => do
    let firstComponent ← firstComponentBelow entry.path target
    let metadataName ← metadataPathName firstComponent
    return (AbsolutePathBuf.join env.home entry.path metadataName, metadataName)

def hasExplicitWriteEntryForMetadataPath (protectedMetadataPath target : AbsolutePathBuf) : Bool :=
  (policy.resolvedEntriesWithCwd env cwd).any fun entry =>
    entry.access.canWrite && startsWith target entry.path &&
      startsWith entry.path protectedMetadataPath

def isMetadataWriteDenied (path : AbsolutePathBuf) : Bool :=
  policy.kind = .restricted &&
    match policy.metadataChildOfWritableRoot env cwd path with
    | some (protectedMetadataPath, _) =>
        !policy.hasExplicitWriteEntryForMetadataPath env cwd protectedMetadataPath path
    | none => false

def canReadPathWithCwd (path : AbsolutePathBuf) : Bool :=
  (policy.resolveAccessWithCwd env cwd path).canRead

def canWritePathWithCwd (path : AbsolutePathBuf) : Bool :=
  (policy.resolveAccessWithCwd env cwd path).canWrite &&
    (policy.hasFullDiskWriteAccess || !policy.isMetadataWriteDenied env cwd path)

end FileSystemSandboxPolicy

/-! ## Writable roots -/

section

variable (env : Environment)

/-- `split_once(':')`. -/
def splitOnceColon (s : Text) : Option (Text × Text) :=
  match s.span (· ≠ ':') with
  | (before, _ :: after) => some (before, after)
  | _ => none

def resolveGitdirFromFile (dotGit : AbsolutePathBuf) : Option AbsolutePathBuf := do
  let contents ← env.readToString dotGit
  let (start, gitdirRaw) ← splitOnceColon (Text.trim contents)
  if Text.trim start = "gitdir".toList then
    let gitdirRaw := Text.trim gitdirRaw
    if gitdirRaw = [] then none
    else
      let base ← dotGit.parent
      let gitdirPath := AbsolutePathBuf.resolvePathAgainstBase env.home gitdirRaw base
      if env.pathExists gitdirPath then some gitdirPath else none
  else none

def defaultReadOnlySubpathsForWritableRoot (writableRoot : AbsolutePathBuf)
    (protectMissingDotCodex : Bool) : List AbsolutePathBuf :=
  let topLevelGit := AbsolutePathBuf.join env.home writableRoot ".git".toList
  let topLevelAgents := AbsolutePathBuf.join env.home writableRoot ".agents".toList
  let topLevelCodewith := AbsolutePathBuf.join env.home writableRoot ".codewith".toList
  let topLevelCodex := AbsolutePathBuf.join env.home writableRoot ".codex".toList
  dedupAbsolutePaths env
    ((if env.isDir topLevelGit || env.isFile topLevelGit then
        (if env.isFile topLevelGit then (resolveGitdirFromFile env topLevelGit).toList else []) ++
          [topLevelGit]
      else []) ++
      (if env.isDir topLevelAgents then [topLevelAgents] else []) ++
      (if protectMissingDotCodex || env.isDir topLevelCodewith then [topLevelCodewith] else []) ++
      (if protectMissingDotCodex || env.isDir topLevelCodex then [topLevelCodex] else [])) false

def hasExplicitResolvedPathEntry (entries : List ResolvedFileSystemEntry)
    (path : AbsolutePathBuf) : Bool :=
  entries.any fun entry => entry.path = path

namespace FileSystemSandboxPolicy

variable (policy : FileSystemSandboxPolicy) (cwd : AbsolutePathBuf)

/-- The names whose directory below the root is not writable under any spelling. -/
def protectedMetadataNamesForWritableRoot (root : AbsolutePathBuf)
    (rawWritableRoots : List AbsolutePathBuf) : List Text :=
  protectedMetadataPathNames.filter fun metadataName =>
    (AbsolutePathBuf.join env.home root metadataName ::
        rawWritableRoots.map fun rawRoot => AbsolutePathBuf.join env.home rawRoot metadataName).all
      fun metadataPath => !policy.canWritePathWithCwd env cwd metadataPath

/-- Where a non-write entry lies below a root: as it is spelled if the root is
not the file system's, else by its effective path. -/
def carveoutPath (root : AbsolutePathBuf) (rawWritableRoots : List AbsolutePathBuf)
    (path : AbsolutePathBuf) : Option AbsolutePathBuf :=
  let effectivePath := normalizeEffectiveAbsolutePath env path
  let rawCarveoutPath :=
    if root.parent.isSome then
      if path = root then none
      else if startsWith path root then some path
      else rawWritableRoots.findSome? fun rawRoot =>
        if startsWith path rawRoot ∧ path ≠ rawRoot then
          some (AbsolutePathBuf.join env.home root
            (Text.joinWith '/' (path.parts.drop rawRoot.parts.length)))
        else none
    else none
  rawCarveoutPath.or
    (if effectivePath = root ∨ ¬ startsWith effectivePath root then none else some effectivePath)

def writableEntries : List AbsolutePathBuf :=
  ((policy.resolvedEntriesWithCwd env cwd).filter fun entry =>
    entry.access.canWrite && policy.canWritePathWithCwd env cwd entry.path).map (·.path)

def writableRoot (root : AbsolutePathBuf) : WritableRoot :=
  let resolvedEntries := policy.resolvedEntriesWithCwd env cwd
  let rawWritableRoots := (policy.writableEntries env cwd).filter fun path =>
    normalizeEffectiveAbsolutePath env path = root
  let protectMissingDotCodex := normalizeEffectiveAbsolutePath env cwd = root
  let defaults := (defaultReadOnlySubpathsForWritableRoot env root protectMissingDotCodex).filter
    fun path => !hasExplicitResolvedPathEntry resolvedEntries path
  let carveouts := resolvedEntries.filterMap fun entry =>
    if !entry.access.canWrite && !policy.canWritePathWithCwd env cwd entry.path then
      carveoutPath env root rawWritableRoots entry.path
    else none
  { root
    readOnlySubpaths := dedupAbsolutePaths env (defaults ++ carveouts) false
    protectedMetadataNames :=
      policy.protectedMetadataNamesForWritableRoot env cwd root rawWritableRoots }

def getWritableRootsWithCwd : List WritableRoot :=
  if policy.hasFullDiskWriteAccess then []
  else (dedupAbsolutePaths env (policy.writableEntries env cwd) true).map
    (policy.writableRoot env cwd)

end FileSystemSandboxPolicy

end

namespace WritableRoot

def pathContainsProtectedMetadataName (root : WritableRoot) (path : AbsolutePathBuf) : Bool :=
  match firstComponentBelow root.root path with
  | some firstComponent => root.protectedMetadataNames.any (· = firstComponent)
  | none => false

def isPathWritable (root : WritableRoot) (path : AbsolutePathBuf) : Bool :=
  startsWith path root.root &&
    !(root.readOnlySubpaths.any fun subpath => startsWith path subpath) &&
      !root.pathContainsProtectedMetadataName path

end WritableRoot

end Codewith.Sandbox
