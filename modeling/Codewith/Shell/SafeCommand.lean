import Codewith.Shell.Syntax

/-!
# Commands that need no approval

`isKnownSafeCommand` accepts a command that only reads, either directly or as a shell script of
such commands.  The lists are those of a target that is not Windows.
-/

namespace Codewith.Shell

open Lib

/-- On Unix the file name is the key. -/
def executableNameLookupKey (raw : Text) : Option Text := fileName raw

def isGitGlobalOptionWithValue (arg : Text) : Bool :=
  arg ∈ ["-C".toList, "-c".toList, "--config-env".toList, "--exec-path".toList,
    "--git-dir".toList, "--namespace".toList, "--super-prefix".toList, "--work-tree".toList]

def isGitGlobalOptionWithInlineValue (arg : Text) : Bool :=
  (["--config-env=".toList, "--exec-path=".toList, "--git-dir=".toList, "--namespace=".toList,
      "--super-prefix=".toList, "--work-tree=".toList].any fun option => option.isPrefixOf arg) ||
    ("-C".toList.isPrefixOf arg || "-c".toList.isPrefixOf arg) && 2 < arg.length

/-- The arguments after the name of the command, from the given index on. -/
def findGitSubcommandFrom (subcommands : List Text) : Nat → List Text → Option (Nat × Text)
  | _, [] => none
  | idx, arg :: args =>
      if isGitGlobalOptionWithInlineValue arg then findGitSubcommandFrom subcommands (idx + 1) args
      else if isGitGlobalOptionWithValue arg then
        match args with
        | [] => none
        | _ :: args => findGitSubcommandFrom subcommands (idx + 2) args
      else if arg = "--".toList ∨ "-".toList.isPrefixOf arg then
        findGitSubcommandFrom subcommands (idx + 1) args
      else if arg ∈ subcommands then some (idx, arg)
      else none

def findGitSubcommand (command : List Text) (subcommands : List Text) : Option (Nat × Text) :=
  match command with
  | [] => none
  | cmd0 :: args =>
      if executableNameLookupKey cmd0 ≠ some "git".toList then none
      else findGitSubcommandFrom subcommands 1 args

inductive GitOptionPattern
  | exact (option : Text)
  | shortWithInlineValue (option : Text)
  | startsWith (start : Text)
  deriving DecidableEq, Repr

def unsafeGitGlobalOptions : List GitOptionPattern :=
  [.exact "-C".toList, .shortWithInlineValue "-C".toList, .exact "-c".toList,
    .shortWithInlineValue "-c".toList, .exact "-p".toList, .exact "--config-env".toList,
    .startsWith "--config-env=".toList, .exact "--exec-path".toList,
    .startsWith "--exec-path=".toList, .exact "--git-dir".toList, .startsWith "--git-dir=".toList,
    .exact "--namespace".toList, .startsWith "--namespace=".toList, .exact "--paginate".toList,
    .exact "--super-prefix".toList, .startsWith "--super-prefix=".toList,
    .exact "--work-tree".toList, .startsWith "--work-tree=".toList]

def unsafeGitSubcommandOptions : List GitOptionPattern :=
  [.exact "--output".toList, .startsWith "--output=".toList, .exact "--ext-diff".toList,
    .exact "--textconv".toList, .exact "--exec".toList, .startsWith "--exec=".toList]

def GitOptionPattern.matches (arg : Text) : GitOptionPattern → Bool
  | exact option => arg = option
  | shortWithInlineValue option => option.isPrefixOf arg && option.length < arg.length
  | startsWith start => start.isPrefixOf arg

def gitMatchesOptionPattern (arg : Text) (patterns : List GitOptionPattern) : Bool :=
  patterns.any (GitOptionPattern.matches arg)

def gitHasUnsafeGlobalOption (globalArgs : List Text) : Bool :=
  globalArgs.any fun arg => gitMatchesOptionPattern arg unsafeGitGlobalOptions

def gitSubcommandArgsAreReadOnly (args : List Text) : Bool :=
  !args.any fun arg => gitMatchesOptionPattern arg unsafeGitSubcommandOptions

def readOnlyBranchFlags : List Text :=
  ["--list".toList, "-l".toList, "--show-current".toList, "-a".toList, "--all".toList,
    "-r".toList, "--remotes".toList, "-v".toList, "-vv".toList, "--verbose".toList]

/-- Without arguments the branches are listed; otherwise every argument has to be a flag that
only reads. -/
def gitBranchIsReadOnly (branchArgs : List Text) : Bool :=
  branchArgs.all fun arg => arg ∈ readOnlyBranchFlags || "--format=".toList.isPrefixOf arg

def isSafeGitCommand (command : List Text) : Bool :=
  match findGitSubcommand command
      ["status".toList, "log".toList, "diff".toList, "show".toList, "branch".toList] with
  | none => false
  | some (idx, subcommand) =>
      let subcommandArgs := command.drop (idx + 1)
      if gitHasUnsafeGlobalOption ((command.take idx).drop 1) then false
      else if subcommand = "branch".toList then
        gitSubcommandArgsAreReadOnly subcommandArgs && gitBranchIsReadOnly subcommandArgs
      else gitSubcommandArgsAreReadOnly subcommandArgs

def isNumber (s : Text) : Bool := s ≠ [] && s.all fun c => '0' ≤ c && c ≤ '9'

/-- A line number or two, and a `p`. -/
def isValidSedNArg (arg : Option Text) : Bool :=
  match arg.bind (Text.stripSuffixChar 'p') with
  | none => false
  | some core =>
      match Text.split ',' core with
      | [number] => isNumber number
      | [first, last] => isNumber first && isNumber last
      | _ => false

/-- The commands that are safe with any arguments. -/
def alwaysSafeCommands : List Text :=
  ["cat".toList, "cd".toList, "cut".toList, "echo".toList, "expr".toList, "false".toList,
    "grep".toList, "head".toList, "id".toList, "ls".toList, "nl".toList, "paste".toList,
    "pwd".toList, "rev".toList, "seq".toList, "stat".toList, "tail".toList, "tr".toList,
    "true".toList, "uname".toList, "uniq".toList, "wc".toList, "which".toList, "whoami".toList]

def unsafeFindOptions : List Text :=
  ["-exec".toList, "-execdir".toList, "-ok".toList, "-okdir".toList, "-delete".toList,
    "-fls".toList, "-fprint".toList, "-fprint0".toList, "-fprintf".toList]

def isUnsafeBase64Arg (arg : Text) : Bool :=
  arg = "-o".toList || arg = "--output".toList || "--output=".toList.isPrefixOf arg ||
    "-o".toList.isPrefixOf arg && arg ≠ "-o".toList

def isUnsafeRipgrepArg (arg : Text) : Bool :=
  arg = "--search-zip".toList || arg = "-z".toList ||
    ["--pre".toList, "--hostname-bin".toList].any fun option =>
      arg = option || (option ++ ['=']).isPrefixOf arg

/-- Whether a command that is run as it stands only reads. -/
def isSafeToCallWithExec (targetIsLinux : Bool) (command : List Text) : Bool :=
  match command.head?.bind executableNameLookupKey with
  | none => false
  | some cmd =>
      if targetIsLinux ∧ (cmd = "numfmt".toList ∨ cmd = "tac".toList) then true
      else if cmd ∈ alwaysSafeCommands then true
      else if cmd = "base64".toList then !(command.drop 1).any isUnsafeBase64Arg
      else if cmd = "find".toList then !command.any fun arg => arg ∈ unsafeFindOptions
      else if cmd = "rg".toList then !command.any isUnsafeRipgrepArg
      else if cmd = "git".toList then isSafeGitCommand command
      else if cmd = "sed".toList then
        command.length ≤ 4 && command[1]? = some "-n".toList && isValidSedNArg command[2]?
      else false

def isKnownSafeCommand (tryParseShell : TryParseShell) (targetIsLinux : Bool)
    (command : List Text) : Bool :=
  let command := command.map fun s => if s = "zsh".toList then "bash".toList else s
  isSafeToCallWithExec targetIsLinux command ||
    match parseShellLcPlainCommands tryParseShell command with
    | some allCommands =>
        !allCommands.isEmpty && allCommands.all (isSafeToCallWithExec targetIsLinux)
    | none => false

end Codewith.Shell
