import Codewith.Path

/-!
# Plain commands of a shell script

`tryParseWordOnlyCommandsSequence` walks the syntax tree of a script.  It accepts a tree that
has only plain commands, joined by safe operators, and returns the arguments of each command.
The arguments are copied from the source text: of a word everything, of a quoted string what
stands between its quotes.
-/

namespace Codewith.Shell

open Lib

/-- The kinds of nodes that are told apart, all named except for tokens. -/
inductive NodeKind
  | program
  | list
  | pipeline
  | command
  | commandName
  | word
  | string
  | stringContent
  | rawString
  | number
  | concatenation
  | otherNamed (name : Text)
  | token (text : Text)
  deriving DecidableEq, Repr

/-- A node with the span of its source text, counted in characters. -/
inductive Node
  | mk (kind : NodeKind) (startByte endByte : Nat) (children : List Node)

structure Tree where
  root : Node
  hasError : Bool

namespace Node

def kind : Node → NodeKind
  | mk kind _ _ _ => kind

def startByte : Node → Nat
  | mk _ startByte _ _ => startByte

def endByte : Node → Nat
  | mk _ _ endByte _ => endByte

def children : Node → List Node
  | mk _ _ _ children => children

def isNamed (node : Node) : Bool :=
  match node.kind with
  | .token _ => false
  | _ => true

def namedChildren (node : Node) : List Node := node.children.filter isNamed

def utf8Text (src : Text) (node : Node) : Text :=
  (src.drop node.startByte).take (node.endByte - node.startByte)

mutual

/-- The node and all nodes below it. -/
def descendants : Node → List Node
  | mk kind startByte endByte children =>
      mk kind startByte endByte children :: descendantsOf children

def descendantsOf : List Node → List Node
  | [] => []
  | node :: nodes => descendants node ++ descendantsOf nodes

end

end Node

def allowedPunctTokens : List Text :=
  ["&&".toList, "||".toList, ";".toList, "|".toList, "\"".toList, "'".toList]

/-- Whether a node may be part of a script of plain commands. -/
def isAllowedNode (node : Node) : Bool :=
  match node.kind with
  | .otherNamed _ => false
  | .token kind =>
      !(kind.any (fun c => c ∈ "&;|".toList) && !(kind ∈ allowedPunctTokens)) &&
        (kind ∈ allowedPunctTokens || Text.trim kind = [])
  | _ => true

/-- The walk over a stack of nodes.  Every node of the tree is popped once, so the rounds are
bounded by their number. -/
def collectCommands : Nat → List Node → List Node → Option (List Node)
  | _, [], found => some found
  | 0, _ :: _, _ => none
  | rounds + 1, node :: stack, found =>
      if isAllowedNode node then
        collectCommands rounds (node.children.reverse ++ stack)
          (if node.kind = .command then found ++ [node] else found)
      else none

def parseDoubleQuotedString (src : Text) (node : Node) : Option Text :=
  if node.kind ≠ .string then none
  else if node.namedChildren.any fun part => part.kind ≠ .stringContent then none
  else (Text.stripPrefix ['"'] (node.utf8Text src)).bind (Text.stripSuffixChar '"')

def parseRawString (src : Text) (node : Node) : Option Text :=
  if node.kind ≠ .rawString then none
  else (Text.stripPrefix ['\''] (node.utf8Text src)).bind (Text.stripSuffixChar '\'')

/-- One part of a concatenation. -/
def parsePart (src : Text) (part : Node) : Option Text :=
  match part.kind with
  | .word | .number => some (part.utf8Text src)
  | .string => parseDoubleQuotedString src part
  | .rawString => parseRawString src part
  | _ => none

def parseConcatenation (src : Text) (node : Node) : Option Text := do
  let parts ← node.namedChildren.mapM (parsePart src)
  if parts.flatten = [] then none else some parts.flatten

def parseArgument (src : Text) (child : Node) : Option Text :=
  match child.kind with
  | .commandName => do
      let word ← child.namedChildren.head?
      if word.kind ≠ .word then none else some (word.utf8Text src)
  | .word | .number => some (child.utf8Text src)
  | .string => parseDoubleQuotedString src child
  | .rawString => parseRawString src child
  | .concatenation => parseConcatenation src child
  | _ => none

def parsePlainCommandFromNode (src : Text) (command : Node) : Option (List Text) :=
  if command.kind ≠ .command then none else command.namedChildren.mapM (parseArgument src)

/-- The nodes of the commands in the order of the source. -/
def commandNodes (tree : Tree) : Option (List Node) := do
  let found ← collectCommands tree.root.descendants.length [tree.root] []
  some (found.mergeSort fun a b => a.startByte ≤ b.startByte)

def tryParseWordOnlyCommandsSequence (tree : Tree) (src : Text) : Option (List (List Text)) :=
  if tree.hasError then none
  else (commandNodes tree).bind fun nodes => nodes.mapM (parsePlainCommandFromNode src)

/-! ### Shells -/

inductive ShellType
  | zsh
  | bash
  | powerShell
  | sh
  | cmd
  deriving DecidableEq, Repr

/-- The last component, if it names an entry. -/
def fileName (path : PathBuf) : Option Text :=
  match (PathBuf.comparedComponents path).getLast? with
  | some name => if name = ".".toList ∨ name = "..".toList then none else some name
  | none => none

/-- What stands before the last dot of a name, if anything does. -/
def stemOf (name : Text) : Text :=
  let stem := (name.rdropWhile (· ≠ '.')).dropLast
  if stem = [] then name else stem

def fileStem (path : PathBuf) : Option Text := (fileName path).map stemOf

def shellTypeOfName (name : PathBuf) : Option ShellType :=
  if name = "zsh".toList then some .zsh
  else if name = "sh".toList then some .sh
  else if name = "cmd".toList then some .cmd
  else if name = "bash".toList then some .bash
  else if name = "pwsh".toList then some .powerShell
  else if name = "powershell".toList then some .powerShell
  else none

/-- A stem that is another path is shorter, so the rounds are bounded by the length. -/
def detectShellTypeWithin : Nat → PathBuf → Option ShellType
  | 0, path => shellTypeOfName path
  | rounds + 1, path =>
      match shellTypeOfName path with
      | some shellType => some shellType
      | none =>
          match fileStem path with
          | some shellName =>
              if PathBuf.sameComponents shellName path then none
              else detectShellTypeWithin rounds shellName
          | none => none

def detectShellType (path : PathBuf) : Option ShellType := detectShellTypeWithin path.length path

def extractBashCommand (command : List Text) : Option (Text × Text) :=
  match command with
  | [shell, flag, script] =>
      if (flag = "-lc".toList ∨ flag = "-c".toList) ∧
          (detectShellType shell = some .zsh ∨ detectShellType shell = some .bash ∨
            detectShellType shell = some .sh) then some (shell, script)
      else none
  | _ => none

/-- The parser of the shell grammar is not part of the repository. -/
abbrev TryParseShell := Text → Option Tree

def parseShellLcPlainCommands (tryParseShell : TryParseShell) (command : List Text) :
    Option (List (List Text)) := do
  let (_, script) ← extractBashCommand command
  let tree ← tryParseShell script
  tryParseWordOnlyCommandsSequence tree script

end Codewith.Shell
