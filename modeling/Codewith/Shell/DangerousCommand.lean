import Codewith.Shell.QuoteRemoval

/-!
# Dangerous commands

`dangerousCommandMatch` looks for a forced `rm`, also under `sudo`, `env` and `trap` and in the
literal commands of shell scripts.  The rules are those of a target that is not Windows.
-/

namespace Codewith.Shell

open Lib

/-! ### The literal commands of a script -/

mutual

/-- The text of a word without expansions. -/
def parseLiteralShellWord (src : Text) : Node → Option Text
  | .mk kind startByte endByte children =>
      match kind with
      | .word | .number =>
          if (children.filter Node.isNamed).isEmpty then
            some ((Node.mk kind startByte endByte children).utf8Text src)
          else none
      | .string => parseDoubleQuotedString src (.mk kind startByte endByte children)
      | .rawString => parseRawString src (.mk kind startByte endByte children)
      | .concatenation => do
          let concatenated ← parseLiteralParts src children
          if concatenated = [] then none else some concatenated
      | _ => none

/-- The texts of the named parts of a concatenation, one after the other. -/
def parseLiteralParts (src : Text) : List Node → Option Text
  | [] => some []
  | part :: parts =>
      if part.isNamed then do
        let text ← parseLiteralShellWord src part
        let rest ← parseLiteralParts src parts
        some (text ++ rest)
      else parseLiteralParts src parts

end

/-- The loop over the named children of a command.  A word that is not literal is left out, but
without a literal name there is no command. -/
def collectLiteralWords (src : Text) : List Node → Bool → List Text → Option (List Text)
  | [], foundCommandName, words => if foundCommandName then some words else none
  | child :: children, foundCommandName, words =>
      if child.kind = .commandName then do
        let name ← child.namedChildren.head?
        let commandName ← parseLiteralShellWord src name
        collectLiteralWords src children true (words ++ [commandName])
      else if foundCommandName then
        match parseLiteralShellWord src child with
        | some word => collectLiteralWords src children true (words ++ [word])
        | none => collectLiteralWords src children true words
      else collectLiteralWords src children false words

def parseLiteralCommandFromNode (src : Text) (command : Node) : Option (List Text) :=
  if command.kind ≠ .command then none
  else collectLiteralWords src command.namedChildren false []

/-- The walk over a stack of nodes.  Every node of the tree is popped at most once, so the
rounds are bounded by their number. -/
def collectLiteralCommands (src : Text) : Nat → List Node → List (List Text) → List (List Text)
  | _, [], commands => commands
  | 0, _ :: _, commands => commands
  | rounds + 1, node :: stack, commands =>
      collectLiteralCommands src rounds (node.namedChildren.reverse ++ stack)
        (commands ++ (parseLiteralCommandFromNode src node).toList)

def parseShellLcLiteralCommands (tryParseShell : TryParseShell) (command : List Text) :
    Option (List (List Text)) := do
  let (_, script) ← extractBashCommand command
  let tree ← tryParseShell script
  if tree.hasError then none
  else some (collectLiteralCommands script tree.root.descendants.length [tree.root] [])

/-! ### The rules -/

inductive DangerousCommandMatch
  | forcedRm
  | other
  deriving DecidableEq, Repr

def maxDangerousCommandWrapperDepth : Nat := 8

def rmArgsIncludeForceOption (args : List Text) : Bool :=
  (args.takeWhile (· ≠ "--".toList)).any fun arg =>
    arg = "--force".toList ||
      match Text.stripPrefix ['-'] arg with
      | some flags => flags.head? ≠ some '-' && flags.contains 'f'
      | none => false

/-- Whether an argument of `env` sets a variable: `NAME=VALUE`, where the name is not empty and
does not begin with a dash. -/
def isEnvironmentAssignment (argument : Text) : Bool :=
  let name := argument.takeWhile (· ≠ '=')
  argument.contains '=' && name ≠ [] && name.head? ≠ some '-'

/-- What follows the options and assignments of `env`. -/
def skipEnvironment : List Text → List Text
  | [] => []
  | argument :: arguments =>
      if argument = "--".toList then arguments
      else if argument = "-i".toList ∨ argument = "--ignore-environment".toList ∨
          isEnvironmentAssignment argument = true then skipEnvironment arguments
      else argument :: arguments

/-- The shell source that `trap` runs later. -/
def trapAction (arguments : List Text) : Option Text :=
  let operands := if arguments.head? = some "--".toList then arguments.drop 1 else arguments
  operands.head?.filter fun action => action.head? ≠ some '-'

section Matching

variable (tryParseShell : TryParseShell)

/-- The rules for a command that is run as it stands.  The commands inside it are looked at one
level deeper. -/
def dangerousCommandMatchForExec (matchDeeper : List Text → Option DangerousCommandMatch) :
    List Text → Option DangerousCommandMatch
  | [] => none
  | cmd0 :: args =>
      match executableNameLookupKey cmd0 with
      | none => none
      | some key =>
          if key = "rm".toList ∧ rmArgsIncludeForceOption args = true then some .forcedRm
          else if key = "sudo".toList then matchDeeper args
          else if key = "env".toList then matchDeeper (skipEnvironment args)
          else if key = "trap".toList then
            (trapAction args).bind fun action => matchDeeper ["sh".toList, "-c".toList, action]
          else none

/-- The match of a command for which so many levels are left. -/
def dangerousCommandMatchWithin : Nat → List Text → Option DangerousCommandMatch
  | 0 => fun _ => none
  | levels + 1 => fun command =>
      match dangerousCommandMatchForExec (dangerousCommandMatchWithin levels) command with
      | some dangerousMatch => some dangerousMatch
      | none =>
          (parseShellLcLiteralCommands tryParseShell command).bind fun commands =>
            commands.findSome? (dangerousCommandMatchWithin levels)

/-- At a depth beyond the greatest one nothing is looked at. -/
def dangerousCommandMatchWithDepth (command : List Text) (wrapperDepth : Nat) :
    Option DangerousCommandMatch :=
  dangerousCommandMatchWithin tryParseShell (maxDangerousCommandWrapperDepth + 1 - wrapperDepth)
    command

def dangerousCommandMatch (command : List Text) : Option DangerousCommandMatch :=
  dangerousCommandMatchWithDepth tryParseShell command 0

end Matching

/-! ### Layers -/

/-- A forced `rm` under so many layers of wrappers and scripts. -/
inductive ForcedRmAt (tryParseShell : TryParseShell) : Nat → List Text → Prop
  | rm {cmd0 : Text} {args : List Text} (hkey : executableNameLookupKey cmd0 = some "rm".toList)
      (hforce : rmArgsIncludeForceOption args = true) : ForcedRmAt tryParseShell 0 (cmd0 :: args)
  | underSudo {cmd0 : Text} {args : List Text} {layers : Nat}
      (hkey : executableNameLookupKey cmd0 = some "sudo".toList)
      (hinner : ForcedRmAt tryParseShell layers args) :
      ForcedRmAt tryParseShell (layers + 1) (cmd0 :: args)
  | underEnv {cmd0 : Text} {args : List Text} {layers : Nat}
      (hkey : executableNameLookupKey cmd0 = some "env".toList)
      (hinner : ForcedRmAt tryParseShell layers (skipEnvironment args)) :
      ForcedRmAt tryParseShell (layers + 1) (cmd0 :: args)
  | underTrap {cmd0 action : Text} {args : List Text} {layers : Nat}
      (hkey : executableNameLookupKey cmd0 = some "trap".toList)
      (haction : trapAction args = some action)
      (hinner : ForcedRmAt tryParseShell layers ["sh".toList, "-c".toList, action]) :
      ForcedRmAt tryParseShell (layers + 1) (cmd0 :: args)
  | inScript {command inner : List Text} {commands : List (List Text)} {layers : Nat}
      (hscript : parseShellLcLiteralCommands tryParseShell command = some commands)
      (hmem : inner ∈ commands) (hinner : ForcedRmAt tryParseShell layers inner) :
      ForcedRmAt tryParseShell (layers + 1) command

section Layers

variable {tryParseShell : TryParseShell} {matchDeeper : List Text → Option DangerousCommandMatch}

/-- Every rule that can match. -/
theorem isSome_matchForExec_cons {cmd0 : Text} {args : List Text} :
    (dangerousCommandMatchForExec matchDeeper (cmd0 :: args)).isSome ↔
      (executableNameLookupKey cmd0 = some "rm".toList ∧ rmArgsIncludeForceOption args = true) ∨
        (executableNameLookupKey cmd0 = some "sudo".toList ∧ (matchDeeper args).isSome) ∨
        (executableNameLookupKey cmd0 = some "env".toList ∧
          (matchDeeper (skipEnvironment args)).isSome) ∨
        (executableNameLookupKey cmd0 = some "trap".toList ∧ ∃ action,
          trapAction args = some action ∧
            (matchDeeper ["sh".toList, "-c".toList, action]).isSome) := by
  rcases hkey : executableNameLookupKey cmd0 with _ | key
  · simp [dangerousCommandMatchForExec, hkey]
  · simp only [dangerousCommandMatchForExec, hkey, Option.some.injEq]
    split_ifs with hrm hsudo henv htrap
    · simp [hrm]
    · simp [hsudo]
    · simp [henv]
    · rcases trapAction args with _ | action
      · simp [htrap]
      · simp [htrap]
    · simp only [hrm, hsudo, henv, htrap, false_and, or_false, Option.isSome_none,
        Bool.false_eq_true]

theorem isSome_matchWithin_succ {levels : Nat} {command : List Text} :
    (dangerousCommandMatchWithin tryParseShell (levels + 1) command).isSome ↔
      (dangerousCommandMatchForExec (dangerousCommandMatchWithin tryParseShell levels)
          command).isSome ∨
        ∃ commands, parseShellLcLiteralCommands tryParseShell command = some commands ∧
          ∃ inner ∈ commands, (dangerousCommandMatchWithin tryParseShell levels inner).isSome := by
  simp only [dangerousCommandMatchWithin]
  rcases dangerousCommandMatchForExec (dangerousCommandMatchWithin tryParseShell levels) command
    with _ | dangerousMatch
  · rcases parseShellLcLiteralCommands tryParseShell command with _ | commands
    · simp
    · simp [List.findSome?_isSome_iff]
  · simp

/-- With so many levels left, a command matches exactly if a forced `rm` is under fewer
layers. -/
theorem isSome_matchWithin_iff {levels : Nat} {command : List Text} :
    (dangerousCommandMatchWithin tryParseShell levels command).isSome ↔
      ∃ layers < levels, ForcedRmAt tryParseShell layers command := by
  induction levels generalizing command with
  | zero => simp [dangerousCommandMatchWithin]
  | succ levels ih =>
      rw [isSome_matchWithin_succ]
      constructor
      · rintro (hexec | ⟨commands, hscript, inner, hmem, hinner⟩)
        · rcases command with _ | ⟨cmd0, args⟩
          · simp [dangerousCommandMatchForExec] at hexec
          · rcases isSome_matchForExec_cons.mp hexec with
              ⟨hkey, hforce⟩ | ⟨hkey, hinner⟩ | ⟨hkey, hinner⟩ | ⟨hkey, action, haction, hinner⟩
            · exact ⟨0, Nat.succ_pos levels, .rm hkey hforce⟩
            · obtain ⟨layers, hlayers, hinner⟩ := ih.mp hinner
              exact ⟨layers + 1, Nat.succ_lt_succ hlayers, .underSudo hkey hinner⟩
            · obtain ⟨layers, hlayers, hinner⟩ := ih.mp hinner
              exact ⟨layers + 1, Nat.succ_lt_succ hlayers, .underEnv hkey hinner⟩
            · obtain ⟨layers, hlayers, hinner⟩ := ih.mp hinner
              exact ⟨layers + 1, Nat.succ_lt_succ hlayers, .underTrap hkey haction hinner⟩
        · obtain ⟨layers, hlayers, hinner⟩ := ih.mp hinner
          exact ⟨layers + 1, Nat.succ_lt_succ hlayers, .inScript hscript hmem hinner⟩
      · rintro ⟨layers, hlayers, h⟩
        cases h with
        | rm hkey hforce => exact .inl (isSome_matchForExec_cons.mpr (.inl ⟨hkey, hforce⟩))
        | underSudo hkey hinner =>
            have hsome := ih.mpr ⟨_, Nat.lt_of_succ_lt_succ hlayers, hinner⟩
            exact .inl (isSome_matchForExec_cons.mpr (.inr (.inl ⟨hkey, hsome⟩)))
        | underEnv hkey hinner =>
            have hsome := ih.mpr ⟨_, Nat.lt_of_succ_lt_succ hlayers, hinner⟩
            exact .inl (isSome_matchForExec_cons.mpr (.inr (.inr (.inl ⟨hkey, hsome⟩))))
        | underTrap hkey haction hinner =>
            have hsome := ih.mpr ⟨_, Nat.lt_of_succ_lt_succ hlayers, hinner⟩
            exact .inl (isSome_matchForExec_cons.mpr
              (.inr (.inr (.inr ⟨hkey, _, haction, hsome⟩))))
        | inScript hscript hmem hinner =>
            have hsome := ih.mpr ⟨_, Nat.lt_of_succ_lt_succ hlayers, hinner⟩
            exact .inr ⟨_, hscript, _, hmem, hsome⟩

theorem isSome_dangerousCommandMatch_iff {command : List Text} :
    (dangerousCommandMatch tryParseShell command).isSome ↔
      ∃ layers ≤ maxDangerousCommandWrapperDepth, ForcedRmAt tryParseShell layers command := by
  rw [dangerousCommandMatch, dangerousCommandMatchWithDepth, isSome_matchWithin_iff]
  simp only [Nat.sub_zero, Nat.lt_succ_iff]

end Layers

end Codewith.Shell
