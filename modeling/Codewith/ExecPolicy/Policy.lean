import Codewith.Path
import Mathlib.Data.List.AList

/-!
# Rules for commands

A policy has prefix rules, keyed by the first token of the commands they are for, and may say
where an executable of the host is to be found.  A command is matched by the rules of its first
token; only if none of them matches, and if it is asked for, a path is looked up under the name
of its executable.

The network rules of a policy are left out: no decision on a command reads them.
-/

namespace Codewith.ExecPolicy

open Lib

/-! ## Rules -/

inductive Decision
  | allow
  | prompt
  | forbidden
  deriving DecidableEq, Repr

namespace Decision

def severity : Decision → Nat
  | allow => 0
  | prompt => 1
  | forbidden => 2

theorem severity_injective : Function.Injective severity := by
  intro a b h
  cases a <;> cases b <;> first | rfl | cases h

instance : LinearOrder Decision := LinearOrder.lift' severity severity_injective

theorem allow_le (decision : Decision) : allow ≤ decision := Nat.zero_le _

end Decision

inductive PatternToken
  | single (expected : Text)
  | alts (alternatives : List Text)
  deriving DecidableEq, Repr

def PatternToken.matches : PatternToken → Text → Bool
  | single expected, token => expected = token
  | alts alternatives, token => alternatives.any (· = token)

/-- The first token is fixed, since rules are keyed by it. -/
structure PrefixPattern where
  first : Text
  rest : List PatternToken
  deriving DecidableEq, Repr

def PrefixPattern.matchesPrefix (pattern : PrefixPattern) (cmd : List Text) : Option (List Text) :=
  if cmd.length < pattern.rest.length + 1 || cmd.head? ≠ some pattern.first then none
  else if (pattern.rest.zip (cmd.drop 1)).all fun (token, word) => token.matches word then
    some (cmd.take (pattern.rest.length + 1))
  else none

inductive RuleMatch
  | prefixRuleMatch (matchedPrefix : List Text) (decision : Decision)
      (resolvedProgram : Option AbsolutePathBuf) (justification : Option Text)
  | heuristicsRuleMatch (command : List Text) (decision : Decision)
  deriving DecidableEq

namespace RuleMatch

def decision : RuleMatch → Decision
  | prefixRuleMatch _ decision _ _ => decision
  | heuristicsRuleMatch _ decision => decision

def withResolvedProgram (resolvedProgram : AbsolutePathBuf) : RuleMatch → RuleMatch
  | prefixRuleMatch matchedPrefix decision _ justification =>
      prefixRuleMatch matchedPrefix decision (some resolvedProgram) justification
  | other => other

def isPolicyMatch : RuleMatch → Bool
  | prefixRuleMatch .. => true
  | heuristicsRuleMatch .. => false

@[simp] theorem decision_withResolvedProgram (program : AbsolutePathBuf) (ruleMatch : RuleMatch) :
    (ruleMatch.withResolvedProgram program).decision = ruleMatch.decision := by
  cases ruleMatch <;> rfl

end RuleMatch

structure PrefixRule where
  pattern : PrefixPattern
  decision : Decision
  justification : Option Text
  deriving DecidableEq, Repr

def PrefixRule.matches (rule : PrefixRule) (cmd : List Text) : Option RuleMatch :=
  (rule.pattern.matchesPrefix cmd).map fun matchedPrefix =>
    .prefixRuleMatch matchedPrefix rule.decision none rule.justification

/-! ## Policies -/

/-- What the paths of programs are resolved against. -/
structure HostContext where
  home : Option PathBuf
  currentDir : Option AbsolutePathBuf

/-- `AbsolutePathBuf::try_from`: a relative path is taken from the current directory. -/
def HostContext.absolutePath (host : HostContext) (path : PathBuf) : Option AbsolutePathBuf :=
  let expanded := AbsolutePathBuf.maybeExpandHomeDirectory host.home path
  if PathBuf.isAbsolute expanded then
    some (AbsolutePathBuf.absolutizeFrom expanded AbsolutePathBuf.root)
  else host.currentDir.map fun dir => AbsolutePathBuf.absolutizeFrom expanded dir

def executablePathLookupKey (path : AbsolutePathBuf) : Option Text := path.parts.getLast?

/-- The rules are a multimap: the entries of one key keep their order. -/
structure Policy where
  rulesByProgram : List (Text × PrefixRule)
  hostExecutablesByName : AList fun _ : Text => List AbsolutePathBuf

structure MatchOptions where
  resolveHostExecutables : Bool := false
  deriving DecidableEq, Repr

structure Evaluation where
  decision : Decision
  matchedRules : List RuleMatch
  deriving DecidableEq

/-- There is a decision as soon as there is a match. -/
def Evaluation.fromMatches (matchedRules : List RuleMatch) : Option Evaluation :=
  (matchedRules.map RuleMatch.decision).max?.map fun decision => ⟨decision, matchedRules⟩

def Evaluation.isMatch (evaluation : Evaluation) : Bool :=
  evaluation.matchedRules.any RuleMatch.isPolicyMatch

namespace Policy

def empty : Policy := ⟨[], ∅⟩

def rulesFor (policy : Policy) (program : Text) : List PrefixRule :=
  (policy.rulesByProgram.filter fun entry => entry.1 = program).map Prod.snd

inductive Error
  | invalidPattern (message : Text)
  deriving DecidableEq, Repr

def addPrefixRule (policy : Policy) (words : List Text) (decision : Decision) :
    Except Error Policy :=
  match words with
  | [] => .error (.invalidPattern "prefix cannot be empty".toList)
  | first :: rest =>
      let rule : PrefixRule := ⟨⟨first, rest.map .single⟩, decision, none⟩
      .ok { policy with rulesByProgram := policy.rulesByProgram ++ [(first, rule)] }

/-- The rules of both; where an executable is to be found, the overlay says last. -/
def mergeOverlay (policy overlay : Policy) : Policy where
  rulesByProgram := policy.rulesByProgram ++ overlay.rulesByProgram
  hostExecutablesByName := overlay.hostExecutablesByName ∪ policy.hostExecutablesByName

def matchExactRules (policy : Policy) (cmd : List Text) : Option (List RuleMatch) :=
  cmd.head?.map fun first => (policy.rulesFor first).filterMap fun rule => rule.matches cmd

/-- The program of a command and the name that its rules are looked up under. -/
def hostProgram (host : HostContext) (cmd : List Text) : Option (AbsolutePathBuf × Text) := do
  let first ← cmd.head?
  let program ← host.absolutePath first
  let basename ← executablePathLookupKey program
  pure (program, basename)

/-- Where the paths of an executable are listed, others are not looked up. -/
def listsProgram (policy : Policy) (program : AbsolutePathBuf) (basename : Text) : Bool :=
  match policy.hostExecutablesByName.lookup basename with
  | some paths => paths.any (· = program)
  | none => true

def matchBasenameRules (policy : Policy) (program : AbsolutePathBuf) (basename : Text)
    (cmd : List Text) : List RuleMatch :=
  ((policy.rulesFor basename).filterMap fun rule => rule.matches (basename :: cmd.drop 1)).map
    (RuleMatch.withResolvedProgram program)

def matchHostExecutableRules (policy : Policy) (host : HostContext) (cmd : List Text) :
    List RuleMatch :=
  match hostProgram host cmd with
  | none => []
  | some (program, basename) =>
      if policy.listsProgram program basename then policy.matchBasenameRules program basename cmd
      else []

def exactMatches (policy : Policy) (cmd : List Text) : List RuleMatch :=
  (policy.matchExactRules cmd).getD []

/-- The matches by rules: the exact ones if there are any, else those of the executable. -/
def ruleMatches (policy : Policy) (host : HostContext) (options : MatchOptions) (cmd : List Text) :
    List RuleMatch :=
  if policy.exactMatches cmd ≠ [] then policy.exactMatches cmd
  else if options.resolveHostExecutables then policy.matchHostExecutableRules host cmd
  else []

def matchesForCommandWithOptions (policy : Policy) (host : HostContext) (cmd : List Text)
    (heuristicsFallback : Option (List Text → Decision)) (options : MatchOptions) :
    List RuleMatch :=
  let matchedRules := policy.ruleMatches host options cmd
  match heuristicsFallback with
  | some heuristics =>
      if matchedRules = [] then [.heuristicsRuleMatch cmd (heuristics cmd)] else matchedRules
  | none => matchedRules

def checkMultipleWithOptions (policy : Policy) (host : HostContext) (commands : List (List Text))
    (heuristicsFallback : List Text → Decision) (options : MatchOptions) : Option Evaluation :=
  Evaluation.fromMatches (commands.flatMap fun cmd =>
    policy.matchesForCommandWithOptions host cmd (some heuristicsFallback) options)

def checkWithOptions (policy : Policy) (host : HostContext) (cmd : List Text)
    (heuristicsFallback : List Text → Decision) (options : MatchOptions) : Option Evaluation :=
  Evaluation.fromMatches
    (policy.matchesForCommandWithOptions host cmd (some heuristicsFallback) options)

end Policy

end Codewith.ExecPolicy
