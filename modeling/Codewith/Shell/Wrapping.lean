import Codewith.Shell.DangerousCommand

/-!
# Wrapped commands

A wrapper puts `sudo`, or `env` with assignments, before a command.  Each adds one layer, so a
dangerous command stays dangerous as long as the layers fit.
-/

namespace Codewith.Shell

open Lib

/-- `NAME=VALUE`. -/
structure Assignment where
  word : Text
  isAssignment : isEnvironmentAssignment word = true

inductive Wrapper
  | superuser
  | environment (assignments : List Assignment)

/-- The words that a wrapper puts before the command. -/
def Wrapper.words : Wrapper → List Text
  | superuser => ["sudo".toList]
  | environment assignments => "env".toList :: assignments.map Assignment.word

/-- The command under the wrappers, of which the first is the outermost. -/
def wrapped (wrappers : List Wrapper) (command : List Text) : List Text :=
  wrappers.foldr (fun wrapper inner => wrapper.words ++ inner) command

section Wrapping

variable {tryParseShell : TryParseShell}

theorem parseShellLcLiteralCommands_eq_none {cmd0 key : Text} {args : List Text}
    (hname : fileName cmd0 = some key) (hkey : NamesNoShell key) :
    parseShellLcLiteralCommands tryParseShell (cmd0 :: args) = none := by
  have hextract : extractBashCommand (cmd0 :: args) = none := by
    unfold extractBashCommand
    split
    · rename_i shell flag script heq
      rw [List.cons.injEq] at heq
      rw [← heq.1, detectShellType_of_fileName hname hkey]
      simp
    · rfl
  simp [parseShellLcLiteralCommands, hextract]

/-- A command that is no shell is dangerous by its rule only. -/
theorem key_of_forcedRmAt {cmd0 key : Text} {args : List Text} {layers : Nat}
    (h : ForcedRmAt tryParseShell layers (cmd0 :: args)) (hname : fileName cmd0 = some key)
    (hkey : NamesNoShell key) :
    key ∈ ["rm".toList, "sudo".toList, "env".toList, "trap".toList] := by
  cases h with
  | rm hlookup _ =>
      rw [executableNameLookupKey, hname, Option.some.injEq] at hlookup
      simp [hlookup]
  | underSudo hlookup _ =>
      rw [executableNameLookupKey, hname, Option.some.injEq] at hlookup
      simp [hlookup]
  | underEnv hlookup _ =>
      rw [executableNameLookupKey, hname, Option.some.injEq] at hlookup
      simp [hlookup]
  | underTrap hlookup _ _ =>
      rw [executableNameLookupKey, hname, Option.some.injEq] at hlookup
      simp [hlookup]
  | inScript hscript _ _ =>
      rw [parseShellLcLiteralCommands_eq_none hname hkey] at hscript
      cases hscript

theorem forcedRmAt_sudo_iff {command : List Text} {layers : Nat} :
    ForcedRmAt tryParseShell layers ("sudo".toList :: command) ↔
      ∃ inner, layers = inner + 1 ∧ ForcedRmAt tryParseShell inner command := by
  have hname : executableNameLookupKey "sudo".toList = some "sudo".toList := by decide
  constructor
  · intro h
    cases h with
    | rm hkey _ => exact absurd (hname.symm.trans hkey) (by decide)
    | underSudo _ hinner => exact ⟨_, rfl, hinner⟩
    | underEnv hkey _ => exact absurd (hname.symm.trans hkey) (by decide)
    | underTrap hkey _ _ => exact absurd (hname.symm.trans hkey) (by decide)
    | inScript hscript _ _ =>
        rw [parseShellLcLiteralCommands_eq_none hname (by decide)] at hscript
        cases hscript
  · rintro ⟨inner, rfl, hinner⟩
    exact .underSudo hname hinner

theorem forcedRmAt_env_iff {args : List Text} {layers : Nat} :
    ForcedRmAt tryParseShell layers ("env".toList :: args) ↔
      ∃ inner, layers = inner + 1 ∧ ForcedRmAt tryParseShell inner (skipEnvironment args) := by
  have hname : executableNameLookupKey "env".toList = some "env".toList := by decide
  constructor
  · intro h
    cases h with
    | rm hkey _ => exact absurd (hname.symm.trans hkey) (by decide)
    | underSudo hkey _ => exact absurd (hname.symm.trans hkey) (by decide)
    | underEnv _ hinner => exact ⟨_, rfl, hinner⟩
    | underTrap hkey _ _ => exact absurd (hname.symm.trans hkey) (by decide)
    | inScript hscript _ _ =>
        rw [parseShellLcLiteralCommands_eq_none hname (by decide)] at hscript
        cases hscript
  · rintro ⟨inner, rfl, hinner⟩
    exact .underEnv hname hinner

/-! ### What `env` skips -/

theorem skipEnvironment_assignments (assignments : List Assignment) (command : List Text) :
    skipEnvironment (assignments.map Assignment.word ++ command) = skipEnvironment command := by
  induction assignments with
  | nil => rfl
  | cons assignment assignments ih =>
      have hassignment := assignment.isAssignment
      have hdashes : assignment.word ≠ "--".toList := by
        intro heq
        rw [heq] at hassignment
        exact absurd hassignment (by decide)
      rw [List.map_cons, List.cons_append, skipEnvironment, if_neg hdashes,
        if_pos (.inr (.inr hassignment)), ih]

theorem skipEnvironment_of_head {word : Text} {command : List Text} (hdashes : word ≠ "--".toList)
    (hshort : word ≠ "-i".toList) (hlong : word ≠ "--ignore-environment".toList)
    (hassignment : isEnvironmentAssignment word = false) :
    skipEnvironment (word :: command) = word :: command := by
  rw [skipEnvironment, if_neg hdashes, if_neg]
  rintro (h | h | h)
  · exact hshort h
  · exact hlong h
  · rw [hassignment] at h
    cases h

/-- Nothing of a dangerous command is skipped, except for an assignment. -/
theorem skipEnvironment_of_forcedRmAt {command : List Text} {layers : Nat}
    (h : ForcedRmAt tryParseShell layers command)
    (hassignment : ∀ word ∈ command.head?, isEnvironmentAssignment word = false) :
    skipEnvironment command = command := by
  rcases command with _ | ⟨cmd0, args⟩
  · rfl
  · have hoption : ∀ option ∈ ["--".toList, "-i".toList, "--ignore-environment".toList],
        cmd0 ≠ option := by
      rintro option hmem rfl
      have hspec : ∀ option ∈ ["--".toList, "-i".toList, "--ignore-environment".toList],
          fileName option = some option ∧ NamesNoShell option ∧
            option ∉ ["rm".toList, "sudo".toList, "env".toList, "trap".toList] := by
        decide
      obtain ⟨hname, hkey, hnot⟩ := hspec cmd0 hmem
      exact hnot (key_of_forcedRmAt h hname hkey)
    exact skipEnvironment_of_head (hoption _ (by simp)) (hoption _ (by simp))
      (hoption _ (by simp)) (hassignment cmd0 rfl)

theorem skipEnvironment_wrapped_cons (wrapper : Wrapper) (wrappers : List Wrapper)
    (command : List Text) :
    skipEnvironment (wrapped (wrapper :: wrappers) command) =
      wrapped (wrapper :: wrappers) command := by
  cases wrapper with
  | superuser =>
      apply skipEnvironment_of_head
      all_goals decide
  | environment assignments =>
      apply skipEnvironment_of_head
      all_goals decide

/-- Every wrapper adds one layer, where `env` finds the whole command. -/
theorem forcedRmAt_wrapped_iff {wrappers : List Wrapper} {command : List Text} {layers : Nat}
    (hskip : ∀ assignments, wrappers.getLast? = some (.environment assignments) →
      skipEnvironment command = command) :
    ForcedRmAt tryParseShell layers (wrapped wrappers command) ↔
      ∃ inner, layers = wrappers.length + inner ∧ ForcedRmAt tryParseShell inner command := by
  induction wrappers generalizing layers with
  | nil => simp [wrapped]
  | cons wrapper wrappers ih =>
      have hinner : ∀ layers, ForcedRmAt tryParseShell layers (wrapped wrappers command) ↔
          ∃ inner, layers = wrappers.length + inner ∧ ForcedRmAt tryParseShell inner command := by
        intro layers
        apply ih
        intro assignments hlast
        apply hskip assignments
        rw [List.getLast?_cons, hlast]
        rfl
      have hlength : (∃ outer, layers = outer + 1 ∧
          ForcedRmAt tryParseShell outer (wrapped wrappers command)) ↔
            ∃ inner, layers = (wrapper :: wrappers).length + inner ∧
              ForcedRmAt tryParseShell inner command := by
        rw [List.length_cons]
        constructor
        · rintro ⟨outer, rfl, houter⟩
          obtain ⟨inner, rfl, h⟩ := (hinner outer).mp houter
          exact ⟨inner, by omega, h⟩
        · rintro ⟨inner, rfl, h⟩
          exact ⟨wrappers.length + inner, by omega, (hinner _).mpr ⟨inner, rfl, h⟩⟩
      rw [← hlength]
      cases wrapper with
      | superuser => exact forcedRmAt_sudo_iff
      | environment assignments =>
          have hwhole : skipEnvironment (wrapped wrappers command) = wrapped wrappers command := by
            cases wrappers with
            | nil => exact hskip assignments rfl
            | cons next wrappers => exact skipEnvironment_wrapped_cons next wrappers command
          have hwords : wrapped (.environment assignments :: wrappers) command =
              "env".toList :: (assignments.map Assignment.word ++ wrapped wrappers command) := rfl
          rw [hwords, forcedRmAt_env_iff, skipEnvironment_assignments, hwhole]

/-- A dangerous command stays dangerous under wrappers exactly if the layers of the wrappers and
of the command fit together, unless `env` takes the name of the command for an assignment. -/
theorem isSome_wrapped_iff (wrappers : List Wrapper) {command : List Text}
    (hdangerous : (dangerousCommandMatch tryParseShell command).isSome)
    (hname : ∀ assignments, wrappers.getLast? = some (.environment assignments) →
      ∀ word ∈ command.head?, isEnvironmentAssignment word = false) :
    (dangerousCommandMatch tryParseShell (wrapped wrappers command)).isSome ↔
      ∃ layers, ForcedRmAt tryParseShell layers command ∧
        wrappers.length + layers ≤ maxDangerousCommandWrapperDepth := by
  have hskip : ∀ assignments, wrappers.getLast? = some (.environment assignments) →
      skipEnvironment command = command := by
    intro assignments hlast
    obtain ⟨layers, -, hlayers⟩ := isSome_dangerousCommandMatch_iff.mp hdangerous
    exact skipEnvironment_of_forcedRmAt hlayers (hname assignments hlast)
  rw [isSome_dangerousCommandMatch_iff]
  constructor
  · rintro ⟨outer, hle, houter⟩
    obtain ⟨layers, rfl, hlayers⟩ := (forcedRmAt_wrapped_iff hskip).mp houter
    exact ⟨layers, hlayers, hle⟩
  · rintro ⟨layers, hlayers, hle⟩
    exact ⟨wrappers.length + layers, hle, (forcedRmAt_wrapped_iff hskip).mpr ⟨layers, rfl, hlayers⟩⟩

end Wrapping

def assignmentAB : Assignment := ⟨"A=b".toList, by decide⟩

theorem sudo_env_rm_isSome_iff :
    (dangerousCommandMatch (fun _ => none) (wrapped [.superuser, .environment [assignmentAB]]
        ["rm".toList, "-rf".toList, "/".toList])).isSome ↔
      ∃ layers, ForcedRmAt (fun _ => none) layers ["rm".toList, "-rf".toList, "/".toList] ∧
        [Wrapper.superuser, .environment [assignmentAB]].length + layers ≤
          maxDangerousCommandWrapperDepth :=
  isSome_wrapped_iff [.superuser, .environment [assignmentAB]] (by decide +kernel) (by
    intro assignments _ word hword
    rw [List.head?_cons, Option.mem_some] at hword
    rw [← hword]
    decide)

/-- Nine times `sudo` hides a forced `rm`. -/
theorem wrapping_hides :
    ¬ ∀ (tryParseShell : TryParseShell) (wrappers : List Wrapper) (command : List Text),
        (dangerousCommandMatch tryParseShell command).isSome →
          (dangerousCommandMatch tryParseShell (wrapped wrappers command)).isSome := by
  intro h
  have hnine := h (fun _ => none) (List.replicate 9 .superuser)
    ["rm".toList, "-rf".toList, "/".toList] (by decide +kernel)
  exact absurd hnine (by decide +kernel)

example : (dangerousCommandMatch (fun _ => none) ["a=b/rm".toList, "-f".toList]).isSome ∧
    dangerousCommandMatch (fun _ => none)
      (wrapped [.environment []] ["a=b/rm".toList, "-f".toList]) = none := by
  decide +kernel

end Codewith.Shell
