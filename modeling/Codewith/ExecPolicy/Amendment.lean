import Codewith.ExecPolicy.Strictness

/-!
# Amendments of a policy

An amendment is a prefix that is allowed from now on.  It is appended to the rules file, and the
policy in memory is updated unless it allows the amendment already.
-/

namespace Codewith.ExecPolicy

open Lib

/-! ## The rules file and the policy in memory -/

inductive AmendError
  | emptyPrefix
  | file (message : Text)
  deriving DecidableEq, Repr

inductive ExecPolicyUpdateError
  | appendRule (source : AmendError)
  | addRule (source : Policy.Error)
  | blockingTask (message : Text)
  deriving DecidableEq, Repr

structure ExecPolicyManager where
  policy : Policy
  /-- The contents of the rules file. -/
  rulesFile : Text

/-- A line that is there already is not appended again. -/
def appendLockedLine (contents line : Text) : Text :=
  if line ∈ Text.lines contents then contents
  else
    (if contents ≠ [] ∧ contents.getLast? ≠ some '\n' then contents ++ ['\n'] else contents) ++
      line ++ ['\n']

section

variable (toJson : Text → Text)

def allowPrefixRuleLine (words : List Text) : Text :=
  "prefix_rule(pattern=[".toList ++ ", ".toList.intercalate (words.map toJson) ++
    "], decision=\"allow\")".toList

def appendAllowPrefixRule (contents : Text) (words : List Text) : Except AmendError Text :=
  if words = [] then .error .emptyPrefix
  else .ok (appendLockedLine contents (allowPrefixRuleLine toJson words))

/-- The probe: what the policy says to the amendment itself, with executables looked up. -/
def alreadyAllowed (host : HostContext) (policy : Policy) (command : List Text) : Bool :=
  match policy.checkMultipleWithOptions host [command] (fun _ => .forbidden) ⟨true⟩ with
  | some evaluation =>
      evaluation.decision = .allow && evaluation.matchedRules.any fun ruleMatch =>
        ruleMatch.isPolicyMatch && ruleMatch.decision = .allow
  | none => false

/-- `io` is what the update lock, the blocking task and the file system answer. -/
def ExecPolicyManager.appendAmendmentAndUpdate (host : HostContext)
    (io : Except ExecPolicyUpdateError Unit) (manager : ExecPolicyManager) (command : List Text) :
    Except ExecPolicyUpdateError Unit × ExecPolicyManager :=
  match io, appendAllowPrefixRule toJson manager.rulesFile command with
  | .error error, _ => (.error error, manager)
  | .ok (), .error error => (.error (.appendRule error), manager)
  | .ok (), .ok rulesFile =>
      if alreadyAllowed host manager.policy command then (.ok (), { manager with rulesFile })
      else
        match manager.policy.addPrefixRule command .allow with
        | .error error => (.error (.addRule error), { manager with rulesFile })
        | .ok policy => (.ok (), ⟨policy, rulesFile⟩)

end

/-! ## Decisions -/

namespace Policy

def decision (policy : Policy) (host : HostContext) (options : MatchOptions)
    (heuristics : List Text → Decision) (cmd : List Text) : Option Decision :=
  (policy.checkWithOptions host cmd heuristics options).map Evaluation.decision

section Decisions

variable {policy policy' : Policy} {host : HostContext} {options : MatchOptions}
  {heuristics : List Text → Decision} {cmd words : List Text}

/-- Matches that allow add nothing to others. -/
theorem decision_fromMatches_append {matches' extra : List RuleMatch} (hne : matches' ≠ [])
    (hallow : ∀ m ∈ extra, m.decision = .allow) :
    (Evaluation.fromMatches (matches' ++ extra)).map Evaluation.decision =
      (Evaluation.fromMatches matches').map Evaluation.decision := by
  obtain ⟨evaluation, heq⟩ := exists_fromMatches hne
  obtain ⟨-, ⟨m, hm, hdecision⟩, hle⟩ := fromMatches_eq_some_iff.mp heq
  have hmore : Evaluation.fromMatches (matches' ++ extra) =
      some ⟨evaluation.decision, matches' ++ extra⟩ := by
    refine fromMatches_eq_some_iff.mpr ⟨rfl, ⟨m, List.mem_append_left _ hm, hdecision⟩, ?_⟩
    intro other hother
    rcases List.mem_append.mp hother with hold | hnew
    · exact hle other hold
    · rw [hallow other hnew]
      exact Decision.allow_le _
  rw [heq, hmore]
  rfl

theorem decision_eq_of_append (extra : List RuleMatch)
    (h : policy'.ruleMatches host options cmd = policy.ruleMatches host options cmd ++ extra)
    (hallow : ∀ m ∈ extra, m.decision = .allow)
    (hne : extra ≠ [] → policy.ruleMatches host options cmd ≠ []) :
    policy'.decision host options heuristics cmd = policy.decision host options heuristics cmd := by
  by_cases hnone : policy.ruleMatches host options cmd = []
  · have hextra : extra = [] := by
      by_contra hsome
      exact hne hsome hnone
    simp [decision, checkWithOptions, matchesForCommandWithOptions, h, hnone, hextra]
  · have hmore : policy'.ruleMatches host options cmd ≠ [] := by simp [h, hnone]
    rw [decision, decision, checkWithOptions_of_ruleMatches hnone,
      checkWithOptions_of_ruleMatches hmore, h]
    exact decision_fromMatches_append hnone hallow

theorem zip_append_of_length_le {α β : Type} {as : List α} {bs : List β}
    (h : as.length ≤ bs.length) (more : List β) : as.zip (bs ++ more) = as.zip bs := by
  induction as generalizing bs with
  | nil => rfl
  | cons a as ih =>
      cases bs with
      | nil => simp at h
      | cons b bs =>
          rw [List.cons_append, List.zip_cons_cons, List.zip_cons_cons, ih (by simpa using h)]

/-- What matches a command matches its extensions. -/
theorem matches_isSome_of_begins {rule : PrefixRule} (h : (rule.matches words).isSome)
    (hbegins : words <+: cmd) : (rule.matches cmd).isSome := by
  obtain ⟨rest, rfl⟩ := hbegins
  cases words with
  | nil => simp [PrefixRule.matches, PrefixPattern.matchesPrefix] at h
  | cons first words =>
      simp only [PrefixRule.matches, PrefixPattern.matchesPrefix, Option.isSome_map] at h ⊢
      split_ifs at h with hshort hall
      · simp at h
      · simp only [Bool.or_eq_true, decide_eq_true_eq, not_or, Nat.not_lt, List.length_cons]
          at hshort
        have hfits : rule.pattern.rest.length ≤ words.length := by omega
        rw [if_neg, if_pos]
        · rfl
        · simp only [List.cons_append, List.drop_one, List.tail_cons] at hall ⊢
          rw [zip_append_of_length_le hfits]
          exact hall
        · simp only [Bool.or_eq_true, decide_eq_true_eq, not_or, Nat.not_lt, List.cons_append,
            List.length_cons, List.length_append]
          exact ⟨by omega, hshort.2⟩
      · simp at h

/-- Where an exact rule matches a command, one matches its extensions. -/
theorem exactMatches_ne_nil_of_begins (h : policy.exactMatches words ≠ [])
    (hbegins : words <+: cmd) : policy.exactMatches cmd ≠ [] := by
  cases words with
  | nil => simp [exactMatches, matchExactRules] at h
  | cons first rest =>
      obtain ⟨m, hm⟩ := List.exists_mem_of_ne_nil _ h
      obtain ⟨rule, hrule, hmatch⟩ := List.mem_filterMap.mp hm
      obtain ⟨m', hm'⟩ := Option.isSome_iff_exists.mp
        (matches_isSome_of_begins (by rw [hmatch]; rfl) hbegins)
      cases cmd with
      | nil => simp at hbegins
      | cons word words =>
          obtain rfl := (List.cons_prefix_cons.mp hbegins).1
          exact List.ne_nil_of_mem (List.mem_filterMap.mpr ⟨rule, hrule, hm'⟩)

/-- The matches under the name of an executable are the exact ones of the renamed command. -/
theorem matchBasenameRules_eq (policy : Policy) (program : AbsolutePathBuf) (basename : Text)
    (cmd : List Text) :
    policy.matchBasenameRules program basename cmd =
      (policy.exactMatches (basename :: cmd.drop 1)).map (RuleMatch.withResolvedProgram program) :=
  rfl

/-- An amendment that an exact rule matches already changes no decision. -/
theorem decision_addPrefixRule_of_exact {first : Text} {rest : List Text}
    (h : policy.exactMatches (first :: rest) ≠ []) :
    (policy.mergeOverlay (ofPrefix first rest .allow)).decision host options heuristics cmd =
      policy.decision host options heuristics cmd := by
  have hallow : ∀ cmd, ∀ m ∈ (ofPrefix first rest .allow).exactMatches cmd,
      m.decision = .allow := by
    intro cmd m hm
    rw [exactMatches_ofPrefix] at hm
    split_ifs at hm
    · rw [List.mem_singleton.mp hm]
      rfl
    · simp at hm
  have hexact : ∀ cmd, (ofPrefix first rest .allow).exactMatches cmd ≠ [] →
      policy.exactMatches cmd ≠ [] := by
    intro cmd hsome
    rw [exactMatches_ofPrefix] at hsome
    split_ifs at hsome with hbegins
    · exact exactMatches_ne_nil_of_begins h hbegins
    · exact absurd rfl hsome
  by_cases hnone : policy.exactMatches cmd = []
  · have hadded : (ofPrefix first rest .allow).exactMatches cmd = [] := by
      by_contra hsome
      exact hexact cmd hsome hnone
    rcases hprogram : hostProgram host cmd with _ | ⟨program, basename⟩
    · refine decision_eq_of_append [] ?_ (by simp) (by simp)
      simp [ruleMatches, exactMatches_mergeOverlay, hnone, hadded, matchHostExecutableRules,
        hprogram]
    · have hlists : (policy.mergeOverlay (ofPrefix first rest .allow)).listsProgram program
          basename =
        policy.listsProgram program basename := by
        rw [listsProgram_mergeOverlay]
        rfl
      by_cases hlooked : options.resolveHostExecutables = true ∧
          policy.listsProgram program basename = true
      · refine decision_eq_of_append
          ((ofPrefix first rest .allow).matchBasenameRules program basename cmd) ?_ ?_ ?_
        · simp [ruleMatches, exactMatches_mergeOverlay, hnone, hadded, matchHostExecutableRules,
            hprogram, hlists, hlooked, matchBasenameRules_mergeOverlay]
        · intro m hm
          obtain ⟨exact, hexactly, rfl⟩ := List.mem_map.mp hm
          rw [RuleMatch.decision_withResolvedProgram]
          exact hallow (basename :: cmd.drop 1) exact hexactly
        · intro hsome
          rw [matchBasenameRules_eq, Ne, List.map_eq_nil_iff] at hsome
          simp only [ruleMatches, hnone, matchHostExecutableRules, hprogram, hlooked,
            matchBasenameRules_eq]
          simpa using hexact _ hsome
      · refine decision_eq_of_append [] ?_ (by simp) (by simp)
        rw [not_and_or, Bool.not_eq_true, Bool.not_eq_true] at hlooked
        rcases hlooked with hoff | helsewhere
        · simp [ruleMatches, exactMatches_mergeOverlay, hnone, hadded, hoff]
        · simp [ruleMatches, exactMatches_mergeOverlay, hnone, hadded, matchHostExecutableRules,
            hprogram, hlists, helsewhere]
  · refine decision_eq_of_append ((ofPrefix first rest .allow).exactMatches cmd) ?_ (hallow cmd) ?_
    · simp [ruleMatches, exactMatches_mergeOverlay, hnone]
    · intro _
      simp [ruleMatches, hnone]

end Decisions

end Policy

/-! ## Agreement -/

/-- The policy allows the command, but only under the name of its executable. -/
def IsAllowedByBasenameOnly (host : HostContext) (policy : Policy) (command : List Text) : Prop :=
  policy.exactMatches command = [] ∧ policy.matchHostExecutableRules host command ≠ [] ∧
    ∀ m ∈ policy.matchHostExecutableRules host command, m.decision = .allow

section Agreement

variable {host : HostContext} {policy : Policy} {command : List Text}

theorem alreadyAllowed_iff : alreadyAllowed host policy command = true ↔
    policy.ruleMatches host ⟨true⟩ command ≠ [] ∧
      ∀ m ∈ policy.ruleMatches host ⟨true⟩ command, m.decision = .allow := by
  have hcheck : policy.checkMultipleWithOptions host [command] (fun _ => .forbidden) ⟨true⟩ =
      policy.checkWithOptions host command (fun _ => .forbidden) ⟨true⟩ := by
    simp [Policy.checkMultipleWithOptions, Policy.checkWithOptions]
  rw [alreadyAllowed, hcheck]
  by_cases hnone : policy.ruleMatches host ⟨true⟩ command = []
  · simp [Policy.checkWithOptions, Policy.matchesForCommandWithOptions, hnone,
      Evaluation.fromMatches, RuleMatch.decision, RuleMatch.isPolicyMatch]
  · rw [Policy.checkWithOptions_of_ruleMatches hnone]
    obtain ⟨evaluation, heq⟩ := exists_fromMatches hnone
    obtain ⟨hrules, ⟨m, hm, hdecision⟩, hle⟩ := fromMatches_eq_some_iff.mp heq
    rw [heq]
    simp only [Bool.and_eq_true, decide_eq_true_eq, List.any_eq_true, hrules, ne_eq, hnone,
      not_false_eq_true, true_and]
    constructor
    · rintro ⟨hallow, -⟩ other hother
      exact le_antisymm (hallow ▸ hle other hother) (Decision.allow_le _)
    · intro hall
      refine ⟨hdecision ▸ hall m hm, m, hm, ?_, hall m hm⟩
      exact Policy.isPolicyMatch_of_mem_ruleMatches hm

/-- The probe succeeds through an exact rule, or only under the name of the executable. -/
theorem exactMatches_ne_nil_of_alreadyAllowed (h : alreadyAllowed host policy command = true)
    (hexactly : ¬IsAllowedByBasenameOnly host policy command) :
    policy.exactMatches command ≠ [] := by
  intro hnone
  obtain ⟨hsome, hall⟩ := alreadyAllowed_iff.mp h
  simp only [Policy.ruleMatches, hnone, ne_eq, not_true_eq_false, if_false, if_true] at hsome hall
  exact hexactly ⟨hnone, hsome, hall⟩

theorem IsAllowedByBasenameOnly.alreadyAllowed (h : IsAllowedByBasenameOnly host policy command) :
    alreadyAllowed host policy command = true := by
  obtain ⟨hnone, hsome, hall⟩ := h
  rw [alreadyAllowed_iff]
  simp only [Policy.ruleMatches, hnone, ne_eq, not_true_eq_false, if_false, if_true]
  exact ⟨hsome, hall⟩

/-- Without lookup of executables, the appended rule decides what no rule decided before. -/
theorem IsAllowedByBasenameOnly.decision_ne {first : Text} {rest : List Text}
    (h : IsAllowedByBasenameOnly host policy (first :: rest)) :
    policy.decision host ⟨false⟩ (fun _ => .forbidden) (first :: rest) = some .forbidden ∧
      (policy.mergeOverlay (Policy.ofPrefix first rest .allow)).decision host ⟨false⟩
        (fun _ => .forbidden) (first :: rest) = some .allow := by
  obtain ⟨hnone, -, -⟩ := h
  constructor
  · simp [Policy.decision, Policy.checkWithOptions, Policy.matchesForCommandWithOptions,
      Policy.ruleMatches, hnone, Evaluation.fromMatches, RuleMatch.decision]
  · simp [Policy.decision, Policy.checkWithOptions, Policy.matchesForCommandWithOptions,
      Policy.ruleMatches, Policy.exactMatches_mergeOverlay, Policy.exactMatches_ofPrefix, hnone,
      Evaluation.fromMatches, RuleMatch.decision]

/-- The policy in memory decides every command as the one with the appended rule does, unless it
allowed the amendment only under the name of its executable. -/
theorem appendAmendmentAndUpdate_agrees_iff {toJson : Text → Text}
    {io : Except ExecPolicyUpdateError Unit} {manager : ExecPolicyManager}
    (h : (manager.appendAmendmentAndUpdate toJson host io command).1 = .ok ()) :
    (∃ reloaded, manager.policy.addPrefixRule command .allow = .ok reloaded ∧
      ∀ host' options heuristics cmd,
        (manager.appendAmendmentAndUpdate toJson host io command).2.policy.decision host' options
          heuristics cmd = reloaded.decision host' options heuristics cmd) ↔
      ¬IsAllowedByBasenameOnly host manager.policy command := by
  rcases io with error | ⟨⟨⟩⟩
  · cases h
  cases command with
  | nil => simp [ExecPolicyManager.appendAmendmentAndUpdate, appendAllowPrefixRule] at h
  | cons first rest =>
      have happend : appendAllowPrefixRule toJson manager.rulesFile (first :: rest) =
          .ok (appendLockedLine manager.rulesFile
            (allowPrefixRuleLine toJson (first :: rest))) := by
        simp [appendAllowPrefixRule]
      simp only [Policy.addPrefixRule_cons, Except.ok.injEq, exists_eq_left',
        ExecPolicyManager.appendAmendmentAndUpdate, happend]
      split_ifs with hallowed
      · constructor
        · intro hagree hbasename
          obtain ⟨hbefore, hafter⟩ := hbasename.decision_ne
          have hsame := hagree host ⟨false⟩ (fun _ => .forbidden) (first :: rest)
          rw [hbefore, hafter] at hsame
          cases hsame
        · intro hexactly host' options heuristics cmd
          exact (Policy.decision_addPrefixRule_of_exact
            (exactMatches_ne_nil_of_alreadyAllowed hallowed hexactly)).symm
      · constructor
        · intro _ hbasename
          exact hallowed hbasename.alreadyAllowed
        · intro _ host' options heuristics cmd
          rfl

/-- Under the name of its executable a path is allowed, and the rule for the path itself is
written to the file but not kept in memory. -/
theorem appendAmendmentAndUpdate_path :
    let host : HostContext := ⟨none, none⟩
    let manager : ExecPolicyManager := ⟨Policy.ofPrefix "git".toList [] .allow, []⟩
    let command := ["/usr/bin/git".toList, "push".toList]
    let result := manager.appendAmendmentAndUpdate id host (.ok ()) command
    let decision := fun policy : Policy => policy.decision host ⟨false⟩ (fun _ => .prompt) command
    result.1 = .ok () ∧ decision result.2.policy = some .prompt ∧
      (manager.policy.addPrefixRule command .allow).toOption.bind decision = some .allow := by
  decide +kernel

/-- An exact rule that allows the amendment keeps the policy in memory as it is. -/
theorem appendAmendmentAndUpdate_agrees_git :
    let host : HostContext := ⟨none, none⟩
    let manager : ExecPolicyManager := ⟨Policy.ofPrefix "git".toList [] .allow, []⟩
    let command := ["git".toList, "push".toList]
    let result := manager.appendAmendmentAndUpdate id host (.ok ()) command
    result.1 = .ok () ∧ result.2.policy.rulesByProgram = manager.policy.rulesByProgram ∧
      ∃ reloaded, manager.policy.addPrefixRule command .allow = .ok reloaded ∧
        ∀ host' options heuristics cmd,
          (manager.appendAmendmentAndUpdate id host (.ok ()) command).2.policy.decision host'
            options heuristics cmd = reloaded.decision host' options heuristics cmd := by
  intro host manager command result
  have hok : (manager.appendAmendmentAndUpdate id host (.ok ()) command).1 = .ok () := by
    decide +kernel
  refine ⟨hok, by decide +kernel, (appendAmendmentAndUpdate_agrees_iff hok).mpr ?_⟩
  rintro ⟨hnone, -, -⟩
  exact absurd hnone (by decide +kernel)

end Agreement

end Codewith.ExecPolicy
