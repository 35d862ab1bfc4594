import Codewith.ExecPolicy.Policy

/-!
# More rules, stricter decisions

The decision on a command is the strictest of its matches, so that more matches never weaken
it.  An added rule can hide matches, though: the rules of an executable are looked up only if no
rule of the exact first token matches.
-/

namespace Codewith.ExecPolicy

open Lib

/-! ## The strictest decision -/

section Evaluations

variable {matches' more : List RuleMatch} {evaluation : Evaluation}

theorem fromMatches_eq_some_iff :
    Evaluation.fromMatches matches' = some evaluation ↔ evaluation.matchedRules = matches' ∧
      (∃ m ∈ matches', m.decision = evaluation.decision) ∧
        ∀ m ∈ matches', m.decision ≤ evaluation.decision := by
  unfold Evaluation.fromMatches
  rw [Option.map_eq_some_iff]
  constructor
  · rintro ⟨decision, hmax, rfl⟩
    obtain ⟨hmem, hle⟩ := List.max?_eq_some_iff.mp hmax
    exact ⟨rfl, List.mem_map.mp hmem, fun m hm => hle _ (List.mem_map_of_mem hm)⟩
  · rintro ⟨rfl, hmem, hle⟩
    refine ⟨evaluation.decision, List.max?_eq_some_iff.mpr ⟨List.mem_map.mpr hmem, ?_⟩, rfl⟩
    intro decision hdecision
    obtain ⟨m, hm, rfl⟩ := List.mem_map.mp hdecision
    exact hle m hm

theorem exists_fromMatches (h : matches' ≠ []) :
    ∃ evaluation, Evaluation.fromMatches matches' = some evaluation := by
  unfold Evaluation.fromMatches
  cases hmax : (matches'.map RuleMatch.decision).max? with
  | none =>
      rw [List.max?_eq_none_iff, List.map_eq_nil_iff] at hmax
      exact absurd hmax h
  | some decision => exact ⟨_, rfl⟩

/-- More matches give a decision that is at least as strict. -/
theorem fromMatches_mono (h : Evaluation.fromMatches matches' = some evaluation)
    (hmore : ∀ m ∈ matches', m ∈ more) :
    ∃ evaluation', Evaluation.fromMatches more = some evaluation' ∧
      evaluation.decision ≤ evaluation'.decision := by
  obtain ⟨-, ⟨m, hm, hdecision⟩, -⟩ := fromMatches_eq_some_iff.mp h
  obtain ⟨evaluation', hevaluation'⟩ := exists_fromMatches (List.ne_nil_of_mem (hmore m hm))
  obtain ⟨-, -, hle⟩ := fromMatches_eq_some_iff.mp hevaluation'
  exact ⟨evaluation', hevaluation', hdecision ▸ hle m (hmore m hm)⟩

end Evaluations

namespace Policy

section Merged

variable (policy overlay : Policy) (host : HostContext) (cmd : List Text)

theorem rulesFor_mergeOverlay (program : Text) :
    (policy.mergeOverlay overlay).rulesFor program =
      policy.rulesFor program ++ overlay.rulesFor program := by
  simp [rulesFor, mergeOverlay]

theorem exactMatches_mergeOverlay :
    (policy.mergeOverlay overlay).exactMatches cmd =
      policy.exactMatches cmd ++ overlay.exactMatches cmd := by
  cases cmd with
  | nil => rfl
  | cons first rest => simp [exactMatches, matchExactRules, rulesFor_mergeOverlay]

theorem matchBasenameRules_mergeOverlay (program : AbsolutePathBuf) (basename : Text) :
    (policy.mergeOverlay overlay).matchBasenameRules program basename cmd =
      policy.matchBasenameRules program basename cmd ++
        overlay.matchBasenameRules program basename cmd := by
  simp [matchBasenameRules, rulesFor_mergeOverlay]

theorem listsProgram_mergeOverlay (program : AbsolutePathBuf) (basename : Text) :
    (policy.mergeOverlay overlay).listsProgram program basename =
      if (overlay.hostExecutablesByName.lookup basename).isSome then
        overlay.listsProgram program basename
      else policy.listsProgram program basename := by
  unfold listsProgram mergeOverlay
  cases hlookup : overlay.hostExecutablesByName.lookup basename with
  | none =>
      have hnot : basename ∉ overlay.hostExecutablesByName := AList.lookup_eq_none.mp hlookup
      simp [AList.lookup_union_right hnot]
  | some paths =>
      have hmem : basename ∈ overlay.hostExecutablesByName :=
        AList.lookup_isSome.mp (by simp [hlookup])
      simp [AList.lookup_union_left hmem, hlookup]

end Merged

/-! ## What a decision rests on -/

section Checks

variable {policy overlay : Policy} {host : HostContext} {cmd : List Text} {options : MatchOptions}
  {heuristics : List Text → Decision} {evaluation : Evaluation}

theorem isPolicyMatch_of_matches {rule : PrefixRule} {m : RuleMatch}
    (h : rule.matches cmd = some m) :
    m.isPolicyMatch = true := by
  obtain ⟨matchedPrefix, -, rfl⟩ := Option.map_eq_some_iff.mp h
  rfl

theorem isPolicyMatch_of_mem_ruleMatches {m : RuleMatch}
    (h : m ∈ policy.ruleMatches host options cmd) : m.isPolicyMatch = true := by
  unfold ruleMatches at h
  split_ifs at h
  · cases cmd with
    | nil => simp [exactMatches, matchExactRules] at h
    | cons first rest =>
        simp only [exactMatches, matchExactRules, List.head?_cons, Option.map_some,
          Option.getD_some, List.mem_filterMap] at h
        obtain ⟨rule, -, hmatch⟩ := h
        exact isPolicyMatch_of_matches hmatch
  · unfold matchHostExecutableRules at h
    split at h
    · simp at h
    · split_ifs at h
      · obtain ⟨m, hm, rfl⟩ := List.mem_map.mp h
        obtain ⟨rule, -, hmatch⟩ := List.mem_filterMap.mp hm
        obtain ⟨matchedPrefix, -, rfl⟩ := Option.map_eq_some_iff.mp hmatch
        rfl
      · simp at h
  · simp at h

/-- A decision is by rules if and only if there are some that match. -/
theorem isMatch_iff (h : policy.checkWithOptions host cmd heuristics options = some evaluation) :
    evaluation.isMatch = true ↔ policy.ruleMatches host options cmd ≠ [] := by
  obtain ⟨hrules, -, -⟩ := fromMatches_eq_some_iff.mp h
  rw [Evaluation.isMatch, hrules]
  by_cases hnone : policy.ruleMatches host options cmd = []
  · simp [matchesForCommandWithOptions, hnone, RuleMatch.isPolicyMatch]
  · simp only [matchesForCommandWithOptions, hnone, if_false, List.any_eq_true, ne_eq,
      not_false_eq_true, iff_true]
    obtain ⟨m, hm⟩ := List.exists_mem_of_ne_nil _ hnone
    exact ⟨m, hm, isPolicyMatch_of_mem_ruleMatches hm⟩

theorem checkWithOptions_of_ruleMatches (h : policy.ruleMatches host options cmd ≠ []) :
    policy.checkWithOptions host cmd heuristics options =
      Evaluation.fromMatches (policy.ruleMatches host options cmd) := by
  simp [checkWithOptions, matchesForCommandWithOptions, h]

/-- Where the rule matches of one policy are among those of another, the other is as strict. -/
theorem checkWithOptions_mono {policy' : Policy}
    (h : policy.checkWithOptions host cmd heuristics options = some evaluation)
    (hmatch : evaluation.isMatch = true)
    (hmore : ∀ m ∈ policy.ruleMatches host options cmd, m ∈ policy'.ruleMatches host options cmd) :
    ∃ evaluation', policy'.checkWithOptions host cmd heuristics options = some evaluation' ∧
      evaluation.decision ≤ evaluation'.decision := by
  have hsome := (isMatch_iff h).mp hmatch
  obtain ⟨m, hm⟩ := List.exists_mem_of_ne_nil _ hsome
  rw [checkWithOptions_of_ruleMatches hsome] at h
  rw [checkWithOptions_of_ruleMatches (List.ne_nil_of_mem (hmore m hm))]
  exact fromMatches_mono h hmore

end Checks

/-! ## Overlays and added rules -/

section Added

variable {policy overlay : Policy} {host : HostContext} {cmd : List Text}

/-- The matches of an overlay are not hidden by the policy under it: they are exact ones, or the
policy has no exact ones and does not keep the program from being looked up. -/
def IsReachedOver (policy overlay : Policy) (host : HostContext) (cmd : List Text) : Prop :=
  overlay.exactMatches cmd ≠ [] ∨ policy.exactMatches cmd = [] ∧
    ∀ program basename, hostProgram host cmd = some (program, basename) →
      overlay.hostExecutablesByName.lookup basename = none →
        policy.listsProgram program basename = true

theorem mem_ruleMatches_mergeOverlay {options : MatchOptions} {m : RuleMatch}
    (hreached : IsReachedOver policy overlay host cmd)
    (h : m ∈ overlay.ruleMatches host options cmd) :
    m ∈ (policy.mergeOverlay overlay).ruleMatches host options cmd := by
  unfold ruleMatches at h ⊢
  rw [exactMatches_mergeOverlay]
  by_cases hexact : overlay.exactMatches cmd = []
  · obtain ⟨hnone, hlists⟩ := hreached.resolve_left (by simp [hexact])
    simp only [hexact, hnone, ne_eq, not_true_eq_false, if_false, List.append_nil] at h ⊢
    split_ifs at h with hresolve
    · rw [if_pos hresolve]
      unfold matchHostExecutableRules at h ⊢
      rcases hprogram : hostProgram host cmd with _ | ⟨program, basename⟩
      · simp [hprogram] at h
      · simp only [hprogram] at h ⊢
        split_ifs at h with hown
        · have hmerged : (policy.mergeOverlay overlay).listsProgram program basename = true := by
            rw [listsProgram_mergeOverlay]
            split_ifs with hentry
            · exact hown
            · exact hlists program basename hprogram (by simpa using hentry)
          rw [if_pos hmerged, matchBasenameRules_mergeOverlay]
          exact List.mem_append_right _ h
        · simp at h
    · simp at h
  · rw [if_pos hexact] at h
    rw [if_pos (by simp [hexact])]
    exact List.mem_append_right _ h

/-- The policy of the one rule that is added. -/
def ofPrefix (first : Text) (rest : List Text) (decision : Decision) : Policy :=
  ⟨[(first, ⟨⟨first, rest.map .single⟩, decision, none⟩)], ∅⟩

/-- To add a rule is to lay the policy of that rule over. -/
theorem addPrefixRule_cons (policy : Policy) (first : Text) (rest : List Text)
    (decision : Decision) :
    policy.addPrefixRule (first :: rest) decision =
      .ok (policy.mergeOverlay (ofPrefix first rest decision)) := by
  simp [addPrefixRule, mergeOverlay, ofPrefix]

theorem all_zip_single_iff (rest words : List Text) :
    ((rest.map PatternToken.single).zip words).all (fun (token, word) => token.matches word) =
      decide (rest.take words.length = words.take rest.length) := by
  induction rest generalizing words with
  | nil => simp
  | cons token rest ih =>
      cases words with
      | nil => simp
      | cons word words =>
          rw [List.map_cons, List.zip_cons_cons, List.all_cons, ih]
          simp [PatternToken.matches]

/-- A rule of fixed tokens matches the commands that begin with them. -/
theorem matchesPrefix_single (first : Text) (rest cmd : List Text) :
    PrefixPattern.matchesPrefix ⟨first, rest.map .single⟩ cmd =
      if first :: rest <+: cmd then some (first :: rest) else none := by
  cases cmd with
  | nil => simp [PrefixPattern.matchesPrefix]
  | cons word words =>
      unfold PrefixPattern.matchesPrefix
      simp only [List.length_map, List.length_cons, List.head?_cons, List.drop_one, List.tail_cons,
        all_zip_single_iff, List.cons_prefix_cons, Bool.or_eq_true, decide_eq_true_eq, ne_eq,
        Option.some_inj, List.take_succ_cons]
      by_cases hbegins : first = word ∧ rest <+: words
      · obtain ⟨rfl, hrest⟩ := hbegins
        have hlength := hrest.length_le
        have htake := List.prefix_iff_eq_take.mp hrest
        have hfits : ¬(words.length + 1 < rest.length + 1 ∨ ¬first = first) := by
          rintro (hshort | hne)
          · omega
          · exact hne rfl
        rw [if_neg hfits, if_pos, if_pos ⟨rfl, hrest⟩, ← htake]
        rw [List.take_of_length_le hlength, ← htake]
      · rw [if_neg hbegins]
        split_ifs with hshort hsame
        · rfl
        · exfalso
          simp only [not_or, not_not, Nat.not_lt] at hshort
          refine hbegins ⟨hshort.2.symm, List.prefix_iff_eq_take.mpr ?_⟩
          rwa [List.take_of_length_le (by omega)] at hsame
        · rfl

theorem exactMatches_ofPrefix (first : Text) (rest : List Text) (decision : Decision) :
    (ofPrefix first rest decision).exactMatches cmd =
      if first :: rest <+: cmd then [.prefixRuleMatch (first :: rest) decision none none]
        else [] := by
  cases cmd with
  | nil => simp [exactMatches, matchExactRules]
  | cons word words =>
      simp only [exactMatches, matchExactRules, rulesFor, ofPrefix, List.head?_cons,
        Option.map_some, Option.getD_some]
      by_cases hword : first = word
      · subst hword
        simp only [decide_true, List.filter_cons_of_pos, List.filter_nil, List.map_cons,
          List.map_nil, List.filterMap_cons, List.filterMap_nil, PrefixRule.matches,
          matchesPrefix_single]
        split_ifs <;> rfl
      · simp [hword]

theorem mem_ruleMatches_addPrefixRule {options : MatchOptions} {first : Text} {rest : List Text}
    {decision : Decision} (hreached : policy.exactMatches cmd ≠ [] ∨ ¬first :: rest <+: cmd)
    {m : RuleMatch} (h : m ∈ policy.ruleMatches host options cmd) :
    m ∈ (policy.mergeOverlay (ofPrefix first rest decision)).ruleMatches host options cmd := by
  unfold ruleMatches at h ⊢
  rw [exactMatches_mergeOverlay, exactMatches_ofPrefix]
  by_cases hexact : policy.exactMatches cmd = []
  · have hother := hreached.resolve_left (by simp [hexact])
    simp only [hexact, hother, ne_eq, not_true_eq_false, if_false, List.append_nil] at h ⊢
    split_ifs at h with hresolve
    · rw [if_pos hresolve]
      unfold matchHostExecutableRules at h ⊢
      rcases hprogram : hostProgram host cmd with _ | ⟨program, basename⟩
      · simp [hprogram] at h
      · simp only [hprogram, listsProgram_mergeOverlay, matchBasenameRules_mergeOverlay] at h ⊢
        have hnone : ((ofPrefix first rest decision).hostExecutablesByName.lookup basename).isSome =
            false := rfl
        rw [hnone]
        split_ifs at h with hlists
        · simp only [Bool.false_eq_true, if_false, hlists, if_true]
          exact List.mem_append_left _ h
        · simp at h
    · simp at h
  · rw [if_pos hexact] at h
    rw [if_pos (by simp [hexact])]
    exact List.mem_append_left _ h

/-- More rules give decisions that are at least as strict, as long as no exact rule hides those
that were found under the name of the executable. -/
theorem decision_mono (host : HostContext) (options : MatchOptions)
    (heuristics : List Text → Decision) (policy : Policy) (cmd : List Text) :
    (∀ (overlay : Policy) (evaluation : Evaluation),
      overlay.checkWithOptions host cmd heuristics options = some evaluation →
      evaluation.isMatch = true → IsReachedOver policy overlay host cmd →
        ∃ evaluation', (policy.mergeOverlay overlay).checkWithOptions host cmd heuristics options =
          some evaluation' ∧ evaluation.decision ≤ evaluation'.decision) ∧
    ∀ (words : List Text) (decision : Decision) (policy' : Policy) (evaluation : Evaluation),
      policy.addPrefixRule words decision = .ok policy' →
      policy.checkWithOptions host cmd heuristics options = some evaluation →
      evaluation.isMatch = true → (policy.exactMatches cmd ≠ [] ∨ ¬words <+: cmd) →
        ∃ evaluation', policy'.checkWithOptions host cmd heuristics options = some evaluation' ∧
          evaluation.decision ≤ evaluation'.decision := by
  refine ⟨?_, ?_⟩
  · intro overlay evaluation hcheck hmatch hreached
    exact checkWithOptions_mono hcheck hmatch fun m hm => mem_ruleMatches_mergeOverlay hreached hm
  · intro words decision policy' evaluation hadd hcheck hmatch hreached
    cases words with
    | nil => cases hadd
    | cons first rest =>
        rw [addPrefixRule_cons] at hadd
        cases hadd
        exact checkWithOptions_mono hcheck hmatch fun m hm =>
          mem_ruleMatches_addPrefixRule hreached hm

/-- A rule for the executable that is laid over one for a listed path, and a rule that is added
for another subcommand. -/
theorem decision_mono_git :
    let host : HostContext := ⟨none, none⟩
    let git : Policy := ofPrefix "git".toList [] .forbidden
    let listed : Policy :=
      ⟨[], AList.singleton "git".toList [⟨["usr".toList, "bin".toList, "git".toList], by decide⟩]⟩
    let cmd := ["/usr/bin/git".toList, "push".toList]
    (∃ evaluation, (listed.mergeOverlay git).checkWithOptions host cmd (fun _ => .allow) ⟨true⟩ =
        some evaluation ∧ Decision.forbidden ≤ evaluation.decision) ∧
      ∃ policy evaluation,
        git.addPrefixRule ["/usr/bin/git".toList, "status".toList] .allow = .ok policy ∧
        policy.checkWithOptions host cmd (fun _ => .allow) ⟨true⟩ = some evaluation ∧
        Decision.forbidden ≤ evaluation.decision := by
  intro host git listed cmd
  obtain ⟨evaluation, hcheck, hdecision, hmatch⟩ : ∃ evaluation,
      git.checkWithOptions host cmd (fun _ => .allow) ⟨true⟩ = some evaluation ∧
        evaluation.decision = .forbidden ∧ evaluation.isMatch = true :=
    ⟨_, rfl, by decide +kernel, by decide +kernel⟩
  rw [← hdecision]
  constructor
  · refine (decision_mono host ⟨true⟩ (fun _ => .allow) listed cmd).1 git evaluation hcheck hmatch
      ?_
    refine .inr ⟨by decide +kernel, fun program basename hprogram _ => ?_⟩
    have hfound : hostProgram host cmd =
        some (⟨["usr".toList, "bin".toList, "git".toList], by decide⟩, "git".toList) := by
      decide +kernel
    rw [hfound, Option.some.injEq, Prod.mk.injEq] at hprogram
    rw [← hprogram.1, ← hprogram.2]
    decide +kernel
  · obtain ⟨evaluation', hafter⟩ := (decision_mono host ⟨true⟩ (fun _ => .allow) git cmd).2
      ["/usr/bin/git".toList, "status".toList] .allow _ evaluation rfl hcheck hmatch
      (.inr (by decide +kernel))
    exact ⟨_, evaluation', rfl, hafter⟩

/-- An exact rule that allows a path hides the rule that forbids its executable, whether it
stands under the overlay or is added to the policy; and so do paths under the overlay that do not
list the program. -/
theorem exact_rule_hides_basename_rule :
    let host : HostContext := ⟨none, none⟩
    let git : Policy := ofPrefix "git".toList [] .forbidden
    let path : Policy := ofPrefix "/usr/bin/git".toList [] .allow
    let elsewhere : Policy := ⟨[], AList.singleton "git".toList []⟩
    let cmd := ["/usr/bin/git".toList, "push".toList]
    let decision := fun policy : Policy =>
      (policy.checkWithOptions host cmd (fun _ => .allow) ⟨true⟩).map fun evaluation =>
        (evaluation.decision, evaluation.isMatch)
    decision git = some (.forbidden, true) ∧
      decision (path.mergeOverlay git) = some (.allow, true) ∧
      (git.addPrefixRule ["/usr/bin/git".toList] .allow).toOption.bind decision =
        some (.allow, true) ∧
      decision (elsewhere.mergeOverlay git) = some (.allow, false) := by
  decide +kernel

end Added

end Policy

end Codewith.ExecPolicy
