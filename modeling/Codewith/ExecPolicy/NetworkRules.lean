import Codewith.ExecPolicy.Amendment
import Codewith.NetworkProxy.Allowlist

/-!
# Rules for network hosts

A network rule names one host.  It is normalised before it is written to the rules file, when
the file is read, and when it is added to the policy in memory.
-/

namespace Codewith.ExecPolicy

open Lib NetworkProxy

/-! ## Hosts -/

inductive RuleError
  | invalidDecision (message : Text)
  | invalidRule (message : Text)
  deriving DecidableEq, Repr

namespace RuleError

def toText : RuleError → Text
  | invalidDecision message => "invalid decision: ".toList ++ message
  | invalidRule message => "invalid rule: ".toList ++ message

end RuleError

def isPort (port : Text) : Bool := port ≠ [] && port.all Char.isDigit

/-- One colon, something before it and digits after it. -/
def hasPort (host : Text) : Bool :=
  host.count ':' = 1 && host.takeWhile (· ≠ ':') ≠ [] &&
    isPort ((host.dropWhile (· ≠ ':')).drop 1)

def bracketedHost (raw stripped : Text) : Except RuleError Text :=
  if ']' ∉ stripped then
    .error (.invalidRule "network_rule host has an invalid bracketed IPv6 literal".toList)
  else
    let rest := (stripped.dropWhile (· ≠ ']')).drop 1
    if rest ≠ [] ∧ (Text.stripPrefix [':'] rest).any isPort = false then
      .error (.invalidRule ("network_rule host contains an unsupported suffix: ".toList ++ raw))
    else .ok (stripped.takeWhile (· ≠ ']'))

def withoutPort (raw host : Text) : Except RuleError Text :=
  match host with
  | '[' :: stripped => bracketedHost raw stripped
  | host => .ok (if hasPort host then host.takeWhile (· ≠ ':') else host)

def specificHost (host : Text) : Except RuleError Text :=
  let normalized := toAsciiLowercase (Text.trim (trimEndDots host))
  if normalized = [] then .error (.invalidRule "network_rule host cannot be empty".toList)
  else if '*' ∈ normalized then
    .error (.invalidRule
      "network_rule host must be a specific host; wildcards are not allowed".toList)
  else if normalized.any Text.isWhitespace then
    .error (.invalidRule "network_rule host cannot contain whitespace".toList)
  else .ok normalized

def hasSchemeOrPath (host : Text) : Bool :=
  (find? "://".toList host).isSome || '/' ∈ host || '?' ∈ host || '#' ∈ host

def normalizeNetworkRuleHost (raw : Text) : Except RuleError Text :=
  let host := Text.trim raw
  if host = [] then .error (.invalidRule "network_rule host cannot be empty".toList)
  else if hasSchemeOrPath host then
    .error (.invalidRule
      "network_rule host must be a hostname or IP literal (without scheme or path)".toList)
  else do
    let host ← withoutPort raw host
    specificHost host

/-! ## Rules -/

inductive NetworkRuleProtocol
  | http
  | https
  | socks5Tcp
  | socks5Udp
  deriving DecidableEq, Repr

namespace NetworkRuleProtocol

def parse (raw : Text) : Except RuleError NetworkRuleProtocol :=
  if raw = "http".toList then .ok http
  else if raw = "https".toList ∨ raw = "https_connect".toList ∨ raw = "http-connect".toList then
    .ok https
  else if raw = "socks5_tcp".toList then .ok socks5Tcp
  else if raw = "socks5_udp".toList then .ok socks5Udp
  else
    .error (.invalidRule
      ("network_rule protocol must be one of http, https, socks5_tcp, socks5_udp (got ".toList ++
        raw ++ ")".toList))

def asPolicyString : NetworkRuleProtocol → Text
  | http => "http".toList
  | https => "https".toList
  | socks5Tcp => "socks5_tcp".toList
  | socks5Udp => "socks5_udp".toList

@[simp] theorem parse_asPolicyString (protocol : NetworkRuleProtocol) :
    parse protocol.asPolicyString = .ok protocol := by
  cases protocol <;> rfl

end NetworkRuleProtocol

def Decision.parse (raw : Text) : Except RuleError Decision :=
  if raw = "allow".toList then .ok allow
  else if raw = "prompt".toList then .ok prompt
  else if raw = "forbidden".toList then .ok forbidden
  else .error (.invalidDecision raw)

def parseNetworkRuleDecision (raw : Text) : Except RuleError Decision :=
  if raw = "deny".toList then .ok .forbidden else Decision.parse raw

/-- How the rules file spells the decision of a network rule. -/
def networkRuleDecision : Decision → Text
  | .allow => "allow".toList
  | .prompt => "prompt".toList
  | .forbidden => "deny".toList

@[simp] theorem parseNetworkRuleDecision_networkRuleDecision (decision : Decision) :
    parseNetworkRuleDecision (networkRuleDecision decision) = .ok decision := by
  cases decision <;> rfl

structure NetworkRule where
  host : Text
  protocol : NetworkRuleProtocol
  decision : Decision
  justification : Option Text
  deriving DecidableEq, Repr

def isBlank (justification : Option Text) : Bool :=
  justification.any fun raw => Text.trim raw = []

def addNetworkRule (networkRules : List NetworkRule) (host : Text)
    (protocol : NetworkRuleProtocol) (decision : Decision) (justification : Option Text) :
    Except RuleError (List NetworkRule) := do
  let host ← normalizeNetworkRuleHost host
  if isBlank justification then .error (.invalidRule "justification cannot be empty".toList)
  else .ok (networkRules ++ [⟨host, protocol, decision, justification⟩])

/-! ## The rules file -/

/-- A call of `network_rule` in the rules file. -/
structure NetworkRuleCall where
  host : Text
  protocol : Text
  decision : Text
  justification : Option Text
  deriving DecidableEq, Repr

def NetworkRuleCall.evaluate (call : NetworkRuleCall) : Except RuleError NetworkRule := do
  let protocol ← NetworkRuleProtocol.parse call.protocol
  let decision ← parseNetworkRuleDecision call.decision
  if isBlank call.justification then
    .error (.invalidRule "justification cannot be empty".toList)
  else do
    let host ← normalizeNetworkRuleHost call.host
    .ok ⟨host, protocol, decision, call.justification⟩

inductive NetworkAmendError
  | invalidNetworkRule (message : Text)
  deriving DecidableEq, Repr

inductive NetworkRuleUpdateError
  | appendRule (source : NetworkAmendError)
  | addRule (source : RuleError)
  | blockingTask (message : Text)
  deriving DecidableEq, Repr

/-- The network rules in memory and the contents of the rules file. -/
structure NetworkRuleManager where
  networkRules : List NetworkRule
  rulesFile : Text

section

variable (toJson : Text → Text)

/-- The line of a call; `toJson` writes a string literal. -/
def NetworkRuleCall.line (call : NetworkRuleCall) : Text :=
  let args :=
    ["host=".toList ++ toJson call.host, "protocol=".toList ++ toJson call.protocol,
      "decision=".toList ++ toJson call.decision] ++
      (call.justification.map fun raw => "justification=".toList ++ toJson raw).toList
  "network_rule(".toList ++ ", ".toList.intercalate args ++ ")".toList

def networkRuleCall (host : Text) (protocol : NetworkRuleProtocol) (decision : Decision)
    (justification : Option Text) : Except NetworkAmendError NetworkRuleCall :=
  match normalizeNetworkRuleHost host with
  | .error error => .error (.invalidNetworkRule error.toText)
  | .ok host =>
      if isBlank justification then
        .error (.invalidNetworkRule "justification cannot be empty".toList)
      else .ok ⟨host, protocol.asPolicyString, networkRuleDecision decision, justification⟩

def appendNetworkRule (contents host : Text) (protocol : NetworkRuleProtocol)
    (decision : Decision) (justification : Option Text) : Except NetworkAmendError Text :=
  (networkRuleCall host protocol decision justification).map fun call =>
    appendLockedLine contents (call.line toJson)

/-- `io` is what the update lock, the blocking task and the file system answer. -/
def NetworkRuleManager.appendNetworkRuleAndUpdate (io : Except NetworkRuleUpdateError Unit)
    (manager : NetworkRuleManager) (host : Text) (protocol : NetworkRuleProtocol)
    (decision : Decision) (justification : Option Text) :
    Except NetworkRuleUpdateError Unit × NetworkRuleManager :=
  match io, appendNetworkRule toJson manager.rulesFile host protocol decision justification with
  | .error error, _ => (.error error, manager)
  | .ok (), .error error => (.error (.appendRule error), manager)
  | .ok (), .ok rulesFile =>
      match addNetworkRule manager.networkRules host protocol decision justification with
      | .error error => (.error (.addRule error), { manager with rulesFile })
      | .ok networkRules => (.ok (), ⟨networkRules, rulesFile⟩)

end

/-! ## Hosts that are normalised -/

/-- Nothing of the host would be taken off again: no bracket, no port, no dot at its end. -/
def IsBareHost (host : Text) : Prop :=
  host.head? ≠ some '[' ∧ hasPort host = false ∧ host.getLast? ≠ some '.'

/-- Where the host is written: in brackets, before a port, or in the whole text. -/
def writtenHost (raw : Text) : Text :=
  match Text.trim raw with
  | '[' :: stripped => stripped.takeWhile (· ≠ ']')
  | host => if hasPort host then host.takeWhile (· ≠ ':') else host

/-- What is written, less the dots at its end and the blanks around it, is a bare host. -/
def ReadsBack (raw : Text) : Prop := IsBareHost (Text.trim (trimEndDots (writtenHost raw)))

instance (host : Text) : Decidable (IsBareHost host) := inferInstanceAs (Decidable (_ ∧ _))

instance (raw : Text) : Decidable (ReadsBack raw) := inferInstanceAs (Decidable (IsBareHost _))

section Normalised

variable {raw host n : Text}

theorem specificHost_eq_ok : specificHost host = .ok n ↔
    n = toAsciiLowercase (Text.trim (trimEndDots host)) ∧ n ≠ [] ∧ '*' ∉ n ∧
      n.any Text.isWhitespace = false := by
  dsimp only [specificHost]
  constructor
  · intro h
    split_ifs at h with hnil hstar hblank
    obtain rfl := Except.ok.inj h
    exact ⟨rfl, hnil, hstar, by simpa using hblank⟩
  · rintro ⟨rfl, hnil, hstar, hblank⟩
    rw [if_neg hnil, if_neg hstar, if_neg (by simp [hblank])]

theorem bracketedHost_eq_ok {stripped : Text} (h : bracketedHost raw stripped = .ok host) :
    host = stripped.takeWhile (· ≠ ']') := by
  dsimp only [bracketedHost] at h
  split_ifs at h
  exact (Except.ok.inj h).symm

theorem withoutPort_trim (h : withoutPort raw (Text.trim raw) = .ok host) :
    host = writtenHost raw := by
  rw [writtenHost]
  generalize Text.trim raw = trimmed at h ⊢
  unfold withoutPort at h
  split at h
  · exact bracketedHost_eq_ok h
  · next hopen =>
      obtain rfl := Except.ok.inj h
      rcases trimmed with _ | ⟨c, rest⟩
      · rfl
      · by_cases hc : c = '['
        · subst hc
          exact absurd rfl (hopen rest)
        · simp only

/-- What is taken off makes the host shorter. -/
theorem withoutPort_eq_ok (h : withoutPort raw host = .ok n) :
    (host.head? ≠ some '[' ∧ hasPort host = false ∧ n = host) ∨ n.length < host.length := by
  unfold withoutPort at h
  split at h
  · next stripped =>
      right
      rw [bracketedHost_eq_ok h, List.length_cons]
      exact Nat.lt_succ_of_le (List.takeWhile_prefix _).length_le
  · next hopen =>
      have hhead : host.head? ≠ some '[' := by
        intro hbracket
        obtain ⟨rest, rfl⟩ := List.head?_eq_some_iff.mp hbracket
        exact hopen rest rfl
      split_ifs at h with hport
      · obtain rfl := Except.ok.inj h
        right
        have hcolon : ':' ∈ host := by
          simp only [hasPort, Bool.and_eq_true, decide_eq_true_eq] at hport
          exact List.count_pos_iff.mp (by omega)
        refine lt_of_le_of_ne (List.takeWhile_prefix _).length_le fun hlength => ?_
        have hall := (List.takeWhile_prefix (fun c => decide (c ≠ ':'))).eq_of_length hlength
        simpa using List.takeWhile_eq_self_iff.mp hall ':' hcolon
      · obtain rfl := Except.ok.inj h
        exact .inl ⟨hhead, by simpa using hport, rfl⟩

theorem sublist_of_withoutPort (h : withoutPort raw host = .ok n) : n.Sublist host := by
  unfold withoutPort at h
  split at h
  · next stripped =>
      rw [bracketedHost_eq_ok h]
      exact (List.takeWhile_sublist _).cons _
  · obtain rfl := Except.ok.inj h
    split_ifs
    · exact List.takeWhile_sublist _
    · exact List.Sublist.refl _

theorem hasSchemeOrPath_eq_true_iff : hasSchemeOrPath host = true ↔
    '/' ∈ host ∨ '?' ∈ host ∨ '#' ∈ host := by
  simp only [hasSchemeOrPath, Bool.or_eq_true, decide_eq_true_eq, or_assoc]
  constructor
  · rintro (hscheme | hsign)
    · obtain ⟨i, hi⟩ := Option.isSome_iff_exists.mp hscheme
      obtain ⟨-, hoccurs, -⟩ := find?_eq_some_iff.mp hi
      exact .inl (List.mem_of_mem_drop (List.IsPrefix.subset hoccurs (by simp)))
    · exact hsign
  · exact .inr

theorem normalizeNetworkRuleHost_eq_ok : normalizeNetworkRuleHost raw = .ok n ↔
    Text.trim raw ≠ [] ∧ hasSchemeOrPath (Text.trim raw) = false ∧
      ∃ host, withoutPort raw (Text.trim raw) = .ok host ∧ specificHost host = .ok n := by
  dsimp only [normalizeNetworkRuleHost]
  split_ifs with hnil hscheme
  · simp [hnil]
  · simp [hscheme]
  · rw [Result.bind_eq_ok]
    simp [hnil, hscheme]

theorem length_trim_le (s : Text) : (Text.trim s).length ≤ s.length :=
  (Text.trimEnd_prefix_self _).length_le.trans (List.dropWhile_suffix _).length_le

theorem trimEndDots_eq_self_iff : trimEndDots host = host ↔ host.getLast? ≠ some '.' := by
  rw [trimEndDots, List.rdropWhile_eq_self_iff]
  constructor
  · intro h hlast
    have hne : host ≠ [] := by
      rintro rfl
      cases hlast
    rw [List.getLast?_eq_some_getLast hne] at hlast
    exact h hne (decide_eq_true (Option.some_inj.mp hlast))
  · intro h hne hdot
    exact h (by rw [List.getLast?_eq_some_getLast hne, of_decide_eq_true hdot])

theorem getLast?_toAsciiLowercase_eq_iff {d : Char} (hd : d.isAlpha = false) (s : Text) :
    (toAsciiLowercase s).getLast? = some d ↔ s.getLast? = some d := by
  rw [toAsciiLowercase, List.getLast?_map, Option.map_eq_some_iff]
  simp [NetworkProxy.toLower_eq_iff hd]

theorem isDigit_toLower (c : Char) : c.toLower.isDigit = c.isDigit := by
  cases hupper : c.isUpper with
  | true =>
      exact forall_isUpper (p := fun c => c.toLower.isDigit = c.isDigit) (by decide) hupper
  | false => rw [toLower_of_not_isUpper hupper]

theorem hasPort_toAsciiLowercase (host : Text) :
    hasPort (toAsciiLowercase host) = hasPort host := by
  have hcolon : ':'.isAlpha = false := by decide
  have hport : ∀ s : Text, isPort (toAsciiLowercase s) = isPort s := by
    intro s
    simp [isPort, toAsciiLowercase, List.all_map, Function.comp_def, isDigit_toLower]
  have hrest : ((toAsciiLowercase host).dropWhile (· ≠ ':')).drop 1 =
      toAsciiLowercase ((host.dropWhile (· ≠ ':')).drop 1) := by
    rw [toAsciiLowercase, toAsciiLowercase, List.map_drop, List.dropWhile_map]
    congr 3
    funext c
    simp [toLower_eq_iff hcolon]
  simp only [hasPort, count_toAsciiLowercase hcolon, takeWhile_ne_toAsciiLowercase hcolon, hrest,
    hport]
  simp [toAsciiLowercase]

/-- Case does not matter for being bare. -/
theorem isBareHost_toAsciiLowercase (host : Text) :
    IsBareHost (toAsciiLowercase host) ↔ IsBareHost host := by
  have hopen : '['.isAlpha = false := by decide
  have hdot : '.'.isAlpha = false := by decide
  simp only [IsBareHost, ne_eq, head?_toAsciiLowercase_eq_iff hopen, hasPort_toAsciiLowercase,
    getLast?_toAsciiLowercase_eq_iff hdot]

theorem length_toAsciiLowercase (s : Text) : (toAsciiLowercase s).length = s.length :=
  List.length_map _

theorem sublist_trim_trimEndDots (s : Text) : (Text.trim (trimEndDots s)).Sublist s :=
  ((Text.trimEnd_prefix_self _).sublist.trans (List.dropWhile_suffix _).sublist).trans
    (List.rdropWhile_prefix _ s).sublist

/-- A sign in a normalised host was there before. -/
theorem mem_of_normalized {d : Char} (hd : d.isAlpha = false)
    (h : normalizeNetworkRuleHost raw = .ok n) (hmem : d ∈ n) : d ∈ Text.trim raw := by
  obtain ⟨-, -, host, hport, hspecific⟩ := normalizeNetworkRuleHost_eq_ok.mp h
  obtain ⟨rfl, -, -, -⟩ := specificHost_eq_ok.mp hspecific
  rw [mem_toAsciiLowercase_iff hd] at hmem
  exact (sublist_of_withoutPort hport).subset ((sublist_trim_trimEndDots host).subset hmem)

theorem hasSchemeOrPath_of_normalized (h : normalizeNetworkRuleHost raw = .ok n) :
    hasSchemeOrPath n = false := by
  obtain ⟨-, hpath, -⟩ := normalizeNetworkRuleHost_eq_ok.mp h
  by_contra hsome
  rw [Bool.not_eq_false, hasSchemeOrPath_eq_true_iff] at hsome
  refine absurd hpath (Bool.not_eq_false _ ▸ hasSchemeOrPath_eq_true_iff.mpr ?_)
  exact hsome.imp (mem_of_normalized (by decide) h)
    (Or.imp (mem_of_normalized (by decide) h) (mem_of_normalized (by decide) h))

/-- A normalised host is a fixed point exactly when it is bare: all that normalising takes off
makes it shorter. -/
theorem normalizeNetworkRuleHost_normalized_iff (h : normalizeNetworkRuleHost raw = .ok n) :
    normalizeNetworkRuleHost n = .ok n ↔ IsBareHost n := by
  have hpath := hasSchemeOrPath_of_normalized h
  obtain ⟨-, -, host, -, hspecific⟩ := normalizeNetworkRuleHost_eq_ok.mp h
  obtain ⟨heq, hne, hstar, hblank⟩ := specificHost_eq_ok.mp hspecific
  have htrim := trim_of_noWhitespace hblank
  rw [normalizeNetworkRuleHost_eq_ok, htrim]
  constructor
  · rintro ⟨-, -, again, hport, hagain⟩
    obtain ⟨hsame, -⟩ := specificHost_eq_ok.mp hagain
    have hlength := congrArg List.length hsame
    rw [length_toAsciiLowercase] at hlength
    have hshort := (sublist_trim_trimEndDots again).length_le
    rcases withoutPort_eq_ok hport with ⟨hhead, hport, rfl⟩ | hlt
    · refine ⟨hhead, hport, trimEndDots_eq_self_iff.mp ?_⟩
      have hdots : (trimEndDots again).length ≤ again.length :=
        (List.rdropWhile_prefix _ again).length_le
      have htrimmed := length_trim_le (trimEndDots again)
      exact (List.rdropWhile_prefix _ again).eq_of_length (by
        rw [trimEndDots] at hdots hlength htrimmed
        omega)
    · omega
  · rintro ⟨hhead, hport, hlast⟩
    refine ⟨hne, hpath, n, ?_, specificHost_eq_ok.mpr ⟨?_, hne, hstar, hblank⟩⟩
    · unfold withoutPort
      split
      · simp at hhead
      · rw [if_neg (by simp [hport])]
    · rw [trimEndDots_eq_self_iff.mpr hlast, htrim, heq, toAsciiLowercase_idem]

theorem normalizeNetworkRuleHost_normalized_iff_readsBack
    (h : normalizeNetworkRuleHost raw = .ok n) :
    normalizeNetworkRuleHost n = .ok n ↔ ReadsBack raw := by
  rw [normalizeNetworkRuleHost_normalized_iff h]
  obtain ⟨-, -, host, hport, hspecific⟩ := normalizeNetworkRuleHost_eq_ok.mp h
  obtain ⟨rfl, -⟩ := specificHost_eq_ok.mp hspecific
  rw [isBareHost_toAsciiLowercase, withoutPort_trim hport]
  exact Iff.rfl

end Normalised

/-! ## What is reloaded -/

section Reload

variable {toJson : Text → Text} {host n : Text} {protocol : NetworkRuleProtocol}
  {decision : Decision} {justification : Option Text}

theorem networkRuleCall_of_host (hhost : normalizeNetworkRuleHost host = .ok n)
    (hblank : isBlank justification = false) :
    networkRuleCall host protocol decision justification =
      .ok ⟨n, protocol.asPolicyString, networkRuleDecision decision, justification⟩ := by
  rw [networkRuleCall, hhost]
  dsimp only
  rw [hblank, if_neg Bool.false_ne_true]

/-- An update that succeeds has written a line and added a rule for the same host. -/
theorem appendNetworkRuleAndUpdate_eq_ok {io : Except NetworkRuleUpdateError Unit}
    {manager : NetworkRuleManager} (hhost : normalizeNetworkRuleHost host = .ok n)
    (h : (manager.appendNetworkRuleAndUpdate toJson io host protocol decision justification).1 =
      .ok ()) :
    isBlank justification = false ∧
      (manager.appendNetworkRuleAndUpdate toJson io host protocol decision justification).2 =
        ⟨manager.networkRules ++ [⟨n, protocol, decision, justification⟩],
          appendLockedLine manager.rulesFile (NetworkRuleCall.line toJson
            ⟨n, protocol.asPolicyString, networkRuleDecision decision, justification⟩)⟩ := by
  rcases io with error | ⟨⟨⟩⟩
  · cases h
  cases hblank : isBlank justification with
  | true =>
      simp [NetworkRuleManager.appendNetworkRuleAndUpdate, appendNetworkRule, networkRuleCall,
        hhost, hblank, Except.map] at h
  | false =>
      have hcall : networkRuleCall host protocol decision justification =
          .ok ⟨n, protocol.asPolicyString, networkRuleDecision decision, justification⟩ :=
        networkRuleCall_of_host hhost hblank
      have hadd : addNetworkRule manager.networkRules host protocol decision justification =
          .ok (manager.networkRules ++ [⟨n, protocol, decision, justification⟩]) := by
        simp [addNetworkRule, hhost, hblank, bind, Except.bind]
      refine ⟨rfl, ?_⟩
      simp [NetworkRuleManager.appendNetworkRuleAndUpdate, appendNetworkRule, hcall, Except.map,
        hadd]

/-- Evaluating the call that was written adds the rule for the host as it is normalised again. -/
theorem evaluate_written (hblank : isBlank justification = false) :
    NetworkRuleCall.evaluate
        ⟨n, protocol.asPolicyString, networkRuleDecision decision, justification⟩ =
      (normalizeNetworkRuleHost n).map fun host => ⟨host, protocol, decision, justification⟩ := by
  simp only [NetworkRuleCall.evaluate, NetworkRuleProtocol.parse_asPolicyString,
    parseNetworkRuleDecision_networkRuleDecision, hblank, bind, Except.bind, Except.map]
  cases normalizeNetworkRuleHost n <;> rfl

/-- A host that is accepted is normalised to itself, and the line written for it is read as the
rule in memory, exactly when what was written reads back. -/
theorem networkRule_reloads_iff (hhost : normalizeNetworkRuleHost host = .ok n) :
    (normalizeNetworkRuleHost n = .ok n ↔ ReadsBack host) ∧
      ∀ (toJson : Text → Text) (starlark : Text → Option NetworkRuleCall)
        (io : Except NetworkRuleUpdateError Unit) (manager : NetworkRuleManager)
        (protocol : NetworkRuleProtocol) (decision : Decision) (justification : Option Text),
        let result :=
          manager.appendNetworkRuleAndUpdate toJson io host protocol decision justification
        result.1 = .ok () → ∃ call rule,
          networkRuleCall host protocol decision justification = .ok call ∧
          result.2.rulesFile = appendLockedLine manager.rulesFile (call.line toJson) ∧
          result.2.networkRules = manager.networkRules ++ [rule] ∧
          (starlark (call.line toJson) = some call →
            ((starlark (call.line toJson)).map NetworkRuleCall.evaluate = some (.ok rule) ↔
              ReadsBack host)) := by
  refine ⟨normalizeNetworkRuleHost_normalized_iff_readsBack hhost, ?_⟩
  intro toJson starlark io manager protocol decision justification result hok
  obtain ⟨hblank, hresult⟩ := appendNetworkRuleAndUpdate_eq_ok hhost hok
  refine ⟨_, _, networkRuleCall_of_host hhost hblank,
    congrArg NetworkRuleManager.rulesFile hresult,
    congrArg NetworkRuleManager.networkRules hresult, ?_⟩
  intro hread
  rw [hread, Option.map_some, evaluate_written hblank,
    ← normalizeNetworkRuleHost_normalized_iff_readsBack hhost]
  cases hagain : normalizeNetworkRuleHost n with
  | error error => simp [Except.map]
  | ok again => simp [Except.map]

/-- Brackets hide a port, which is taken off when the host is read again. -/
theorem networkRule_changes_when_reloaded :
    normalizeNetworkRuleHost "[localhost:8080]".toList = .ok "localhost:8080".toList ∧
      normalizeNetworkRuleHost "localhost:8080".toList = .ok "localhost".toList := by
  decide +kernel

/-- A port of a host in capitals is not kept, and the rule for the host is reloaded. -/
theorem networkRule_reloads_example :
    let toJson : Text → Text := fun s => '"' :: s ++ ['"']
    let line := "network_rule(host=\"example.com\", protocol=\"https\", decision=\"deny\")".toList
    let starlark : Text → Option NetworkRuleCall := fun read =>
      if read = line then some ⟨"example.com".toList, "https".toList, "deny".toList, none⟩ else none
    let result := NetworkRuleManager.appendNetworkRuleAndUpdate toJson (.ok ()) ⟨[], []⟩
      "Example.COM:443".toList .https .forbidden none
    normalizeNetworkRuleHost "example.com".toList = .ok "example.com".toList ∧
      result.2.rulesFile = line ++ ['\n'] ∧
      ∃ rule, result.2.networkRules = [rule] ∧
        (starlark line).map NetworkRuleCall.evaluate = some (.ok rule) := by
  intro toJson line starlark result
  have hreads : ReadsBack "Example.COM:443".toList := by decide +kernel
  obtain ⟨hagain, hreload⟩ := @networkRule_reloads_iff "Example.COM:443".toList
    "example.com".toList (by decide +kernel)
  obtain ⟨call, rule, hcall, -, hrules, hread⟩ := hreload toJson starlark (.ok ()) ⟨[], []⟩ .https
    .forbidden none (by decide +kernel)
  have hwritten : networkRuleCall "Example.COM:443".toList .https .forbidden none =
      .ok ⟨"example.com".toList, "https".toList, "deny".toList, none⟩ := by decide +kernel
  obtain rfl := Except.ok.inj (hcall.symm.trans hwritten)
  have hline : NetworkRuleCall.line toJson
      ⟨"example.com".toList, "https".toList, "deny".toList, none⟩ = line := by decide +kernel
  rw [hline] at hread
  refine ⟨hagain.mpr hreads, by decide +kernel, rule, hrules, (hread ?_).mpr hreads⟩
  decide +kernel

end Reload

end Codewith.ExecPolicy
