import Codewith.NetworkProxy.Policy

/-!
# Managed constraints of the network proxy

A configuration is checked against what the managed configuration allows, field by field.
-/

namespace Codewith.NetworkProxy

open Lib

inductive NetworkMode
  | limited
  | full
  deriving DecidableEq, Repr

def networkModeRank : NetworkMode → Nat
  | .limited => 0
  | .full => 1

def NetworkMode.name : NetworkMode → Text
  | .limited => "Limited".toList
  | .full => "Full".toList

inductive NetworkDomainPermission
  | none
  | allow
  | deny
  deriving DecidableEq, Repr

def NetworkDomainPermission.rank : NetworkDomainPermission → Nat
  | .none => 0
  | .allow => 1
  | .deny => 2

structure NetworkDomainPermissionEntry where
  pattern : Text
  permission : NetworkDomainPermission
  deriving DecidableEq, Repr

/-- A pattern that is there twice keeps its place and the stricter permission. -/
def addEntry (entries : List NetworkDomainPermissionEntry) (entry : NetworkDomainPermissionEntry) :
    List NetworkDomainPermissionEntry :=
  if entries.any fun old => old.pattern = entry.pattern then
    entries.map fun old =>
      if old.pattern = entry.pattern ∧ old.permission.rank < entry.permission.rank then entry
      else old
  else entries ++ [entry]

def effectiveEntries (entries : List NetworkDomainPermissionEntry) :
    List NetworkDomainPermissionEntry :=
  entries.foldl addEntry []

inductive NetworkUnixSocketPermission
  | allow
  | deny
  deriving DecidableEq, Repr

/-- The settings that are constrained.  The hooks are there by what their own check says. -/
structure NetworkProxySettings where
  enabled : Bool := false
  allowUpstreamProxy : Bool := true
  dangerouslyAllowNonLoopbackProxy : Bool := false
  dangerouslyAllowAllUnixSockets : Bool := false
  mode : NetworkMode := .full
  domains : Option (List NetworkDomainPermissionEntry) := none
  unixSockets : Option (List (Text × NetworkUnixSocketPermission)) := none
  allowLocalBinding : Bool := false
  mitmHookError : Option Text := none
  deriving DecidableEq, Repr

namespace NetworkProxySettings

def domainEntries (settings : NetworkProxySettings) (permission : NetworkDomainPermission) :
    Option (List Text) :=
  (settings.domains.map fun entries =>
    ((effectiveEntries entries).filter fun entry => entry.permission = permission).map
      (·.pattern)).filter fun patterns => patterns ≠ []

def allowedDomains (settings : NetworkProxySettings) : List Text :=
  (settings.domainEntries .allow).getD []

def deniedDomains (settings : NetworkProxySettings) : List Text :=
  (settings.domainEntries .deny).getD []

def allowUnixSockets (settings : NetworkProxySettings) : List Text :=
  ((settings.unixSockets.getD []).filter fun socket => socket.2 = .allow).map Prod.fst

end NetworkProxySettings

structure NetworkProxyConstraints where
  enabled : Option Bool := none
  mode : Option NetworkMode := none
  allowUpstreamProxy : Option Bool := none
  dangerouslyAllowNonLoopbackProxy : Option Bool := none
  dangerouslyAllowAllUnixSockets : Option Bool := none
  allowedDomains : Option (List Text) := none
  allowlistExpansionEnabled : Option Bool := none
  deniedDomains : Option (List Text) := none
  denylistExpansionEnabled : Option Bool := none
  allowUnixSockets : Option (List Text) := none
  allowLocalBinding : Option Bool := none
  deriving DecidableEq, Repr

/-- What an error shows of a value. -/
inductive Shown
  | text (text : Text)
  | entries (entries : List Text)
  deriving DecidableEq, Repr

structure InvalidValue where
  fieldName : Text
  candidate : Shown
  allowed : Shown
  deriving DecidableEq, Repr

abbrev Check := Except InvalidValue Unit

def invalidValue (fieldName : String) (candidate allowed : Shown) : Check :=
  .error ⟨fieldName.toList, candidate, allowed⟩

def shownTrue : Shown := .text "true".toList

def disabled : Shown := .text "false (disabled by managed config)".toList

def lowerAll (entries : List Text) : List Text := entries.map toAsciiLowercase

/-- Sets of entries are compared, not their order. -/
def sameEntries (left right : List Text) : Bool := left ⊆ right ∧ right ⊆ left

def validateNonGlobalWildcardDomainPatterns (fieldName : String) (patterns : List Text) : Check :=
  match patterns.find? isGlobalWildcardDomainPattern with
  | some pattern => invalidValue fieldName (.text (Text.trim pattern))
      (.text "exact hosts or scoped wildcards like *.example.com or **.example.com".toList)
  | none => .ok ()

/-- A setting that is on although the managed configuration turns it off. -/
def checkDisabled (fieldName : String) (candidate isAllowed : Bool) : Check :=
  if candidate ∧ ¬ isAllowed then invalidValue fieldName shownTrue disabled else .ok ()

def checkMode (candidate : NetworkMode) : Option NetworkMode → Check
  | some maxMode =>
      if networkModeRank maxMode < networkModeRank candidate then
        invalidValue "network.mode" (.text candidate.name)
          (.text (maxMode.name ++ " or more restrictive".toList))
      else .ok ()
  | none => .ok ()

/-- Everything that is managed is still there, unless it is denied. -/
def checkExpandedAllowlist (candidate denied managed : List Text) : Check :=
  let missing := (lowerAll managed).filter fun entry =>
    entry ∉ lowerAll candidate ∧ entry ∉ lowerAll denied
  if missing = [] then .ok ()
  else invalidValue "network.allowed_domains"
    (.text "missing managed allowed_domains entries".toList) (.entries missing)

def checkFixedAllowlist (candidate denied managed : List Text) : Check :=
  if sameEntries (lowerAll candidate)
      ((lowerAll managed).filter fun entry => entry ∉ lowerAll denied) then .ok ()
  else invalidValue "network.allowed_domains" (.entries candidate)
    (.text "must match managed allowed_domains".toList)

/-- Every entry is allowed by a managed one. -/
def checkNarrowedAllowlist (hostParse : HostParser) (candidate managed : List Text) : Check :=
  let invalid := candidate.filter fun entry => !managed.any fun managedEntry =>
    (DomainPattern.parseForConstraints hostParse managedEntry).allows
      (DomainPattern.parseForConstraints hostParse entry)
  if invalid = [] then .ok ()
  else invalidValue "network.allowed_domains" (.entries invalid)
    (.text "subset of managed allowed_domains".toList)

def checkAllowedDomains (hostParse : HostParser) (settings : NetworkProxySettings)
    (constraints : NetworkProxyConstraints) : Check :=
  match constraints.allowedDomains with
  | none => .ok ()
  | some managed => do
      validateNonGlobalWildcardDomainPatterns "network.allowed_domains" managed
      match constraints.allowlistExpansionEnabled with
      | some true => checkExpandedAllowlist settings.allowedDomains settings.deniedDomains managed
      | some false => checkFixedAllowlist settings.allowedDomains settings.deniedDomains managed
      | none => checkNarrowedAllowlist hostParse settings.allowedDomains managed

def checkFixedDenylist (candidate managed : List Text) : Check :=
  if sameEntries (lowerAll candidate) (lowerAll managed) then .ok ()
  else invalidValue "network.denied_domains" (.entries candidate)
    (.text "must match managed denied_domains".toList)

/-- Everything that is managed is still denied. -/
def checkRequiredDenylist (candidate managed : List Text) : Check :=
  let missing := (lowerAll managed).filter fun entry => entry ∉ lowerAll candidate
  if missing = [] then .ok ()
  else invalidValue "network.denied_domains"
    (.text "missing managed denied_domains entries".toList) (.entries missing)

def checkDeniedDomains (settings : NetworkProxySettings) (constraints : NetworkProxyConstraints) :
    Check :=
  match constraints.deniedDomains with
  | none => .ok ()
  | some managed => do
      validateNonGlobalWildcardDomainPatterns "network.denied_domains" managed
      match constraints.denylistExpansionEnabled with
      | some false => checkFixedDenylist settings.deniedDomains managed
      | some true | none => checkRequiredDenylist settings.deniedDomains managed

def checkUnixSockets (settings : NetworkProxySettings) (constraints : NetworkProxyConstraints) :
    Check :=
  match constraints.allowUnixSockets with
  | none => .ok ()
  | some managed =>
      let invalid := settings.allowUnixSockets.filter fun entry =>
        toAsciiLowercase entry ∉ lowerAll managed
      if invalid = [] then .ok ()
      else invalidValue "network.allow_unix_sockets" (.entries invalid)
        (.text "subset of managed allow_unix_sockets".toList)

def checkMitmHooks (settings : NetworkProxySettings) : Check :=
  match settings.mitmHookError with
  | some error => invalidValue "network.mitm_hooks" (.text error)
      (.text "valid MITM hook configuration".toList)
  | none => .ok ()

def validatePolicyAgainstConstraints (hostParse : HostParser) (settings : NetworkProxySettings)
    (constraints : NetworkProxyConstraints) : Check := do
  checkMitmHooks settings
  validateNonGlobalWildcardDomainPatterns "network.denied_domains" settings.deniedDomains
  checkDisabled "network.enabled" settings.enabled (constraints.enabled.getD true)
  checkMode settings.mode constraints.mode
  checkDisabled "network.allow_upstream_proxy" settings.allowUpstreamProxy
    (constraints.allowUpstreamProxy.getD true)
  checkDisabled "network.dangerously_allow_non_loopback_proxy"
    settings.dangerouslyAllowNonLoopbackProxy
    (constraints.dangerouslyAllowNonLoopbackProxy.getD true)
  checkDisabled "network.dangerously_allow_all_unix_sockets"
    settings.dangerouslyAllowAllUnixSockets
    (constraints.dangerouslyAllowAllUnixSockets.getD constraints.allowUnixSockets.isNone)
  checkDisabled "network.allow_local_binding" settings.allowLocalBinding
    (constraints.allowLocalBinding.getD true)
  checkAllowedDomains hostParse settings constraints
  checkDeniedDomains settings constraints
  checkUnixSockets settings constraints

/-! ### What has been checked -/

section Checked

variable {hostParse : HostParser} {settings : NetworkProxySettings}
  {constraints : NetworkProxyConstraints} {managed : List Text}

theorem checkAllowedDomains_of_ok
    (h : validatePolicyAgainstConstraints hostParse settings constraints = .ok ()) :
    checkAllowedDomains hostParse settings constraints = .ok () := by
  unfold validatePolicyAgainstConstraints at h
  simp only [Result.bind_eq_ok] at h
  obtain ⟨_, -, _, -, _, -, _, -, _, -, _, -, _, -, _, -, _, hallowed, -⟩ := h
  exact hallowed

theorem narrowed_of_ok
    (h : validatePolicyAgainstConstraints hostParse settings constraints = .ok ())
    (hmanaged : constraints.allowedDomains = some managed)
    (hexpansion : constraints.allowlistExpansionEnabled = none) :
    ∀ entry ∈ settings.allowedDomains, ∃ managedEntry ∈ managed,
      (DomainPattern.parseForConstraints hostParse managedEntry).allows
        (DomainPattern.parseForConstraints hostParse entry) = true := by
  have hchecked := checkAllowedDomains_of_ok h
  unfold checkAllowedDomains at hchecked
  simp only [hmanaged, hexpansion, Result.bind_eq_ok] at hchecked
  obtain ⟨_, -, hnarrowed⟩ := hchecked
  unfold checkNarrowedAllowlist at hnarrowed
  dsimp only at hnarrowed
  split at hnarrowed
  · rename_i hnil
    intro entry hentry
    have hnot := List.filter_eq_nil_iff.mp hnil entry hentry
    simpa using hnot
  · simp [invalidValue] at hnarrowed

theorem fixed_of_ok
    (h : validatePolicyAgainstConstraints hostParse settings constraints = .ok ())
    (hmanaged : constraints.allowedDomains = some managed)
    (hexpansion : constraints.allowlistExpansionEnabled = some false) :
    ∀ entry ∈ settings.allowedDomains, ∃ managedEntry ∈ managed,
      toAsciiLowercase managedEntry = toAsciiLowercase entry := by
  have hchecked := checkAllowedDomains_of_ok h
  unfold checkAllowedDomains at hchecked
  simp only [hmanaged, hexpansion, Result.bind_eq_ok] at hchecked
  obtain ⟨_, -, hfixed⟩ := hchecked
  unfold checkFixedAllowlist at hfixed
  split at hfixed
  · rename_i hsame
    unfold sameEntries at hsame
    rw [decide_eq_true_eq] at hsame
    intro entry hentry
    have hmem := hsame.1 (List.mem_map_of_mem hentry)
    exact List.mem_map.mp (List.mem_of_mem_filter hmem)
  · simp [invalidValue] at hfixed

end Checked

end Codewith.NetworkProxy
