import Codewith.Lib.Transaction
import Codewith.NetworkProxy.Allowlist

/-!
# The state of the network proxy

The calls of `runtime.rs` that write the state of the proxy.  A call holds the lock only for single
reads and writes, and what it does in between interleaves with other calls: a task stands between
two such steps.  Every step is one lock-held access, or the answer of the reloader.

`blocked_total` is to count the requests that `record_blocked` has recorded.  A call that writes a
whole new state carries the count over, either as it is at the write or as it was at an earlier
read, or, in `force_reload`, not at all.
-/

namespace Codewith.NetworkProxy

open Lib

def maxBlockedEvents : Nat := 200

structure BlockedRequest where
  host : Text
  reason : Text
  client : Option Text := none
  method : Option Text := none
  mode : Option NetworkMode := none
  protocol : Text
  decision : Option Text := none
  source : Option Text := none
  port : Option Nat := none
  timestamp : Int
  deriving DecidableEq, Repr

/-- The settings with those that are not constrained.  The hooks are there by their text. -/
structure NetworkProxyConfig where
  network : NetworkProxySettings := {}
  proxyUrl : Text := "http://127.0.0.1:3128".toList
  enableSocks5 : Bool := true
  socksUrl : Text := "http://127.0.0.1:8081".toList
  enableSocks5Udp : Bool := true
  mitm : Bool := false
  mitmHooks : Text := "[]".toList
  deriving DecidableEq, Repr

/-- The hooks and their state are left out: nothing here reads them. -/
structure ConfigState where
  config : NetworkProxyConfig
  allowSet : GlobSet
  denySet : GlobSet
  constraints : NetworkProxyConstraints
  blocked : List BlockedRequest
  blockedTotal : Nat

/-! ### Building a state -/

/-- The parts of the build that come from elsewhere: the parser of hosts, the globs, and whether the
socket paths and the hooks of a configuration are accepted. -/
structure Builders where
  hostParse : HostParser
  globs : GlobEngine
  acceptsSocketPaths : NetworkProxyConfig → Bool
  acceptsHooks : NetworkProxyConfig → Bool

inductive BuildError
  | socketPaths
  | invalidValue (error : InvalidValue)
  | globs (error : CompileError)
  | hooks
  deriving DecidableEq, Repr

def buildConfigState (builders : Builders) (config : NetworkProxyConfig)
    (constraints : NetworkProxyConstraints) : Except BuildError ConfigState := do
  if !builders.acceptsSocketPaths config then throw .socketPaths
  (validateNonGlobalWildcardDomainPatterns "network.denied_domains"
    config.network.deniedDomains).mapError .invalidValue
  let denySet ← (compileDenylistGlobset builders.globs config.network.deniedDomains).mapError .globs
  let allowSet ← (compileAllowlistGlobset builders.globs config.network.allowedDomains).mapError
    .globs
  if !builders.acceptsHooks config then throw .hooks
  pure { config, allowSet, denySet, constraints, blocked := [], blockedTotal := 0 }

inductive DomainListKind
  | allow
  | deny
  deriving DecidableEq, Repr

namespace DomainListKind

def listName : DomainListKind → Text
  | allow => "allowlist".toList
  | deny => "denylist".toList

def constraintField : DomainListKind → Text
  | allow => "network.allowed_domains".toList
  | deny => "network.denied_domains".toList

def permission : DomainListKind → NetworkDomainPermission
  | allow => .allow
  | deny => .deny

def entries : DomainListKind → NetworkProxySettings → List Text
  | allow => NetworkProxySettings.allowedDomains
  | deny => NetworkProxySettings.deniedDomains

def oppositeEntries : DomainListKind → NetworkProxySettings → List Text
  | allow => NetworkProxySettings.deniedDomains
  | deny => NetworkProxySettings.allowedDomains

end DomainListKind

def NetworkProxySettings.upsertDomainPermission (settings : NetworkProxySettings) (host : Text)
    (permission : NetworkDomainPermission) : NetworkProxySettings :=
  { settings with
    domains := some ((settings.domains.getD []).filter
      (fun entry => normalizeHost entry.pattern ≠ normalizeHost host) ++ [⟨host, permission⟩]) }

/-- `Host::parse`. -/
def parseHost (input : Text) : Option Text :=
  if normalizeHost input = [] then none else some (normalizeHost input)

/-! ### Calls and their steps -/

inductive ProxyError
  | reload (message : Text)
  | invalidHost
  | constrained (field : Text) (error : InvalidValue)
  | notCompiled (listName : Text) (error : BuildError)
  deriving DecidableEq, Repr

inductive Call
  | recordBlocked (entry : BlockedRequest)
  | reloadIfNeeded
  | replaceConfigState (newState : ConfigState)
  | updateDomainList (host : Text) (target : DomainListKind)
  | forceReload

/-- Where a call stands between two accesses. -/
inductive Task
  /-- In `reload_if_needed`, before the answer of the reloader. -/
  | asking (call : Call)
  /-- With a loaded state, before the counters are read. -/
  | reloading (newState : ConfigState) (call : Call)
  /-- With the counters that were read, before the write. -/
  | writingBack (newState : ConfigState) (call : Call)
  /-- `reload_if_needed` has returned. -/
  | ready (call : Call)
  /-- With the state that was read and the one that was built from it, before the write. -/
  | updating (previousCfg : NetworkProxyConfig) (constraints : NetworkProxyConstraints)
      (newState : ConfigState) (host : Text) (target : DomainListKind)
  /-- In `force_reload`, before the answer of the reloader. -/
  | forcing
  | forced (newState : ConfigState)
  | returned (call : Call) (result : Except ProxyError Unit)

/-- What the reloader answers. -/
inductive Answer
  | failed (message : Text)
  | unchanged
  | loaded (newState : ConfigState)

def Call.start : Call → Task
  | .updateDomainList host target =>
      if parseHost host = none then .returned (.updateDomainList host target) (.error .invalidHost)
      else .asking (.updateDomainList host target)
  | .forceReload => .ready .forceReload
  | call => .asking call

/-- The lock-held part of `record_blocked`. -/
def ConfigState.record (shared : ConfigState) (entry : BlockedRequest) : ConfigState :=
  let blocked := shared.blocked ++ [entry]
  { shared with
    blocked := blocked.drop (blocked.length - maxBlockedEvents)
    blockedTotal := min (2 ^ 64 - 1) (shared.blockedTotal + 1) }

/-- `update_domain_list` up to the write, from the state that it reads. -/
def prepareUpdate (builders : Builders) (host : Text) (target : DomainListKind)
    (shared : ConfigState) : Task :=
  let call := Call.updateDomainList host target
  let normalizedHost := normalizeHost host
  let contains (entries : List Text) :=
    entries.any fun entry => normalizeHost entry = normalizedHost
  if contains (target.entries shared.config.network) ∧
      ¬ contains (target.oppositeEntries shared.config.network) then .returned call (.ok ())
  else
    let candidate : NetworkProxyConfig :=
      { shared.config with
        network := shared.config.network.upsertDomainPermission normalizedHost target.permission }
    match validatePolicyAgainstConstraints builders.hostParse candidate.network shared.constraints
      with
    | .error error => .returned call (.error (.constrained target.constraintField error))
    | .ok () =>
        match buildConfigState builders candidate shared.constraints with
        | .error error => .returned call (.error (.notCompiled target.listName error))
        | .ok newState =>
            .updating shared.config shared.constraints
              { newState with blocked := shared.blocked, blockedTotal := shared.blockedTotal }
              host target

/-- One step of a call after `reload_if_needed`. -/
def Call.step (builders : Builders) (shared : ConfigState) : Call → Task × ConfigState
  | .recordBlocked entry => (.returned (.recordBlocked entry) (.ok ()), shared.record entry)
  | .reloadIfNeeded => (.returned .reloadIfNeeded (.ok ()), shared)
  | .replaceConfigState newState =>
      (.returned (.replaceConfigState newState) (.ok ()),
        { newState with blocked := shared.blocked, blockedTotal := shared.blockedTotal })
  | .updateDomainList host target => (prepareUpdate builders host target shared, shared)
  | .forceReload => (.forcing, shared)

/-- One step of a task.  The answer is used only by those that wait for the reloader. -/
def Task.step (builders : Builders) (answer : Answer) (shared : ConfigState) :
    Task → Task × ConfigState
  | .asking call =>
      match answer with
      | .failed message => (.returned call (.error (.reload message)), shared)
      | .unchanged => (.ready call, shared)
      | .loaded newState => (.reloading newState call, shared)
  | .reloading newState call =>
      (.writingBack
        { newState with blocked := shared.blocked, blockedTotal := shared.blockedTotal } call,
        shared)
  | .writingBack newState call => (.ready call, newState)
  | .ready call => call.step builders shared
  | .updating previousCfg constraints newState host target =>
      if shared.constraints ≠ constraints ∨ shared.config ≠ previousCfg then
        (.asking (.updateDomainList host target), shared)
      else (.returned (.updateDomainList host target) (.ok ()), newState)
  | .forcing =>
      match answer with
      | .failed message => (.returned .forceReload (.error (.reload message)), shared)
      | .unchanged => (.forcing, shared)
      | .loaded newState => (.forced newState, shared)
  | .forced newState =>
      (.returned .forceReload (.ok ()), { newState with blocked := shared.blocked })
  | .returned call result => (.returned call result, shared)

/-! ### Runs -/

structure NetworkProxyState where
  shared : ConfigState
  tasks : List Task := []

inductive Action
  | start (call : Call)
  | advance (index : Nat) (answer : Answer)

def applyAction (builders : Builders) : Action → NetworkProxyState → NetworkProxyState
  | .start call, s => { s with tasks := s.tasks ++ [call.start] }
  | .advance index answer, s =>
      match s.tasks[index]? with
      | none => s
      | some task =>
          { shared := (task.step builders answer s.shared).2
            tasks := s.tasks.set index (task.step builders answer s.shared).1 }

def Task.isRecorded : Task → Bool
  | .returned (.recordBlocked _) (.ok ()) => true
  | _ => false

/-- The number of completed `record_blocked` calls. -/
def NetworkProxyState.recorded (s : NetworkProxyState) : Nat := s.tasks.countP Task.isRecorded

/-- A write keeps the count if it brings the count as it is now: no request was recorded since a
reload or an update of a list has read it, and a forced reload loads just that count.  A recorded
request is counted below the largest number of 64 bits. -/
def Task.keepsTotal (shared : ConfigState) : Task → Bool
  | .ready (.recordBlocked _) => shared.blockedTotal < 2 ^ 64 - 1
  | .writingBack newState _ => newState.blockedTotal = shared.blockedTotal
  | .updating previousCfg constraints newState _ _ =>
      shared.constraints ≠ constraints ∨ shared.config ≠ previousCfg ∨
        newState.blockedTotal = shared.blockedTotal
  | .forced newState => newState.blockedTotal = shared.blockedTotal
  | _ => true

def keepsTotal : Action → NetworkProxyState → Bool
  | .start _, _ => true
  | .advance index _, s => (s.tasks[index]?).all (Task.keepsTotal s.shared)

/-! ### What a step does to the count -/

section Steps

variable {builders : Builders} {answer : Answer} {shared : ConfigState}

/-- The task records a request with its next step. -/
def Task.records : Task → Bool
  | .ready (.recordBlocked _) => true
  | _ => false

theorem isRecorded_prepareUpdate (host : Text) (target : DomainListKind) :
    (prepareUpdate builders host target shared).isRecorded = false := by
  unfold prepareUpdate
  dsimp only
  split
  · rfl
  · split
    · rfl
    · split <;> rfl

theorem isRecorded_returned_error (call : Call) (error : ProxyError) :
    (Task.returned call (.error error)).isRecorded = false := by
  cases call <;> rfl

theorem isRecorded_step (task : Task) :
    (task.step builders answer shared).1.isRecorded = (task.isRecorded || task.records) := by
  cases task with
  | asking call =>
      cases answer with
      | failed message => exact isRecorded_returned_error call _
      | unchanged => rfl
      | loaded newState => rfl
  | reloading newState call => rfl
  | writingBack newState call => rfl
  | ready call =>
      cases call with
      | updateDomainList host target => exact isRecorded_prepareUpdate host target
      | recordBlocked entry => rfl
      | reloadIfNeeded => rfl
      | replaceConfigState newState => rfl
      | forceReload => rfl
  | updating previousCfg constraints newState host target =>
      rw [Task.step]
      split <;> rfl
  | forcing => cases answer <;> rfl
  | forced newState => rfl
  | returned call result => simp [Task.step, Task.records]

theorem total_step_iff (task : Task) :
    (task.step builders answer shared).2.blockedTotal =
      shared.blockedTotal + task.records.toNat ↔ task.keepsTotal shared = true := by
  cases task with
  | asking call => cases answer <;> simp [Task.step, Task.records, Task.keepsTotal]
  | reloading newState call => simp [Task.step, Task.records, Task.keepsTotal]
  | writingBack newState call => simp [Task.step, Task.records, Task.keepsTotal]
  | ready call =>
      cases call with
      | recordBlocked entry =>
          simp only [Task.step, Call.step, ConfigState.record, Task.records, Task.keepsTotal,
            Bool.toNat_true, decide_eq_true_eq]
          omega
      | reloadIfNeeded => simp [Task.step, Call.step, Task.records, Task.keepsTotal]
      | replaceConfigState newState => simp [Task.step, Call.step, Task.records, Task.keepsTotal]
      | updateDomainList host target => simp [Task.step, Call.step, Task.records, Task.keepsTotal]
      | forceReload => simp [Task.step, Call.step, Task.records, Task.keepsTotal]
  | updating previousCfg constraints newState host target =>
      by_cases hstale : shared.constraints ≠ constraints ∨ shared.config ≠ previousCfg
      · rw [Task.step, if_pos hstale]
        have hkeeps : (Task.updating previousCfg constraints newState host target).keepsTotal
            shared = true := by
          rw [Task.keepsTotal, decide_eq_true_eq, ← or_assoc]
          exact .inl hstale
        exact iff_of_true rfl hkeeps
      · rw [Task.step, if_neg hstale, Task.keepsTotal, decide_eq_true_eq, ← or_assoc,
          or_iff_right hstale]
        simp [Task.records]
  | forcing => cases answer <;> simp [Task.step, Task.records, Task.keepsTotal]
  | forced newState => simp [Task.step, Task.records, Task.keepsTotal]
  | returned call result => simp [Task.step, Task.records, Task.keepsTotal]

theorem isRecorded_eq_false_of_records {task : Task} (h : task.records = true) :
    task.isRecorded = false := by
  cases task with
  | ready call => rfl
  | _ => cases h

theorem isRecorded_start (call : Call) : call.start.isRecorded = false := by
  cases call with
  | updateDomainList host target =>
      rw [Call.start]
      split <;> rfl
  | _ => rfl

/-- A step completes at most the record of its own task. -/
theorem countP_set_step {tasks : List Task} {index : Nat} {task : Task}
    (h : tasks[index]? = some task) :
    (tasks.set index (task.step builders answer shared).1).countP Task.isRecorded =
      tasks.countP Task.isRecorded + task.records.toNat := by
  obtain ⟨hlt, rfl⟩ := List.getElem?_eq_some_iff.1 h
  have hpos : tasks[index].isRecorded = true → 0 < tasks.countP Task.isRecorded :=
    fun hrecorded => List.countP_pos_iff.2 ⟨_, List.getElem_mem hlt, hrecorded⟩
  rw [List.countP_set hlt, isRecorded_step]
  rcases hrecords : tasks[index].records with _ | _
  · rcases hrecorded : tasks[index].isRecorded with _ | _
    · simp
    · have := hpos hrecorded
      simp
      omega
  · rw [isRecorded_eq_false_of_records hrecords]
    simp

end Steps

/-- The count is right after an action on a state where it is if and only if the action keeps it. -/
theorem applyAction_total_iff {builders : Builders} (action : Action) {s : NetworkProxyState}
    (h : s.shared.blockedTotal = s.recorded) :
    (applyAction builders action s).shared.blockedTotal = (applyAction builders action s).recorded ↔
      keepsTotal action s = true := by
  cases action with
  | start call =>
      refine iff_of_true ?_ rfl
      simp [applyAction, NetworkProxyState.recorded, List.countP_append, isRecorded_start]
      exact h
  | advance index answer =>
      cases htask : s.tasks[index]? with
      | none => simpa [applyAction, keepsTotal, htask] using h
      | some task =>
          simp only [applyAction, keepsTotal, htask, NetworkProxyState.recorded,
            countP_set_step htask, Option.all_some]
          rw [← total_step_iff, h]
          rfl

/-- In a run whose steps all keep the count, it is the number of completed calls in every state, and
a next step leaves it right exactly if that step keeps it. -/
theorem blockedTotal_eq_recorded_iff (builders : Builders) (config : NetworkProxyConfig)
    (constraints : NetworkProxyConstraints) {initial : ConfigState}
    (hinitial : buildConfigState builders config constraints = .ok initial) {s : NetworkProxyState}
    (h : Reaches (applyAction builders) (fun action s => keepsTotal action s = true)
      { shared := initial } s) :
    s.shared.blockedTotal = s.recorded ∧ ∀ action,
      (applyAction builders action s).shared.blockedTotal =
        (applyAction builders action s).recorded ↔ keepsTotal action s = true := by
  have hstart : initial.blockedTotal = 0 := by
    simp only [buildConfigState, Result.unless_eq_ok, Result.bind_eq_ok, Result.pure_eq_ok]
      at hinitial
    obtain ⟨-, _, -, _, -, _, -, -, rfl⟩ := hinitial
    rfl
  have htotal : s.shared.blockedTotal = s.recorded := by
    apply Reaches.invariant (J := fun s => s.shared.blockedTotal = s.recorded) _ _ h
    · simpa [NetworkProxyState.recorded] using hstart
    · intro action s hkeeps hs
      exact (applyAction_total_iff action hs).2 hkeeps
  exact ⟨htotal, fun action => applyAction_total_iff action htotal⟩

def plainBuilders : Builders where
  hostParse := plainHosts
  globs := plainGlobs
  acceptsSocketPaths _ := true
  acceptsHooks _ := true

/-- The state of the default configuration. -/
def defaultState : ConfigState :=
  { config := {}
    allowSet := []
    denySet := []
    constraints := {}
    blocked := []
    blockedTotal := 0 }

def blockedExample : BlockedRequest :=
  { host := "example.com".toList
    reason := "not_allowed".toList
    protocol := "http".toList
    timestamp := 0 }

theorem blockedTotal_eq_recorded_reload :
    let s := runOps (applyAction plainBuilders)
      [.start (.recordBlocked blockedExample), .advance 0 (.loaded defaultState),
        .advance 0 .unchanged, .advance 0 .unchanged, .advance 0 .unchanged,
        .start (.updateDomainList "example.com".toList .allow), .advance 1 .unchanged,
        .advance 1 .unchanged, .advance 1 .unchanged] { shared := defaultState }
    s.recorded = 1 ∧ s.shared.blockedTotal = s.recorded := by
  intro s
  refine ⟨by decide +kernel, ?_⟩
  have hbuild : buildConfigState plainBuilders {} {} = .ok defaultState := rfl
  have hreach : Reaches (applyAction plainBuilders) (fun action s => keepsTotal action s = true)
      { shared := defaultState } s :=
    Reaches.start.of_checkedRun (fun _ _ => id) (by decide +kernel)
  exact (blockedTotal_eq_recorded_iff plainBuilders {} {} hbuild hreach).1

/-- A forced reload drops the count, and a reload that has read the count before a request was
recorded writes it back afterwards. -/
theorem blockedTotal_lost :
    let forced := runOps (applyAction plainBuilders)
      [.start (.recordBlocked blockedExample), .advance 0 .unchanged, .advance 0 .unchanged,
        .start .forceReload, .advance 1 .unchanged, .advance 1 (.loaded defaultState),
        .advance 1 .unchanged] { shared := defaultState }
    let interleaved := runOps (applyAction plainBuilders)
      [.start (.recordBlocked blockedExample), .advance 0 .unchanged, .start .reloadIfNeeded,
        .advance 1 (.loaded defaultState), .advance 1 .unchanged, .advance 0 .unchanged,
        .advance 1 .unchanged] { shared := defaultState }
    buildConfigState plainBuilders {} {} = .ok defaultState ∧
      ¬ forced.shared.blockedTotal = forced.recorded ∧
        ¬ interleaved.shared.blockedTotal = interleaved.recorded := by
  refine ⟨rfl, ?_, ?_⟩
  · decide +kernel
  · decide +kernel

end Codewith.NetworkProxy
