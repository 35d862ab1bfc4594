import Codewith.NetworkProxy.HostBlocked

/-!
# A host that was denied is blocked

A host is normalised when it is added to the denylist, as a pattern when the list is compiled, and
as a host when it is looked up.  It is blocked where these agree.
-/

namespace Codewith.NetworkProxy

open Lib

/-! ### The entries after an update -/

theorem addEntry_of_mem {entries : List NetworkDomainPermissionEntry}
    {entry : NetworkDomainPermissionEntry} (h : ∃ old ∈ entries, old.pattern = entry.pattern) :
    addEntry entries entry = entries.map fun old =>
      if old.pattern = entry.pattern ∧ old.permission.rank < entry.permission.rank then entry
      else old := by
  rw [addEntry, if_pos]
  simpa using h

theorem addEntry_of_not_mem {entries : List NetworkDomainPermissionEntry}
    {entry : NetworkDomainPermissionEntry} (h : ∀ old ∈ entries, old.pattern ≠ entry.pattern) :
    addEntry entries entry = entries ++ [entry] := by
  rw [addEntry, if_neg]
  simpa using h

section Filter

variable (p : Text → Bool)

/-- Entries chosen by their pattern are merged as they were. -/
theorem filter_addEntry (entries : List NetworkDomainPermissionEntry)
    (entry : NetworkDomainPermissionEntry) :
    (addEntry entries entry).filter (fun old => p old.pattern) =
      if p entry.pattern then addEntry (entries.filter fun old => p old.pattern) entry
      else entries.filter fun old => p old.pattern := by
  by_cases hmem : ∃ old ∈ entries, old.pattern = entry.pattern
  · have hcomp : (fun old : NetworkDomainPermissionEntry => p old.pattern) ∘ (fun old =>
        if old.pattern = entry.pattern ∧ old.permission.rank < entry.permission.rank then entry
        else old) = fun old => p old.pattern := by
      funext old
      rw [Function.comp_apply]
      split_ifs with hsame
      · rw [hsame.1]
      · rfl
    rw [addEntry_of_mem hmem, List.filter_map, hcomp]
    split_ifs with hp
    · obtain ⟨old, hold, hsame⟩ := hmem
      rw [addEntry_of_mem ⟨old, List.mem_filter.mpr ⟨hold, by rw [hsame, hp]⟩, hsame⟩]
    · -- no entry that is kept has the pattern
      conv_rhs => rw [← List.map_id (entries.filter fun old => p old.pattern)]
      apply List.map_congr_left
      intro old hold
      rw [if_neg]
      · rfl
      · rintro ⟨hsame, -⟩
        rw [List.mem_filter, hsame] at hold
        exact hp hold.2
  · push Not at hmem
    rw [addEntry_of_not_mem hmem, List.filter_append]
    split_ifs with hp
    · rw [addEntry_of_not_mem fun old hold => hmem old (List.mem_of_mem_filter hold)]
      simp [hp]
    · simp [hp]

theorem effectiveEntries_filter (entries : List NetworkDomainPermissionEntry) :
    effectiveEntries (entries.filter fun entry => p entry.pattern) =
      (effectiveEntries entries).filter fun entry => p entry.pattern := by
  induction entries using List.reverseRecOn with
  | nil => rfl
  | append_singleton entries entry ih =>
      rw [effectiveEntries, effectiveEntries, List.filter_append, List.foldl_append,
        List.foldl_append, List.foldl_cons, List.foldl_nil, filter_addEntry]
      rw [effectiveEntries, effectiveEntries] at ih
      rw [ih]
      by_cases hp : p entry.pattern = true
      · simp [hp]
      · simp [hp]

end Filter

namespace NetworkProxySettings

theorem deniedDomains_eq (settings : NetworkProxySettings) :
    settings.deniedDomains =
      ((effectiveEntries (settings.domains.getD [])).filter fun entry =>
        entry.permission = .deny).map (·.pattern) := by
  rw [deniedDomains, domainEntries]
  cases settings.domains with
  | none => rfl
  | some entries =>
      rw [Option.map_some, Option.getD_some, Option.filter_some]
      split_ifs with hne
      · rfl
      · rw [Bool.not_eq_true, decide_eq_false_iff_not, not_not] at hne
        exact hne.symm

/-- A host that is denied takes the place of the entries that are normalised like it. -/
theorem deniedDomains_upsert (settings : NetworkProxySettings) (host : Text) :
    (settings.upsertDomainPermission host .deny).deniedDomains =
      (settings.deniedDomains.filter fun entry => normalizeHost entry ≠ normalizeHost host) ++
        [host] := by
  rw [deniedDomains_eq, deniedDomains_eq, upsertDomainPermission]
  dsimp only
  rw [Option.getD_some, effectiveEntries, List.foldl_append, List.foldl_cons, List.foldl_nil]
  have hkept := effectiveEntries_filter (fun pattern => normalizeHost pattern ≠ normalizeHost host)
    (settings.domains.getD [])
  rw [effectiveEntries] at hkept
  rw [hkept, addEntry_of_not_mem]
  · rw [List.filter_append, List.map_append, List.filter_map, List.filter_filter,
      List.filter_filter]
    congr 2
    apply List.filter_congr
    intro entry _
    rw [Bool.and_comm]
    rfl
  · intro old hold hsame
    have hne := (List.mem_filter.mp hold).2
    rw [hsame, decide_eq_true_eq] at hne
    exact hne rfl

end NetworkProxySettings

/-! ### States that were built -/

/-- A state as it is built for its configuration and constraints, but for what it has recorded. -/
def IsBuilt (builders : Builders) (state : ConfigState) : Prop :=
  buildConfigState builders state.config state.constraints =
    .ok { state with blocked := [], blockedTotal := 0 }

theorem buildConfigState_isBuilt {builders : Builders} {config : NetworkProxyConfig}
    {constraints : NetworkProxyConstraints} {state : ConfigState}
    (h : buildConfigState builders config constraints = .ok state) :
    state.config = config ∧ IsBuilt builders state := by
  have hparts : state.config = config ∧ state.constraints = constraints ∧ state.blocked = [] ∧
      state.blockedTotal = 0 := by
    simp only [buildConfigState, Result.unless_eq_ok, Result.bind_eq_ok, Result.pure_eq_ok] at h
    obtain ⟨-, _, -, _, -, _, -, -, rfl⟩ := h
    exact ⟨rfl, rfl, rfl, rfl⟩
  obtain ⟨hconfig, hconstraints, hblocked, htotal⟩ := hparts
  refine ⟨hconfig, ?_⟩
  rw [← hconfig, ← hconstraints] at h
  rw [IsBuilt, h, ← hblocked, ← htotal]

section Invariant

variable {builders : Builders}

/-- What was recorded does not matter. -/
theorem IsBuilt.recording {state : ConfigState} (h : IsBuilt builders state)
    (blocked : List BlockedRequest) (blockedTotal : Nat) :
    IsBuilt builders { state with blocked, blockedTotal } := h

/-- A state that a call brings along was built. -/
def Call.Brings (builders : Builders) : Call → Prop
  | .replaceConfigState newState => IsBuilt builders newState
  | _ => True

/-- A call that runs has a host, if it needs one. -/
def Call.Carries (builders : Builders) : Call → Prop
  | .updateDomainList host _ => normalizeHost host ≠ []
  | call => call.Brings builders

def Task.Carries (builders : Builders) : Task → Prop
  | .asking call | .ready call => call.Carries builders
  | .reloading newState call | .writingBack newState call =>
      IsBuilt builders newState ∧ call.Carries builders
  | .updating previousCfg _ newState host target =>
      IsBuilt builders newState ∧ normalizeHost host ≠ [] ∧ newState.config =
        { previousCfg with
          network := previousCfg.network.upsertDomainPermission (normalizeHost host)
            target.permission }
  | .forced newState => IsBuilt builders newState
  | .forcing | .returned _ _ => True

/-- The states that come from elsewhere, to replace the state or from the reloader, were built. -/
def Action.Brings (builders : Builders) : Action → Prop
  | .start call => call.Brings builders
  | .advance _ (.loaded newState) => IsBuilt builders newState
  | .advance _ _ => True

theorem carries_prepareUpdate {host : Text} (hhost : normalizeHost host ≠ [])
    (target : DomainListKind) (shared : ConfigState) :
    (prepareUpdate builders host target shared).Carries builders := by
  rw [prepareUpdate]
  dsimp only
  split_ifs
  · exact trivial
  · split
    · exact trivial
    · split
      · exact trivial
      · next newState hbuild =>
          obtain ⟨hconfig, hbuilt⟩ := buildConfigState_isBuilt hbuild
          exact ⟨hbuilt.recording _ _, hhost, hconfig⟩

theorem carries_start (call : Call) (h : call.Brings builders) : call.start.Carries builders := by
  cases call with
  | updateDomainList host target =>
      rw [Call.start]
      split_ifs with hparsed
      · exact trivial
      · rw [parseHost, ite_eq_left_iff] at hparsed
        push Not at hparsed
        exact hparsed.1
  | recordBlocked entry => exact trivial
  | reloadIfNeeded => exact trivial
  | replaceConfigState newState => exact h
  | forceReload => exact trivial

theorem carries_step {answer : Answer} {shared : ConfigState} {task : Task}
    (hshared : IsBuilt builders shared) (htask : task.Carries builders)
    (hanswer : ∀ newState, answer = .loaded newState → IsBuilt builders newState) :
    (task.step builders answer shared).1.Carries builders ∧
      IsBuilt builders (task.step builders answer shared).2 := by
  cases task with
  | asking call =>
      cases answer with
      | failed message => exact ⟨trivial, hshared⟩
      | unchanged => exact ⟨htask, hshared⟩
      | loaded newState => exact ⟨⟨hanswer _ rfl, htask⟩, hshared⟩
  | reloading newState call => exact ⟨⟨htask.1.recording _ _, htask.2⟩, hshared⟩
  | writingBack newState call => exact ⟨htask.2, htask.1⟩
  | ready call =>
      cases call with
      | recordBlocked entry => exact ⟨trivial, hshared.recording _ _⟩
      | reloadIfNeeded => exact ⟨trivial, hshared⟩
      | replaceConfigState newState => exact ⟨trivial, IsBuilt.recording htask _ _⟩
      | updateDomainList host target => exact ⟨carries_prepareUpdate htask target shared, hshared⟩
      | forceReload => exact ⟨trivial, hshared⟩
  | updating previousCfg constraints newState host target =>
      rw [Task.step]
      split_ifs
      · exact ⟨htask.2.1, hshared⟩
      · exact ⟨trivial, htask.1⟩
  | forcing =>
      cases answer with
      | failed message => exact ⟨trivial, hshared⟩
      | unchanged => exact ⟨trivial, hshared⟩
      | loaded newState => exact ⟨hanswer _ rfl, hshared⟩
  | forced newState => exact ⟨trivial, htask.recording _ _⟩
  | returned call result => exact ⟨trivial, hshared⟩

/-- In every run the state was built, and so was every state that a task is about to write. -/
theorem isBuilt_of_reaches {initial : ConfigState} (hinitial : IsBuilt builders initial)
    {s : NetworkProxyState}
    (h : Reaches (applyAction builders) (fun action _ => action.Brings builders)
      { shared := initial } s) :
    IsBuilt builders s.shared ∧ ∀ task ∈ s.tasks, task.Carries builders := by
  apply Reaches.invariant (J := fun s => IsBuilt builders s.shared ∧
    ∀ task ∈ s.tasks, task.Carries builders) _ _ h
  · exact ⟨hinitial, by simp⟩
  · rintro (call | ⟨index, answer⟩) s hbrings ⟨hshared, htasks⟩
    · refine ⟨hshared, ?_⟩
      intro task htask
      rcases List.mem_append.mp htask with hold | hnew
      · exact htasks task hold
      · rw [List.mem_singleton.mp hnew]
        exact carries_start call hbrings
    · rw [applyAction]
      cases htask : s.tasks[index]? with
      | none => exact ⟨hshared, htasks⟩
      | some task =>
          have hanswer : ∀ newState, answer = .loaded newState → IsBuilt builders newState := by
            rintro newState rfl
            exact hbrings
          obtain ⟨hcarries, hbuilt⟩ := carries_step hshared
            (htasks task (List.mem_of_getElem? htask)) hanswer
          refine ⟨hbuilt, ?_⟩
          intro other hother
          rcases List.mem_or_eq_of_mem_set hother with hold | rfl
          · exact htasks other hold
          · exact hcarries

end Invariant

/-! ### Hosts that are their own patterns -/

/-- The characters that begin classes, alternatives and escapes of a glob. -/
def globSyntax : List Char := ['[', '\x7b', '\\']

/-- Normalising once more, as a host or as a pattern, changes nothing, and the host is not written
as a glob. -/
def IsOwnPattern (host : Text) : Prop :=
  normalizeHost (normalizeHost host) = normalizeHost host ∧
    normalizePattern (normalizeHost host) = normalizeHost host ∧
      ∀ c ∈ normalizeHost host, c ∉ globSyntax

/-- The denied entries that are normalised to the host are compiled as it is. -/
def CompiledAlike (denied : List Text) (host : Text) : Prop :=
  ∀ entry ∈ denied, normalizeHost entry = normalizeHost host →
    normalizePattern entry = normalizeHost host

/-- Without classes, alternatives and escapes, a pattern matches itself, and the pattern for the
subdomains of a domain matches what is before the domain. -/
structure MatchThemselves (globs : GlobEngine) : Prop where
  self : ∀ {pattern f}, globs.build pattern = some f → (∀ c ∈ pattern, c ∉ globSyntax) →
    f pattern = true
  below : ∀ {domain f}, globs.build ("?*.".toList ++ domain) = some f →
    (∀ c ∈ domain, c ∉ globSyntax) → ∀ before, before ≠ [] → f (before ++ '.' :: domain) = true

section Denied

variable {globs : GlobEngine} {host entry : Text}

theorem length_normalizeHost_le (host : Text) :
    (normalizeHost host).length ≤ (Text.trim host).length := by
  obtain ⟨part, heq, hsublist, -⟩ := exists_normalizeHost_eq host
  have hdots : (trimEndDots (toAsciiLowercase part)).length ≤ part.length := by
    have := (List.rdropWhile_prefix (· = '.') (toAsciiLowercase part)).length_le
    rwa [toAsciiLowercase, List.length_map] at this
  refine le_trans ?_ hsublist.length_le
  rw [heq]
  rcases normalizeDnsHostOrIpLiteral_cases part with hsame | ⟨before, scope, hscoped, -, -, hle⟩
  · rw [hsame]
    exact hdots
  · rw [hscoped, List.length_append, List.length_cons]
    omega

theorem trim_sublist (s : Text) : (Text.trim s).Sublist s :=
  (Text.trimEnd_prefix_self _).sublist.trans (List.dropWhile_suffix _).sublist

theorem trim_eq_self_of_length {s : Text} (h : s.length ≤ (Text.trim s).length) :
    Text.trim s = s :=
  (trim_sublist s).eq_of_length_le h

theorem length_normalizePattern_le (pattern : Text) :
    (normalizePattern pattern).length ≤ (Text.trim pattern).length := by
  have hrest : ∀ signs rest : Text, Text.stripPrefix signs (Text.trim pattern) = some rest →
      (signs ++ normalizeHost rest).length ≤ (Text.trim pattern).length := by
    intro signs rest hstrip
    obtain ⟨signs', heq, hsame⟩ := List.dropPrefix?_eq_some_iff.mp hstrip
    obtain rfl := beq_iff_eq.mp hsame
    have hle := (length_normalizeHost_le rest).trans (trim_sublist rest).length_le
    rw [heq, List.length_append, List.length_append]
    omega
  rw [normalizePattern]
  split_ifs with hall
  · rw [hall]
  · split
    · next hboth => exact hrest _ _ hboth
    · split
      · next hbelow => exact hrest _ _ hbelow
      · rw [normalizeHost_trim]
        exact length_normalizeHost_le pattern

/-- A pattern that stays as it is has no blanks around it. -/
theorem trim_of_normalizePattern {pattern : Text} (h : normalizePattern pattern = pattern) :
    Text.trim pattern = pattern := by
  apply trim_eq_self_of_length
  conv_lhs => rw [← h]
  exact length_normalizePattern_le pattern

theorem trim_of_normalizeHost (h : normalizeHost host = host) : Text.trim host = host := by
  apply trim_eq_self_of_length
  conv_lhs => rw [← h]
  exact length_normalizeHost_le host

theorem stripPrefix_eq_some {signs text rest : Text} (h : Text.stripPrefix signs text = some rest) :
    text = signs ++ rest := by
  obtain ⟨signs', heq, hsame⟩ := List.dropPrefix?_eq_some_iff.mp h
  rw [heq, beq_iff_eq.mp hsame]

/-- A host that is its own pattern is matched by it. -/
theorem matches_of_isOwnPattern (hglobs : MatchThemselves globs) (h : IsOwnPattern host)
    (hne : normalizeHost host ≠ [])
    (hvalid : ∀ candidate ∈ (DomainPattern.parse (normalizeHost host)).expand,
      (globs.build candidate).isSome = true) :
    (DomainPattern.parse (normalizeHost host)).Matches globs (normalizeHost host) := by
  obtain ⟨hhost, hpattern, hplain⟩ := h
  generalize normalizeHost host = n at *
  have htrim := trim_of_normalizePattern hpattern
  -- the pattern for what is below a domain matches the signs before it
  have hbelow : ∀ {signs domain : Text}, n = signs ++ '.' :: domain → signs ≠ [] →
      "?*.".toList ++ domain ∈ (DomainPattern.parse n).expand →
        (DomainPattern.parse n).Matches globs n := by
    intro signs domain heq hsigns hmem
    obtain ⟨f, hf⟩ := Option.isSome_iff_exists.mp (hvalid _ hmem)
    refine ⟨_, hmem, f, hf, ?_⟩
    rw [heq]
    refine hglobs.below hf (fun c hc => hplain c ?_) signs hsigns
    rw [heq]
    exact List.mem_append_right _ (List.mem_cons_of_mem _ hc)
  have hdomain : ∀ {signs domain : Text}, n = signs ++ domain →
      normalizePattern n = signs ++ normalizeHost domain → Text.trim domain = domain := by
    intro signs domain heq hnormal
    rw [hpattern, heq] at hnormal
    exact trim_of_normalizeHost (List.append_cancel_left hnormal).symm
  cases hboth : Text.stripPrefix "**.".toList n with
  | some domain =>
      have heq := stripPrefix_eq_some hboth
      have hall : n ≠ "*".toList := by
        rintro rfl
        cases hboth
      have htrimmed : Text.trim domain = domain := by
        apply hdomain heq
        rw [normalizePattern, htrim, if_neg hall, hboth]
      have hnonempty : domain ≠ [] := by
        rintro rfl
        rw [heq] at hhost
        revert hhost
        decide
      have hsplit : n = "**".toList ++ '.' :: domain := heq
      refine hbelow hsplit (by simp) ?_
      rw [DomainPattern.parse, htrim, if_neg hne, hboth]
      dsimp only
      rw [DomainPattern.parseDomain, htrimmed, if_neg hnonempty]
      exact List.mem_cons_of_mem _ List.mem_cons_self
  | none =>
      cases hone : Text.stripPrefix "*.".toList n with
      | some domain =>
          have heq := stripPrefix_eq_some hone
          have hall : n ≠ "*".toList := by
            rintro rfl
            cases hone
          have htrimmed : Text.trim domain = domain := by
            apply hdomain heq
            rw [normalizePattern, htrim, if_neg hall, hboth, hone]
          have hnonempty : domain ≠ [] := by
            rintro rfl
            rw [heq] at hhost
            revert hhost
            decide
          have hsplit : n = "*".toList ++ '.' :: domain := heq
          refine hbelow hsplit (by simp) ?_
          rw [DomainPattern.parse, htrim, if_neg hne, hboth, hone]
          dsimp only
          rw [DomainPattern.parseDomain, htrimmed, if_neg hnonempty]
          exact List.mem_cons_self
      | none =>
          have hexact : DomainPattern.parse n = .exact n := by
            rw [DomainPattern.parse, htrim, if_neg hne, hboth, hone]
          rw [hexact] at hvalid ⊢
          obtain ⟨f, hf⟩ := Option.isSome_iff_exists.mp (hvalid n List.mem_cons_self)
          exact ⟨n, List.mem_cons_self, f, hf, hglobs.self hf hplain⟩

/-- A denied entry that is compiled as the host blocks it. -/
theorem hostBlocked_of_entry {builders : Builders} (hglobs : MatchThemselves builders.globs)
    {shared : ConfigState} (hbuilt : IsBuilt builders shared)
    (hentry : entry ∈ shared.config.network.deniedDomains)
    (halike : normalizePattern entry = normalizeHost host) (hown : IsOwnPattern host)
    (hne : normalizeHost host ≠ []) (lookup : Lookup) (port : UInt16) :
    hostBlocked lookup shared host port = .blocked .denied := by
  obtain ⟨-, hset⟩ := buildConfigState_denySet hbuilt
  obtain ⟨hvalid, -⟩ := compileDenylistGlobset_spec hset
  have hcompiled : compiledPattern entry = DomainPattern.parse (normalizeHost host) := by
    rw [compiledPattern, halike]
  refine (hostBlocked_eq_denied_iff hset lookup hne port).mpr ⟨entry, hentry, .inl ?_⟩
  rw [hcompiled]
  refine matches_of_isOwnPattern hglobs hown hne ?_
  rw [← hcompiled]
  exact hvalid entry hentry

end Denied

/-! ### The update -/

/-- The host is blocked on every port, and what was denied before still is. -/
def DenyTakesEffect (before after : ConfigState) (host : Text) : Prop :=
  (∀ lookup port, hostBlocked lookup after host port = .blocked .denied) ∧
    ∀ entry ∈ before.config.network.deniedDomains,
      ∃ kept ∈ after.config.network.deniedDomains,
        normalizeHost kept = normalizeHost entry ∧ compiledPattern kept = compiledPattern entry

section Update

variable {builders : Builders} {shared : ConfigState} {host : Text}

theorem call_of_prepareUpdate {target : DomainListKind} {call : Call}
    {result : Except ProxyError Unit}
    (h : prepareUpdate builders host target shared = .returned call result) :
    .updateDomainList host target = call := by
  rw [prepareUpdate] at h
  dsimp only at h
  split_ifs at h
  · exact (Task.returned.inj h).1
  · split at h
    · exact (Task.returned.inj h).1
    · split at h
      · exact (Task.returned.inj h).1
      · cases h

/-- Nothing is written for a host that is denied already. -/
theorem denyTakesEffect_prepareUpdate (hglobs : MatchThemselves builders.globs)
    (hbuilt : IsBuilt builders shared) (hne : normalizeHost host ≠ []) (hown : IsOwnPattern host)
    (halike : CompiledAlike shared.config.network.deniedDomains host)
    (h : prepareUpdate builders host .deny shared =
      .returned (.updateDomainList host .deny) (.ok ())) :
    DenyTakesEffect shared shared host := by
  rw [prepareUpdate] at h
  dsimp only at h
  split_ifs at h with hlisted
  · obtain ⟨entry, hentry, hsame⟩ := List.any_eq_true.mp hlisted.1
    rw [decide_eq_true_eq] at hsame
    exact ⟨hostBlocked_of_entry hglobs hbuilt hentry (halike entry hentry hsame) hown hne,
      fun entry hentry => ⟨entry, hentry, rfl, rfl⟩⟩
  · split at h
    · cases h
    · split at h <;> cases h

/-- The host takes the place of the entries that are normalised like it. -/
theorem denyTakesEffect_updating {newState : ConfigState} {previousCfg : NetworkProxyConfig}
    (hglobs : MatchThemselves builders.globs) (hbuilt : IsBuilt builders newState)
    (hne : normalizeHost host ≠ []) (hown : IsOwnPattern host)
    (halike : CompiledAlike previousCfg.network.deniedDomains host)
    (hconfig : newState.config = { previousCfg with
      network := previousCfg.network.upsertDomainPermission (normalizeHost host) .deny })
    (hshared : shared.config = previousCfg) :
    DenyTakesEffect shared newState host := by
  have hdenied : newState.config.network.deniedDomains =
      (previousCfg.network.deniedDomains.filter fun entry =>
        normalizeHost entry ≠ normalizeHost (normalizeHost host)) ++ [normalizeHost host] := by
    rw [hconfig]
    exact NetworkProxySettings.deniedDomains_upsert _ _
  have hadded : normalizeHost host ∈ newState.config.network.deniedDomains := by
    rw [hdenied]
    exact List.mem_append_right _ List.mem_cons_self
  refine ⟨hostBlocked_of_entry hglobs hbuilt hadded hown.2.1 hown hne, ?_⟩
  intro entry hentry
  rw [hshared] at hentry
  by_cases hsame : normalizeHost entry = normalizeHost host
  · refine ⟨_, hadded, hown.1.trans hsame.symm, ?_⟩
    rw [compiledPattern, compiledPattern, hown.2.1, halike entry hentry hsame]
  · refine ⟨entry, ?_, rfl, rfl⟩
    rw [hdenied, List.mem_append, List.mem_filter]
    exact .inl ⟨hentry, by rw [decide_eq_true_eq, hown.1]; exact hsame⟩

/-- In every run, a host that is its own pattern is blocked once the call that denies it has
returned, and nothing that was denied is let through. -/
theorem denyTakesEffect_of_reaches {initial : ConfigState} (hglobs : MatchThemselves builders.globs)
    (hinitial : IsBuilt builders initial) {s : NetworkProxyState}
    (h : Reaches (applyAction builders) (fun action _ => action.Brings builders)
      { shared := initial } s)
    {index : Nat} {task : Task} (htask : s.tasks[index]? = some task) (answer : Answer)
    (hrunning : ∀ call result, task ≠ .returned call result)
    (hreturns : (task.step builders answer s.shared).1 =
      .returned (.updateDomainList host .deny) (.ok ()))
    (hown : IsOwnPattern host) (halike : CompiledAlike s.shared.config.network.deniedDomains host) :
    DenyTakesEffect s.shared (applyAction builders (.advance index answer) s).shared host := by
  obtain ⟨hbuilt, hcarries⟩ := isBuilt_of_reaches hinitial h
  have hcarried := hcarries task (List.mem_of_getElem? htask)
  have hafter : (applyAction builders (.advance index answer) s).shared =
      (task.step builders answer s.shared).2 := by
    rw [applyAction]
    simp only [htask]
  rw [hafter]
  cases task with
  | asking call => cases answer <;> cases hreturns
  | reloading newState call => cases hreturns
  | writingBack newState call => cases hreturns
  | ready call =>
      cases call with
      | updateDomainList other target =>
          obtain ⟨rfl, rfl⟩ := Call.updateDomainList.inj (call_of_prepareUpdate hreturns)
          exact denyTakesEffect_prepareUpdate hglobs hbuilt hcarried hown halike hreturns
      | recordBlocked entry => cases hreturns
      | reloadIfNeeded => cases hreturns
      | replaceConfigState newState => cases hreturns
      | forceReload => cases hreturns
  | updating previousCfg constraints newState other target =>
      rw [Task.step] at hreturns ⊢
      split_ifs at hreturns ⊢ with hstale
      cases hreturns
      obtain ⟨hnew, hne, hconfig⟩ := hcarried
      push Not at hstale
      exact denyTakesEffect_updating hglobs hnew hne hown (hstale.2 ▸ halike) hconfig hstale.2
  | forcing => cases answer <;> cases hreturns
  | forced newState => cases hreturns
  | returned call result => exact absurd rfl (hrunning call result)

end Update

theorem matchThemselves_plainGlobs : MatchThemselves plainGlobs := by
  have hself : ∀ pattern, Glob.isMatch pattern pattern = true := by
    intro pattern
    induction pattern with
    | nil => rfl
    | cons c pattern ih =>
        by_cases hstar : c = '*'
        · subst hstar
          exact (Glob.isMatch_star _ _).mpr ⟨['*'], pattern, rfl, ih⟩
        · by_cases hany : c = '?'
          · subst hany
            exact (Glob.isMatch_any _ _).mpr ⟨'?', pattern, rfl, ih⟩
          · exact (Glob.isMatch_plain hstar hany _ _).mpr ⟨c, pattern, rfl, rfl, ih⟩
  constructor
  · intro pattern f hf _
    obtain ⟨-, heq⟩ := Option.ite_none_right_eq_some.mp hf
    rw [← Option.some_inj.mp heq]
    exact hself pattern
  · intro domain f hf _ before hbefore
    obtain ⟨-, heq⟩ := Option.ite_none_right_eq_some.mp hf
    rw [← Option.some_inj.mp heq,
      show "?*.".toList ++ domain = "?*".toList ++ '.' :: domain from rfl]
    exact (Glob.isMatch_append _ _ _).mpr
      ⟨before, '.' :: domain, rfl, (Glob.isMatch_nonempty before).mpr hbefore, hself _⟩

/-- The run in which a host is denied. -/
def denyRun (initial : ConfigState) (host : Text) (steps : Nat) : NetworkProxyState :=
  runOps (applyAction plainBuilders)
    (.start (.updateDomainList host .deny) :: List.replicate steps (.advance 0 .unchanged))
    { shared := initial }

theorem reaches_denyRun (initial : ConfigState) (host : Text) (steps : Nat) :
    Reaches (applyAction plainBuilders) (fun action _ => action.Brings plainBuilders)
      { shared := initial } (denyRun initial host steps) := by
  induction steps with
  | zero => exact .next (Action.start (.updateDomainList host .deny)) .start trivial
  | succ steps ih =>
      rw [denyRun, List.replicate_succ', ← List.cons_append, runOps, List.foldl_append]
      exact .next (Action.advance 0 .unchanged) ih trivial

/-- The host is denied in another spelling and allowed on a port, and another one is denied. -/
def spelledConfig : NetworkProxyConfig where
  network :=
    { domains := some [⟨"EXAMPLE.com".toList, .deny⟩, ⟨"example.com:80".toList, .allow⟩,
        ⟨"tracker.net".toList, .deny⟩] }

def spelledState : ConfigState :=
  (buildConfigState plainBuilders spelledConfig {}).toOption.getD defaultState

theorem denyTakesEffect_capitals :
    (denyRun spelledState "Example.COM:443".toList 2).shared.config.network.deniedDomains =
        ["EXAMPLE.com".toList, "tracker.net".toList] ∧
      (denyRun spelledState "Example.COM:443".toList 3).tasks =
        [.returned (.updateDomainList "Example.COM:443".toList .deny) (.ok ())] ∧
      DenyTakesEffect (denyRun spelledState "Example.COM:443".toList 2).shared
        (denyRun spelledState "Example.COM:443".toList 3).shared "Example.COM:443".toList := by
  have hbuild : buildConfigState plainBuilders spelledConfig {} = .ok spelledState := rfl
  have hinitial : IsBuilt plainBuilders spelledState := (buildConfigState_isBuilt hbuild).2
  have hreach := reaches_denyRun spelledState "Example.COM:443".toList 2
  have htask : (denyRun spelledState "Example.COM:443".toList 2).tasks[0]? = some _ := rfl
  have hdenied : (denyRun spelledState "Example.COM:443".toList
      2).shared.config.network.deniedDomains = ["EXAMPLE.com".toList, "tracker.net".toList] := by
    decide +kernel
  have hplain : (normalizeHost "Example.COM:443".toList).all (fun c => c ∉ globSyntax) = true := by
    decide +kernel
  refine ⟨hdenied, rfl, ?_⟩
  apply denyTakesEffect_of_reaches matchThemselves_plainGlobs hinitial hreach htask .unchanged
  · intro call result h
    cases h
  · rfl
  · refine ⟨by decide +kernel, by decide +kernel, ?_⟩
    intro c hc
    exact of_decide_eq_true (List.all_eq_true.mp hplain c hc)
  · rw [hdenied]
    unfold CompiledAlike
    decide +kernel

/-- Inside brackets a port is kept in the host but not in the pattern, and the host is not
blocked by the denylist. -/
theorem denied_host_is_not_blocked :
    (denyRun defaultState "[localhost:8080]".toList 3).tasks =
        [.returned (.updateDomainList "[localhost:8080]".toList .deny) (.ok ())] ∧
      ¬ DenyTakesEffect (denyRun defaultState "[localhost:8080]".toList 2).shared
        (denyRun defaultState "[localhost:8080]".toList 3).shared "[localhost:8080]".toList := by
  refine ⟨rfl, ?_⟩
  rintro ⟨hblocked, -⟩
  have := hblocked (fun _ _ => some []) 80
  revert this
  decide +kernel

end Codewith.NetworkProxy
