import Codewith.NetworkProxy.Runtime

/-!
# Which hosts are blocked

The denylist is matched by the spelling of a host, as it is normalised; whether a host is local
is decided by the value of its address.  An IPv4 address has one spelling, an IPv6 address has
several.
-/

namespace Codewith.NetworkProxy

open Lib

/-! ### Local addresses -/

def ipv4InCidr (ip base : UInt8 × UInt8 × UInt8 × UInt8) (bits : UInt32) : Bool :=
  let value : UInt8 × UInt8 × UInt8 × UInt8 → UInt32 := fun (a, b, c, d) =>
    (a.toUInt32 <<< 24) ||| (b.toUInt32 <<< 16) ||| (c.toUInt32 <<< 8) ||| d.toUInt32
  let mask : UInt32 := if bits = 0 then 0 else 0xffffffff <<< (32 - bits)
  value ip &&& mask = value base &&& mask

/-- The ranges that are not public: first those of the standard library, then the listed ones. -/
def isNonPublicIpv4 (ip : UInt8 × UInt8 × UInt8 × UInt8) : Bool :=
  let (a, b, c, d) := ip
  a = 127 ||
    (a = 10 || (a = 172 && 16 ≤ b && b ≤ 31) || (a = 192 && b = 168)) ||
    (a = 169 && b = 254) ||
    (a = 0 && b = 0 && c = 0 && d = 0) ||
    (224 ≤ a && a ≤ 239) ||
    (a = 255 && b = 255 && c = 255 && d = 255) ||
    ipv4InCidr ip (0, 0, 0, 0) 8 ||
    ipv4InCidr ip (100, 64, 0, 0) 10 ||
    ipv4InCidr ip (192, 0, 0, 0) 24 ||
    ipv4InCidr ip (192, 0, 2, 0) 24 ||
    ipv4InCidr ip (198, 18, 0, 0) 15 ||
    ipv4InCidr ip (198, 51, 100, 0) 24 ||
    ipv4InCidr ip (203, 0, 113, 0) 24 ||
    ipv4InCidr ip (240, 0, 0, 0) 4

def isNonPublicIpv6 (segments : Vector UInt16 8) : Bool :=
  match IpAddr.toIpv4 segments with
  | some v4 => isNonPublicIpv4 v4 || (IpAddr.v6 segments).isLoopback
  | none =>
      (IpAddr.v6 segments).isLoopback ||
        segments.toList.all (· = 0) ||
        segments[0] &&& 0xff00 = 0xff00 ||
        segments[0] &&& 0xfe00 = 0xfc00 ||
        segments[0] &&& 0xffc0 = 0xfe80

def isNonPublicIp : IpAddr → Bool
  | .v4 a b c d => isNonPublicIpv4 (a, b, c, d)
  | .v6 segments => isNonPublicIpv6 segments

def unscopedIpLiteral (host : Text) : Option Text :=
  (splitOnce ['%'] host).bind fun (ip, _) => if (IpAddr.parse ip).isSome then some ip else none

/-- The host without the scope of an address. -/
def withoutScope (host : Text) : Text := (unscopedIpLiteral host).getD host

def isLoopbackHost (host : Text) : Bool :=
  if withoutScope host = "localhost".toList then true
  else
    match IpAddr.parse (withoutScope host) with
    | some ip => ip.isLoopback
    | none => false

/-- The addresses of a host, unless the lookup fails or takes too long. -/
abbrev Lookup := Text → UInt16 → Option (List IpAddr)

def hostResolvesToNonPublicIp (lookup : Lookup) (host : Text) (port : UInt16) : Bool :=
  match IpAddr.parse host with
  | some ip => isNonPublicIp ip
  | none =>
      match lookup host port with
      | some addrs => addrs.any isNonPublicIp
      | none => true

/-! ### The decision -/

def globsetMatchesHostOrUnscoped (set : GlobSet) (host : Text) : Bool :=
  set.isMatch host || (unscopedIpLiteral host).any set.isMatch

def isExplicitLocalAllowlisted (allowedDomains : List Text) (host : Text) : Bool :=
  allowedDomains.any fun pattern =>
    let pattern := Text.trim pattern
    if pattern = "*".toList ∨ "*.".toList <+: pattern ∨ "**.".toList <+: pattern then false
    else if '*' ∈ pattern ∨ '?' ∈ pattern then false
    else
      normalizeHost pattern = host ||
        (unscopedIpLiteral host).any fun ip => normalizeHost pattern = ip

inductive HostBlockReason
  | denied
  | notAllowed
  | notAllowedLocal
  deriving DecidableEq, Repr

inductive HostBlockDecision
  | allowed
  | blocked (reason : HostBlockReason)
  deriving DecidableEq, Repr

def isLocalLiteral (host : Text) : Bool :=
  isLoopbackHost host ||
    match IpAddr.parse (withoutScope host) with
    | some ip => isNonPublicIp ip
    | none => false

/-- The check for local hosts, made unless local binding is allowed. -/
def blockedAsLocal (lookup : Lookup) (allowedDomains : List Text) (host : Text) (port : UInt16) :
    Bool :=
  if isLocalLiteral host then !isExplicitLocalAllowlisted allowedDomains host
  else hostResolvesToNonPublicIp lookup host port

/-- `host_blocked` after `reload_if_needed`. -/
def hostBlocked (lookup : Lookup) (shared : ConfigState) (host : Text) (port : UInt16) :
    HostBlockDecision :=
  match parseHost host with
  | none => .blocked .notAllowed
  | some host =>
      let allowedDomains := shared.config.network.allowedDomains
      if globsetMatchesHostOrUnscoped shared.denySet host then .blocked .denied
      else if !shared.config.network.allowLocalBinding &&
          blockedAsLocal lookup allowedDomains host port then .blocked .notAllowedLocal
      else if allowedDomains = [] || !globsetMatchesHostOrUnscoped shared.allowSet host then
        .blocked .notAllowed
      else .allowed

/-! ### Normalised hosts -/

section Normalised

variable {host entry text : Text} {ip : IpAddr}

theorem splitOnce_eq_some {delimiter before after : Text} (hne : delimiter ≠ [])
    (h : splitOnce delimiter host = some (before, after)) :
    before <+: host ∧ after <:+ host ∧
      before.length + delimiter.length + after.length ≤ host.length := by
  obtain ⟨i, hfind, heq⟩ := Option.map_eq_some_iff.mp h
  obtain ⟨rfl, rfl⟩ := Prod.mk.inj heq
  have hle := (find?_eq_some_iff.mp hfind).2.1.add_length_le hne
  refine ⟨List.take_prefix _ _, List.drop_suffix _ _, ?_⟩
  rw [List.length_take, List.length_drop]
  omega

/-- An address is kept as it is, or it gets a percent sign before its scope. -/
theorem normalizeDnsHostOrIpLiteral_cases (host : Text) :
    normalizeDnsHostOrIpLiteral host = trimEndDots (toAsciiLowercase host) ∨
      ∃ before scope, normalizeDnsHostOrIpLiteral host = before ++ '%' :: scope ∧
        before <+: trimEndDots (toAsciiLowercase host) ∧
        scope <:+ trimEndDots (toAsciiLowercase host) ∧
        before.length + 1 + scope.length ≤ (trimEndDots (toAsciiLowercase host)).length := by
  rw [normalizeDnsHostOrIpLiteral, normalizeIpLiteral]
  split_ifs with haddr
  · exact .inl rfl
  · cases hscoped : ["%25".toList, "%".toList].findSome? fun delimiter =>
        (splitOnce delimiter (trimEndDots (toAsciiLowercase host))).bind fun (ip, scope) =>
          if IpAddr.isIpAddr ip then some (ip ++ '%' :: scope) else none with
    | none => exact .inl rfl
    | some found =>
        obtain ⟨delimiter, hdelimiter, hfound⟩ := List.exists_of_findSome?_eq_some hscoped
        obtain ⟨⟨before, scope⟩, hsplit, heq⟩ := Option.bind_eq_some_iff.mp hfound
        dsimp only at heq
        split_ifs at heq with hbefore
        obtain rfl := Option.some_inj.mp heq
        have hpos : 0 < delimiter.length := by
          rcases List.mem_pair.mp hdelimiter with rfl | rfl <;> decide
        obtain ⟨hprefixed, hsuffixed, hlength⟩ :=
          splitOnce_eq_some (List.ne_nil_of_length_pos hpos) hsplit
        exact .inr ⟨before, scope, rfl, hprefixed, hsuffixed, by omega⟩

theorem mem_normalizeDnsHostOrIpLiteral {c : Char}
    (h : c ∈ normalizeDnsHostOrIpLiteral host) : c ∈ toAsciiLowercase host ∨ c = '%' := by
  have hdots : trimEndDots (toAsciiLowercase host) ⊆ toAsciiLowercase host :=
    (List.rdropWhile_prefix _ _).subset
  rcases normalizeDnsHostOrIpLiteral_cases host with heq | ⟨before, scope, heq, hb, hs, -⟩
  · rw [heq] at h
    exact .inl (hdots h)
  · rw [heq, List.mem_append, List.mem_cons] at h
    rcases h with h | rfl | h
    · exact .inl (hdots (hb.subset h))
    · exact .inr rfl
    · exact .inl (hdots (hs.subset h))

/-- The part of a host that is normalised. -/
theorem exists_normalizeHost_eq (host : Text) :
    ∃ part, normalizeHost host = normalizeDnsHostOrIpLiteral part ∧
      part.Sublist (Text.trim host) ∧
      (part <+: Text.trim host ∨ (Text.trim host).head? = some '[') := by
  rw [normalizeHost]
  split_ifs with hbracket hport
  · exact ⟨_, rfl, (List.takeWhile_sublist _).trans (List.drop_sublist _ _), .inr hbracket.1⟩
  · exact ⟨_, rfl, List.takeWhile_sublist _, .inl (List.takeWhile_prefix _)⟩
  · exact ⟨_, rfl, List.Sublist.refl _, .inl (List.prefix_refl _)⟩

theorem toAsciiLowercase_normalizeHost (host : Text) :
    toAsciiLowercase (normalizeHost host) = normalizeHost host := by
  obtain ⟨part, heq, -, -⟩ := exists_normalizeHost_eq host
  have hlower : ∀ c ∈ normalizeHost host, c.toLower = c := by
    intro c hc
    rw [heq] at hc
    rcases mem_normalizeDnsHostOrIpLiteral hc with hmem | rfl
    · obtain ⟨d, -, rfl⟩ := List.mem_map.mp hmem
      exact toLower_idem d
    · decide
  rw [toAsciiLowercase]
  conv_rhs => rw [← List.map_id (normalizeHost host)]
  exact List.map_congr_left hlower

/-- Where the host is an address, the part that is normalised does not begin with a star. -/
theorem head?_trim_of_parse (h : IpAddr.parse (normalizeHost host) = some ip) :
    (Text.trim host).head? ≠ some '*' := by
  intro hstar
  obtain ⟨part, heq, -, hpart | hbracket⟩ := exists_normalizeHost_eq host
  · have hchars := IpAddr.isLiteralChar_of_parse h
    have hne := IpAddr.ne_nil_of_parse h
    rw [heq] at hchars hne
    rcases normalizeDnsHostOrIpLiteral_cases part with hsame | ⟨before, scope, hscoped, -⟩
    · rw [hsame] at hchars hne
      obtain ⟨c, rest, hcons⟩ := List.exists_cons_of_ne_nil hne
      have hlower : (toAsciiLowercase part).head? = some c := by
        obtain ⟨t, ht⟩ := List.rdropWhile_prefix (· = '.') (toAsciiLowercase part)
        rw [← ht]
        change (trimEndDots (toAsciiLowercase part) ++ t).head? = some c
        rw [hcons]
        rfl
      have hc : c = '*' := by
        obtain ⟨t, ht⟩ := hpart
        cases part with
        | nil => cases hlower
        | cons d part =>
            rw [← ht] at hstar
            obtain rfl := Option.some_inj.mp hstar
            exact (Option.some_inj.mp hlower).symm
      have := hchars c (hcons ▸ List.mem_cons_self)
      rw [hc] at this
      revert this
      decide
    · have := hchars '%' (by rw [hscoped]; simp)
      revert this
      decide
  · rw [hbracket] at hstar
    cases hstar

theorem not_whitespace_of_graphic {c : Char} (h : 33 ≤ c.toNat ∧ c.toNat ≤ 126) :
    Text.isWhitespace c = false := by
  rw [← Bool.not_eq_true]
  simp only [Text.isWhitespace, Bool.or_eq_true, Bool.and_eq_true, decide_eq_true_eq, beq_iff_eq]
  omega

theorem not_whitespace_of_literal {c : Char} (h : IpAddr.isLiteralChar c = true) :
    Text.isWhitespace c = false := by
  have hrange : ∀ a b : Char, (a ≤ c ∧ c ≤ b) ↔ a.toNat ≤ c.toNat ∧ c.toNat ≤ b.toNat :=
    fun a b => by simp [Char.le_def, UInt32.le_iff_toNat_le]
  simp only [IpAddr.isLiteralChar, IpAddr.isHexDigit, Bool.or_eq_true, Bool.and_eq_true,
    decide_eq_true_eq, hrange, Char.isDigit_iff_toNat] at h
  apply not_whitespace_of_graphic
  rcases h with (((hdigit | hlower) | hupper) | rfl) | rfl
  · exact ⟨le_trans (by decide) hdigit.1, le_trans hdigit.2 (by decide)⟩
  · exact ⟨le_trans (by decide) hlower.1, le_trans hlower.2 (by decide)⟩
  · exact ⟨le_trans (by decide) hupper.1, le_trans hupper.2 (by decide)⟩
  · decide
  · decide

theorem trim_trim (s : Text) : Text.trim (Text.trim s) = Text.trim s := by
  by_cases hnil : Text.trim s = []
  · rw [hnil]
    rfl
  · have hparts := congrArg Text.trim (Text.leading_append_trim_append_trailing hnil)
    rwa [Text.trim_of_allWhitespace_append (Text.allWhitespace_leading s),
      Text.trim_append_of_allWhitespace _ (Text.allWhitespace_trailing s)] at hparts

theorem stripWildcards_of_head (h : text.head? ≠ some '*') :
    Text.stripPrefix "**.".toList text = none ∧ Text.stripPrefix "*.".toList text = none := by
  cases text with
  | nil => exact ⟨rfl, rfl⟩
  | cons c text =>
      have hne : c ≠ '*' := fun heq => h (by rw [heq]; rfl)
      simp [Text.stripPrefix, List.dropPrefix?, hne]

theorem normalizeHost_trim (host : Text) : normalizeHost (Text.trim host) = normalizeHost host := by
  rw [normalizeHost, normalizeHost, trim_trim]

/-- An entry that is an address is compiled as it is normalised. -/
theorem compiledPattern_of_parse (h : IpAddr.parse (normalizeHost entry) = some ip) :
    compiledPattern entry = .exact (normalizeHost entry) := by
  have hstar := head?_trim_of_parse h
  have hchars := IpAddr.isLiteralChar_of_parse h
  have hpattern : normalizePattern entry = normalizeHost entry := by
    have hall : Text.trim entry ≠ "*".toList := by
      intro heq
      rw [heq] at hstar
      exact hstar rfl
    obtain ⟨hboth, hbelow⟩ := stripWildcards_of_head hstar
    rw [normalizePattern, if_neg hall, hboth, hbelow]
    exact normalizeHost_trim entry
  have htrim : Text.trim (normalizeHost entry) = normalizeHost entry := by
    apply trim_of_noWhitespace
    rw [List.any_eq_false]
    intro c hc
    rw [not_whitespace_of_literal (hchars c hc)]
    exact Bool.false_ne_true
  have hhead : (normalizeHost entry).head? ≠ some '*' := by
    intro heq
    have := hchars '*' (List.mem_of_mem_head? heq)
    revert this
    decide
  obtain ⟨hboth, hbelow⟩ := stripWildcards_of_head hhead
  rw [compiledPattern, hpattern, DomainPattern.parse, htrim, if_neg (IpAddr.ne_nil_of_parse h),
    hboth, hbelow]

end Normalised

/-! ### The denylist -/

theorem buildConfigState_denySet {builders : Builders} {config : NetworkProxyConfig}
    {constraints : NetworkProxyConstraints} {state : ConfigState}
    (h : buildConfigState builders config constraints = .ok state) :
    state.config = config ∧
      compileDenylistGlobset builders.globs config.network.deniedDomains = .ok state.denySet := by
  simp only [buildConfigState, Result.unless_eq_ok, Result.bind_eq_ok, Result.pure_eq_ok] at h
  obtain ⟨-, _, -, denySet, hdeny, _, -, -, rfl⟩ := h
  refine ⟨rfl, ?_⟩
  cases hcompiled : compileDenylistGlobset builders.globs config.network.deniedDomains with
  | error error =>
      rw [hcompiled] at hdeny
      cases hdeny
  | ok set =>
      rw [hcompiled] at hdeny
      exact congrArg Except.ok (Except.ok.inj hdeny)

/-- A denied entry matches the host as it is normalised, or without its scope. -/
def DeniedBy (globs : GlobEngine) (entry host : Text) : Prop :=
  (compiledPattern entry).Matches globs host ∨
    (compiledPattern entry).Matches globs (withoutScope host)

theorem hostBlocked_eq_denied_iff {globs : GlobEngine} {shared : ConfigState}
    (hset : compileDenylistGlobset globs shared.config.network.deniedDomains = .ok shared.denySet)
    (lookup : Lookup) {host : Text} (hhost : normalizeHost host ≠ []) (port : UInt16) :
    hostBlocked lookup shared host port = .blocked .denied ↔
      ∃ entry ∈ shared.config.network.deniedDomains, DeniedBy globs entry (normalizeHost host) := by
  obtain ⟨-, hmatch⟩ := compileDenylistGlobset_spec hset
  have hdenied : globsetMatchesHostOrUnscoped shared.denySet (normalizeHost host) = true ↔
      ∃ entry ∈ shared.config.network.deniedDomains,
        DeniedBy globs entry (normalizeHost host) := by
    rw [globsetMatchesHostOrUnscoped, Bool.or_eq_true, hmatch]
    simp only [DeniedBy, withoutScope]
    cases unscopedIpLiteral (normalizeHost host) with
    | none => simp
    | some ip =>
        rw [Option.any_some, hmatch, Option.getD_some]
        constructor
        · rintro (⟨entry, hentry, h⟩ | ⟨entry, hentry, h⟩)
          · exact ⟨entry, hentry, .inl h⟩
          · exact ⟨entry, hentry, .inr h⟩
        · rintro ⟨entry, hentry, h | h⟩
          · exact .inl ⟨entry, hentry, h⟩
          · exact .inr ⟨entry, hentry, h⟩
  rw [← hdenied, hostBlocked, parseHost, if_neg hhost]
  dsimp only
  cases globsetMatchesHostOrUnscoped shared.denySet (normalizeHost host) with
  | true => simp
  | false =>
      simp only [Bool.false_eq_true, if_false, iff_false]
      split_ifs <;> simp

/-- Patterns of the characters of an address match just their own spelling, up to case. -/
def MatchLiterally (globs : GlobEngine) : Prop :=
  ∀ pattern, (∀ c ∈ pattern, IpAddr.isLiteralChar c = true) →
    ∃ f, globs.build pattern = some f ∧
      ∀ host, f host = true ↔ toAsciiLowercase host = toAsciiLowercase pattern

/-- The address of a host, whatever its scope. -/
def hostIp (host : Text) : Option IpAddr := IpAddr.parse (withoutScope (normalizeHost host))

section Addresses

variable {globs : GlobEngine} {entry host text : Text} {ip : IpAddr}

theorem matches_address_iff (hglobs : MatchLiterally globs)
    (h : IpAddr.parse (normalizeHost entry) = some ip) (hlower : toAsciiLowercase text = text) :
    (compiledPattern entry).Matches globs text ↔ text = normalizeHost entry := by
  obtain ⟨f, hbuild, hmatch⟩ := hglobs _ (IpAddr.isLiteralChar_of_parse h)
  have hiff := hmatch text
  rw [hlower, toAsciiLowercase_normalizeHost] at hiff
  rw [compiledPattern_of_parse h, DomainPattern.Matches, ← hiff]
  simp only [DomainPattern.expand, List.mem_singleton, exists_eq_left, hbuild, Option.some.injEq,
    exists_eq_left']

theorem toAsciiLowercase_eq_self_iff :
    toAsciiLowercase text = text ↔ ∀ c ∈ text, c.toLower = c := by
  rw [toAsciiLowercase]
  constructor
  · intro h c hc
    obtain ⟨i, hi, rfl⟩ := List.mem_iff_getElem.mp hc
    have heq := List.getElem_of_eq h (by rwa [List.length_map])
    rwa [List.getElem_map] at heq
  · intro h
    conv_rhs => rw [← List.map_id text]
    exact List.map_congr_left h

theorem toAsciiLowercase_withoutScope (hlower : toAsciiLowercase text = text) :
    toAsciiLowercase (withoutScope text) = withoutScope text := by
  rw [withoutScope]
  cases hscoped : unscopedIpLiteral text with
  | none => exact hlower
  | some before =>
      obtain ⟨⟨found, scope⟩, hsplit, heq⟩ := Option.bind_eq_some_iff.mp hscoped
      dsimp only at heq
      split_ifs at heq
      obtain rfl := Option.some_inj.mp heq
      rw [toAsciiLowercase_eq_self_iff] at hlower
      refine toAsciiLowercase_eq_self_iff.mpr ?_
      intro c hc
      exact hlower c ((splitOnce_eq_some (by simp) hsplit).1.subset hc)

/-- An address has no scope. -/
theorem withoutScope_of_parse (h : IpAddr.parse text = some ip) : withoutScope text = text := by
  have hnone : find? ['%'] text = none := by
    rw [find?_eq_none_iff (by simp)]
    intro i hoccurs
    have hmem : '%' ∈ text := List.mem_of_mem_drop (List.IsPrefix.subset hoccurs (by simp))
    have := IpAddr.isLiteralChar_of_parse h '%' hmem
    revert this
    decide
  rw [withoutScope, unscopedIpLiteral, splitOnce, hnone]
  rfl

/-- A denied address matches a host if it is spelled alike. -/
theorem deniedBy_address_iff (hglobs : MatchLiterally globs)
    (h : IpAddr.parse (normalizeHost entry) = some ip) :
    DeniedBy globs entry (normalizeHost host) ↔
      withoutScope (normalizeHost host) = normalizeHost entry := by
  have hlower := toAsciiLowercase_normalizeHost host
  rw [DeniedBy, matches_address_iff hglobs h hlower,
    matches_address_iff hglobs h (toAsciiLowercase_withoutScope hlower)]
  constructor
  · rintro (hsame | hsame)
    · rw [hsame]
      exact withoutScope_of_parse h
    · exact hsame
  · exact .inr

/-- A denied address blocks the hosts with that address exactly if it is an IPv4 address, they are
spelled as it is, or another denied entry matches them. -/
theorem hostBlocked_denied_address_iff {builders : Builders} {config : NetworkProxyConfig}
    {constraints : NetworkProxyConstraints} {state : ConfigState}
    (hstate : buildConfigState builders config constraints = .ok state)
    (hglobs : MatchLiterally builders.globs) (hentry : entry ∈ config.network.deniedDomains)
    (hdenied : IpAddr.parse (normalizeHost entry) = some ip) (hhost : hostIp host = some ip)
    (lookup : Lookup) (port : UInt16) :
    hostBlocked lookup state host port = .blocked .denied ↔
      (∃ a b c d, ip = .v4 a b c d) ∨ withoutScope (normalizeHost host) = normalizeHost entry ∨
        ∃ other ∈ config.network.deniedDomains, normalizeHost other ≠ normalizeHost entry ∧
          DeniedBy builders.globs other (normalizeHost host) := by
  obtain ⟨rfl, hset⟩ := buildConfigState_denySet hstate
  have hne : normalizeHost host ≠ [] := by
    intro hnil
    rw [hostIp, hnil] at hhost
    exact IpAddr.ne_nil_of_parse hhost rfl
  rw [hostBlocked_eq_denied_iff hset lookup hne port]
  constructor
  · rintro ⟨other, hother, hmatches⟩
    by_cases hsame : normalizeHost other = normalizeHost entry
    · rw [deniedBy_address_iff hglobs (hsame ▸ hdenied), hsame] at hmatches
      exact .inr (.inl hmatches)
    · exact .inr (.inr ⟨other, hother, hsame, hmatches⟩)
  · rintro (⟨a, b, c, d, rfl⟩ | hspelled | ⟨other, hother, -, hmatches⟩)
    · -- both texts are the one that the address is written as
      refine ⟨entry, hentry, (deniedBy_address_iff hglobs hdenied).mpr ?_⟩
      rw [IpAddr.eq_formatIpv4_of_parse hhost, IpAddr.eq_formatIpv4_of_parse hdenied]
    · exact ⟨entry, hentry, (deniedBy_address_iff hglobs hdenied).mpr hspelled⟩
    · exact ⟨other, hother, hmatches⟩

end Addresses

theorem matchLiterally_plainGlobs : MatchLiterally plainGlobs := by
  intro pattern hpattern
  have hsign : ∀ c, isPlainSign c = false ∨ c = '*' ∨ c = '?' → IpAddr.isLiteralChar c = false := by
    intro c hc
    simp only [isPlainSign, decide_eq_false_iff_not, not_not, List.mem_cons, List.not_mem_nil,
      or_false] at hc
    rcases hc with (rfl | rfl | rfl | rfl | rfl) | rfl | rfl <;> decide
  have hplain : pattern.all isPlainSign = true := by
    rw [List.all_eq_true]
    intro c hc
    by_contra hspecial
    rw [Bool.not_eq_true] at hspecial
    exact Bool.false_ne_true ((hsign c (.inl hspecial)).symm.trans (hpattern c hc))
  refine ⟨_, if_pos hplain, ?_⟩
  apply Glob.isMatch_literal
  intro c hc
  refine ⟨?_, ?_⟩
  · rintro rfl
    exact Bool.false_ne_true ((hsign '*' (.inr (.inl rfl))).symm.trans (hpattern _ hc))
  · rintro rfl
    exact Bool.false_ne_true ((hsign '?' (.inr (.inr rfl))).symm.trans (hpattern _ hc))

/-- A configuration that allows every host but the denied ones. -/
def deniedOnly (denied : List Text) : NetworkProxyConfig :=
  { network :=
      { domains := some (⟨"*".toList, .allow⟩ :: denied.map fun entry => ⟨entry, .deny⟩) } }

/-- Another spelling of a denied address is let through. -/
theorem hostBlocked_other_spelling :
    let config := deniedOnly ["2001:db8::1".toList]
    let host := "2001:db8:0::1".toList
    (buildConfigState plainBuilders config {}).map (fun state =>
        hostBlocked (fun _ _ => none) state host 443) = .ok .allowed ∧
      "2001:db8::1".toList ∈ config.network.deniedDomains ∧
      (IpAddr.parse (normalizeHost "2001:db8::1".toList)).isSome ∧
      hostIp host = IpAddr.parse (normalizeHost "2001:db8::1".toList) := by
  decide +kernel

theorem hostBlocked_denied_address_capitals :
    ∃ state, buildConfigState plainBuilders (deniedOnly ["[2001:DB8::1]".toList]) {} = .ok state ∧
      hostBlocked (fun _ _ => none) state "[2001:db8::1%25eth0]:443".toList 443 =
        .blocked .denied := by
  obtain ⟨ip, hip⟩ : ∃ ip, IpAddr.parse (normalizeHost "[2001:DB8::1]".toList) = some ip :=
    Option.isSome_iff_exists.mp (by decide +kernel)
  have hhost : hostIp "[2001:db8::1%25eth0]:443".toList = some ip :=
    Eq.trans (by decide +kernel) hip
  obtain ⟨state, hstate⟩ : ∃ state,
      buildConfigState plainBuilders (deniedOnly ["[2001:DB8::1]".toList]) {} = .ok state :=
    ⟨_, rfl⟩
  refine ⟨state, hstate, ?_⟩
  apply (hostBlocked_denied_address_iff hstate matchLiterally_plainGlobs (by decide +kernel) hip
    hhost _ _).mpr
  exact .inr (.inl (by decide +kernel))

end Codewith.NetworkProxy
