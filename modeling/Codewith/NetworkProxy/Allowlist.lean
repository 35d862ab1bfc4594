import Codewith.Lib.Glob
import Codewith.NetworkProxy.Constraints

/-!
# A managed allowlist and a narrower one

The comparison with the managed entries and the compilation read an entry in ways of their
own.  What the comparison lets pass is narrower where the patterns that are compiled stand in
the relation that the comparison is about.  They may not where the two read an entry
differently: a port is taken off only by the compilation, and what the host parser rejects is
compared as an empty domain.
-/

namespace Codewith.NetworkProxy

open Lib

/-! ### Case -/

theorem toLower_of_not_isUpper {c : Char} (h : c.isUpper = false) : c.toLower = c := by
  unfold Char.toLower
  rw [dif_neg]
  exact of_decide_eq_false h

/-- The capital letters, one by one. -/
theorem forall_isUpper {p : Char → Prop} (h : ∀ n : Fin 26, p (Char.ofNat (65 + n))) {c : Char}
    (hc : c.isUpper = true) : p c := by
  have hupper : 'A'.val ≤ c.val ∧ c.val ≤ 'Z'.val := of_decide_eq_true hc
  have hrange : 65 ≤ c.toNat ∧ c.toNat ≤ 90 := by
    simpa [UInt32.le_iff_toNat_le] using hupper
  have hletter : Char.ofNat (65 + (c.toNat - 65)) = c := by
    rw [Nat.add_sub_cancel' hrange.1, Char.ofNat_toNat]
  exact hletter ▸ h ⟨c.toNat - 65, by omega⟩

theorem isAlpha_toLower (c : Char) : c.toLower.isAlpha = c.isAlpha := by
  cases hupper : c.isUpper with
  | true =>
      exact forall_isUpper (p := fun c => c.toLower.isAlpha = c.isAlpha) (by decide) hupper
  | false => rw [toLower_of_not_isUpper hupper]

theorem toLower_idem (c : Char) : c.toLower.toLower = c.toLower := by
  cases hupper : c.isUpper with
  | true =>
      exact forall_isUpper (p := fun c => c.toLower.toLower = c.toLower) (by decide) hupper
  | false => rw [toLower_of_not_isUpper hupper, toLower_of_not_isUpper hupper]

theorem toLower_eq_iff {c d : Char} (hd : d.isAlpha = false) : c.toLower = d ↔ c = d := by
  have hlower : c.isAlpha = false → c.toLower = c := by
    intro halpha
    exact toLower_of_not_isUpper (Bool.or_eq_false_iff.mp halpha).1
  constructor
  · rintro rfl
    rw [isAlpha_toLower] at hd
    exact (hlower hd).symm
  · rintro rfl
    exact hlower hd

theorem isWhitespace_toLower (c : Char) : Text.isWhitespace c.toLower = Text.isWhitespace c := by
  cases hupper : c.isUpper with
  | true =>
      exact forall_isUpper (p := fun c => Text.isWhitespace c.toLower = Text.isWhitespace c)
        (by decide) hupper
  | false => rw [toLower_of_not_isUpper hupper]

theorem toAsciiLowercase_idem (s : Text) :
    toAsciiLowercase (toAsciiLowercase s) = toAsciiLowercase s := by
  rw [toAsciiLowercase, toAsciiLowercase, List.map_map]
  exact List.map_congr_left fun c _ => toLower_idem c

theorem rdropWhile_toAsciiLowercase {p : Char → Bool} (hp : ∀ c, p c.toLower = p c) (s : Text) :
    (toAsciiLowercase s).rdropWhile p = toAsciiLowercase (s.rdropWhile p) := by
  unfold List.rdropWhile toAsciiLowercase
  rw [← List.map_reverse, List.dropWhile_map, ← List.map_reverse]
  congr 3
  exact funext hp

theorem trim_toAsciiLowercase (s : Text) :
    Text.trim (toAsciiLowercase s) = toAsciiLowercase (Text.trim s) := by
  unfold Text.trim Text.trimEnd Text.trimStart
  rw [← rdropWhile_toAsciiLowercase isWhitespace_toLower]
  congr 1
  unfold toAsciiLowercase
  rw [List.dropWhile_map]
  congr 2
  exact funext isWhitespace_toLower

theorem trim_of_noWhitespace {s : Text} (h : s.any Text.isWhitespace = false) :
    Text.trim s = s := by
  have hall : ∀ c ∈ s, Text.isWhitespace c = false := by simpa using h
  cases s with
  | nil => rfl
  | cons c rest =>
      rw [Text.trim_of_head rfl (hall c List.mem_cons_self), Text.trimEnd,
        List.rdropWhile_eq_self_iff]
      intro hne hlast
      rw [hall _ (List.getLast_mem hne)] at hlast
      cases hlast

theorem trimEndDots_toAsciiLowercase (s : Text) :
    trimEndDots (toAsciiLowercase s) = toAsciiLowercase (trimEndDots s) := by
  apply rdropWhile_toAsciiLowercase
  intro c
  simp [toLower_eq_iff (show '.'.isAlpha = false by decide)]

theorem normalizeDomain_idem (domain : Text) :
    normalizeDomain (normalizeDomain domain) = normalizeDomain domain := by
  unfold normalizeDomain
  rw [trimEndDots_toAsciiLowercase, toAsciiLowercase_idem]
  unfold trimEndDots
  rw [List.rdropWhile_idempotent]

/-- Signs that are not letters are found in lower case too. -/
theorem stripPrefix_toAsciiLowercase {signs : Text} (hsigns : ∀ c ∈ signs, c.isAlpha = false)
    (s : Text) :
    Text.stripPrefix signs (toAsciiLowercase s) =
      (Text.stripPrefix signs s).map toAsciiLowercase := by
  unfold Text.stripPrefix toAsciiLowercase
  induction signs generalizing s with
  | nil => simp
  | cons sign signs ih =>
      rcases s with _ | ⟨c, s⟩
      · simp [List.dropPrefix?]
      · have hsign := toLower_eq_iff (c := c) (hsigns sign List.mem_cons_self)
        have hrest := ih (fun c hc => hsigns c (List.mem_cons_of_mem _ hc)) s
        by_cases hc : c = sign
        · have hlower := hsign.mpr hc
          simp [List.dropPrefix?, hc, hc ▸ hlower, hrest]
        · have hlower : c.toLower ≠ sign := fun h => hc (hsign.mp h)
          simp [List.dropPrefix?, hc, hlower]

theorem normalizeDnsHostOrIpLiteral_toAsciiLowercase (host : Text) :
    normalizeDnsHostOrIpLiteral (toAsciiLowercase host) = normalizeDnsHostOrIpLiteral host := by
  unfold normalizeDnsHostOrIpLiteral
  rw [toAsciiLowercase_idem]

theorem takeWhile_ne_toAsciiLowercase {d : Char} (hd : d.isAlpha = false) (s : Text) :
    (toAsciiLowercase s).takeWhile (· ≠ d) = toAsciiLowercase (s.takeWhile (· ≠ d)) := by
  unfold toAsciiLowercase
  rw [List.takeWhile_map]
  congr 2
  funext c
  simp [toLower_eq_iff hd]

theorem mem_toAsciiLowercase_iff {d : Char} (hd : d.isAlpha = false) (s : Text) :
    d ∈ toAsciiLowercase s ↔ d ∈ s := by
  unfold toAsciiLowercase
  rw [List.mem_map]
  constructor
  · rintro ⟨c, hc, hlower⟩
    rw [toLower_eq_iff hd] at hlower
    exact hlower ▸ hc
  · intro h
    exact ⟨d, h, (toLower_eq_iff hd).mpr rfl⟩

theorem count_toAsciiLowercase {d : Char} (hd : d.isAlpha = false) (s : Text) :
    (toAsciiLowercase s).count d = s.count d := by
  unfold toAsciiLowercase
  rw [List.count_eq_countP, List.countP_map, List.count_eq_countP]
  congr 1
  funext c
  simp [toLower_eq_iff hd]

theorem head?_toAsciiLowercase_eq_iff {d : Char} (hd : d.isAlpha = false) (s : Text) :
    (toAsciiLowercase s).head? = some d ↔ s.head? = some d := by
  rcases s with _ | ⟨c, s⟩
  · simp [toAsciiLowercase]
  · simp [toAsciiLowercase, toLower_eq_iff hd]

theorem normalizeHost_toAsciiLowercase (host : Text) :
    normalizeHost (toAsciiLowercase host) = normalizeHost host := by
  have hopen : '['.isAlpha = false := by decide
  have hclose : ']'.isAlpha = false := by decide
  have hcolon : ':'.isAlpha = false := by decide
  have hdrop : ∀ s : Text, (toAsciiLowercase s).drop 1 = toAsciiLowercase (s.drop 1) := by
    intro s
    unfold toAsciiLowercase
    rw [List.map_drop]
  unfold normalizeHost
  rw [trim_toAsciiLowercase]
  simp only [head?_toAsciiLowercase_eq_iff hopen, mem_toAsciiLowercase_iff hclose,
    count_toAsciiLowercase hcolon, hdrop, takeWhile_ne_toAsciiLowercase hclose,
    takeWhile_ne_toAsciiLowercase hcolon, normalizeDnsHostOrIpLiteral_toAsciiLowercase]

theorem toAsciiLowercase_eq_iff {signs : Text} (hsigns : ∀ c ∈ signs, c.isAlpha = false)
    (s : Text) : toAsciiLowercase s = signs ↔ s = signs := by
  unfold toAsciiLowercase
  induction signs generalizing s with
  | nil => simp
  | cons sign signs ih =>
      rcases s with _ | ⟨c, s⟩
      · simp
      · simp [toLower_eq_iff (c := c) (hsigns sign List.mem_cons_self),
          ih (fun c hc => hsigns c (List.mem_cons_of_mem _ hc)) s]

/-- The case of an entry does not matter for what is compiled. -/
theorem normalizePattern_toAsciiLowercase (pattern : Text) :
    normalizePattern (toAsciiLowercase pattern) = normalizePattern pattern := by
  have hall : ∀ c ∈ "*".toList, c.isAlpha = false := by simp
  have hapex : ∀ c ∈ "**.".toList, c.isAlpha = false := by simp
  have hsubdomains : ∀ c ∈ "*.".toList, c.isAlpha = false := by simp
  unfold normalizePattern
  rw [trim_toAsciiLowercase]
  simp only [toAsciiLowercase_eq_iff hall, stripPrefix_toAsciiLowercase hapex,
    stripPrefix_toAsciiLowercase hsubdomains]
  cases Text.stripPrefix "**.".toList (Text.trim pattern) with
  | some domain => simp only [Option.map_some, normalizeHost_toAsciiLowercase]
  | none =>
      cases Text.stripPrefix "*.".toList (Text.trim pattern) with
      | some domain => simp only [Option.map_some, Option.map_none, normalizeHost_toAsciiLowercase]
      | none => simp only [Option.map_none, normalizeHost_toAsciiLowercase]

/-! ### Narrower patterns -/

namespace DomainPattern

def domain : DomainPattern → Text
  | .apexAndSubdomains domain => domain
  | .subdomainsOnly domain => domain
  | .exact domain => domain

/-- The pattern with its domain as it is compared. -/
def normalized : DomainPattern → DomainPattern
  | .apexAndSubdomains domain => .apexAndSubdomains (normalizeDomain domain)
  | .subdomainsOnly domain => .subdomainsOnly (normalizeDomain domain)
  | .exact domain => .exact (normalizeDomain domain)

theorem allows_normalized (pattern candidate : DomainPattern) :
    pattern.normalized.allows candidate.normalized = pattern.allows candidate := by
  cases pattern <;> cases candidate <;>
    simp only [normalized, allows, domainEq, isSubdomainOrEqual, isStrictSubdomain,
      normalizeDomain_idem]

theorem normalizeDomain_normalized (pattern : DomainPattern) :
    normalizeDomain pattern.normalized.domain = pattern.normalized.domain := by
  cases pattern <;> simp only [normalized, domain, normalizeDomain_idem]

end DomainPattern

/-- The comparison and the compilation read an entry as the same pattern. -/
def ReadAlike (hostParse : HostParser) (entry : Text) : Prop :=
  compiledPattern entry = (DomainPattern.parseForConstraints hostParse entry).normalized

instance (hostParse : HostParser) (entry : Text) : Decidable (ReadAlike hostParse entry) :=
  inferInstanceAs (Decidable (_ = _))

/-- Each glob of an entry is one of the managed pattern, or it is that of a host below the
managed domain, and what stands before the domain is a glob of its own that does not match the
empty text. -/
def Covers (globs : GlobEngine) (pattern candidate : DomainPattern) : Prop :=
  ∀ glob ∈ candidate.expand, glob ∈ pattern.expand ∨
    "?*.".toList ++ pattern.domain ∈ pattern.expand ∧ ∃ labels f,
      glob = labels ++ '.' :: pattern.domain ∧ globs.build labels = some f ∧ f [] = false

/-- What stands before the managed domain in a glob of an entry is no glob of its own, or it
matches the empty text. -/
def CutsLabels (globs : GlobEngine) (pattern candidate : DomainPattern) : Prop :=
  ∃ labels, labels ++ '.' :: pattern.domain ∈ candidate.expand ∧
    ∀ f, globs.build labels = some f → f [] = true

section Narrower

variable {globs : GlobEngine} {pattern candidate : DomainPattern}

theorem Covers.matches {host : Text} (h : Covers globs pattern candidate)
    (hmatch : candidate.Matches globs host) : pattern.Matches globs host := by
  obtain ⟨glob, hglob, k, hbuild, hhost⟩ := hmatch
  rcases h glob hglob with hsame | ⟨hsubdomains, labels, f, rfl, hlabels, hempty⟩
  · exact ⟨glob, hsame, k, hbuild, hhost⟩
  · obtain ⟨any, hany, hbelow⟩ := globs.build_any hlabels hempty pattern.domain k hbuild
    exact ⟨_, hsubdomains, any, hany, hbelow host hhost⟩

theorem subdomain_of_suffix {domain child glob : Text} (hsuffix : '.' :: domain <:+ child)
    (hglob : glob = child ∨ glob = "?*.".toList ++ child) :
    ∃ labels, glob = labels ++ '.' :: domain := by
  obtain ⟨labels, rfl⟩ := hsuffix
  rcases hglob with rfl | rfl
  · exact ⟨labels, rfl⟩
  · exact ⟨"?*.".toList ++ labels, (List.append_assoc _ _ _).symm⟩

/-- Of what a pattern allows, each glob is one of its own or that of a host below its domain. -/
theorem mem_expand_or_below (hpattern : normalizeDomain pattern.domain = pattern.domain)
    (hcandidate : normalizeDomain candidate.domain = candidate.domain)
    (hallowed : pattern.allows candidate = true) {glob : Text} (hglob : glob ∈ candidate.expand) :
    glob ∈ pattern.expand ∨ "?*.".toList ++ pattern.domain ∈ pattern.expand ∧
      ∃ labels, glob = labels ++ '.' :: pattern.domain := by
  have hmem : glob = candidate.domain ∨ glob = "?*.".toList ++ candidate.domain := by
    cases candidate with
    | apexAndSubdomains d => simpa [DomainPattern.expand, DomainPattern.domain] using hglob
    | subdomainsOnly d => exact .inr (List.mem_singleton.mp hglob)
    | exact d => exact .inl (List.mem_singleton.mp hglob)
  by_cases hsuffix : '.' :: pattern.domain <:+ candidate.domain ∧
      "?*.".toList ++ pattern.domain ∈ pattern.expand
  · exact .inr ⟨hsuffix.2, subdomain_of_suffix hsuffix.1 hmem⟩
  · -- without labels before it the domain is the same
    left
    cases pattern <;> cases candidate <;>
      simp_all [DomainPattern.allows, DomainPattern.domain, DomainPattern.expand, domainEq,
        isSubdomainOrEqual, isStrictSubdomain]

/-- What the comparison allows is covered where both entries are read alike and the labels before
the managed domain are a pattern of their own. -/
theorem covers_of_readAlike {hostParse : HostParser} {managed entry : Text}
    (hmanaged : ReadAlike hostParse managed) (hentry : ReadAlike hostParse entry)
    (hallowed : (DomainPattern.parseForConstraints hostParse managed).allows
      (DomainPattern.parseForConstraints hostParse entry) = true)
    (hlabels : ¬ CutsLabels globs (compiledPattern managed) (compiledPattern entry)) :
    Covers globs (compiledPattern managed) (compiledPattern entry) := by
  intro glob hglob
  have hcompiled : (compiledPattern managed).allows (compiledPattern entry) = true := by
    rw [hmanaged, hentry, DomainPattern.allows_normalized]
    exact hallowed
  have hnormal : ∀ {entry}, ReadAlike hostParse entry →
      normalizeDomain (compiledPattern entry).domain = (compiledPattern entry).domain := by
    intro entry halike
    rw [halike, DomainPattern.normalizeDomain_normalized]
  refine (mem_expand_or_below (hnormal hmanaged) (hnormal hentry) hcompiled hglob).imp_right ?_
  rintro ⟨hsubdomains, labels, rfl⟩
  refine ⟨hsubdomains, labels, ?_⟩
  by_contra hnone
  refine hlabels ⟨labels, hglob, fun f hf => ?_⟩
  by_contra hempty
  exact hnone ⟨f, rfl, hf, by simpa using hempty⟩

end Narrower

/-! ### The managed allowlist -/

/-- No host is matched by the allowlist of the configuration alone. -/
def NotWidened (globs : GlobEngine) (settings : NetworkProxySettings)
    (managed : List Text) : Prop :=
  ∀ set managedSet, compileAllowlistGlobset globs settings.allowedDomains = .ok set →
    compileAllowlistGlobset globs managed = .ok managedSet →
    ∀ host, set.isMatch host = true → managedSet.isMatch host = true

/-- A managed pattern covers the one that is compiled for the entry. -/
def CoveredAsCompiled (globs : GlobEngine) (managed : List Text) (entry : Text) : Prop :=
  ∃ managedEntry ∈ managed, Covers globs (compiledPattern managedEntry) (compiledPattern entry)

/-- A managed entry lets another one pass, though one of them is read differently by the
comparison and the compilation, or what stands before the managed domain is not a pattern for
labels. -/
def LetThroughOtherwise (globs : GlobEngine) (hostParse : HostParser) (managed : List Text)
    (entry : Text) : Prop :=
  ∃ managedEntry ∈ managed, (DomainPattern.parseForConstraints hostParse managedEntry).allows
      (DomainPattern.parseForConstraints hostParse entry) = true ∧
    (¬ ReadAlike hostParse managedEntry ∨ ¬ ReadAlike hostParse entry ∨
      CutsLabels globs (compiledPattern managedEntry) (compiledPattern entry))

theorem covers_of_caseless {globs : GlobEngine} {managedEntry entry : Text}
    (h : toAsciiLowercase managedEntry = toAsciiLowercase entry) :
    Covers globs (compiledPattern managedEntry) (compiledPattern entry) := by
  intro glob hglob
  unfold compiledPattern at hglob ⊢
  rw [← normalizePattern_toAsciiLowercase, ← h, normalizePattern_toAsciiLowercase] at hglob
  exact .inl hglob

/-- Without expansion, and where both allowlists compile, a configuration that has been checked
allows no host beyond the managed ones if each of its entries is covered as it is compiled.  An
entry that is not has been let through by one that is read differently. -/
theorem validatePolicy_notWidened (globs : GlobEngine) (hostParse : HostParser)
    (settings : NetworkProxySettings) (constraints : NetworkProxyConstraints) (managed : List Text)
    (hmanaged : constraints.allowedDomains = some managed)
    (hexpansion : constraints.allowlistExpansionEnabled ≠ some true)
    (h : validatePolicyAgainstConstraints hostParse settings constraints = .ok ()) :
    ((constraints.allowlistExpansionEnabled = none → ∀ set managedSet,
        compileAllowlistGlobset globs settings.allowedDomains = .ok set →
        compileAllowlistGlobset globs managed = .ok managedSet →
        ∀ entry ∈ settings.allowedDomains, CoveredAsCompiled globs managed entry) →
      NotWidened globs settings managed) ∧
    ∀ entry ∈ settings.allowedDomains, ¬ CoveredAsCompiled globs managed entry →
      LetThroughOtherwise globs hostParse managed entry := by
  have hfixed : constraints.allowlistExpansionEnabled ≠ none →
      ∀ entry ∈ settings.allowedDomains, CoveredAsCompiled globs managed entry := by
    intro hnone entry hentry
    have hfalse : constraints.allowlistExpansionEnabled = some false := by
      cases hcase : constraints.allowlistExpansionEnabled with
      | none => exact absurd hcase hnone
      | some expansion => cases expansion with
        | false => rfl
        | true => exact absurd hcase hexpansion
    -- the entries are the managed ones up to case
    obtain ⟨managedEntry, hmem, hcaseless⟩ := fixed_of_ok h hmanaged hfalse entry hentry
    exact ⟨managedEntry, hmem, covers_of_caseless hcaseless⟩
  constructor
  · intro hcovered set managedSet hset hmanagedSet host hhost
    have hall : ∀ entry ∈ settings.allowedDomains, CoveredAsCompiled globs managed entry := by
      by_cases hnone : constraints.allowlistExpansionEnabled = none
      · exact hcovered hnone set managedSet hset hmanagedSet
      · exact hfixed hnone
    obtain ⟨-, hmatch⟩ := compileAllowlistGlobset_spec hset
    obtain ⟨-, hmatch'⟩ := compileAllowlistGlobset_spec hmanagedSet
    obtain ⟨entry, hentry, hmatched⟩ := (hmatch host).mp hhost
    obtain ⟨managedEntry, hmem, hcovers⟩ := hall entry hentry
    exact (hmatch' host).mpr ⟨managedEntry, hmem, hcovers.matches hmatched⟩
  · intro entry hentry hnot
    have hnone : constraints.allowlistExpansionEnabled = none := by
      by_contra hsome
      exact hnot (hfixed hsome entry hentry)
    obtain ⟨managedEntry, hmem, hallowed⟩ := narrowed_of_ok h hmanaged hnone entry hentry
    refine ⟨managedEntry, hmem, hallowed, ?_⟩
    by_contra hother
    rw [not_or, not_or, not_not, not_not] at hother
    exact hnot ⟨managedEntry, hmem, covers_of_readAlike hother.1 hother.2.1 hallowed hother.2.2⟩

/-- Classes, alternatives and escapes are left out. -/
def isPlainSign (c : Char) : Bool := c ∉ ['[', ']', '\x7b', '\x7d', '\\']

/-- Globs of plain characters, `?` and `*`. -/
def plainGlobs : GlobEngine where
  build pattern := if pattern.all isPlainSign then some (Glob.isMatch pattern) else none
  build_any := by
    intro labels f hf hempty domain k hk
    rw [Option.ite_none_right_eq_some, Option.some.injEq] at hf hk
    obtain ⟨hlabels, rfl⟩ := hf
    obtain ⟨hall, rfl⟩ := hk
    have hdomain : domain.all isPlainSign = true := by
      rw [List.all_append, List.all_cons, Bool.and_eq_true, Bool.and_eq_true] at hall
      exact hall.2.2
    refine ⟨_, if_pos (by rw [List.all_append, hdomain]; rfl), fun host hhost => ?_⟩
    obtain ⟨before, rest, rfl, hbefore, hrest⟩ := (Glob.isMatch_append _ _ _).mp hhost
    refine (Glob.isMatch_append "?*".toList ('.' :: domain) _).mpr ⟨before, rest, rfl, ?_, hrest⟩
    rw [Glob.isMatch_nonempty]
    rintro rfl
    rw [hempty] at hbefore
    cases hbefore

/-- Host names of lower case letters, digits, dots and hyphens, which stay as they are. -/
def plainHosts : HostParser := fun host =>
  if host.all fun c => c.isLower || c.isDigit || c = '.' || c = '-' then some host else none

def allowedOnly (entries : List Text) : NetworkProxySettings :=
  { domains := some (entries.map fun entry => ⟨entry, .allow⟩) }

def managedOnly (entries : List Text) : NetworkProxyConstraints :=
  { allowedDomains := some entries }

/-- An entry with a sign that the host parser would reject is let through and covered, and one
with a port is not covered. -/
theorem validatePolicy_api :
    (compileAllowlistGlobset plainGlobs (allowedOnly ["a/*.example.com".toList]).allowedDomains).map
        (·.isMatch "a/b.example.com".toList) = .ok true ∧
      NotWidened plainGlobs (allowedOnly ["a/*.example.com".toList]) ["**.example.com".toList] ∧
      LetThroughOtherwise plainGlobs plainHosts
        ["example.com:443".toList] "evil.com:443".toList := by
  refine ⟨by decide +kernel, ?_, ?_⟩
  swap
  · have hchecked : validatePolicyAgainstConstraints plainHosts
        (allowedOnly ["evil.com:443".toList]) (managedOnly ["example.com:443".toList]) =
          .ok () := by
      decide +kernel
    apply (validatePolicy_notWidened plainGlobs plainHosts _ _ _ rfl (by decide) hchecked).2
    · decide +kernel
    · rintro ⟨managedEntry, hmem, hcovers⟩
      rw [List.mem_singleton.mp hmem] at hcovers
      rcases hcovers "evil.com".toList (by decide +kernel) with hsame | ⟨hbelow, -⟩
      · exact absurd hsame (by decide +kernel)
      · exact absurd hbelow (by decide +kernel)
  have hchecked : validatePolicyAgainstConstraints plainHosts
      (allowedOnly ["a/*.example.com".toList]) (managedOnly ["**.example.com".toList]) =
        .ok () := by
    decide +kernel
  apply (validatePolicy_notWidened plainGlobs plainHosts _ _ _ rfl (by decide) hchecked).1
  intro _ _ _ _ _ entry hentry
  rw [show (allowedOnly ["a/*.example.com".toList]).allowedDomains = ["a/*.example.com".toList] by
    decide +kernel, List.mem_singleton] at hentry
  subst hentry
  refine ⟨_, List.mem_singleton_self _, fun glob hglob => .inr ⟨by decide +kernel, ?_⟩⟩
  have hbuild : plainGlobs.build "a/*".toList = some (Glob.isMatch "a/*".toList) := by rfl
  rw [show (compiledPattern "a/*.example.com".toList).expand = ["a/*.example.com".toList] by
    decide +kernel, List.mem_singleton] at hglob
  exact ⟨"a/*".toList, _, hglob, hbuild, by decide⟩

/-- A port is not parsed as part of a host, and two hosts with a port are compared as equal. -/
theorem not_notWidened_ports :
    validatePolicyAgainstConstraints plainHosts (allowedOnly ["evil.com:443".toList])
        (managedOnly ["example.com:443".toList]) = .ok () ∧
      ¬ NotWidened plainGlobs (allowedOnly ["evil.com:443".toList]) ["example.com:443".toList] := by
  refine ⟨by decide +kernel, ?_⟩
  intro h
  have := h _ _ rfl rfl "evil.com".toList (by decide +kernel)
  revert this
  decide +kernel

end Codewith.NetworkProxy
