import Codewith.Lib.IpAddr
import Codewith.Lib.Needles
import Codewith.Lib.Result

/-!
# Domain patterns of the network proxy

A domain pattern is an exact host, `*.` before a domain for its subdomains, or `**.` before a
domain for the domain and its subdomains.  Patterns are read in two ways: normalised and
compiled to globs, by which hosts are matched, and parsed for the comparison with what is
managed.
-/

namespace Codewith.NetworkProxy

open Lib

def toAsciiLowercase (s : Text) : Text := s.map Char.toLower

def trimEndDots (s : Text) : Text := s.rdropWhile (· = '.')

def splitOnce (delimiter s : Text) : Option (Text × Text) :=
  (find? delimiter s).map fun i => (s.take i, s.drop (i + delimiter.length))

def normalizeIpLiteral (host : Text) : Option Text :=
  if IpAddr.isIpAddr host then some host
  else
    ["%25".toList, "%".toList].findSome? fun delimiter =>
      (splitOnce delimiter host).bind fun (ip, scope) =>
        if IpAddr.isIpAddr ip then some (ip ++ '%' :: scope) else none

def normalizeDnsHostOrIpLiteral (host : Text) : Text :=
  let host := trimEndDots (toAsciiLowercase host)
  (normalizeIpLiteral host).getD host

/-- Brackets are taken off, and a port if there is only one colon. -/
def normalizeHost (host : Text) : Text :=
  let host := Text.trim host
  if host.head? = some '[' ∧ ']' ∈ host then
    normalizeDnsHostOrIpLiteral ((host.drop 1).takeWhile (· ≠ ']'))
  else if host.count ':' = 1 then normalizeDnsHostOrIpLiteral (host.takeWhile (· ≠ ':'))
  else normalizeDnsHostOrIpLiteral host

def normalizePattern (pattern : Text) : Text :=
  let pattern := Text.trim pattern
  if pattern = "*".toList then "*".toList
  else
    match Text.stripPrefix "**.".toList pattern with
    | some domain => "**.".toList ++ normalizeHost domain
    | none =>
        match Text.stripPrefix "*.".toList pattern with
        | some domain => "*.".toList ++ normalizeHost domain
        | none => normalizeHost pattern

inductive DomainPattern
  | apexAndSubdomains (domain : Text)
  | subdomainsOnly (domain : Text)
  | exact (domain : Text)
  deriving DecidableEq, Repr

/-- The host parser, which is not part of the repository: the canonical form of a host. -/
abbrev HostParser := Text → Option Text

def parseDomainForConstraints (hostParse : HostParser) (domain : Text) : Text :=
  let domain := trimEndDots (Text.trim domain)
  if domain = [] then []
  else
    let host :=
      if domain.head? = some '[' ∧ domain.getLast? = some ']' then (domain.drop 1).dropLast
      else domain
    if '*' ∈ host ∨ '?' ∈ host ∨ '%' ∈ host then domain
    else (hostParse host).getD []

def normalizeDomain (domain : Text) : Text := toAsciiLowercase (trimEndDots domain)

def domainEq (left right : Text) : Bool := normalizeDomain left = normalizeDomain right

def isSubdomainOrEqual (child parent : Text) : Bool :=
  normalizeDomain child = normalizeDomain parent ∨
    '.' :: normalizeDomain parent <:+ normalizeDomain child

def isStrictSubdomain (child parent : Text) : Bool :=
  normalizeDomain child ≠ normalizeDomain parent ∧
    '.' :: normalizeDomain parent <:+ normalizeDomain child

namespace DomainPattern

def parseDomain (domain : Text) (build : Text → DomainPattern) : DomainPattern :=
  if Text.trim domain = [] then .exact [] else build (Text.trim domain)

def parse (input : Text) : DomainPattern :=
  let input := Text.trim input
  if input = [] then .exact []
  else
    match Text.stripPrefix "**.".toList input with
    | some domain => parseDomain domain .apexAndSubdomains
    | none =>
        match Text.stripPrefix "*.".toList input with
        | some domain => parseDomain domain .subdomainsOnly
        | none => .exact input

def parseForConstraints (hostParse : HostParser) (input : Text) : DomainPattern :=
  let input := Text.trim input
  if input = [] then .exact []
  else
    match Text.stripPrefix "**.".toList input with
    | some domain => .apexAndSubdomains (parseDomainForConstraints hostParse domain)
    | none =>
        match Text.stripPrefix "*.".toList input with
        | some domain => .subdomainsOnly (parseDomainForConstraints hostParse domain)
        | none => .exact (parseDomainForConstraints hostParse input)

def allows : DomainPattern → DomainPattern → Bool
  | .exact domain, .exact candidate => domainEq candidate domain
  | .exact _, _ => false
  | .subdomainsOnly domain, .exact candidate => isStrictSubdomain candidate domain
  | .subdomainsOnly domain, .subdomainsOnly candidate => isSubdomainOrEqual candidate domain
  | .subdomainsOnly domain, .apexAndSubdomains candidate => isStrictSubdomain candidate domain
  | .apexAndSubdomains domain, .exact candidate => isSubdomainOrEqual candidate domain
  | .apexAndSubdomains domain, .subdomainsOnly candidate => isSubdomainOrEqual candidate domain
  | .apexAndSubdomains domain, .apexAndSubdomains candidate => isSubdomainOrEqual candidate domain

/-- The globs of a pattern. -/
def expand : DomainPattern → List Text
  | .exact domain => [domain]
  | .subdomainsOnly domain => ["?*.".toList ++ domain]
  | .apexAndSubdomains domain => [domain, "?*.".toList ++ domain]

end DomainPattern

def expandDomainPattern (pattern : Text) : List Text := (DomainPattern.parse pattern).expand

def isGlobalWildcardDomainPattern (pattern : Text) : Bool :=
  "*".toList ∈ expandDomainPattern (normalizePattern pattern)

inductive GlobalWildcard
  | allow
  | reject
  deriving DecidableEq, Repr

/-- The globs that are matched without regard to case, which are not part of the repository.
Patterns are matched one after the other, `?` by any character and `*` by any text: what a glob
that does not match the empty text matches before a dot, `?*` matches there too. -/
structure GlobEngine where
  build : Text → Option (Text → Bool)
  build_any : ∀ {labels : Text} {f : Text → Bool}, build labels = some f → f [] = false →
    ∀ domain k, build (labels ++ '.' :: domain) = some k →
      ∃ any, build ("?*.".toList ++ domain) = some any ∧ ∀ host, k host = true → any host = true

/-- The globs of a set, each with its text. -/
abbrev GlobSet := List (Text × (Text → Bool))

def GlobSet.isMatch (set : GlobSet) (host : Text) : Bool := set.any fun glob => glob.2 host

inductive CompileError
  | globalWildcard
  | invalidGlob (candidate : Text)
  deriving DecidableEq, Repr

/-- Add globs that the set does not have yet. -/
def addCandidates (globs : GlobEngine) : List Text → GlobSet → Except CompileError GlobSet
  | [], set => .ok set
  | candidate :: candidates, set =>
      if set.any fun glob => glob.1 = candidate then addCandidates globs candidates set
      else
        match globs.build candidate with
        | some f => addCandidates globs candidates (set ++ [(candidate, f)])
        | none => .error (.invalidGlob candidate)

def compileGlobsetFrom (globs : GlobEngine) (globalWildcard : GlobalWildcard) :
    List Text → GlobSet → Except CompileError GlobSet
  | [], set => .ok set
  | pattern :: patterns, set =>
      if globalWildcard = .reject ∧ isGlobalWildcardDomainPattern pattern then
        .error .globalWildcard
      else do
        let set ← addCandidates globs (expandDomainPattern (normalizePattern pattern)) set
        compileGlobsetFrom globs globalWildcard patterns set

def compileAllowlistGlobset (globs : GlobEngine) (patterns : List Text) :
    Except CompileError GlobSet :=
  compileGlobsetFrom globs .allow patterns []

def compileDenylistGlobset (globs : GlobEngine) (patterns : List Text) :
    Except CompileError GlobSet :=
  compileGlobsetFrom globs .reject patterns []

/-! ### What is compiled -/

/-- The pattern that is compiled for an entry. -/
def compiledPattern (entry : Text) : DomainPattern := DomainPattern.parse (normalizePattern entry)

/-- A pattern matches a host by one of its globs. -/
def DomainPattern.Matches (globs : GlobEngine) (pattern : DomainPattern) (host : Text) : Prop :=
  ∃ candidate ∈ pattern.expand, ∃ f, globs.build candidate = some f ∧ f host = true

section Compile

variable {globs : GlobEngine}

theorem addCandidates_spec {candidates : List Text} {set set' : GlobSet}
    (h : addCandidates globs candidates set = .ok set')
    (hset : ∀ glob ∈ set, globs.build glob.1 = some glob.2) :
    (∀ candidate ∈ candidates, (globs.build candidate).isSome = true) ∧
      ∀ candidate f, (candidate, f) ∈ set' ↔
        (candidate, f) ∈ set ∨ candidate ∈ candidates ∧ globs.build candidate = some f := by
  induction candidates generalizing set with
  | nil =>
      simp only [addCandidates, Except.ok.injEq] at h
      subst h
      simp
  | cons candidate candidates ih =>
      unfold addCandidates at h
      split at h
      · rename_i hseen
        obtain ⟨⟨found, f⟩, hmem, hfound⟩ := List.any_eq_true.mp hseen
        rw [decide_eq_true_eq] at hfound
        change found = candidate at hfound
        subst hfound
        have hbuild : globs.build found = some f := hset _ hmem
        obtain ⟨hvalid, hiff⟩ := ih h hset
        refine ⟨?_, ?_⟩
        · intro other hother
          rcases List.mem_cons.mp hother with rfl | hother
          · rw [hbuild]
            rfl
          · exact hvalid other hother
        · intro other g
          rw [hiff, List.mem_cons]
          constructor
          · rintro (hold | ⟨hnew, hg⟩)
            · exact .inl hold
            · exact .inr ⟨.inr hnew, hg⟩
          · rintro (hold | ⟨rfl | hnew, hg⟩)
            · exact .inl hold
            · rw [hbuild, Option.some.injEq] at hg
              exact .inl (hg ▸ hmem)
            · exact .inr ⟨hnew, hg⟩
      · split at h
        · rename_i f hbuild
          have hset' : ∀ glob ∈ set ++ [(candidate, f)], globs.build glob.1 = some glob.2 := by
            intro glob hglob
            rcases List.mem_append.mp hglob with hold | hnew
            · exact hset glob hold
            · rw [List.mem_singleton.mp hnew]
              exact hbuild
          obtain ⟨hvalid, hiff⟩ := ih h hset'
          refine ⟨?_, ?_⟩
          · intro other hother
            rcases List.mem_cons.mp hother with rfl | hother
            · rw [hbuild]
              rfl
            · exact hvalid other hother
          · intro other g
            rw [hiff, List.mem_append, List.mem_singleton, List.mem_cons, Prod.mk.injEq]
            constructor
            · rintro ((hold | ⟨rfl, rfl⟩) | ⟨hnew, hg⟩)
              · exact .inl hold
              · exact .inr ⟨.inl rfl, hbuild⟩
              · exact .inr ⟨.inr hnew, hg⟩
            · rintro (hold | ⟨rfl | hnew, hg⟩)
              · exact .inl (.inl hold)
              · rw [hbuild, Option.some.injEq] at hg
                exact .inl (.inr ⟨rfl, hg.symm⟩)
              · exact .inr ⟨hnew, hg⟩
        · simp at h

theorem compileGlobsetFrom_spec {globalWildcard : GlobalWildcard} {patterns : List Text}
    {set set' : GlobSet} (h : compileGlobsetFrom globs globalWildcard patterns set = .ok set')
    (hset : ∀ glob ∈ set, globs.build glob.1 = some glob.2) :
    (∀ pattern ∈ patterns, ∀ candidate ∈ (compiledPattern pattern).expand,
        (globs.build candidate).isSome = true) ∧
      ∀ candidate f, (candidate, f) ∈ set' ↔ (candidate, f) ∈ set ∨
        (∃ pattern ∈ patterns, candidate ∈ (compiledPattern pattern).expand) ∧
          globs.build candidate = some f := by
  induction patterns generalizing set with
  | nil =>
      simp only [compileGlobsetFrom, Except.ok.injEq] at h
      subst h
      simp
  | cons pattern patterns ih =>
      unfold compileGlobsetFrom at h
      split at h
      · simp at h
      rw [Result.bind_eq_ok] at h
      obtain ⟨mid, hadd, hrest⟩ := h
      obtain ⟨hvalid, hiff⟩ := addCandidates_spec hadd hset
      have hmid : ∀ glob ∈ mid, globs.build glob.1 = some glob.2 := by
        rintro ⟨candidate, f⟩ hglob
        rcases (hiff candidate f).mp hglob with hold | ⟨-, hbuild⟩
        · exact hset _ hold
        · exact hbuild
      obtain ⟨hvalid', hiff'⟩ := ih hrest hmid
      refine ⟨?_, ?_⟩
      · intro other hother
        rcases List.mem_cons.mp hother with rfl | hother
        · exact hvalid
        · exact hvalid' other hother
      · intro candidate f
        rw [hiff', hiff]
        constructor
        · rintro ((hold | ⟨hmem, hbuild⟩) | ⟨⟨other, hother, hmem⟩, hbuild⟩)
          · exact .inl hold
          · exact .inr ⟨⟨pattern, List.mem_cons_self, hmem⟩, hbuild⟩
          · exact .inr ⟨⟨other, List.mem_cons_of_mem _ hother, hmem⟩, hbuild⟩
        · rintro (hold | ⟨⟨other, hother, hmem⟩, hbuild⟩)
          · exact .inl (.inl hold)
          · rcases List.mem_cons.mp hother with rfl | hother
            · exact .inl (.inr ⟨hmem, hbuild⟩)
            · exact .inr ⟨⟨other, hother, hmem⟩, hbuild⟩

/-- The globs of a compiled set are valid, and match what one of its patterns does. -/
theorem compileGlobsetFrom_nil_spec {globalWildcard : GlobalWildcard} {patterns : List Text}
    {set : GlobSet} (h : compileGlobsetFrom globs globalWildcard patterns [] = .ok set) :
    (∀ pattern ∈ patterns, ∀ candidate ∈ (compiledPattern pattern).expand,
        (globs.build candidate).isSome = true) ∧
      ∀ host, set.isMatch host = true ↔
        ∃ pattern ∈ patterns, (compiledPattern pattern).Matches globs host := by
  obtain ⟨hvalid, hiff⟩ := compileGlobsetFrom_spec h (by simp)
  refine ⟨hvalid, ?_⟩
  intro host
  unfold GlobSet.isMatch DomainPattern.Matches
  rw [List.any_eq_true]
  constructor
  · rintro ⟨⟨candidate, f⟩, hmem, hhost⟩
    rcases (hiff candidate f).mp hmem with hold | ⟨⟨pattern, hpattern, hcandidate⟩, hbuild⟩
    · simp at hold
    · exact ⟨pattern, hpattern, candidate, hcandidate, f, hbuild, hhost⟩
  · rintro ⟨pattern, hpattern, candidate, hcandidate, f, hbuild, hhost⟩
    exact ⟨(candidate, f), (hiff candidate f).mpr (.inr ⟨⟨pattern, hpattern, hcandidate⟩, hbuild⟩),
      hhost⟩

theorem compileAllowlistGlobset_spec {patterns : List Text} {set : GlobSet}
    (h : compileAllowlistGlobset globs patterns = .ok set) :
    (∀ pattern ∈ patterns, ∀ candidate ∈ (compiledPattern pattern).expand,
        (globs.build candidate).isSome = true) ∧
      ∀ host, set.isMatch host = true ↔
        ∃ pattern ∈ patterns, (compiledPattern pattern).Matches globs host :=
  compileGlobsetFrom_nil_spec h

theorem compileDenylistGlobset_spec {patterns : List Text} {set : GlobSet}
    (h : compileDenylistGlobset globs patterns = .ok set) :
    (∀ pattern ∈ patterns, ∀ candidate ∈ (compiledPattern pattern).expand,
        (globs.build candidate).isSome = true) ∧
      ∀ host, set.isMatch host = true ↔
        ∃ pattern ∈ patterns, (compiledPattern pattern).Matches globs host :=
  compileGlobsetFrom_nil_spec h

end Compile

end Codewith.NetworkProxy
