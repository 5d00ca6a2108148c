import Slopdex.Library.Lines
import Slopdex.Library.Search
import Slopdex.Library.Wildcard
import Slopdex.Protocol.Types

/-!
# Domain patterns and their compilation to globs

Enforcement compiles the normalised text of an entry to one or two globs; the check against the
managed lists parses it to a `DomainPattern` and compares domains. The glob library, the host parser
of the `url` crate and IP literals are parameters; of the globs only the documented meaning of `?`
and `*` is assumed.
-/

namespace Slopdex.NetworkProxy

open Protocol (Text trim)
open Library Library.Wildcard List

def sameLetter (a b : Char) : Bool := a.toLower == b.toLower

def tokenOf (c : Char) : Token Char :=
  if c = '?' then .one else if c = '*' then .many else .letter c

/-- The syntax for which a glob's meaning is given by `?` and `*` alone: no class, alternative or
escape, and no `**`, which stands for directories. -/
def IsSimpleGlob (text : Text) : Prop :=
  (∀ c ∈ text, c ∉ ['[', ']', '\x7b', '\x7d', '\\']) ∧ ¬ ['*', '*'] <:+: text

instance (text : Text) : Decidable (IsSimpleGlob text) := by
  unfold IsSimpleGlob
  infer_instance

structure GlobLibrary (Glob : Type) where
  /-- `GlobBuilder::new(text).case_insensitive(true).build()` -/
  build : Text → Option Glob
  isMatch : Glob → Text → Bool
  /-- What `GlobSetBuilder::build` reports about globs that it cannot combine. -/
  setError : List Glob → Option Text
  build_of_isSimpleGlob : ∀ text, IsSimpleGlob text → ∃ glob, build text = some glob ∧
    ∀ host, isMatch glob host = accepts sameLetter (text.map tokenOf) host

structure HostLibrary where
  /-- `UrlHost::parse`, with the host it finds turned back into a text -/
  parse : Text → Option Text
  /-- `host.parse::<IpAddr>().is_ok()` -/
  isIpAddr : Text → Bool

variable {Glob : Type} (globs : GlobLibrary Glob) (hosts : HostLibrary)

def toAsciiLowercase (text : Text) : Text := text.map Char.toLower

/-- `text.trim_end_matches('.')` -/
def trimDots (text : Text) : Text := text.rdropWhile (· == '.')

/-- A scope is written behind `%`, or behind its encoding in a URL. -/
def normalizeIpLiteral (host : Text) : Option Text :=
  if hosts.isIpAddr host then some host
  else ["%25".toList, "%".toList].findSome? fun delimiter ↦
    (Search.find delimiter host).bind fun i ↦
      if hosts.isIpAddr (host.take i) then
        some (host.take i ++ "%".toList ++ host.drop (i + delimiter.length))
      else none

def normalizeDnsHostOrIpLiteral (host : Text) : Text :=
  let host := trimDots (toAsciiLowercase host)
  (normalizeIpLiteral hosts host).getD host

def normalizeHost (host : Text) : Text :=
  let host := trim host
  if host.head? = some '[' ∧ ']' ∈ host then
    normalizeDnsHostOrIpLiteral hosts (host.tail.takeWhile (· != ']'))
  -- One colon is taken for the start of a port, whatever follows it.
  else if host.count ':' = 1 then
    normalizeDnsHostOrIpLiteral hosts (host.takeWhile (· != ':'))
  else normalizeDnsHostOrIpLiteral hosts host

inductive DomainPattern
  | apexAndSubdomains (domain : Text)
  | subdomainsOnly (domain : Text)
  | exact (domain : Text)

/-- The three ways to write an entry, told apart by what it starts with. -/
inductive Scope
  | apexAndSubdomains
  | subdomainsOnly
  | exact

namespace Scope

def marker : Scope → Text
  | apexAndSubdomains => "**.".toList
  | subdomainsOnly => "*.".toList
  | exact => []

def pattern : Scope → Text → DomainPattern
  | apexAndSubdomains => .apexAndSubdomains
  | subdomainsOnly => .subdomainsOnly
  | exact => .exact

end Scope

/-- `strip_prefix("**.")`, then `strip_prefix("*.")` -/
def stripScope (input : Text) : Scope × Text :=
  if "**.".toList <+: input then (.apexAndSubdomains, input.drop 3)
  else if "*.".toList <+: input then (.subdomainsOnly, input.drop 2)
  else (.exact, input)

def normalizePattern (pattern : Text) : Text :=
  let pattern := trim pattern
  if pattern = "*".toList then "*".toList
  else
    let (scope, remainder) := stripScope pattern
    scope.marker ++ normalizeHost hosts remainder

namespace DomainPattern

def parseDomain (domain : Text) (build : Text → DomainPattern) : DomainPattern :=
  let domain := trim domain
  if domain = [] then .exact [] else build domain

def parse (input : Text) : DomainPattern :=
  let input := trim input
  if input = [] then .exact []
  else match stripScope input with
    | (.exact, domain) => .exact domain
    | (scope, domain) => parseDomain domain scope.pattern

end DomainPattern

def parseDomainForConstraints (domain : Text) : Text :=
  let domain := trimDots (trim domain)
  if domain = [] then []
  else
    let host := if domain.head? = some '[' ∧ domain.getLast? = some ']' then domain.tail.dropLast
      else domain
    -- A text with a wildcard or a scope is not parsed but taken as it is.
    if '*' ∈ host ∨ '?' ∈ host ∨ '%' ∈ host then domain
    else (hosts.parse host).getD []

namespace DomainPattern

def parseForConstraints (input : Text) : DomainPattern :=
  let input := trim input
  if input = [] then .exact []
  else
    let (scope, domain) := stripScope input
    scope.pattern (parseDomainForConstraints hosts domain)

end DomainPattern

def expandDomainPattern (pattern : Text) : List Text :=
  match DomainPattern.parse pattern with
  | .exact domain => [domain]
  | .subdomainsOnly domain => ["?*.".toList ++ domain]
  | .apexAndSubdomains domain => [domain, "?*.".toList ++ domain]

def isGlobalWildcardDomainPattern (pattern : Text) : Bool :=
  (expandDomainPattern (normalizePattern hosts pattern)).any (· == "*".toList)

def normalizeDomain (domain : Text) : Text := toAsciiLowercase (trimDots domain)

def domainEq (left right : Text) : Bool := normalizeDomain left == normalizeDomain right

def isSubdomainOrEqual (child parent : Text) : Bool :=
  let child := normalizeDomain child
  let parent := normalizeDomain parent
  child == parent || ('.' :: parent).isSuffixOf child

def isStrictSubdomain (child parent : Text) : Bool :=
  let child := normalizeDomain child
  let parent := normalizeDomain parent
  child != parent && ('.' :: parent).isSuffixOf child

def DomainPattern.allows : DomainPattern → DomainPattern → Bool
  | .exact domain, .exact candidate => domainEq candidate domain
  | .exact _, _ => false
  | .subdomainsOnly domain, .exact candidate => isStrictSubdomain candidate domain
  | .subdomainsOnly domain, .subdomainsOnly candidate => isSubdomainOrEqual candidate domain
  | .subdomainsOnly domain, .apexAndSubdomains candidate => isStrictSubdomain candidate domain
  | .apexAndSubdomains domain, .exact candidate => isSubdomainOrEqual candidate domain
  | .apexAndSubdomains domain, .subdomainsOnly candidate => isSubdomainOrEqual candidate domain
  | .apexAndSubdomains domain, .apexAndSubdomains candidate => isSubdomainOrEqual candidate domain

inductive GlobalWildcard
  | allow
  | reject
  deriving DecidableEq

def addGlobs (seen : List Text) (set : List Glob) : List Text → Except Text (List Text × List Glob)
  | [] => .ok (seen, set)
  | candidate :: rest =>
    if candidate ∈ seen then addGlobs seen set rest
    else match globs.build candidate with
      | none => .error ("invalid glob pattern: ".toList ++ candidate)
      | some glob => addGlobs (seen ++ [candidate]) (set ++ [glob]) rest

def addPatterns (globalWildcard : GlobalWildcard) (seen : List Text) (set : List Glob) :
    List Text → Except Text (List Glob)
  | [] => .ok set
  | pattern :: rest =>
    if globalWildcard = .reject ∧ isGlobalWildcardDomainPattern hosts pattern then
      .error (("unsupported global wildcard domain pattern \"*\"; use exact hosts or scoped " ++
        "wildcards like *.example.com or **.example.com").toList)
    else do
      let (seen, set) ← addGlobs globs seen set
        (expandDomainPattern (normalizePattern hosts pattern))
      addPatterns globalWildcard seen set rest

def compileGlobsetWithPolicy (patterns : List Text) (globalWildcard : GlobalWildcard) :
    Except Text (List Glob) := do
  let set ← addPatterns globs hosts globalWildcard [] [] patterns
  match globs.setError set with
  | some error => .error error
  | none => .ok set

def compileAllowlistGlobset (patterns : List Text) : Except Text (List Glob) :=
  compileGlobsetWithPolicy globs hosts patterns .allow

def compileDenylistGlobset (patterns : List Text) : Except Text (List Glob) :=
  compileGlobsetWithPolicy globs hosts patterns .reject

/-- `GlobSet::is_match` -/
def setIsMatch (set : List Glob) (host : Text) : Bool := set.any fun glob ↦ globs.isMatch glob host

variable {globs hosts} {seen seen' candidates patterns : List Text} {set set' : List Glob}
  {globalWildcard : GlobalWildcard} {host : Text}

def Compiled (globs : GlobLibrary Glob) (seen : List Text) (set : List Glob) : Prop :=
  ∀ glob, glob ∈ set ↔ ∃ candidate ∈ seen, globs.build candidate = some glob

theorem addGlobs_spec (h : addGlobs globs seen set candidates = .ok (seen', set'))
    (hs : Compiled globs seen set) :
    Compiled globs seen' set' ∧ ∀ cand, cand ∈ seen' ↔ cand ∈ seen ∨ cand ∈ candidates := by
  induction candidates generalizing seen set with
  | nil =>
    cases h
    exact ⟨hs, by simp⟩
  | cons cand _ ih =>
    change (if cand ∈ seen then _ else _) = _ at h
    by_cases hm : cand ∈ seen
    · rw [if_pos hm] at h
      obtain ⟨hse, ht⟩ := ih h hs
      refine ⟨hse, fun text ↦ ?_⟩
      rw [ht, mem_cons]
      constructor
      · exact Or.imp_right .inr
      · rintro (h | rfl | h)
        exacts [.inl h, .inl hm, .inr h]
    · rw [if_neg hm] at h
      cases hb : globs.build cand with
      | none => rw [hb] at h; cases h
      | some glob =>
        rw [hb] at h
        have hn : Compiled globs (seen ++ [cand]) (set ++ [glob]) := by
          intro other
          simp only [mem_append, mem_singleton, hs other]
          constructor
          · rintro (⟨text, hte, ho⟩ | rfl)
            exacts [⟨text, .inl hte, ho⟩, ⟨cand, .inr rfl, hb⟩]
          · rintro ⟨text, hte | rfl, ho⟩
            · exact .inl ⟨text, hte, ho⟩
            · rw [hb, Option.some.injEq] at ho
              exact .inr ho.symm
        obtain ⟨hse, ht⟩ := ih h hn
        refine ⟨hse, fun text ↦ ?_⟩
        rw [ht, mem_append, mem_singleton, mem_cons, or_assoc]

theorem addPatterns_spec (h : addPatterns globs hosts globalWildcard seen set patterns = .ok set')
    (hs : Compiled globs seen set) :
    Compiled globs (seen ++ patterns.flatMap fun pat ↦
      expandDomainPattern (normalizePattern hosts pat)) set' := by
  induction patterns generalizing seen set with
  | nil =>
    rw [addPatterns, Except.ok.injEq] at h
    subst h
    simpa using hs
  | cons pat _ ih =>
    rw [addPatterns] at h
    split at h
    next => cases h
    next =>
      cases ha : addGlobs globs seen set (expandDomainPattern (normalizePattern hosts pat)) with
      | error => rw [ha] at h; cases h
      | ok next =>
        obtain ⟨_, _⟩ := next
        rw [ha] at h
        obtain ⟨hse, ht⟩ := addGlobs_spec ha hs
        intro glob
        rw [ih h hse glob]
        simp only [mem_append, ht, flatMap_cons, or_assoc]

theorem setIsMatch_iff (h : compileGlobsetWithPolicy globs hosts patterns globalWildcard = .ok set) :
    setIsMatch globs set host = true ↔ ∃ pat ∈ patterns,
      ∃ cand ∈ expandDomainPattern (normalizePattern hosts pat),
        ∃ glob, globs.build cand = some glob ∧ globs.isMatch glob host = true := by
  have hs : Compiled globs (patterns.flatMap fun pat ↦
      expandDomainPattern (normalizePattern hosts pat)) set := by
    unfold compileGlobsetWithPolicy at h
    cases ha : addPatterns globs hosts globalWildcard [] [] patterns with
    | error => rw [ha] at h; cases h
    | ok added =>
      rw [ha] at h
      change (match globs.setError added with
        | some error => .error error
        | none => .ok added) = Except.ok set at h
      split at h
      next => cases h
      next =>
        cases h
        exact addPatterns_spec ha (by simp [Compiled])
  unfold setIsMatch
  simp only [any_eq_true, hs _, mem_flatMap]
  constructor
  · rintro ⟨glob, ⟨cand, ⟨pat, hp, hc⟩, hg⟩, hm⟩
    exact ⟨pat, hp, cand, hc, glob, hg, hm⟩
  · rintro ⟨pat, hp, cand, hc, glob, hg, hm⟩
    exact ⟨glob, ⟨cand, ⟨pat, hp, hc⟩, hg⟩, hm⟩

end Slopdex.NetworkProxy
