import Slopdex.NetworkProxy.Spelling
import Slopdex.NetworkProxy.State

/-!
# A configured allow-list within the managed one

The check compares the entries as a parser for hosts reads them; what decides at run time are the
globs that they are compiled to. A configured glob that is also a managed one, or that puts labels in
front of a managed domain, reaches no other host, and there is no other way unless wildcards stand
inside the domains. For plain entries both readings agree, so that the check is enough. Entries that
are spelt otherwise escape it: the text behind a colon, which compilation takes for a port, is
compared with the managed domain.
-/

namespace Slopdex.NetworkProxy

open Protocol (Text trim)
open Library Library.Wildcard List

variable {Hook Glob : Type} {globs : GlobLibrary Glob} {hosts : HostLibrary}
  {libs : Libraries Hook Glob} {config : NetworkProxyConfig Hook}
  {constraints : NetworkProxyConstraints} {domain parent host entry : Text}

/-! ## What globs match -/

def Covers (domain host : Text) : Prop := accepts sameLetter (domain.map tokenOf) host = true

def CoversSubdomain (domain host : Text) : Prop :=
  ∃ label rest, host = label ++ '.' :: rest ∧ label ≠ [] ∧ Covers domain rest

theorem sameLetter_dot_iff {b : Char} : sameLetter '.' b = true ↔ b = '.' := by
  unfold sameLetter
  rw [beq_iff_eq, eq_comm]
  exact toLower_eq_iff (by decide)

theorem covers_dot_cons_iff {start : Text} :
    Covers (start ++ '.' :: parent) host ↔
      ∃ label rest, host = label ++ '.' :: rest ∧ Covers start label ∧ Covers parent rest := by
  have ht : (start ++ '.' :: parent).map tokenOf =
      start.map tokenOf ++ .letter '.' :: parent.map tokenOf := by
    rw [map_append]
    rfl
  unfold Covers
  rw [ht, accepts_append_iff]
  simp only [accepts_letter_iff, sameLetter_dot_iff]
  constructor
  · rintro ⟨label, _, rfl, hl, _, rest, rfl, rfl, hr⟩
    exact ⟨label, rest, rfl, hl, hr⟩
  · rintro ⟨label, rest, rfl, hl, hr⟩
    exact ⟨label, '.' :: rest, rfl, hl, '.', rest, rfl, rfl, hr⟩

theorem covers_subdomain_glob_iff :
    Covers ("?*.".toList ++ domain) host ↔ CoversSubdomain domain host := by
  have ha (label : Text) : Covers ['?', '*'] label ↔ label ≠ [] := accepts_one_many_iff
  change Covers (['?', '*'] ++ '.' :: domain) host ↔ _
  simp only [covers_dot_cons_iff, ha]
  rfl

/-- A lowercase text without wildcards. -/
def IsLiteral (domain : Text) : Prop :=
  ∀ c ∈ domain, c ∉ ['*', '?', '[', ']', '\x7b', '\x7d', '\\'] ∧ c.toLower = c

instance (domain : Text) : Decidable (IsLiteral domain) := by
  unfold IsLiteral
  infer_instance

/-- The only wildcards are those in front of a domain that stand for its subdomains. -/
def IsLiteralGlob (glob : Text) : Prop :=
  IsLiteral glob ∨ ∃ domain, glob = "?*.".toList ++ domain ∧ IsLiteral domain

theorem IsSimpleGlob.subdomain (h : IsSimpleGlob domain) : IsSimpleGlob
    ("?*.".toList ++ domain) := by
  obtain ⟨hch, hs⟩ := h
  constructor
  · intro c hc
    cases mem_append.mp hc with
    | inl hm =>
      have hplain : ∀ c ∈ "?*.".toList, c ∉ ['[', ']', '\x7b', '\x7d', '\\'] := by decide
      exact hplain c hm
    | inr hmem => exact hch c hmem
  · change ¬ ['*', '*'] <:+: '?' :: '*' :: '.' :: domain
    simp only [infix_cons_iff, cons_prefix_cons]
    rintro (⟨hc, -⟩ | ⟨-, hc, -⟩ | ⟨hc, -⟩ | hi)
    · exact absurd hc (by decide)
    · exact absurd hc (by decide)
    · exact absurd hc (by decide)
    · exact hs hi

namespace IsLiteral

variable (h : IsLiteral domain)
include h

theorem isSimpleGlob : IsSimpleGlob domain := by
  have hsub : ['[', ']', '\x7b', '\x7d', '\\'] ⊆ ['*', '?', '[', ']', '\x7b', '\x7d', '\\'] := by
    decide
  refine ⟨fun c hc hm ↦ (h c hc).1 (hsub hm), fun hi ↦ ?_⟩
  exact (h '*' (hi.subset (by decide))).1 (by decide)

theorem covers_iff : Covers domain host ↔ toAsciiLowercase host = domain := by
  unfold Covers
  induction domain generalizing host with
  | nil => simp [toAsciiLowercase]
  | cons c domain ih =>
    obtain ⟨hc, hlower⟩ := h c (.head _)
    have hletter : tokenOf c = .letter c := by
      unfold tokenOf
      rw [if_neg, if_neg]
      all_goals
        rintro rfl
        exact hc (by decide)
    rw [map_cons, hletter, accepts_letter_iff]
    constructor
    · rintro ⟨b, rest, rfl, hb, hr⟩
      rw [sameLetter, beq_iff_eq, hlower] at hb
      rw [toAsciiLowercase, map_cons, ← hb]
      exact congrArg (c :: ·) ((ih fun d hd ↦ h d (.tail _ hd)).mp hr)
    · intro hhost
      obtain ⟨b, rest, rfl, hb, hr⟩ := map_eq_cons_iff.mp hhost
      refine ⟨b, rest, rfl, ?_, (ih fun d hd ↦ h d (.tail _ hd)).mpr hr⟩
      rw [sameLetter, beq_iff_eq, hlower, hb]

theorem covers_self : Covers domain domain := by
  rw [h.covers_iff]
  exact (map_congr_left fun c hc ↦ (h c hc).2).trans (map_id' domain)

end IsLiteral

/-! ## Globs below managed globs -/

/-- The texts of the globs that entries are compiled to. -/
def globTexts (hosts : HostLibrary) (entries : List Text) : List Text :=
  entries.flatMap fun entry ↦ expandDomainPattern (normalizePattern hosts entry)

def Matches (globs : GlobLibrary Glob) (text host : Text) : Prop :=
  ∃ glob, globs.build text = some glob ∧ globs.isMatch glob host = true

variable {glob managedGlob : Text} {managedGlobs : List Text}

theorem matches_iff_covers (h : IsSimpleGlob glob) :
    Matches globs glob host ↔ Covers glob host := by
  obtain ⟨_, hb, hmatch⟩ := globs.build_of_isSimpleGlob glob h
  unfold Matches Covers
  rw [hb, ← hmatch host]
  simp

theorem setIsMatch_iff_exists_glob {entries : List Text} {set : List Glob}
    (h : compileAllowlistGlobset globs hosts entries = .ok set) :
    setIsMatch globs set host = true ↔ ∃ glob ∈ globTexts hosts entries, Matches globs glob host := by
  rw [setIsMatch_iff h]
  simp only [globTexts, mem_flatMap]
  constructor
  · rintro ⟨entry, he, glob, hg, hm⟩
    exact ⟨glob, ⟨entry, he, hg⟩, hm⟩
  · rintro ⟨glob, ⟨entry, he, hg⟩, hm⟩
    exact ⟨entry, he, glob, hg, hm⟩

/-- The glob is the managed one, or it puts labels in front of the domain whose subdomains the
managed one is for. -/
def Below (glob managedGlob : Text) : Prop :=
  glob = managedGlob ∨ IsSimpleGlob glob ∧ ∃ labels domain, glob = labels ++ '.' :: domain ∧
    managedGlob = "?*.".toList ++ domain ∧ ∃ c ∈ labels, c ≠ '*'

theorem Below.matches (h : Below glob managedGlob) (hm : Matches globs glob host) :
    Matches globs managedGlob host := by
  rcases h with rfl | ⟨hs, labels, domain, rfl, rfl, c, hc, hne⟩
  · exact hm
  have hd : IsSimpleGlob domain :=
    ⟨fun c hc ↦ hs.1 c (by simp [hc]), fun hi ↦ hs.2 (hi.trans ⟨labels ++ ['.'], [], by simp⟩)⟩
  rw [matches_iff_covers hd.subdomain, covers_subdomain_glob_iff]
  obtain ⟨label, rest, rfl, hl, hr⟩ := covers_dot_cons_iff.mp ((matches_iff_covers hs).mp hm)
  refine ⟨label, rest, rfl, ne_nil_of_accepts ⟨tokenOf c, mem_map_of_mem hc, ?_⟩ hl, hr⟩
  unfold tokenOf
  split_ifs <;> nofun

theorem IsLiteralGlob.isSimpleGlob (h : IsLiteralGlob glob) : IsSimpleGlob glob := by
  rcases h with h | ⟨domain, rfl, h⟩
  · exact h.isSimpleGlob
  · exact h.isSimpleGlob.subdomain

theorem IsLiteral.below_of_matches (h : IsLiteral glob) (hm : IsLiteralGlob managedGlob)
    (hmatch : Matches globs managedGlob glob) : Below glob managedGlob := by
  have hlower : toAsciiLowercase glob = glob := h.covers_iff.mp h.covers_self
  rw [matches_iff_covers hm.isSimpleGlob] at hmatch
  rcases hm with hm | ⟨domain, rfl, hm⟩
  · exact .inl (hlower.symm.trans (hm.covers_iff.mp hmatch))
  · obtain ⟨label, rest, rfl, hl, hr⟩ := covers_subdomain_glob_iff.mp hmatch
    have hrest : IsLiteral rest := fun c hc ↦ h c (by simp [hc])
    have heq : rest = domain :=
      (hrest.covers_iff.mp hrest.covers_self).symm.trans (hm.covers_iff.mp hr)
    subst heq
    obtain ⟨c, _, rfl⟩ := exists_cons_of_ne_nil hl
    refine .inr ⟨h.isSimpleGlob, _, rest, rfl, rfl, c, .head _, ?_⟩
    rintro rfl
    exact (h '*' (by simp)).1 (by decide)

/-- A label that is longer than every managed glob tells whose subdomains are reached. -/
theorem IsLiteral.below_of_matches_subdomain (h : IsLiteral domain) (hm : IsLiteralGlob managedGlob)
    {n : ℕ} (hn : managedGlob.length ≤ n)
    (hmatch : Matches globs managedGlob (replicate (n + 1) 'x' ++ '.' :: domain)) :
    Below ("?*.".toList ++ domain) managedGlob := by
  rw [matches_iff_covers hm.isSimpleGlob] at hmatch
  rcases hm with hm | ⟨managed, rfl, hm⟩
  · have hlength := congrArg length (hm.covers_iff.mp hmatch)
    simp [toAsciiLowercase] at hlength
    omega
  · obtain ⟨label, rest, hsplit, -, hr⟩ := covers_subdomain_glob_iff.mp hmatch
    have hdone (hrest : IsLiteral rest) : rest = managed :=
      (hrest.covers_iff.mp hrest.covers_self).symm.trans (hm.covers_iff.mp hr)
    rcases append_eq_append_iff.mp hsplit with ⟨inner, -, hin⟩ | ⟨inner, hlabel, hin⟩
    · cases inner with
      | nil =>
        obtain rfl : domain = rest := (cons.inj hin).2
        exact .inl (by rw [hdone h])
      | cons c inner =>
        obtain ⟨rfl, rfl⟩ := cons.inj hin
        obtain rfl := hdone fun d hd ↦ h d (by simp [hd])
        exact .inr ⟨h.isSimpleGlob.subdomain, "?*.".toList ++ inner, rest, by simp, rfl, '?',
          .head _, by decide⟩
    · cases inner with
      | nil =>
        obtain rfl : rest = domain := (cons.inj hin).2
        exact .inl (by rw [hdone h])
      | cons c inner =>
        have hc : '.' ∈ replicate (n + 1) 'x' := by
          rw [hlabel, ← (cons.inj hin).1]
          simp
        exact absurd (eq_of_mem_replicate hc) (by decide)

theorem exists_below_of_matches (hg : IsLiteralGlob glob)
    (hm : ∀ managedGlob ∈ managedGlobs, IsLiteralGlob managedGlob)
    (h : ∀ host, Matches globs glob host → ∃ managedGlob ∈ managedGlobs,
      Matches globs managedGlob host) : ∃ managedGlob ∈ managedGlobs, Below glob managedGlob := by
  have hsimple := hg.isSimpleGlob
  rcases hg with hg | ⟨domain, rfl, hg⟩
  · obtain ⟨managedGlob, hmem, hmatch⟩ := h glob ((matches_iff_covers hsimple).mpr hg.covers_self)
    exact ⟨managedGlob, hmem, hg.below_of_matches (hm managedGlob hmem) hmatch⟩
  · have hhost : Matches globs ("?*.".toList ++ domain)
        (replicate (managedGlobs.flatten.length + 1) 'x' ++ '.' :: domain) := by
      rw [matches_iff_covers hsimple, covers_subdomain_glob_iff]
      exact ⟨_, domain, rfl, by simp, hg.covers_self⟩
    obtain ⟨managedGlob, hmem, hmatch⟩ := h _ hhost
    exact ⟨managedGlob, hmem, hg.below_of_matches_subdomain (hm managedGlob hmem)
      (sublist_flatten_of_mem hmem).length_le hmatch⟩

/-! ## The check of plain entries -/

namespace IsPlainDomain

variable (h : IsPlainDomain hosts domain)

include h

theorem not_double_star : ¬ ['*', '*'] <:+: normalizeDomain domain := by
  intro hi
  have hlower := hi.trans (normalizeDomain_isPrefix domain).isInfix
  obtain ⟨start, rest, hs⟩ := hlower
  have hm : domain.map Char.toLower = (start ++ ['*', '*']) ++ rest := hs.symm
  obtain ⟨_, last, rfl, hl, -⟩ := map_eq_append_iff.mp hm
  obtain ⟨first, stars, rfl, -, hst⟩ := map_eq_append_iff.mp hl
  -- No letter is turned into a star.
  have heq : stars = ['*', '*'] := by
    obtain ⟨a, rest, rfl, ha, hr⟩ := map_eq_cons_iff.mp hst
    obtain ⟨_, _, rfl, hb, hr⟩ := map_eq_cons_iff.mp hr
    rw [map_eq_nil_iff.mp hr, (toLower_eq_iff (by decide)).mp ha,
      (toLower_eq_iff (by decide)).mp hb]
  exact h.2.1 (heq ▸ infix_append first stars last)

theorem isSimpleGlob : IsSimpleGlob (normalizeDomain domain) := by
  refine ⟨fun c hc hmem ↦ ?_, h.not_double_star⟩
  have hca : ∀ k ∈ ['[', ']', '\x7b', '\x7d', '\\'], IsCaseless k := by decide
  have hs : ∀ k ∈ ['[', ']', '\x7b', '\x7d', '\\'],
      k ∈ [':', '%', '[', ']', '\x7b', '\x7d', '\\'] := by decide
  exact h.not_mem (hs c hmem) (mem_of_mem_normalizeDomain (hca c hmem) hc)

theorem exists_ne_star {start : Text} (hsp : normalizeDomain domain = start ++ '.' :: parent) :
    ∃ c ∈ start, c ≠ '*' := by
  by_contra hst
  push Not at hst
  -- So the start is empty, one star, or begins with two.
  have hs (marker : Text) (hma : ∀ k ∈ marker, IsCaseless k)
      (hso : marker <+: normalizeDomain domain) : marker <+: domain :=
    isPrefix_of_isPrefix_normalizeDomain hma hso
  rw [hsp] at hs
  obtain ⟨-, htw, -, hd, ho, -⟩ := h
  cases start with
  | nil => exact hd (hs ['.'] (by decide) ⟨parent, rfl⟩)
  | cons a rest =>
    rw [hst a mem_cons_self] at hs
    cases rest with
    | nil => exact ho (hs ['*', '.'] (by decide) ⟨parent, rfl⟩)
    | cons b rest =>
      rw [hst b (mem_cons_of_mem _ mem_cons_self)] at hs
      exact htw (hs ['*', '*'] (by decide) ⟨rest ++ '.' :: parent, rfl⟩).isInfix

end IsPlainDomain

theorem isSuffixOf_dot_iff {child : Text} :
    ('.' :: parent).isSuffixOf child = true ↔ ∃ start, child = start ++ '.' :: parent := by
  rw [isSuffixOf_iff_suffix]
  constructor
  all_goals
    rintro ⟨start, rfl⟩
    exact ⟨start, rfl⟩

theorem isSubdomainOrEqual_iff {child : Text} : isSubdomainOrEqual child parent = true ↔
    normalizeDomain child = normalizeDomain parent ∨
      ∃ start, normalizeDomain child = start ++ '.' :: normalizeDomain parent := by
  unfold isSubdomainOrEqual
  rw [Bool.or_eq_true, beq_iff_eq, isSuffixOf_dot_iff]

theorem exists_of_isStrictSubdomain {child : Text} (h : isStrictSubdomain child parent = true) :
    ∃ start, normalizeDomain child = start ++ '.' :: normalizeDomain parent := by
  unfold isStrictSubdomain at h
  rw [Bool.and_eq_true, isSuffixOf_dot_iff] at h
  exact h.2

/-- The globs of an entry, as `expandDomainPattern` has them. -/
def Scope.expand : Scope → Text → List Text
  | .exact, domain => [domain]
  | .subdomainsOnly, domain => ["?*.".toList ++ domain]
  | .apexAndSubdomains, domain => [domain, "?*.".toList ++ domain]

theorem IsPlainEntry.expandDomainPattern_eq (h : IsPlainEntry hosts entry) :
    expandDomainPattern (normalizePattern hosts entry) =
      (stripScope (trim entry)).1.expand (normalizeDomain (stripScope (trim entry)).2) := by
  unfold expandDomainPattern
  rw [h.parse_normalizePattern]
  cases (stripScope (trim entry)).1 <;> rfl

theorem exists_below_of_allows {scope managedScope : Scope} {cand managed : Text}
    (hplain : IsPlainDomain hosts domain)
    (hcand : normalizeDomain cand = normalizeDomain domain)
    (hallows : (managedScope.pattern managed).allows (scope.pattern cand) = true)
    (hglob : glob ∈ scope.expand (normalizeDomain domain)) :
    ∃ managedGlob ∈ managedScope.expand (normalizeDomain managed), Below glob managedGlob := by
  have hex (hsu : ∃ start, normalizeDomain cand = start ++ '.' :: normalizeDomain managed) :
      Below (normalizeDomain domain) ("?*.".toList ++ normalizeDomain managed) := by
    obtain ⟨start, hs⟩ := hsu
    rw [hcand] at hs
    exact .inr ⟨hplain.isSimpleGlob, start, _, hs, rfl, hplain.exists_ne_star hs⟩
  have hb (hsu : ∃ start, normalizeDomain cand = start ++ '.' :: normalizeDomain managed) :
      Below ("?*.".toList ++ normalizeDomain domain) ("?*.".toList ++ normalizeDomain managed) := by
    obtain ⟨start, hs⟩ := hsu
    rw [hcand] at hs
    exact .inr ⟨hplain.isSimpleGlob.subdomain, "?*.".toList ++ start, _, by rw [hs]; simp, rfl, '?',
      .head _, by decide⟩
  have he (heq : normalizeDomain cand = normalizeDomain managed) :
      normalizeDomain domain = normalizeDomain managed := hcand.symm.trans heq
  cases managedScope with
  | exact =>
    cases scope with
    | exact =>
      have heq : normalizeDomain cand = normalizeDomain managed := beq_iff_eq.mp hallows
      rw [he heq] at hglob
      exact ⟨glob, hglob, .inl rfl⟩
    | subdomainsOnly | apexAndSubdomains => cases hallows
  | subdomainsOnly =>
    refine ⟨_, mem_singleton_self _, ?_⟩
    cases scope with
    | exact =>
      rw [mem_singleton.mp hglob]
      exact hex (exists_of_isStrictSubdomain hallows)
    | subdomainsOnly =>
      rw [mem_singleton.mp hglob]
      cases isSubdomainOrEqual_iff.mp hallows with
      | inl heq => exact .inl (by rw [he heq])
      | inr hsu => exact hb hsu
    | apexAndSubdomains =>
      have hsu := exists_of_isStrictSubdomain hallows
      rcases mem_pair.mp hglob with rfl | rfl
      · exact hex hsu
      · exact hb hsu
  | apexAndSubdomains =>
    have hlast : "?*.".toList ++ normalizeDomain managed ∈
        Scope.expand .apexAndSubdomains (normalizeDomain managed) := .tail _ (.head _)
    have hsub : isSubdomainOrEqual cand managed = true := by
      cases scope <;> exact hallows
    rcases isSubdomainOrEqual_iff.mp hsub with heq | hsu
    · rw [he heq] at hglob
      refine ⟨glob, ?_, .inl rfl⟩
      cases scope with
      | exact => exact mem_singleton.mp hglob ▸ .head _
      | subdomainsOnly => exact mem_singleton.mp hglob ▸ hlast
      | apexAndSubdomains => exact hglob
    · refine ⟨_, hlast, ?_⟩
      cases scope with
      | exact => exact mem_singleton.mp hglob ▸ hex hsu
      | subdomainsOnly => exact mem_singleton.mp hglob ▸ hb hsu
      | apexAndSubdomains =>
        rcases mem_pair.mp hglob with rfl | rfl
        · exact hex hsu
        · exact hb hsu

theorem validateAllowedDomains_of_valid
    (h : validatePolicyAgainstConstraints libs config constraints = .ok ()) :
    validateAllowedDomains libs config constraints = .ok () := by
  unfold validatePolicyAgainstConstraints at h
  simp only [Effects.bind_eq_ok_iff] at h
  obtain ⟨-, -, -, -, -, -, -, -, -, -, -, -, -, -, -, -, _, ha, -⟩ := h
  exact ha

variable {managed allowed denied : List Text}

theorem exists_allows_of_subset (h : validateAllowlistSubset libs managed allowed = .ok ())
    (hent : entry ∈ allowed) : ∃ managedEntry ∈ managed,
      (DomainPattern.parseForConstraints libs.hosts managedEntry).allows
        (DomainPattern.parseForConstraints libs.hosts entry) = true := by
  unfold validateAllowlistSubset at h
  dsimp only at h
  split_ifs at h with hn
  rw [filter_eq_nil_iff] at hn
  have ha := hn entry hent
  simpa using ha

theorem exists_same_of_fixed (h : validateFixedAllowlist libs managed allowed denied = .ok ())
    (hent : entry ∈ allowed) :
    ∃ managedEntry ∈ managed, toAsciiLowercase managedEntry = toAsciiLowercase entry := by
  unfold validateFixedAllowlist at h
  split_ifs at h with hs
  have hmem : toAsciiLowercase entry ∈ lowercaseSet allowed :=
    mem_toFinset.mpr (mem_map_of_mem hent)
  rw [hs, Finset.mem_sdiff] at hmem
  exact mem_map.mp (mem_toFinset.mp hmem.1)

/-- Every configured glob is below a managed one. -/
def Within (hosts : HostLibrary) (managed allowed : List Text) : Prop :=
  ∀ glob ∈ globTexts hosts allowed, ∃ managedGlob ∈ globTexts hosts managed, Below glob managedGlob

def LiteralGlobs (hosts : HostLibrary) (entries : List Text) : Prop :=
  ∀ glob ∈ globTexts hosts entries, IsLiteralGlob glob

/-- The configured entries and the managed entries that admit them are plain. -/
def PlainPairs (hosts : HostLibrary) (managed allowed : List Text) : Prop :=
  ∀ entry ∈ allowed, IsPlainEntry hosts entry ∧ ∀ managedEntry ∈ managed,
    (DomainPattern.parseForConstraints hosts managedEntry).allows
      (DomainPattern.parseForConstraints hosts entry) = true → IsPlainEntry hosts managedEntry

theorem within_of_fixed (h : validateFixedAllowlist libs managed allowed denied = .ok ()) :
    Within libs.hosts managed allowed := by
  intro glob hglob
  obtain ⟨entry, hent, hg⟩ := mem_flatMap.mp hglob
  obtain ⟨managedEntry, hmem, hlower⟩ := exists_same_of_fixed h hent
  rw [← normalizePattern_congr hlower] at hg
  exact ⟨glob, mem_flatMap.mpr ⟨managedEntry, hmem, hg⟩, .inl rfl⟩

theorem within_of_subset (h : validateAllowlistSubset libs managed allowed = .ok ())
    (hplain : PlainPairs libs.hosts managed allowed) : Within libs.hosts managed allowed := by
  intro glob hglob
  obtain ⟨entry, hent, hg⟩ := mem_flatMap.mp hglob
  obtain ⟨managedEntry, hmem, hallows⟩ := exists_allows_of_subset h hent
  obtain ⟨hentry, hmanaged⟩ := hplain entry hent
  have hmanaged := hmanaged managedEntry hmem hallows
  rw [parseForConstraints_eq, parseForConstraints_eq] at hallows
  have hdom : IsPlainDomain libs.hosts (stripScope (trim entry)).2 := hentry
  have hmanagedDomain : IsPlainDomain libs.hosts (stripScope (trim managedEntry)).2 := hmanaged
  rw [hentry.expandDomainPattern_eq] at hg
  obtain ⟨managedGlob, hmg, hbelow⟩ := exists_below_of_allows hdom
    hdom.normalizeDomain_parseDomainForConstraints hallows hg
  rw [hmanagedDomain.normalizeDomain_parseDomainForConstraints, ← hmanaged.expandDomainPattern_eq]
    at hmg
  exact ⟨managedGlob, mem_flatMap.mpr ⟨managedEntry, hmem, hmg⟩, hbelow⟩

/-- The globs with `?` and `*` alone. -/
def wildcardGlobs : GlobLibrary Text where
  build text := if IsSimpleGlob text then some text else none
  isMatch glob host := accepts sameLetter (glob.map tokenOf) host
  setError _ := none
  build_of_isSimpleGlob text htext := ⟨text, if_pos htext, fun _ ↦ rfl⟩

/-- Names of letters, digits, hyphens and dots, which are turned to lowercase. -/
def asciiHosts : HostLibrary where
  parse text :=
    if text ≠ [] ∧ text.all (fun c ↦ c.isAlphanum || c == '-' || c == '.') then
      some (toAsciiLowercase text)
    else none
  isIpAddr text := text == "::1".toList

def exampleLibraries : Libraries Unit Text where
  globs := wildcardGlobs
  hosts := asciiHosts
  quote text := "\"".toList ++ text ++ "\"".toList
  hookError _ _ := none
  compileHooksError _ := none
  socketError _ _ := none
  mitmStateError _ := none

def allowing (patterns : List String) : NetworkProxyConfig Unit :=
  { domains := some (patterns.map fun pattern ↦ ⟨pattern.toList, .allow⟩) }

def managing (patterns : List String) : NetworkProxyConstraints :=
  { allowedDomains := some (patterns.map String.toList) }

end Slopdex.NetworkProxy
