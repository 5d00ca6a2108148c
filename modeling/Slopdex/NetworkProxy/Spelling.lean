import Slopdex.NetworkProxy.Policy

/-!
# The two readings of an entry

Compilation does not tell the spellings of an entry apart that differ in the case of their letters.
For the entries that are spelt plainly, without ports, brackets, scopes or blanks, the text that is
compiled and the domain that is compared with the managed entries are the same.
-/

namespace Slopdex.NetworkProxy

open Protocol (Text isWhitespace trim)
open Library DomainPattern List

variable {hosts : HostLibrary} {c k : Char} {text : Text}

theorem toNat_toLower (c : Char) :
    c.toLower.toNat = if 65 ≤ c.toNat ∧ c.toNat ≤ 90 then c.toNat + 32 else c.toNat := by
  unfold Char.toLower
  by_cases h : c.val ≥ 'A'.val ∧ c.val ≤ 'Z'.val
  · have hb : 65 ≤ c.toNat ∧ c.toNat ≤ 90 := h
    rw [dif_pos h, if_pos hb]
    change (c.val + 32).toNat = c.val.toNat + 32
    rw [UInt32.toNat_add]
    apply Nat.mod_eq_of_lt
    change c.toNat + 32 < 2 ^ 32
    omega
  · have hb : ¬ (65 ≤ c.toNat ∧ c.toNat ≤ 90) := h
    rw [dif_neg h, if_neg hb]

@[simp]
theorem toLower_toLower (c : Char) : c.toLower.toLower = c.toLower := by
  apply Char.toNat_inj.mp
  rw [toNat_toLower c.toLower, toNat_toLower c]
  split_ifs <;> omega

/-- The characters that no letter is turned into. -/
def IsCaseless (k : Char) : Prop :=
  ¬ (65 ≤ k.toNat ∧ k.toNat ≤ 90) ∧ ¬ (97 ≤ k.toNat ∧ k.toNat ≤ 122)

instance (k : Char) : Decidable (IsCaseless k) := by
  unfold IsCaseless
  infer_instance

theorem toLower_eq_iff (hk : IsCaseless k) : c.toLower = k ↔ c = k := by
  obtain ⟨_, _⟩ := hk
  rw [← Char.toNat_inj, toNat_toLower, ← Char.toNat_inj]
  split_ifs <;> omega

theorem isWhitespace_toLower (c : Char) : isWhitespace c.toLower = isWhitespace c := by
  unfold isWhitespace
  rw [toNat_toLower]
  split_ifs with h
  · -- Neither a capital letter nor the small one is a blank.
    have ho {low hi n : ℕ} (hn : n < low ∨ hi < n) :
        (decide (low ≤ n) && decide (n ≤ hi)) = false := by
      simp only [Bool.and_eq_false_iff, decide_eq_false_iff_not]
      omega
    simp (disch := omega) only [ho, Bool.false_or, Bool.or_false]
    rw [Bool.eq_iff_iff]
    simp only [Bool.or_eq_true, beq_iff_eq]
    omega
  · rfl

@[simp]
theorem toAsciiLowercase_idem (text : Text) :
    toAsciiLowercase (toAsciiLowercase text) = toAsciiLowercase text := by
  unfold toAsciiLowercase
  rw [map_map]
  apply map_congr_left
  intro c _
  exact toLower_toLower c

theorem rdropWhile_map {α : Type} (f : α → α) {p : α → Bool} (h : ∀ a, p (f a) = p a)
    (l : List α) : (l.map f).rdropWhile p = (l.rdropWhile p).map f := by
  have hp : p ∘ f = p := funext h
  unfold rdropWhile
  rw [← map_reverse, dropWhile_map, hp, map_reverse]

theorem trim_toAsciiLowercase (text : Text) :
    trim (toAsciiLowercase text) = toAsciiLowercase (trim text) := by
  have hp : isWhitespace ∘ Char.toLower = isWhitespace := funext isWhitespace_toLower
  unfold trim toAsciiLowercase Lines.trim
  rw [dropWhile_map, hp, rdropWhile_map Char.toLower isWhitespace_toLower]

theorem trimDots_toAsciiLowercase (text : Text) :
    trimDots (toAsciiLowercase text) = toAsciiLowercase (trimDots text) := by
  apply rdropWhile_map Char.toLower
  intro c
  rw [Bool.eq_iff_iff, beq_iff_eq, beq_iff_eq]
  exact toLower_eq_iff (by decide)

theorem takeWhile_toAsciiLowercase (hk : IsCaseless k) (text : Text) :
    (toAsciiLowercase text).takeWhile (· != k) = toAsciiLowercase (text.takeWhile (· != k)) := by
  have hp : (· != k) ∘ Char.toLower = (· != k) := by
    funext c
    rw [Function.comp, Bool.eq_iff_iff, bne_iff_ne, bne_iff_ne]
    exact (toLower_eq_iff hk).not
  unfold toAsciiLowercase
  rw [takeWhile_map, hp]

theorem mem_toAsciiLowercase_iff (hk : IsCaseless k) : k ∈ toAsciiLowercase text ↔ k ∈ text := by
  unfold toAsciiLowercase
  rw [mem_map]
  constructor
  · rintro ⟨c, hc, hl⟩
    exact (toLower_eq_iff hk).mp hl ▸ hc
  · intro hm
    exact ⟨k, hm, (toLower_eq_iff hk).mpr rfl⟩

theorem head?_toAsciiLowercase_iff (hk : IsCaseless k) :
    (toAsciiLowercase text).head? = some k ↔ text.head? = some k := by
  cases text with
  | nil => rfl
  | cons c =>
    change some c.toLower = some k ↔ some c = some k
    rw [Option.some.injEq, Option.some.injEq]
    exact toLower_eq_iff hk

theorem count_toAsciiLowercase (hk : IsCaseless k) (text : Text) :
    (toAsciiLowercase text).count k = text.count k := by
  unfold toAsciiLowercase count
  rw [countP_map]
  apply countP_congr
  intro c _
  rw [Function.comp, beq_iff_eq, beq_iff_eq]
  exact toLower_eq_iff hk

theorem isPrefix_toAsciiLowercase_iff {marker : Text} (hm : ∀ k ∈ marker, IsCaseless k) :
    marker <+: toAsciiLowercase text ↔ marker <+: text := by
  induction marker generalizing text with
  | nil => simp
  | cons k marker ih =>
    cases text with
    | nil => rfl
    | cons c rest =>
      change k :: marker <+: c.toLower :: toAsciiLowercase rest ↔ _
      rw [cons_prefix_cons, cons_prefix_cons, ih fun k hk ↦ hm k (mem_cons_of_mem _ hk), eq_comm,
        toLower_eq_iff (hm k mem_cons_self), eq_comm]

theorem normalizeDnsHostOrIpLiteral_toAsciiLowercase (host : Text) :
    normalizeDnsHostOrIpLiteral hosts (toAsciiLowercase host) =
      normalizeDnsHostOrIpLiteral hosts host := by
  unfold normalizeDnsHostOrIpLiteral
  rw [toAsciiLowercase_idem]

theorem normalizeHost_toAsciiLowercase (host : Text) :
    normalizeHost hosts (toAsciiLowercase host) = normalizeHost hosts host := by
  have ht : (toAsciiLowercase (trim host)).tail = toAsciiLowercase (trim host).tail := by
    unfold toAsciiLowercase
    rw [map_tail]
  unfold normalizeHost
  simp only [trim_toAsciiLowercase, head?_toAsciiLowercase_iff (k := '[') (by decide),
    mem_toAsciiLowercase_iff (k := ']') (by decide), ht,
    takeWhile_toAsciiLowercase (k := ']') (by decide),
    takeWhile_toAsciiLowercase (k := ':') (by decide),
    count_toAsciiLowercase (k := ':') (by decide), normalizeDnsHostOrIpLiteral_toAsciiLowercase]

theorem stripScope_toAsciiLowercase (input : Text) :
    stripScope (toAsciiLowercase input) =
      ((stripScope input).1, toAsciiLowercase (stripScope input).2) := by
  have ha : "**.".toList <+: toAsciiLowercase input ↔ "**.".toList <+: input :=
    isPrefix_toAsciiLowercase_iff (by decide)
  have hs : "*.".toList <+: toAsciiLowercase input ↔ "*.".toList <+: input :=
    isPrefix_toAsciiLowercase_iff (by decide)
  unfold stripScope
  simp only [ha, hs]
  unfold toAsciiLowercase
  split_ifs <;> simp only [map_drop]

theorem toAsciiLowercase_eq_star_iff : toAsciiLowercase text = ['*'] ↔ text = ['*'] := by
  unfold toAsciiLowercase
  rw [map_eq_singleton_iff]
  constructor
  · rintro ⟨c, rfl, hc⟩
    rw [(toLower_eq_iff (by decide)).mp hc]
  · rintro rfl
    exact ⟨'*', rfl, rfl⟩

/-- Two spellings that differ in case are compiled to the same globs. -/
theorem normalizePattern_congr {left right : Text}
    (h : toAsciiLowercase left = toAsciiLowercase right) :
    normalizePattern hosts left = normalizePattern hosts right := by
  have hl (pattern : Text) :
      normalizePattern hosts (toAsciiLowercase pattern) = normalizePattern hosts pattern := by
    unfold normalizePattern
    change (if trim (toAsciiLowercase pattern) = ['*'] then _ else _) =
      (if trim pattern = ['*'] then _ else _)
    simp only [trim_toAsciiLowercase, toAsciiLowercase_eq_star_iff, stripScope_toAsciiLowercase,
      normalizeHost_toAsciiLowercase]
  calc
    normalizePattern hosts left = normalizePattern hosts (toAsciiLowercase left) :=
      (hl left).symm
    _ = normalizePattern hosts (toAsciiLowercase right) := by rw [h]
    _ = normalizePattern hosts right := hl right

/-! ## Plain domains -/

/-- A domain that both readings take as it is written: the host parser leaves it unchanged, and no
wildcard or dot stands for an empty label in front. -/
def IsPlainDomain (hosts : HostLibrary) (domain : Text) : Prop :=
  (∀ c ∈ domain, isWhitespace c = false ∧ c ∉ [':', '%', '[', ']', '\x7b', '\x7d', '\\']) ∧
  ¬ ['*', '*'] <:+: domain ∧ domain ≠ [] ∧ ¬ ['.'] <+: domain ∧ ¬ ['*', '.'] <+: domain ∧
  ('*' ∉ domain → '?' ∉ domain →
    (hosts.parse (trimDots domain)).map toAsciiLowercase =
      some (toAsciiLowercase (trimDots domain)))

instance (hosts : HostLibrary) (domain : Text) : Decidable (IsPlainDomain hosts domain) := by
  unfold IsPlainDomain
  infer_instance

def IsPlainEntry (hosts : HostLibrary) (entry : Text) : Prop :=
  IsPlainDomain hosts (stripScope (trim entry)).2

instance (hosts : HostLibrary) (entry : Text) : Decidable (IsPlainEntry hosts entry) :=
  inferInstanceAs (Decidable (IsPlainDomain hosts (stripScope (trim entry)).2))

theorem trim_eq_self (h : ∀ c ∈ text, isWhitespace c = false) : trim text = text := by
  unfold trim Lines.trim
  rw [Lines.dropWhile_eq_self fun c hc ↦ h c (mem_of_head? hc),
    Lines.rdropWhile_eq_self fun c hc ↦ h c (mem_of_getLast? hc)]

variable {domain : Text}

theorem normalizeDomain_isPrefix (domain : Text) :
    normalizeDomain domain <+: toAsciiLowercase domain := by
  unfold normalizeDomain toAsciiLowercase
  exact (List.rdropWhile_prefix _ domain).map Char.toLower

theorem mem_of_mem_normalizeDomain (hk : IsCaseless k) (hm : k ∈ normalizeDomain domain) :
    k ∈ domain :=
  (mem_toAsciiLowercase_iff hk).mp ((normalizeDomain_isPrefix domain).subset hm)

theorem isPrefix_of_isPrefix_normalizeDomain {marker : Text} (hm : ∀ k ∈ marker, IsCaseless k)
    (hs : marker <+: normalizeDomain domain) : marker <+: domain :=
  (isPrefix_toAsciiLowercase_iff hm).mp (hs.trans (normalizeDomain_isPrefix domain))

namespace IsPlainDomain

variable (h : IsPlainDomain hosts domain)

include h

theorem not_mem (hk : k ∈ [':', '%', '[', ']', '\x7b', '\x7d', '\\']) : k ∉ domain :=
  fun hm ↦ (h.1 k hm).2 hk

theorem trim_eq : trim domain = domain := trim_eq_self fun c hc ↦ (h.1 c hc).1

theorem normalizeDomain_ne_nil : normalizeDomain domain ≠ [] := by
  intro hn
  have hd : ∀ c ∈ domain, (c == '.') = true := by
    unfold normalizeDomain toAsciiLowercase trimDots at hn
    rw [map_eq_nil_iff, rdropWhile_eq_nil_iff] at hn
    exact hn
  obtain ⟨-, -, hne, hdo, -⟩ := h
  obtain ⟨c, rest, rfl⟩ := exists_cons_of_ne_nil hne
  have hc : c = '.' := by simpa using hd c mem_cons_self
  exact hdo (hc ▸ ⟨rest, rfl⟩)

theorem not_isWhitespace_of_mem_normalizeDomain : ∀ c ∈ normalizeDomain domain,
    isWhitespace c = false := by
  intro c hc
  obtain ⟨b, hb, rfl⟩ := mem_map.mp ((normalizeDomain_isPrefix domain).subset hc)
  rw [isWhitespace_toLower]
  exact (h.1 b hb).1

/-- The first reading: what is compiled. -/
theorem normalizeHost_eq : normalizeHost hosts domain = normalizeDomain domain := by
  have hbr : ¬ (domain.head? = some '[' ∧ ']' ∈ domain) :=
    fun hb ↦ h.not_mem (by decide) hb.2
  have hc : ¬ domain.count ':' = 1 := by
    rw [count_eq_zero_of_not_mem (h.not_mem (by decide))]
    decide
  have hs (delimiter : Text) (hd : '%' ∈ delimiter) :
      Search.find delimiter (normalizeDomain domain) = none := by
    apply Search.find_eq_none_iff.mpr
    intro i _ hst
    have hm := mem_of_mem_drop (hst.subset hd)
    exact h.not_mem (by decide) (mem_of_mem_normalizeDomain (by decide) hm)
  unfold normalizeHost
  rw [h.trim_eq]
  rw [if_neg hbr, if_neg hc]
  unfold normalizeDnsHostOrIpLiteral
  rw [trimDots_toAsciiLowercase]
  change (normalizeIpLiteral hosts (normalizeDomain domain)).getD (normalizeDomain domain) = _
  unfold normalizeIpLiteral
  split_ifs
  · rfl
  · rw [findSome?_cons, hs "%25".toList (by decide), Option.bind_none, findSome?_cons,
      hs "%".toList (by decide), Option.bind_none, findSome?_nil, Option.getD_none]

/-- The second reading: what is compared with the managed entries. -/
theorem normalizeDomain_parseDomainForConstraints :
    normalizeDomain (parseDomainForConstraints hosts domain) = normalizeDomain domain := by
  have hd : trimDots (trimDots domain) = trimDots domain := rdropWhile_idempotent _ _
  have hs : ∀ c ∈ trimDots domain, c ∈ domain := (List.rdropWhile_prefix _ domain).subset
  have hne : trimDots domain ≠ [] := by
    intro hn
    apply h.normalizeDomain_ne_nil
    unfold normalizeDomain
    rw [hn]
    rfl
  have hbr : ¬ ((trimDots domain).head? = some '[' ∧ (trimDots domain).getLast? = some ']') :=
    fun hb ↦ h.not_mem (by decide) (hs _ (mem_of_head? hb.1))
  have hsc : '%' ∉ trimDots domain := fun hm ↦ h.not_mem (by decide) (hs _ hm)
  unfold parseDomainForConstraints
  rw [h.trim_eq]
  rw [if_neg hne, if_neg hbr]
  by_cases hw : '*' ∈ trimDots domain ∨ '?' ∈ trimDots domain ∨ '%' ∈ trimDots domain
  · rw [if_pos hw]
    unfold normalizeDomain
    rw [hd]
  · rw [if_neg hw]
    -- The dots that were cut off hide no wildcard.
    have hm (k : Char) (hk : k ≠ '.') (hno : k ∉ trimDots domain) : k ∉ domain := by
      intro hin
      rw [← rdropWhile_append_rtakeWhile (p := (· == '.')) (l := domain)] at hin
      cases mem_append.mp hin with
      | inl hle => exact hno hle
      | inr hr => exact hk (by simpa using mem_rtakeWhile_imp hr)
    obtain ⟨-, -, -, -, -, hpa⟩ := h
    have hp := hpa (hm _ (by decide) fun hin ↦ hw (.inl hin))
      (hm _ (by decide) fun hin ↦ hw (.inr (.inl hin)))
    obtain ⟨host, hh, hl⟩ := Option.map_eq_some_iff.mp hp
    rw [hh]
    calc
      normalizeDomain host = trimDots (toAsciiLowercase host) :=
        (trimDots_toAsciiLowercase host).symm
      _ = trimDots (toAsciiLowercase (trimDots domain)) := by rw [hl]
      _ = toAsciiLowercase (trimDots (trimDots domain)) := trimDots_toAsciiLowercase _
      _ = normalizeDomain domain := by
        rw [hd]
        rfl

end IsPlainDomain

theorem stripScope_eq_exact (ha : ¬ "**.".toList <+: text) (hs : ¬ "*.".toList <+: text) :
    stripScope text = (.exact, text) := by
  unfold stripScope
  rw [if_neg ha, if_neg hs]

theorem stripScope_marker_append (scope : Scope) {domain : Text} (ha : ¬ "**.".toList <+: domain)
    (hs : ¬ "*.".toList <+: domain) : stripScope (scope.marker ++ domain) = (scope, domain) := by
  cases scope with
  | apexAndSubdomains | subdomainsOnly => rfl
  | exact => exact stripScope_eq_exact ha hs

theorem Scope.not_isWhitespace_of_mem_marker (scope : Scope) :
    ∀ c ∈ scope.marker, isWhitespace c = false := by
  cases scope <;> decide

variable {entry : Text}

theorem IsPlainDomain.stripScope_normalizeDomain (scope : Scope) {domain : Text}
    (h : IsPlainDomain hosts domain) :
    stripScope (scope.marker ++ normalizeDomain domain) = (scope, normalizeDomain domain) := by
  have hst : ¬ ['*', '*'] <+: normalizeDomain domain := fun hs ↦
    h.2.1 (isPrefix_of_isPrefix_normalizeDomain (by decide) hs).isInfix
  have hsu : ¬ ['*', '.'] <+: normalizeDomain domain := fun hs ↦
    h.2.2.2.2.1 (isPrefix_of_isPrefix_normalizeDomain (by decide) hs)
  apply stripScope_marker_append scope _ hsu
  exact fun hs ↦ hst ((prefix_append ['*', '*'] ['.']).trans hs)

theorem IsPlainEntry.normalizePattern_eq (h : IsPlainEntry hosts entry) :
    normalizePattern hosts entry =
      (stripScope (trim entry)).1.marker ++ normalizeDomain (stripScope (trim entry)).2 := by
  unfold normalizePattern
  by_cases hs : trim entry = "*".toList
  · rw [if_pos hs, hs]
    rfl
  · dsimp only
    rw [if_neg hs, h.normalizeHost_eq]

theorem IsPlainEntry.parse_normalizePattern (h : IsPlainEntry hosts entry) :
    parse (normalizePattern hosts entry) =
      (stripScope (trim entry)).1.pattern (normalizeDomain (stripScope (trim entry)).2) := by
  have hd : IsPlainDomain hosts (stripScope (trim entry)).2 := h
  rw [h.normalizePattern_eq]
  generalize (stripScope (trim entry)).1 = scope at *
  generalize (stripScope (trim entry)).2 = domain at *
  have hb : ∀ c ∈ scope.marker ++ normalizeDomain domain, isWhitespace c = false := by
    intro c hc
    cases mem_append.mp hc with
    | inl hm => exact scope.not_isWhitespace_of_mem_marker c hm
    | inr hme => exact hd.not_isWhitespace_of_mem_normalizeDomain c hme
  have hne : scope.marker ++ normalizeDomain domain ≠ [] :=
    append_ne_nil_of_right_ne_nil _ hd.normalizeDomain_ne_nil
  have ht : trim (normalizeDomain domain) = normalizeDomain domain :=
    trim_eq_self hd.not_isWhitespace_of_mem_normalizeDomain
  unfold parse
  rw [trim_eq_self hb]
  rw [if_neg hne, hd.stripScope_normalizeDomain scope]
  cases scope with
  | exact => rfl
  | apexAndSubdomains | subdomainsOnly =>
    dsimp only [parseDomain]
    rw [ht, if_neg hd.normalizeDomain_ne_nil]

theorem parseForConstraints_eq (hosts : HostLibrary) (entry : Text) :
    parseForConstraints hosts entry = (stripScope (trim entry)).1.pattern
      (parseDomainForConstraints hosts (stripScope (trim entry)).2) := by
  unfold parseForConstraints
  by_cases hn : trim entry = []
  · rw [if_pos hn, hn]
    rfl
  · rw [if_neg hn]

end Slopdex.NetworkProxy
