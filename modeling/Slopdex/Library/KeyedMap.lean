import Mathlib.Data.List.AList
import Mathlib.Data.Finset.Card

/-!
# Finite maps with one value type

Association lists without duplicate keys serve as hash maps: nothing observable depends on the order
of the entries. A map whose keys are among those of another map of the same size has all of them.
-/

namespace Slopdex.Library.KeyedMap

open Function List

universe u v

variable {κ : Type u} {ν : Type v} {μ : Type v}

abbrev Map (κ : Type u) (ν : Type v) := AList fun _ : κ ↦ ν

def size (m : Map κ ν) : ℕ := m.entries.length

/-- Keep the entries whose key satisfies `p`. -/
def retainKeys (p : κ → Bool) (m : Map κ ν) : Map κ ν :=
  ⟨m.entries.filter fun entry ↦ p entry.1, m.nodupKeys.sublist filter_sublist⟩

theorem size_eq_length_keys (m : Map κ ν) : size m = m.keys.length := by
  simp [size, AList.keys, keys]

theorem mem_retainKeys {p : κ → Bool} {m : Map κ ν} {k : κ} :
    k ∈ retainKeys p m ↔ k ∈ m ∧ p k = true := by
  rw [AList.mem_keys, AList.mem_keys]
  simp only [AList.keys, keys, retainKeys, mem_map, mem_filter]
  constructor
  · rintro ⟨entry, ⟨he, hp⟩, rfl⟩
    exact ⟨⟨entry, he, rfl⟩, hp⟩
  · rintro ⟨⟨entry, he, rfl⟩, hp⟩
    exact ⟨entry, ⟨he, hp⟩, rfl⟩

theorem lookup_of_lookup_retainKeys [DecidableEq κ] {p : κ → Bool} {m : Map κ ν} {k : κ} {v : ν}
    (h : (retainKeys p m).lookup k = some v) : m.lookup k = some v := by
  have hm := (AList.mem_lookup_iff).mp h
  exact (AList.mem_lookup_iff).mpr (mem_filter.mp hm).1

section Replace

variable [DecidableEq κ]

theorem kreplace_cons (k : κ) (v : ν) (entry : Sigma fun _ : κ ↦ ν)
    (rest : List (Sigma fun _ : κ ↦ ν)) :
    kreplace k v (entry :: rest) =
      if k = entry.1 then ⟨k, v⟩ :: rest else entry :: kreplace k v rest := by
  unfold kreplace
  split
  next hk => exact lookmap_cons_some _ rest (if_pos hk)
  next hk => exact lookmap_cons_none _ rest (if_neg hk)

theorem lookup_replace_of_ne {m : Map κ ν} {k j : κ} (hne : k ≠ j) (v : ν) :
    (m.replace j v).lookup k = m.lookup k := by
  have hl : ∀ l : List (Sigma fun _ : κ ↦ ν), dlookup k (kreplace j v l) = dlookup k l := by
    intro l
    induction l with
    | nil => rfl
    | cons entry _ ih =>
      obtain ⟨key, _⟩ := entry
      rw [kreplace_cons]
      split
      next hke =>
        subst hke
        rw [dlookup_cons_ne _ _ hne, dlookup_cons_ne _ _ hne]
      next =>
        by_cases hk : k = key
        · subst hk
          rw [dlookup_cons_eq, dlookup_cons_eq]
        · rw [dlookup_cons_ne _ _ hk, dlookup_cons_ne _ _ hk]
          exact ih
  exact hl m.entries

theorem lookup_replace_self {m : Map κ ν} {k : κ} (hk : k ∈ m) (v : ν) :
    (m.replace k v).lookup k = some v := by
  have hl : ∀ l : List (Sigma fun _ : κ ↦ ν), k ∈ l.keys →
      dlookup k (kreplace k v l) = some v := by
    intro l hm
    induction l with
    | nil => cases hm
    | cons entry _ ih =>
      obtain ⟨_, _⟩ := entry
      rw [kreplace_cons]
      split
      next => rw [dlookup_cons_eq]
      next hke =>
        rw [dlookup_cons_ne _ _ hke]
        rw [keys_cons, mem_cons] at hm
        exact ih (hm.resolve_left hke)
  exact hl m.entries hk

end Replace

theorem mem_of_keys_subset_of_size_eq [DecidableEq κ] {small : Map κ ν} {large : Map κ μ}
    (hsu : ∀ k, k ∈ small → k ∈ large) (hs : size small = size large) {k : κ}
    (hk : k ∈ large) : k ∈ small := by
  have hl : large.keys.length ≤ small.keys.length := by
    rw [← size_eq_length_keys, ← size_eq_length_keys, hs]
  have hp := (subperm_of_subset small.keys_nodup hsu).perm_of_length_le hl
  exact hp.mem_iff.mpr hk

theorem exists_not_mem_of_size_ne [DecidableEq κ] {small : Map κ ν} {large : Map κ μ}
    (hsu : ∀ k, k ∈ small → k ∈ large) (hs : size small ≠ size large) :
    ∃ k, k ∈ large ∧ k ∉ small := by
  by_contra ha
  push Not at ha
  apply hs
  rw [size_eq_length_keys, size_eq_length_keys]
  refine Perm.length_eq ((perm_ext_iff_of_nodup small.keys_nodup large.keys_nodup).mpr ?_)
  intro k
  rw [← AList.mem_keys]
  exact ⟨hsu k, ha k⟩

section Updates

variable [DecidableEq κ]

theorem lookup_insert_eq_update (m : Map κ ν) (k : κ) (v : ν) (j : κ) :
    (m.insert k v).lookup j = update m.lookup k (some v) j := by
  by_cases hj : j = k
  · subst hj
    rw [AList.lookup_insert, update_self]
  · rw [AList.lookup_insert_ne hj, update_of_ne hj]

theorem lookup_erase_eq_update (m : Map κ ν) (k : κ) (j : κ) :
    (m.erase k).lookup j = update m.lookup k none j := by
  by_cases hj : j = k
  · subst hj
    rw [AList.lookup_erase, update_self]
  · rw [AList.lookup_erase_ne hj, update_of_ne hj]

theorem lookup_of_lookup_erase {m : Map κ ν} {k j : κ} {v : ν}
    (h : (m.erase k).lookup j = some v) : m.lookup j = some v := by
  by_cases hj : j = k
  · rw [hj, AList.lookup_erase] at h
    cases h
  · rwa [AList.lookup_erase_ne hj] at h

/-- What is known of an entry after one was set: it is that one, or it is as before. -/
theorem exists_entries_of_lookup {m : Map κ ν} {k : κ} {v : ν} (h : m.lookup k = some v) :
    ∃ before after, m.entries = before ++ ⟨k, v⟩ :: after ∧
      (m.erase k).entries = before ++ after := by
  have hk : k ∈ m.entries.keys := AList.lookup_isSome.mp (by rw [h]; rfl)
  obtain ⟨w, before, after, -, hs, he⟩ := exists_of_kerase hk
  have hw : m.lookup k = some w := AList.mem_lookup_iff.mpr (by simp [hs])
  obtain rfl : v = w := by simpa [h] using hw
  exact ⟨before, after, hs, he⟩

theorem lookup_insert_cases {m : Map κ ν} {k j : κ} {v w : ν}
    (h : (m.insert k v).lookup j = some w) : j = k ∧ w = v ∨ j ≠ k ∧ m.lookup j = some w := by
  by_cases hj : j = k
  · rw [hj, AList.lookup_insert, Option.some.injEq] at h
    exact .inl ⟨hj, h.symm⟩
  · rw [AList.lookup_insert_ne hj] at h
    exact .inr ⟨hj, h⟩

end Updates

section Counts

variable [DecidableEq κ] (p : κ → ν → Bool)

def countEntries (m : Map κ ν) : ℕ := m.entries.countP fun entry ↦ p entry.1 entry.2

/-- What the entry of one key, if there is one, adds to the count. -/
def share (m : Map κ ν) (k : κ) : ℕ := (m.lookup k).elim 0 fun v ↦ if p k v = true then 1 else 0

theorem countEntries_erase (m : Map κ ν) (k : κ) :
    countEntries p (m.erase k) + share p m k = countEntries p m := by
  by_cases hk : k ∈ m.entries.keys
  · obtain ⟨v, before, after, _, hs, he⟩ := exists_of_kerase hk
    have hl : m.lookup k = some v := by
      rw [AList.mem_lookup_iff.mpr]
      rw [hs]
      exact mem_append_right _ mem_cons_self
    have hc : countEntries p (m.erase k) =
        (before ++ after).countP fun entry ↦ p entry.1 entry.2 := by
      rw [← he]
      rfl
    rw [hc, share, hl, countEntries, hs]
    simp only [Option.elim_some, countP_append, countP_cons]
    omega
  · have hl : m.lookup k = none := AList.lookup_eq_none.mpr hk
    have he : countEntries p (m.erase k) = countEntries p m :=
      congrArg (countP _) (kerase_of_notMem_keys hk)
    rw [he, share, hl, Option.elim_none, Nat.add_zero]

theorem countEntries_insert (m : Map κ ν) (k : κ) (v : ν) :
    countEntries p (m.insert k v) + share p m k =
      countEntries p m + if p k v = true then 1 else 0 := by
  have he := countEntries_erase p m k
  have hc : countEntries p (m.insert k v) =
      ((⟨k, v⟩ :: kerase k m.entries : List (Sigma fun _ : κ ↦ ν))).countP
        fun entry ↦ p entry.1 entry.2 := rfl
  rw [countP_cons] at hc
  have hr : countEntries p (m.erase k) =
      (kerase k m.entries).countP fun entry ↦ p entry.1 entry.2 := rfl
  simp only at hc
  omega

end Counts

section Values

variable [DecidableEq κ] [DecidableEq ν]

def countValue (m : Map κ ν) (v : ν) : ℕ := m.entries.countP fun entry ↦ entry.2 == v

theorem countValue_erase_le (m : Map κ ν) (k : κ) (v : ν) :
    countValue (m.erase k) v ≤ countValue m v :=
  (kerase_sublist k m.entries).countP_le

theorem countValue_erase_of_lookup {m : Map κ ν} {k : κ} {v : ν} (h : m.lookup k = some v) (w : ν) :
    countValue (m.erase k) w + (if v = w then 1 else 0) = countValue m w := by
  have he := countEntries_erase (fun _ value ↦ value == w) m k
  simp only [share, h, Option.elim_some, beq_iff_eq] at he
  exact he

theorem countValue_insert_le (m : Map κ ν) (k : κ) (v w : ν) :
    countValue (m.insert k v) w ≤ countValue m w + if v = w then 1 else 0 := by
  have hi := countEntries_insert (fun _ value ↦ value == w) m k v
  simp only [beq_iff_eq] at hi
  exact (Nat.le_add_right _ _).trans hi.le

theorem one_le_countValue {m : Map κ ν} {k : κ} {v : ν} (h : m.lookup k = some v) :
    1 ≤ countValue m v := by
  have he := countValue_erase_of_lookup h v
  rw [if_pos rfl] at he
  omega

theorem exists_lookup_of_countValue_pos {m : Map κ ν} {v : ν} (h : 0 < countValue m v) :
    ∃ k, m.lookup k = some v := by
  obtain ⟨⟨k, w⟩, he, hw⟩ := countP_pos_iff.mp h
  rw [beq_iff_eq] at hw
  exact ⟨k, AList.mem_lookup_iff.mpr (hw ▸ he)⟩

end Values

end Slopdex.Library.KeyedMap
