import Mathlib.Data.List.Infix
import Mathlib.Data.Nat.Find

/-!
# Searching for a part of a list

`find needle l` is the position at which `needle` first occurs in `l`, and `overlap needle l` the
length of the longest end of `l` with which an occurrence can begin that `l` does not complete. What
stands before that end can be given away: behind it, the search goes on as if it were still there.
-/

namespace Slopdex.Library.Search

open List Nat

universe u

variable {α : Type u} [DecidableEq α] {needle l rest : List α} {i k : ℕ}

def find (needle : List α) : List α → Option ℕ
  | [] => if needle.isEmpty then some 0 else none
  | a :: rest =>
    if needle.isPrefixOf (a :: rest) then some 0 else (find needle rest).map (· + 1)

/-- The longest proper start of `needle` that ends `l`; it is tried from the longest one on. -/
def overlap (needle l : List α) : ℕ :=
  findGreatest (fun k ↦ needle.take k <:+ l) (min l.length (needle.length - 1))

theorem find_eq_findIdx? (needle l : List α) :
    find needle l = l.tails.findIdx? needle.isPrefixOf := by
  induction l with
  | nil => cases needle <;> rfl
  | cons _ _ ih => rw [find, ih, tails_cons, findIdx?_cons]

theorem find_eq_some_iff : find needle l = some i ↔
    needle <+: l.drop i ∧ i ≤ l.length ∧ ∀ j < i, ¬ needle <+: l.drop j := by
  simp only [find_eq_findIdx?, findIdx?_eq_some_iff_getElem, getElem_tails, isPrefixOf_iff_prefix,
    length_tails, Nat.lt_succ_iff, exists_prop]
  exact and_left_comm

theorem find_eq_none_iff : find needle l = none ↔ ∀ i ≤ l.length, ¬ needle <+: l.drop i := by
  simp only [find_eq_findIdx?, findIdx?_eq_none_iff, forall_mem_iff_getElem, getElem_tails,
    length_tails, Nat.lt_succ_iff, ← Bool.not_eq_true, isPrefixOf_iff_prefix]

theorem add_length_le_of_find (h : find needle l = some i) : i + needle.length ≤ l.length := by
  obtain ⟨hp, _, -⟩ := find_eq_some_iff.mp h
  have hl := hp.length_le
  rw [length_drop] at hl
  omega

/-- What is left behind an occurrence is shorter. -/
theorem length_drop_lt_of_find (hn : needle ≠ []) (h : find needle l = some i) :
    (l.drop (i + needle.length)).length < l.length := by
  have hle := add_length_le_of_find h
  have hp := length_pos_iff.mpr hn
  rw [length_drop]
  omega

theorem find_append_of_some (rest : List α) (h : find needle l = some i) :
    find needle (l ++ rest) = some i := by
  obtain ⟨hp, hle, hf⟩ := find_eq_some_iff.mp h
  have hl := add_length_le_of_find h
  apply find_eq_some_iff.mpr
  refine ⟨?_, ?_, ?_⟩
  · rw [drop_append_of_le_length hle]
    exact hp.trans (prefix_append _ _)
  · rw [length_append]
    omega
  · intro j hj he
    apply hf j hj
    rw [drop_append_of_le_length (hj.le.trans hle)] at he
    apply prefix_of_prefix_length_le he (prefix_append _ _)
    rw [length_drop]
    omega

theorem overlap_le (needle l : List α) : overlap needle l ≤ l.length :=
  (findGreatest_le _).trans (min_le_left _ _)

theorem take_overlap_suffix (needle l : List α) : needle.take (overlap needle l) <:+ l := by
  apply findGreatest_spec (P := fun k ↦ needle.take k <:+ l) (zero_le _)
  rw [take_zero]
  exact nil_suffix

theorem le_overlap (hk : k < needle.length) (h : needle.take k <:+ l) : k ≤ overlap needle l := by
  have hl := h.length_le
  rw [length_take] at hl
  exact le_findGreatest (by omega) h

theorem length_le_overlap {tail : List α} (ht : tail <:+ l) (hs : tail <+: needle)
    (hp : tail.length < needle.length) : tail.length ≤ overlap needle l := by
  apply le_overlap hp
  rwa [← prefix_iff_eq_take.mp hs]

/-- The part that can be given away. -/
def settled (needle l : List α) : List α := l.take (l.length - overlap needle l)

def kept (needle l : List α) : List α := l.drop (l.length - overlap needle l)

theorem settled_append_kept (needle l : List α) : settled needle l ++ kept needle l = l :=
  take_append_drop _ _

theorem length_kept (needle l : List α) : (kept needle l).length = overlap needle l := by
  have hle := overlap_le needle l
  rw [kept, length_drop]
  omega

section

variable (hnone : find needle l = none)
include hnone

/-- An occurrence that the list does not complete begins in its kept part. -/
theorem le_of_prefix_drop_append (hi : i ≤ l.length)
    (h : needle <+: (l ++ rest).drop i) : (settled needle l).length ≤ i := by
  have hle := overlap_le needle l
  rw [drop_append_of_le_length hi] at h
  have hin : (l.drop i).length < needle.length := by
    by_contra hl
    rw [not_lt] at hl
    exact find_eq_none_iff.mp hnone i hi (prefix_of_prefix_length_le h (prefix_append _ _) hl)
  have hs : l.drop i <+: needle :=
    prefix_of_prefix_length_le (prefix_append _ _) h hin.le
  have hk := length_le_overlap (drop_suffix i l) hs hin
  rw [length_drop] at hk
  rw [settled, length_take]
  omega

theorem find_kept_append (rest : List α) :
    find needle (l ++ rest) = (find needle (kept needle l ++ rest)).map
      ((settled needle l).length + ·) := by
  have hs : l ++ rest = settled needle l ++ (kept needle l ++ rest) := by
    rw [← append_assoc, settled_append_kept]
  have hd (j : ℕ) : (l ++ rest).drop ((settled needle l).length + j) =
      (kept needle l ++ rest).drop j := by
    rw [hs, ← drop_drop, drop_left]
  have hse : (settled needle l).length ≤ l.length := by
    rw [settled, length_take]
    exact min_le_right _ _
  -- Before the kept part there is no occurrence.
  have he {j : ℕ} (hj : j < (settled needle l).length) : ¬ needle <+: (l ++ rest).drop j :=
    fun h ↦ absurd (le_of_prefix_drop_append hnone (hj.le.trans hse) h) (not_le.mpr hj)
  cases hf : find needle (kept needle l ++ rest) with
  | none =>
    rw [Option.map_none, find_eq_none_iff]
    intro i hi h
    have hle : (settled needle l).length ≤ i := by
      by_contra hlt
      exact he (not_le.mp hlt) h
    obtain ⟨j, rfl⟩ := Nat.exists_eq_add_of_le hle
    rw [hd] at h
    refine find_eq_none_iff.mp hf j ?_ h
    rw [hs, length_append] at hi
    omega
  | some =>
    obtain ⟨_, _, hfi⟩ := find_eq_some_iff.mp hf
    rw [Option.map_some, find_eq_some_iff]
    refine ⟨by rwa [hd], ?_, ?_⟩
    · rw [hs, length_append]
      omega
    · intro i _ h
      rcases lt_or_ge i (settled needle l).length with hlt | hge
      · exact he hlt h
      · obtain ⟨j', rfl⟩ := Nat.exists_eq_add_of_le hge
        rw [hd] at h
        exact hfi j' (by omega) h

theorem overlap_lt (l' : List α) : overlap needle l' < needle.length := by
  have hne : needle ≠ [] := by
    rintro rfl
    exact find_eq_none_iff.mp hnone 0 (zero_le _) nil_prefix
  have hle : overlap needle l' ≤ needle.length - 1 :=
    (findGreatest_le _).trans (min_le_right _ _)
  have hp := length_pos_iff.mpr hne
  omega

omit hnone in
theorem suffix_kept {tail : List α} (ht : tail <:+ l) (hs : tail <+: needle)
    (hp : tail.length < needle.length) : tail <:+ kept needle l := by
  have hk : kept needle l <:+ l := drop_suffix _ _
  apply suffix_of_suffix_length_le ht hk
  rw [length_kept]
  exact length_le_overlap ht hs hp

theorem overlap_kept_append (rest : List α) :
    overlap needle (l ++ rest) = overlap needle (kept needle l ++ rest) := by
  have hs : kept needle l ++ rest <:+ l ++ rest :=
    ⟨settled needle l, by rw [← append_assoc, settled_append_kept]⟩
  apply le_antisymm
  · apply le_overlap (overlap_lt hnone _)
    have hle := overlap_lt hnone (l ++ rest)
    obtain ⟨front, hf⟩ := take_overlap_suffix needle (l ++ rest)
    rcases append_eq_append_iff.mp hf with ⟨tail, hl, ht⟩ | ⟨middle, -, hr⟩
    · have hst : tail <+: needle :=
        (ht ▸ prefix_append tail rest).trans (List.take_prefix _ _)
      have hp : tail.length < needle.length := by
        have hta := congrArg length ht
        rw [length_take, length_append] at hta
        omega
      rw [ht]
      obtain ⟨gap, hg⟩ := suffix_kept ⟨front, hl.symm⟩ hst hp
      exact ⟨gap, by rw [← append_assoc, hg]⟩
    · exact ⟨kept needle l ++ middle, by rw [append_assoc, ← hr]⟩
  · exact le_overlap (overlap_lt hnone _) ((take_overlap_suffix needle _).trans hs)

theorem kept_append (rest : List α) :
    kept needle (l ++ rest) = kept needle (kept needle l ++ rest) := by
  have hs : l ++ rest = settled needle l ++ (kept needle l ++ rest) := by
    rw [← append_assoc, settled_append_kept]
  have hle := overlap_le needle (kept needle l ++ rest)
  have hl : (l ++ rest).length - overlap needle (kept needle l ++ rest) =
      (settled needle l).length +
        ((kept needle l ++ rest).length - overlap needle (kept needle l ++ rest)) := by
    rw [hs, length_append]
    omega
  calc kept needle (l ++ rest)
      = (l ++ rest).drop ((l ++ rest).length - overlap needle (kept needle l ++ rest)) := by
        rw [kept, overlap_kept_append hnone]
    _ = kept needle (kept needle l ++ rest) := by
        rw [hl, hs, ← drop_drop, drop_left]
        rfl

theorem settled_append (rest : List α) :
    settled needle (l ++ rest) = settled needle l ++ settled needle (kept needle l ++ rest) := by
  have hw := settled_append_kept needle (l ++ rest)
  rw [kept_append hnone] at hw
  have hs : settled needle (l ++ rest) ++ kept needle (kept needle l ++ rest) =
      (settled needle l ++ settled needle (kept needle l ++ rest)) ++
        kept needle (kept needle l ++ rest) := by
    rw [hw, append_assoc, settled_append_kept, ← append_assoc, settled_append_kept]
  exact append_cancel_right hs

end

end Slopdex.Library.Search
