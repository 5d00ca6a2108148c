import Mathlib.Data.List.DropRight
import Mathlib.Data.List.Basic

/-!
# Cutting off the newest sections of a list

Some elements of a list begin a section. To drop the newest sections the list is cut in front of the
element that begins the oldest of them; what belongs to the context of that element and stands
directly in front of it goes as well. The cut never moves in front of the first section.
-/

namespace Slopdex.Library.TurnCut

open List

universe u

variable {α : Type u} (boundary context : α → Bool)

/-- Move the cut over the context in front of it, not further than `first`. -/
def trimmed (l : List α) (first : ℕ) : ℕ → ℕ
  | 0 => 0
  | cut + 1 => if first < cut + 1 ∧ l[cut]?.any context then trimmed l first cut else cut + 1

/-- The position where the first section begins and the position of the cut. -/
def cut (n : ℕ) (l : List α) : Option (ℕ × ℕ) :=
  if n = 0 then none
  else
    match l.findIdxs boundary with
    | [] => none
    | first :: rest =>
      let positions := first :: rest
      let cut :=
        if positions.length ≤ n then first else positions.getD (positions.length - n) first
      some (first, trimmed context l first cut)

variable {boundary context} {l head tail : List α} {opener : α} {n m first : ℕ}

theorem cut_zero (l : List α) : cut boundary context 0 l = none := if_pos rfl

theorem cut_eq_none_of_forall (h : ∀ x ∈ l, boundary x = false) :
    cut boundary context n l = none := by
  unfold cut
  split_ifs
  · rfl
  · rw [findIdxs_eq_nil_iff.mpr h]

theorem trimmed_of_le (h : m ≤ first) : trimmed context l first m = m := by
  cases m with
  | zero => rfl
  | succ => exact if_neg fun hlt ↦ absurd hlt.1 (Nat.not_lt.mpr h)

theorem take_trimmed (hf : ∃ x, head[first]? = some x ∧ context x = false) :
    (head ++ tail).take (trimmed context (head ++ tail) first head.length) =
      head.rdropWhile context := by
  induction head using reverseRecOn generalizing tail with
  | nil =>
    obtain ⟨x, hx, -⟩ := hf
    cases hx
  | append_singleton head y ih =>
    obtain ⟨x, hx, hc⟩ := hf
    have hat : (head ++ [y] ++ tail)[head.length]? = some y := by simp
    have hl : (head ++ [y]).length = head.length + 1 := by simp
    rw [hl, trimmed, hat]
    by_cases hy : context y = true
    · -- `y` is context, so that the first section begins before it
      have hne : first ≠ head.length := by
        intro heq
        rw [heq, getElem?_concat_length] at hx
        cases hx
        rw [hc] at hy
        cases hy
      have hlt : first < head.length + 1 := by
        have := (List.getElem?_eq_some_iff.mp hx).1
        omega
      have hxh : head[first]? = some x := by
        rw [getElem?_append_left (by omega)] at hx
        exact hx
      rw [if_pos ⟨hlt, hy⟩, rdropWhile_concat_pos _ _ _ hy, append_assoc]
      exact ih ⟨x, hxh, hc⟩
    · rw [if_neg fun h ↦ hy h.2, rdropWhile_concat_neg _ _ _ hy, ← hl, take_left]

theorem lt_trimmed (hf : ∃ x, l[first]? = some x ∧ context x = false) (h : first < m) :
    first < trimmed context l first m := by
  induction m with
  | zero => exact h
  | succ m ih =>
    rw [trimmed]
    split_ifs with hm
    · apply ih
      apply Nat.lt_of_le_of_ne (Nat.lt_succ_iff.mp h)
      rintro rfl
      obtain ⟨x, hx, hc⟩ := hf
      rw [hx, Option.any_some, hc] at hm
      exact Bool.noConfusion hm.2
    · exact h

/-- The sections from the one that `opener` begins are cut off. -/
theorem cut_append (ho : boundary opener = true) (hn : 0 < n)
    (hc : (opener :: tail).countP boundary = n ∨
      (opener :: tail).countP boundary ≤ n ∧ ∀ x ∈ head, boundary x = false) :
    cut boundary context n (head ++ opener :: tail) = match head.findIdxs boundary with
      | [] => some (head.length, head.length)
      | first :: _ =>
        some (first, trimmed context (head ++ opener :: tail) first head.length) := by
  have hp : (head ++ opener :: tail).findIdxs boundary =
      head.findIdxs boundary ++ head.length :: tail.findIdxs boundary (head.length + 1) := by
    rw [findIdxs_append, findIdxs_cons, if_pos ho, Nat.zero_add]
  have ht : (tail.findIdxs boundary (head.length + 1)).length + 1 =
      (opener :: tail).countP boundary := by
    rw [length_findIdxs, countP_cons_of_pos ho]
  unfold cut
  rw [if_neg hn.ne', hp]
  cases hh : head.findIdxs boundary with
  | nil =>
    have hle : (head.length :: tail.findIdxs boundary (head.length + 1)).length ≤ n := by
      rw [length_cons, ht]
      exact hc.elim le_of_eq And.left
    rw [nil_append]
    dsimp only
    rw [if_pos hle, trimmed_of_le le_rfl]
  | cons first rest =>
    have he : (opener :: tail).countP boundary = n := by
      apply hc.elim id
      intro h
      rw [findIdxs_eq_nil_iff.mpr h.2] at hh
      cases hh
    have hl : (first :: (rest ++ head.length ::
        tail.findIdxs boundary (head.length + 1))).length = (first :: rest).length + n := by
      rw [← he]
      simp only [length_cons, length_append]
      omega
    have hat : (first :: (rest ++ head.length :: tail.findIdxs boundary (head.length + 1))).getD
        (first :: rest).length first = head.length := by
      simp [getD_eq_getElem?_getD]
    rw [cons_append]
    dsimp only
    rw [hl, if_neg (by simp only [length_cons]; omega), Nat.add_sub_cancel, hat]

theorem cut_append_of_mem (he : ∀ x, boundary x = true → context x = false)
    (ho : boundary opener = true) (hn : 0 < n) (hcn : (opener :: tail).countP boundary = n)
    (hh : ∃ x ∈ head, boundary x = true) :
    ∃ first k, cut boundary context n (head ++ opener :: tail) = some (first, k) ∧ first < k ∧
      (head ++ opener :: tail).take k = head.rdropWhile context := by
  have hc : cut boundary context n (head ++ opener :: tail) = _ :=
    cut_append ho hn (.inl hcn)
  cases hp : head.findIdxs boundary with
  | nil =>
    obtain ⟨x, hx, hb⟩ := hh
    rw [findIdxs_eq_nil_iff.mp hp x hx] at hb
    cases hb
  | cons first =>
    rw [hp] at hc
    have hm : first ∈ head.findIdxs boundary := hp ▸ mem_cons_self
    obtain ⟨hlt, hb⟩ := mem_findIdxs_iff_exists_getElem_pos.mp hm
    have hf : head[first]? = some head[first] := getElem?_eq_getElem hlt
    have hct : context head[first] = false := he _ hb
    refine ⟨first, _, hc, ?_, take_trimmed ⟨_, hf, hct⟩⟩
    apply lt_trimmed _ hlt
    exact ⟨_, (getElem?_append_left hlt).trans hf, hct⟩

theorem cut_append_of_forall (ho : boundary opener = true) (hn : 0 < n)
    (hc : (opener :: tail).countP boundary ≤ n) (hh : ∀ x ∈ head, boundary x = false) :
    cut boundary context n (head ++ opener :: tail) = some (head.length, head.length) := by
  rw [cut_append ho hn (.inr ⟨hc, hh⟩), findIdxs_eq_nil_iff.mpr hh]

/-- A list with at least `m` sections is cut in front of the newest `m`. -/
theorem exists_section (hm : 0 < m) (hle : m ≤ l.countP boundary) :
    ∃ head opener tail, l = head ++ opener :: tail ∧ boundary opener = true ∧
      (opener :: tail).countP boundary = m := by
  induction l with
  | nil =>
    rw [countP_nil] at hle
    omega
  | cons x l ih =>
    by_cases hr : m ≤ l.countP boundary
    · obtain ⟨head, opener, tail, rfl, ho, hc⟩ := ih hr
      exact ⟨x :: head, opener, tail, rfl, ho, hc⟩
    · have hx : boundary x = true := by
        by_contra hx
        rw [countP_cons_of_neg hx] at hle
        exact hr hle
      rw [countP_cons_of_pos hx] at hle
      refine ⟨[], x, l, rfl, hx, ?_⟩
      rw [countP_cons_of_pos hx]
      omega

end Slopdex.Library.TurnCut
