import Mathlib.Data.List.Forall2
import Mathlib.Data.List.Induction

/-!
# Updating the first matching element of a list

`updateFirst p f` changes the first element that satisfies `p`. Both it and `eraseP` are described
by the split of the list at that element. A list under repeated updates and removals is related to
its past by `List.SublistForall₂`.
-/

namespace Slopdex.Library.FirstMatch

open List

universe u v

variable {α : Type u} {β : Type v} {p : α → Bool} {f : α → α} {l : List α} {x y : α}

def updateFirst (p : α → Bool) (f : α → α) : List α → List α
  | [] => []
  | a :: rest => if p a then f a :: rest else a :: updateFirst p f rest

theorem split_of_find? (h : l.find? p = some x) :
    ∃ before after, l = before ++ x :: after ∧ (∀ a ∈ before, p a = false) ∧
      updateFirst p f l = before ++ f x :: after ∧ l.eraseP p = before ++ after := by
  obtain ⟨hx, before, after, rfl, hb⟩ := find?_eq_some_iff_append.mp h
  have hb : ∀ a ∈ before, p a = false := by simpa using hb
  refine ⟨before, after, rfl, hb, ?_, ?_⟩
  · clear h
    induction before with
    | nil => simp [updateFirst, hx]
    | cons => simp_all [updateFirst]
  · rw [eraseP_append_right _ (by simpa using hb), eraseP_cons_of_pos hx]

theorem mem_concat : y ∈ l ++ [x] ↔ y ∈ l ∨ y = x := by
  rw [mem_append, mem_singleton]

theorem mem_of_mem_split {before after : List α} (h : y ∈ before ++ after) :
    y ∈ before ++ x :: after :=
  ((sublist_cons_self x after).append_left before).subset h

theorem forall_mem_split {P : α → Prop} {before after : List α}
    (ho : ∀ a ∈ before ++ after, P a) (hx : P x) : ∀ a ∈ before ++ x :: after, P a := by
  rw [forall_mem_append] at ho
  rw [forall_mem_append, forall_mem_cons]
  exact ⟨ho.1, hx, ho.2⟩

/-- The only match is the first one. -/
theorem find?_eq_some_of_unique (hx : x ∈ l) (hp : p x = true)
    (hu : ∀ a ∈ l, p a = true → a = x) : l.find? p = some x := by
  obtain ⟨a, ha⟩ := Option.isSome_iff_exists.mp (find?_isSome.mpr ⟨x, hx, hp⟩)
  rw [ha, hu a (mem_of_find?_eq_some ha) (find?_some ha)]

theorem updateFirst_of_find?_none (h : l.find? p = none) : updateFirst p f l = l := by
  induction l with
  | nil => rfl
  | cons a rest ih =>
    rw [find?_eq_none] at h
    have ha : p a = false := by simpa using h a (by simp)
    have hr : rest.find? p = none :=
      find?_eq_none.mpr fun b hb ↦ h b (mem_cons_of_mem a hb)
    simp [updateFirst, ha, ih hr]

theorem mem_updateFirst (h : y ∈ updateFirst p f l) :
    y ∈ l ∨ ∃ x, l.find? p = some x ∧ y = f x := by
  cases hf : l.find? p with
  | none =>
    rw [updateFirst_of_find?_none hf] at h
    exact .inl h
  | some x =>
    obtain ⟨_, _, hl, -, hu, -⟩ := split_of_find? (f := f) hf
    rw [hu] at h
    rcases mem_append.mp h with hb | ha
    · exact .inl (by rw [hl]; exact mem_append_left _ hb)
    · rcases mem_cons.mp ha with rfl | ha
      · exact .inr ⟨x, rfl, rfl⟩
      · exact .inl (by rw [hl]; exact mem_append_right _ (mem_cons_of_mem x ha))

theorem mem_updateFirst_of_mem (h : y ∈ l) :
    y ∈ updateFirst p f l ∨ l.find? p = some y ∧ f y ∈ updateFirst p f l := by
  cases hf : l.find? p with
  | none =>
    rw [updateFirst_of_find?_none hf]
    exact .inl h
  | some =>
    obtain ⟨_, _, hl, -, hu, -⟩ := split_of_find? (f := f) hf
    rw [hu]
    rw [hl] at h
    rcases mem_append.mp h with hb | ha
    · exact .inl (mem_append_left _ hb)
    · rcases mem_cons.mp ha with rfl | ha
      · exact .inr ⟨rfl, mem_append_right _ mem_cons_self⟩
      · exact .inl (mem_append_right _ (mem_cons_of_mem _ ha))

theorem map_updateFirst (g : α → β) (h : ∀ a, g (f a) = g a) :
    (updateFirst p f l).map g = l.map g := by
  induction l with
  | nil => rfl
  | cons a _ ih =>
    by_cases ha : p a = true
    · simp [updateFirst, ha, h]
    · simp [updateFirst, ha, ih]

theorem countP_set_of_getElem? {i : ℕ} (h : l[i]? = some x) (y : α) :
    (l.set i y).countP p + (if p x = true then 1 else 0) =
      l.countP p + if p y = true then 1 else 0 := by
  obtain ⟨hlt, hx⟩ := List.getElem?_eq_some_iff.mp h
  have hc := countP_set (p := p) (a := y) hlt
  have hle := boole_getElem_le_countP (p := p) hlt
  rw [hx] at hc hle
  omega

theorem countP_eraseIdx_of_getElem? {i : ℕ} (h : l[i]? = some x) :
    (l.eraseIdx i).countP p + (if p x = true then 1 else 0) = l.countP p := by
  obtain ⟨_, hx⟩ := List.getElem?_eq_some_iff.mp h
  have hs : l = l.take i ++ x :: l.drop (i + 1) := by
    rw [← hx, getElem_cons_drop, take_append_drop]
  calc
    (l.eraseIdx i).countP p + (if p x = true then 1 else 0)
      = (l.take i ++ x :: l.drop (i + 1)).countP p := by
        rw [eraseIdx_eq_take_drop_succ, countP_append, countP_append, countP_cons]
        omega
    _ = l.countP p := by rw [← hs]

/-- Replacing one element leaves the others in the list. -/
theorem mem_set_of_ne {i : ℕ} (h : l[i]? = some x) (hy : y ∈ l) (hne : y ≠ x) (z : α) :
    y ∈ l.set i z := by
  obtain ⟨j, hj⟩ := mem_iff_getElem?.mp hy
  have hij : i ≠ j := by
    rintro rfl
    rw [h, Option.some.injEq] at hj
    exact hne hj.symm
  refine mem_iff_getElem?.mpr ⟨j, ?_⟩
  rw [getElem?_set_ne hij]
  exact hj

theorem forall_mem_set {P : α → Prop} {i : ℕ} {z : α}
    (hold : ∀ j y, j ≠ i → l[j]? = some y → P y) (hn : P z) : ∀ y ∈ l.set i z, P y := by
  intro y hy
  obtain ⟨j, hj⟩ := mem_iff_getElem?.mp hy
  by_cases hij : i = j
  · subst hij
    rw [getElem?_set_self'] at hj
    obtain ⟨-, -, rfl⟩ := Option.map_eq_some_iff.mp hj
    exact hn
  · rw [getElem?_set_ne hij] at hj
    exact hold j y (Ne.symm hij) hj

theorem forall_mem_eraseIdx {P : α → Prop} {i : ℕ}
    (hold : ∀ j y, j ≠ i → l[j]? = some y → P y) : ∀ y ∈ l.eraseIdx i, P y := by
  intro y hy
  obtain ⟨j, hij, hj⟩ := mem_eraseIdx_iff_getElem?.mp hy
  exact hold j y hij hj

/-- What occurs at most once does not occur at a second place. -/
theorem index_eq_of_countP_le_one {i j : ℕ} (h : l.countP p ≤ 1) (hi : l[i]? = some x)
    (hx : p x = true) (hj : l[j]? = some y) (hy : p y = true) : i = j := by
  by_contra hij
  have he := countP_eraseIdx_of_getElem? (p := p) hi
  have hm : y ∈ l.eraseIdx i := mem_eraseIdx_iff_getElem?.mpr ⟨j, Ne.symm hij, hj⟩
  have hp : 0 < (l.eraseIdx i).countP p := countP_pos_iff.mpr ⟨y, hm, hy⟩
  rw [if_pos hx] at he
  omega

/-! ## Lists that shrink while their elements change

`List.SublistForall₂ R l' l` says that `l'` comes from `l` by dropping elements and relating each
remaining one to its new value.
-/

variable {R : α → α → Prop} {l' : List α}

theorem sublistForall₂_updateFirst (hr : ∀ a, R a a)
    (h : ∀ a, l.find? p = some a → R (f a) a) : List.SublistForall₂ R (updateFirst p f l) l := by
  have : Std.Refl R := ⟨hr⟩
  cases hf : l.find? p with
  | none =>
    rw [updateFirst_of_find?_none hf]
    exact (Sublist.refl l).sublistForall₂
  | some a =>
    obtain ⟨before, after, hl, -, hu, -⟩ := split_of_find? (f := f) hf
    rw [hu, hl, sublistForall₂_iff]
    refine ⟨before ++ a :: after, ?_, Sublist.refl _⟩
    exact rel_append (forall₂_refl before) (.cons (h a hf) (forall₂_refl after))

theorem mem_of_sublistForall₂ (h : List.SublistForall₂ R l' l) (hy : y ∈ l') : ∃ a ∈ l, R y a := by
  induction h with
  | nil => cases hy
  | cons hab _ ih =>
    rcases mem_cons.mp hy with rfl | hy
    · exact ⟨_, mem_cons_self, hab⟩
    · obtain ⟨a, ha, hR⟩ := ih hy
      exact ⟨a, mem_cons_of_mem _ ha, hR⟩
  | cons_right _ ih =>
    obtain ⟨a, ha, hR⟩ := ih hy
    exact ⟨a, mem_cons_of_mem _ ha, hR⟩

theorem map_sublist_of_sublistForall₂ (g : α → β) (hl : ∀ b a, R b a → g b = g a)
    (h : List.SublistForall₂ R l' l) : (l'.map g).Sublist (l.map g) := by
  induction h with
  | nil => exact nil_sublist _
  | cons hab _ ih =>
    rw [map_cons, map_cons, hl _ _ hab]
    exact ih.cons_cons _
  | cons_right _ ih => exact ih.cons _

theorem countP_le_of_sublistForall₂ (q : α → Bool) (hl : ∀ b a, R b a → q b = q a)
    (h : List.SublistForall₂ R l' l) : l'.countP q ≤ l.countP q := by
  have hm := (map_sublist_of_sublistForall₂ q hl h).countP_le (p := fun b ↦ b)
  simpa [countP_map, Function.comp_def] using hm

theorem exists_last_split {q : α → Prop} (h : ∃ a ∈ l, q a) :
    ∃ before a after, l = before ++ a :: after ∧ q a ∧ ∀ b ∈ after, ¬ q b := by
  induction l using reverseRecOn with
  | nil => simp at h
  | append_singleton l last ih =>
    by_cases hla : q last
    · exact ⟨l, last, [], rfl, hla, by simp⟩
    · have hr : ∃ a ∈ l, q a := by
        obtain ⟨a, ha, hq⟩ := h
        rcases mem_concat.mp ha with ha | rfl
        · exact ⟨a, ha, hq⟩
        · exact absurd hq hla
      obtain ⟨before, a, after, hl, hq, haf⟩ := ih hr
      refine ⟨before, a, after ++ [last], by simp [hl], hq, ?_⟩
      intro b hb
      rcases mem_concat.mp hb with hb | rfl
      · exact haf b hb
      · exact hla

end Slopdex.Library.FirstMatch
