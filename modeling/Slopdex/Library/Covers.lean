import Mathlib.Data.List.MinMax
import Mathlib.Order.Lattice

/-!
# One list of ordered values covering another

`Covers l l'` says that every member of `l'` is bounded by a member of `l`. It is what a maximum over
`l` needs in order to be at least the maximum over `l'`, and two lists that cover each other have the
same maximum.
-/

namespace Slopdex.Library

open List

universe u

variable {α : Type u}

section Preorder

variable [Preorder α] {l l' l'' m m' : List α}

/-- Every element of the second list is below one of the first. -/
def Covers (l l' : List α) : Prop := ∀ a ∈ l', ∃ b ∈ l, a ≤ b

theorem Covers.of_subset (h : l' ⊆ l) : Covers l l' := fun a ha ↦ ⟨a, h ha, le_refl a⟩

theorem Covers.refl (l : List α) : Covers l l := Covers.of_subset (Subset.refl l)

theorem Covers.eq_nil (h : Covers [] l) : l = [] := by
  rw [eq_nil_iff_forall_not_mem]
  intro a ha
  obtain ⟨b, hb, _⟩ := h a ha
  exact absurd hb not_mem_nil

end Preorder

section LinearOrder

variable [LinearOrder α] {l l' : List α}

theorem Covers.max_le (h : Covers l l') {a : α} (ha : l'.max? = some a) :
    ∃ b, l.max? = some b ∧ a ≤ b := by
  obtain ⟨c, hc, hac⟩ := h a (max?_eq_some_iff.mp ha).1
  cases hmax : l.max? with
  | none =>
    rw [max?_eq_none_iff] at hmax
    rw [hmax] at hc
    exact absurd hc not_mem_nil
  | some b => exact ⟨b, rfl, hac.trans ((max?_eq_some_iff.mp hmax).2 c hc)⟩

/-- The maximum over one list bounds the maximum over the other exactly if the list covers it. -/
theorem covers_iff_max_le {a : α} (ha : l'.max? = some a) :
    Covers l l' ↔ ∃ b, l.max? = some b ∧ a ≤ b := by
  refine ⟨fun h ↦ h.max_le ha, ?_⟩
  rintro ⟨b, hb, hab⟩ c hc
  exact ⟨b, (max?_eq_some_iff.mp hb).1, ((max?_eq_some_iff.mp ha).2 c hc).trans hab⟩

theorem Covers.max_eq (h : Covers l l') (h' : Covers l' l) : l.max? = l'.max? := by
  cases hmax : l'.max? with
  | none =>
    rw [max?_eq_none_iff] at hmax
    rw [hmax] at h'
    rw [h'.eq_nil, max?_nil]
  | some =>
    obtain ⟨b, hb, hab⟩ := h.max_le hmax
    obtain ⟨c, hc, hbc⟩ := h'.max_le hb
    obtain rfl := Option.mem_unique hmax hc
    rw [hb, le_antisymm hbc hab]

end LinearOrder

end Slopdex.Library
