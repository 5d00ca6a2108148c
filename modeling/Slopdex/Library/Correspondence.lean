import Mathlib.Logic.Function.Basic
import Mathlib.Data.Option.Basic

/-!
# Two indices of one correspondence

A table that is kept under two keys is a pair of partial functions, each of which answers what the
other one is asked. The two stay inverse to each other when an unused pair is added, when a pair is
taken out, and when an entry is written that changes neither of them.
-/

namespace Slopdex.Library.Correspondence

open Function

universe u v

variable {α : Type u} {β : Type v}

/-- Each partial map takes back what the other gives. -/
def MutuallyInverse (f : α → Option β) (g : β → Option α) : Prop :=
  ∀ a b, f a = some b ↔ g b = some a

theorem mutuallyInverse_none : MutuallyInverse (fun _ : α ↦ none) fun _ : β ↦ none := by
  intro a b
  simp

namespace MutuallyInverse

variable [DecidableEq α] [DecidableEq β] {f : α → Option β} {g : β → Option α} {a : α} {b : β}

theorem link (h : MutuallyInverse f g) (ha : f a = none) (hb : g b = none) :
    MutuallyInverse (update f a (some b)) (update g b (some a)) := by
  intro x y
  by_cases hx : x = a
  · subst hx
    by_cases hy : y = b
    · simp [hy]
    · have hu : g y ≠ some x := fun hg ↦ by simp [(h x y).mpr hg] at ha
      simp [hy, hu, Ne.symm hy]
  · by_cases hy : y = b
    · subst hy
      have hu : f x ≠ some y := fun hf ↦ by simp [(h x y).mp hf] at hb
      simp [hx, hu, Ne.symm hx]
    · simpa [hx, hy] using h x y

theorem unlink (h : MutuallyInverse f g) (ha : f a = some b) :
    MutuallyInverse (update f a none) (update g b none) := by
  have hb : g b = some a := (h a b).mp ha
  intro x y
  by_cases hx : x = a
  · subst hx
    by_cases hy : y = b
    · simp [hy]
    · have ho : g y ≠ some x := fun hg ↦ by
        rw [(h x y).mpr hg, Option.some.injEq] at ha
        exact hy ha
      simp [hy, ho]
  · by_cases hy : y = b
    · subst hy
      have ho : f x ≠ some y := fun hf ↦ by
        rw [(h x y).mp hf, Option.some.injEq] at hb
        exact hx hb
      simp [hx, ho]
    · simpa [hx, hy] using h x y

end MutuallyInverse

end Slopdex.Library.Correspondence
