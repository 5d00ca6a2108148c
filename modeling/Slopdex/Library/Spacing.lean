import Mathlib.Data.List.Basic

/-!
# Occurrences that are kept apart

In a history that only grows at its end, `Spaced p q` says that between two entries with `p` there is
one with `q`. It is kept by entries that come when the history is `Cleared`: since every entry with
`p` there has been one with `q`.
-/

namespace Slopdex.Library.Spacing

open List

universe u

variable {α : Type u} {p q : α → Prop} {l new : List α} {e : α}

/-- Between any two elements with `p` there is one with `q`. -/
def Spaced (p q : α → Prop) (l : List α) : Prop :=
  ∀ before between after x y, l = before ++ x :: (between ++ y :: after) → p x → p y →
    ∃ z ∈ between, q z

/-- Every element with `p` has one with `q` behind it. -/
def Cleared (p q : α → Prop) (l : List α) : Prop :=
  ∀ before after x, l = before ++ x :: after → p x → ∃ z ∈ after, q z

theorem spaced_nil : Spaced p q [] := by
  intro before _ _ _ _ hs
  cases before <;> cases hs

theorem cleared_of_forall_not (h : ∀ x ∈ l, ¬ p x) : Cleared p q l := by
  intro _ _ x hs hx
  refine absurd hx (h x ?_)
  rw [hs]
  exact mem_append_right _ mem_cons_self

theorem concat_eq_append_cons {before after : List α} {x : α}
    (h : l ++ [e] = before ++ x :: after) :
    l = before ∧ x = e ∨ ∃ rest, after = rest ++ [e] ∧ l = before ++ x :: rest := by
  rcases eq_nil_or_concat' after with rfl | ⟨rest, _, rfl⟩
  · obtain ⟨hl, he⟩ := append_inj' h rfl
    exact .inl ⟨hl, (singleton_inj.mp he).symm⟩
  · rw [← cons_append, ← append_assoc] at h
    obtain ⟨hl, he⟩ := append_inj' h rfl
    rw [singleton_inj.mp he]
    exact .inr ⟨rest, rfl, hl⟩

theorem Cleared.concat (h : Cleared p q l) (he : ¬ p e) : Cleared p q (l ++ [e]) := by
  intro before _ x hs hx
  rcases concat_eq_append_cons hs with ⟨-, rfl⟩ | ⟨rest, rfl, hl⟩
  · exact absurd hx he
  · obtain ⟨z, hz, hq⟩ := h before rest x hl hx
    exact ⟨z, mem_append_left _ hz, hq⟩

theorem cleared_concat (hq : q e) (he : ¬ p e) : Cleared p q (l ++ [e]) := by
  intro _ _ _ hs hx
  rcases concat_eq_append_cons hs with ⟨-, rfl⟩ | ⟨_, rfl, -⟩
  · exact absurd hx he
  · exact ⟨e, mem_append_right _ (mem_singleton_self e), hq⟩

theorem Spaced.concat (h : Spaced p q l) (he : p e → Cleared p q l) : Spaced p q (l ++ [e]) := by
  intro before between after x y hs hx hy
  have ha : l ++ [e] = (before ++ x :: between) ++ y :: after := by
    rw [hs, append_assoc, cons_append]
  rcases concat_eq_append_cons ha with ⟨hl, rfl⟩ | ⟨rest, rfl, hl⟩
  · exact he hy before between x hl hx
  · rw [append_assoc] at hl
    exact h before between rest x y hl hx hy

end Slopdex.Library.Spacing
