import Mathlib.Data.Prod.Lex
import Mathlib.Data.List.MinMax

/-!
# The most specific rule wins

Rules that apply to one subject are ranked by their depth, and among rules of the same depth by the
order of their verdicts. The verdict of the highest rank decides, and a default decides where no rule
applies.
-/

namespace Slopdex.Library.Specificity

open List

universe u

variable {δ : Type u} [LinearOrder δ]

/-- The verdict at the greatest depth, the greatest there. -/
def mostSpecific (fallback : δ) (applicable : List (ℕ × δ)) : δ :=
  (applicable.map toLex).max?.elim fallback fun key ↦ (ofLex key).2

@[simp] theorem mostSpecific_nil (fallback : δ) : mostSpecific fallback [] = fallback := rfl

theorem mostSpecific_spec (fallback : δ) {applicable : List (ℕ × δ)} (h : applicable ≠ []) :
    ∃ depth, (depth, mostSpecific fallback applicable) ∈ applicable ∧
      ∀ rule ∈ applicable, rule.1 < depth ∨
        rule.1 = depth ∧ rule.2 ≤ mostSpecific fallback applicable := by
  cases hm : (applicable.map toLex).max? with
  | none => exact absurd (map_eq_nil_iff.mp (max?_eq_none_iff.mp hm)) h
  | some key =>
    have hv : mostSpecific fallback applicable = (ofLex key).2 := by
      rw [mostSpecific, hm, Option.elim_some]
    obtain ⟨hme, hb⟩ := max?_eq_some_iff.mp hm
    obtain ⟨rule, hr, rfl⟩ := mem_map.mp hme
    refine ⟨rule.1, ?_, ?_⟩
    · rw [hv]
      exact hr
    · intro other ho
      rw [hv]
      exact Prod.Lex.toLex_le_toLex.mp (hb (toLex other) (mem_map_of_mem ho))

theorem mostSpecific_eq {fallback verdict : δ} {depth : ℕ} {applicable : List (ℕ × δ)}
    (hm : (depth, verdict) ∈ applicable)
    (hb : ∀ rule ∈ applicable, rule.1 < depth ∨ rule.1 = depth ∧ rule.2 ≤ verdict) :
    mostSpecific fallback applicable = verdict := by
  obtain ⟨_, ht, hr⟩ := mostSpecific_spec fallback (ne_nil_of_mem hm)
  rcases hb _ ht with hlt | ⟨heq, hle⟩
  · rcases hr _ hm with hlt' | ⟨heq', _⟩
    · exact absurd (hlt.trans hlt') (lt_irrefl _)
    · exact absurd heq' hlt.ne'
  · rcases hr _ hm with hlt' | ⟨_, hle'⟩
    · exact absurd heq hlt'.ne'
    · exact le_antisymm hle hle'

theorem mostSpecific_perm {fallback : δ} {applicable applicable' : List (ℕ × δ)}
    (h : applicable.Perm applicable') :
    mostSpecific fallback applicable = mostSpecific fallback applicable' := by
  by_cases hn : applicable = []
  · subst hn
    rw [← h.nil_eq]
  · obtain ⟨_, hm, hb⟩ := mostSpecific_spec fallback hn
    exact (mostSpecific_eq (h.mem_iff.mp hm) fun rule hr ↦
      hb rule (h.mem_iff.mpr hr)).symm

end Slopdex.Library.Specificity
