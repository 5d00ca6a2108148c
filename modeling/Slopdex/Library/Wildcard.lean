import Mathlib.Data.List.Infix
import Mathlib.Data.List.Basic

/-!
# Patterns with single and repeated wildcards

A pattern is a list of tokens: a letter, a wildcard for one letter, or a wildcard for any number of
them. Letters are compared by a relation, so that a pattern may ignore the case of a text. A pattern
that is put together from two accepts the texts that are put together from what the two accept.
-/

namespace Slopdex.Library.Wildcard

open List

universe u

inductive Token (α : Type u)
  | letter (a : α)
  | one
  | many
  deriving DecidableEq

variable {α : Type u} (same : α → α → Bool)

/-- `one` stands for any element, `many` for any text. -/
def accepts : List (Token α) → List α → Bool
  | [], text => text.isEmpty
  | .letter _ :: _, [] => false
  | .letter a :: rest, b :: text => same a b && accepts rest text
  | .one :: _, [] => false
  | .one :: rest, _ :: text => accepts rest text
  | .many :: rest, text => text.tails.any (accepts rest)

variable {same} {a : α} {pattern left right : List (Token α)} {text : List α}

@[simp]
theorem accepts_nil_iff : accepts same [] text = true ↔ text = [] := by
  rw [accepts, List.isEmpty_iff]

theorem accepts_letter_iff : accepts same (.letter a :: pattern) text = true ↔
    ∃ b rest, text = b :: rest ∧ same a b = true ∧ accepts same pattern rest = true := by
  cases text with
  | nil | cons => simp [accepts]

theorem accepts_one_iff : accepts same (.one :: pattern) text = true ↔
    ∃ b rest, text = b :: rest ∧ accepts same pattern rest = true := by
  cases text with
  | nil | cons => simp [accepts]

theorem accepts_many_iff : accepts same (.many :: pattern) text = true ↔
    ∃ skipped rest, text = skipped ++ rest ∧ accepts same pattern rest = true := by
  rw [accepts, any_eq_true]
  constructor
  · rintro ⟨rest, hmem, hr⟩
    obtain ⟨skipped, rfl⟩ := (mem_tails _ _).mp hmem
    exact ⟨skipped, rest, rfl, hr⟩
  · rintro ⟨skipped, rest, rfl, hr⟩
    exact ⟨rest, (mem_tails _ _).mpr (suffix_append skipped rest), hr⟩

theorem accepts_append_iff : accepts same (left ++ right) text = true ↔
    ∃ start rest, text = start ++ rest ∧ accepts same left start = true ∧
      accepts same right rest = true := by
  induction left generalizing text with
  | nil => simp
  | cons token _ ih =>
    cases token with
    | letter =>
      simp only [cons_append, accepts_letter_iff, ih]
      constructor
      · rintro ⟨b, _, rfl, hb, start, rest, rfl, hl, hr⟩
        exact ⟨b :: start, rest, rfl, ⟨b, start, rfl, hb, hl⟩, hr⟩
      · rintro ⟨_, rest, rfl, ⟨b, start, rfl, hb, hl⟩, hr⟩
        exact ⟨b, start ++ rest, rfl, hb, start, rest, rfl, hl, hr⟩
    | one =>
      simp only [cons_append, accepts_one_iff, ih]
      constructor
      · rintro ⟨b, _, rfl, start, rest, rfl, hl, hr⟩
        exact ⟨b :: start, rest, rfl, ⟨b, start, rfl, hl⟩, hr⟩
      · rintro ⟨_, rest, rfl, ⟨b, start, rfl, hl⟩, hr⟩
        exact ⟨b, start ++ rest, rfl, start, rest, rfl, hl, hr⟩
    | many =>
      simp only [cons_append, accepts_many_iff, ih]
      constructor
      · rintro ⟨skipped, _, rfl, start, rest, rfl, hl, hr⟩
        exact ⟨skipped ++ start, rest, (append_assoc _ _ _).symm,
          ⟨skipped, start, rfl, hl⟩, hr⟩
      · rintro ⟨_, rest, rfl, ⟨skipped, start, rfl, hl⟩, hr⟩
        exact ⟨skipped, start ++ rest, append_assoc _ _ _, start, rest, rfl, hl, hr⟩

theorem accepts_one_many_iff : accepts same [.one, .many] text = true ↔ text ≠ [] := by
  rw [accepts_one_iff]
  constructor
  · rintro ⟨b, rest, rfl, -⟩
    exact cons_ne_nil b rest
  · intro hne
    obtain ⟨b, rest, rfl⟩ := exists_cons_of_ne_nil hne
    exact ⟨b, rest, rfl, accepts_many_iff.mpr ⟨rest, [], (append_nil rest).symm, rfl⟩⟩

theorem ne_nil_of_accepts (ht : ∃ token ∈ pattern, token ≠ .many)
    (h : accepts same pattern text = true) : text ≠ [] := by
  induction pattern generalizing text with
  | nil => simp at ht
  | cons token pattern ih =>
    cases token with
    | letter =>
      obtain ⟨b, rest, rfl, -⟩ := accepts_letter_iff.mp h
      exact cons_ne_nil b rest
    | one =>
      obtain ⟨b, rest, rfl, -⟩ := accepts_one_iff.mp h
      exact cons_ne_nil b rest
    | many =>
      obtain ⟨skipped, _, rfl, hr⟩ := accepts_many_iff.mp h
      have hl : ∃ token ∈ pattern, token ≠ .many := by
        obtain ⟨token, hmem, hne⟩ := ht
        refine ⟨token, ?_, hne⟩
        exact (mem_cons.mp hmem).resolve_left hne
      exact append_ne_nil_of_right_ne_nil skipped (ih hl hr)

end Slopdex.Library.Wildcard
