import Mathlib.Data.List.DropRight
import Mathlib.Data.List.Basic

/-!
# Trimming and splitting lists into lines

`splitInclusive` cuts a text after every separator, as a reader of lines does, and is undone by
terminating each line and joining the results. Trimming removes the elements at both ends that
satisfy a predicate; a text that is left as it is by trimming keeps that property behind a marker.
-/

namespace Slopdex.Library.Lines

open List

universe u

variable {α : Type u}

section Trim

variable {p : α → Bool} {a : α} {l marker text : List α}

/-- Remove the elements at both ends that satisfy `p`. -/
def trim (p : α → Bool) (l : List α) : List α := (l.dropWhile p).rdropWhile p

theorem rdropWhile_eq_self (h : ∀ x ∈ l.getLast?, p x = false) : l.rdropWhile p = l := by
  rw [rdropWhile_eq_self_iff]
  intro hl
  simpa using h _ (getLast_mem_getLast? hl)

theorem dropWhile_eq_self (h : ∀ x ∈ l.head?, p x = false) : l.dropWhile p = l := by
  cases l with
  | nil => rfl
  | cons a => simp [h a rfl]

theorem getLast?_of_trim_eq_self (h : trim p l = l) : ∀ x ∈ l.getLast?, p x = false := by
  intro x hx
  have hne : trim p l ≠ [] := by
    rw [h]
    exact ne_nil_of_mem (mem_of_getLast? hx)
  have hl := rdropWhile_last_not p (l.dropWhile p) hne
  have hg : (trim p l).getLast hne = x := by
    apply Option.some.inj
    rw [← getLast?_eq_some_getLast, h]
    exact hx
  change ¬ p ((trim p l).getLast hne) = true at hl
  rw [hg] at hl
  simpa using hl

theorem rdropWhile_marker_append (marker : List α) (ht : text ≠ []) (htr : trim p text = text) :
    (marker ++ text).rdropWhile p = marker ++ text := by
  apply rdropWhile_eq_self
  rw [getLast?_append_of_ne_nil _ ht]
  exact getLast?_of_trim_eq_self htr

theorem trim_marker_append (hm : ∃ x ∈ marker.head?, p x = false) (ht : text ≠ [])
    (htr : trim p text = text) : trim p (marker ++ text) = marker ++ text := by
  obtain ⟨x, hx, hpx⟩ := hm
  have hh : ∀ y ∈ (marker ++ text).head?, p y = false := by
    intro y hy
    rw [head?_append_of_ne_nil _ (ne_nil_of_mem (mem_of_head? hx)), hx] at hy
    cases hy
    exact hpx
  unfold trim
  rw [dropWhile_eq_self hh]
  exact rdropWhile_marker_append marker ht htr

/-- What is left of a text starts as the text does, or nothing is left. -/
theorem rdropWhile_cons_eq (p : α → Bool) (a : α) (l : List α) :
    (a :: l).rdropWhile p = [] ∨ ∃ rest, (a :: l).rdropWhile p = a :: rest := by
  have hs := rdropWhile_prefix p (a :: l)
  rcases prefix_cons_iff.mp hs with h | ⟨rest, h, -⟩
  · exact .inl h
  · exact .inr ⟨rest, h⟩

theorem trim_cons_eq (h : p a = false) (l : List α) : ∃ rest, trim p (a :: l) = a :: rest := by
  unfold trim
  rw [dropWhile_cons_of_neg (by simp [h])]
  rcases rdropWhile_cons_eq p a l with hn | hc
  · rw [rdropWhile_eq_nil_iff] at hn
    simp [h] at hn
  · exact hc

end Trim

section Split

variable [DecidableEq α] {sep : α} {line rest : List α} {lines : List (List α)}

def splitInclusive (sep : α) : List α → List (List α)
  | [] => []
  | a :: rest =>
    if a = sep then [a] :: splitInclusive sep rest
    else
      match splitInclusive sep rest with
      | [] => [[a]]
      | piece :: pieces => (a :: piece) :: pieces

def terminate (sep : α) (lines : List (List α)) : List α := lines.flatMap (· ++ [sep])

omit [DecidableEq α] in
@[simp] theorem terminate_nil (sep : α) : terminate sep [] = [] := rfl

omit [DecidableEq α] in
@[simp] theorem terminate_cons (sep : α) (line : List α) (lines : List (List α)) :
    terminate sep (line :: lines) = line ++ sep :: terminate sep lines := by
  simp [terminate]

omit [DecidableEq α] in
@[simp] theorem terminate_append (sep : α) (lines lines' : List (List α)) :
    terminate sep (lines ++ lines') = terminate sep lines ++ terminate sep lines' := by
  simp [terminate]

theorem splitInclusive_terminated (h : sep ∉ line) (rest : List α) :
    splitInclusive sep (line ++ sep :: rest) = (line ++ [sep]) :: splitInclusive sep rest := by
  induction line with
  | nil => simp [splitInclusive]
  | cons a _ ih =>
    have ha : a ≠ sep := fun heq => h (heq ▸ mem_cons_self)
    rw [cons_append, splitInclusive, if_neg ha, ih (fun hm => h (mem_cons_of_mem a hm))]
    rfl

theorem splitInclusive_of_not_mem (h : sep ∉ line) (hne : line ≠ []) :
    splitInclusive sep line = [line] := by
  induction line with
  | nil => exact absurd rfl hne
  | cons a line ih =>
    have ha : a ≠ sep := fun heq => h (heq ▸ mem_cons_self)
    rw [splitInclusive, if_neg ha]
    by_cases hl : line = []
    · subst hl
      rfl
    · rw [ih (fun hm => h (mem_cons_of_mem a hm)) hl]

theorem splitInclusive_terminate_append (h : ∀ line ∈ lines, sep ∉ line) (rest : List α) :
    splitInclusive sep (terminate sep lines ++ rest) =
      lines.map (· ++ [sep]) ++ splitInclusive sep rest := by
  induction lines with
  | nil => rfl
  | cons line lines ih =>
    calc
      splitInclusive sep (terminate sep (line :: lines) ++ rest)
        = splitInclusive sep (line ++ sep :: (terminate sep lines ++ rest)) := by
          simp
      _ = (line ++ [sep]) :: splitInclusive sep (terminate sep lines ++ rest) :=
          splitInclusive_terminated (h line mem_cons_self) _
      _ = (line :: lines).map (· ++ [sep]) ++ splitInclusive sep rest := by
          rw [ih (fun line' hm => h line' (mem_cons_of_mem line hm))]
          rfl

theorem exists_eq_terminate_append (sep : α) (text : List α) : ∃ lines rest,
    (∀ line ∈ lines, sep ∉ line) ∧ sep ∉ rest ∧ text = terminate sep lines ++ rest := by
  induction text with
  | nil => exact ⟨[], [], by simp⟩
  | cons a text ih =>
    obtain ⟨lines, rest, hlines, hrest, rfl⟩ := ih
    by_cases ha : a = sep
    · subst ha
      exact ⟨[] :: lines, rest, by simpa using hlines, hrest, by simp⟩
    · cases lines with
      | nil => exact ⟨[], a :: rest, by simp, by simp [hrest, Ne.symm ha], rfl⟩
      | cons line lines =>
        refine ⟨(a :: line) :: lines, rest, ?_, hrest, by simp⟩
        rw [forall_mem_cons] at hlines ⊢
        exact ⟨by simp [hlines.1, Ne.symm ha], hlines.2⟩

omit [DecidableEq α] in
theorem intercalate_concat (sep : α) (lines : List (List α)) (last : List α) :
    [sep].intercalate (lines ++ [last]) = terminate sep lines ++ last := by
  induction lines with
  | nil => simp
  | cons line lines ih =>
    have hc : [sep].intercalate (line :: (lines ++ [last])) =
        line ++ [sep] ++ [sep].intercalate (lines ++ [last]) := by
      cases lines <;> simp [intercalate_cons_cons]
    rw [cons_append, hc, ih]
    simp

end Split

end Slopdex.Library.Lines
