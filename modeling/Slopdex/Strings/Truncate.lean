import Slopdex.Protocol.Types
import Mathlib.Data.List.Infix

/-!
# Middle truncation

`truncate_with_byte_estimate` keeps a part at either end of a text. Offsets are in bytes, and a
slice that is not at a character is `none`.
-/

namespace Slopdex.Strings

open Protocol (Text)
open List

/-- `str::len` -/
def len (text : Text) : ℕ := (text.map Char.utf8Size).sum

/-- `str::split_at` -/
def splitAt (offset : ℕ) : Text → Option (Text × Text)
  | [] => if offset = 0 then some ([], []) else none
  | c :: text =>
    if offset = 0 then some ([], c :: text)
    else if offset < c.utf8Size then none
    else (splitAt (offset - c.utf8Size) text).map fun parts ↦ (c :: parts.1, parts.2)

/-- The variables of the loop of `split_string` -/
structure Split where
  (prefixEnd suffixStart removedChars : ℕ)
  suffixStarted : Bool

/-- The loop over `char_indices` -/
def splitLoop (beginningBytes tailStartTarget : ℕ) : ℕ → Text → Split → Split
  | _, [], s => s
  | idx, ch :: text, s =>
    let charEnd := idx + ch.utf8Size
    splitLoop beginningBytes tailStartTarget charEnd text <|
      if charEnd ≤ beginningBytes then { s with prefixEnd := charEnd }
      else if tailStartTarget ≤ idx then
        if s.suffixStarted then s else { s with suffixStart := idx, suffixStarted := true }
      else { s with removedChars := s.removedChars + 1 }

def splitString (text : Text) (beginningBytes endBytes : ℕ) : Option (ℕ × Text × Text) := do
  let s := splitLoop beginningBytes (len text - endBytes) 0 text ⟨0, len text, 0, false⟩
  let before ← splitAt s.prefixEnd text
  let after ← splitAt (max s.suffixStart s.prefixEnd) text
  some (s.removedChars, before.1, after.2)

def splitBudget (budget : ℕ) : ℕ × ℕ := (budget / 2, budget - budget / 2)

def approxTokensFromByteCount (bytes : ℕ) : ℕ := min (bytes + 3) (2 ^ 64 - 1) / 4

def formatTruncationMarker (useTokens : Bool) (removedCount : ℕ) : Text :=
  "…".toList ++ (toString removedCount).toList ++
    if useTokens then " tokens truncated…".toList else " chars truncated…".toList

def removedUnits (useTokens : Bool) (removedBytes removedChars : ℕ) : ℕ :=
  if useTokens then approxTokensFromByteCount removedBytes else removedChars

def truncateWithByteEstimate (text : Text) (maxBytes : ℕ) (useTokens : Bool) : Option Text :=
  if text.isEmpty then some []
  else if maxBytes = 0 then
    some (formatTruncationMarker useTokens (removedUnits useTokens (len text) text.length))
  else if len text ≤ maxBytes then some text
  else do
    let (leftBudget, rightBudget) := splitBudget maxBytes
    let (removedChars, left, right) ← splitString text leftBudget rightBudget
    let marker := formatTruncationMarker useTokens
      (removedUnits useTokens (len text - maxBytes) removedChars)
    some (left ++ marker ++ right)

variable {text left right : Text} {c : Char}

@[simp] theorem len_append : len (left ++ right) = len left + len right := by simp [len]

@[simp] theorem len_cons : len (c :: text) = c.utf8Size + len text := by simp [len]

theorem splitAt_append : splitAt (len left) (left ++ right) = some (left, right) := by
  induction left with
  | nil => cases right <;> rfl
  | cons c left ih =>
    have hs := c.utf8Size_pos
    rw [len_cons, cons_append, splitAt, if_neg (by omega), if_neg (by omega),
      Nat.add_sub_cancel_left, ih]
    rfl

section

variable {beginning tail budget idx : ℕ}

/-- A character with which the rest of the text is too long begins none of the parts. -/
theorem suffix_of_cons (hc : budget < c.utf8Size + len text)
    (hm : ∀ part, part <:+ text → len part ≤ budget → part <:+ right) :
    ∀ part, part <:+ c :: text → len part ≤ budget → part <:+ right := by
  intro part hp hle
  rcases suffix_cons_iff.mp hp with rfl | hp
  · rw [len_cons] at hle
    omega
  · exact hm part hp hle

theorem splitLoop_of_suffixStarted {s : Split} (hs : s.suffixStarted = true)
    (hb : beginning < idx) (ht : tail ≤ idx) : splitLoop beginning tail idx text s = s := by
  induction text generalizing idx with
  | nil => rfl
  | cons c text ih =>
    rw [splitLoop, if_neg (by omega), if_pos ht, if_pos hs, ih (by omega) (by omega)]

/-- The loop behind the characters that are kept at the beginning -/
theorem splitLoop_middle {kept removed : ℕ} (hl : idx + len text = tail + budget)
    (hh : ∀ c ∈ text.head?, beginning < idx + c.utf8Size) :
    ∃ middle right started, text = middle ++ right ∧
      splitLoop beginning tail idx text ⟨kept, tail + budget, removed, false⟩ =
        ⟨kept, idx + len middle, removed + middle.length, started⟩ ∧
      len right ≤ budget ∧ ∀ part, part <:+ text → len part ≤ budget → part <:+ right := by
  induction text generalizing idx removed with
  | nil => exact ⟨[], [], false, rfl, by rw [← hl]; rfl, Nat.zero_le _, fun _ h _ ↦ h⟩
  | cons c text ih =>
    have hc := hh c rfl
    rw [len_cons] at hl
    by_cases ht : tail ≤ idx
    · refine ⟨[], c :: text, true, rfl, ?_, by rw [len_cons]; omega, fun _ h _ ↦ h⟩
      rw [splitLoop, if_neg (by omega), if_pos ht]
      exact splitLoop_of_suffixStarted rfl hc (by omega)
    · obtain ⟨middle, right, started, rfl, hloop, hr, hm⟩ :=
        @ih (idx + c.utf8Size) (removed + 1) (by omega) fun _ _ ↦ by omega
      refine ⟨c :: middle, right, started, rfl, ?_, hr, suffix_of_cons (by omega) hm⟩
      rw [splitLoop, if_neg (by omega), if_neg ht, hloop]
      simp [Nat.add_assoc, Nat.add_comm 1]

theorem splitLoop_spec (hlen : idx + len text = tail + budget) (hb : beginning < tail)
    (hi : idx ≤ beginning) :
    ∃ left middle right started, text = left ++ middle ++ right ∧
      splitLoop beginning tail idx text ⟨idx, tail + budget, 0, false⟩ =
        ⟨idx + len left, idx + len left + len middle, middle.length, started⟩ ∧
      idx + len left ≤ beginning ∧
      (∀ part, part <+: text → idx + len part ≤ beginning → part <+: left) ∧
      len right ≤ budget ∧ ∀ part, part <:+ text → len part ≤ budget → part <:+ right := by
  induction text generalizing idx with
  | nil => exact absurd hlen (by simp [len]; omega)
  | cons c text ih =>
    by_cases hc : idx + c.utf8Size ≤ beginning
    · rw [len_cons, ← Nat.add_assoc] at hlen
      obtain ⟨left, middle, right, started, rfl, hloop, hl, hpr, hr, hm⟩ := ih hlen hc
      refine ⟨c :: left, middle, right, started, rfl, ?_, ?_, fun part hp hle ↦ ?_, hr,
        suffix_of_cons (by omega) hm⟩
      · rw [splitLoop, if_pos hc, hloop, len_cons, Nat.add_assoc]
      · rwa [len_cons, ← Nat.add_assoc]
      · rcases prefix_cons_iff.mp hp with rfl | ⟨part, rfl, hre⟩
        · exact nil_prefix
        · rw [len_cons, ← Nat.add_assoc] at hle
          exact (prefix_cons_inj c).mpr (hpr part hre hle)
    · obtain ⟨middle, right, started, htext, hloop, hparts⟩ :=
        @splitLoop_middle (c :: text) beginning tail budget idx idx 0 hlen (by simpa using hc)
      refine ⟨[], middle, right, started, htext, by simpa [len] using hloop, hi,
        fun part hp hle ↦ ?_, hparts⟩
      rcases prefix_cons_iff.mp hp with rfl | ⟨part, rfl, -⟩
      · exact nil_prefix
      · rw [len_cons] at hle
        omega

end

/-- The longest parts within either half of the budget are kept, with the marker between them. -/
theorem truncateWithByteEstimate_spec (text : Text) (maxBytes : ℕ) (useTokens : Bool)
    (hpos : 0 < maxBytes) (hlt : maxBytes < len text) :
    ∃ left removed right count, text = left ++ removed ++ right ∧
      truncateWithByteEstimate text maxBytes useTokens =
        some (left ++ formatTruncationMarker useTokens count ++ right) ∧
      (useTokens = false → count = removed.length) ∧
      len left ≤ maxBytes / 2 ∧ (∀ part, part <+: text → len part ≤ maxBytes / 2 → part <+: left) ∧
      len right ≤ maxBytes - maxBytes / 2 ∧
      ∀ part, part <:+ text → len part ≤ maxBytes - maxBytes / 2 → part <:+ right := by
  obtain ⟨left, removed, right, _, htext, hloop, hparts⟩ := @splitLoop_spec text (maxBytes / 2)
    (len text - (maxBytes - maxBytes / 2)) (maxBytes - maxBytes / 2) 0
    (by omega) (by omega) (by omega)
  simp only [Nat.zero_add] at hloop hparts
  rw [Nat.sub_add_cancel (by omega)] at hloop
  have hbefore : splitAt (len left) text = some (left, removed ++ right) := by
    rw [htext, append_assoc]
    exact splitAt_append
  have hafter : splitAt (len left + len removed) text = some (left ++ removed, right) := by
    rw [htext, ← len_append]
    exact splitAt_append
  have hne : text ≠ [] := by
    rintro rfl
    simp [len] at hlt
  refine ⟨left, removed, right, removedUnits useTokens (len text - maxBytes) removed.length, htext,
    ?_, fun h ↦ by simp [removedUnits, h], hparts⟩
  simp [truncateWithByteEstimate, splitString, splitBudget, hne, hpos.ne', hlt, hloop, hbefore,
    hafter]

theorem truncateWithByteEstimate_two : 2 < len "añb".toList ∧
    ∃ left right count, truncateWithByteEstimate "añb".toList 2 false =
      some (left ++ formatTruncationMarker false count ++ right) :=
  have ⟨left, _, right, count, _, hresult, _⟩ :=
    truncateWithByteEstimate_spec "añb".toList 2 false (by decide) (by decide)
  ⟨by decide, left, right, count, hresult⟩

end Slopdex.Strings
