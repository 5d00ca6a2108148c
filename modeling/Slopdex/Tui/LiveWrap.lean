import Mathlib.Data.BitVec

/-!
# The row builder

`RowBuilder` of `live_wrap.rs` wraps a text that comes in pieces. A text is the list of its grapheme
clusters with `none` for a line break; a cluster of a carriage return and a line feed is two
symbols, as `push_fragment` splits it. The width of a cluster is a parameter.
-/

namespace Slopdex.Tui

open List

structure Row (γ : Type) where
  text : List γ
  explicitBreak : Bool
  deriving DecidableEq

structure RowBuilder (γ : Type) where
  targetWidth : ℕ
  currentLine : List γ
  rows : List (Row γ)

variable {γ : Type}

/-- The text of a row with its line break -/
def Row.content (row : Row γ) : List (Option γ) :=
  row.text.map some ++ if row.explicitBreak then [none] else []

namespace RowBuilder

def new (targetWidth : ℕ) : RowBuilder γ := ⟨max targetWidth 1, [], []⟩

def displayRows (b : RowBuilder γ) : List (Row γ) :=
  if b.currentLine.isEmpty then b.rows else b.rows ++ [⟨b.currentLine, false⟩]

def pushStr (b : RowBuilder γ) (text : List γ) : RowBuilder γ :=
  { b with currentLine := b.currentLine ++ text }

end RowBuilder

class DisplayWidth (γ : Type) where
  displayWidth : γ → ℕ

export DisplayWidth (displayWidth)

variable [DisplayWidth γ]

def width (text : List γ) : ℕ := (text.map displayWidth).sum

/-- At most the target width, or one cluster that is wider -/
def Row.Fits (targetWidth : ℕ) (row : Row γ) : Prop :=
  width row.text ≤ targetWidth ∨ ∃ g, row.text = [g] ∧ targetWidth < displayWidth g

/-- The clusters that fit behind the first `cols` columns, the others, and the columns taken. The
loop ends as soon as all columns are taken, which may be before the first cluster. -/
def takePrefixByWidth (maxCols cols : ℕ) : List γ → List γ × List γ × ℕ
  | [] => ([], [], cols)
  | g :: text =>
    if cols = maxCols ∨ maxCols < cols + displayWidth g then ([], g :: text, cols)
    else (takePrefixByWidth maxCols (cols + displayWidth g) text).map (g :: ·) id

section

variable {maxCols cols : ℕ} {text more : List γ}

theorem takePrefixByWidth_spec (h : cols ≤ maxCols) :
    let row := takePrefixByWidth maxCols cols text
    row.1 ++ row.2.1 = text ∧ row.2.2 = cols + width row.1 ∧ cols + width row.1 ≤ maxCols := by
  fun_induction takePrefixByWidth maxCols cols text <;> simp_all [width, Nat.add_assoc]

theorem takePrefixByWidth_zero (maxCols : ℕ) (text : List γ) :
    let row := takePrefixByWidth maxCols 0 text
    row.1 ++ row.2.1 = text ∧ row.2.2 = width row.1 ∧ width row.1 ≤ maxCols := by
  simpa using @takePrefixByWidth_spec _ _ maxCols 0 text (Nat.zero_le _)

/-- Every turn of the loop takes a cluster off the line. -/
theorem length_takePrefixByWidth_lt (h : (takePrefixByWidth maxCols 0 text).2.2 ≠ 0) :
    (takePrefixByWidth maxCols 0 text).2.1.length < text.length := by
  obtain ⟨hs, hw, -⟩ := takePrefixByWidth_zero maxCols text
  have hf : (takePrefixByWidth maxCols 0 text).1 ≠ [] := fun hnil ↦
    h (by simp [hw, hnil, width])
  have := length_pos_iff.mpr hf
  have := congrArg length hs
  rw [length_append] at this
  omega

end

namespace RowBuilder

def wrapLoop (targetWidth : ℕ) (rows : List (Row γ)) : List γ → RowBuilder γ
  | [] => ⟨targetWidth, [], rows⟩
  | g :: line =>
    let row := takePrefixByWidth targetWidth 0 (g :: line)
    if h : row.2.2 = 0 then wrapLoop targetWidth (rows ++ [⟨[g], false⟩]) line
    else if row.2.1.isEmpty then ⟨targetWidth, g :: line, rows⟩
    else wrapLoop targetWidth (rows ++ [⟨row.1, false⟩]) row.2.1
termination_by line => line.length
decreasing_by
  · simp
  · exact length_takePrefixByWidth_lt h

def wrapCurrentLine (b : RowBuilder γ) : RowBuilder γ :=
  wrapLoop b.targetWidth b.rows b.currentLine

/-- `flush_current_line` with an explicit break; an empty line is an empty row. -/
def flushCurrentLine (b : RowBuilder γ) : RowBuilder γ :=
  let b := wrapCurrentLine b
  { b with currentLine := [], rows := b.rows ++ [⟨b.currentLine, true⟩] }

/-- The loop over the fragment, where `pending` is what comes after the last line break -/
def pushLoop (b : RowBuilder γ) (pending : List γ) : List (Option γ) → RowBuilder γ
  | [] => if pending.isEmpty then b else wrapCurrentLine (b.pushStr pending)
  | none :: fragment => pushLoop (flushCurrentLine (b.pushStr pending)) [] fragment
  | some g :: fragment => pushLoop b (pending ++ [g]) fragment

def pushFragment (b : RowBuilder γ) (fragment : List (Option γ)) : RowBuilder γ :=
  pushLoop b [] fragment

/-- A wrapped line, and rows for a text -/
structure Shows (targetWidth : ℕ) (text : List (Option γ)) (b : RowBuilder γ) : Prop where
  target : b.targetWidth = targetWidth
  rows : ∀ row ∈ b.rows, row.Fits targetWidth
  line : width b.currentLine ≤ targetWidth
  content : b.rows.flatMap Row.content ++ b.currentLine.map some = text

section

variable {targetWidth : ℕ} {rows : List (Row γ)} {line pending : List γ} {b : RowBuilder γ}

theorem shows_wrapLoop (hr : ∀ row ∈ rows, row.Fits targetWidth) :
    Shows targetWidth (rows.flatMap Row.content ++ line.map some)
      (wrapLoop targetWidth rows line) := by
  fun_induction wrapLoop targetWidth rows line with
  | case1 rows => exact ⟨rfl, hr, Nat.zero_le _, rfl⟩
  | case2 rows g line row hz ih =>
    have hrow : Row.Fits targetWidth ⟨[g], false⟩ := by
      simpa [Row.Fits, width] using Nat.lt_or_ge _ _ |>.symm
    simpa [Row.content] using ih (by simpa [or_imp, forall_and] using ⟨hr, hrow⟩)
  | case3 rows g line row hz hsu =>
    obtain ⟨hs, -, hle⟩ := takePrefixByWidth_zero targetWidth (g :: line)
    rw [isEmpty_iff.mp hsu, append_nil] at hs
    rw [hs] at hle
    exact ⟨rfl, hr, hle, rfl⟩
  | case4 rows g line row hz hsu ih =>
    obtain ⟨hs, -, hle⟩ := takePrefixByWidth_zero targetWidth (g :: line)
    have hl : (g :: line).map some = row.1.map some ++ row.2.1.map some := by
      rw [← map_append, hs]
    rw [hl]
    simpa [Row.content] using ih (by simpa [or_imp, forall_and] using ⟨hr, .inl hle⟩)

namespace Shows

variable {text : List (Option γ)}

theorem wrap (h : Shows targetWidth text b) (more : List γ) :
    Shows targetWidth (text ++ more.map some) (wrapCurrentLine (b.pushStr more)) := by
  obtain ⟨rfl, hr, -, rfl⟩ := h
  simpa [pushStr, wrapCurrentLine] using @shows_wrapLoop _ _ _ _ (b.currentLine ++ more) hr

theorem fits (h : Shows targetWidth text b) (explicitBreak : Bool) :
    ∀ row ∈ b.rows ++ [⟨b.currentLine, explicitBreak⟩], row.Fits targetWidth := by
  simpa [or_imp, forall_and] using ⟨h.rows, .inl h.line⟩

theorem flush (h : Shows targetWidth text b) (more : List γ) :
    Shows targetWidth (text ++ more.map some ++ [none]) (flushCurrentLine (b.pushStr more)) := by
  have hw := h.wrap more
  refine ⟨hw.target, hw.fits true, Nat.zero_le _, ?_⟩
  simp [← hw.content, flushCurrentLine, Row.content]

theorem pushLoop (fragment : List (Option γ)) (pending : List γ) (h : Shows targetWidth text b) :
    Shows targetWidth (text ++ pending.map some ++ fragment)
      (RowBuilder.pushLoop b pending fragment) := by
  fun_induction RowBuilder.pushLoop b pending fragment generalizing text with
  | case1 b pending hp => simpa [isEmpty_iff.mp hp] using h
  | case2 b pending hp => simpa using h.wrap pending
  | case3 b pending fragment ih => simpa using ih (h.flush pending)
  | case4 b pending g fragment ih => simpa using ih h

theorem foldl (pieces : List (List (Option γ))) (h : Shows targetWidth text b) :
    Shows targetWidth (text ++ pieces.flatten) (pieces.foldl pushFragment b) := by
  induction pieces generalizing text b with
  | nil => simpa using h
  | cons piece pieces ih => simpa [pushFragment] using ih (h.pushLoop piece [])

theorem displayRows (h : Shows targetWidth text b) :
    b.displayRows.flatMap Row.content = text ∧ ∀ row ∈ b.displayRows, row.Fits targetWidth := by
  rw [RowBuilder.displayRows, ← h.content]
  split_ifs with hl
  · exact ⟨by simp [isEmpty_iff.mp hl], h.rows⟩
  · exact ⟨by simp [Row.content], h.fits false⟩

end Shows

/-! The same rows cluster by cluster: `advance` keeps the row that is begun as the current line, and
`settle` emits its clusters one by one if they have no width, as the loop does at its end. -/

def settle (b : RowBuilder γ) : RowBuilder γ :=
  if width b.currentLine = 0 then
    { b with currentLine := [], rows := b.rows ++ b.currentLine.map (⟨[·], false⟩) }
  else b

/-- The rows when the row that is begun is full -/
def closed (b : RowBuilder γ) : List (Row γ) :=
  if width b.currentLine = 0 then b.settle.rows else b.rows ++ [⟨b.currentLine, false⟩]

def put (b : RowBuilder γ) (g : γ) : RowBuilder γ :=
  if width b.currentLine = b.targetWidth ∨ b.targetWidth < width b.currentLine + displayWidth g then
    if b.targetWidth < displayWidth g then ⟨b.targetWidth, [], b.closed ++ [⟨[g], false⟩]⟩
    else ⟨b.targetWidth, [g], b.closed⟩
  else b.pushStr [g]

def advance (b : RowBuilder γ) : Option γ → RowBuilder γ
  | none => ⟨b.targetWidth, [], b.settle.rows ++ [⟨b.settle.currentLine, true⟩]⟩
  | some g => b.put g

/-- The line goes on with a cluster that fits into a row, behind clusters of width zero. -/
def joins (targetWidth : ℕ) : List (Option γ) → Bool
  | some g :: text =>
    if displayWidth g = 0 then joins targetWidth text else decide (displayWidth g ≤ targetWidth)
  | _ => false

/-- The current line is the row that is begun. -/
structure Begun (b : RowBuilder γ) : Prop where
  pos : 0 < b.targetWidth
  line : b.currentLine.foldl put ⟨b.targetWidth, [], b.rows⟩ = b

theorem width_append (text more : List γ) : width (text ++ more) = width text + width more := by
  simp [width]

@[simp] theorem width_nil : width ([] : List γ) = 0 := rfl

@[simp] theorem width_cons (g : γ) (text : List γ) : width
    (g :: text) = displayWidth g + width text :=
  rfl

theorem settle_of_width (h : width b.currentLine ≠ 0) : b.settle = b := if_neg h

theorem settle_settle (b : RowBuilder γ) : b.settle.settle = b.settle := by
  unfold settle
  split_ifs <;> simp_all

@[simp] theorem targetWidth_settle (b : RowBuilder γ) : b.settle.targetWidth = b.targetWidth := by
  unfold settle
  split_ifs <;> rfl

@[simp] theorem targetWidth_advance (b : RowBuilder γ) (symbol : Option γ) :
    (b.advance symbol).targetWidth = b.targetWidth := by
  cases symbol with
  | none => rfl
  | some g =>
    simp only [advance, put]
    split_ifs <;> rfl

@[simp] theorem targetWidth_foldl (b : RowBuilder γ) (text : List (Option γ)) :
    (text.foldl advance b).targetWidth = b.targetWidth := by
  induction text generalizing b with
  | nil => rfl
  | cons symbol text ih => simp [ih]

theorem begun_settle (h : Begun b) : Begun b.settle := by
  refine ⟨by simpa using h.pos, ?_⟩
  unfold settle
  split_ifs
  · rfl
  · exact h.line

theorem begun_advance (h : Begun b) (symbol : Option γ) : Begun (b.advance symbol) := by
  refine ⟨by simpa using h.pos, ?_⟩
  have hpos := h.pos
  cases symbol with
  | none => rfl
  | some g =>
    simp only [advance]
    rw [put]
    split_ifs with hfull hwide
    · rfl
    · simp [put, pushStr, hpos.ne, hwide]
    · simp only [pushStr, foldl_append, h.line]
      exact if_neg hfull

theorem begun_foldl (h : Begun b) (text : List (Option γ)) : Begun (text.foldl advance b) := by
  induction text generalizing b with
  | nil => exact h
  | cons symbol text ih => exact ih (begun_advance h symbol)

/-- Clusters without width that are emitted one by one may be emitted now or later, unless the row
goes on with a cluster that fits. -/
theorem foldl_advance_settle {front back : List (Option γ)} (hpos : 0 < b.targetWidth)
    (hline : width b.currentLine = 0) (hjoins : joins b.targetWidth (front ++ back) = false) :
    front.foldl advance b.settle = front.foldl advance b ∨
      (front.foldl advance b.settle).settle = (front.foldl advance b).settle ∧
        joins b.targetWidth back = false := by
  induction front generalizing b with
  | nil => exact .inr ⟨settle_settle b, hjoins⟩
  | cons symbol front ih =>
    have hset : b.settle =
        ⟨b.targetWidth, [], b.rows ++ b.currentLine.map (⟨[·], false⟩)⟩ := if_pos hline
    cases symbol with
    | none => simp [advance, settle_settle]
    | some g =>
      simp only [foldl_cons, advance]
      simp only [cons_append, joins] at hjoins
      split_ifs at hjoins with hzero
      · have hput : b.put g = b.pushStr [g] := by simp [put, hline, hzero, hpos.ne]
        have hput' : b.settle.put g = ⟨b.targetWidth, [g], b.settle.rows⟩ := by
          simp [put, hset, pushStr, hzero, hpos.ne]
        have hsame : (b.put g).settle = (b.settle.put g).settle := by
          rw [hput, hput', hset]
          simp [settle, pushStr, width_append, hline, hzero]
        have hw : width (b.put g).currentLine = 0 := by
          simp [hput, pushStr, width_append, hline, hzero]
        have hw' : width (b.settle.put g).currentLine = 0 := by simp [hput', hzero]
        have ht : (b.put g).targetWidth = b.targetWidth := targetWidth_advance b (some g)
        have ht' : (b.settle.put g).targetWidth = b.targetWidth := by simp [hput']
        have h₁ := ih (ht ▸ hpos) hw (ht ▸ hjoins)
        have h₂ := ih (ht' ▸ hpos) hw' (ht' ▸ hjoins)
        rw [ht, hsame] at h₁
        rw [ht'] at h₂
        grind
      · have hwide : b.targetWidth < displayWidth g := by simpa using hjoins
        left
        congr 1
        simp [put, closed, hline, hwide, settle]

theorem settle_foldl_settle {text : List (Option γ)} (hpos : 0 < b.targetWidth)
    (hline : width b.currentLine = 0) (hjoins : joins b.targetWidth text = false) :
    (text.foldl advance b.settle).settle = (text.foldl advance b).settle := by
  rw [← append_nil text] at hjoins
  rcases foldl_advance_settle hpos hline hjoins with h | h
  · rw [h]
  · exact h.1

/-- The row that is begun takes what `takePrefixByWidth` takes, and what comes next closes it. -/
theorem foldl_put (targetWidth : ℕ) (rows : List (Row γ)) (line begun : List γ) :
    let row := takePrefixByWidth targetWidth (width begun) line
    line.foldl put ⟨targetWidth, begun, rows⟩ =
        row.2.1.foldl put ⟨targetWidth, begun ++ row.1, rows⟩ ∧
      ∀ g ∈ row.2.1.head?, width (begun ++ row.1) = targetWidth ∨
        targetWidth < width (begun ++ row.1) + displayWidth g := by
  induction line generalizing begun with
  | nil => simp [takePrefixByWidth]
  | cons g line ih =>
    rw [takePrefixByWidth]
    split_ifs with hfull
    · simpa using hfull
    · have hput : put ⟨targetWidth, begun, rows⟩ g = ⟨targetWidth, begun ++ [g], rows⟩ :=
        if_neg hfull
      have := ih (begun ++ [g])
      simp only [width_append, width_cons, width_nil, append_assoc, Nat.add_zero] at this
      simpa [hput, Prod.map, width_append] using this

theorem joins_of_taken {line : List γ} (h : (takePrefixByWidth targetWidth 0 line).2.2 = 0)
    (hpos : 0 < targetWidth) : joins targetWidth (line.map some) = false := by
  induction line with
  | nil => rfl
  | cons g line ih =>
    simp only [takePrefixByWidth, hpos.ne, false_or, Nat.zero_add] at h
    simp only [map_cons, joins]
    by_cases hzero : displayWidth g = 0
    · simp only [hzero, Nat.not_lt_zero, if_false, if_true] at h ⊢
      exact ih h
    · simp only [hzero, if_false, decide_eq_false_iff_not]
      intro hle
      have hs := @takePrefixByWidth_spec _ _ targetWidth (displayWidth g) line hle
      rw [if_neg (by omega)] at h
      simp only [Prod.map, id] at h
      omega

theorem foldl_advance_map (line : List γ) (b : RowBuilder γ) :
    (line.map some).foldl advance b = line.foldl put b := by
  rw [foldl_map]
  rfl

theorem wrapLoop_eq (hpos : 0 < targetWidth) :
    wrapLoop targetWidth rows line = (line.foldl put ⟨targetWidth, [], rows⟩).settle := by
  fun_induction wrapLoop targetWidth rows line with
  | case1 rows => simp [settle]
  | case2 rows g line row hz ih =>
    rw [ih, foldl_cons]
    by_cases hwide : targetWidth < displayWidth g
    · simp [put, closed, settle, hwide]
    · -- a cluster of width zero, and the line has no cluster that fits
      have hjoins := joins_of_taken hz hpos
      simp only [map_cons, joins] at hjoins
      split_ifs at hjoins with hzero
      · have hput : put ⟨targetWidth, [], rows⟩ g = ⟨targetWidth, [g], rows⟩ := by
          simp [put, hpos.ne, hwide, pushStr]
        have hset : settle ⟨targetWidth, [g], rows⟩ = ⟨targetWidth, [], rows ++ [⟨[g], false⟩]⟩ := by
          simp [settle, hzero]
        have := settle_foldl_settle (b := ⟨targetWidth, [g], rows⟩) hpos (by simp [hzero]) hjoins
        rw [foldl_advance_map, foldl_advance_map, hset] at this
        rw [hput, this]
      · simp at hjoins
        omega
  | case3 rows g line row hz hsu =>
    obtain ⟨hput, -⟩ := foldl_put targetWidth rows (g :: line) []
    obtain ⟨hs, hw, -⟩ := takePrefixByWidth_zero targetWidth (g :: line)
    change _ = foldl put ⟨targetWidth, row.1, rows⟩ row.2.1 at hput
    rw [isEmpty_iff.mp hsu, append_nil] at hs
    rw [hput, isEmpty_iff.mp hsu, foldl_nil, settle_of_width (hw ▸ hz)]
    exact congrArg (RowBuilder.mk _ · _) hs.symm
  | case4 rows g line row hz hsu ih =>
    obtain ⟨hput, hnext⟩ := foldl_put targetWidth rows (g :: line) []
    obtain ⟨-, hw, -⟩ := takePrefixByWidth_zero targetWidth (g :: line)
    change _ = foldl put ⟨targetWidth, row.1, rows⟩ row.2.1 at hput
    change ∀ g ∈ row.2.1.head?, _ at hnext
    rw [ih, hput]
    obtain ⟨g', rest, hrest⟩ := exists_cons_of_ne_nil (by simpa using hsu)
    have hwidth : width row.1 ≠ 0 := hw ▸ hz
    have hfull := hnext g' (by simp [hrest])
    change width row.1 = targetWidth ∨ targetWidth < width row.1 + displayWidth g' at hfull
    have hclose : put ⟨targetWidth, row.1, rows⟩ g' =
        put ⟨targetWidth, [], rows ++ [⟨row.1, false⟩]⟩ g' := by
      rw [put, if_pos hfull, put]
      simp only [closed, hwidth, if_false, width_nil, Nat.zero_add, hpos.ne, false_or, if_true]
      split_ifs
      · simp [settle]
      · rfl
    rw [hrest, foldl_cons, foldl_cons, hclose]

theorem wrapCurrentLine_eq (h : Begun b) (more : List γ) :
    wrapCurrentLine (b.pushStr more) = (more.foldl put b).settle := by
  rw [wrapCurrentLine, pushStr, wrapLoop_eq h.pos, foldl_append, h.line]

theorem pushLoop_eq (h : Begun b) (hset : b.settle = b) (fragment : List (Option γ)) :
    pushLoop b pending fragment = (fragment.foldl advance (pending.foldl put b)).settle := by
  fun_induction pushLoop b pending fragment with
  | case1 b pending hp => simp [isEmpty_iff.mp hp, hset]
  | case2 b pending hp => exact wrapCurrentLine_eq h pending
  | case3 b pending fragment ih =>
    have hflush : flushCurrentLine (b.pushStr pending) = (pending.foldl put b).advance none := by
      have ht : (pending.foldl put b).targetWidth = b.targetWidth := by
        rw [← foldl_advance_map, targetWidth_foldl]
      simp [flushCurrentLine, wrapCurrentLine_eq h pending, advance]
    rw [ih (hflush ▸ begun_advance (foldl_advance_map pending b ▸ begun_foldl h _) none)
      (by simp [flushCurrentLine, settle]), hflush]
    rfl
  | case4 b pending g fragment ih =>
    rw [ih h hset, foldl_append]
    rfl

theorem pushFragment_eq (h : Begun b) (hset : b.settle = b) (fragment : List (Option γ)) :
    b.pushFragment fragment = (fragment.foldl advance b).settle :=
  pushLoop_eq h hset fragment

/-- The row after `rows` begins with `begun`, and is emitted or not. -/
def HasRow (rows : List (Row γ)) (begun : List γ) (b : RowBuilder γ) : Prop :=
  (∃ row, rows ++ [row] <+: b.rows ∧ begun <+: row.text) ∨ b.rows = rows ∧ begun <+: b.currentLine

theorem rows_settle (b : RowBuilder γ) : b.rows <+: b.settle.rows := by
  unfold settle
  split_ifs
  · exact prefix_append _ _
  · exact prefix_rfl

theorem rows_advance (b : RowBuilder γ) (symbol : Option γ) : b.rows <+:
    (b.advance symbol).rows := by
  have hclosed : b.rows <+: b.closed := by
    unfold closed
    split_ifs
    · exact rows_settle b
    · exact prefix_append _ _
  cases symbol with
  | none => exact (rows_settle b).trans (prefix_append _ _)
  | some g =>
    rw [advance, put]
    split_ifs
    · exact hclosed.trans (prefix_append _ _)
    · exact hclosed
    · exact prefix_rfl

theorem rows_foldl (b : RowBuilder γ) (text : List (Option γ)) :
    b.rows <+: (text.foldl advance b).rows := by
  induction text generalizing b with
  | nil => exact prefix_rfl
  | cons symbol text ih => exact (rows_advance b symbol).trans (ih _)

theorem width_ne_zero_of_le {begun : List γ} (hw : 0 < width begun) (h : begun <+: line) :
    width line ≠ 0 := by
  obtain ⟨rest, rfl⟩ := h
  rw [width_append]
  omega

theorem HasRow.advance {begun : List γ} (hw : 0 < width begun) (h : HasRow rows begun b)
    (symbol : Option γ) : HasRow rows begun (b.advance symbol) := by
  rcases h with ⟨row, hrow, hbegun⟩ | ⟨rfl, hbegun⟩
  · exact .inl ⟨row, hrow.trans (rows_advance b symbol), hbegun⟩
  · have hne := width_ne_zero_of_le hw hbegun
    cases symbol with
    | none =>
      rw [RowBuilder.advance, settle_of_width hne]
      exact .inl ⟨_, prefix_rfl, hbegun⟩
    | some g =>
      rw [RowBuilder.advance, put, closed, if_neg hne]
      split_ifs
      · exact .inl ⟨_, prefix_append _ _, hbegun⟩
      · exact .inl ⟨_, prefix_rfl, hbegun⟩
      · exact .inr ⟨rfl, hbegun.trans (prefix_append _ _)⟩

theorem HasRow.foldl {begun : List γ} (hw : 0 < width begun) (h : HasRow rows begun b)
    (text : List (Option γ)) : HasRow rows begun (text.foldl RowBuilder.advance b) := by
  induction text generalizing b with
  | nil => exact h
  | cons symbol text ih => exact ih (h.advance hw symbol)

omit [DisplayWidth γ] in
theorem rows_displayRows (b : RowBuilder γ) : b.rows <+: b.displayRows := by
  unfold displayRows
  split_ifs
  · exact prefix_rfl
  · exact prefix_append _ _

theorem HasRow.displayRows {begun : List γ} (hw : 0 < width begun) (h : HasRow rows begun b) :
    ∃ row, rows ++ [row] <+: b.settle.displayRows ∧ begun <+: row.text := by
  rcases h with ⟨row, hrow, hbegun⟩ | ⟨rfl, hbegun⟩
  · exact ⟨row, hrow.trans ((rows_settle b).trans (rows_displayRows _)), hbegun⟩
  · have hne := width_ne_zero_of_le hw hbegun
    refine ⟨⟨b.currentLine, false⟩, ?_, hbegun⟩
    have hline : b.currentLine.isEmpty = false := by
      cases hl : b.currentLine with
      | nil => exact absurd (by rw [hl]; rfl) hne
      | cons => rfl
    rw [settle_of_width hne, RowBuilder.displayRows, hline]
    exact prefix_rfl

/-- Pushed at once, a cluster without width shares its row with the cluster that fits. -/
theorem exists_row_of_joins {text : List (Option γ)} (hpos : 0 < b.targetWidth)
    (hline : width b.currentLine = 0) (hne : b.currentLine ≠ [])
    (hjoins : joins b.targetWidth text = true) :
    ∃ row, b.rows ++ [row] <+: (text.foldl advance b).settle.displayRows ∧ 2 ≤ row.text.length := by
  induction text generalizing b with
  | nil => cases hjoins
  | cons symbol text ih =>
    cases symbol with
    | none => cases hjoins
    | some g =>
      simp only [joins] at hjoins
      have hfit : displayWidth g ≤ b.targetWidth := by
        split_ifs at hjoins with hzero
        · omega
        · simpa using hjoins
      have hput : b.advance (some g) = b.pushStr [g] := by
        simp [advance, put, hline, hpos.ne, hfit]
      rw [foldl_cons, hput]
      split_ifs at hjoins with hzero
      · exact ih (b := b.pushStr [g]) hpos (by simp [pushStr, width_append, hline, hzero])
          (by simp [pushStr]) hjoins
      · have hw : 0 < width (b.currentLine ++ [g]) := by
          simp [width_append]
          omega
        have hbegun : HasRow b.rows (b.currentLine ++ [g]) (b.pushStr [g]) := .inr ⟨rfl, prefix_rfl⟩
        obtain ⟨row, hrow, hbegun⟩ := (hbegun.foldl hw text).displayRows hw
        refine ⟨row, hrow, ?_⟩
        have := hbegun.length_le
        have := length_pos_iff.mpr hne
        simp at *
        omega

/-- The columns of the row that is begun -/
def column (b : RowBuilder γ) : Option ℕ :=
  if b.currentLine.isEmpty then none else some (width b.currentLine)

theorem column_eq_zero_iff : b.column = some 0 ↔ b.currentLine ≠ [] ∧ width b.currentLine = 0 := by
  unfold column
  split_ifs with h <;> simp_all

theorem settle_of_column (h : b.column ≠ some 0) : b.settle = b := by
  unfold settle
  split_ifs with hw
  · have hnil : b.currentLine = [] := by simpa [column_eq_zero_iff, hw] using h
    cases b
    simp_all
  · rfl

theorem column_settle (b : RowBuilder γ) : b.settle.column ≠ some 0 := by
  rw [Ne, column_eq_zero_iff]
  unfold settle
  split_ifs with h <;> simp [h]

/-- Nothing that is pushed later changes the rows. -/
theorem rows_foldl_pushFragment (h : Begun b) (hset : b.settle = b)
    (pieces : List (List (Option γ))) : b.rows <+: (pieces.foldl pushFragment b).rows := by
  induction pieces generalizing b with
  | nil => exact prefix_rfl
  | cons piece pieces ih =>
    rw [foldl_cons, pushFragment_eq h hset]
    exact ((rows_foldl b piece).trans (rows_settle _)).trans
      (ih (begun_settle (begun_foldl h piece)) (settle_settle _))

/-- A cut inside of a row -/
def CutsRow (b : RowBuilder γ) (front back : List (List (Option γ))) : Prop :=
  (front.flatten.foldl advance b).column = some 0 ∧ joins b.targetWidth back.flatten = true

theorem displayRows_ne_of_cutsRow (h : Begun b) (hcolumn : b.column = some 0)
    {pieces : List (List (Option γ))} (hjoins : joins b.targetWidth pieces.flatten = true) :
    (pieces.foldl pushFragment b.settle).displayRows ≠
      (pieces.flatten.foldl advance b).settle.displayRows := by
  obtain ⟨hne, hline⟩ := column_eq_zero_iff.mp hcolumn
  obtain ⟨row, hrow, hlen⟩ := exists_row_of_joins h.pos hline hne hjoins
  obtain ⟨g, rest, hrest⟩ := exists_cons_of_ne_nil hne
  have hrows : b.rows ++ [⟨[g], false⟩] <+: b.settle.rows := by
    rw [settle, if_pos hline, hrest]
    simp
  intro heq
  have hfirst := hrows.trans ((rows_foldl_pushFragment (begun_settle h) (settle_settle b) pieces).trans
    (rows_displayRows _))
  rw [heq] at hfirst
  have hsame := (prefix_of_prefix_length_le hfirst hrow (by simp)).eq_of_length (by simp)
  have hrow' : row = ⟨[g], false⟩ := by simpa using hsame.symm
  simp [hrow'] at hlen

/-- Where no row is cut, what is pushed next does not see whether the row was settled. -/
theorem not_cutsRow_cases {pieces : List (List (Option γ))} (hcut : ¬b.CutsRow [] pieces) :
    b.settle = b ∨ width b.currentLine = 0 ∧ joins b.targetWidth pieces.flatten = false := by
  by_cases hcolumn : b.column = some 0
  · exact .inr ⟨(column_eq_zero_iff.mp hcolumn).2, by simpa [CutsRow, hcolumn] using hcut⟩
  · exact .inl (settle_of_column hcolumn)

theorem cutsRow_settle {front back : List (List (Option γ))} (hpos : 0 < b.targetWidth)
    (hcut : ¬b.CutsRow [] (front ++ back)) : b.settle.CutsRow front back ↔ b.CutsRow front back := by
  rcases not_cutsRow_cases hcut with hset | ⟨hline, hjoins⟩
  · rw [hset]
  · rw [flatten_append] at hjoins
    unfold CutsRow
    rw [targetWidth_settle]
    rcases foldl_advance_settle hpos hline hjoins with heq | ⟨-, hback⟩
    · rw [heq]
    · simp [hback]

theorem displayRows_foldl_iff (h : Begun b) (hset : b.settle = b)
    (pieces : List (List (Option γ))) :
    (pieces.foldl pushFragment b).displayRows = (b.pushFragment pieces.flatten).displayRows ↔
      ∀ front back, pieces = front ++ back → ¬b.CutsRow front back := by
  have hstart (back : List (List (Option γ))) : ¬b.CutsRow [] back := fun hcut ↦
    column_settle b (hset.symm ▸ hcut.1)
  induction pieces generalizing b with
  | nil => simpa [pushFragment, pushLoop] using hstart []
  | cons piece pieces ih =>
    have hb := begun_foldl h piece
    have hcuts : (∀ front back, piece :: pieces = front ++ back → ¬b.CutsRow front back) ↔
        ∀ front back, pieces = front ++ back → ¬(piece.foldl advance b).CutsRow front back := by
      constructor
      · intro hall front back heq hcut
        refine hall (piece :: front) back (by rw [heq, cons_append]) ⟨?_, ?_⟩
        · rw [flatten_cons, foldl_append]
          exact hcut.1
        · rw [← hcut.2, targetWidth_foldl]
      · intro hall front back heq hcut
        cases front with
        | nil => exact hstart _ hcut
        | cons first front =>
          obtain ⟨rfl, rfl⟩ := cons_eq_cons.mp heq
          refine hall front back rfl ⟨?_, ?_⟩
          · rw [← foldl_append, ← flatten_cons]
            exact hcut.1
          · rw [targetWidth_foldl]
            exact hcut.2
    rw [foldl_cons, pushFragment_eq h hset, pushFragment_eq h hset, flatten_cons, foldl_append, hcuts]
    generalize piece.foldl advance b = c at hb
    by_cases hcut : c.CutsRow [] pieces
    · refine iff_of_false (displayRows_ne_of_cutsRow hb hcut.1 hcut.2) fun hall ↦ ?_
      exact hall [] pieces rfl hcut
    · have hrun : (pieces.flatten.foldl advance c).settle = c.settle.pushFragment pieces.flatten := by
        rw [pushFragment_eq (begun_settle hb) (settle_settle c)]
        rcases not_cutsRow_cases hcut with hset | ⟨hline, hjoins⟩
        · rw [hset]
        · exact (settle_foldl_settle hb.pos hline hjoins).symm
      have hpieces := ih (begun_settle hb) (settle_settle c) fun _ hback ↦ column_settle c hback.1
      rw [hrun]
      refine hpieces.trans (forall₃_congr fun front back heq ↦ not_congr ?_)
      exact cutsRow_settle hb.pos (heq ▸ hcut)

end

end RowBuilder

open RowBuilder

/-- The rows displayed when the pieces of a text have been pushed -/
def displayed (targetWidth : ℕ) (pieces : List (List (Option γ))) : List (Row γ) :=
  (pieces.foldl pushFragment (new targetWidth)).displayRows

/-- The columns of the row that is begun, after one more symbol; `none` where no row is begun -/
def nextColumn (targetWidth : ℕ) (column : Option ℕ) : Option γ → Option ℕ
  | none => none
  | some g =>
    match column.filter fun cols ↦ cols ≠ targetWidth ∧ cols + displayWidth g ≤ targetWidth with
    | some cols => some (cols + displayWidth g)
    | none => if targetWidth < displayWidth g then none else some (displayWidth g)

theorem column_foldl (text : List (Option γ)) {b : RowBuilder γ} (hpos : 0 < b.targetWidth) :
    (text.foldl advance b).column = text.foldl (nextColumn b.targetWidth) b.column := by
  induction text generalizing b with
  | nil => rfl
  | cons symbol text ih =>
    rw [foldl_cons, ih (by simpa using hpos), targetWidth_advance, foldl_cons]
    congr 1
    cases symbol with
    | none => rfl
    | some g =>
      rw [advance, put]
      cases hline : b.currentLine with
      | nil =>
        simp only [width_nil, hpos.ne, false_or, Nat.zero_add]
        split_ifs with hwide <;> simp [column, nextColumn, hline, hwide, pushStr]
      | cons first rest =>
        simp only [← hline]
        have hcolumn : b.column = some (width b.currentLine) := by simp [column, hline]
        rw [nextColumn, hcolumn]
        by_cases hfull : width b.currentLine = b.targetWidth ∨
            b.targetWidth < width b.currentLine + displayWidth g
        · have hcols : ¬(width b.currentLine ≠ b.targetWidth ∧
              width b.currentLine + displayWidth g ≤ b.targetWidth) := by omega
          simp only [hfull, hcols, Option.filter_some, decide_false, Bool.false_eq_true, if_false,
            if_true]
          split_ifs <;> simp [column]
        · have hcols : width b.currentLine ≠ b.targetWidth ∧
              width b.currentLine + displayWidth g ≤ b.targetWidth := by omega
          rw [if_neg hfull]
          simp only [Option.filter_some, decide_eq_true hcols, if_true]
          simp [column, pushStr, width_append]

/-- The displayed rows with their breaks are the text, and each of them fits. The pieces do not
matter if and only if no cut has before it a row begun with clusters of width zero only, and after
it, on the same line, a next cluster with a width that fits. -/
theorem displayed_spec (targetWidth : ℕ) (pieces : List (List (Option γ))) :
    (displayed targetWidth pieces).flatMap Row.content = pieces.flatten ∧
      (∀ row ∈ displayed targetWidth pieces, row.Fits (max targetWidth 1)) ∧
      (displayed targetWidth pieces = displayed targetWidth [pieces.flatten] ↔
        ∀ front back, pieces = front ++ back →
          front.flatten.foldl (nextColumn (max targetWidth 1)) none = some 0 →
          joins (max targetWidth 1) back.flatten = false) := by
  have hnew : Shows (max targetWidth 1) [] (new targetWidth : RowBuilder γ) :=
    ⟨rfl, by simp [new], Nat.zero_le _, rfl⟩
  obtain ⟨htext, hfits⟩ := (hnew.foldl pieces).displayRows
  have hpos : 0 < (new targetWidth : RowBuilder γ).targetWidth := by simp [new]
  refine ⟨htext, hfits, (displayRows_foldl_iff ⟨hpos, rfl⟩ (by simp [settle, new]) pieces).trans ?_⟩
  refine forall₃_congr fun front back _ ↦ ?_
  rw [CutsRow, column_foldl _ hpos, not_and, Bool.not_eq_true]
  rfl

/-- U+200B is a cluster of width zero. -/
instance : DisplayWidth Char where
  displayWidth c := if c = '\u200b' then 0 else 1

theorem displayed_of_width_zero : displayed 80 [[some '\u200b'], [some 'a']] =
      [⟨['\u200b'], false⟩, ⟨['a'], false⟩] ∧
    displayed 80 [[some '\u200b', some 'a']] = [⟨['\u200b', 'a'], false⟩] := by
  decide +kernel

/-! ## Width changes and committed rows -/

namespace RowBuilder

def setWidth (b : RowBuilder γ) (width : ℕ) : RowBuilder γ :=
  pushFragment ⟨max width 1, [], []⟩ (b.rows.flatMap Row.content ++ b.currentLine.map some)

def commitCount (b : RowBuilder γ) (maxKeep : ℕ) : ℕ :=
  let displayCount := b.rows.length + if b.currentLine.isEmpty then 0 else 1
  if displayCount ≤ maxKeep then 0 else min (displayCount - maxKeep) b.rows.length

/-- The oldest rows, which are committed, and the builder without them -/
def drainCommitReady (b : RowBuilder γ) (maxKeep : ℕ) : List (Row γ) × RowBuilder γ :=
  (b.rows.take (b.commitCount maxKeep), { b with rows := b.rows.drop (b.commitCount maxKeep) })

def prependRows (front : List (Row γ)) (b : RowBuilder γ) : RowBuilder γ :=
  { b with rows := front ++ b.rows }

variable {targetWidth : ℕ} {rows front : List (Row γ)} {line pending : List γ} {b : RowBuilder γ}
  {text fragment : List (Option γ)}

theorem wrapLoop_prependRows : wrapLoop targetWidth (front ++ rows) line =
    prependRows front (wrapLoop targetWidth rows line) := by
  fun_induction wrapLoop targetWidth rows line with
  | case1 => simp [wrapLoop, prependRows]
  | case2 rows g line row hz ih =>
    rw [wrapLoop, dif_pos hz, append_assoc, ih]
  | case3 rows g line row hz hsu => rw [wrapLoop, dif_neg hz, if_pos hsu, prependRows]
  | case4 rows g line row hz hsu ih => rw [wrapLoop, dif_neg hz, if_neg hsu, append_assoc, ih]

theorem pushLoop_prependRows : pushLoop (prependRows front b) pending fragment =
    prependRows front (pushLoop b pending fragment) := by
  have hwrap (b : RowBuilder γ) (more : List γ) :
      wrapCurrentLine ((prependRows front b).pushStr more) =
        prependRows front (wrapCurrentLine (b.pushStr more)) := wrapLoop_prependRows
  fun_induction pushLoop b pending fragment with
  | case1 b pending hp => rw [pushLoop, if_pos hp]
  | case2 b pending hp => rw [pushLoop, if_neg hp, hwrap]
  | case3 b pending fragment ih =>
    rw [pushLoop, ← ih, flushCurrentLine, hwrap]
    simp [flushCurrentLine, prependRows]
  | case4 b pending g fragment ih => rw [pushLoop, ih]

theorem shows_setWidth (h : Shows targetWidth text b) (width : ℕ) :
    Shows (max width 1) text (b.setWidth width) := by
  have hnew : Shows (max width 1) [] (⟨max width 1, [], []⟩ : RowBuilder γ) :=
    ⟨rfl, nofun, Nat.zero_le _, rfl⟩
  have hpush := hnew.pushLoop (b.rows.flatMap Row.content ++ b.currentLine.map some) []
  rw [h.content] at hpush
  rw [setWidth, h.content]
  exact hpush

end RowBuilder

/-- What is done to a builder -/
inductive Command (γ : Type)
  | pushFragment (fragment : List (Option γ))
  | setWidth (width : ℕ)
  | drainCommitReady (maxKeep : ℕ)

def Command.text : Command γ → List (Option γ)
  | .pushFragment fragment => fragment
  | _ => []

/-- A command to the builder, with the rows that were committed before -/
def execute (s : List (Row γ) × RowBuilder γ) : Command γ → List (Row γ) × RowBuilder γ
  | .pushFragment fragment => (s.1, s.2.pushFragment fragment)
  | .setWidth width => (s.1, s.2.setWidth width)
  | .drainCommitReady maxKeep =>
    let (drained, b) := s.2.drainCommitReady maxKeep
    (s.1 ++ drained, b)

def session (targetWidth : ℕ) (commands : List (Command γ)) : List (Row γ) × RowBuilder γ :=
  commands.foldl execute ([], new targetWidth)

theorem exists_shows_session (targetWidth : ℕ) (commands : List (Command γ)) :
    ∃ w rest, Shows w rest (session targetWidth commands).2 ∧
      (session targetWidth commands).1.flatMap Row.content ++ rest =
        commands.flatMap Command.text := by
  induction commands using reverseRecOn with
  | nil => exact ⟨max targetWidth 1, [], ⟨rfl, nofun, Nat.zero_le _, rfl⟩, rfl⟩
  | append_singleton commands command ih =>
    obtain ⟨w, rest, h, htext⟩ := ih
    rw [session, foldl_append, ← session, flatMap_append, ← htext]
    cases command with
    | pushFragment fragment =>
      have hpush := h.pushLoop fragment []
      rw [map_nil, append_nil] at hpush
      exact ⟨w, _, hpush, by simp [execute, Command.text]⟩
    | setWidth width =>
      exact ⟨_, rest, shows_setWidth h width, by simp [execute, Command.text]⟩
    | drainCommitReady maxKeep =>
      refine ⟨w, _, ⟨h.target, fun row hrow ↦ h.rows row (mem_of_mem_drop hrow), h.line, rfl⟩, ?_⟩
      have hsplit := congrArg (flatMap Row.content) (take_append_drop
        ((session targetWidth commands).2.commitCount maxKeep) (session targetWidth commands).2.rows)
      rw [flatMap_append] at hsplit
      simp [execute, drainCommitReady, Command.text, ← h.content, ← hsplit]

/-- Through all width changes and drains, the committed rows and then the displayed ones hold the
text, and the displayed ones fit the present width. -/
theorem session_conserves_text (targetWidth : ℕ) (commands : List (Command γ)) :
    ((session targetWidth commands).1 ++ (session targetWidth commands).2.displayRows).flatMap
        Row.content = commands.flatMap Command.text ∧
      ∀ row ∈ (session targetWidth commands).2.displayRows,
        row.Fits (session targetWidth commands).2.targetWidth := by
  obtain ⟨w, rest, hshows, htext⟩ := exists_shows_session targetWidth commands
  obtain ⟨hcontent, hfits⟩ := hshows.displayRows
  rw [flatMap_append, hcontent, htext, hshows.target]
  exact ⟨rfl, hfits⟩

/-- Without width changes, draining does not change what there is to see. -/
theorem session_drains_unseen (targetWidth : ℕ) (commands : List (Command γ))
    (hpush : ∀ width, .setWidth width ∉ commands) :
    (session targetWidth commands).1 ++ (session targetWidth commands).2.displayRows =
      displayed targetWidth (commands.map Command.text) := by
  have hrows : prependRows (session targetWidth commands).1 (session targetWidth commands).2 =
      (commands.map Command.text).foldl RowBuilder.pushFragment (new targetWidth) := by
    induction commands using reverseRecOn with
    | nil => rfl
    | append_singleton commands command ih =>
      rw [map_append, foldl_append, ← ih fun w hw ↦ hpush w (mem_append_left _ hw), session,
        foldl_append, ← session]
      cases command with
      | pushFragment fragment => exact pushLoop_prependRows.symm
      | setWidth width => exact absurd (mem_append_right _ mem_cons_self) (hpush width)
      | drainCommitReady maxKeep =>
        simp [execute, drainCommitReady, prependRows, Command.text, RowBuilder.pushFragment, pushLoop]
  rw [displayed, ← hrows, RowBuilder.displayRows, RowBuilder.displayRows, prependRows]
  split <;> simp

theorem session_drains_unseen_keepsOne :
    (session 1 [.pushFragment [some 'a', some 'b'], .drainCommitReady 1]).1 ++
      (session 1 [.pushFragment [some 'a', some 'b'], .drainCommitReady 1]).2.displayRows =
        displayed 1 [[some 'a', some 'b'], []] :=
  session_drains_unseen 1 [.pushFragment [some 'a', some 'b'], .drainCommitReady 1] (by simp)

end Slopdex.Tui
