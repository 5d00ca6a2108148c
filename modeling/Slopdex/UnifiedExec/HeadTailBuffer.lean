import Mathlib.Data.List.Induction

/-!
# The head-tail buffer of a command's output

The buffer keeps the first half of its capacity and the newest bytes of the rest. What it holds is a
summary of all bytes that came in, and appending a buffer appends the bytes that it summarises.
-/

namespace Slopdex.UnifiedExec

open List

abbrev Bytes := List UInt8

structure HeadTailBuffer (maxBytes : ℕ) where
  head : Bytes
  tail : Bytes
  omittedBytes : ℕ

namespace HeadTailBuffer

def headBudget (maxBytes : ℕ) : ℕ := maxBytes / 2

def tailBudget (maxBytes : ℕ) : ℕ := maxBytes - headBudget maxBytes

variable {maxBytes : ℕ} (buffer : HeadTailBuffer maxBytes)

def fillHead (chunk : Bytes) : HeadTailBuffer maxBytes × Bytes :=
  let remainingHead := headBudget maxBytes - buffer.head.length
  ({ buffer with head := buffer.head ++ chunk.take remainingHead }, chunk.drop remainingHead)

def pushTail (chunk : Bytes) : HeadTailBuffer maxBytes :=
  let remainingTail := tailBudget maxBytes - buffer.tail.length
  let excessTail := chunk.length - remainingTail
  { buffer with
    tail := if excessTail < buffer.tail.length then buffer.tail.drop excessTail ++ chunk
      else chunk.drop (excessTail - buffer.tail.length)
    omittedBytes := buffer.omittedBytes + excessTail }

def pushChunk (chunk : Bytes) : HeadTailBuffer maxBytes :=
  let (buffer, chunk) := buffer.fillHead chunk
  buffer.pushTail chunk

def pushHead (head : Bytes) : HeadTailBuffer maxBytes × Bytes :=
  if buffer.head.isEmpty then ({ buffer with head }, []) else buffer.fillHead head

/-- The tail of an appended buffer; `first` is the length of the first of its two slices. -/
def pushOverflow (overflow tail : Bytes) (first : ℕ) : HeadTailBuffer maxBytes :=
  if tail.length = tailBudget maxBytes then
    { buffer with
      tail
      omittedBytes := buffer.omittedBytes + buffer.tail.length + overflow.length }
  else
    let buffer := buffer.pushTail overflow
    if buffer.tail.isEmpty then { buffer with tail }
    else (buffer.pushTail (tail.take first)).pushTail (tail.drop first)

def pushBuffer (other : HeadTailBuffer maxBytes) (first : ℕ) : HeadTailBuffer maxBytes :=
  let buffer := { buffer with omittedBytes := buffer.omittedBytes + other.omittedBytes }
  let (buffer, overflow) := buffer.pushHead other.head
  buffer.pushOverflow overflow other.tail first

def collect (maxBytes : ℕ) (chunks : List Bytes) : HeadTailBuffer maxBytes :=
  chunks.foldl pushChunk ⟨[], [], 0⟩

/-- A head with the newest bytes of the rest and the number of those before them -/
def summarized (head rest : Bytes) : HeadTailBuffer maxBytes :=
  let omittedBytes := rest.length - tailBudget maxBytes
  ⟨head, rest.drop omittedBytes, omittedBytes⟩

def summary (maxBytes : ℕ) (bytes : Bytes) : HeadTailBuffer maxBytes :=
  summarized (bytes.take (headBudget maxBytes)) (bytes.drop (headBudget maxBytes))

theorem pushTail_mk (head tail chunk : Bytes) (omittedBytes : ℕ) :
    let excessTail := chunk.length - (tailBudget maxBytes - tail.length)
    pushTail ⟨head, tail, omittedBytes⟩ chunk =
      (⟨head, (tail ++ chunk).drop excessTail, omittedBytes + excessTail⟩ :
        HeadTailBuffer maxBytes) := by
  unfold pushTail
  dsimp only
  split_ifs with he
  · rw [drop_append_of_le_length (Nat.le_of_lt he)]
  · rw [drop_append, drop_eq_nil_of_le (Nat.not_lt.mp he), nil_append]

theorem pushTail_summarized (head rest chunk : Bytes) :
    (summarized head rest : HeadTailBuffer maxBytes).pushTail chunk =
      summarized head (rest ++ chunk) := by
  have ho : rest.length - tailBudget maxBytes + (chunk.length -
      (tailBudget maxBytes - (rest.drop (rest.length - tailBudget maxBytes)).length)) =
      (rest ++ chunk).length - tailBudget maxBytes := by
    rw [length_drop, length_append]
    omega
  unfold summarized
  rw [pushTail_mk, ho, ← drop_append_of_le_length (Nat.sub_le ..), drop_drop, ho]

variable {buffer}

theorem fillHead_eq {bytes : Bytes} (h : buffer.head = bytes.take (headBudget maxBytes))
    (chunk : Bytes) : buffer.fillHead chunk =
      ({ buffer with head := (bytes ++ chunk).take (headBudget maxBytes) },
        chunk.drop (headBudget maxBytes - bytes.length)) := by
  have hr : headBudget maxBytes - buffer.head.length = headBudget maxBytes - bytes.length := by
    rw [h, length_take]
    omega
  rw [fillHead, hr, h, take_append]

theorem pushChunk_summary (bytes chunk : Bytes) :
    (summary maxBytes bytes).pushChunk chunk = summary maxBytes (bytes ++ chunk) := by
  calc (summary maxBytes bytes).pushChunk chunk
      = (summarized ((bytes ++ chunk).take (headBudget maxBytes))
          (bytes.drop (headBudget maxBytes))).pushTail
          (chunk.drop (headBudget maxBytes - bytes.length)) := by
        rw [pushChunk, fillHead_eq rfl]
        rfl
    _ = summary maxBytes (bytes ++ chunk) := by
        rw [pushTail_summarized, ← drop_append, summary]

/-- The part of an appended head that does not fit comes before the rest of the appended bytes. -/
theorem exists_overflow {bytes : Bytes} (h : buffer.head = bytes.take (headBudget maxBytes))
    (other : Bytes) : ∃ overflow, buffer.pushHead (other.take (headBudget maxBytes)) =
        ({ buffer with head := (bytes ++ other).take (headBudget maxBytes) }, overflow) ∧
      bytes.drop (headBudget maxBytes) ++ overflow ++ other.drop (headBudget maxBytes) =
        (bytes ++ other).drop (headBudget maxBytes) := by
  unfold pushHead
  split_ifs with hemp
  · -- Either nothing has come in yet, or there is no room for a head at all.
    refine ⟨[], ?_⟩
    rcases take_eq_nil_iff.mp (h.symm.trans (isEmpty_iff.mp hemp)) with hz | rfl
    · simp [hz]
    · simp
  · refine ⟨(other.take (headBudget maxBytes)).drop (headBudget maxBytes - bytes.length), ?_, ?_⟩
    · rw [fillHead_eq h, take_append, take_take, Nat.min_eq_left (Nat.sub_le ..), take_append]
    · rw [append_assoc, drop_append]
      congr 1
      conv_rhs => rw [← take_append_drop (headBudget maxBytes) other]
      by_cases hlen : headBudget maxBytes ≤ other.length
      · rw [drop_append_of_le_length (by rw [length_take]; omega)]
      · rw [drop_eq_nil_of_le (Nat.le_of_not_le hlen), append_nil, append_nil]

theorem pushOverflow_summarized (head rest overflow tail : Bytes) (first : ℕ) :
    pushOverflow ⟨head, rest.drop (rest.length - tailBudget maxBytes),
        rest.length - tailBudget maxBytes + (tail.length - tailBudget maxBytes)⟩ overflow
      (tail.drop (tail.length - tailBudget maxBytes)) first =
      (summarized head (rest ++ overflow ++ tail) : HeadTailBuffer maxBytes) := by
  unfold pushOverflow
  split_ifs with hf
  · have ho : (rest ++ overflow ++ tail).length - tailBudget maxBytes =
        (rest ++ overflow).length + (tail.length - tailBudget maxBytes) := by
      rw [length_drop] at hf
      rw [length_append]
      omega
    unfold summarized
    dsimp only
    rw [ho, ← drop_drop, drop_left, length_append, length_drop]
    congr 1
    omega
  · have hs : tail.length - tailBudget maxBytes = 0 ∧ tailBudget maxBytes ≠ 0 := by
      rw [length_drop] at hf
      omega
    rw [hs.1, drop_zero, Nat.add_zero, ← summarized, pushTail_summarized]
    dsimp only
    split_ifs with hn
    · have hlen : (rest ++ overflow).length = 0 := by
        have := congrArg length (isEmpty_iff.mp hn)
        simp only [summarized, length_drop, length_nil] at this
        omega
      rw [length_eq_zero_iff.mp hlen]
      simp [summarized, hs.1]
    · rw [pushTail_summarized, pushTail_summarized, append_assoc, take_append_drop]

/-- The buffer is the summary of its bytes, and appending a buffer appends the bytes that it was
built from. -/
theorem collect_summarizes (maxBytes : ℕ) (chunks others : List Bytes) (first : ℕ) :
    collect maxBytes chunks = summary maxBytes chunks.flatten ∧
      (collect maxBytes chunks).pushBuffer (collect maxBytes others) first =
        collect maxBytes (chunks ++ others) := by
  have hcoll (chunks : List Bytes) : collect maxBytes chunks = summary maxBytes chunks.flatten := by
    induction chunks using reverseRecOn with
    | nil => simp [collect, summary, summarized]
    | append_singleton chunks chunk ih =>
      rw [collect, foldl_append, ← collect, ih, foldl_cons, foldl_nil, pushChunk_summary,
        flatten_concat]
  refine ⟨hcoll chunks, ?_⟩
  rw [hcoll, hcoll, hcoll, flatten_append]
  unfold pushBuffer
  obtain ⟨overflow, hhead, hrest⟩ := @exists_overflow maxBytes { summary _ chunks.flatten with
    omittedBytes := (summary maxBytes chunks.flatten).omittedBytes +
      (summary maxBytes others.flatten).omittedBytes } _ rfl others.flatten
  dsimp only [summary, summarized] at hhead ⊢
  rw [hhead, pushOverflow_summarized, hrest, summarized]

end HeadTailBuffer

end Slopdex.UnifiedExec
