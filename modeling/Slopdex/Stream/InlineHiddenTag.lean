import Slopdex.Library.Search
import Slopdex.Library.Streaming
import Slopdex.Protocol.Types

/-!
# Hidden tags inside a line

The parser hides the configured tags of a streamed text and extracts their contents. What may be the
beginning of a delimiter is held back until the next chunk decides it. Matching is literal, tags do
not nest, and the end of the text closes an open tag. Positions count characters and not bytes.
-/

namespace Slopdex.Stream

open Protocol (Text)
open Library Library.Search Library.Streaming List

/-- What one chunk, or the end of the text, produces. -/
@[ext]
structure StreamTextChunk (α : Type) where
  visibleText : Text := []
  extracted : List α := []

namespace StreamTextChunk

variable {α : Type}

/-- What is produced one after the other. -/
instance : Monoid (StreamTextChunk α) where
  one := {}
  mul chunk chunk' :=
    ⟨chunk.visibleText ++ chunk'.visibleText, chunk.extracted ++ chunk'.extracted⟩
  one_mul _ := rfl
  mul_one chunk := StreamTextChunk.ext (append_nil _) (append_nil _)
  mul_assoc _ _ _ := StreamTextChunk.ext (append_assoc _ _ _) (append_assoc _ _ _)

@[simp] theorem one_visibleText : (1 : StreamTextChunk α).visibleText = [] := rfl

@[simp] theorem one_extracted : (1 : StreamTextChunk α).extracted = [] := rfl

@[simp] theorem mul_visibleText (chunk chunk' : StreamTextChunk α) :
    (chunk * chunk').visibleText = chunk.visibleText ++ chunk'.visibleText := rfl

@[simp] theorem mul_extracted (chunk chunk' : StreamTextChunk α) :
    (chunk * chunk').extracted = chunk.extracted ++ chunk'.extracted := rfl

end StreamTextChunk

structure ExtractedInlineTag (τ : Type) where
  tag : τ
  content : Text

/-- A literal tag; both delimiters are checked not to be empty. -/
structure InlineTagSpec (τ : Type) where
  tag : τ
  (openTag closeTag : Text)
  openTag_ne_nil : openTag ≠ []
  closeTag_ne_nil : closeTag ≠ []

structure ActiveTag (τ : Type) where
  tag : τ
  (closeTag content : Text)
  closeTag_ne_nil : closeTag ≠ []

def ActiveTag.pushContent {τ : Type} (active : ActiveTag τ) (text : Text) : ActiveTag τ :=
  { active with content := active.content ++ text }

structure InlineHiddenTagParser {τ : Type} (specs : List (InlineTagSpec τ)) where
  pending : Text := []
  active : Option (ActiveTag τ) := none

/-- `Iterator::min_by` for an order without ties. -/
def minBy {α : Type} (precedes : α → α → Bool) : List α → Option α
  | [] => none
  | a :: rest =>
    match minBy precedes rest with
    | none => some a
    | some b => if precedes b a then some b else some a

theorem mem_of_minBy {α : Type} {precedes : α → α → Bool} {l : List α} {a : α}
    (h : minBy precedes l = some a) : a ∈ l := by
  induction l with
  | nil => cases h
  | cons b _ ih =>
    rw [minBy] at h
    split at h
    next =>
      cases h
      exact mem_cons_self
    next hc =>
      split at h <;> cases h
      · exact mem_cons_of_mem b (ih hc)
      · exact mem_cons_self

variable {τ : Type} {specs : List (InlineTagSpec τ)} {spec : InlineTagSpec τ}

def longestSuffixPrefixLen (s needle : Text) : ℕ := overlap needle s

/-- The first opener, at the same position the longest one, and then the first in the list. -/
def findNextOpen (specs : List (InlineTagSpec τ)) (pending : Text) :
    Option (ℕ × InlineTagSpec τ) :=
  (minBy (fun (a b : ℕ × InlineTagSpec τ × ℕ) ↦ a.1 < b.1 || (a.1 == b.1 &&
      (b.2.1.openTag.length < a.2.1.openTag.length ||
        (a.2.1.openTag.length == b.2.1.openTag.length && a.2.2 < b.2.2))))
    (specs.zipIdx.filterMap fun (spec, idx) ↦
      (find spec.openTag pending).map fun pos ↦ (pos, spec, idx))).map fun found ↦
        (found.1, found.2.1)

theorem find_of_findNextOpen {pending : Text} {openIdx : ℕ}
    (h : findNextOpen specs pending = some (openIdx, spec)) :
    find spec.openTag pending = some openIdx := by
  obtain ⟨_, hf, heq⟩ := Option.map_eq_some_iff.mp h
  obtain ⟨⟨_, _⟩, -, hc⟩ := mem_filterMap.mp (mem_of_minBy hf)
  obtain ⟨_, hp, rfl⟩ := Option.map_eq_some_iff.mp hc
  cases heq
  exact hp

def maxOpenPrefixSuffixLen (specs : List (InlineTagSpec τ)) (pending : Text) : ℕ :=
  (specs.map fun spec ↦ longestSuffixPrefixLen pending spec.openTag).foldl max 0

namespace InlineHiddenTagParser

/-- The loop of `push_str`: it goes on behind every delimiter and stops when none is left. -/
def pushLoop (parser : InlineHiddenTagParser specs) :
    InlineHiddenTagParser specs × StreamTextChunk (ExtractedInlineTag τ) :=
  match parser.active with
  | some active =>
    match _hclose : find active.closeTag parser.pending with
    | some closeIdx =>
      let (after, out) := pushLoop ⟨parser.pending.drop (closeIdx + active.closeTag.length), none⟩
      (after, ⟨[], [⟨active.tag, active.content ++ parser.pending.take closeIdx⟩]⟩ * out)
    | none =>
      let take := parser.pending.length - longestSuffixPrefixLen parser.pending active.closeTag
      (⟨parser.pending.drop take, some (active.pushContent (parser.pending.take take))⟩, 1)
  | none =>
    match _hopen : findNextOpen specs parser.pending with
    | some (openIdx, spec) =>
      let (after, out) := pushLoop
        ⟨parser.pending.drop (openIdx + spec.openTag.length),
          some ⟨spec.tag, spec.closeTag, [], spec.closeTag_ne_nil⟩⟩
      (after, ⟨parser.pending.take openIdx, []⟩ * out)
    | none =>
      let take := parser.pending.length - maxOpenPrefixSuffixLen specs parser.pending
      (⟨parser.pending.drop take, none⟩, ⟨parser.pending.take take, []⟩)
termination_by parser.pending.length
decreasing_by
  · exact length_drop_lt_of_find active.closeTag_ne_nil _hclose
  · exact length_drop_lt_of_find spec.openTag_ne_nil (find_of_findNextOpen _hopen)

def pushStr (parser : InlineHiddenTagParser specs) (chunk : Text) :
    InlineHiddenTagParser specs × StreamTextChunk (ExtractedInlineTag τ) :=
  pushLoop { parser with pending := parser.pending ++ chunk }

def finish (parser : InlineHiddenTagParser specs) :
    InlineHiddenTagParser specs × StreamTextChunk (ExtractedInlineTag τ) :=
  match parser.active with
  | some active => (⟨[], none⟩, ⟨[], [⟨active.tag, active.content ++ parser.pending⟩]⟩)
  | none => (⟨[], none⟩, ⟨parser.pending, []⟩)

theorem findNextOpen_singleton (spec : InlineTagSpec τ) (pending : Text) :
    findNextOpen [spec] pending = (find spec.openTag pending).map fun pos ↦ (pos, spec) := by
  cases h : find spec.openTag pending <;> simp [findNextOpen, minBy, h]

theorem maxOpenPrefixSuffixLen_singleton (spec : InlineTagSpec τ) (pending : Text) :
    maxOpenPrefixSuffixLen [spec] pending = overlap spec.openTag pending :=
  Nat.zero_max _

section Single

variable {pending : Text} {active : ActiveTag τ}

theorem pushLoop_close {closeIdx : ℕ} (h : find active.closeTag pending = some closeIdx) :
    pushLoop (⟨pending, some active⟩ : InlineHiddenTagParser [spec]) =
      let (after, out) := pushLoop
        (⟨pending.drop (closeIdx + active.closeTag.length), none⟩ : InlineHiddenTagParser [spec])
      (after, ⟨[], [⟨active.tag, active.content ++ pending.take closeIdx⟩]⟩ * out) := by
  rw [pushLoop]
  dsimp only
  split
  next hf =>
    rw [h, Option.some.injEq] at hf
    rw [hf]
  next hn =>
    rw [h] at hn
    cases hn

theorem pushLoop_content (h : find active.closeTag pending = none) :
    pushLoop (⟨pending, some active⟩ : InlineHiddenTagParser [spec]) =
      (⟨kept active.closeTag pending,
        some (active.pushContent (settled active.closeTag pending))⟩, 1) := by
  rw [pushLoop]
  dsimp only
  split
  next hf =>
    rw [h] at hf
    cases hf
  next => rfl

theorem pushLoop_open {openIdx : ℕ} (h : find spec.openTag pending = some openIdx) :
    pushLoop (⟨pending, none⟩ : InlineHiddenTagParser [spec]) =
      let (after, out) := pushLoop (⟨pending.drop (openIdx + spec.openTag.length),
        some ⟨spec.tag, spec.closeTag, [], spec.closeTag_ne_nil⟩⟩ : InlineHiddenTagParser [spec])
      (after, ⟨pending.take openIdx, []⟩ * out) := by
  have hn := findNextOpen_singleton spec pending
  rw [h] at hn
  rw [pushLoop]
  dsimp only
  split
  next hf =>
    rw [hn] at hf
    cases hf
    rfl
  next hno =>
    rw [hn] at hno
    cases hno

theorem pushLoop_text (h : find spec.openTag pending = none) :
    pushLoop (⟨pending, none⟩ : InlineHiddenTagParser [spec]) =
      (⟨kept spec.openTag pending, none⟩, ⟨settled spec.openTag pending, []⟩) := by
  have hn := findNextOpen_singleton spec pending
  rw [h] at hn
  rw [pushLoop]
  dsimp only
  split
  next hf =>
    rw [hn] at hf
    cases hf
  next =>
    rw [maxOpenPrefixSuffixLen_singleton]
    rfl

theorem pushLoop_append_content (h : find active.closeTag pending = none) (rest : Text) :
    pushLoop (⟨pending ++ rest, some active⟩ : InlineHiddenTagParser [spec]) =
      pushLoop ⟨kept active.closeTag pending ++ rest,
        some (active.pushContent (settled active.closeTag pending))⟩ := by
  have hs : pending ++ rest =
      settled active.closeTag pending ++ (kept active.closeTag pending ++ rest) := by
    rw [← append_assoc, settled_append_kept]
  have hf := find_kept_append h rest
  cases hl : find active.closeTag (kept active.closeTag pending ++ rest) with
  | some closeIdx =>
    have ha : find (active.pushContent (settled active.closeTag pending)).closeTag
        (kept active.closeTag pending ++ rest) = some closeIdx := hl
    rw [hl] at hf
    rw [pushLoop_close hf, pushLoop_close ha, hs, take_length_add_append,
      Nat.add_assoc, drop_length_add_append, ← append_assoc]
    rfl
  | none =>
    have ha : find (active.pushContent (settled active.closeTag pending)).closeTag
        (kept active.closeTag pending ++ rest) = none := hl
    rw [hl] at hf
    rw [pushLoop_content hf, pushLoop_content ha, kept_append h, settled_append h,
      ActiveTag.pushContent, ← append_assoc]
    rfl

theorem pushLoop_append_text (h : find spec.openTag pending = none) (rest : Text) :
    pushLoop (⟨pending ++ rest, none⟩ : InlineHiddenTagParser [spec]) =
      let (after, out) := pushLoop
        (⟨kept spec.openTag pending ++ rest, none⟩ : InlineHiddenTagParser [spec])
      (after, ⟨settled spec.openTag pending, []⟩ * out) := by
  have hs : pending ++ rest =
      settled spec.openTag pending ++ (kept spec.openTag pending ++ rest) := by
    rw [← append_assoc, settled_append_kept]
  have hf := find_kept_append h rest
  cases hl : find spec.openTag (kept spec.openTag pending ++ rest) with
  | some =>
    rw [hl] at hf
    rw [pushLoop_open hf, pushLoop_open hl, hs, take_length_add_append,
      Nat.add_assoc, drop_length_add_append]
    dsimp only
    rw [← mul_assoc]
    rfl
  | none =>
    rw [hl] at hf
    rw [pushLoop_text hf, pushLoop_text hl, kept_append h, settled_append h]
    rfl

theorem pushLoop_append (parser : InlineHiddenTagParser [spec]) (rest : Text) :
    pushLoop { parser with pending := parser.pending ++ rest } =
      (((pushLoop parser).1.pushStr rest).1,
        (pushLoop parser).2 * ((pushLoop parser).1.pushStr rest).2) := by
  -- The induction is on the delimiters that are complete before the rest comes.
  induction hlen : parser.pending.length using Nat.strong_induction_on generalizing parser with
  | _ length ih =>
    obtain ⟨pending, active⟩ := parser
    subst hlen
    cases active with
    | some active =>
      cases hc : find active.closeTag pending with
      | some closeIdx =>
        have hl := ih _ (length_drop_lt_of_find active.closeTag_ne_nil hc)
          ⟨pending.drop (closeIdx + active.closeTag.length), none⟩ rfl
        have hle := add_length_le_of_find hc
        rw [pushLoop_close hc, pushLoop_close (find_append_of_some rest hc),
          drop_append_of_le_length hle, take_append_of_le_length (by omega)]
        rw [hl, mul_assoc]
      | none =>
        rw [pushLoop_content hc, pushLoop_append_content hc]
        rfl
    | none =>
      cases ho : find spec.openTag pending with
      | some openIdx =>
        have hl := ih _ (length_drop_lt_of_find spec.openTag_ne_nil ho)
          ⟨pending.drop (openIdx + spec.openTag.length),
            some ⟨spec.tag, spec.closeTag, [], spec.closeTag_ne_nil⟩⟩ rfl
        have hle := add_length_le_of_find ho
        rw [pushLoop_open ho, pushLoop_open (find_append_of_some rest ho),
          drop_append_of_le_length hle, take_append_of_le_length (by omega)]
        rw [hl, mul_assoc]
      | none =>
        rw [pushLoop_text ho, pushLoop_append_text ho]
        rfl

def transducer (spec : InlineTagSpec τ) : Transducer (InlineHiddenTagParser [spec]) Char
    (StreamTextChunk (ExtractedInlineTag τ)) := ⟨pushStr⟩

theorem transducer_additive (spec : InlineTagSpec τ) :
    (transducer spec).Additive (MonoidHom.id _) := by
  have ha (parser : InlineHiddenTagParser [spec]) (a b : Text) :
      parser.pushStr (a ++ b) = (((parser.pushStr a).1.pushStr b).1,
        (parser.pushStr a).2 * ((parser.pushStr a).1.pushStr b).2) := by
    rw [pushStr, ← append_assoc]
    exact pushLoop_append { parser with pending := parser.pending ++ a } b
  constructor <;> intro parser a b
  · simp only [transducer, ha]
  · simp only [transducer, ha, MonoidHom.id_apply]

end Single

end InlineHiddenTagParser

end Slopdex.Stream
