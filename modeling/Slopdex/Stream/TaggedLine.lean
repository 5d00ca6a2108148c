import Slopdex.Library.Lines
import Slopdex.Protocol.Types
import Slopdex.Stream.InlineHiddenTag

/-!
# Tags on lines of their own

The parser splits a streamed text into normal text and tag blocks. A line is buffered until it
cannot be a tag line any more; from then on its text goes out at once. Text segments of one call are
merged, so that what a text produces depends on the way it is cut only up to merging.
-/

namespace Slopdex.Stream

open Protocol (Text trimStart trimEnd)
open Library Library.Streaming List Lines

structure TagSpec (τ : Type) where
  (openTag closeTag : Text)
  tag : τ

inductive TaggedLineSegment (τ : Type)
  | normal (text : Text)
  | tagStart (tag : τ)
  | tagDelta (tag : τ) (text : Text)
  | tagEnd (tag : τ)

structure TaggedLineParser {τ : Type} (specs : List (TagSpec τ)) where
  activeTag : Option τ := none
  detectTag : Bool := true
  lineBuffer : Text := []

variable {τ : Type} [DecidableEq τ] {specs : List (TagSpec τ)}

def withoutNewline (line : Text) : Text :=
  if line.getLast? = some '\n' then line.dropLast else line

/-- Empty texts are dropped and a text joins a text of the same kind before it. -/
def pushSegment (segments : List (TaggedLineSegment τ)) (segment : TaggedLineSegment τ) :
    List (TaggedLineSegment τ) :=
  match segment with
  | .normal delta =>
    if delta = [] then segments
    else match segments.getLast? with
      | some (.normal existing) => segments.dropLast ++ [.normal (existing ++ delta)]
      | _ => segments ++ [.normal delta]
  | .tagDelta tag delta =>
    if delta = [] then segments
    else match segments.getLast? with
      | some (.tagDelta existingTag existing) =>
        if existingTag = tag then segments.dropLast ++ [.tagDelta existingTag (existing ++ delta)]
        else segments ++ [.tagDelta tag delta]
      | _ => segments ++ [.tagDelta tag delta]
  | .tagStart tag => segments ++ [.tagStart tag]
  | .tagEnd tag => segments ++ [.tagEnd tag]

namespace TaggedLineParser

def isTagPrefix (specs : List (TagSpec τ)) (slug : Text) : Bool :=
  specs.any fun spec ↦
    (trimEnd slug).isPrefixOf spec.openTag || (trimEnd slug).isPrefixOf spec.closeTag

def matchOpen (specs : List (TagSpec τ)) (slug : Text) : Option τ :=
  (specs.find? (·.openTag = slug)).map (·.tag)

def matchClose (specs : List (TagSpec τ)) (slug : Text) : Option τ :=
  (specs.find? (·.closeTag = slug)).map (·.tag)

def textSegment (activeTag : Option τ) (text : Text) : TaggedLineSegment τ :=
  match activeTag with
  | some tag => .tagDelta tag text
  | none => .normal text

variable (parser : TaggedLineParser specs)

def pushText (text : Text)
    (segments : List (TaggedLineSegment τ)) : List (TaggedLineSegment τ) :=
  pushSegment segments (textSegment parser.activeTag text)

def tagLine (specs : List (TagSpec τ)) (activeTag : Option τ) (line : Text) :
    Option (TaggedLineSegment τ × Option τ) :=
  let slug := trimEnd (trimStart (withoutNewline line))
  match matchOpen specs slug, activeTag with
  | some tag, none => some (.tagStart tag, some tag)
  | _, _ =>
    match matchClose specs slug with
    | some tag => if activeTag = some tag then some (.tagEnd tag, none) else none
    | none => none

def finishLine (segments : List (TaggedLineSegment τ)) :
    TaggedLineParser specs × List (TaggedLineSegment τ) :=
  match tagLine specs parser.activeTag parser.lineBuffer with
  | some (segment, activeTag) => (⟨activeTag, true, []⟩, pushSegment segments segment)
  | none => (⟨parser.activeTag, true, []⟩, parser.pushText parser.lineBuffer segments)

structure Loop (specs : List (TagSpec τ)) where
  parser : TaggedLineParser specs
  run : Text := []
  segments : List (TaggedLineSegment τ) := []

def flushRun (loop : Loop specs) : List (TaggedLineSegment τ) :=
  if loop.run = [] then loop.segments else loop.parser.pushText loop.run loop.segments

def parseChar (loop : Loop specs) (ch : Char) : Loop specs :=
  if loop.parser.detectTag then
    let segments := flushRun loop
    let parser := { loop.parser with lineBuffer := loop.parser.lineBuffer ++ [ch] }
    if ch = '\n' then
      let (finished, segments') := parser.finishLine segments
      ⟨finished, [], segments'⟩
    else if trimStart parser.lineBuffer = [] ∨ isTagPrefix specs (trimStart parser.lineBuffer) then
      ⟨parser, [], segments⟩
    else
      ⟨{ parser with detectTag := false, lineBuffer := [] }, [],
        parser.pushText parser.lineBuffer segments⟩
  else if ch = '\n' then
    ⟨{ loop.parser with detectTag := true }, [],
      loop.parser.pushText (loop.run ++ [ch]) loop.segments⟩
  else { loop with run := loop.run ++ [ch] }

def parse (delta : Text) :
    TaggedLineParser specs × List (TaggedLineSegment τ) :=
  let loop := delta.foldl parseChar { parser }
  (loop.parser, flushRun loop)

def finishBuffer : Option τ × List (TaggedLineSegment τ) :=
  if parser.lineBuffer = [] then (parser.activeTag, [])
  else match tagLine specs parser.activeTag parser.lineBuffer with
    | some (segment, activeTag) => (activeTag, pushSegment [] segment)
    | none => (parser.activeTag, parser.pushText parser.lineBuffer [])

/-- The end of the text closes an open block. -/
def finish :
    TaggedLineParser specs × List (TaggedLineSegment τ) :=
  let (activeTag, segments) := parser.finishBuffer
  ({}, match activeTag with
    | some tag => pushSegment segments (.tagEnd tag)
    | none => segments)

end TaggedLineParser

/-! ## Single characters -/

namespace TaggedLineSegment

def spread : TaggedLineSegment τ → List (TaggedLineSegment τ)
  | .normal text => text.map fun c ↦ .normal [c]
  | .tagDelta tag text => text.map fun c ↦ .tagDelta tag [c]
  | .tagStart tag => [.tagStart tag]
  | .tagEnd tag => [.tagEnd tag]

def Nonempty : TaggedLineSegment τ → Prop
  | .normal text | .tagDelta _ text => text ≠ []
  | .tagStart _ | .tagEnd _ => True

end TaggedLineSegment

open TaggedLineSegment (spread)

theorem pushSegment_cases (segs : List (TaggedLineSegment τ)) (segment : TaggedLineSegment τ) :
    pushSegment segs segment = segs ∧ spread segment = [] ∨
    (∃ existing joined, segs.getLast? = some existing ∧
      pushSegment segs segment = segs.dropLast ++ [joined] ∧
      spread joined = spread existing ++ spread segment ∧ joined.Nonempty) ∨
    pushSegment segs segment = segs ++ [segment] ∧ segment.Nonempty := by
  cases segment with
  | normal =>
    unfold pushSegment
    dsimp only
    split
    next he => exact .inl ⟨rfl, by rw [he]; rfl⟩
    next hne =>
      split
      next hl =>
        exact .inr (.inl ⟨_, _, hl, rfl, map_append, append_ne_nil_of_right_ne_nil _ hne⟩)
      next => exact .inr (.inr ⟨rfl, hne⟩)
  | tagDelta =>
    unfold pushSegment
    dsimp only
    split
    next he => exact .inl ⟨rfl, by rw [he]; rfl⟩
    next hne =>
      split
      next hl =>
        split
        next ht =>
          exact .inr (.inl ⟨_, _, hl, rfl, ht ▸ map_append,
            append_ne_nil_of_right_ne_nil _ hne⟩)
        next => exact .inr (.inr ⟨rfl, hne⟩)
      next => exact .inr (.inr ⟨rfl, hne⟩)
  | tagStart | tagEnd => exact .inr (.inr ⟨rfl, trivial⟩)

theorem flatMap_spread_pushSegment (segs : List (TaggedLineSegment τ))
    (segment : TaggedLineSegment τ) :
    (pushSegment segs segment).flatMap spread = segs.flatMap spread ++ spread segment := by
  rcases pushSegment_cases segs segment with
    ⟨heq, hn⟩ | ⟨existing, joined, hl, heq, hs, -⟩ | ⟨heq, -⟩
  · rw [heq, hn, append_nil]
  · rw [heq]
    conv_rhs => rw [← dropLast_append_getLast? existing hl]
    simp [hs]
  · simp [heq]

theorem nonempty_pushSegment {segs : List (TaggedLineSegment τ)}
    (h : ∀ segment ∈ segs, segment.Nonempty) (segment : TaggedLineSegment τ) :
    ∀ segment' ∈ pushSegment segs segment, segment'.Nonempty := by
  rcases pushSegment_cases segs segment with
    ⟨heq, -⟩ | ⟨-, joined, -, heq, -, hj⟩ | ⟨heq, hs⟩
  · rwa [heq]
  · rw [heq, forall_mem_append, forall_mem_singleton]
    exact ⟨fun segment' hm ↦ h segment' (mem_of_mem_dropLast hm), hj⟩
  · rw [heq, forall_mem_append, forall_mem_singleton]
    exact ⟨h, hs⟩

namespace TaggedLineParser

variable (loop : Loop specs)

def produced : List (TaggedLineSegment τ) :=
  loop.segments.flatMap spread ++ spread (textSegment loop.parser.activeTag loop.run)

omit [DecidableEq τ] in
theorem spread_textSegment_nil (activeTag : Option τ) : spread (textSegment activeTag []) = [] := by
  cases activeTag <;> rfl

omit [DecidableEq τ] in
theorem spread_textSegment_append (activeTag : Option τ) (text text' : Text) :
    spread (textSegment activeTag (text ++ text')) =
      spread (textSegment activeTag text) ++ spread (textSegment activeTag text') := by
  cases activeTag <;> exact map_append

variable (parser : TaggedLineParser specs)

theorem flatMap_spread_pushText (text : Text) (segs : List (TaggedLineSegment τ)) :
    (parser.pushText text segs).flatMap spread =
      segs.flatMap spread ++ spread (textSegment parser.activeTag text) :=
  flatMap_spread_pushSegment segs _

theorem flatMap_spread_flushRun : (flushRun loop).flatMap spread = produced loop := by
  unfold flushRun produced
  split
  next he => rw [he, spread_textSegment_nil, append_nil]
  next => exact flatMap_spread_pushText _ _ _

theorem finishLine_fst (segs segs' : List (TaggedLineSegment τ)) :
    (parser.finishLine segs).1 = (parser.finishLine segs').1 := by
  unfold finishLine
  split <;> rfl

theorem flatMap_spread_finishLine (segs : List (TaggedLineSegment τ)) :
    (parser.finishLine segs).2.flatMap spread =
      segs.flatMap spread ++ (parser.finishLine []).2.flatMap spread := by
  unfold finishLine
  split
  · rw [flatMap_spread_pushSegment, flatMap_spread_pushSegment]
    rfl
  · rw [flatMap_spread_pushText, flatMap_spread_pushText]
    rfl

theorem parseChar_step (ch : Char) :
    (parseChar loop ch).parser = (parseChar { parser := loop.parser } ch).parser ∧
      produced (parseChar loop ch) =
        produced loop ++ produced (parseChar { parser := loop.parser } ch) := by
  have hf := flatMap_spread_flushRun loop
  have he : flushRun ({ parser := loop.parser } : Loop specs) = [] := rfl
  unfold parseChar
  dsimp only
  rw [he]
  split
  next =>
    split
    next =>
      refine ⟨finishLine_fst _ _ _, ?_⟩
      simp only [produced, spread_textSegment_nil, append_nil]
      rw [flatMap_spread_finishLine, hf]
      rfl
    next =>
      split
      next =>
        refine ⟨rfl, ?_⟩
        simp only [produced, spread_textSegment_nil, append_nil, flatMap_nil]
        exact hf
      next =>
        refine ⟨rfl, ?_⟩
        simp only [produced, spread_textSegment_nil, append_nil, flatMap_spread_pushText]
        rw [hf]
        rfl
  next =>
    split
    next =>
      refine ⟨rfl, ?_⟩
      simp only [produced, spread_textSegment_nil, append_nil, flatMap_spread_pushText,
        flatMap_nil, nil_append, spread_textSegment_append, append_assoc]
    next =>
      refine ⟨rfl, ?_⟩
      simp only [produced, flatMap_nil, nil_append, spread_textSegment_append, append_assoc]

theorem foldl_parseChar (delta : Text) :
    (delta.foldl parseChar loop).parser = (delta.foldl parseChar { parser := loop.parser }).parser ∧
      produced (delta.foldl parseChar loop) =
        produced loop ++ produced (delta.foldl parseChar { parser := loop.parser }) := by
  induction delta generalizing loop with
  | nil =>
    refine ⟨rfl, ?_⟩
    simp [produced, spread_textSegment_nil]
  | cons ch _ ih =>
    obtain ⟨hp, hpr⟩ := parseChar_step loop ch
    obtain ⟨hr, hr'⟩ := ih (parseChar loop ch)
    obtain ⟨ha, ha'⟩ := ih (parseChar { parser := loop.parser } ch)
    rw [foldl_cons, foldl_cons]
    constructor
    · rw [hr, ha, hp]
    · rw [hr', ha', hpr, hp, append_assoc]

theorem parse_append (a b : Text) :
    (parser.parse (a ++ b)).1 = ((parser.parse a).1.parse b).1 ∧
      (parser.parse (a ++ b)).2.flatMap spread =
        (parser.parse a).2.flatMap spread ++ ((parser.parse a).1.parse b).2.flatMap spread := by
  simp only [parse, flatMap_spread_flushRun, foldl_append]
  exact foldl_parseChar (a.foldl parseChar { parser }) b

theorem nonempty_pushText {segs : List (TaggedLineSegment τ)}
    (h : ∀ segment ∈ segs, segment.Nonempty) (parser : TaggedLineParser specs) (text : Text) :
    ∀ segment ∈ parser.pushText text segs, segment.Nonempty :=
  nonempty_pushSegment h _

theorem nonempty_finishLine {segs : List (TaggedLineSegment τ)}
    (h : ∀ segment ∈ segs, segment.Nonempty) (parser : TaggedLineParser specs) :
    ∀ segment ∈ (parser.finishLine segs).2, segment.Nonempty := by
  unfold finishLine
  split
  · exact nonempty_pushSegment h _
  · exact nonempty_pushText h parser _

theorem nonempty_flushRun {loop : Loop specs} (h : ∀ segment ∈ loop.segments, segment.Nonempty) :
    ∀ segment ∈ flushRun loop, segment.Nonempty := by
  unfold flushRun
  split
  · exact h
  · exact nonempty_pushText h loop.parser _

theorem nonempty_parseChar {loop : Loop specs} (h : ∀ segment ∈ loop.segments, segment.Nonempty)
    (ch : Char) : ∀ segment ∈ (parseChar loop ch).segments, segment.Nonempty := by
  unfold parseChar
  dsimp only
  split
  · split
    · exact nonempty_finishLine (nonempty_flushRun h) _
    · split
      · exact nonempty_flushRun h
      · exact nonempty_pushText (nonempty_flushRun h) _ _
  · split
    · exact nonempty_pushText h loop.parser _
    · exact h

theorem nonempty_parse (delta : Text) : ∀ segment ∈ (parser.parse delta).2, segment.Nonempty := by
  apply nonempty_flushRun
  have hl (loop : Loop specs) (h : ∀ segment ∈ loop.segments, segment.Nonempty) :
      ∀ segment ∈ (delta.foldl parseChar loop).segments, segment.Nonempty := by
    induction delta generalizing loop with
    | nil => exact h
    | cons ch _ ih => exact ih (parseChar loop ch) (nonempty_parseChar h ch)
  exact hl { parser } nofun

theorem nonempty_finish : ∀ segment ∈ parser.finish.2, segment.Nonempty := by
  have hn : ∀ segment ∈ ([] : List (TaggedLineSegment τ)), segment.Nonempty :=
    nofun
  have hb : ∀ segment ∈ parser.finishBuffer.2, segment.Nonempty := by
    unfold finishBuffer
    split
    · exact hn
    · split
      · exact nonempty_pushSegment hn _
      · exact nonempty_pushText hn parser _
  unfold finish
  dsimp only
  split
  · exact nonempty_pushSegment hb _
  · exact hb

end TaggedLineParser

namespace TaggedLineParser

def collect (parser : TaggedLineParser specs) : List Text → List (TaggedLineSegment τ)
  | [] => parser.finish.2
  | chunk :: chunks => (parser.parse chunk).2 ++ collect (parser.parse chunk).1 chunks

def readLines (specs : List (TagSpec τ)) : Option τ → List Text → List (TaggedLineSegment τ)
  | activeTag, [] => (activeTag.map .tagEnd).toList
  | activeTag, line :: lines =>
    match tagLine specs activeTag line with
    | some (segment, after) => segment :: readLines specs after lines
    | none => textSegment activeTag line :: readLines specs activeTag lines

theorem flatMap_spread_collect (parser : TaggedLineParser specs) (chunks : List Text) :
    (parser.collect chunks).flatMap spread = (parser.collect [chunks.flatten]).flatMap spread := by
  induction chunks generalizing parser with
  | nil => rfl
  | cons chunk chunks ih =>
    obtain ⟨hp, hpa⟩ := parser.parse_append chunk chunks.flatten
    rw [collect, flatMap_append, ih, flatten_cons]
    simp only [collect, flatMap_append, hp, hpa, append_assoc]

theorem flatMap_spread_collect_cons (parser : TaggedLineParser specs) (ch : Char) (text : Text) :
    (parser.collect [ch :: text]).flatMap spread = produced (parseChar { parser } ch) ++
      ((parseChar { parser } ch).parser.collect [text]).flatMap spread := by
  obtain ⟨hp, hpa⟩ := parser.parse_append [ch] text
  rw [singleton_append] at hp hpa
  have hc : (parser.parse [ch]).2.flatMap spread = produced (parseChar { parser } ch) :=
    flatMap_spread_flushRun _
  simp only [collect, flatMap_append, hp, hpa, hc, append_assoc]
  rfl

omit [DecidableEq τ] in
theorem trimEnd_prefix_trimEnd_append (text rest : Text) :
    trimEnd text <+: trimEnd (text ++ rest) := by
  induction rest using reverseRecOn with
  | nil => rw [append_nil]
  | append_singleton _ _ ih =>
    rw [← append_assoc, trimEnd, trimEnd, rdropWhile_concat]
    split
    · exact ih
    · exact (List.rdropWhile_prefix _ _).trans ((prefix_append _ _).trans (prefix_append _ _))

theorem tagLine_eq_none {start : Text} (hb : trimStart start ≠ [])
    (hs : isTagPrefix specs (trimStart start) = false) (hli : '\n' ∉ start)
    (activeTag : Option τ) (rest : Text) : tagLine specs activeTag (start ++ rest) = none := by
  obtain ⟨rest', hr⟩ : ∃ rest', withoutNewline (start ++ rest) = start ++ rest' := by
    unfold withoutNewline
    split
    next hl =>
      cases rest using reverseRecOn with
      | nil =>
        rw [append_nil] at hl
        exact absurd (mem_of_getLast? hl) hli
      | append_singleton rest => exact ⟨rest, by simp [← append_assoc]⟩
    next => exact ⟨rest, rfl⟩
  have hsl : trimEnd (trimStart start) <+:
      trimEnd (trimStart (withoutNewline (start ++ rest))) := by
    rw [hr, trimStart, trimStart, dropWhile_append, if_neg (by simpa [trimStart] using hb)]
    exact trimEnd_prefix_trimEnd_append _ _
  simp only [isTagPrefix, any_eq_false, Bool.or_eq_true, isPrefixOf_iff_prefix, not_or] at hs
  have ho : matchOpen specs (trimEnd (trimStart (withoutNewline (start ++ rest)))) = none := by
    simp only [matchOpen, Option.map_eq_none_iff, find?_eq_none, decide_eq_true_eq]
    exact fun spec hsp heq ↦ (hs spec hsp).1 (heq ▸ hsl)
  have hc : matchClose specs (trimEnd (trimStart (withoutNewline (start ++ rest)))) = none := by
    simp only [matchClose, Option.map_eq_none_iff, find?_eq_none, decide_eq_true_eq]
    exact fun spec hsp heq ↦ (hs spec hsp).2 (heq ▸ hsl)
  simp only [tagLine, ho, hc]

theorem collect_held_and_emitted (specs : List (TagSpec τ)) (text : Text) :
    (∀ activeTag held, '\n' ∉ held →
      ((⟨activeTag, true, held⟩ : TaggedLineParser specs).collect [text]).flatMap spread =
        (readLines specs activeTag (splitInclusive '\n' (held ++ text))).flatMap spread) ∧
    ∀ activeTag emitted, '\n' ∉ emitted → emitted ≠ [] →
      (∀ rest, tagLine specs activeTag (emitted ++ rest) = none) →
      spread (textSegment activeTag emitted) ++
          ((⟨activeTag, false, []⟩ : TaggedLineParser specs).collect [text]).flatMap spread =
        (readLines specs activeTag (splitInclusive '\n' (emitted ++ text))).flatMap spread := by
  induction text with
  | nil =>
    constructor
    · intro activeTag held hhe
      rw [append_nil]
      by_cases hem : held = []
      · subst hem
        cases activeTag <;> rfl
      · rw [splitInclusive_of_not_mem hhe hem, readLines]
        change (⟨activeTag, true, held⟩ : TaggedLineParser specs).finish.2.flatMap spread = _
        simp only [finish, finishBuffer, if_neg hem]
        cases tagLine specs activeTag held with
        | some found =>
          obtain ⟨_, after⟩ := found
          cases after <;> simp [readLines, flatMap_spread_pushSegment]
        | none => cases activeTag <;> simp [readLines, flatMap_spread_pushSegment, pushText]
    · intro activeTag _ hl hne hn
      have ht := hn []
      rw [append_nil] at ht ⊢
      rw [splitInclusive_of_not_mem hl hne, readLines, ht]
      cases activeTag <;> rfl
  | cons ch _ ih =>
    obtain ⟨hh, he⟩ := ih
    constructor
    · intro activeTag held hhe
      rw [flatMap_spread_collect_cons]
      by_cases hch : ch = '\n'
      · subst hch
        rw [splitInclusive_terminated hhe, readLines]
        simp only [parseChar, flushRun, if_true, finishLine]
        cases tagLine specs activeTag (held ++ ['\n']) with
        | some found =>
          simpa [produced, spread_textSegment_nil, flatMap_spread_pushSegment] using
            hh found.2 [] not_mem_nil
        | none =>
          simpa [produced, spread_textSegment_nil, flatMap_spread_pushSegment, pushText] using
            hh activeTag [] not_mem_nil
      · have hl : '\n' ∉ held ++ [ch] := by simp [hhe, Ne.symm hch]
        rw [append_cons]
        simp only [parseChar, flushRun, if_true, if_neg hch]
        split
        next => simpa [produced, spread_textSegment_nil] using hh activeTag _ hl
        next hd =>
          rw [not_or, Bool.not_eq_true] at hd
          simpa [produced, spread_textSegment_nil, flatMap_spread_pushSegment, pushText] using
            he activeTag _ hl (by simp)
              (tagLine_eq_none hd.1 hd.2 hl activeTag)
    · intro activeTag emitted hl _ hn
      rw [flatMap_spread_collect_cons]
      by_cases hch : ch = '\n'
      · subst hch
        rw [splitInclusive_terminated hl, readLines, hn]
        have hr := hh activeTag [] not_mem_nil
        rw [nil_append] at hr
        rw [flatMap_cons, ← hr, spread_textSegment_append]
        simp [parseChar, produced, spread_textSegment_nil, flatMap_spread_pushSegment, pushText]
      · have hr := he activeTag (emitted ++ [ch]) (by simp [hl, Ne.symm hch])
          (by simp) fun rest ↦ by rw [append_assoc]; exact hn _
        rw [append_cons, ← hr, spread_textSegment_append]
        simp [parseChar, produced, hch]

variable (spec : TagSpec τ)

/-- The line, without the white space around it, is the delimiter that counts here. -/
def isTag (inside : Bool) (line : Text) : Bool :=
  trimEnd (trimStart (withoutNewline line)) == if inside then spec.closeTag else spec.openTag

def plainLines : Bool → List Text → List Text
  | _, [] => []
  | inside, line :: lines =>
    if isTag spec inside line then plainLines (!inside) lines else line :: plainLines inside lines

def blockAt (inside : Bool) : Option τ := if inside then some spec.tag else none

theorem tagLine_singleton (inside : Bool) (line : Text) :
    tagLine [spec] (blockAt spec inside) line =
      if isTag spec inside line then
        some (if inside then .tagEnd spec.tag else .tagStart spec.tag, blockAt spec (!inside))
      else none := by
  simp only [tagLine, matchOpen, matchClose, isTag]
  cases inside <;> simp [blockAt] <;> split_ifs <;> simp_all

end TaggedLineParser

namespace TaggedLineSegment

def text : TaggedLineSegment τ → Text
  | .normal text | .tagDelta _ text => text
  | .tagStart _ | .tagEnd _ => []

def isMark : TaggedLineSegment τ → Bool
  | .normal _ | .tagDelta _ _ => false
  | .tagStart _ | .tagEnd _ => true

omit [DecidableEq τ]

theorem flatMap_text_spread (segs : List (TaggedLineSegment τ)) :
    (segs.flatMap spread).flatMap text = segs.flatMap text := by
  rw [flatMap_assoc]
  congr 1
  funext segment
  cases segment <;> simp [spread, text, flatMap_map]

theorem filter_isMark_spread (segs : List (TaggedLineSegment τ)) :
    (segs.flatMap spread).filter isMark = segs.filter isMark := by
  induction segs with
  | nil => rfl
  | cons segment _ ih =>
    rw [flatMap_cons, filter_append, ih]
    cases segment <;> simp [spread, isMark, filter_cons]

end TaggedLineSegment

namespace TaggedLineParser

theorem readLines_singleton (spec : TagSpec τ) (inside : Bool) (lines : List Text) :
    (readLines [spec] (blockAt spec inside) lines).flatMap (·.text) =
        (plainLines spec inside lines).flatten ∧
      ∃ n, (readLines [spec] (blockAt spec inside) lines).filter (·.isMark) =
        (if inside then [.tagEnd spec.tag] else []) ++
          (replicate n [.tagStart spec.tag, .tagEnd spec.tag]).flatten := by
  induction lines generalizing inside with
  | nil => cases inside <;> exact ⟨rfl, 0, rfl⟩
  | cons line _ ih =>
    rw [readLines, tagLine_singleton, plainLines]
    cases isTag spec inside line with
    | true =>
      obtain ⟨htext, n, hmarks⟩ := ih (!inside)
      cases inside with
      | false => exact ⟨htext, n + 1, congrArg (TaggedLineSegment.tagStart spec.tag :: ·) hmarks⟩
      | true => exact ⟨htext, n, congrArg (TaggedLineSegment.tagEnd spec.tag :: ·) hmarks⟩
    | false =>
      obtain ⟨htext, n, hmarks⟩ := ih inside
      cases inside with
      | false | true => exact ⟨congrArg (line ++ ·) htext, n, hmarks⟩

/-- However a text is cut, what the parser makes of it is the text read line by line: the texts are
the lines that are no tag lines, and the marks are pairs of a start and an end. -/
theorem collect_conserves_lines (spec : TagSpec τ) (chunks : List Text) :
    (collect ({} : TaggedLineParser [spec]) chunks).flatMap spread =
        (readLines [spec] none (splitInclusive '\n' chunks.flatten)).flatMap spread ∧
      (collect ({} : TaggedLineParser [spec]) chunks).flatMap (·.text) =
        (plainLines spec false (splitInclusive '\n' chunks.flatten)).flatten ∧
      (∃ n, (collect ({} : TaggedLineParser [spec]) chunks).filter (·.isMark) =
        (replicate n [.tagStart spec.tag, .tagEnd spec.tag]).flatten) ∧
      ∀ inside line,
        (tagLine [spec] (blockAt spec inside) line).isSome = isTag spec inside line := by
  have hread : (collect ({} : TaggedLineParser [spec]) chunks).flatMap spread =
      (readLines [spec] none (splitInclusive '\n' chunks.flatten)).flatMap spread := by
    rw [flatMap_spread_collect]
    exact (collect_held_and_emitted [spec] chunks.flatten).1 none [] not_mem_nil
  obtain ⟨htext, n, hmarks⟩ :=
    readLines_singleton spec false (splitInclusive '\n' chunks.flatten)
  refine ⟨hread, ?_, ⟨n, ?_⟩, ?_⟩
  · rw [← TaggedLineSegment.flatMap_text_spread, hread, TaggedLineSegment.flatMap_text_spread]
    exact htext
  · rw [← TaggedLineSegment.filter_isMark_spread, hread, TaggedLineSegment.filter_isMark_spread]
    exact hmarks
  · intro inside line
    rw [tagLine_singleton]
    cases isTag spec inside line <;> rfl

end TaggedLineParser

end Slopdex.Stream
