import Slopdex.Stream.TaggedLine

/-!
# Assistant text in chunks

Citations are taken out of the text first; in plan mode, what is left goes through the parser of
plan blocks. Both parsers are additive, the second one up to the merging of text segments, and so is
their composition: the way a text is cut into chunks does not change the result.
-/

namespace Slopdex.Stream

open Protocol (Text)
open Library.Streaming StreamTextChunk List TaggedLineParser

inductive CitationTag
  | citation

def citationOpen : Text := "<oai-mem-citation>".toList
def citationClose : Text := "</oai-mem-citation>".toList

def citationSpec : InlineTagSpec CitationTag where
  tag := .citation
  openTag := citationOpen
  closeTag := citationClose
  openTag_ne_nil := by decide
  closeTag_ne_nil := by decide

abbrev CitationStreamParser := InlineHiddenTagParser [citationSpec]

namespace CitationStreamParser

def contents (chunk : StreamTextChunk (ExtractedInlineTag CitationTag)) : StreamTextChunk Text :=
  ⟨chunk.visibleText, chunk.extracted.map (·.content)⟩

def pushStr (parser : CitationStreamParser) (chunk : Text) :
    CitationStreamParser × StreamTextChunk Text :=
  let (after, out) := InlineHiddenTagParser.pushStr parser chunk
  (after, contents out)

def finish (parser : CitationStreamParser) : CitationStreamParser × StreamTextChunk Text :=
  let (after, out) := InlineHiddenTagParser.finish parser
  (after, contents out)

end CitationStreamParser

inductive PlanTag
  | proposedPlan
  deriving DecidableEq

def planSpec : TagSpec PlanTag where
  openTag := "<proposed_plan>".toList
  closeTag := "</proposed_plan>".toList
  tag := .proposedPlan

inductive ProposedPlanSegment
  | normal (text : Text)
  | proposedPlanStart
  | proposedPlanDelta (text : Text)
  | proposedPlanEnd
  deriving DecidableEq

abbrev ProposedPlanParser := TaggedLineParser [planSpec]

namespace ProposedPlanParser

def mapSegment : TaggedLineSegment PlanTag → ProposedPlanSegment
  | .normal text => .normal text
  | .tagStart .proposedPlan => .proposedPlanStart
  | .tagDelta .proposedPlan text => .proposedPlanDelta text
  | .tagEnd .proposedPlan => .proposedPlanEnd

def normalText : ProposedPlanSegment → Text
  | .normal text => text
  | _ => []

def mapSegments (segments : List (TaggedLineSegment PlanTag)) :
    StreamTextChunk ProposedPlanSegment :=
  ⟨(segments.map mapSegment).flatMap normalText, segments.map mapSegment⟩

def pushStr (parser : ProposedPlanParser) (chunk : Text) :
    ProposedPlanParser × StreamTextChunk ProposedPlanSegment :=
  let (after, segments) := parser.parse chunk
  (after, mapSegments segments)

def finish (parser : ProposedPlanParser) :
    ProposedPlanParser × StreamTextChunk ProposedPlanSegment :=
  let (after, segments) := TaggedLineParser.finish parser
  (after, mapSegments segments)

end ProposedPlanParser

@[ext]
structure AssistantTextChunk where
  visibleText : Text := []
  citations : List Text := []
  planSegments : List ProposedPlanSegment := []
  deriving DecidableEq

structure AssistantTextStreamParser where
  planMode : Bool
  citations : CitationStreamParser := {}
  plan : ProposedPlanParser := {}

namespace AssistantTextStreamParser

def new (planMode : Bool) : AssistantTextStreamParser := { planMode }

variable (parser : AssistantTextStreamParser)

def parseVisibleText (visibleText : Text) :
    AssistantTextStreamParser × AssistantTextChunk :=
  if !parser.planMode then (parser, { visibleText })
  else
    let (plan, planChunk) := parser.plan.pushStr visibleText
    ({ parser with plan },
      { visibleText := planChunk.visibleText, planSegments := planChunk.extracted })

def pushStr (chunk : Text) :
    AssistantTextStreamParser × AssistantTextChunk :=
  let (citations, citationChunk) := parser.citations.pushStr chunk
  let (after, out) := { parser with citations }.parseVisibleText citationChunk.visibleText
  (after, { out with citations := citationChunk.extracted })

def finishPlan :
    ProposedPlanParser × StreamTextChunk ProposedPlanSegment :=
  if parser.planMode then parser.plan.finish else (parser.plan, {})

def finish : AssistantTextStreamParser × AssistantTextChunk :=
  let (citations, citationChunk) := parser.citations.finish
  let (after, out) := { parser with citations }.parseVisibleText citationChunk.visibleText
  let (plan, tail) := after.finishPlan
  ({ after with plan },
    ⟨out.visibleText ++ tail.visibleText, citationChunk.extracted,
      out.planSegments ++ tail.extracted⟩)

end AssistantTextStreamParser

namespace AssistantTextChunk

instance : Monoid AssistantTextChunk where
  one := {}
  mul chunk chunk' := ⟨chunk.visibleText ++ chunk'.visibleText,
    chunk.citations ++ chunk'.citations, chunk.planSegments ++ chunk'.planSegments⟩
  one_mul _ := rfl
  mul_one _ := AssistantTextChunk.ext (append_nil _) (append_nil _) (append_nil _)
  mul_assoc _ _ _ := AssistantTextChunk.ext (append_assoc _ _ _) (append_assoc _ _ _)
    (append_assoc _ _ _)

end AssistantTextChunk

namespace AssistantTextStreamParser

def transducer : Transducer AssistantTextStreamParser Char AssistantTextChunk := ⟨pushStr⟩

/-- Push the chunks one after the other, finish, and put everything together. -/
def collect (planMode : Bool) (chunks : List Text) : AssistantTextChunk :=
  let (parser, out) := transducer.pushAll (new planMode) chunks
  out * parser.finish.2

end AssistantTextStreamParser

namespace ProposedPlanSegment

def mergeCons : ProposedPlanSegment → List ProposedPlanSegment → List ProposedPlanSegment
  | .normal text, .normal next :: rest => .normal (text ++ next) :: rest
  | .proposedPlanDelta text, .proposedPlanDelta next :: rest =>
    .proposedPlanDelta (text ++ next) :: rest
  | segment, rest => segment :: rest

def merge (segments : List ProposedPlanSegment) : List ProposedPlanSegment :=
  segments.foldr mergeCons []

def spread : ProposedPlanSegment → List ProposedPlanSegment
  | .normal text => text.map fun c ↦ .normal [c]
  | .proposedPlanDelta text => text.map fun c ↦ .proposedPlanDelta [c]
  | .proposedPlanStart => [.proposedPlanStart]
  | .proposedPlanEnd => [.proposedPlanEnd]

def Nonempty : ProposedPlanSegment → Prop
  | .normal text | .proposedPlanDelta text => text ≠ []
  | .proposedPlanStart | .proposedPlanEnd => True

theorem foldr_mergeCons_map (kind : Text → ProposedPlanSegment)
    (hs : ∀ text next rest, mergeCons (kind text) (kind next :: rest) =
      kind (text ++ next) :: rest)
    (ho : ∀ rest, (∃ next rest', rest = kind next :: rest') ∨
      ∀ text, mergeCons (kind text) rest = kind text :: rest)
    {text : Text} (hte : text ≠ []) (rest : List ProposedPlanSegment) :
    (text.map fun c ↦ kind [c]).foldr mergeCons rest = mergeCons (kind text) rest := by
  induction text with
  | nil => exact absurd rfl hte
  | cons c tail ih =>
    by_cases ht : tail = []
    · rw [ht]
      rfl
    · rw [map_cons, foldr_cons, ih ht]
      rcases ho rest with ⟨_, _, rfl⟩ | hc
      · rw [hs, hs, hs]
        rfl
      · rw [hc, hc, hs]
        rfl

theorem foldr_mergeCons_spread {segment : ProposedPlanSegment} (h : segment.Nonempty)
    (rest : List ProposedPlanSegment) :
    segment.spread.foldr mergeCons rest = mergeCons segment rest := by
  cases segment with
  | normal =>
    refine foldr_mergeCons_map .normal (fun _ _ _ ↦ rfl) ?_ h rest
    intro rest
    match rest with
    | .normal next :: rest' => exact .inl ⟨next, rest', rfl⟩
    | [] | .proposedPlanStart :: _ | .proposedPlanDelta _ :: _ | .proposedPlanEnd :: _ =>
      exact .inr fun _ ↦ rfl
  | proposedPlanDelta =>
    refine foldr_mergeCons_map .proposedPlanDelta (fun _ _ _ ↦ rfl) ?_ h rest
    intro rest
    match rest with
    | .proposedPlanDelta next :: rest' => exact .inl ⟨next, rest', rfl⟩
    | [] | .proposedPlanStart :: _ | .normal _ :: _ | .proposedPlanEnd :: _ =>
      exact .inr fun _ ↦ rfl
  | proposedPlanStart | proposedPlanEnd => rfl

theorem merge_eq_foldr_spread {segs : List ProposedPlanSegment}
    (h : ∀ segment ∈ segs, segment.Nonempty) :
    merge segs = (segs.flatMap spread).foldr mergeCons [] := by
  induction segs with
  | nil => rfl
  | cons segment rest ih =>
    have hr := ih fun other ho ↦ h other (mem_cons_of_mem segment ho)
    calc merge (segment :: rest) = mergeCons segment (merge rest) := rfl
      _ = segment.spread.foldr mergeCons ((rest.flatMap spread).foldr mergeCons []) := by
        rw [hr, foldr_mergeCons_spread (h segment mem_cons_self)]
      _ = ((segment :: rest).flatMap spread).foldr mergeCons [] := by
        rw [flatMap_cons, foldr_append]

end ProposedPlanSegment

/-! ## Chunks -/

namespace ProposedPlanParser

open ProposedPlanSegment (spread)

theorem spread_mapSegment (segment : TaggedLineSegment PlanTag) :
    spread (mapSegment segment) = segment.spread.map mapSegment := by
  cases segment with
  | normal => simp [mapSegment, spread, TaggedLineSegment.spread]
  | tagDelta tag =>
    cases tag
    simp [mapSegment, spread, TaggedLineSegment.spread]
  | tagStart tag | tagEnd tag =>
    cases tag
    rfl

theorem flatMap_spread_mapSegments (segs : List (TaggedLineSegment PlanTag)) :
    (mapSegments segs).extracted.flatMap spread =
      (segs.flatMap TaggedLineSegment.spread).map mapSegment := by
  rw [mapSegments, flatMap_map, map_flatMap]
  simp only [spread_mapSegment]

theorem flatMap_normalText_spread (segs : List ProposedPlanSegment) :
    (segs.flatMap spread).flatMap normalText = segs.flatMap normalText := by
  have hs (segment : ProposedPlanSegment) :
      segment.spread.flatMap normalText = normalText segment := by
    cases segment <;> simp [spread, normalText, flatMap_map]
  rw [flatMap_assoc]
  simp only [hs]

theorem mapSegments_visibleText (segs : List (TaggedLineSegment PlanTag)) :
    (mapSegments segs).visibleText =
      ((segs.flatMap TaggedLineSegment.spread).map mapSegment).flatMap normalText := by
  rw [← flatMap_spread_mapSegments, flatMap_normalText_spread]
  rfl

theorem pushStr_append (parser : ProposedPlanParser) (a b : Text) :
    (pushStr parser (a ++ b)).1 = (pushStr (pushStr parser a).1 b).1 ∧
    (pushStr parser (a ++ b)).2.visibleText =
      (pushStr parser a).2.visibleText ++ (pushStr (pushStr parser a).1 b).2.visibleText ∧
    (pushStr parser (a ++ b)).2.extracted.flatMap spread =
      (pushStr parser a).2.extracted.flatMap spread ++
        (pushStr (pushStr parser a).1 b).2.extracted.flatMap spread := by
  obtain ⟨hs, ho⟩ := parse_append parser a b
  refine ⟨hs, ?_, ?_⟩
  · simp only [pushStr, mapSegments_visibleText, ho, map_append, flatMap_append]
  · simp only [pushStr, flatMap_spread_mapSegments, ho, map_append]

end ProposedPlanParser

namespace CitationStreamParser

theorem pushStr_append (parser : CitationStreamParser) (a b : Text) :
    pushStr parser (a ++ b) = ((pushStr (pushStr parser a).1 b).1,
      (pushStr parser a).2 * (pushStr (pushStr parser a).1 b).2) := by
  have ha := InlineHiddenTagParser.transducer_additive citationSpec
  apply Prod.ext
  · exact ha.state parser a b
  · have ho : (InlineHiddenTagParser.pushStr parser (a ++ b)).2 =
        (InlineHiddenTagParser.pushStr parser a).2 *
          (InlineHiddenTagParser.pushStr (InlineHiddenTagParser.pushStr parser a).1 b).2 :=
      ha.output parser a b
    simp only [pushStr, ho, contents, mul_visibleText, mul_extracted, map_append]
    rfl

end CitationStreamParser

namespace AssistantTextStreamParser

/-- The plan is looked at character by character. -/
def view : AssistantTextChunk →* AssistantTextChunk where
  toFun chunk := { chunk with planSegments := chunk.planSegments.flatMap ProposedPlanSegment.spread }
  map_one' := rfl
  map_mul' _ _ := AssistantTextChunk.ext rfl rfl flatMap_append

variable (parser : AssistantTextStreamParser)

theorem parseVisibleText_append (a b : Text) : (parser.parseVisibleText (a ++ b)).1 =
        ((parser.parseVisibleText a).1.parseVisibleText b).1 ∧
      view (parser.parseVisibleText (a ++ b)).2 = view (parser.parseVisibleText a).2 *
        view ((parser.parseVisibleText a).1.parseVisibleText b).2 := by
  obtain ⟨planMode, citations, plan⟩ := parser
  cases planMode with
  | false => exact ⟨rfl, rfl⟩
  | true =>
    obtain ⟨hs, hv, hp⟩ := ProposedPlanParser.pushStr_append plan a b
    constructor
    · exact congrArg (AssistantTextStreamParser.mk true citations) hs
    · exact AssistantTextChunk.ext hv rfl hp

theorem parseVisibleText_citations (citations : CitationStreamParser) (text : Text) :
    { parser with citations }.parseVisibleText text =
      ({ (parser.parseVisibleText text).1 with citations }, (parser.parseVisibleText text).2) := by
  obtain ⟨planMode, _, _⟩ := parser
  cases planMode <;> rfl

theorem view_citations (chunk : AssistantTextChunk) (citations : List Text) :
    view { chunk with citations } = { view chunk with citations } := rfl

theorem transducer_additive : transducer.Additive view := by
  constructor <;> intro parser a b <;> have hc := parser.citations.pushStr_append a b
  · have hv := (parser.parseVisibleText_append (parser.citations.pushStr a).2.visibleText
      ((parser.citations.pushStr a).1.pushStr b).2.visibleText).1
    simp only [transducer, pushStr, hc, parseVisibleText_citations, mul_visibleText, hv]
  · have hv := (parser.parseVisibleText_append (parser.citations.pushStr a).2.visibleText
      ((parser.citations.pushStr a).1.pushStr b).2.visibleText).2
    simp only [transducer, pushStr, hc, parseVisibleText_citations,
      mul_visibleText, mul_extracted, view_citations, hv]
    rfl

theorem push_new_nil (planMode : Bool) : transducer.push (new planMode) [] = (new planMode, 1) := by
  have hi : InlineHiddenTagParser.pushStr ({} : CitationStreamParser) [] = ({}, 1) :=
    InlineHiddenTagParser.pushLoop_text rfl
  have hc : CitationStreamParser.pushStr {} [] = ({}, 1) := by
    rw [CitationStreamParser.pushStr, hi]
    rfl
  cases planMode <;> simp only [transducer, pushStr, new, hc] <;> rfl

theorem nonempty_mapSegments {segs : List (TaggedLineSegment PlanTag)}
    (h : ∀ segment ∈ segs, segment.Nonempty) :
    ∀ segment ∈ (ProposedPlanParser.mapSegments segs).extracted, segment.Nonempty := by
  intro _ hm
  obtain ⟨source, hs, rfl⟩ := mem_map.mp hm
  have hne := h source hs
  cases source with
  | normal => exact hne
  | tagDelta tag =>
    cases tag
    exact hne
  | tagStart tag | tagEnd tag =>
    cases tag
    trivial

theorem nonempty_parseVisibleText (text : Text) :
    ∀ segment ∈ (parser.parseVisibleText text).2.planSegments, segment.Nonempty := by
  unfold parseVisibleText
  split
  · exact nofun
  · exact nonempty_mapSegments (nonempty_parse _ _)

theorem nonempty_finishPlan : ∀ segment ∈ parser.finishPlan.2.extracted, segment.Nonempty := by
  unfold finishPlan
  split
  · exact nonempty_mapSegments (TaggedLineParser.nonempty_finish _)
  · exact nofun

theorem nonempty_finish : ∀ segment ∈ parser.finish.2.planSegments, segment.Nonempty := by
  intro segment hm
  rcases mem_append.mp hm with hv | ht
  · exact nonempty_parseVisibleText _ _ segment hv
  · exact nonempty_finishPlan _ segment ht

theorem nonempty_pushAll (chunks : List Text) :
    ∀ segment ∈ (transducer.pushAll parser chunks).2.planSegments, segment.Nonempty := by
  induction chunks generalizing parser with
  | nil => exact nofun
  | cons _ _ ih =>
    intro segment hm
    rcases mem_append.mp hm with hf | hr
    · exact nonempty_parseVisibleText _ _ segment hf
    · exact ih _ segment hr

theorem nonempty_collect (planMode : Bool) (chunks : List Text) :
    ∀ segment ∈ (collect planMode chunks).planSegments, segment.Nonempty := by
  intro segment hm
  rcases mem_append.mp hm with hp | hf
  · exact nonempty_pushAll _ _ segment hp
  · exact nonempty_finish _ segment hf

theorem view_collect (planMode : Bool) (chunks : List Text) :
    view (collect planMode chunks) = view (collect planMode [chunks.flatten]) := by
  obtain ⟨hs, ho⟩ := transducer_additive.pushAll_eq_push (push_new_nil planMode) chunks
  obtain ⟨hs', ho'⟩ :=
    transducer_additive.pushAll_eq_push (push_new_nil planMode) [chunks.flatten]
  rw [flatten_singleton] at hs' ho'
  simp only [collect, map_mul, hs, ho, hs', ho']

/-- However a text is cut into chunks, the visible text, the citations and the merged segments of the
plan are those of the whole text. -/
theorem collect_chunks_eq_collect_text (planMode : Bool) (chunks : List Text) :
    (collect planMode chunks).visibleText = (collect planMode [chunks.flatten]).visibleText ∧
    (collect planMode chunks).citations = (collect planMode [chunks.flatten]).citations ∧
    ProposedPlanSegment.merge (collect planMode chunks).planSegments =
      ProposedPlanSegment.merge (collect planMode [chunks.flatten]).planSegments := by
  have hview := view_collect planMode chunks
  refine ⟨congrArg (·.visibleText) hview, congrArg (·.citations) hview, ?_⟩
  have hspread : (collect planMode chunks).planSegments.flatMap ProposedPlanSegment.spread =
      (collect planMode [chunks.flatten]).planSegments.flatMap ProposedPlanSegment.spread :=
    congrArg (·.planSegments) hview
  rw [ProposedPlanSegment.merge_eq_foldr_spread (nonempty_collect planMode chunks), hspread,
    ← ProposedPlanSegment.merge_eq_foldr_spread (nonempty_collect planMode [chunks.flatten])]

example : collect true ["Intro\n<proposed".toList,
      "_plan>\n- step <oai-mem-citation>doc</oai-mem-citation>\n".toList,
      "</proposed_plan>\nOutro".toList] =
    ⟨"Intro\nOutro".toList, ["doc".toList], [.normal "Intro\n".toList, .proposedPlanStart,
      .proposedPlanDelta "- step \n".toList, .proposedPlanEnd, .normal "Outro".toList]⟩ := by
  decide +kernel

end AssistantTextStreamParser

end Slopdex.Stream
