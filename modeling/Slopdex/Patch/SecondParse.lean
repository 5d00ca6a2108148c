import Slopdex.Library.Effects
import Slopdex.Patch.RoundTrip

/-!
# Parsing the stored text of a patch again

Verification keeps the text that its parser has put together from the lines of the patch, and the
application parses that text once more. Each time a carriage return at the end of a line is lost, so
that the contents of the hunks can change. The paths that they are about stay the same: they are read
from lines without the blanks at their ends.
-/

namespace Slopdex.Patch

open Protocol (Text isWhitespace trim trimEnd)
open Library StreamingPatchParser List
open Lines (terminate terminate_nil terminate_cons)

/-- The paths that a hunk is about, as they are written. -/
def Hunk.places : Hunk → Text × Option Text
  | .updateFile path movePath _ => (path, movePath)
  | .addFile path _ | .deleteFile path => (path, none)

/-! ## Lines without carriage returns -/

def stripReturn (line : Text) : Text := (stripSuffix '\r' line).getD line

variable {line : Text}

theorem stripReturn_cases (line : Text) :
    stripReturn line = line ∨ line = stripReturn line ++ ['\r'] := by
  unfold stripReturn stripSuffix
  split
  · next h =>
    obtain ⟨front, rfl⟩ := getLast?_eq_some_iff.mp h
    simp
  · exact .inl rfl

theorem trimEnd_stripReturn (line : Text) : trimEnd (stripReturn line) = trimEnd line := by
  rcases stripReturn_cases line with h | h
  · rw [h]
  · conv_rhs => rw [h]
    exact (rdropWhile_concat_pos _ _ _ (by decide)).symm

theorem trim_concat {text : Text} {c : Char} (hc : isWhitespace c = true) :
    trim (text ++ [c]) = trim text := by
  unfold trim Lines.trim
  rw [dropWhile_append]
  split
  · next h =>
    rw [isEmpty_iff.mp h]
    simp [hc]
  · exact rdropWhile_concat_pos _ _ _ hc

theorem trim_stripReturn (line : Text) : trim (stripReturn line) = trim line := by
  rcases stripReturn_cases line with h | h
  · rw [h]
  · conv_rhs => rw [h]
    exact (trim_concat (by decide)).symm

/-! ## Alike parsers -/

/-- What the parser looks at when it goes on: the paths and which chunks are at the end of a file. -/
def Hunk.outline : Hunk → (Text × Option Text) × List Bool
  | .updateFile path movePath chunks => ((path, movePath), chunks.map (·.isEndOfFile))
  | .addFile path _ | .deleteFile path => ((path, none), [])

theorem Hunk.outline_fst (hunk : Hunk) : hunk.outline.1 = hunk.places := by
  cases hunk <;> rfl

structure Alike (parser parser' : StreamingPatchParser) : Prop where
  buffer : parser.lineBuffer = []
  buffer' : parser'.lineBuffer = []
  mode : parser.state.mode = parser'.state.mode
  lineNumber : parser.lineNumber = parser'.lineNumber
  hunks : parser.state.hunks.map Hunk.outline = parser'.state.hunks.map Hunk.outline

theorem isEndOfFile_of_changeOfLine {change : UpdateFileChunk → UpdateFileChunk}
    (h : changeOfLine line = some change) (chunk : UpdateFileChunk) :
    (change chunk).isEndOfFile = chunk.isEndOfFile := by
  unfold changeOfLine at h
  split at h <;> cases h <;> rfl

theorem map_modifyLast_isEndOfFile {change : UpdateFileChunk → UpdateFileChunk}
    (h : ∀ chunk, (change chunk).isEndOfFile = chunk.isEndOfFile) (chunks : List UpdateFileChunk) :
    (chunks.modifyLast change).map (·.isEndOfFile) = chunks.map (·.isEndOfFile) := by
  induction chunks using reverseRecOn with
  | nil => rfl
  | append_singleton front last => simp [modifyLast_concat, h]

theorem map_modifyLast_endOfFile (chunks : List UpdateFileChunk) :
    (chunks.modifyLast ({ · with isEndOfFile := true })).map (·.isEndOfFile) =
      (chunks.map (·.isEndOfFile)).modifyLast fun _ => true := by
  induction chunks using reverseRecOn with
  | nil => rfl
  | append_singleton front last => simp [modifyLast_concat]

theorem any_isEndOfFile (chunks : List UpdateFileChunk) :
    chunks.getLast?.any (·.isEndOfFile) = (chunks.map (·.isEndOfFile)).getLast?.any id := by
  rw [getLast?_map]
  cases chunks.getLast? <;> rfl

theorem processUpdateLine_outline {n n' : ℕ} {line' : Text} {movePath : Option Text}
    {chunks chunks' : List UpdateFileChunk} {next next' : Option Text × List UpdateFileChunk}
    (ht : trimEnd line' = trimEnd line)
    (hflags : chunks.map (·.isEndOfFile) = chunks'.map (·.isEndOfFile))
    (h : processUpdateLine n line movePath chunks = .ok next)
    (h' : processUpdateLine n' line' movePath chunks' = .ok next') :
    next.1 = next'.1 ∧ next.2.map (·.isEndOfFile) = next'.2.map (·.isEndOfFile) := by
  have hempty : chunks'.isEmpty = chunks.isEmpty := by
    have hl := congrArg isEmpty hflags
    simpa using hl.symm
  unfold processUpdateLine at h h'
  simp only [ht, hempty, any_isEndOfFile, ← hflags] at h h'
  split at h
  · next hc =>
    rw [if_pos hc] at h'
    cases h
    cases h'
    exact ⟨rfl, hflags⟩
  next hc =>
  rw [if_neg hc] at h'
  split at h
  · cases h
  next hc =>
  rw [if_neg hc] at h'
  split at h
  · next path hm =>
    rw [hm] at h'
    cases h
    cases h'
    exact ⟨rfl, hflags⟩
  next hm =>
  rw [hm] at h'
  dsimp only at h'
  split at h
  · cases h
  split at h'
  · cases h'
  split at h
  · next hc =>
    rw [if_pos hc] at h'
    cases h
    cases h'
    simp [hflags]
  next hc =>
  rw [if_neg hc] at h'
  split at h
  · next context hm =>
    rw [hm] at h'
    cases h
    cases h'
    simp [hflags]
  next hm =>
  rw [hm] at h'
  dsimp only at h'
  split at h
  · next hc =>
    rw [if_pos hc] at h'
    split at h
    · cases h
    split at h'
    · cases h'
    cases h
    cases h'
    simp only [map_modifyLast_endOfFile, hflags, and_self]
  next hc =>
  rw [if_neg hc] at h'
  split at h
  · next change hch =>
    split at h'
    · next change' hch' =>
      cases h
      cases h'
      rw [map_modifyLast_isEndOfFile (isEndOfFile_of_changeOfLine hch),
        map_modifyLast_isEndOfFile (isEndOfFile_of_changeOfLine hch')]
      split <;> simp [hflags]
    · split at h' <;> cases h'
  · split at h <;> cases h

namespace Alike

variable {parser parser' next next' : StreamingPatchParser} (ha : Alike parser parser')
include ha

theorem startHunk (hunk : Hunk) (mode : StreamingParserMode) :
    Alike (parser.startHunk hunk mode) (parser'.startHunk hunk mode) where
  buffer := ha.buffer
  buffer' := ha.buffer'
  mode := rfl
  lineNumber := ha.lineNumber
  hunks := by simp [StreamingPatchParser.startHunk, ha.hunks]

theorem setLastHunk {hunk hunk' : Hunk} (ho : hunk.outline = hunk'.outline) :
    Alike (parser.setLastHunk hunk) (parser'.setLastHunk hunk') where
  buffer := ha.buffer
  buffer' := ha.buffer'
  mode := ha.mode
  lineNumber := ha.lineNumber
  hunks := by simp [StreamingPatchParser.setLastHunk, map_dropLast, ha.hunks, ho]

theorem outline_last {hunk hunk' : Hunk} (h : parser.state.hunks.getLast? = some hunk)
    (h' : parser'.state.hunks.getLast? = some hunk') : hunk.outline = hunk'.outline := by
  have hl := congrArg getLast? ha.hunks
  rw [getLast?_map, getLast?_map, h, h'] at hl
  exact Option.some.inj hl

theorem handleHunkHeadersAndEndPatch {trimmed : Text} {found found' : Option StreamingPatchParser}
    (h : parser.handleHunkHeadersAndEndPatch trimmed = .ok found)
    (h' : parser'.handleHunkHeadersAndEndPatch trimmed = .ok found') :
    found = none ∧ found' = none ∨
      ∃ next next', found = some next ∧ found' = some next' ∧ Alike next next' := by
  unfold StreamingPatchParser.handleHunkHeadersAndEndPatch at h h'
  rw [← ha.mode] at h'
  split at h
  · next hm =>
    rw [hm] at h'
    dsimp only at h'
    split at h
    · cases h
    split at h'
    · cases h'
    split at h
    · cases h
    next hc =>
    rw [if_neg hc] at h'
    cases h
    cases h'
    exact .inr ⟨_, _, rfl, rfl, ha.buffer, ha.buffer', ha.mode, ha.lineNumber, ha.hunks⟩
  next hm =>
  rw [hm] at h'
  dsimp only at h'
  split at h
  · next hc =>
    rw [if_pos hc] at h'
    obtain ⟨_, -, ⟨⟩⟩ := Effects.bind_eq_ok_iff.mp h
    obtain ⟨_, -, ⟨⟩⟩ := Effects.bind_eq_ok_iff.mp h'
    exact .inr ⟨_, _, rfl, rfl, ha.buffer, ha.buffer', rfl, ha.lineNumber, ha.hunks⟩
  next hc =>
  rw [if_neg hc] at h'
  split at h
  · next path hp =>
    rw [hp] at h'
    obtain ⟨_, -, ⟨⟩⟩ := Effects.bind_eq_ok_iff.mp h
    obtain ⟨_, -, ⟨⟩⟩ := Effects.bind_eq_ok_iff.mp h'
    exact .inr ⟨_, _, rfl, rfl, ha.startHunk _ _⟩
  next hp =>
  rw [hp] at h'
  dsimp only at h'
  split at h
  · next path hp =>
    rw [hp] at h'
    obtain ⟨_, -, ⟨⟩⟩ := Effects.bind_eq_ok_iff.mp h
    obtain ⟨_, -, ⟨⟩⟩ := Effects.bind_eq_ok_iff.mp h'
    exact .inr ⟨_, _, rfl, rfl, ha.startHunk _ _⟩
  next hp =>
  rw [hp] at h'
  dsimp only at h'
  split at h
  · next path hp =>
    rw [hp] at h'
    obtain ⟨_, -, ⟨⟩⟩ := Effects.bind_eq_ok_iff.mp h
    obtain ⟨_, -, ⟨⟩⟩ := Effects.bind_eq_ok_iff.mp h'
    rw [← ha.lineNumber]
    exact .inr ⟨_, _, rfl, rfl, ha.startHunk _ _⟩
  next hp =>
  rw [hp] at h'
  cases h
  cases h'
  exact .inl ⟨rfl, rfl⟩

theorem headerOr {trimmed : Text} {body body' : Except ParseError StreamingPatchParser}
    (h : parser.headerOr trimmed body = .ok next) (h' : parser'.headerOr trimmed body' = .ok next')
    (hbody : body = .ok next → body' = .ok next' → Alike next next') : Alike next next' := by
  obtain ⟨found, hf, h⟩ := Effects.bind_eq_ok_iff.mp h
  obtain ⟨found', hf', h'⟩ := Effects.bind_eq_ok_iff.mp h'
  rcases ha.handleHunkHeadersAndEndPatch hf hf' with ⟨rfl, rfl⟩ | ⟨_, _, rfl, rfl, hnext⟩
  · exact hbody h h'
  · cases h
    cases h'
    exact hnext

theorem processLine (h : parser.processLine line = .ok next)
    (h' : parser'.processLine (stripReturn line) = .ok next') : Alike next next' := by
  unfold StreamingPatchParser.processLine at h h'
  simp only [trim_stripReturn, trimEnd_stripReturn, ← ha.mode] at h h'
  cases hmode : parser.state.mode with
  | notStarted =>
    simp only [hmode] at h h'
    split at h
    · next hc =>
      rw [if_pos hc] at h'
      cases h
      cases h'
      exact ⟨ha.buffer, ha.buffer', rfl, ha.lineNumber, ha.hunks⟩
    · cases h
  | startedPatch | deleteFile =>
    simp only [hmode] at h h'
    exact ha.headerOr h h' nofun
  | addFile =>
    simp only [hmode] at h h'
    apply ha.headerOr h h'
    intro hb hb'
    split at hb
    · next hg =>
      split at hb'
      · next hg' =>
        cases hb
        cases hb'
        have ho := ha.outline_last hg hg'
        exact ha.setLastHunk ho
      · cases hb'
    · cases hb
  | updateFile =>
    simp only [hmode] at h h'
    apply ha.headerOr h h'
    intro hb hb'
    split at hb
    · next hg =>
      split at hb'
      · next hg' =>
        have ho := ha.outline_last hg hg'
        obtain ⟨⟨rfl, rfl⟩, hflags⟩ : (_ ∧ _) ∧ _ := by simpa [Hunk.outline] using ho
        obtain ⟨next, hu, ⟨⟩⟩ := Effects.bind_eq_ok_iff.mp hb
        obtain ⟨next', hu', ⟨⟩⟩ := Effects.bind_eq_ok_iff.mp hb'
        obtain ⟨hmove, hf⟩ := processUpdateLine_outline (trimEnd_stripReturn line) hflags hu hu'
        apply ha.setLastHunk
        simp only [Hunk.outline, hmove, hf]
      · cases hb'
    · cases hb
  | endedPatch =>
    simp only [hmode] at h h'
    split at h
    · next hc =>
      rw [if_pos hc] at h'
      cases h
      cases h'
      exact ha
    · cases h

end Alike

/-! ## The text of a parsed patch -/

section Parse

variable {parser parser' next next' : StreamingPatchParser} {first last last' text : Text}
  {mid : List Text} {args args' : ApplyPatchArgs}

theorem pushDelta_terminated (hb : parser.lineBuffer = []) (hn : '\n' ∉ line) :
    parser.pushDelta (line ++ ['\n']) =
      processLine { parser with lineNumber := parser.lineNumber + 1 } (stripReturn line) := by
  rw [pushDelta_append, pushDelta_of_not_mem hn, hb]
  change pushDelta _ ['\n'] = _
  simp only [pushDelta, foldlM_cons, foldlM_nil, pushChar, if_true, bind_pure, nil_append]
  rfl

/-- The parser behind all lines but the last one, which is left in the buffer. -/
theorem Alike.pushDelta (ha : Alike parser parser') {lines : List Text}
    (hn : ∀ line ∈ lines, '\n' ∉ line) (hl : '\n' ∉ last) (hl' : '\n' ∉ last')
    (h : parser.pushDelta (terminate '\n' lines ++ last) = .ok next)
    (h' : parser'.pushDelta (terminate '\n' (lines.map stripReturn) ++ last') = .ok next') :
    ∃ found found', Alike found found' ∧ next = { found with lineBuffer := last } ∧
      next' = { found' with lineBuffer := last' } := by
  induction lines generalizing parser parser' with
  | nil =>
    rw [terminate_nil, nil_append, pushDelta_of_not_mem hl, ha.buffer] at h
    rw [List.map_nil, terminate_nil, nil_append, pushDelta_of_not_mem hl', ha.buffer'] at h'
    cases h
    cases h'
    exact ⟨parser, parser', ha, rfl, rfl⟩
  | cons line lines ih =>
    have hline : '\n' ∉ stripReturn line := fun hm => hn line (.head _) (by
      rcases stripReturn_cases line with heq | heq
      · rwa [heq] at hm
      · rw [heq]
        exact mem_append_left _ hm)
    rw [terminate_cons, append_cons, append_assoc, pushDelta_append,
      pushDelta_terminated ha.buffer (hn line (.head _))] at h
    rw [List.map_cons, terminate_cons, append_cons, append_assoc, pushDelta_append,
      pushDelta_terminated ha.buffer' hline] at h'
    obtain ⟨_, h₁, h⟩ := Effects.bind_eq_ok_iff.mp h
    obtain ⟨_, h₁', h'⟩ := Effects.bind_eq_ok_iff.mp h'
    have hstep : Alike { parser with lineNumber := parser.lineNumber + 1 }
        { parser' with lineNumber := parser'.lineNumber + 1 } :=
      ⟨ha.buffer, ha.buffer', ha.mode, by rw [ha.lineNumber], ha.hunks⟩
    exact ih (hstep.processLine h₁ h₁') (fun line' hm => hn line' (.tail _ hm)) h h'

theorem hunks_of_finish (ht : trim last = endPatchMarker)
    (h : finish { parser with lineBuffer := last } = .ok next) :
    next.state.hunks = parser.state.hunks := by
  have hne : last.isEmpty = false := by
    cases last with
    | nil => exact absurd ht (by decide)
    | cons => rfl
  obtain ⟨_, hf, h⟩ := Effects.bind_eq_ok_iff.mp h
  simp only [flush, hne, ht, beq_self_eq_true, if_true] at hf
  obtain ⟨_, -, ⟨⟩⟩ := Effects.bind_eq_ok_iff.mp hf
  cases h
  rfl

theorem lines_terminate {lines : List Text} (hn : ∀ line ∈ lines, '\n' ∉ line) (hl : '\n' ∉ last) :
    Patch.lines (terminate '\n' lines ++ last) =
      lines.map stripReturn ++ if last = [] then [] else [last] := by
  have hs (line : Text) : stripLineEnding (line ++ ['\n']) = stripReturn line := by
    rw [stripLineEnding, stripSuffix_concat]
    rfl
  rw [Patch.lines, Lines.splitInclusive_terminate_append hn, map_append, map_map]
  congr 1
  · exact map_congr_left fun line _ => hs line
  · split
    · next h =>
      rw [h]
      rfl
    · next h =>
      have hend : last.getLast? ≠ some '\n' := fun hm => hl (mem_of_getLast? hm)
      rw [Lines.splitInclusive_of_not_mem hl h, map_singleton, stripLineEnding,
        stripSuffix_eq_none hend]

theorem not_mem_stripReturn (h : '\n' ∉ line) : '\n' ∉ stripReturn line := by
  intro hm
  rcases stripReturn_cases line with heq | heq
  · exact h (heq ▸ hm)
  · exact h (heq ▸ mem_append_left _ hm)

theorem not_mem_of_mem_lines (h : line ∈ Patch.lines text) : '\n' ∉ line := by
  obtain ⟨ls, rest, hls, hrest, rfl⟩ := Lines.exists_eq_terminate_append '\n' text
  rw [lines_terminate hls hrest, mem_append, mem_map] at h
  rcases h with ⟨found, hf, rfl⟩ | h
  · exact not_mem_stripReturn (hls found hf)
  · split at h
    · cases h
    · rw [mem_singleton] at h
      rwa [h]

theorem checkPatchBoundariesStrict_eq_ok {ls found : List Text}
    (h : checkPatchBoundariesStrict ls = .ok found) : found = ls ∧ ∃ first mid last,
      ls = first :: (mid ++ [last]) ∧ trim first = beginPatchMarker ∧ trim last = endPatchMarker := by
  obtain ⟨_, hc, ⟨⟩⟩ := Effects.bind_eq_ok_iff.mp h
  refine ⟨rfl, ?_⟩
  cases ls with
  | nil => cases hc
  | cons first rest =>
    have hb : trim first = beginPatchMarker ∧
        (first :: rest).getLast?.map trim = some endPatchMarker := by
      unfold checkStartAndEndLinesStrict at hc
      simp only [head?_cons, Option.map_some] at hc
      split at hc
      · next h => simpa using h
      · split at hc <;> cases hc
    obtain ⟨hfirst, hlast⟩ := hb
    induction rest using reverseRecOn with
    | nil =>
      simp only [getLast?_singleton, Option.map_some, hfirst] at hlast
      exact absurd hlast (by decide)
    | append_singleton mid last =>
      rw [← cons_append, getLast?_concat, Option.map_some, Option.some.injEq] at hlast
      exact ⟨first, mid, last, rfl, hfirst, hlast⟩

theorem checkPatchBoundariesLenient_eq_ok {ls found : List Text}
    (h : checkPatchBoundariesLenient ls = .ok found) : found ⊆ ls ∧ ∃ first mid last,
      found = first :: (mid ++ [last]) ∧ trim first = beginPatchMarker ∧
        trim last = endPatchMarker := by
  unfold checkPatchBoundariesLenient at h
  split at h
  · next hs =>
    cases h
    obtain ⟨rfl, hf⟩ := checkPatchBoundariesStrict_eq_ok hs
    exact ⟨Subset.refl _, hf⟩
  · split at h
    · split at h
      · obtain ⟨rfl, hf⟩ := checkPatchBoundariesStrict_eq_ok h
        exact ⟨((dropLast_sublist _).trans (tail_sublist _)).subset, hf⟩
      · cases h
    · cases h

/-- A parsed patch is stored as lines between the two markers, and its hunks are read from them. -/
structure Stored (args : ApplyPatchArgs) (first : Text) (mid : List Text) (last : Text) : Prop where
  firstLine : '\n' ∉ first
  midLines : ∀ line ∈ mid, '\n' ∉ line
  lastLine : '\n' ∉ last
  first_eq : trim first = beginPatchMarker
  last_eq : trim last = endPatchMarker
  patch : args.patch = terminate '\n' (first :: mid) ++ last
  hunks : ∃ parser next, pushDelta {} args.patch = .ok parser ∧ parser.finish = .ok next ∧
    args.hunks = next.state.hunks

theorem stored_of_boundaries (h : parsePatch text = .ok args)
    (hc : checkPatchBoundariesLenient (Patch.lines (trim text)) =
      .ok (first :: (mid ++ [last]))) (hfirst : trim first = beginPatchMarker)
    (hlast : trim last = endPatchMarker) (hn : ∀ line ∈ first :: (mid ++ [last]), '\n' ∉ line) :
    Stored args first mid last := by
  obtain ⟨_, hl, h⟩ := Effects.bind_eq_ok_iff.mp h
  rw [hc] at hl
  cases hl
  obtain ⟨parser, hp, h⟩ := Effects.bind_eq_ok_iff.mp h
  obtain ⟨next, hf, ⟨⟩⟩ := Effects.bind_eq_ok_iff.mp h
  refine ⟨hn first (.head _), fun line hm => hn line (by simp [hm]), hn last (by simp), hfirst, hlast,
    ?_, parser, next, hp, hf, rfl⟩
  rw [← cons_append, Lines.intercalate_concat]

theorem exists_stored (h : parsePatch text = .ok args) :
    ∃ first mid last, Stored args first mid last := by
  obtain ⟨found, hc, -⟩ := Effects.bind_eq_ok_iff.mp h
  obtain ⟨hsub, first, mid, last, rfl, hfirst, hlast⟩ := checkPatchBoundariesLenient_eq_ok hc
  exact ⟨first, mid, last, stored_of_boundaries h hc hfirst hlast
    fun line hm => not_mem_of_mem_lines (hsub hm)⟩

theorem trim_append_blanks {blanks : Text} (h : ∀ c ∈ blanks, isWhitespace c = true) (text : Text) :
    trim (text ++ blanks) = trim text := by
  induction blanks using reverseRecOn with
  | nil => rw [append_nil]
  | append_singleton blanks c ih =>
    rw [← append_assoc, trim_concat (h c (by simp)), ih fun d hd => h d (by simp [hd])]

theorem trim_trimEnd (text : Text) : trim (trimEnd text) = trim text := by
  have hs : text = trimEnd text ++ text.rtakeWhile isWhitespace :=
    rdropWhile_append_rtakeWhile.symm
  conv_rhs => rw [hs]
  exact (trim_append_blanks (fun c hc => mem_rtakeWhile_imp hc) _).symm

theorem trim_dropWhile (text : Text) : trim (text.dropWhile isWhitespace) = trim text := by
  unfold trim Lines.trim
  rw [dropWhile_idempotent]

theorem dropWhile_ne_nil (h : trim text ≠ []) : text.dropWhile isWhitespace ≠ [] := by
  intro hn
  rw [trim, Lines.trim, hn] at h
  exact h rfl

theorem trimEnd_ne_nil (h : trim text ≠ []) : trimEnd text ≠ [] := by
  intro hn
  rw [← trim_trimEnd, hn] at h
  exact h rfl

namespace Stored

variable (h : Stored args first mid last)
include h

theorem trim_patch : trim args.patch =
    terminate '\n' (first.dropWhile isWhitespace :: mid) ++ trimEnd last := by
  have hf := dropWhile_ne_nil (h.first_eq ▸ by decide : trim first ≠ [])
  have hl := trimEnd_ne_nil (h.last_eq ▸ by decide : trim last ≠ [])
  have hr (front : Text) : (front ++ last).rdropWhile isWhitespace = front ++ trimEnd last := by
    rw [trimEnd, rdropWhile, reverse_append, dropWhile_append, if_neg, reverse_append,
      reverse_reverse, rdropWhile]
    simpa [trimEnd, rdropWhile] using hl
  rw [h.patch, trim, Lines.trim, terminate_cons, terminate_cons, append_assoc, dropWhile_append,
    if_neg (by simpa using hf), ← append_assoc, hr]

theorem lines_patch : Patch.lines (trim args.patch) =
    stripReturn (first.dropWhile isWhitespace) :: (mid.map stripReturn ++ [trimEnd last]) := by
  have hl := trimEnd_ne_nil (h.last_eq ▸ by decide : trim last ≠ [])
  have hn : ∀ line ∈ first.dropWhile isWhitespace :: mid, '\n' ∉ line := by
    rw [forall_mem_cons]
    exact ⟨fun hm => h.firstLine ((dropWhile_sublist _).subset hm), h.midLines⟩
  have hlast : '\n' ∉ trimEnd last := fun hm =>
    h.lastLine ((List.rdropWhile_prefix _ last).subset hm)
  rw [h.trim_patch, lines_terminate hn hlast, if_neg hl]
  rfl

theorem again (hparse : parsePatch args.patch = .ok args') :
    Stored args' (stripReturn (first.dropWhile isWhitespace)) (mid.map stripReturn) (trimEnd last) := by
  have hfirst : trim (stripReturn (first.dropWhile isWhitespace)) = beginPatchMarker := by
    rw [trim_stripReturn, trim_dropWhile, h.first_eq]
  have hlast : trim (trimEnd last) = endPatchMarker := by rw [trim_trimEnd, h.last_eq]
  apply stored_of_boundaries hparse _ hfirst hlast
  · rw [← h.lines_patch]
    exact fun line hm => not_mem_of_mem_lines hm
  · rw [h.lines_patch]
    have hs : checkPatchBoundariesStrict
        (stripReturn (first.dropWhile isWhitespace) :: (mid.map stripReturn ++ [trimEnd last])) =
        .ok (stripReturn (first.dropWhile isWhitespace) :: (mid.map stripReturn ++ [trimEnd last])) := by
      rw [checkPatchBoundariesStrict, head?_cons, ← cons_append, getLast?_concat,
        checkStartAndEndLinesStrict]
      simp only [Option.map_some, hfirst, hlast]
      rfl
    rw [checkPatchBoundariesLenient, hs]

/-- The parser behind the first line. -/
theorem exists_begun : ∃ parser next,
    (parserAt 1 .startedPatch []).pushDelta (terminate '\n' mid ++ last) = .ok parser ∧
      parser.finish = .ok next ∧ args.hunks = next.state.hunks := by
  obtain ⟨parser, next, hp, hf, hh⟩ := h.hunks
  refine ⟨parser, next, ?_, hf, hh⟩
  have hb : processLine { lineNumber := 1 } (stripReturn first) = .ok (parserAt 1 .startedPatch []) := by
    simp only [processLine, trim_stripReturn, h.first_eq]
    rfl
  rw [h.patch, terminate_cons, append_cons, append_assoc, pushDelta_append,
    pushDelta_terminated rfl h.firstLine] at hp
  obtain ⟨_, hl, hp⟩ := Effects.bind_eq_ok_iff.mp hp
  rw [hb] at hl
  cases hl
  exact hp

end Stored

/-- The hunks of the stored text are about the same paths. -/
theorem places_of_parsePatch_patch (h : parsePatch text = .ok args)
    (h' : parsePatch args.patch = .ok args') :
    args.hunks.map Hunk.places = args'.hunks.map Hunk.places := by
  obtain ⟨first, mid, last, hs⟩ := exists_stored h
  have hs' := hs.again h'
  obtain ⟨_, _, hp, hf, hh⟩ := hs.exists_begun
  obtain ⟨_, _, hp', hf', hh'⟩ := hs'.exists_begun
  have hrefl : Alike (parserAt 1 .startedPatch []) (parserAt 1 .startedPatch []) :=
    ⟨rfl, rfl, rfl, rfl, rfl⟩
  obtain ⟨found, found', ha, rfl, rfl⟩ := hrefl.pushDelta hs.midLines hs.lastLine hs'.lastLine hp hp'
  have hplaces (hunks : List Hunk) : hunks.map Hunk.places = (hunks.map Hunk.outline).map Prod.fst := by
    rw [map_map]
    exact map_congr_left fun hunk _ => hunk.outline_fst.symm
  rw [hh, hh', hunks_of_finish hs.last_eq hf, hunks_of_finish hs'.last_eq hf', hplaces, hplaces,
    ha.hunks]

end Parse

end Slopdex.Patch
