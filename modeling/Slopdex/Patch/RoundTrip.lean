import Slopdex.Patch.Grammar

/-!
# Parsing rendered patches

The parser reads every rendered syntax tree back as the hunk that it stands for. The state between
two hunks is described by `Ready`; each line of a rendered hunk is one step from a known state to a
known state. The syntax does not tell an empty change context from a missing one, because the blank
behind the marker is trimmed.
-/

namespace Slopdex.Patch

open Protocol (Text isWhitespace trim trimEnd)
open Library ChangeSyntax UpdateFileChunk
open Lines (terminate)
open List (mem_cons_self mem_cons_of_mem mem_cons mem_map mem_singleton)

variable {chunks : List UpdateFileChunk} {hunks : List Hunk}

/-- The parser with an empty buffer and without an environment id. -/
def parserAt (lineNumber : ℕ) (mode : StreamingParserMode) (hunks : List Hunk) :
    StreamingPatchParser :=
  ⟨[], ⟨mode, hunks, none⟩, lineNumber⟩

namespace StreamingPatchParser

theorem pushDelta_append (parser : StreamingPatchParser) (delta delta' : Text) :
    parser.pushDelta (delta ++ delta') = parser.pushDelta delta >>= (·.pushDelta delta') :=
  List.foldlM_append

theorem pushDelta_of_not_mem {line : Text} (h : '\n' ∉ line) (parser : StreamingPatchParser) :
    parser.pushDelta line = .ok { parser with lineBuffer := parser.lineBuffer ++ line } := by
  induction line generalizing parser with
  | nil => simp [pushDelta, pure, Except.pure]
  | cons c line ih =>
    have hc : c ≠ '\n' := fun heq => h (heq ▸ mem_cons_self)
    have hr := ih (fun hm => h (mem_cons_of_mem c hm))
      { parser with lineBuffer := parser.lineBuffer ++ [c] }
    calc
      parser.pushDelta (c :: line)
        = pushDelta { parser with lineBuffer := parser.lineBuffer ++ [c] } line := by
          simp only [pushDelta, List.foldlM_cons, pushChar, if_neg hc]
          rfl
      _ = .ok { parser with lineBuffer := parser.lineBuffer ++ c :: line } := by
          rw [hr]
          simp

end StreamingPatchParser

open StreamingPatchParser List
open Lines hiding trim

theorem stripSuffix_eq_none {c : Char} {text : Text} (h : text.getLast? ≠ some c) :
    stripSuffix c text = none := by
  simp [stripSuffix, h]

theorem stripSuffix_concat (c : Char) (text : Text) : stripSuffix c (text ++ [c]) = some text := by
  simp [stripSuffix]

def Reads (before : StreamingPatchParser) (lines : List Text) (after : StreamingPatchParser) : Prop :=
  ∀ rest, before.pushDelta (terminate '\n' lines ++ rest) = after.pushDelta rest

theorem Reads.refl (parser : StreamingPatchParser) : Reads parser [] parser := fun _ => rfl

theorem Reads.trans {before between after : StreamingPatchParser} {lines lines' : List Text}
    (h : Reads before lines between) (h' : Reads between lines' after) :
    Reads before (lines ++ lines') after := by
  intro rest
  calc
    before.pushDelta (terminate '\n' (lines ++ lines') ++ rest)
      = before.pushDelta (terminate '\n' lines ++ (terminate '\n' lines' ++ rest)) := by
        simp
    _ = between.pushDelta (terminate '\n' lines' ++ rest) := h _
    _ = after.pushDelta rest := h' rest

theorem Reads.line {n : ℕ} {mode : StreamingParserMode} {line : Text}
    {next : StreamingPatchParser} (hl : IsLine line)
    (hs : (parserAt (n + 1) mode hunks).processLine line = .ok next) :
    Reads (parserAt n mode hunks) [line] next := by
  intro rest
  have hf : pushDelta { parserAt n mode hunks with lineBuffer := line } ['\n'] =
      (parserAt (n + 1) mode hunks).processLine line := by
    simp only [pushDelta, foldlM_cons, foldlM_nil, pushChar, if_true,
      stripSuffix_eq_none hl.unterminated, Option.getD_none, bind_pure]
    rfl
  calc
    (parserAt n mode hunks).pushDelta (terminate '\n' [line] ++ rest)
      = (parserAt n mode hunks).pushDelta (line ++ '\n' :: rest) := by
        simp
    _ = (parserAt n mode hunks).pushDelta line >>= (·.pushDelta ('\n' :: rest)) :=
        pushDelta_append _ _ _
    _ = pushDelta { parserAt n mode hunks with lineBuffer := line } (['\n'] ++ rest) := by
        rw [pushDelta_of_not_mem hl.singleLine]
        rfl
    _ = next.pushDelta rest := by
        rw [pushDelta_append, hf, hs]
        rfl

section Markers

variable {marker text : Text}

theorem dropPrefix?_marker (marker text : Text) :
    (marker ++ text).dropPrefix? marker = some text := by
  rw [dropPrefix?_eq_some_iff]
  exact ⟨marker, rfl, by simp⟩

theorem dropPrefix?_of_head?_ne (marker : Text) (hm : marker ≠ [])
    (h : text.head? ≠ marker.head?) :
    text.dropPrefix? marker = none := by
  rw [Option.eq_none_iff_forall_ne_some]
  intro _ hr
  obtain ⟨_, rfl, hf⟩ := dropPrefix?_eq_some_iff.mp hr
  rw [beq_iff_eq] at hf
  subst hf
  exact h (head?_append_of_ne_nil _ hm)

theorem isLine_marker_append (hm : '\n' ∉ marker) (hne : text ≠ []) (hl : '\n' ∉ text)
    (ht : trim text = text) : IsLine (marker ++ text) where
  singleLine := by simp [hm, hl]
  unterminated := by
    rw [getLast?_append_of_ne_nil _ hne]
    intro hla
    have := getLast?_of_trim_eq_self ht '\r' hla
    exact absurd this (by decide)

theorem isLine_cons {c : Char} {line : Text} (hc : c ≠ '\n') (hr : c ≠ '\r') (hl : IsLine line) :
    IsLine (c :: line) where
  singleLine := by simp [hl.singleLine, hc.symm]
  unterminated := by
    cases line with
    | nil => simpa using hr
    | cons => simpa using hl.unterminated

end Markers

/-- A header may follow: the patch has begun and its last hunk is complete. -/
structure Ready (mode : StreamingParserMode) (hunks : List Hunk) : Prop where
  started : mode ≠ .notStarted
  open_ : mode ≠ .endedPatch
  complete : ∀ n line, (parserAt n mode hunks).ensureUpdateHunkIsNotEmpty line = .ok ()

section Headers

variable {n : ℕ} {mode : StreamingParserMode} {hunks : List Hunk} {line filename file : Text}
  {parser next : StreamingPatchParser}

section

variable (hready : Ready mode hunks)
include hready

theorem processLine_header (htr : trim line = line) (ht : trimEnd line = line)
    (hh : (parserAt n mode hunks).handleHunkHeadersAndEndPatch line = .ok (some next)) :
    (parserAt n mode hunks).processLine line = .ok next := by
  have hhe (body) : (parserAt n mode hunks).headerOr line body = .ok next := by
    simp only [headerOr, hh]
    rfl
  unfold processLine
  rw [htr, ht]
  cases mode with
  | notStarted => exact absurd rfl hready.started
  | endedPatch => exact absurd rfl hready.open_
  | startedPatch | addFile | deleteFile | updateFile _ => exact hhe _

theorem handle_addFile (file : Text) :
    (parserAt n mode hunks).handleHunkHeadersAndEndPatch (addFileMarker ++ file) =
      .ok (some (parserAt n .addFile (hunks ++ [.addFile file []]))) := by
  have he : (addFileMarker ++ file).dropPrefix? environmentIdMarker = none := rfl
  have hen : (addFileMarker ++ file == endPatchMarker) = false := rfl
  simp only [handleHunkHeadersAndEndPatch, he, ite_self, hen, dropPrefix?_marker,
    hready.complete]
  rfl

theorem handle_deleteFile (file : Text) :
    (parserAt n mode hunks).handleHunkHeadersAndEndPatch (deleteFileMarker ++ file) =
      .ok (some (parserAt n .deleteFile (hunks ++ [.deleteFile file]))) := by
  have he : (deleteFileMarker ++ file).dropPrefix? environmentIdMarker = none := rfl
  have hen : (deleteFileMarker ++ file == endPatchMarker) = false := rfl
  have ha : (deleteFileMarker ++ file).dropPrefix? addFileMarker = none := rfl
  simp only [handleHunkHeadersAndEndPatch, he, ite_self, hen, ha, dropPrefix?_marker,
    hready.complete]
  rfl

theorem handle_updateFile (file : Text) :
    (parserAt n mode hunks).handleHunkHeadersAndEndPatch (updateFileMarker ++ file) =
      .ok (some (parserAt n (.updateFile n) (hunks ++ [.updateFile file none []]))) := by
  have he : (updateFileMarker ++ file).dropPrefix? environmentIdMarker = none := rfl
  have hen : (updateFileMarker ++ file == endPatchMarker) = false := rfl
  have ha : (updateFileMarker ++ file).dropPrefix? addFileMarker = none := rfl
  have hd : (updateFileMarker ++ file).dropPrefix? deleteFileMarker = none := rfl
  simp only [handleHunkHeadersAndEndPatch, he, ite_self, hen, ha, hd,
    dropPrefix?_marker, hready.complete]
  rfl

end

theorem handle_of_head?_ne (h : line.head? ≠ some '*') :
    parser.handleHunkHeadersAndEndPatch line = .ok none := by
  have he : (line == endPatchMarker) = false := by
    rw [beq_eq_false_iff_ne]
    rintro rfl
    exact h rfl
  simp only [handleHunkHeadersAndEndPatch, he,
    dropPrefix?_of_head?_ne environmentIdMarker (by decide) h,
    dropPrefix?_of_head?_ne addFileMarker (by decide) h,
    dropPrefix?_of_head?_ne deleteFileMarker (by decide) h,
    dropPrefix?_of_head?_ne updateFileMarker (by decide) h, ite_self]
  rfl

end Headers

theorem headerOr_of_head?_ne {parser : StreamingPatchParser} {line : Text}
    (h : line.head? ≠ some '*')
    (body : Except ParseError StreamingPatchParser) : parser.headerOr line body = body := by
  simp only [headerOr, handle_of_head?_ne h]
  rfl

theorem setLastHunk_concat (n : ℕ) (mode : StreamingParserMode) (hunks : List Hunk)
    (last hunk : Hunk) :
    (parserAt n mode (hunks ++ [last])).setLastHunk hunk = parserAt n mode (hunks ++ [hunk]) := by
  simp [setLastHunk, parserAt]

theorem processLine_addLine (n : ℕ) (hunks : List Hunk) (file contents line : Text) :
    (parserAt n .addFile (hunks ++ [.addFile file contents])).processLine ('+' :: line) =
      .ok (parserAt n .addFile (hunks ++ [.addFile file (contents ++ line ++ ['\n'])])) := by
  obtain ⟨rest, ht⟩ : ∃ rest, trim ('+' :: line) = '+' :: rest :=
    trim_cons_eq (by decide) line
  have hl : (parserAt n .addFile (hunks ++ [.addFile file contents])).state.hunks.getLast? =
      some (.addFile file contents) := getLast?_concat
  change headerOr _ (trim ('+' :: line)) _ = _
  rw [ht, headerOr_of_head?_ne (by simp)]
  simp only [hl, setLastHunk_concat]

abbrev updateParserAt (n k : ℕ) (hunks : List Hunk) (filename : Text) (movePath : Option Text)
    (chunks : List UpdateFileChunk) : StreamingPatchParser :=
  parserAt n (.updateFile k) (hunks ++ [.updateFile filename movePath chunks])

theorem processLine_updateLine {n k : ℕ} {file line : Text}
    {movePath movePath' : Option Text} {chunks' : List UpdateFileChunk}
    (hh : (updateParserAt n k hunks file movePath chunks).handleHunkHeadersAndEndPatch
      (trimEnd line) = .ok none)
    (hs : processUpdateLine n line movePath chunks = .ok (movePath', chunks')) :
    (updateParserAt n k hunks file movePath chunks).processLine line =
      .ok (updateParserAt n k hunks file movePath' chunks') := by
  have hl : (updateParserAt n k hunks file movePath chunks).state.hunks.getLast? =
      some (.updateFile file movePath chunks) := getLast?_concat
  have hn : (updateParserAt n k hunks file movePath chunks).lineNumber = n := rfl
  change headerOr _ (trimEnd line) _ = _
  unfold headerOr
  rw [hh]
  simp only [hl, hn, hs, setLastHunk_concat, bind, Except.bind, pure, Except.pure]

def Filled (chunks : List UpdateFileChunk) : Prop :=
  ∀ chunk ∈ chunks.getLast?, chunk.hasNoLines = false

theorem Filled.any_hasNoLines (h : Filled chunks) : chunks.getLast?.any (·.hasNoLines) = false := by
  cases hl : chunks.getLast? with
  | none => rfl
  | some chunk => simpa using h chunk hl

theorem processUpdateLine_moveTo (n : ℕ) {dest : Text} (hd : IsFilename dest) :
    processUpdateLine n (moveToMarker ++ dest) none [] = .ok (some dest, []) := by
  have ht : trimEnd (moveToMarker ++ dest) = moveToMarker ++ dest :=
    rdropWhile_marker_append _ hd.nonempty hd.trimmed
  unfold processUpdateLine
  simp only [ht, dropPrefix?_marker]
  rfl

theorem isContextHeader_header (change : ChangeSyntax) : isContextHeader change.header = true := by
  unfold isContextHeader header
  cases change.changeContext with
  | none => rfl
  | some changeContext =>
    have hs : changeContextMarker.isPrefixOf (changeContextMarker ++ changeContext) = true := by
      simp
    simp only [hs, Bool.or_true]

theorem trimEnd_header {change : ChangeSyntax} (hchg : IsChange change)
    (hc : change.changeContext ≠ some []) : trimEnd change.header = change.header := by
  unfold header
  cases h : change.changeContext with
  | none => decide
  | some changeContext =>
    have hne : changeContext ≠ [] := fun heq => hc (by rw [h, heq])
    exact rdropWhile_marker_append _ hne (hchg.changeContext changeContext h).trimmed

theorem processUpdateLine_header (n : ℕ) {change : ChangeSyntax} (hchg : IsChange change)
    (hc : change.changeContext ≠ some []) (movePath : Option Text) (hf : Filled chunks) :
    processUpdateLine n change.header movePath chunks =
      .ok (movePath, chunks ++ [{ changeContext := change.changeContext }]) := by
  have hn : change.header.isEmpty = false := by
    unfold header
    cases change.changeContext <;> rfl
  have hm : change.header.dropPrefix? moveToMarker = none := by
    unfold header
    cases change.changeContext <;> rfl
  unfold processUpdateLine
  simp only [trimEnd_header hchg hc, hn, isContextHeader_header, hm, ite_self,
    hf.any_hasNoLines, Bool.and_false, Bool.not_true]
  unfold header
  cases change.changeContext with
  | none => rfl
  | some changeContext =>
    have hne : (changeContextMarker ++ changeContext == emptyChangeContextMarker) = false := rfl
    simp only [hne, dropPrefix?_marker]
    rfl

theorem changeOfLine_render (line : ChangeLine) : changeOfLine line.render = some line.push := by
  cases line <;> rfl

theorem head?_trimEnd_render (line : ChangeLine) :
    (trimEnd line.render).head? ≠ some '*' ∧ (trimEnd line.render).head? ≠ some '@' := by
  have key (c : Char) (text : Text) (hs : c ≠ '*') (hat : c ≠ '@') :
      (trimEnd (c :: text)).head? ≠ some '*' ∧ (trimEnd (c :: text)).head? ≠ some '@' := by
    unfold trimEnd
    rcases rdropWhile_cons_eq isWhitespace c text with h | ⟨rest, h⟩ <;> simp [h, hs, hat]
  cases line with
  | context text => exact key ' ' text (by decide) (by decide)
  | add text => exact key '+' text (by decide) (by decide)
  | remove text => exact key '-' text (by decide) (by decide)

theorem processUpdateLine_changeLine (n : ℕ) (line : ChangeLine) (movePath : Option Text)
    (chunks : List UpdateFileChunk) {chunk : UpdateFileChunk} (heof : chunk.isEndOfFile = false) :
    processUpdateLine n line.render movePath (chunks ++ [chunk]) =
      .ok (movePath, chunks ++ [line.push chunk]) := by
  obtain ⟨hs, hat⟩ := head?_trimEnd_render line
  have hc : isContextHeader (trimEnd line.render) = false := by
    rw [isContextHeader, Bool.or_eq_false_iff]
    constructor
    · rw [beq_eq_false_iff_ne]
      intro heq
      exact hat (by rw [heq]; rfl)
    · rw [← Bool.not_eq_true, List.isPrefixOf_iff_prefix]
      rintro ⟨_, hr⟩
      exact hat (by rw [← hr]; rfl)
  have heo : (trimEnd line.render == eofMarker) = false := by
    rw [beq_eq_false_iff_ne]
    intro heq
    exact hs (by rw [heq]; rfl)
  have he : (trimEnd line.render == emptyChangeContextMarker) = false :=
    (Bool.or_eq_false_iff.mp hc).1
  have hd := dropPrefix?_of_head?_ne changeContextMarker (by decide) hat
  unfold processUpdateLine
  simp [heof, hc, he, heo, hd, changeOfLine_render, modifyLast_concat]

theorem processUpdateLine_eof (n : ℕ) (movePath : Option Text) (chunks : List UpdateFileChunk)
    {chunk : UpdateFileChunk} (he : chunk.isEndOfFile = false) (hl : chunk.hasNoLines = false) :
    processUpdateLine n eofMarker movePath (chunks ++ [chunk]) =
      .ok (movePath, chunks ++ [{ chunk with isEndOfFile := true }]) := by
  have ht : trimEnd eofMarker = eofMarker := by decide
  have hc : isContextHeader eofMarker = false := by decide
  have hem : (eofMarker == emptyChangeContextMarker) = false := by decide
  have hd : eofMarker.dropPrefix? changeContextMarker = none := by decide
  unfold processUpdateLine
  simp [ht, he, hl, hc, hem, hd, modifyLast_concat]

/-! ## Reading rendered hunks -/

section Read

variable {n k : ℕ} {mode : StreamingParserMode} {hunks : List Hunk} {filename file : Text}
  {movePath : Option Text} {chunks : List UpdateFileChunk} {change : ChangeSyntax}

theorem reads_addLines {addLines : List Text} (hl : ∀ line ∈ addLines, IsLine line) (n : ℕ)
    (contents : Text) :
    Reads (parserAt n .addFile (hunks ++ [.addFile file contents])) (addLines.map ('+' :: ·))
      (parserAt (n + addLines.length) .addFile
        (hunks ++ [.addFile file (contents ++ terminate '\n' addLines)])) := by
  induction addLines generalizing n contents with
  | nil => simpa using Reads.refl _
  | cons line _ ih =>
    have hli : IsLine ('+' :: line) :=
      isLine_cons (by decide) (by decide) (hl line mem_cons_self)
    have hs := Reads.line hli (processLine_addLine (n + 1) hunks file contents line)
    have hr := ih (fun line' hm => hl line' (mem_cons_of_mem line hm)) (n + 1)
      (contents ++ line ++ ['\n'])
    simpa [Nat.add_assoc, Nat.add_comm 1] using hs.trans hr

theorem isLine_render {line : ChangeLine} (h : IsLine line.text) : IsLine line.render := by
  cases line <;> exact isLine_cons (by decide) (by decide) h

theorem reads_changeLines {changeLines : List ChangeLine}
    (hl : ∀ line ∈ changeLines, IsLine line.text) (n : ℕ) (chunk : UpdateFileChunk)
    (he : chunk.isEndOfFile = false) :
    Reads (updateParserAt n k hunks file movePath (chunks ++ [chunk]))
      (changeLines.map (·.render))
      (updateParserAt (n + changeLines.length) k hunks file movePath
        (chunks ++ [ChangeLine.pushAll changeLines chunk])) := by
  induction changeLines generalizing n chunk with
  | nil => exact Reads.refl _
  | cons line _ ih =>
    have hpu : (line.push chunk).isEndOfFile = false := by
      cases line <;> exact he
    have hp : (updateParserAt (n + 1) k hunks file movePath (chunks ++ [chunk])).processLine
        line.render = .ok (updateParserAt (n + 1) k hunks file movePath
          (chunks ++ [line.push chunk])) :=
      processLine_updateLine (handle_of_head?_ne (head?_trimEnd_render line).1)
        (processUpdateLine_changeLine (n + 1) line movePath chunks he)
    have hs := Reads.line (isLine_render (hl line mem_cons_self)) hp
    have hr := ih (fun line' hm => hl line' (mem_cons_of_mem line hm)) (n + 1)
      (line.push chunk) hpu
    simpa [Nat.add_assoc, Nat.add_comm 1] using hs.trans hr

theorem hasNoLines_body (hne : change.changeLines ≠ []) : change.body.hasNoLines = false := by
  obtain ⟨_, last, hl⟩ := (eq_nil_or_concat' change.changeLines).resolve_left hne
  rw [body, hl, ChangeLine.pushAll_append]
  cases last <;> simp [ChangeLine.push, pushContextLine, pushNewLine, pushOldLine, hasNoLines]

theorem isEndOfFile_body (change : ChangeSyntax) : change.body.isEndOfFile = false := by
  apply ChangeLine.pushAll_eq (·.isEndOfFile)
  intro line _
  cases line <;> rfl

theorem changeContext_chunk (change : ChangeSyntax) :
    change.chunk.changeContext = change.changeContext := by
  apply ChangeLine.pushAll_eq (·.changeContext)
  intro line _
  cases line <;> rfl

theorem changeContext_ne_of_hunk {changeMove : Option Text} {changes : List ChangeSyntax}
    (hc : ContextsNonempty (HunkSyntax.updateHunk file changeMove changes).hunk) :
    ∀ change ∈ changes, change.changeContext ≠ some [] := by
  intro change hchg
  rw [← changeContext_chunk]
  exact hc change.chunk (mem_map_of_mem hchg)

theorem chunk_eq_body (h : change.eofLine = false) : change.chunk = change.body := by
  rw [chunk, h, ← isEndOfFile_body change]

theorem filled_concat_chunk (hchg : IsChange change) (chunks : List UpdateFileChunk) :
    Filled (chunks ++ [change.chunk]) := by
  intro _ hchunk
  rw [getLast?_concat] at hchunk
  cases hchunk
  exact hasNoLines_body hchg.nonempty

theorem isLine_header (hchg : IsChange change) (hc : change.changeContext ≠ some []) :
    IsLine change.header := by
  unfold header
  cases h : change.changeContext with
  | none => decide
  | some changeContext =>
    have hne : changeContext ≠ [] := fun heq => hc (by rw [h, heq])
    have hi := hchg.changeContext changeContext h
    exact isLine_marker_append (by decide) hne hi.singleLine hi.trimmed

theorem reads_change (hchg : IsChange change) (hc : change.changeContext ≠ some [])
    (hf : Filled chunks) (n : ℕ) :
    ∃ n', Reads (updateParserAt n k hunks file movePath chunks) change.render
      (updateParserAt n' k hunks file movePath (chunks ++ [change.chunk])) := by
  have hh : (updateParserAt (n + 1) k hunks file movePath chunks).processLine
      change.header = .ok (updateParserAt (n + 1) k hunks file movePath
        (chunks ++ [{ changeContext := change.changeContext }])) := by
    apply processLine_updateLine
    · apply handle_of_head?_ne
      rw [trimEnd_header hchg hc]
      unfold header
      cases change.changeContext <;> simp [emptyChangeContextMarker, changeContextMarker]
    · exact processUpdateLine_header (n + 1) hchg hc movePath hf
  have hhe := Reads.line (isLine_header hchg hc) hh
  have hr : Reads (updateParserAt n k hunks file movePath chunks)
      (change.header :: change.changeLines.map (·.render))
      (updateParserAt (n + 1 + change.changeLines.length) k hunks file movePath
        (chunks ++ [change.body])) :=
    hhe.trans (reads_changeLines hchg.changeLines (n + 1) _ rfl)
  cases he : change.eofLine with
  | false =>
    rw [chunk_eq_body he, render, he]
    exact ⟨n + 1 + change.changeLines.length, by simpa using hr⟩
  | true =>
    have hm : IsLine eofMarker := by decide
    have hp (m : ℕ) := processLine_updateLine (n := m) (k := k)
      (show (updateParserAt m k hunks file movePath _).handleHunkHeadersAndEndPatch
        (trimEnd eofMarker) = .ok none from rfl)
      (processUpdateLine_eof m movePath chunks (isEndOfFile_body change)
        (hasNoLines_body hchg.nonempty))
    rw [chunk, render, he]
    exact ⟨_, hr.trans (Reads.line hm (hp _))⟩

theorem reads_changes {changes : List ChangeSyntax} (hch : ∀ change ∈ changes, IsChange change)
    (hct : ∀ change ∈ changes, change.changeContext ≠ some []) (hf : Filled chunks)
    (n : ℕ) :
    ∃ n', Reads (updateParserAt n k hunks file movePath chunks) (changes.flatMap (·.render))
      (updateParserAt n' k hunks file movePath (chunks ++ changes.map (·.chunk))) := by
  induction changes generalizing n chunks with
  | nil => exact ⟨n, by simpa using Reads.refl _⟩
  | cons change _ ih =>
    have hchg := hch change mem_cons_self
    obtain ⟨m, hs⟩ : ∃ m, Reads (updateParserAt n k hunks file movePath chunks) change.render
        (updateParserAt m k hunks file movePath (chunks ++ [change.chunk])) :=
      reads_change hchg (hct change mem_cons_self) hf n
    obtain ⟨n', hr⟩ := ih (fun c hc => hch c (mem_cons_of_mem change hc))
      (fun c hc => hct c (mem_cons_of_mem change hc)) (filled_concat_chunk hchg chunks) m
    exact ⟨n', by simpa using hs.trans hr⟩

theorem isLine_filename {marker : Text} (hm : '\n' ∉ marker) (hf : IsFilename file) :
    IsLine (marker ++ file) :=
  isLine_marker_append hm hf.nonempty hf.singleLine hf.trimmed

theorem reads_header {marker : Text} {mode' : ℕ → StreamingParserMode} {hunk : Hunk}
    (hready : Ready mode hunks) (hf : IsFilename file) (hm : '\n' ∉ marker)
    (hhe : ∃ c ∈ marker.head?, isWhitespace c = false)
    (hh : ∀ n, (parserAt n mode hunks).handleHunkHeadersAndEndPatch (marker ++ file) =
      .ok (some (parserAt n (mode' n) (hunks ++ [hunk])))) :
    Reads (parserAt n mode hunks) [marker ++ file]
      (parserAt (n + 1) (mode' (n + 1)) (hunks ++ [hunk])) := by
  apply Reads.line (isLine_filename hm hf)
  exact processLine_header hready (trim_marker_append hhe hf.nonempty hf.trimmed)
    (rdropWhile_marker_append _ hf.nonempty hf.trimmed) (hh (n + 1))

theorem reads_moveTo {dest : Text} (hd : IsFilename dest) (n : ℕ) :
    Reads (updateParserAt n k hunks file none []) [moveToMarker ++ dest]
      (updateParserAt (n + 1) k hunks file (some dest) []) := by
  apply Reads.line (isLine_filename (by decide) hd)
  apply processLine_updateLine _ (processUpdateLine_moveTo (n + 1) hd)
  rw [trimEnd, rdropWhile_marker_append _ hd.nonempty hd.trimmed]
  rfl

theorem ready_of_last {hunk : Hunk} (hs : mode ≠ .notStarted) (ho : mode ≠ .endedPatch)
    (hl : ∀ file movePath chunks, hunk = .updateFile file movePath chunks →
      chunks ≠ [] ∧ Filled chunks) : Ready mode (hunks ++ [hunk]) where
  started := hs
  open_ := ho
  complete n line := by
    unfold ensureUpdateHunkIsNotEmpty
    have hg : (parserAt n mode (hunks ++ [hunk])).state.hunks.getLast? = some hunk :=
      getLast?_concat
    rw [hg]
    cases hunk with
    | addFile _ _ | deleteFile _ => rfl
    | updateFile file movePath chunks =>
      obtain ⟨hne, hf⟩ := hl file movePath chunks rfl
      have hchunk := getLast?_eq_some_getLast hne
      simp only [hchunk, hf _ hchunk]
      rfl

theorem reads_hunk {hunk : HunkSyntax} (hwell : WellFormed hunk) (hct : ContextsNonempty hunk.hunk)
    (hready : Ready mode hunks) (n : ℕ) :
    ∃ n' mode', Reads (parserAt n mode hunks) hunk.render (parserAt n' mode' (hunks ++ [hunk.hunk])) ∧
      Ready mode' (hunks ++ [hunk.hunk]) := by
  cases hunk with
  | addHunk file =>
    have hh := reads_header (n := n) hready hwell.1 (by decide) ⟨'*', rfl, by decide⟩
      (fun _ => handle_addFile hready file)
    exact ⟨_, _, hh.trans (reads_addLines hwell.2 (n + 1) []),
      ready_of_last (by simp) (by simp) (by simp [HunkSyntax.hunk])⟩
  | deleteHunk file =>
    have hh := reads_header (n := n) hready hwell (by decide) ⟨'*', rfl, by decide⟩
      (fun _ => handle_deleteFile hready file)
    exact ⟨_, _, hh, ready_of_last (by simp) (by simp) (by simp [HunkSyntax.hunk])⟩
  | updateHunk file changeMove changes =>
    obtain ⟨hf, hmo, hne, hc⟩ := hwell
    have hh := reads_header (n := n) hready hf (by decide) ⟨'*', rfl, by decide⟩
      (fun _ => handle_updateFile hready file)
    obtain ⟨m, hm⟩ : ∃ m, Reads (updateParserAt (n + 1) (n + 1) hunks file none [])
        (changeMove.toList.map (moveToMarker ++ ·))
        (updateParserAt m (n + 1) hunks file changeMove []) := by
      cases changeMove with
      | none => exact ⟨n + 1, Reads.refl _⟩
      | some dest => exact ⟨n + 1 + 1, reads_moveTo (hmo dest rfl) (n + 1)⟩
    obtain ⟨n', hr⟩ : ∃ n', Reads (updateParserAt m (n + 1) hunks file changeMove [])
        (changes.flatMap (·.render))
        (updateParserAt n' (n + 1) hunks file changeMove (changes.map (·.chunk))) :=
      reads_changes hc (changeContext_ne_of_hunk hct) (by simp [Filled]) m
    refine ⟨n', .updateFile (n + 1), hh.trans (hm.trans hr),
      ready_of_last (by simp) (by simp) ?_⟩
    rintro _ _ _ ⟨⟩
    obtain ⟨_, last, rfl⟩ := (eq_nil_or_concat' changes).resolve_left hne
    rw [map_append]
    exact ⟨by simp, filled_concat_chunk (hc last (by simp)) _⟩

theorem reads_hunks {doc : List HunkSyntax} (hwell : ∀ hunk ∈ doc, WellFormed hunk)
    (hc : ∀ tree ∈ doc, ContextsNonempty tree.hunk) (hready : Ready mode hunks) (n : ℕ) :
    ∃ n' mode', Reads (parserAt n mode hunks) (doc.flatMap (·.render))
        (parserAt n' mode' (hunks ++ doc.map (·.hunk))) ∧
      Ready mode' (hunks ++ doc.map (·.hunk)) := by
  induction doc generalizing n mode hunks with
  | nil => exact ⟨n, mode, by simpa using Reads.refl _, by simpa using hready⟩
  | cons hunk _ ih =>
    obtain ⟨m, mode₁, hs, hr₁⟩ :=
      reads_hunk (hwell hunk mem_cons_self) (hc hunk mem_cons_self) hready n
    obtain ⟨n', mode', hr, hr'⟩ := ih (fun h hm => hwell h (mem_cons_of_mem hunk hm))
      (fun h hm => hc h (mem_cons_of_mem hunk hm)) hr₁ m
    exact ⟨n', mode', by simpa using hs.trans hr, by simpa using hr'⟩

end Read

/-! ## The whole patch -/

section Whole

variable {doc : List HunkSyntax}

theorem isLine_of_mem_render {hunk : HunkSyntax} (hwell : WellFormed hunk)
    (hct : ContextsNonempty hunk.hunk) {line : Text} (hl : line ∈ hunk.render) : IsLine line := by
  cases hunk with
  | addHunk =>
    rcases mem_cons.mp hl with rfl | hl
    · exact isLine_filename (by decide) hwell.1
    · obtain ⟨text, ht, rfl⟩ := mem_map.mp hl
      exact isLine_cons (by decide) (by decide) (hwell.2 text ht)
  | deleteHunk =>
    rw [mem_singleton.mp hl]
    exact isLine_filename (by decide) hwell
  | updateHunk =>
    obtain ⟨hf, hm, -, hc⟩ := hwell
    simp only [HunkSyntax.render, mem_cons, mem_append, mem_map, mem_flatMap,
      Option.mem_toList] at hl
    rcases hl with rfl | ⟨dest, hd, rfl⟩ | ⟨change, hchg, hl⟩
    · exact isLine_filename (by decide) hf
    · exact isLine_filename (by decide) (hm dest hd)
    · simp only [render, cons_append, mem_cons, mem_append, mem_map] at hl
      rcases hl with rfl | ⟨changeLine, hme, rfl⟩ | hl
      · exact isLine_header (hc change hchg) (changeContext_ne_of_hunk hct change hchg)
      · exact isLine_render ((hc change hchg).changeLines changeLine hme)
      · have he : line = eofMarker := by
          split at hl <;> simp_all
        rw [he]
        decide

def linesBeforeEnd (doc : List HunkSyntax) : List Text := beginPatchMarker :: doc.flatMap (·.render)

theorem isLine_linesBeforeEnd (hwell : ∀ hunk ∈ doc, WellFormed hunk)
    (hc : ∀ tree ∈ doc, ContextsNonempty tree.hunk) : ∀ line ∈ linesBeforeEnd doc, IsLine line := by
  intro _ hl
  rcases mem_cons.mp hl with rfl | hl
  · decide
  · obtain ⟨hunk, hhunk, hl⟩ := mem_flatMap.mp hl
    exact isLine_of_mem_render (hwell hunk hhunk) (hc hunk hhunk) hl

theorem trim_renderPatch (doc : List HunkSyntax) :
    trim (renderPatch doc) = terminate '\n' (linesBeforeEnd doc) ++ endPatchMarker := by
  have hr : renderPatch doc =
      terminate '\n' (linesBeforeEnd doc) ++ endPatchMarker ++ ['\n'] := by
    simp [renderPatch, linesBeforeEnd]
  have hh : ∀ c ∈ (renderPatch doc).head?, isWhitespace c = false := by
    rw [show (renderPatch doc).head? = some '*' from rfl]
    rintro c ⟨⟩
    decide
  have hl : ∀ c ∈ (terminate '\n' (linesBeforeEnd doc) ++ endPatchMarker).getLast?,
      isWhitespace c = false := by
    rw [getLast?_append_of_ne_nil _ (by decide)]
    rintro c ⟨⟩
    decide
  rw [trim, Lines.trim, Lines.dropWhile_eq_self hh, hr,
    rdropWhile_concat_pos _ _ _ (by decide), Lines.rdropWhile_eq_self hl]

theorem lines_trim_renderPatch (hli : ∀ line ∈ linesBeforeEnd doc, IsLine line) :
    lines (trim (renderPatch doc)) = linesBeforeEnd doc ++ [endPatchMarker] := by
  have hs : ∀ line ∈ linesBeforeEnd doc, stripLineEnding (line ++ ['\n']) = line := by
    intro line hl
    simp [stripLineEnding, stripSuffix_concat, stripSuffix_eq_none (hli line hl).unterminated]
  calc
    lines (trim (renderPatch doc))
      = ((linesBeforeEnd doc).map (· ++ ['\n']) ++ [endPatchMarker]).map stripLineEnding := by
        rw [lines, trim_renderPatch,
          splitInclusive_terminate_append (fun line hl => (hli line hl).singleLine),
          splitInclusive_of_not_mem (by decide) (by decide)]
    _ = (linesBeforeEnd doc).map (fun line => stripLineEnding (line ++ ['\n'])) ++
          [endPatchMarker] := by
        rw [map_append, map_map]
        rfl
    _ = linesBeforeEnd doc ++ [endPatchMarker] := by
        rw [map_congr_left hs, map_id']

theorem checkPatchBoundaries_renderPatch (doc : List HunkSyntax) :
    checkPatchBoundariesLenient (linesBeforeEnd doc ++ [endPatchMarker]) =
      .ok (linesBeforeEnd doc ++ [endPatchMarker]) := by
  have hs : checkPatchBoundariesStrict (linesBeforeEnd doc ++ [endPatchMarker]) =
      .ok (linesBeforeEnd doc ++ [endPatchMarker]) := by
    rw [checkPatchBoundariesStrict, getLast?_concat]
    rfl
  rw [checkPatchBoundariesLenient, hs]

theorem finish_endPatch {mode : StreamingParserMode} (hready : Ready mode hunks) (n : ℕ) :
    (parserAt n mode hunks).pushDelta endPatchMarker >>= finish =
      .ok (parserAt (n + 1) .endedPatch hunks) := by
  rw [pushDelta_of_not_mem (by decide)]
  change finish { parserAt n mode hunks with lineBuffer := endPatchMarker } = _
  have hf : flush { parserAt n mode hunks with lineBuffer := endPatchMarker } =
      .ok (parserAt (n + 1) .endedPatch hunks) := by
    have hc := hready.complete (n + 1) (trim endPatchMarker)
    have ht : (trim endPatchMarker == endPatchMarker) = true := by decide
    have hb : endPatchMarker.isEmpty = false := rfl
    simp only [parserAt] at hc
    simp only [flush, hb, ht, hc, parserAt]
    rfl
  rw [finish, hf]
  rfl

theorem parsePatch_renderPatch (hwell : ∀ hunk ∈ doc, WellFormed hunk)
    (hc : ∀ tree ∈ doc, ContextsNonempty tree.hunk) :
    parsePatch (renderPatch doc) = .ok ⟨trim (renderPatch doc), doc.map (·.hunk), none, none⟩ := by
  have hl := isLine_linesBeforeEnd hwell hc
  have hb : Reads {} [beginPatchMarker] (parserAt 1 .startedPatch []) :=
    Reads.line (by decide) rfl
  have hready : Ready .startedPatch [] := ⟨by simp, by simp, fun _ _ => rfl⟩
  obtain ⟨n, mode, hr, hr'⟩ := reads_hunks hwell hc hready 1
  have hfe : pushDelta {} (terminate '\n' (linesBeforeEnd doc) ++ endPatchMarker) =
      (parserAt n mode (doc.map (·.hunk))).pushDelta endPatchMarker :=
    (hb.trans hr) endPatchMarker
  rw [nil_append] at hr'
  have hf := finish_endPatch hr' n
  calc
    parsePatch (renderPatch doc)
      = pushDelta {} (['\n'].intercalate (linesBeforeEnd doc ++ [endPatchMarker])) >>= finish >>=
          fun parser => .ok ⟨['\n'].intercalate (linesBeforeEnd doc ++ [endPatchMarker]),
            parser.state.hunks, none, parser.state.environmentId⟩ := by
        simp only [parsePatch, parsePatchText, lines_trim_renderPatch hl,
          checkPatchBoundaries_renderPatch, bind_assoc]
        rfl
    _ = .ok ⟨trim (renderPatch doc), doc.map (·.hunk), none, none⟩ := by
        rw [intercalate_concat, trim_renderPatch, hfe, hf]
        rfl

end Whole

/-- Hunks can be written in the documented syntax, and the parser reads each way of writing them back,
provided that no change context is empty. -/
theorem parsePatch_inverts_rendering (hunks : List Hunk) (hhunks : ∀ hunk ∈ hunks, IsHunk hunk)
    (hcontexts : ∀ hunk ∈ hunks, ContextsNonempty hunk) :
    (∃ doc, IsRendering doc hunks) ∧ ∀ doc, IsRendering doc hunks →
      (parsePatch (renderPatch doc)).map (·.hunks) = .ok hunks := by
  constructor
  · obtain ⟨doc, hwell, hdoc⟩ := exists_map_eq (fun hunk hhunk => exists_tree_of_hunk (hhunks hunk hhunk))
    exact ⟨doc, hdoc, hwell⟩
  rintro _ ⟨rfl, hwell⟩
  rw [parsePatch_renderPatch hwell (fun tree htree => hcontexts _ (mem_map_of_mem htree))]
  rfl

/-- One hunk of each kind; the update renames its file, has a context line and ends the file. -/
def sampleHunks : List Hunk :=
  [.addFile "new".toList "first\n\n".toList, .deleteFile "gone".toList,
    .updateFile "old name".toList (some "dir/name".toList)
      [⟨some "fn main".toList, ["  a".toList, "b".toList], ["b".toList, "c ".toList], [(1, 0)], true⟩]]

theorem parsePatch_inverts_rendering_sampleHunks :
    (∃ doc, IsRendering doc sampleHunks) ∧ ∀ doc, IsRendering doc sampleHunks →
      (parsePatch (renderPatch doc)).map (·.hunks) = .ok sampleHunks := by
  apply parsePatch_inverts_rendering <;> intro hunk hhunk
  · simp only [sampleHunks, mem_cons, not_mem_nil, or_false] at hhunk
    rcases hhunk with rfl | rfl | rfl
    · exact ⟨by decide, ["first".toList, []], by decide, by decide⟩
    · exact (show IsFilename _ by decide)
    · refine ⟨by decide, by decide, by decide, ?_⟩
      intro _ hchunk
      rw [mem_singleton] at hchunk
      subst hchunk
      exact ⟨by decide, by decide, by decide, by decide, by decide, by decide,
        ⟨"b".toList, by decide, by decide⟩, trivial⟩
  · simp only [sampleHunks, mem_cons, not_mem_nil, or_false] at hhunk
    rcases hhunk with rfl | rfl | rfl
    · exact trivial
    · exact trivial
    · simp only [ContextsNonempty, mem_singleton]
      rintro _ rfl
      decide

/-- An empty change context is rendered as the marker and a blank, and read back as no context. -/
theorem parsePatch_loses_empty_context :
    ∃ (hunks : List Hunk) (doc : List HunkSyntax), (∀ hunk ∈ hunks, IsHunk hunk) ∧
      IsRendering doc hunks ∧ (parsePatch (renderPatch doc)).map (·.hunks) ≠ .ok hunks := by
  refine ⟨[.updateFile "a".toList none [{ changeContext := some [], oldLines := ["x".toList] }]],
    [.updateHunk "a".toList none [⟨some [], [.remove "x".toList], false⟩]], ?_, ⟨rfl, ?_⟩, ?_⟩
  · intro _ hhunk
    rw [mem_singleton] at hhunk
    subst hhunk
    refine ⟨by decide, by decide, by decide, ?_⟩
    intro _ hchunk
    rw [mem_singleton] at hchunk
    subst hchunk
    exact ⟨by decide, by decide, by decide, by decide, trivial⟩
  · intro _ htree
    rw [mem_singleton] at htree
    subst htree
    refine ⟨by decide, by decide, by decide, ?_⟩
    intro _ hchg
    rw [mem_singleton] at hchg
    subst hchg
    exact ⟨by decide, by decide, by decide⟩
  · decide +kernel

end Slopdex.Patch
