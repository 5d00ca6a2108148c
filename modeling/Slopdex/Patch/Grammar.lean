import Slopdex.Patch.Parser

/-!
# The documented syntax of patches

The grammar of patches is given by syntax trees and their rendering. A syntax tree has more
information than the chunk that it stands for: the chunk forgets how removed and added lines were
mixed. Every chunk whose context lines are aligned has a syntax tree.
-/

namespace Slopdex.Patch

open Protocol (Text trim)
open Library UpdateFileChunk List

inductive ChangeLine
  | context (line : Text)
  | add (line : Text)
  | remove (line : Text)

structure ChangeSyntax where
  changeContext : Option Text
  changeLines : List ChangeLine
  eofLine : Bool

inductive HunkSyntax
  | addHunk (filename : Text) (addLines : List Text)
  | deleteHunk (filename : Text)
  | updateHunk (filename : Text) (changeMove : Option Text) (changes : List ChangeSyntax)

namespace ChangeLine

def text : ChangeLine → Text
  | context line | add line | remove line => line

def render : ChangeLine → Text
  | context line => ' ' :: line
  | add line => '+' :: line
  | remove line => '-' :: line

def push : ChangeLine → UpdateFileChunk → UpdateFileChunk
  | context line => .pushContextLine line
  | add line => .pushNewLine line
  | remove line => .pushOldLine line

def pushAll (changeLines : List ChangeLine) (chunk : UpdateFileChunk) : UpdateFileChunk :=
  changeLines.foldl (fun chunk line => line.push chunk) chunk

theorem pushAll_eq {α : Type} (f : UpdateFileChunk → α)
    (hf : ∀ (line : ChangeLine) chunk, f (line.push chunk) = f chunk) (changeLines : List ChangeLine)
    (chunk : UpdateFileChunk) : f (pushAll changeLines chunk) = f chunk := by
  induction changeLines generalizing chunk with
  | nil => rfl
  | cons line _ ih => exact (ih _).trans (hf line chunk)

@[simp] theorem pushAll_nil (chunk : UpdateFileChunk) : pushAll [] chunk = chunk := rfl

@[simp] theorem pushAll_cons (line : ChangeLine) (changeLines : List ChangeLine)
    (chunk : UpdateFileChunk) :
    pushAll (line :: changeLines) chunk = pushAll changeLines (line.push chunk) := rfl

theorem pushAll_append (changeLines changeLines' : List ChangeLine) (chunk : UpdateFileChunk) :
    pushAll (changeLines ++ changeLines') chunk = pushAll changeLines' (pushAll changeLines chunk) :=
  foldl_append

end ChangeLine

open ChangeLine

namespace ChangeSyntax

variable (change : ChangeSyntax)

def header : Text :=
  match change.changeContext with
  | none => emptyChangeContextMarker
  | some changeContext => changeContextMarker ++ changeContext

def render : List Text :=
  change.header :: change.changeLines.map (·.render) ++ (if change.eofLine then [eofMarker] else [])

def body : UpdateFileChunk :=
  pushAll change.changeLines { changeContext := change.changeContext }

def chunk : UpdateFileChunk :=
  { change.body with isEndOfFile := change.eofLine }

end ChangeSyntax

namespace HunkSyntax

def render : HunkSyntax → List Text
  | addHunk filename addLines => (addFileMarker ++ filename) :: addLines.map ('+' :: ·)
  | deleteHunk filename => [deleteFileMarker ++ filename]
  | updateHunk filename changeMove changes =>
    (updateFileMarker ++ filename) :: (changeMove.toList.map (moveToMarker ++ ·) ++
      changes.flatMap (·.render))

def hunk : HunkSyntax → Hunk
  | addHunk filename addLines => .addFile filename (Lines.terminate '\n' addLines)
  | deleteHunk filename => .deleteFile filename
  | updateHunk filename changeMove changes => .updateFile filename changeMove (changes.map (·.chunk))

end HunkSyntax

def renderPatch (hunks : List HunkSyntax) : Text :=
  Lines.terminate '\n' (beginPatchMarker :: hunks.flatMap (·.render) ++ [endPatchMarker])

/-- A non-empty path on a single line without whitespace around it. -/
@[mk_iff]
structure IsFilename (filename : Text) : Prop where
  nonempty : filename ≠ []
  singleLine : '\n' ∉ filename
  trimmed : trim filename = filename

/-- A line has no line feed, and no carriage return at its end. -/
@[mk_iff]
structure IsLine (line : Text) : Prop where
  singleLine : '\n' ∉ line
  unterminated : line.getLast? ≠ some '\r'

@[mk_iff]
structure IsChangeContext (changeContext : Text) : Prop where
  singleLine : '\n' ∉ changeContext
  trimmed : trim changeContext = changeContext

instance : DecidablePred IsFilename := fun _ => decidable_of_iff' _ (isFilename_iff _)

instance : DecidablePred IsLine := fun _ => decidable_of_iff' _ (isLine_iff _)

instance : DecidablePred IsChangeContext := fun _ => decidable_of_iff' _ (isChangeContext_iff _)

structure IsChange (change : ChangeSyntax) : Prop where
  changeContext : ∀ changeContext ∈ change.changeContext, IsChangeContext changeContext
  nonempty : change.changeLines ≠ []
  changeLines : ∀ line ∈ change.changeLines, IsLine line.text

def WellFormed : HunkSyntax → Prop
  | .addHunk filename addLines => IsFilename filename ∧ ∀ line ∈ addLines, IsLine line
  | .deleteHunk filename => IsFilename filename
  | .updateHunk filename changeMove changes =>
    IsFilename filename ∧ (∀ dest ∈ changeMove, IsFilename dest) ∧ changes ≠ [] ∧
      ∀ change ∈ changes, IsChange change

structure IsRendering (doc : List HunkSyntax) (hunks : List Hunk) : Prop where
  hunks : doc.map (·.hunk) = hunks
  wellFormed : ∀ tree ∈ doc, WellFormed tree

def ContextsNonempty : Hunk → Prop
  | .updateFile _ _ chunks => ∀ chunk ∈ chunks, chunk.changeContext ≠ some []
  | _ => True

/-- The pairs name equal lines of both sides, in order and from the given positions on. -/
def Aligned (oldLines newLines : List Text) : ℕ → ℕ → List (ℕ × ℕ) → Prop
  | _, _, [] => True
  | i, j, (o, n) :: indices =>
    i ≤ o ∧ j ≤ n ∧ (∃ line, oldLines[o]? = some line ∧ newLines[n]? = some line) ∧
      Aligned oldLines newLines (o + 1) (n + 1) indices

structure IsChunk (chunk : UpdateFileChunk) : Prop where
  changeContext : ∀ changeContext ∈ chunk.changeContext, IsChangeContext changeContext
  nonempty : chunk.hasNoLines = false
  oldLines : ∀ line ∈ chunk.oldLines, IsLine line
  newLines : ∀ line ∈ chunk.newLines, IsLine line
  aligned : Aligned chunk.oldLines chunk.newLines 0 0 chunk.contextLineIndices

def IsHunk : Hunk → Prop
  | .addFile path contents =>
    IsFilename path ∧ ∃ addLines, (∀ line ∈ addLines, IsLine line) ∧
      contents = Lines.terminate '\n' addLines
  | .deleteFile path => IsFilename path
  | .updateFile path movePath chunks =>
    IsFilename path ∧ (∀ dest ∈ movePath, IsFilename dest) ∧ chunks ≠ [] ∧
      ∀ chunk ∈ chunks, IsChunk chunk

def changeLinesOf (oldLines newLines : List Text) : ℕ → ℕ → List (ℕ × ℕ) → List ChangeLine
  | i, j, [] => (oldLines.drop i).map .remove ++ (newLines.drop j).map .add
  | i, j, (o, n) :: indices =>
    ((oldLines.take o).drop i).map .remove ++ (((newLines.take n).drop j).map .add ++
      ((oldLines[o]?.map .context).toList ++ changeLinesOf oldLines newLines (o + 1) (n + 1) indices))

section Render

variable {oldLines newLines : List Text}

theorem exists_map_eq {α β : Type*} {P : α → Prop} {f : α → β} {l : List β}
    (h : ∀ b ∈ l, ∃ a, P a ∧ f a = b) : ∃ l' : List α, (∀ a ∈ l', P a) ∧ l'.map f = l := by
  induction l with
  | nil => exact ⟨[], by simp, rfl⟩
  | cons b l ih =>
    obtain ⟨a, ha, rfl⟩ := h b mem_cons_self
    obtain ⟨l', hl', rfl⟩ := ih (fun b' hb' => h b' (mem_cons_of_mem _ hb'))
    exact ⟨a :: l', by simpa [ha] using hl', rfl⟩

theorem pushAll_remove (lines : List Text) (chunk : UpdateFileChunk) :
    pushAll (lines.map .remove) chunk = { chunk with oldLines := chunk.oldLines ++ lines } := by
  induction lines generalizing chunk with
  | nil => simp
  | cons _ _ ih =>
    rw [map_cons, pushAll_cons, ih]
    simp [push, pushOldLine]

theorem pushAll_add (lines : List Text) (chunk : UpdateFileChunk) :
    pushAll (lines.map .add) chunk = { chunk with newLines := chunk.newLines ++ lines } := by
  induction lines generalizing chunk with
  | nil => simp
  | cons _ _ ih =>
    rw [map_cons, pushAll_cons, ih]
    simp [push, pushNewLine]

theorem take_append_drop_take {α : Type*} (l : List α) {i o : ℕ} (h : i ≤ o) :
    l.take i ++ (l.take o).drop i = l.take o := by
  have ht : l.take i = (l.take o).take i := by
    rw [take_take, Nat.min_eq_left h]
  rw [ht, take_append_drop]

theorem pushAll_changeLinesOf {indices : List (ℕ × ℕ)} {i j : ℕ}
    (ha : Aligned oldLines newLines i j indices) {chunk : UpdateFileChunk}
    (hold : chunk.oldLines = oldLines.take i) (hnew : chunk.newLines = newLines.take j) :
    pushAll (changeLinesOf oldLines newLines i j indices) chunk =
      { chunk with
        oldLines := oldLines
        newLines := newLines
        contextLineIndices := chunk.contextLineIndices ++ indices } := by
  induction indices generalizing i j chunk with
  | nil =>
    rw [changeLinesOf, pushAll_append, pushAll_remove, pushAll_add]
    simp [hold, hnew]
  | cons index _ ih =>
    obtain ⟨o, n⟩ := index
    obtain ⟨hio, hjn, ⟨line, ho, hn⟩, hr⟩ := ha
    have hol : oldLines.take (o + 1) = oldLines.take o ++ [line] := by
      rw [take_add_one, ho]
      rfl
    have hne : newLines.take (n + 1) = newLines.take n ++ [line] := by
      rw [take_add_one, hn]
      rfl
    have hoL : o < oldLines.length := (List.getElem?_eq_some_iff.mp ho).1
    have hnL : n < newLines.length := (List.getElem?_eq_some_iff.mp hn).1
    rw [changeLinesOf, ho, pushAll_append, pushAll_remove, pushAll_append,
      pushAll_add, hold, hnew, take_append_drop_take _ hio, take_append_drop_take _ hjn]
    rw [Option.map_some, Option.toList_some, singleton_append, pushAll_cons,
      ih hr (by rw [hol]; rfl) (by rw [hne]; rfl)]
    simp [push, pushContextLine, hoL.le, hnL.le]

theorem mem_of_mem_changeLinesOf {indices : List (ℕ × ℕ)} {i j : ℕ} {line : ChangeLine}
    (hl : line ∈ changeLinesOf oldLines newLines i j indices) :
    line.text ∈ oldLines ∨ line.text ∈ newLines := by
  induction indices generalizing i j with
  | nil =>
    rw [changeLinesOf, mem_append, mem_map, mem_map] at hl
    rcases hl with ⟨_, ht, rfl⟩ | ⟨_, ht, rfl⟩
    · exact .inl (mem_of_mem_drop ht)
    · exact .inr (mem_of_mem_drop ht)
  | cons _ _ ih =>
    simp only [changeLinesOf, mem_append, mem_map, Option.mem_toList,
      Option.map_eq_some_iff] at hl
    rcases hl with ⟨_, ht, rfl⟩ | ⟨_, ht, rfl⟩ | ⟨_, ht, rfl⟩ | hl
    · exact .inl (mem_of_mem_take (mem_of_mem_drop ht))
    · exact .inr (mem_of_mem_take (mem_of_mem_drop ht))
    · exact .inl (mem_of_getElem? ht)
    · exact ih hl

end Render

theorem exists_change_of_chunk {chunk : UpdateFileChunk} (hc : IsChunk chunk) :
    ∃ change : ChangeSyntax, IsChange change ∧ change.chunk = chunk := by
  let change : ChangeSyntax :=
    ⟨chunk.changeContext, changeLinesOf chunk.oldLines chunk.newLines 0 0 chunk.contextLineIndices,
      chunk.isEndOfFile⟩
  have hb : change.body = { chunk with isEndOfFile := false } :=
    pushAll_changeLinesOf hc.aligned (by simp) (by simp)
  have heq : change.chunk = chunk := by
    rw [ChangeSyntax.chunk, hb]
  refine ⟨change, ⟨hc.changeContext, ?_, ?_⟩, heq⟩
  · intro hnil
    have hemp : change.body = { changeContext := chunk.changeContext } := by
      rw [ChangeSyntax.body, hnil]
      rfl
    have hl := hc.nonempty
    rw [← heq, ChangeSyntax.chunk, hemp] at hl
    simp [hasNoLines] at hl
  · intro _ hli
    rcases mem_of_mem_changeLinesOf hli with hold | hnew
    · exact hc.oldLines _ hold
    · exact hc.newLines _ hnew

theorem exists_tree_of_hunk {hunk : Hunk} (hh : IsHunk hunk) :
    ∃ tree : HunkSyntax, WellFormed tree ∧ tree.hunk = hunk := by
  cases hunk with
  | addFile path =>
    obtain ⟨hp, addLines, hl, rfl⟩ := hh
    exact ⟨.addHunk path addLines, ⟨hp, hl⟩, rfl⟩
  | deleteFile path => exact ⟨.deleteHunk path, hh, rfl⟩
  | updateFile path movePath =>
    obtain ⟨hp, hm, hne, hch⟩ := hh
    obtain ⟨changes, hchg, rfl⟩ :=
      exists_map_eq (fun chunk hc => exists_change_of_chunk (hch chunk hc))
    exact ⟨.updateHunk path movePath changes, ⟨hp, hm, by simpa using hne, hchg⟩, rfl⟩

end Slopdex.Patch
