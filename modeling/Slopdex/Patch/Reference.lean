import Slopdex.Patch.Semantics

/-!
# The meaning of a list of hunks

The hunks of a patch mean a sequence of changes: an added file has its contents, a deleted file is
gone, an updated file has its contents with the chunks applied, at the destination if it has one.
Applying the hunks does the same, except that a file which is moved onto itself is lost until a
later hunk writes it again.
-/

namespace Slopdex.Patch

open Protocol (Text)
open Library.Effects Function
open Option (some map_eq_some_iff)
open List Option Hunk

variable {World Path : Type} [DecidableEq Path]

section

variable (uris : PathUris Path) (cwd : Path) (updateFileMode : ApplyPatchFileUpdateMode)

variable (hunks : List Hunk)

def effects (files : Files Path) : Option (Files Path) :=
  hunks.foldlM (fun files hunk => hunkEffect uris cwd updateFileMode hunk files) files

/-- The sequential meaning of hunks. -/
def reference (files : Files Path) : Option (Files Path) :=
  hunks.foldlM (fun files hunk => hunkReference uris cwd updateFileMode hunk files) files

def Hunk.writes (hunk : Hunk) : Option Path :=
  match hunk with
  | .addFile .. | .updateFile _ none _ => hunk.source uris cwd
  | .deleteFile _ => none
  | .updateFile _ (some _) _ => hunk.dest uris cwd

def lastWriter (path : Path) : Option Hunk :=
  hunks.reverse.find? (·.writes uris cwd = some path)

/-- The paths whose last writer moves the file there onto itself. -/
def lostPaths : Set Path :=
  { path | ∃ hunk, lastWriter uris cwd hunks path = some hunk ∧ hunk.IsSelfMove uris cwd }

end

section

variable {uris : PathUris Path} {cwd : Path} {updateFileMode : ApplyPatchFileUpdateMode}
  {hunks : List Hunk} {hunk : Hunk} {path : Path} {files files' : Files Path}

theorem effects_cons : effects uris cwd updateFileMode (hunk :: hunks) files =
    (hunkEffect uris cwd updateFileMode hunk files).bind
      (effects uris cwd updateFileMode hunks) := rfl

theorem effects_append {hu' : List Hunk} : effects uris cwd updateFileMode (hunks ++ hu') files =
    (effects uris cwd updateFileMode hunks files).bind (effects uris cwd updateFileMode hu') :=
  foldlM_append

theorem effects_concat : effects uris cwd updateFileMode (hunks ++ [hunk]) files =
    (effects uris cwd updateFileMode hunks files).bind
      (hunkEffect uris cwd updateFileMode hunk) := by
  simp [effects, foldlM_append, bind_eq_bind]

theorem reference_concat : reference uris cwd updateFileMode (hunks ++ [hunk]) files =
    (reference uris cwd updateFileMode hunks files).bind
      (hunkReference uris cwd updateFileMode hunk) := by
  simp [reference, foldlM_append, bind_eq_bind]

theorem mem_lostPaths_concat_of_writes (h : hunk.writes uris cwd = some path) :
    path ∈ lostPaths uris cwd (hunks ++ [hunk]) ↔ hunk.IsSelfMove uris cwd := by
  simp [lostPaths, lastWriter, h]

theorem mem_lostPaths_concat_of_not_writes (h : hunk.writes uris cwd ≠ some path) :
    path ∈ lostPaths uris cwd (hunks ++ [hunk]) ↔ path ∈ lostPaths uris cwd hunks := by
  simp [lostPaths, lastWriter, h]

theorem lostPaths_concat_of_not_selfMove (hw : hunk.writes uris cwd = some path)
    (hs : ¬ hunk.IsSelfMove uris cwd) :
    lostPaths uris cwd (hunks ++ [hunk]) = lostPaths uris cwd hunks \ {path} := by
  ext other
  by_cases heq : other = path
  · subst heq
    simp [mem_lostPaths_concat_of_writes hw, hs]
  · rw [mem_lostPaths_concat_of_not_writes (by simpa [hw] using Ne.symm heq)]
    simp [heq]

theorem lostPaths_concat_of_selfMove (hw : hunk.writes uris cwd = some path)
    (hs : hunk.IsSelfMove uris cwd) :
    lostPaths uris cwd (hunks ++ [hunk]) = insert path (lostPaths uris cwd hunks) := by
  ext other
  by_cases heq : other = path
  · subst heq
    simp [mem_lostPaths_concat_of_writes hw, hs]
  · rw [mem_lostPaths_concat_of_not_writes (by simpa [hw] using Ne.symm heq)]
    simp [heq]

theorem lostPaths_concat_of_writes_none (hw : hunk.writes uris cwd = none) :
    lostPaths uris cwd (hunks ++ [hunk]) = lostPaths uris cwd hunks := by
  ext other
  exact mem_lostPaths_concat_of_not_writes (by simp [hw])

theorem lostPaths_eq_empty (h : ∀ hunk ∈ hunks, ¬ hunk.IsSelfMove uris cwd) :
    lostPaths uris cwd hunks = ∅ := by
  rw [Set.eq_empty_iff_forall_notMem]
  rintro _ ⟨hunk, hl, hs⟩
  have hm : hunk ∈ hunks := by
    rw [lastWriter] at hl
    exact mem_reverse.mp (mem_of_find?_eq_some hl)
  exact h hunk hm hs

end

/-! ## Where the files differ from their meaning -/

/-- The files as they are and as they are meant: the lost ones, which are meant to be texts, are
missing, and all others are the same. -/
structure Diverges (lost : Set Path) (files meant : Files Path) : Prop where
  missing : ∀ path ∈ lost, files path = none ∧ ∃ contents, meant path = some (.text contents)
  same : ∀ path ∉ lost, files path = meant path

namespace Diverges

variable {lost : Set Path} {files meant : Files Path} {path : Path}

section

variable (h : Diverges lost files meant)
include h

omit [DecidableEq Path] in
theorem notMem (hs : (files path).isSome) : path ∉ lost := by
  intro hlost
  rw [(h.missing path hlost).1] at hs
  exact absurd hs (by simp)

theorem update (path : Path) (contents : Option FileContents) :
    Diverges (lost \ {path}) (update files path contents) (update meant path contents) where
  missing other ho := by
    rw [update_of_ne ho.2, update_of_ne ho.2]
    exact h.missing other ho.1
  same other ho := by
    by_cases heq : other = path
    · rw [heq, update_self, update_self]
    · rw [update_of_ne heq, update_of_ne heq]
      exact h.same other fun hlost => ho ⟨hlost, heq⟩

theorem lose (path : Path) (contents : Text) :
    Diverges (insert path lost) (Function.update files path none)
      (Function.update meant path (some (.text contents))) where
  missing other ho := by
    by_cases heq : other = path
    · simp [heq]
    · rw [update_of_ne heq, update_of_ne heq]
      exact h.missing other (ho.resolve_left heq)
  same other ho := by
    have heq : other ≠ path := fun heq => ho (.inl heq)
    rw [update_of_ne heq, update_of_ne heq]
    exact h.same other fun hlost => ho (.inr hlost)

omit [DecidableEq Path] in
theorem textFiles_eq_iff : textFiles meant = textFiles files ↔ lost = ∅ := by
  constructor
  · intro heq
    rw [Set.eq_empty_iff_forall_notMem]
    intro path hlost
    obtain ⟨hm, _, hmeant⟩ := h.missing path hlost
    have hpath : textFiles meant path = textFiles files path := congrFun heq path
    simp [textFiles, hm, hmeant, FileContents.toText] at hpath
  · intro he
    funext path
    rw [textFiles, textFiles, h.same path (by simp [he])]

omit [DecidableEq Path] in
theorem eq_iff : meant = files ↔ lost = ∅ := by
  constructor
  · intro heq
    exact h.textFiles_eq_iff.mp (congrArg textFiles heq)
  · intro he
    funext path
    exact (h.same path (by simp [he])).symm

end

end Diverges

section

variable {uris : PathUris Path} {cwd : Path} {updateFileMode : ApplyPatchFileUpdateMode}
  {hunks : List Hunk} {hunk : Hunk} {path : Path} {files files' meant : Files Path}

omit [DecidableEq Path] in
theorem not_isSelfMove_of_dest (h : hunk.dest uris cwd = none) : ¬ hunk.IsSelfMove uris cwd := by
  rintro ⟨_, -, hd⟩
  rw [h] at hd
  exact absurd hd (by simp)

omit [DecidableEq Path] in
theorem isSome_of_updatedText {chunks : List UpdateFileChunk} {contents : Text}
    (h : updatedText uris updateFileMode files path chunks = some contents) :
    (files path).isSome := by
  cases hf : files path with
  | none => simp [updatedText, hf] at h
  | some => rfl

omit [DecidableEq Path] in
theorem updatedText_congr (h : files path = meant path) (chunks : List UpdateFileChunk) :
    updatedText uris updateFileMode files path chunks =
      updatedText uris updateFileMode meant path chunks := by
  rw [updatedText, h]
  rfl

theorem source_of_hunkEffect (h : hunkEffect uris cwd updateFileMode hunk files = some files') :
    ∃ path, hunk.source uris cwd = some path := by
  cases hs : hunk.source uris cwd with
  | none => simp [hunkEffect, effectOf, hs] at h
  | some path => exact ⟨path, rfl⟩

theorem dest_of_hunkEffect {file destText : Text} {chunks : List UpdateFileChunk}
    (h : hunkEffect uris cwd updateFileMode (.updateFile file (some destText) chunks) files =
      some files') :
    ∃ dest, (updateFile file (some destText) chunks).dest uris cwd = some dest := by
  cases hd : (updateFile file (some destText) chunks).dest uris cwd with
  | none => simp [hunkEffect, effectOf, hd] at h
  | some dest => exact ⟨dest, rfl⟩

theorem hunkEffect_of_not_names (h : hunkEffect uris cwd updateFileMode hunk files = some files')
    (hpath : ¬ hunk.Names uris cwd path) : files' path = files path := by
  obtain ⟨source, hs⟩ := source_of_hunkEffect h
  have hne : path ≠ source := fun heq => hpath (.inl (heq ▸ hs))
  cases hunk with
  | addFile =>
    rw [hunkEffect, effectOf_addFile hs, some.injEq] at h
    rw [← h, update_of_ne hne]
  | deleteFile =>
    rw [hunkEffect, effectOf_deleteFile hs, map_eq_some_iff] at h
    obtain ⟨_, -, rfl⟩ := h
    exact update_of_ne hne _ _
  | updateFile _ movePath =>
    cases movePath with
    | none =>
      rw [hunkEffect, effectOf_updateFile hs, map_eq_some_iff] at h
      obtain ⟨_, -, rfl⟩ := h
      exact update_of_ne hne _ _
    | some =>
      obtain ⟨dest, hd⟩ := dest_of_hunkEffect h
      rw [hunkEffect, effectOf_move hs hd, map_eq_some_iff] at h
      obtain ⟨_, -, rfl⟩ := h
      have hn : path ≠ dest := fun heq => hpath (.inr (heq ▸ hd))
      rw [writeThenRemove, update_of_ne hne, update_of_ne hn]

theorem effects_of_not_names (h : effects uris cwd updateFileMode hunks files = some files')
    (hpath : ∀ hunk ∈ hunks, ¬ hunk.Names uris cwd path) : files' path = files path := by
  induction hunks generalizing files with
  | nil =>
    have heq : files = files' := by simpa [effects] using h
    rw [heq]
  | cons hunk _ ih =>
    rw [effects_cons, bind_eq_some_iff] at h
    obtain ⟨files₁, he, heffs⟩ := h
    calc files' path = files₁ path := ih heffs fun other ho => hpath other (.tail _ ho)
      _ = files path := hunkEffect_of_not_names he (hpath hunk (.head _))

theorem Diverges.apply (h : Diverges (lostPaths uris cwd hunks) files meant)
    (he : hunkEffect uris cwd updateFileMode hunk files = some files') :
    ∃ meant', hunkReference uris cwd updateFileMode hunk meant = some meant' ∧
      Diverges (lostPaths uris cwd (hunks ++ [hunk])) files' meant' := by
  obtain ⟨path, hsr⟩ := source_of_hunkEffect he
  cases hunk with
  | addFile file contents =>
    rw [hunkEffect, effectOf_addFile hsr, some.injEq] at he
    subst he
    refine ⟨_, effectOf_addFile hsr, ?_⟩
    have hw : (addFile file contents).writes uris cwd = some path := hsr
    have hd : (addFile file contents).dest uris cwd = none := rfl
    rw [lostPaths_concat_of_not_selfMove hw (not_isSelfMove_of_dest hd)]
    exact h.update path _
  | deleteFile =>
    rw [hunkEffect, effectOf_deleteFile hsr, map_eq_some_iff] at he
    obtain ⟨_, hf, rfl⟩ := he
    have hk : path ∉ lostPaths uris cwd hunks := h.notMem (by simp [hf])
    refine ⟨Function.update meant path none, ?_, ?_⟩
    · rw [hunkReference, effectOf_deleteFile hsr, ← h.same path hk, hf]
      rfl
    · rw [lostPaths_concat_of_writes_none rfl, ← Set.sdiff_singleton_eq_self hk]
      exact h.update path none
  | updateFile file movePath chunks =>
    cases movePath with
    | none =>
      rw [hunkEffect, effectOf_updateFile hsr, map_eq_some_iff] at he
      obtain ⟨contents, hc, rfl⟩ := he
      have hs := h.same path (h.notMem (isSome_of_updatedText hc))
      refine ⟨Function.update meant path (some (.text contents)), ?_, ?_⟩
      · rw [hunkReference, effectOf_updateFile hsr, ← updatedText_congr hs, hc]
        rfl
      · have hw : (updateFile file none chunks).writes uris cwd = some path := hsr
        have hd : (updateFile file none chunks).dest uris cwd = none := rfl
        rw [lostPaths_concat_of_not_selfMove hw (not_isSelfMove_of_dest hd)]
        exact h.update path _
    | some destText =>
      obtain ⟨dest, hd⟩ := dest_of_hunkEffect he
      rw [hunkEffect, effectOf_move hsr hd, map_eq_some_iff] at he
      obtain ⟨contents, hc, rfl⟩ := he
      have hk := h.notMem (isSome_of_updatedText hc)
      have hw : (updateFile file (some destText) chunks).writes uris cwd = some dest :=
        hd
      refine ⟨removeThenWrite meant path dest contents, ?_, ?_⟩
      · rw [hunkReference, effectOf_move hsr hd, ← updatedText_congr (h.same path hk),
          hc]
        rfl
      by_cases heq : path = dest
      · subst heq
        rw [lostPaths_concat_of_selfMove hw ⟨path, hsr, hd⟩, writeThenRemove,
          removeThenWrite, update_idem, update_idem]
        exact h.lose path _
      · have hse : ¬ (updateFile file (some destText) chunks).IsSelfMove uris cwd := by
          rintro ⟨_, hot, ho⟩
          rw [hsr, some.injEq] at hot
          rw [hd, some.injEq] at ho
          exact heq (hot.trans ho.symm)
        have hlost : lostPaths uris cwd hunks \ {dest} = (lostPaths uris cwd hunks \ {dest}) \ {path} :=
          (Set.sdiff_singleton_eq_self fun hm => hk hm.1).symm
        rw [lostPaths_concat_of_not_selfMove hw hse, hlost, writeThenRemove, removeThenWrite,
          update_comm heq]
        exact (h.update dest _).update path none

theorem exists_reference_of_effects
    (heffs : effects uris cwd updateFileMode hunks files = some files') :
    ∃ meant, reference uris cwd updateFileMode hunks files = some meant ∧
      Diverges (lostPaths uris cwd hunks) files' meant := by
  induction hunks using reverseRecOn generalizing files' with
  | nil =>
    have heq : files' = files := by simpa [effects] using heffs.symm
    subst heq
    refine ⟨files', rfl, ?_, fun _ _ => rfl⟩
    intro _ hpath
    simp [lostPaths, lastWriter] at hpath
  | append_singleton _ _ ih =>
    rw [effects_concat, bind_eq_some_iff] at heffs
    obtain ⟨_, he₁, he⟩ := heffs
    obtain ⟨_, hm₁, hdiv⟩ := ih he₁
    obtain ⟨meant, hmeant, hd'⟩ := hdiv.apply he
    refine ⟨meant, ?_, hd'⟩
    rw [reference_concat, hm₁]
    exact hmeant

end

section

variable {fs : ExecutorFileSystem World Path} {view : World → View Path} {uris : PathUris Path}
  {cwd : Path} {updateFileMode : ApplyPatchFileUpdateMode} {hunks : List Hunk} {world : World}
  {run' : PatchRun World Path}

def Applied (uris : PathUris Path) (cwd : Path) (updateFileMode : ApplyPatchFileUpdateMode)
    (start : View Path) (hunks : List Hunk) (view : View Path) : Prop :=
  ∃ files, effects uris cwd updateFileMode hunks start.files = some files ∧
    view = { start with files := files }

theorem Applied.concat {start view₁ view₂ : View Path} {hunk : Hunk} {files : Files Path}
    (h : Applied uris cwd updateFileMode start hunks view₁)
    (he : hunkEffect uris cwd updateFileMode hunk view₁.files = some files)
    (hv : view₂ = { view₁ with files := files }) :
    Applied uris cwd updateFileMode start (hunks ++ [hunk]) view₂ := by
  obtain ⟨_, heffs, rfl⟩ := h
  refine ⟨files, ?_, hv⟩
  rw [effects_concat, heffs]
  exact he

theorem effects_of_applyHunksToFiles (hfs : Behaves fs view)
    (hplain : ∀ hunk ∈ hunks, ∀ path, hunk.Names uris cwd path → (view world).plain path)
    (hrun : applyHunksToFiles fs uris cwd updateFileMode hunks { world := world } = .ok () run') :
    effects uris cwd updateFileMode hunks (view world).files = some (view run'.world).files := by
  have hl : Outcome (hunks.forM (applyHunk fs uris cwd updateFileMode)) { world := world }
      (fun _ run => Applied uris cwd updateFileMode (view world) hunks (view run.world))
      (fun _ _ => True) := by
    apply outcome_forM
    · intro _ hunk _ hh run ha
      have hn (path : Path) (hpath : hunk.Names uris cwd path) : Named view True run path := by
        have hi : (view run.world).plain path := by
          obtain ⟨_, -, hv⟩ := ha
          rw [hv]
          exact hplain hunk (by simp [hh]) path hpath
        exact ⟨fun _ => .inl hi, fun _ => hi⟩
      apply (applyHunk_spec hfs hunk hn).mono
      · intro _ _ hc
        obtain ⟨_, hef, hv⟩ := hc.effect (.inr trivial)
        exact ha.concat hef hv
      · exact fun _ _ _ => trivial
    · exact ⟨_, rfl, rfl⟩
  have hs : hunks.isEmpty = false := by
    by_contra he
    rw [Bool.not_eq_false] at he
    rw [applyHunksToFiles, if_pos he] at hrun
    cases hrun
  rw [applyHunksToFiles, if_neg (by simp [hs])] at hrun
  obtain ⟨_, heffs, hv⟩ := hl.of_ok hrun
  rw [heffs, hv]

/-- A run that succeeds leaves the files that the hunks mean if and only if no file stays lost. -/
theorem applyHunksToFiles_eq_reference_iff (hfs : Behaves fs view)
    (hplain : ∀ hunk ∈ hunks, ∀ path, hunk.Names uris cwd path → (view world).plain path)
    (hrun : applyHunksToFiles fs uris cwd updateFileMode hunks { world := world } = .ok () run') :
    (reference uris cwd updateFileMode hunks (view world).files = some (view run'.world).files ∧
      ∀ path, (∀ hunk ∈ hunks, ¬ hunk.Names uris cwd path) →
        (view run'.world).files path = (view world).files path) ↔
      lostPaths uris cwd hunks = ∅ := by
  have heffs := effects_of_applyHunksToFiles hfs hplain hrun
  obtain ⟨_, hmeant, hdiv⟩ := exists_reference_of_effects heffs
  rw [hmeant, some.injEq, hdiv.eq_iff]
  exact and_iff_left fun path hpath => effects_of_not_names heffs hpath

end

def flatUris : PathUris Text := ⟨fun _ path => .ok path, fun _ => none, id⟩

def sampleFiles : Files Text :=
  update (fun _ => none) "a".toList (some (.text "x\n".toList))

def sampleUpdate (movePath : Option Text) : Hunk :=
  .updateFile "a".toList movePath [{ oldLines := ["x".toList], newLines := ["y".toList] }]

theorem lostPaths_sampleUpdate : lostPaths flatUris [] [sampleUpdate (some "b".toList)] = ∅ := by
  apply lostPaths_eq_empty
  intro _ hh
  rw [mem_singleton] at hh
  rw [hh]
  rintro ⟨_, hs, hd⟩
  exact absurd (hs.trans hd.symm) (by decide)

theorem sampleUpdate_succeeds : ∃ run',
    applyHunksToFiles (memoryFileSystem fun _ => false) flatUris [] .preserveLineEndings
      [sampleUpdate (some "b".toList)] { world := sampleFiles } = .ok () run' ∧
    run'.delta.isExact = true :=
  ⟨_, rfl, rfl⟩

theorem applyHunksToFiles_eq_reference_sampleUpdate : ∃ run',
    applyHunksToFiles (memoryFileSystem fun _ => false) flatUris [] .preserveLineEndings
      [sampleUpdate (some "b".toList)] { world := sampleFiles } = .ok () run' ∧
    reference flatUris [] .preserveLineEndings [sampleUpdate (some "b".toList)]
      (memoryView sampleFiles).files = some (memoryView run'.world).files := by
  obtain ⟨run', hrun, -⟩ := sampleUpdate_succeeds
  refine ⟨run', hrun, ?_⟩
  apply And.left
  apply (applyHunksToFiles_eq_reference_iff (memoryFileSystem_behaves _)
    (fun _ _ _ _ => trivial) hrun).mpr
  exact lostPaths_sampleUpdate

theorem applyHunksToFiles_loses_selfMove : ∃ run',
    applyHunksToFiles (memoryFileSystem fun _ => false) flatUris [] .preserveLineEndings
      [sampleUpdate (some "a".toList)] { world := sampleFiles } = .ok () run' ∧
    (memoryView run'.world).files "a".toList = none ∧
    reference flatUris [] .preserveLineEndings [sampleUpdate (some "a".toList)]
      (memoryView sampleFiles).files ≠ some (memoryView run'.world).files := by
  refine ⟨_, rfl, rfl, ?_⟩
  intro h
  have hlost := congrArg (Option.map (· "a".toList)) h
  exact absurd hlost (by decide)

end Slopdex.Patch
