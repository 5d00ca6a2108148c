import Slopdex.Patch.Apply

/-!
# What hunks do to files

A hunk that is applied with success changes the files in a way that depends on their contents alone:
`hunkEffect`. The steps are described one by one for plain paths, together with what they leave when
they fail. A run that has met a link is not exact any more; what is said of a run holds as long as
it is exact, or if the patch is known to name plain paths only.
-/

namespace Slopdex.Patch

open Protocol (Text)
open Library.Effects Function Hunk Option

variable {World Path : Type} [DecidableEq Path]

section

variable (uris : PathUris Path) (cwd : Path) (updateFileMode : ApplyPatchFileUpdateMode)

namespace Hunk

def source (hunk : Hunk) : Option Path := (hunk.resolvePath uris cwd).toOption

def dest : Hunk → Option Path
  | updateFile _ (some dest) _ => (uris.join cwd dest).toOption
  | _ => none

def IsSelfMove (hunk : Hunk) : Prop := ∃ path, hunk.source uris cwd = some path ∧
  hunk.dest uris cwd = some path

def Names (hunk : Hunk) (path : Path) : Prop :=
  hunk.source uris cwd = some path ∨ hunk.dest uris cwd = some path

end Hunk

def updatedText (files : Files Path) (path : Path) (chunks : List UpdateFileChunk) : Option Text := do
  let contents ← (files path).bind (·.toText)
  (deriveNewContents (uris.inferredNativePathString path) chunks updateFileMode contents).toOption

def effectOf (move : Files Path → Path → Path → Text → Files Path) (hunk : Hunk)
    (files : Files Path) : Option (Files Path) := do
  let path ← hunk.source uris cwd
  match hunk with
  | .addFile _ contents => return update files path (some (.text contents))
  | .deleteFile _ =>
    let _ ← files path
    return update files path none
  | .updateFile _ movePath chunks =>
    let newContents ← updatedText uris updateFileMode files path chunks
    match movePath with
    | none => return update files path (some (.text newContents))
    | some _ =>
      let dest ← hunk.dest uris cwd
      return move files path dest newContents

def writeThenRemove (files : Files Path) (path dest : Path) (contents : Text) : Files Path :=
  update (update files dest (some (.text contents))) path none

def hunkEffect : Hunk → Files Path → Option (Files Path) :=
  effectOf uris cwd updateFileMode writeThenRemove

/-- The meaning of a move: the file is at its destination, and no longer at its source if that is
another path. -/
def removeThenWrite (files : Files Path) (path dest : Path) (contents : Text) : Files Path :=
  update (update files path none) dest (some (.text contents))

def hunkReference : Hunk → Files Path → Option (Files Path) :=
  effectOf uris cwd updateFileMode removeThenWrite

end

abbrev TextFiles (Path : Type) := Path → Option Text

def textFiles (files : Files Path) : TextFiles Path := fun path => (files path).bind (·.toText)

def AppliedPatchChange.replay (change : AppliedPatchChange Path) (texts : TextFiles Path) :
    TextFiles Path :=
  match change.change with
  | .add content _ => update texts change.path (some content)
  | .delete _ => update texts change.path none
  | .update none _ _ newContent => update texts change.path (some newContent)
  | .update (some dest) _ _ newContent =>
    update (update texts change.path none) dest (some newContent)

def replayAll (changes : List (AppliedPatchChange Path)) (texts : TextFiles Path) : TextFiles Path :=
  changes.foldl (fun texts change => change.replay texts) texts

theorem replayAll_append (changes changes' : List (AppliedPatchChange Path))
    (texts : TextFiles Path) :
    replayAll (changes ++ changes') texts = replayAll changes' (replayAll changes texts) :=
  List.foldl_append

theorem textFiles_update (files : Files Path) (path : Path) (contents : Option FileContents) :
    textFiles (update files path contents) =
      update (textFiles files) path (contents.bind (·.toText)) := by
  funext other
  by_cases h : other = path
  · subst h
    simp [textFiles]
  · simp [textFiles, h]

/-! ## Operations of the file system -/

namespace View

variable {view : View Path} {path : Path}

@[simp] theorem set_set (view : View Path) (path : Path) (c c' : Option FileContents) :
    (view.set path c).set path c' = view.set path c' := by
  simp [set]

@[simp] theorem set_plain (view : View Path) (path : Path) (c : Option FileContents) :
    (view.set path c).plain = view.plain := rfl

theorem set_files_self (view : View Path) (path : Path) : view.set path
    (view.files path) = view := by
  simp [set]

end View

section Posts

variable (view : World → View Path) (path : Path) (run run' : PatchRun World Path)

structure Unchanged : Prop where
  world : view run'.world = view run.world
  changes : run'.delta.changes = run.delta.changes
  isExact : run'.delta.isExact = true → run.delta.isExact = true

structure Inspects : Prop where
  world : view run'.world = view run.world
  changes : run'.delta.changes = run.delta.changes
  isExact : run'.delta.isExact = true → run.delta.isExact = true ∧ ¬ (view run.world).link path

structure Sets (content : Option FileContents) : Prop where
  delta : run'.delta = run.delta
  world : (view run.world).plain path → view run'.world = (view run.world).set path content

structure Spoils : Prop where
  inexact : run'.delta.isExact = false
  world : (view run.world).plain path → ∃ left, view run'.world = (view run.world).set path left

end Posts

section Steps

variable {fs : ExecutorFileSystem World Path} {view : World → View Path} (hfs : Behaves fs view)
  {uris : PathUris Path} {run : PatchRun World Path} {path : Path} {contents context : Text}

include hfs

theorem noteExistingPathDeltaSupport_spec :
    Outcome (noteExistingPathDeltaSupport fs path) run
      (fun _ run' => Inspects view path run run') (fun _ _ => False) := by
  unfold noteExistingPathDeltaSupport
  rw [outcome_bind, outcome_perform]
  have hv := hfs.getMetadata_view path run.world
  cases h : (fs.getMetadata path run.world).1 with
  | ok metadata =>
    dsimp only
    split
    · next hf =>
      refine ⟨hv, rfl, fun he => ⟨he, fun hl => ?_⟩⟩
      have := hfs.getMetadata_link path run.world metadata hl h
      simp [this] at hf
    · exact ⟨hv, rfl, by simp⟩
  | error source =>
    dsimp only
    split
    · next hk =>
      refine ⟨hv, rfl, fun he => ⟨he, fun hl => ?_⟩⟩
      exact hfs.getMetadata_link_error path run.world source hl h hk
    · exact ⟨hv, rfl, by simp⟩

theorem readOptionalFileTextForDelta_spec :
    Outcome (readOptionalFileTextForDelta fs path) run
      (fun _ run' => Inspects view path run run') (fun _ _ => False) := by
  unfold readOptionalFileTextForDelta
  rw [outcome_bind]
  apply (noteExistingPathDeltaSupport_spec hfs).mono
  · rintro _ run₁ ⟨hv₁, hc₁, he₁⟩
    rw [outcome_bind, outcome_perform]
    have hv : view (fs.readFileText path run₁.world).2 = view run.world := by
      rw [hfs.readFileText_view, hv₁]
    cases (fs.readFileText path run₁.world).1 with
    | ok => exact ⟨hv, hc₁, he₁⟩
    | error =>
      dsimp only
      split
      · exact ⟨hv, hc₁, he₁⟩
      · exact ⟨hv, hc₁, by simp⟩
  · exact fun _ _ h => h

theorem tryWrite_spec :
    Outcome (tryWrite fs context path contents) run
      (fun _ run' => Sets view path run run' (some (.text contents)))
      (fun _ run' => Spoils view path run run') := by
  unfold tryWrite
  rw [outcome_bind, outcome_perform]
  cases h : (fs.writeFile path contents run.world).1 with
  | ok => exact ⟨rfl, fun hp => hfs.writeFile_ok path contents run.world hp h⟩
  | error source =>
    exact ⟨rfl, fun hp => hfs.writeFile_error path contents run.world source hp h⟩

theorem writeFileWithMissingParentRetry_spec :
    Outcome (writeFileWithMissingParentRetry fs uris path contents) run
      (fun _ run' => Sets view path run run' (some (.text contents)))
      (fun _ run' => Spoils view path run run') := by
  have hr (run₁ : PatchRun World Path) (hd : run₁.delta = run.delta)
      (hv₁ : (view run.world).plain path →
        ∃ left, view run₁.world = (view run.world).set path left) :
      Outcome (tryWrite fs (writeContext uris path) path contents) run₁
        (fun _ run' => Sets view path run run' (some (.text contents)))
        (fun _ run' => Spoils view path run run') := by
    apply (tryWrite_spec hfs).mono
    · rintro _ _ ⟨hd', hv'⟩
      refine ⟨hd'.trans hd, fun hp => ?_⟩
      obtain ⟨_, hl⟩ := hv₁ hp
      rw [hv' (by rw [hl]; exact hp), hl, View.set_set]
    · rintro _ _ ⟨he, hv'⟩
      refine ⟨he, fun hp => ?_⟩
      obtain ⟨_, hl⟩ := hv₁ hp
      obtain ⟨left', hl'⟩ := hv' (by rw [hl]; exact hp)
      exact ⟨left', by rw [hl', hl, View.set_set]⟩
  unfold writeFileWithMissingParentRetry
  rw [outcome_bind, outcome_perform]
  cases h : (fs.writeFile path contents run.world).1 with
  | ok => exact ⟨rfl, fun hp => hfs.writeFile_ok path contents run.world hp h⟩
  | error source =>
    have hl := fun hp => hfs.writeFile_error path contents run.world source hp h
    dsimp only
    split
    · cases uris.parent path with
      | none => exact hr _ rfl hl
      | some parent =>
        rw [outcome_bind, outcome_perform]
        have hc := hfs.createDirectory_view parent (fs.writeFile path contents run.world).2
        cases (fs.createDirectory parent (fs.writeFile path contents run.world).2).1 with
        | ok => exact hr _ rfl (by simpa only [hc] using hl)
        | error => exact ⟨rfl, by simpa only [hc] using hl⟩
    · exact ⟨rfl, hl⟩

theorem ensureNotDirectory_spec :
    Outcome (ensureNotDirectory fs context path) run
      (fun _ run' => view run'.world = view run.world ∧ run'.delta = run.delta ∧
        ((view run.world).plain path → ((view run.world).files path).isSome))
      (fun _ run' => view run'.world = view run.world ∧ run'.delta = run.delta) := by
  unfold ensureNotDirectory
  rw [outcome_bind, outcome_perform]
  have hv := hfs.getMetadata_view path run.world
  cases h : (fs.getMetadata path run.world).1 with
  | error => exact ⟨hv, rfl⟩
  | ok metadata =>
    dsimp only
    split
    · exact ⟨hv, rfl⟩
    · next hd =>
      refine ⟨hv, rfl, fun hp => ?_⟩
      exact hfs.getMetadata_exists path run.world metadata hp h (by simpa using hd)

theorem removeFile_spec {expectedContent : Option Text} :
    Outcome (removeFile fs context path expectedContent) run
      (fun _ run' => Sets view path run run' none)
      (fun _ run' => run'.delta.changes = run.delta.changes ∧
        ((view run.world).plain path → ∃ left, view run'.world = (view run.world).set path left) ∧
        (run'.delta.isExact = true → run.delta.isExact = true ∧ ((view run.world).plain path →
          ∃ content, expectedContent = some content ∧
            view run'.world = (view run.world).set path (some (.text content))))) := by
  unfold removeFile
  rw [outcome_bind, outcome_perform]
  cases h : (fs.remove path run.world).1 with
  | ok => exact ⟨rfl, fun hp => hfs.remove_ok path run.world hp h⟩
  | error source =>
    have hl := fun hp => hfs.remove_error path run.world source hp h
    rw [outcome_bind]
    unfold removeFailureWasSideEffectFree
    cases expectedContent with
    | none =>
      refine ⟨rfl, hl, fun he => ?_⟩
      simp at he
    | some expected =>
      rw [outcome_bind, outcome_perform]
      have hr := hfs.readFileText_view path (fs.remove path run.world).2
      cases hc : (fs.readFileText path (fs.remove path run.world).2).1 with
      | error =>
        refine ⟨rfl, by simpa only [hr] using hl, fun he => ?_⟩
        simp at he
      | ok content =>
        refine ⟨rfl, by simpa only [hr] using hl, fun he => ?_⟩
        rw [Bool.and_eq_true, beq_iff_eq] at he
        refine ⟨he.1, fun hp => ⟨expected, rfl, ?_⟩⟩
        obtain ⟨_, hs⟩ := hl hp
        have hf := hfs.readFileText_ok path _ content (by rw [hs]; exact hp) hc
        rw [hs] at hf
        rw [hr, hs, ← he.2, ← hf]
        simp [View.set]

theorem readDeletedContent_spec :
    Outcome (readDeletedContent fs path) run
      (fun deleted run' => view run'.world = view run.world ∧
        run'.delta.changes = run.delta.changes ∧
        (run'.delta.isExact = true → run.delta.isExact = true ∧ deleted.isSome) ∧
        ((view run.world).plain path → ∀ content ∈ deleted,
          (view run.world).files path = some (.text content)))
      (fun _ _ => False) := by
  unfold readDeletedContent
  rw [outcome_bind, outcome_perform]
  have hv := hfs.readFileText_view path run.world
  cases h : (fs.readFileText path run.world).1 with
  | error => exact ⟨hv, rfl, by simp, by simp⟩
  | ok content =>
    refine ⟨hv, rfl, fun he => ⟨he, rfl⟩, ?_⟩
    rintro hp _ ⟨⟩
    exact hfs.readFileText_ok path run.world content hp h

theorem deriveNewContentsFromChunks_spec {chunks : List UpdateFileChunk}
    {updateFileMode : ApplyPatchFileUpdateMode} :
    Outcome (deriveNewContentsFromChunks fs uris path chunks updateFileMode) run
      (fun result run' => view run'.world = view run.world ∧ run'.delta = run.delta ∧
        ((view run.world).plain path → (view run.world).files path = some (.text result.1)) ∧
        deriveNewContents (uris.inferredNativePathString path) chunks updateFileMode result.1 =
          .ok result.2)
      (fun _ run' => view run'.world = view run.world ∧ run'.delta = run.delta) := by
  unfold deriveNewContentsFromChunks
  rw [outcome_bind, outcome_perform]
  have hv := hfs.readFileText_view path run.world
  cases h : (fs.readFileText path run.world).1 with
  | error => exact ⟨hv, rfl⟩
  | ok original =>
    dsimp only
    cases hn :
      deriveNewContents (uris.inferredNativePathString path) chunks updateFileMode original with
    | error error => exact ⟨hv, rfl⟩
    | ok new =>
      exact ⟨hv, rfl, fun hp => hfs.readFileText_ok path run.world original hp h, hn⟩

end Steps

/-! ## Hunks -/

section Hunks

variable (uris : PathUris Path) (cwd : Path) (updateFileMode : ApplyPatchFileUpdateMode)
  (view : World → View Path) (trusted : Prop)

def Known (run : PatchRun World Path) : Prop := run.delta.isExact = true ∨ trusted

def Records (hunk : Hunk) (files : Files Path) (change : AppliedPatchChange Path) : Prop :=
  ∀ files₁ files₂, (∀ path contents, hunk.source uris cwd = some path → files path = some contents →
    files₁ path = some contents) →
    hunkReference uris cwd updateFileMode hunk files₁ = some files₂ →
      change.replay (textFiles files₁) = textFiles files₂

structure Completed (hunk : Hunk) (run run' : PatchRun World Path) : Prop where
  isExact : run'.delta.isExact = true → run.delta.isExact = true
  effect : Known trusted run' → ∃ files',
    hunkEffect uris cwd updateFileMode hunk (view run.world).files = some files' ∧
      view run'.world = { view run.world with files := files' }
  record : run'.delta.isExact = true → ∃ change,
    run'.delta.changes = run.delta.changes ++ [change] ∧
      Records uris cwd updateFileMode hunk (view run.world).files change

/-- An error behind which the run is exact has left everything as it was. -/
def Idle (run run' : PatchRun World Path) : Prop :=
  run'.delta.isExact = true → Unchanged view run run'

variable (fs : ExecutorFileSystem World Path)

/-- The work of a move until its destination is written. -/
def writeDestination (dest : Path) (contents : Text) : Patching World Path Unit := do
  let overwritten ← readOptionalFileTextForDelta fs dest
  writeFileWithMissingParentRetry fs uris dest contents
  pushChange ⟨dest, .add contents overwritten⟩

/-- The work of a move until its source is removed. -/
def reachRemoval (path dest : Path) (contents : Text) : Patching World Path Unit := do
  writeDestination uris fs dest contents
  ensureNotDirectory fs ("Failed to remove original ".toList ++ uris.inferredNativePathString path) path

/-- The work of a hunk that moves a file until the move itself, with `move` in its place. -/
def untilMove (move : Path → Path → Text → Patching World Path Unit) (hunk : Hunk) :
    Patching World Path Unit := do
  let path ← resolve (hunk.resolvePath uris cwd)
  match hunk with
  | .updateFile _ (some dest) chunks => do
    noteExistingPathDeltaSupport fs path
    let (_, newContents) ← deriveNewContentsFromChunks fs uris path chunks updateFileMode
    let destPath ← resolve (uris.join cwd dest)
    move path destPath newContents
  | _ => throw .noFilesModified

def Reaches (move : Path → Path → Text → Patching World Path Unit) (hunk : Hunk)
    (run : PatchRun World Path) : Prop :=
  Succeeds (untilMove uris cwd updateFileMode fs move hunk) run

/-- The hunk is a move that gets its destination written. -/
def Writes : Hunk → PatchRun World Path → Prop :=
  Reaches uris cwd updateFileMode fs fun _ => writeDestination uris fs

/-- The hunk is a move that gets as far as the removal of its source. -/
def Removes : Hunk → PatchRun World Path → Prop :=
  Reaches uris cwd updateFileMode fs (reachRemoval uris fs)

/-- What a move has left that failed behind the write of its destination, if the run is exact. The
failed removal of the source is trusted if the source has the text from before the move. -/
inductive Left (removes : Prop) (path dest : Path) (original contents : Text)
    (run run' : PatchRun World Path) : Prop
  | written (hr : ¬ removes) (overwritten : Option Text)
      (hc : run'.delta.changes = run.delta.changes ++ [⟨dest, .add contents overwritten⟩])
      (hv : view run'.world = (view run.world).set dest (some (.text contents)))
  | restored (hr : removes) (overwritten : Option Text)
      (hc : run'.delta.changes = run.delta.changes ++ [⟨dest, .add contents overwritten⟩])
      (hv : view run'.world =
        ((view run.world).set dest (some (.text contents))).set path (some (.text original)))

/-- A hunk that fails and leaves the run exact has changed nothing, or it is a move that has got its
destination written. -/
def Interrupted (hunk : Hunk) (run run' : PatchRun World Path) : Prop :=
  run'.delta.isExact = true → run.delta.isExact = true ∧
    ((¬ Writes uris cwd updateFileMode fs hunk run ∧ ¬ Removes uris cwd updateFileMode fs hunk run ∧
        Unchanged view run run') ∨
      Writes uris cwd updateFileMode fs hunk run ∧ ∃ path dest original contents,
        hunk.source uris cwd = some path ∧ hunk.dest uris cwd = some dest ∧
        (view run.world).files path = some (.text original) ∧
        hunkReference uris cwd updateFileMode hunk (view run.world).files =
          some (removeThenWrite (view run.world).files path dest contents) ∧
        Left view (Removes uris cwd updateFileMode fs hunk run) path dest original contents run run')

end Hunks

section Apply

variable {fs : ExecutorFileSystem World Path} {view : World → View Path} {uris : PathUris Path}
  {cwd : Path} {updateFileMode : ApplyPatchFileUpdateMode} {trusted : Prop}
  {run run₁ run' : PatchRun World Path} {path dest : Path} {hunk : Hunk} {files : Files Path}
  {move : Files Path → Path → Path → Text → Files Path}
  {affectedPath file contents original : Text} {chunks : List UpdateFileChunk}

/-! ### The effects of the kinds of hunks -/

theorem effectOf_addFile (hs : (addFile file contents).source uris cwd = some path) :
    effectOf uris cwd updateFileMode move (.addFile file contents) files =
      some (update files path (some (.text contents))) := by
  simp [effectOf, hs]

theorem effectOf_deleteFile (hs : (deleteFile file).source uris cwd = some path) :
    effectOf uris cwd updateFileMode move (.deleteFile file) files =
      (files path).map fun _ => update files path none := by
  cases h : files path <;> simp [effectOf, hs, h]

theorem effectOf_updateFile (hs : (updateFile file none chunks).source uris cwd = some path) :
    effectOf uris cwd updateFileMode move (.updateFile file none chunks) files =
      (updatedText uris updateFileMode files path chunks).map fun newContents =>
        update files path (some (.text newContents)) := by
  cases h : updatedText uris updateFileMode files path chunks <;> simp [effectOf, hs, h]

theorem effectOf_move {destText : Text}
    (hs : (updateFile file (some destText) chunks).source uris cwd = some path)
    (hd : (updateFile file (some destText) chunks).dest uris cwd = some dest) :
    effectOf uris cwd updateFileMode move (.updateFile file (some destText) chunks) files =
      (updatedText uris updateFileMode files path chunks).map (move files path dest) := by
  cases h : updatedText uris updateFileMode files path chunks <;> simp [effectOf, hs, hd, h]

omit [DecidableEq Path] in
theorem updatedText_of_files (hf : files path = some (.text original))
    (hn : deriveNewContents (uris.inferredNativePathString path) chunks updateFileMode original =
      .ok contents) : updatedText uris updateFileMode files path chunks = some contents := by
  simp [updatedText, hf, FileContents.toText, hn, Except.toOption]

/-! ### Runs -/

omit [DecidableEq Path] in
theorem Inspects.unchanged (h : Inspects view path run run') : Unchanged view run run' :=
  ⟨h.world, h.changes, fun he => (h.isExact he).1⟩

omit [DecidableEq Path] in
theorem Unchanged.trans (h : Unchanged view run run₁) (hw : view run'.world = view run₁.world)
    (hd : run'.delta = run₁.delta) : Unchanged view run run' :=
  ⟨hw.trans h.world, hd ▸ h.changes, hd ▸ h.isExact⟩

theorem Completed.after_reads (h : Completed uris cwd updateFileMode view trusted hunk run₁ run')
    (hs : Unchanged view run run₁) :
    Completed uris cwd updateFileMode view trusted hunk run run' where
  isExact he := hs.isExact (h.isExact he)
  effect := by simpa only [hs.world] using h.effect
  record := by simpa only [hs.world, hs.changes] using h.record

theorem Left.after_reads {removes : Prop}
    (h : Left view removes path dest original contents run₁ run')
    (hs : Unchanged view run run₁) : Left view removes path dest original contents run run' := by
  cases h with
  | written hr overwritten hc hv => exact .written hr overwritten (hs.changes ▸ hc) (hs.world ▸ hv)
  | restored hr overwritten hc hv => exact .restored hr overwritten (hs.changes ▸ hc) (hs.world ▸ hv)

omit [DecidableEq Path] in
/-- A path that a hunk names is plain, or it is a link that the metadata show. -/
structure Named (view : World → View Path) (trusted : Prop) (run : PatchRun World Path) (path : Path) :
    Prop where
  plainOrLink : run.delta.isExact = true → (view run.world).plain path ∨ (view run.world).link path
  plain : trusted → (view run.world).plain path

omit [DecidableEq Path] in
theorem Named.plain_of_known (hn : Named view trusted run path)
    (he : run'.delta.isExact = true → run.delta.isExact = true ∧ ¬ (view run.world).link path)
    (hk : Known trusted run') : (view run.world).plain path := by
  rcases hk with h | h
  · exact (hn.plainOrLink (he h).1).resolve_right (he h).2
  · exact hn.plain h

omit [DecidableEq Path] in
theorem Named.after_reads (hn : Named view trusted run path) (hs : Unchanged view run run₁) :
    Named view trusted run₁ path where
  plainOrLink h := by
    rw [hs.world]
    exact hn.plainOrLink (hs.isExact h)
  plain := by
    rw [hs.world]
    exact hn.plain

section Reaches

omit [DecidableEq Path]

variable {goal : Path → Path → Text → Patching World Path Unit}

theorem not_reaches_of_error {message : Text} (h : hunk.resolvePath uris cwd = .error message) :
    ¬ Reaches uris cwd updateFileMode fs goal hunk run := by
  unfold Reaches untilMove
  exact not_succeeds_bind_of_error (by rw [h]; rfl)

theorem reaches_iff (h : hunk.resolvePath uris cwd = .ok path) :
    Reaches uris cwd updateFileMode fs goal hunk run ↔ Succeeds (match hunk with
      | .updateFile _ (some dest) chunks => do
        noteExistingPathDeltaSupport fs path
        let (_, newContents) ← deriveNewContentsFromChunks fs uris path chunks updateFileMode
        let destPath ← resolve (uris.join cwd dest)
        goal path destPath newContents
      | _ => throw .noFilesModified) run := by
  unfold Reaches untilMove
  exact succeeds_bind_of_ok (by rw [h]; rfl)

end Reaches

theorem Interrupted.of_unchanged (h : Unchanged view run run')
    (hno : ∀ goal, ¬ Reaches uris cwd updateFileMode fs goal hunk run) :
    Interrupted uris cwd updateFileMode view fs hunk run run' :=
  fun he => ⟨h.isExact he, .inl ⟨hno _, hno _, h⟩⟩

theorem Interrupted.of_idle (h : Idle view run₁ run') (hs : Unchanged view run run₁)
    (hno : ∀ goal, ¬ Reaches uris cwd updateFileMode fs goal hunk run) :
    Interrupted uris cwd updateFileMode view fs hunk run run' := by
  intro he
  have hu := h he
  have hs' : Unchanged view run run' :=
    ⟨hu.world.trans hs.world, hu.changes.trans hs.changes, fun he => hs.isExact (hu.isExact he)⟩
  exact Interrupted.of_unchanged hs' hno he

variable (hfs : Behaves fs view)

include hfs

theorem applyAdd_spec (hs : (addFile file contents).source uris cwd = some path)
    (hn : Named view trusted run path) :
    Outcome (applyAdd fs uris affectedPath path contents) run
      (fun _ run' =>
        Completed uris cwd updateFileMode view trusted (.addFile file contents) run run')
      (fun _ run' => Idle view run run') := by
  unfold applyAdd
  rw [outcome_bind]
  apply (readOptionalFileTextForDelta_spec hfs).mono
  · rintro overwritten _ ⟨hv₁, hc₁, he₁⟩
    rw [outcome_bind]
    apply (writeFileWithMissingParentRetry_spec hfs).mono
    · rintro _ _ ⟨hd₂, hv₂⟩
      simp only [pushChange, noteAffected, outcome_bind, outcome_modify]
      rw [hv₁] at hv₂
      refine ⟨?_, ?_, ?_⟩
      · rw [hd₂]
        exact fun he => (he₁ he).1
      · intro hk
        rw [Known, hd₂] at hk
        exact ⟨_, effectOf_addFile hs, hv₂ (hn.plain_of_known he₁ hk)⟩
      · intro _
        refine ⟨⟨path, .add contents overwritten⟩, by rw [hd₂, hc₁], ?_⟩
        intro _ _ _ hr
        rw [hunkReference, effectOf_addFile hs, some.injEq] at hr
        rw [← hr, textFiles_update]
        rfl
    · rintro _ _ ⟨he₂, -⟩ he
      rw [he₂] at he
      exact absurd he (by simp)
  · exact fun _ _ h => h.elim

theorem applyDelete_spec (hsr : (deleteFile file).source uris cwd = some path)
    (hn : Named view trusted run path) :
    Outcome (applyDelete fs uris affectedPath path) run
      (fun _ run' => Completed uris cwd updateFileMode view trusted (.deleteFile file) run run')
      (fun _ run' => Idle view run run') := by
  unfold applyDelete
  rw [outcome_bind]
  apply (noteExistingPathDeltaSupport_spec hfs).mono _ (fun _ _ h => h.elim)
  rintro _ _ ⟨hv₁, hc₁, he₁⟩
  rw [outcome_bind]
  apply (readDeletedContent_spec hfs).mono _ (fun _ _ h => h.elim)
  rintro deleted run₂ ⟨hv₂, hc₂, he₂, hd⟩
  rw [hv₁] at hv₂ hd
  have hex (he : run₂.delta.isExact = true) :
      run.delta.isExact = true ∧ ¬ (view run.world).link path := he₁ (he₂ he).1
  rw [outcome_bind]
  apply (ensureNotDirectory_spec hfs).mono
  · rintro _ run₃ ⟨hv₃, hd₃, hexi⟩
    rw [hv₂] at hv₃ hexi
    have hp (hk : Known trusted run₃) : (view run.world).plain path := by
      rw [Known, hd₃] at hk
      exact hn.plain_of_known hex hk
    rw [outcome_bind]
    apply (removeFile_spec hfs).mono
    · rintro _ run₄ ⟨hd₄, hv₄⟩
      rw [hv₃] at hv₄
      have hef (hk : Known trusted run₄) : ∃ files',
          hunkEffect uris cwd updateFileMode (.deleteFile file) (view run.world).files =
            some files' ∧ view run₄.world = { view run.world with files := files' } := by
        rw [Known, hd₄] at hk
        obtain ⟨_, hf⟩ := isSome_iff_exists.mp (hexi (hp hk))
        refine ⟨update (view run.world).files path none, ?_, hv₄ (hp hk)⟩
        rw [hunkEffect, effectOf_deleteFile hsr, hf]
        rfl
      have hi : run₄.delta.isExact = true → run₂.delta.isExact = true := by
        rw [hd₄, hd₃]
        exact id
      cases deleted with
      | none =>
        simp only [noteAffected]
        refine ⟨fun he => (hex (hi he)).1, hef, fun he => ?_⟩
        exact absurd (he₂ (hi he)).2 (by simp)
      | some content =>
        simp only [pushChange, noteAffected, outcome_bind, outcome_modify]
        refine ⟨fun he => (hex (hi he)).1, hef, fun _ => ?_⟩
        refine ⟨⟨path, .delete content⟩, by rw [hd₄, hd₃, hc₂, hc₁], ?_⟩
        intro _ _ _ hr
        rw [hunkReference, effectOf_deleteFile hsr, map_eq_some_iff] at hr
        obtain ⟨_, _, hr⟩ := hr
        rw [← hr, textFiles_update]
        rfl
    · rintro _ run₄ ⟨hc₄, -, he₄⟩ he
      obtain ⟨he₃, hc⟩ := he₄ he
      rw [hv₃] at hc
      have his := hp (.inl he₃)
      obtain ⟨content, rfl, hv₄⟩ := hc his
      -- the file still has the content that was read before the removal
      have hs : view run₄.world = view run.world := by
        rw [hv₄, ← hd his content rfl, View.set_files_self]
      rw [hd₃] at he₃
      exact ⟨hs, by rw [hc₄, hd₃, hc₂, hc₁], fun _ => (hex he₃).1⟩
  · rintro _ _ ⟨hv₃, hd₃⟩
    have hs : Unchanged view run run₂ :=
      ⟨hv₂, hc₂.trans hc₁, fun he => (hex he).1⟩
    exact fun _ => hs.trans hv₃ hd₃

theorem applyUpdate_spec (hs : (updateFile file none chunks).source uris cwd = some path)
    (hp : Known trusted run → (view run.world).plain path)
    (hf : (view run.world).plain path → (view run.world).files path = some (.text original))
    (hn : deriveNewContents (uris.inferredNativePathString path) chunks updateFileMode original =
      .ok contents) :
    Outcome (applyUpdate fs uris affectedPath path original contents) run
      (fun _ run' => Completed uris cwd updateFileMode view trusted (.updateFile file none chunks)
        run run')
      (fun _ run' => Idle view run run') := by
  unfold applyUpdate
  rw [outcome_bind]
  apply (tryWrite_spec hfs).mono
  · rintro _ _ ⟨hd₁, hv₁⟩
    simp only [pushChange, noteAffected, outcome_bind, outcome_modify]
    refine ⟨by rw [hd₁]; exact id, ?_, ?_⟩
    · intro hk
      rw [Known, hd₁] at hk
      have hi := hp hk
      refine ⟨update (view run.world).files path (some (.text contents)), ?_, hv₁ hi⟩
      rw [hunkEffect, effectOf_updateFile hs, updatedText_of_files (hf hi) hn]
      rfl
    · rw [hd₁]
      intro he
      refine ⟨⟨path, .update none original none contents⟩, rfl, ?_⟩
      intro _ _ ha hr
      have hf₁ := ha path _ hs (hf (hp (.inl he)))
      rw [hunkReference, effectOf_updateFile hs, updatedText_of_files hf₁ hn,
        map_some, some.injEq] at hr
      rw [← hr, textFiles_update]
      rfl
  · rintro _ _ ⟨he₁, -⟩ he
    rw [he₁] at he
    exact absurd he (by simp)

theorem applyMove_spec {destText : Text}
    (hsr : (updateFile file (some destText) chunks).source uris cwd = some path)
    (hde : (updateFile file (some destText) chunks).dest uris cwd = some dest)
    (hn : Named view trusted run dest)
    (hp : Known trusted run → (view run.world).plain path)
    (hf : (view run.world).plain path → (view run.world).files path = some (.text original))
    (hnew : deriveNewContents (uris.inferredNativePathString path) chunks updateFileMode original =
      .ok contents) :
    Outcome (applyMove fs uris affectedPath path dest original contents) run
      (fun _ run' => Completed uris cwd updateFileMode view trusted
        (.updateFile file (some destText) chunks) run run')
      (fun _ run' => run'.delta.isExact = true → run.delta.isExact = true ∧
        Succeeds (writeDestination uris fs dest contents) run ∧
          Left view (Succeeds (reachRemoval uris fs path dest contents) run) path dest original
            contents run run') := by
  unfold applyMove
  rw [outcome_bind]
  apply (readOptionalFileTextForDelta_spec hfs).and_result.mono _ (fun _ _ h => h.2.elim)
  rintro overwritten run₁ ⟨hres₁, hv₁, hc₁, he₁⟩
  have hkn (hk : Known trusted run₁) : Known trusted run :=
    hk.imp_left fun he => (he₁ he).1
  rw [outcome_bind]
  apply (writeFileWithMissingParentRetry_spec hfs).and_result.mono
  · rintro _ run₂ ⟨hres₂, hd₂, hv₂⟩
    rw [hv₁] at hv₂
    have hwd : writeDestination uris fs dest contents run = .ok () { run₂ with
        delta.changes := run₂.delta.changes ++ [⟨dest, .add contents overwritten⟩] } := by
      change EStateM.bind _ _ run = _
      simp only [EStateM.bind, hres₁]
      change EStateM.bind _ _ run₁ = _
      simp only [EStateM.bind, hres₂]
      rfl
    have hwri : Succeeds (writeDestination uris fs dest contents) run := by
      rw [Succeeds, Outcome, hwd]
      trivial
    -- the destination has been written, and nothing else has changed
    have hw (hk : Known trusted run₁) :
        view run₂.world = (view run.world).set dest (some (.text contents)) :=
      hv₂ (hn.plain_of_known he₁ hk)
    simp only [pushChange, replaceLastChange, noteAffected, outcome_bind, outcome_modify]
    apply (ensureNotDirectory_spec hfs).and_result.mono
    · rintro _ run₃ ⟨hres₃, hv₃, hd₃, -⟩
      have hd : run₃.delta = { run₁.delta with
          changes := run.delta.changes ++ [⟨dest, .add contents overwritten⟩] } := by
        rw [hd₃, hd₂, hc₁]
      have hp₃ (hk : Known trusted run₁) : (view run₃.world).plain path := by
        rw [hv₃, hw hk]
        exact hp (hkn hk)
      apply (removeFile_spec hfs).mono
      · rintro _ run₄ ⟨hd₄, hv₄⟩
        have hi : run₄.delta.isExact = run₁.delta.isExact := by
          rw [hd₄, hd]
        refine ⟨?_, ?_, ?_⟩
        · rw [hi]
          exact fun he => (he₁ he).1
        · intro hk
          rw [Known, hi] at hk
          refine ⟨writeThenRemove (view run.world).files path dest contents, ?_, ?_⟩
          · rw [hunkEffect, effectOf_move hsr hde,
              updatedText_of_files (hf (hp (hkn hk))) hnew]
            rfl
          · rw [hv₄ (hp₃ hk), hv₃, hw hk]
            rfl
        · rw [hi]
          intro he
          refine ⟨⟨path, .update (some dest) original overwritten contents⟩, ?_, ?_⟩
          · rw [hd₄, hd]
            simp
          · intro _ _ ha hr
            have hf₁ := ha path _ hsr (hf (hp (.inl (he₁ he).1)))
            rw [hunkReference, effectOf_move hsr hde, updatedText_of_files hf₁ hnew,
              map_some, some.injEq] at hr
            rw [← hr, removeThenWrite, textFiles_update, textFiles_update]
            rfl
      · rintro _ _ ⟨hc₄, -, he₄⟩ he
        obtain ⟨he₃, hc⟩ := he₄ he
        rw [hd] at he₃
        have hk : Known trusted run₁ := .inl he₃
        obtain ⟨_, ⟨⟩, hv₄⟩ := hc (hp₃ hk)
        rw [hv₃, hw hk] at hv₄
        refine ⟨(he₁ he₃).1, hwri, .restored ?_ overwritten (by rw [hc₄, hd]) hv₄⟩
        rw [reachRemoval, succeeds_bind_of_ok hwd, Succeeds, Outcome, hres₃]
        trivial
    · rintro _ _ ⟨hres₃, hv₃, hd₃⟩ he
      rw [hd₃, hd₂] at he
      refine ⟨(he₁ he).1, hwri, .written ?_ overwritten (by rw [hd₃, hd₂, hc₁])
        (hv₃.trans (hw (.inl he)))⟩
      rw [reachRemoval, succeeds_bind_of_ok hwd, Succeeds, Outcome, hres₃]
      exact id
  · rintro _ _ ⟨-, he₂, -⟩ he
    rw [he₂] at he
    exact absurd he (by simp)

theorem applyHunk_spec (hunk : Hunk)
    (hn : ∀ path, hunk.Names uris cwd path → Named view trusted run path) :
    Outcome (applyHunk fs uris cwd updateFileMode hunk) run
      (fun _ run' => Completed uris cwd updateFileMode view trusted hunk run run')
      (fun _ run' => Interrupted uris cwd updateFileMode view fs hunk run run') := by
  unfold applyHunk
  rw [outcome_bind]
  cases hpa : hunk.resolvePath uris cwd with
  | error => exact .of_unchanged ⟨rfl, rfl, id⟩ fun _ => not_reaches_of_error hpa
  | ok path =>
    have hsr : hunk.source uris cwd = some path := by
      rw [source, hpa]
      rfl
    simp only [resolve, outcome_pure]
    cases hunk with
    | addFile =>
      apply (applyAdd_spec hfs hsr (hn path (.inl hsr))).mono (fun _ _ h => h)
      exact fun _ _ hi => .of_idle hi ⟨rfl, rfl, id⟩ fun _ => (reaches_iff hpa).not.mpr id
    | deleteFile =>
      apply (applyDelete_spec hfs hsr (hn path (.inl hsr))).mono (fun _ _ h => h)
      exact fun _ _ hi => .of_idle hi ⟨rfl, rfl, id⟩ fun _ => (reaches_iff hpa).not.mpr id
    | updateFile file movePath chunks =>
      have hp := hn path (.inl hsr)
      rw [outcome_bind]
      apply (noteExistingPathDeltaSupport_spec hfs).and_result.mono _ (fun _ _ h => h.2.elim)
      rintro _ run₁ ⟨hres₁, hi⟩
      rw [outcome_bind]
      apply (deriveNewContentsFromChunks_spec hfs).and_result.mono
      · rintro ⟨original, contents⟩ run₂ ⟨hres₂, hv₂, hd₂, hf, hne⟩
        have hs : Unchanged view run run₂ := hi.unchanged.trans hv₂ hd₂
        have hpl (hk : Known trusted run₂) : (view run₂.world).plain path := by
          rw [Known, hd₂] at hk
          rw [hs.world]
          exact hp.plain_of_known hi.isExact hk
        rw [← hv₂] at hf
        cases movePath with
        | none =>
          apply (applyUpdate_spec hfs hsr hpl hf hne).mono
          · exact fun _ run₃ h => h.after_reads hs
          · exact fun _ run₃ h => .of_idle h hs fun _ => (reaches_iff hpa).not.mpr id
        | some destText =>
          rw [outcome_bind]
          have hreach (goal : Path → Path → Text → Patching World Path Unit) :
              Reaches uris cwd updateFileMode fs goal (.updateFile file (some destText) chunks)
                run ↔
                Succeeds (resolve (uris.join cwd destText) >>= fun dest => goal path dest contents)
                  run₂ := by
            rw [reaches_iff hpa, succeeds_bind_of_ok hres₁, succeeds_bind_of_ok hres₂]
          cases hde : uris.join cwd destText with
          | error =>
            refine .of_unchanged hs fun goal => ?_
            rw [hreach, hde]
            exact not_succeeds_bind_of_error rfl
          | ok dest =>
            have hdes : (updateFile file (some destText) chunks).dest uris cwd =
                some dest := by
              rw [Hunk.dest, hde]
              rfl
            simp only [outcome_pure]
            have hd := (hn dest (.inr hdes)).after_reads hs
            apply (applyMove_spec hfs hsr hdes hd hpl hf hne).mono
            · exact fun _ run₃ h => h.after_reads hs
            · intro _ run₃ hleft he
              obtain ⟨he₂, hwri, hl⟩ := hleft he
              have hfp := hf (hpl (.inl he₂))
              have hgoal (goal : Path → Path → Text → Patching World Path Unit) :
                  Reaches uris cwd updateFileMode fs goal (.updateFile file (some destText) chunks)
                run ↔
                    Succeeds (goal path dest contents) run₂ := by
                rw [hreach, hde]
                exact succeeds_bind_of_ok rfl
              refine ⟨hs.isExact he₂, .inr ⟨(hgoal _).mpr hwri, path, dest, original, contents, hsr,
                hdes, hs.world ▸ hfp, ?_, ?_⟩⟩
              · rw [← hs.world, hunkReference, effectOf_move hsr hdes, updatedText_of_files hfp hne]
                rfl
              · rw [Removes, hgoal]
                exact hl.after_reads hs
      · rintro _ run₂ ⟨hres₂, hv₂, hd₂⟩
        refine .of_unchanged (hi.unchanged.trans hv₂ hd₂) fun goal => ?_
        rw [reaches_iff hpa]
        cases movePath with
        | none => exact id
        | some =>
          rw [succeeds_bind_of_ok hres₁]
          exact not_succeeds_bind_of_error hres₂

end Apply

end Slopdex.Patch
