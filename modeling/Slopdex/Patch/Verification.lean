import Slopdex.Library.FirstMatch
import Slopdex.Library.KeyedMap
import Slopdex.Patch.Reference
import Slopdex.Patch.SecondParse

/-!
# Verification of a patch

Verification computes what a patch will do, to be shown for approval: one change for each path that
a hunk is about, each computed from the files as they are. It refuses two hunks for one path, but
does not compare the destinations of moves with other paths. The application parses the stored text
of the patch again, so that it may have hunks with other contents.
-/

namespace Slopdex.Patch

open Protocol (Text)
open Library.Effects Library.FirstMatch Library.KeyedMap Function FileContents Option List Prod
open Hunk

inductive ApplyPatchFileChange (Path : Type)
  | add (content : Text)
  | delete (content : Text)
  | update (unifiedDiff : Text) (movePath : Option Path) (newContent : Text)

structure ApplyPatchAction (Path : Type) where
  changes : Map Path (ApplyPatchFileChange Path)
  updateFileMode : ApplyPatchFileUpdateMode
  patch : Text
  cwd : Path

/-- The errors of verification are its own or those of the steps that it shares with the
application. -/
inductive ApplyPatchError
  | parseError (error : ParseError)
  | patchError (error : PatchError)

abbrev Verifying (World : Type) := EStateM ApplyPatchError World

section

variable {World Path α : Type}

/-- A step of the application that changes nothing. -/
def reading (m : Patching World Path α) : Verifying World α := fun world =>
  match m { world := world } with
  | .ok a run => .ok a run.world
  | .error error run => .error (.patchError error) run.world

@[simp] theorem outcome_reading {m : Patching World Path α} {world : World} {ok : α → World → Prop}
    {error : ApplyPatchError → World → Prop} :
    Outcome (reading m) world ok error ↔
      Outcome m { world := world } (fun a run => ok a run.world)
        (fun e run => error (.patchError e) run.world) := by
  unfold Outcome reading
  cases m { world := world } <;> exact Iff.rfl

variable [DecidableEq Path] (fs : ExecutorFileSystem World Path) (uris : PathUris Path)
  (textDiff : Text → Text → Text) (cwd : Path) (updateFileMode : ApplyPatchFileUpdateMode)

def verifyHunk (changes : Map Path (ApplyPatchFileChange Path)) (hunk : Hunk) :
    Verifying World (Map Path (ApplyPatchFileChange Path)) := do
  let path ← reading (resolve (hunk.resolvePath uris cwd))
  if path ∈ changes then
    throw (.parseError (.invalidPatchError
      ("multiple operations target ".toList ++ uris.inferredNativePathString path)))
  else
    match hunk with
    | .addFile _ contents => return changes.insert path (.add contents)
    | .deleteFile _ => do
      match ← reading (perform (fs.readFileText path) : Patching World Path (Except IoError Text)) with
      | .ok content => return changes.insert path (.delete content)
      | .error source =>
        throw (.patchError (.io ("Failed to read ".toList ++ uris.inferredNativePathString path)
          source))
    | .updateFile _ movePath chunks => do
      let (original, contents) ←
        reading (deriveNewContentsFromChunks fs uris path chunks updateFileMode)
      match movePath with
      | none => return changes.insert path (.update (textDiff original contents) none contents)
      | some dest => do
        let destPath ← reading (resolve (uris.join cwd dest))
        return changes.insert path (.update (textDiff original contents) (some destPath) contents)

def effectiveCwd (workdir : Option Text) : Verifying World Path :=
  match workdir with
  | some dir => reading (resolve (uris.join cwd dir))
  | none => pure cwd

/-- `textDiff` is the unified diff of two texts. -/
def tryVerifyApplyPatchArgs (args : ApplyPatchArgs) : Verifying World (ApplyPatchAction Path) := do
  let effectiveCwd ← effectiveCwd uris cwd args.workdir
  let changes ← args.hunks.foldlM (verifyHunk fs uris textDiff effectiveCwd updateFileMode) ∅
  return ⟨changes, updateFileMode, args.patch, effectiveCwd⟩

end

section

variable {World Path : Type} [DecidableEq Path]

def ApplyPatchFileChange.promises (path : Path) :
    ApplyPatchFileChange Path → List (Path × Option FileContents)
  | add content => [(path, some (.text content))]
  | delete _ => [(path, none)]
  | update _ none newContent => [(path, some (.text newContent))]
  | update _ (some dest) newContent =>
    if dest = path then [(path, some (.text newContent))]
    else [(path, none), (dest, some (.text newContent))]

/-- The files behind a patch are those of its changes, and all others are unchanged. -/
structure Describes (changes : Map Path (ApplyPatchFileChange Path)) (files files' : Files Path) :
    Prop where
  promised : ∀ path change, changes.lookup path = some change →
    ∀ place ∈ change.promises path, files' place.1 = place.2
  unchanged : ∀ other, (∀ path change, changes.lookup path = some change →
    ∀ place ∈ change.promises path, place.1 ≠ other) → files' other = files other

variable (uris : PathUris Path) (cwd : Path) (updateFileMode : ApplyPatchFileUpdateMode)
  (files : Files Path)

inductive Announces : Hunk → Path → ApplyPatchFileChange Path → Prop
  | add {filename contents path} (hsource : (addFile filename contents).source uris cwd = some path) :
      Announces (.addFile filename contents) path (.add contents)
  | delete {filename path} (hsource : (deleteFile filename).source uris cwd = some path)
      (content : Text) : Announces (.deleteFile filename) path (.delete content)
  | update {filename chunks path newContent}
      (hsource : (updateFile filename none chunks).source uris cwd = some path)
      (hnew : updatedText uris updateFileMode files path chunks = some newContent) (diff : Text) :
      Announces (.updateFile filename none chunks) path (.update diff none newContent)
  | move {filename destText chunks path dest newContent}
      (hsource : (updateFile filename (some destText) chunks).source uris cwd = some path)
      (hdest : (updateFile filename (some destText) chunks).dest uris cwd = some dest)
      (hnew : updatedText uris updateFileMode files path chunks = some newContent) (diff : Text) :
      Announces (.updateFile filename (some destText) chunks) path
        (.update diff (some dest) newContent)

def Promises (hunk : Hunk) (place : Path × Option FileContents) : Prop :=
  ∃ path change, Announces uris cwd updateFileMode files hunk path change ∧
    place ∈ change.promises path

structure Verified (hunks : List Hunk) (changes : Map Path (ApplyPatchFileChange Path)) : Prop where
  distinct : hunks.Pairwise fun hunk other => hunk.source uris cwd ≠ other.source uris cwd
  announced : ∀ hunk ∈ hunks, ∃ path change, changes.lookup path = some change ∧
    Announces uris cwd updateFileMode files hunk path change
  listed : ∀ path change, changes.lookup path = some change →
    ∃ hunk ∈ hunks, Announces uris cwd updateFileMode files hunk path change

def Agree (hunks : List Hunk) : Prop :=
  ∀ hunk ∈ hunks, ∀ other ∈ hunks, ∀ path contents contents',
    Promises uris cwd updateFileMode files hunk (path, contents) →
      Promises uris cwd updateFileMode files other (path, contents') → contents = contents'

/-- The text that the hunk gives its file, computed from the files at the start. -/
def movedText (hunk : Hunk) : Option Text :=
  match hunk with
  | .updateFile _ _ chunks => do
    updatedText uris updateFileMode files (← hunk.source uris cwd) chunks
  | _ => none

/-- The files at the start with those that hunks have moved somewhere. -/
def moved (hunks : List Hunk) : Files Path :=
  hunks.foldl (fun moved hunk => match hunk.dest uris cwd with
    | some dest => update moved dest ((movedText uris cwd updateFileMode files hunk).map .text)
    | none => moved) files

/-- What a hunk leaves at a path that it names, behind the hunks `before`. -/
def leaves (before : List Hunk) (hunk : Hunk) (path : Path) : Option FileContents :=
  match hunk with
  | .addFile _ contents => some (.text contents)
  | .deleteFile _ => none
  | .updateFile _ none chunks =>
    (updatedText uris updateFileMode (moved uris cwd updateFileMode files before) path chunks).map .text
  | .updateFile _ (some _) _ =>
    if hunk.source uris cwd = some path then none
    else (movedText uris cwd updateFileMode files hunk).map .text

/-- The announcements do not contradict each other, and what is announced for a path is what the last
applied hunk that names it leaves there. -/
structure Compatible (hunks applied : List Hunk) : Prop where
  agree : Agree uris cwd updateFileMode files hunks
  left : ∀ before hunk after path, applied = before ++ hunk :: after → hunk.Names uris cwd path →
    (∀ later ∈ after, ¬ later.Names uris cwd path) → ∀ other ∈ hunks, ∀ contents,
      Promises uris cwd updateFileMode files other (path, contents) →
        leaves uris cwd updateFileMode files before hunk path = contents

end

section

variable {World Path : Type} [DecidableEq Path] {fs : ExecutorFileSystem World Path}
  {view : World → View Path} {uris : PathUris Path} {textDiff : Text → Text → Text} {cwd : Path}
  {updateFileMode : ApplyPatchFileUpdateMode} {files : Files Path} {world : World}
  {hunk : Hunk} {hunks : List Hunk} {changes : Map Path (ApplyPatchFileChange Path)} {path : Path}
  {change : ApplyPatchFileChange Path}

omit [DecidableEq Path] in
theorem Announces.source (h : Announces uris cwd updateFileMode files hunk path change) :
    hunk.source uris cwd = some path := by
  cases h <;> assumption

theorem Verified.nil : Verified uris cwd updateFileMode files [] ∅ where
  distinct := .nil
  announced := by simp
  listed path change h := by simp at h

theorem Verified.concat (h : Verified uris cwd updateFileMode files hunks changes)
    (hf : path ∉ changes) (ha : Announces uris cwd updateFileMode files hunk path change) :
    Verified uris cwd updateFileMode files (hunks ++ [hunk]) (changes.insert path change) where
  distinct := by
    rw [pairwise_append]
    refine ⟨h.distinct, pairwise_singleton _ _, ?_⟩
    intro other hother _ hl
    rw [mem_singleton] at hl
    obtain ⟨_, _, hlook, hother⟩ := h.announced other hother
    rw [hl, hother.source, ha.source]
    intro heq
    rw [some.inj heq] at hlook
    exact hf (AList.lookup_isSome.mp (by simp [hlook]))
  announced other hother := by
    rcases mem_concat.mp hother with hother | rfl
    · obtain ⟨otherPath, otherChange, hlook, hother⟩ := h.announced other hother
      have hne : otherPath ≠ path := by
        intro heq
        rw [heq] at hlook
        exact hf (AList.lookup_isSome.mp (by simp [hlook]))
      exact ⟨otherPath, otherChange, by rw [AList.lookup_insert_ne hne, hlook], hother⟩
    · exact ⟨path, change, AList.lookup_insert changes, ha⟩
  listed other otherChange hlook := by
    rcases lookup_insert_cases hlook with ⟨rfl, rfl⟩ | ⟨-, hold⟩
    · exact ⟨hunk, by simp, ha⟩
    · obtain ⟨found, hfn, ha'⟩ := h.listed other otherChange hold
      exact ⟨found, by simp [hfn], ha'⟩

theorem verifyHunk_spec (hfs : Behaves fs view)
    (hplain : ∀ path, hunk.Names uris cwd path → (view world).plain path) :
    Outcome (verifyHunk fs uris textDiff cwd updateFileMode changes hunk) world
      (fun changes' world' => view world' = view world ∧ ∃ path change, path ∉ changes ∧
        changes' = changes.insert path change ∧
        Announces uris cwd updateFileMode (view world).files hunk path change)
      (fun _ _ => True) := by
  unfold verifyHunk
  rw [outcome_bind, outcome_reading]
  cases hp : hunk.resolvePath uris cwd with
  | error => trivial
  | ok path =>
    have hs : hunk.source uris cwd = some path := by
      rw [source, hp]
      rfl
    simp only [resolve, outcome_pure]
    split
    · trivial
    next hf =>
    cases hunk with
    | addFile => exact ⟨rfl, path, _, hf, rfl, .add hs⟩
    | deleteFile =>
      rw [outcome_bind, outcome_reading, outcome_perform]
      have hv := hfs.readFileText_view path world
      cases hr : (fs.readFileText path world).1 with
      | error => trivial
      | ok content => exact ⟨hv, path, _, hf, rfl, .delete hs content⟩
    | updateFile filename movePath chunks =>
      rw [outcome_bind, outcome_reading]
      apply (deriveNewContentsFromChunks_spec hfs).mono _ (fun _ _ _ => trivial)
      rintro ⟨_, _⟩ _ ⟨hv, -, hfi, hnew⟩
      have hu := updatedText_of_files (hfi (hplain path (.inl hs))) hnew
      cases movePath with
      | none => exact ⟨hv, path, _, hf, rfl, .update hs hu _⟩
      | some destText =>
        rw [outcome_bind]
        cases hd : uris.join cwd destText with
        | error => trivial
        | ok dest =>
          have hdest : (updateFile filename (some destText) chunks).dest uris cwd = some dest := by
            rw [Hunk.dest, hd]
            rfl
          exact ⟨hv, path, _, hf, rfl, .move hs hdest hu _⟩

theorem foldlM_verifyHunk_spec (hfs : Behaves fs view)
    (hplain : ∀ hunk ∈ hunks, ∀ path, hunk.Names uris cwd path → (view world).plain path) :
    Outcome (hunks.foldlM (verifyHunk fs uris textDiff cwd updateFileMode) ∅) world
      (fun changes world' => view world' = view world ∧
        Verified uris cwd updateFileMode (view world).files hunks changes)
      (fun _ _ => True) := by
  apply outcome_foldlM
  · intro _ hunk _ hh _ world₁ hd
    have hp₁ (path : Path) (hp : hunk.Names uris cwd path) : (view world₁).plain path := by
      rw [hd.1]
      exact hplain hunk (by simp [hh]) path hp
    apply (verifyHunk_spec hfs hp₁).mono _ (fun _ _ _ => trivial)
    rintro _ _ ⟨hv, _, _, hf, rfl, ha⟩
    rw [hd.1] at hv ha
    exact ⟨hv, hd.2.concat hf ha⟩
  · exact ⟨rfl, .nil⟩

end

/-! ## Hunks that keep their promises -/

open ApplyPatchFileChange (promises)

section

variable {Path : Type} [DecidableEq Path] {uris : PathUris Path} {cwd : Path}
  {updateFileMode : ApplyPatchFileUpdateMode} {files files₁ files₂ files' : Files Path} {hunk : Hunk}
  {hunks before after : List Hunk} {changes : Map Path (ApplyPatchFileChange Path)}
  {path dest : Path} {change : ApplyPatchFileChange Path} {chunks : List UpdateFileChunk}
  {filename destText contents newContent diff : Text}

def Kept (uris : PathUris Path) (cwd : Path) (updateFileMode : ApplyPatchFileUpdateMode)
    (hunks : List Hunk) (files files' : Files Path) : Prop :=
  ∀ hunk ∈ hunks, ∀ path contents,
    Promises uris cwd updateFileMode files hunk (path, contents) → files' path = contents

theorem names_of_promises {place : Path × Option FileContents}
    (h : Promises uris cwd updateFileMode files hunk place) : hunk.Names uris cwd place.1 := by
  obtain ⟨_, _, ha, hp⟩ := h
  cases ha with
  | add hs | delete hs | update hs =>
    rw [promises, mem_singleton] at hp
    rw [hp]
    exact .inl hs
  | move hs hdest =>
    rw [promises] at hp
    split at hp
    · rw [mem_singleton] at hp
      rw [hp]
      exact .inl hs
    · rcases mem_pair.mp hp with rfl | rfl
      · exact .inl hs
      · exact .inr hdest

theorem Announces.promises_dest
    (h : Announces uris cwd updateFileMode files hunk path (.update diff (some dest) newContent)) :
    Promises uris cwd updateFileMode files hunk (dest, some (.text newContent)) := by
  refine ⟨path, _, h, ?_⟩
  rw [promises]
  split
  next heq => simp [heq]
  next => simp

theorem Announces.promises_source
    (h : Announces uris cwd updateFileMode files hunk path (.update diff (some dest) newContent))
    (hne : dest ≠ path) : Promises uris cwd updateFileMode files hunk (path, none) := by
  refine ⟨path, _, h, ?_⟩
  rw [promises, if_neg hne]
  simp

section

variable (h : Announces uris cwd updateFileMode files hunk path change)
include h

omit [DecidableEq Path] in
theorem Announces.of_dest (hdest : hunk.dest uris cwd = some dest) :
    ∃ diff newContent, change = .update diff (some dest) newContent := by
  cases h with
  | add | delete | update => simp [Hunk.dest] at hdest
  | move _ hd' _ diff =>
    rw [hd'] at hdest
    exact ⟨diff, _, by rw [hdest]⟩

theorem exists_promises_of_names {other : Path} (hn : hunk.Names uris cwd other) :
    ∃ contents, (other, contents) ∈ change.promises path := by
  rcases hn with hs | hdest
  · have hp : other = path := mem_unique hs h.source
    subst hp
    cases h with
    | add | delete | update => exact ⟨_, mem_singleton.mpr rfl⟩
    | move =>
      rw [promises]
      split
      · exact ⟨_, mem_singleton.mpr rfl⟩
      · exact ⟨_, .head _⟩
  · obtain ⟨_, _, rfl⟩ := h.of_dest hdest
    rw [promises]
    split
    next heq => exact ⟨_, mem_singleton.mpr (by rw [heq])⟩
    next => exact ⟨_, .tail _ (.head _)⟩

theorem Announces.unique {path' : Path} {change' : ApplyPatchFileChange Path}
    (h' : Announces uris cwd updateFileMode files hunk path' change') :
    change'.promises path' = change.promises path := by
  have hp : path' = path := mem_unique h'.source h.source
  subst hp
  cases h with
  | add | delete => cases h'; rfl
  | update _ hnew =>
    cases h' with
    | update _ hn' =>
      rw [hn', some.injEq] at hnew
      rw [hnew]
      rfl
  | move _ hdest hnew =>
    cases h' with
    | move _ hd' hn' =>
      rw [hn', some.injEq] at hnew
      rw [hd'] at hdest
      rw [hnew, hdest]
      rfl

end

theorem ApplyPatchFileChange.promises_unique {other : Path}
    {contents contents' : Option FileContents}
    (h : (other, contents) ∈ change.promises path) (h' : (other, contents') ∈ change.promises path) :
    contents = contents' := by
  cases change with
  | add | delete =>
    rw [promises, mem_singleton, mk.injEq] at h h'
    exact h.2.trans h'.2.symm
  | update _ movePath =>
    cases movePath with
    | none =>
      rw [promises, mem_singleton, mk.injEq] at h h'
      exact h.2.trans h'.2.symm
    | some =>
      rw [promises] at h h'
      split at h
      next heq =>
        rw [if_pos heq, mem_singleton, mk.injEq] at h'
        rw [mem_singleton, mk.injEq] at h
        exact h.2.trans h'.2.symm
      next hne =>
        rw [if_neg hne] at h'
        simp only [mem_pair] at h h'
        grind

theorem Promises.unique {contents contents' : Option FileContents}
    (h : Promises uris cwd updateFileMode files hunk (path, contents))
    (h' : Promises uris cwd updateFileMode files hunk (path, contents')) : contents = contents' := by
  obtain ⟨_, _, ha, hp⟩ := h
  obtain ⟨_, _, ha', hp'⟩ := h'
  rw [ha.unique ha'] at hp'
  exact ApplyPatchFileChange.promises_unique hp hp'

theorem hunkEffect_selfMove (hs : hunk.source uris cwd = some path)
    (hdest : hunk.dest uris cwd = some path)
    (h : hunkEffect uris cwd updateFileMode hunk files = some files') : files' path = none := by
  cases hunk with
  | addFile | deleteFile => simp [dest] at hdest
  | updateFile _ movePath =>
    cases movePath with
    | none => simp [dest] at hdest
    | some =>
      rw [hunkEffect, effectOf_move hs hdest, map_eq_some_iff] at h
      obtain ⟨_, -, rfl⟩ := h
      exact update_self _ _ _

/-! ### The order of the hunks -/

theorem effects_split
    (h : effects uris cwd updateFileMode (before ++ hunk :: after) files = some files') :
    ∃ files₁ files₂, effects uris cwd updateFileMode before files = some files₁ ∧
      hunkEffect uris cwd updateFileMode hunk files₁ = some files₂ ∧
        effects uris cwd updateFileMode after files₂ = some files' := by
  rw [effects_append, bind_eq_some_iff] at h
  obtain ⟨files₁, hb, h⟩ := h
  rw [effects_cons, bind_eq_some_iff] at h
  obtain ⟨files₂, he, ha⟩ := h
  exact ⟨files₁, files₂, hb, he, ha⟩

theorem moved_concat : moved uris cwd updateFileMode files (before ++ [hunk]) =
    match hunk.dest uris cwd with
    | some dest => update (moved uris cwd updateFileMode files before) dest
        ((movedText uris cwd updateFileMode files hunk).map .text)
    | none => moved uris cwd updateFileMode files before := by
  rw [moved, foldl_append]
  rfl

theorem moved_of_not_dest (h : ∀ earlier ∈ before, earlier.dest uris cwd ≠ some path) :
    moved uris cwd updateFileMode files before path = files path := by
  induction before using reverseRecOn with
  | nil => rfl
  | append_singleton before hunk ih =>
    have hb := ih fun earlier he => h earlier (by simp [he])
    rw [moved_concat]
    cases hd : hunk.dest uris cwd with
    | none => exact hb
    | some dest =>
      have hne : path ≠ dest := fun heq => h hunk (by simp) (heq ▸ hd)
      dsimp only
      rw [update_of_ne hne, hb]

theorem leaves_of_promises {contents : Option FileContents}
    (h : Promises uris cwd updateFileMode files hunk (path, contents))
    (hself : ¬ hunk.IsSelfMove uris cwd)
    (hm : hunk.dest uris cwd = none →
      moved uris cwd updateFileMode files before path = files path) :
    leaves uris cwd updateFileMode files before hunk path = contents := by
  obtain ⟨source, _, ha, hp⟩ := h
  cases ha with
  | add | delete =>
    rw [promises, mem_singleton, mk.injEq] at hp
    exact hp.2.symm
  | update hs hnew =>
    rw [promises, mem_singleton, mk.injEq] at hp
    rw [leaves, updatedText_congr (hm rfl), hp.1, hnew, hp.2]
    rfl
  | @move filename destText chunks _ dest _ hs hd hnew =>
    have hne : dest ≠ source := fun heq => hself ⟨source, hs, heq ▸ hd⟩
    rw [promises, if_neg hne] at hp
    rw [leaves]
    rcases mem_pair.mp hp with heq | heq
    · rw [(mk.inj heq).1, (mk.inj heq).2, if_pos hs]
    · have hno : (updateFile filename (some destText) chunks).source uris cwd ≠ some path := by
        rw [(mk.inj heq).1, hs]
        exact fun h => hne (Option.some.inj h).symm
      rw [if_neg hno, (mk.inj heq).2, movedText, hs]
      exact congrArg (Option.map text) hnew

namespace Hunk

omit [DecidableEq Path] in
theorem source_of_places {other : Hunk} (h : hunk.places = other.places) :
    hunk.source uris cwd = other.source uris cwd := by
  have hs : hunk.sourcePath = other.sourcePath := by
    cases hunk <;> cases other <;> simp_all [places, sourcePath]
  rw [source, resolvePath, hs]
  rfl

omit [DecidableEq Path] in
theorem dest_of_places {other : Hunk} (h : hunk.places = other.places) :
    hunk.dest uris cwd = other.dest uris cwd := by
  have hd (hunk : Hunk) : hunk.dest uris cwd = hunk.places.2.bind fun dest =>
      (uris.join cwd dest).toOption := by
    cases hunk with
    | addFile | deleteFile => rfl
    | updateFile _ movePath => cases movePath <;> rfl
  rw [hd, hd, h]

omit [DecidableEq Path] in
theorem names_of_places {other : Hunk} (h : hunk.places = other.places) :
    hunk.Names uris cwd path ↔ other.Names uris cwd path := by
  rw [Names, Names, source_of_places h, dest_of_places h]

end Hunk

/-! ### The applied hunks

The hunks that are applied are about the same paths as those that were verified, but may have other
contents. -/

namespace Verified

variable {applied : List Hunk} (hverified : Verified uris cwd updateFileMode files hunks changes)
  (hplaces : hunks.map places = applied.map places)

include hverified hplaces

omit hverified in
theorem exists_of_applied (h : hunk ∈ applied) : ∃ other ∈ hunks, other.places = hunk.places := by
  have hm : hunk.places ∈ hunks.map places := hplaces ▸ mem_map_of_mem h
  exact mem_map.mp hm

theorem distinct_applied :
    applied.Pairwise fun hunk other => hunk.source uris cwd ≠ other.source uris cwd := by
  have hsource : hunks.map (·.source uris cwd) = applied.map (·.source uris cwd) := by
    have hs (l : List Hunk) : l.map (·.source uris cwd) =
        (l.map places).map fun place => (uris.join cwd place.1).toOption := by
      rw [List.map_map]
      apply List.map_congr_left
      intro hunk _
      cases hunk <;> rfl
    rw [hs, hs, hplaces]
  have hd : (hunks.map (·.source uris cwd)).Pairwise (· ≠ ·) := pairwise_map.mpr hverified.distinct
  rw [hsource] at hd
  exact pairwise_map.mp hd

section

variable (hagree : Agree uris cwd updateFileMode files hunks)
  (hsplit : applied = before ++ hunk :: after)
include hsplit

theorem source_ne_of_before (hs : hunk.source uris cwd = some path) {earlier : Hunk}
    (he : earlier ∈ before) : earlier.source uris cwd ≠ some path := by
  have hd := hverified.distinct_applied hplaces
  rw [hsplit, pairwise_append] at hd
  rw [← hs]
  exact hd.2.2 earlier he hunk (.head _)

include hagree

/-- The source of a move is announced to be absent, so that no other hunk moves a file to it. -/
theorem not_names_before_move (hs : hunk.source uris cwd = some path)
    (hd : hunk.dest uris cwd = some dest) (hne : dest ≠ path) {earlier : Hunk} (he : earlier ∈ before) :
    ¬ earlier.Names uris cwd path := by
  rintro (hsource | hdest)
  · exact hverified.source_ne_of_before hplaces hsplit hs he hsource
  · obtain ⟨other, ho, hop⟩ := exists_of_applied hplaces (by simp [hsplit] : hunk ∈ applied)
    obtain ⟨other', ho', hop'⟩ := exists_of_applied hplaces
      (by simp [hsplit, he] : earlier ∈ applied)
    obtain ⟨otherPath, _, -, ha⟩ := hverified.announced other ho
    obtain ⟨_, _, -, ha'⟩ := hverified.announced other' ho'
    obtain ⟨_, _, rfl⟩ := ha.of_dest ((dest_of_places hop).trans hd)
    obtain ⟨_, _, rfl⟩ := ha'.of_dest ((dest_of_places hop').trans hdest)
    obtain rfl : otherPath = path := mem_unique ha.source ((source_of_places hop).trans hs)
    have hc := hagree other' ho' other ho otherPath _ _ ha'.promises_dest (ha.promises_source hne)
    exact absurd hc (by simp)

theorem hunkEffect_move (hs : hunk.source uris cwd = some path)
    (hd : hunk.dest uris cwd = some dest)
    (hne : dest ≠ path) (hb : effects uris cwd updateFileMode before files = some files₁)
    (hef : hunkEffect uris cwd updateFileMode hunk files₁ = some files₂) :
    ∃ contents, movedText uris cwd updateFileMode files hunk = some contents ∧
      files₂ = writeThenRemove files₁ path dest contents := by
  have hsame : files₁ path = files path := effects_of_not_names hb fun earlier he =>
    hverified.not_names_before_move hplaces hagree hsplit hs hd hne he
  cases hunk with
  | addFile | deleteFile => simp [Hunk.dest] at hd
  | updateFile _ movePath chunks =>
    cases movePath with
    | none => simp [Hunk.dest] at hd
    | some =>
      rw [hunkEffect, effectOf_move hs hd, map_eq_some_iff, updatedText_congr hsame] at hef
      obtain ⟨contents, hc, rfl⟩ := hef
      refine ⟨contents, ?_, rfl⟩
      rw [movedText, hs]
      exact hc

omit hsplit

/-- A path that is the source of no earlier hunk has what was moved there. -/
theorem eq_moved (hsplit : applied = before ++ after)
    (hpath : ∀ earlier ∈ before, earlier.source uris cwd ≠ some path)
    (hb : effects uris cwd updateFileMode before files = some files₁) :
    files₁ path = moved uris cwd updateFileMode files before path := by
  induction before using reverseRecOn generalizing after files₁ with
  | nil =>
    have heq : files = files₁ := by simpa [effects] using hb
    rw [← heq]
    rfl
  | append_singleton before hunk ih =>
    rw [effects_concat, bind_eq_some_iff] at hb
    obtain ⟨files₀, hb, hef⟩ := hb
    have hsplit' : applied = before ++ hunk :: after := by simp [hsplit]
    have hsame := ih hsplit' (fun earlier he => hpath earlier (by simp [he])) hb
    obtain ⟨source, hs⟩ := source_of_hunkEffect hef
    have hne : path ≠ source := fun heq => hpath hunk (by simp) (heq ▸ hs)
    rw [moved_concat]
    cases hd : hunk.dest uris cwd with
    | none =>
      dsimp only
      rw [← hsame]
      apply hunkEffect_of_not_names hef
      rintro (hsource | hdest)
      · exact hpath hunk (by simp) hsource
      · rw [hd] at hdest
        cases hdest
    | some dest =>
      dsimp only
      by_cases heq : path = dest
      · subst heq
        obtain ⟨_, hm, rfl⟩ := hverified.hunkEffect_move hplaces hagree hsplit' hs hd hne hb hef
        rw [writeThenRemove, update_of_ne hne, update_self, update_self, hm]
        rfl
      · rw [update_of_ne heq, ← hsame]
        apply hunkEffect_of_not_names hef
        rintro (hsource | hdest)
        · exact hpath hunk (by simp) hsource
        · exact heq (mem_unique hdest hd)

include hsplit

theorem eq_leaves (hn : hunk.Names uris cwd path)
    (hb : effects uris cwd updateFileMode before files = some files₁)
    (hef : hunkEffect uris cwd updateFileMode hunk files₁ = some files₂) :
    files₂ path = leaves uris cwd updateFileMode files before hunk path := by
  obtain ⟨source, hs⟩ := source_of_hunkEffect hef
  have hsource (hd : hunk.dest uris cwd = none) : path = source := by
    rcases hn with h | h
    · exact mem_unique h hs
    · rw [hd] at h
      cases h
  cases hunk with
  | addFile =>
    rw [hunkEffect, effectOf_addFile hs, some.injEq] at hef
    rw [← hef, hsource rfl, update_self]
    rfl
  | deleteFile =>
    rw [hunkEffect, effectOf_deleteFile hs, map_eq_some_iff] at hef
    obtain ⟨_, -, rfl⟩ := hef
    rw [hsource rfl, update_self]
    rfl
  | updateFile filename movePath chunks =>
    cases movePath with
    | none =>
      obtain rfl := hsource rfl
      have hsame := hverified.eq_moved hplaces hagree hsplit
        (fun earlier he => hverified.source_ne_of_before hplaces hsplit hs he) hb
      rw [hunkEffect, effectOf_updateFile hs, updatedText_congr hsame, map_eq_some_iff] at hef
      obtain ⟨_, hc, rfl⟩ := hef
      rw [update_self, leaves, hc]
      rfl
    | some destText =>
      obtain ⟨dest, hd⟩ := dest_of_hunkEffect hef
      rw [leaves]
      by_cases heq : dest = source
      · subst heq
        have hp : path = dest := by
          rcases hn with h | h
          · exact mem_unique h hs
          · exact mem_unique h hd
        rw [hp, if_pos hs]
        exact hunkEffect_selfMove hs hd hef
      · obtain ⟨_, hm, rfl⟩ := hverified.hunkEffect_move hplaces hagree hsplit hs hd heq hb hef
        rw [writeThenRemove]
        by_cases hp : path = source
        · rw [hp, if_pos hs, update_self]
        · have hdest : path = dest := by
            rcases hn with h | h
            · exact absurd (mem_unique h hs) hp
            · exact mem_unique h hd
          have hno : (updateFile filename (some destText) chunks).source uris cwd ≠ some path :=
            fun h => hp (mem_unique h hs)
          rw [if_neg hno, update_of_ne hp, hdest, update_self, hm]
          rfl

end

section

variable (heffects : effects uris cwd updateFileMode applied files = some files')
include heffects

theorem eq_leaves_of_last (hagree : Agree uris cwd updateFileMode files hunks)
    (hsplit : applied = before ++ hunk :: after) (hn : hunk.Names uris cwd path)
    (hlast : ∀ later ∈ after, ¬ later.Names uris cwd path) :
    files' path = leaves uris cwd updateFileMode files before hunk path := by
  rw [hsplit] at heffects
  obtain ⟨_, files₂, hb, hef, ha⟩ := effects_split heffects
  rw [effects_of_not_names ha hlast]
  exact hverified.eq_leaves hplaces hagree hsplit hn hb hef

theorem kept_iff : Kept uris cwd updateFileMode hunks files files' ↔
    Compatible uris cwd updateFileMode files hunks applied := by
  constructor
  · intro hk
    have hagree : Agree uris cwd updateFileMode files hunks := by
      intro hunk hh other hother path contents contents' hprom hp'
      rw [← hk hunk hh path contents hprom, ← hk other hother path contents' hp']
    refine ⟨hagree, ?_⟩
    intro before hunk after path hsplit hn hlast other ho contents hprom
    rw [← hverified.eq_leaves_of_last hplaces heffects hagree hsplit hn hlast]
    exact hk other ho path contents hprom
  · intro hc hunk hh path contents hprom
    obtain ⟨found, hf, hplace⟩ := mem_map.mp (hplaces ▸ mem_map_of_mem (f := places) hh)
    have hnames : ∃ found ∈ applied, found.Names uris cwd path :=
      ⟨found, hf, (names_of_places hplace).mpr (names_of_promises hprom)⟩
    obtain ⟨before, last, after, hsplit, hn, hlast⟩ := exists_last_split hnames
    rw [hverified.eq_leaves_of_last hplaces heffects hc.agree hsplit hn hlast]
    exact hc.left before last after path hsplit hn hlast hunk hh contents hprom

theorem describes_iff_kept :
    Describes changes files files' ↔ Kept uris cwd updateFileMode hunks files files' := by
  constructor
  · rintro hd hunk hh _ _ ⟨_, _, ha, hp⟩
    obtain ⟨path', change', hlook, ha'⟩ := hverified.announced hunk hh
    rw [← ha.unique ha'] at hp
    exact hd.promised path' change' hlook _ hp
  · intro hk
    refine ⟨?_, ?_⟩
    · intro path change hlook place hp
      obtain ⟨hunk, hh, ha⟩ := hverified.listed path change hlook
      exact hk hunk hh place.1 place.2 ⟨path, change, ha, hp⟩
    · intro _ hother
      apply effects_of_not_names heffects
      intro applied ha hn
      obtain ⟨hunk, hh, hplace⟩ := exists_of_applied hplaces ha
      obtain ⟨path, change, hlook, ha⟩ := hverified.announced hunk hh
      obtain ⟨_, hp⟩ := exists_promises_of_names ha ((names_of_places hplace).mpr hn)
      exact hother path change hlook _ hp rfl

theorem describes_iff : Describes changes files files' ↔
    Compatible uris cwd updateFileMode files hunks applied := by
  rw [hverified.describes_iff_kept hplaces heffects, hverified.kept_iff hplaces heffects]

end

omit hplaces

theorem compatible_of_fresh
    (hf : ∀ hunk ∈ hunks, ∀ dest, hunk.dest uris cwd = some dest →
      hunk.source uris cwd ≠ some dest ∧
        ∀ other ∈ hunks, other.Names uris cwd dest → other = hunk) :
    Compatible uris cwd updateFileMode files hunks hunks := by
  have hsame {path : Path} {hunk other : Hunk} (hh : hunk ∈ hunks) (ho : other ∈ hunks)
      (hn : hunk.Names uris cwd path) (hn' : other.Names uris cwd path) : hunk = other := by
    have hsy : Std.Symm fun hunk other : Hunk => hunk.source uris cwd ≠ other.source uris cwd :=
      ⟨fun _ _ h => h.symm⟩
    by_contra hne
    rcases hn with hs | hd
    · rcases hn' with hs' | hd'
      · exact hverified.distinct.forall hh ho hne (hs.trans hs'.symm)
      · exact hne ((hf other ho path hd').2 hunk hh (.inl hs))
    · exact hne ((hf hunk hh path hd).2 other ho hn').symm
  refine ⟨?_, ?_⟩
  · intro hunk hh other ho path contents contents' hprom hprom'
    have hn : hunk.Names uris cwd path := names_of_promises hprom
    have hn' : other.Names uris cwd path := names_of_promises hprom'
    obtain rfl := hsame hh ho hn hn'
    exact hprom.unique hprom'
  · intro before hunk after path hsplit hn hlast other ho contents hprom
    have hh : hunk ∈ hunks := by simp [hsplit]
    have hn' : other.Names uris cwd path := names_of_promises hprom
    obtain rfl := hsame ho hh hn' hn
    have hself : ¬ other.IsSelfMove uris cwd := by
      rintro ⟨dest, hs, hd⟩
      exact (hf other hh dest hd).1 hs
    apply leaves_of_promises hprom hself
    intro hd
    apply moved_of_not_dest
    intro earlier he hdest
    obtain rfl := (hf earlier (by simp [hsplit, he]) path hdest).2 other hh hn
    rw [hd] at hdest
    cases hdest

end Verified

end

section

variable {World Path : Type} [DecidableEq Path] {fs : ExecutorFileSystem World Path}
  {view : World → View Path} {uris : PathUris Path} {textDiff : Text → Text → Text} {cwd : Path}
  {updateFileMode : ApplyPatchFileUpdateMode} {args applied : ApplyPatchArgs}
  {world world' start : World}
  {action : ApplyPatchAction Path} {run' : PatchRun World Path}

omit [DecidableEq Path] in
theorem effectiveCwd_spec {workdir : Option Text} :
    Outcome (effectiveCwd uris cwd workdir) world (fun _ world' => world' = world)
      (fun _ _ => True) := by
  unfold effectiveCwd
  cases workdir with
  | none => rfl
  | some dir =>
    rw [outcome_reading]
    cases uris.join cwd dir <;> trivial

theorem tryVerifyApplyPatchArgs_eq_ok
    (h : tryVerifyApplyPatchArgs fs uris textDiff cwd updateFileMode args world = .ok action world') :
    action.updateFileMode = updateFileMode ∧ action.patch = args.patch ∧
      args.hunks.foldlM (verifyHunk fs uris textDiff action.cwd updateFileMode) ∅ world =
        .ok action.changes world' := by
  have hs : Outcome (tryVerifyApplyPatchArgs fs uris textDiff cwd updateFileMode args) world
      (fun action world' => action.updateFileMode = updateFileMode ∧ action.patch = args.patch ∧
        args.hunks.foldlM (verifyHunk fs uris textDiff action.cwd updateFileMode) ∅ world =
          .ok action.changes world') (fun _ _ => True) := by
    unfold tryVerifyApplyPatchArgs
    rw [outcome_bind]
    apply effectiveCwd_spec.mono _ (fun _ _ _ => trivial)
    rintro _ _ rfl
    rw [outcome_bind]
    apply outcome_result.mono
    · intro _ _ hok
      exact ⟨rfl, rfl, hok⟩
    · exact fun _ _ _ => trivial
  exact hs.of_ok h

/-- An action describes the files behind the application of its patch if and only if its hunks are
compatible with those that are read from the stored text. -/
theorem applyPatch_describes_iff (hfs : Behaves fs view) {text : Text} {workdir : Option Text}
    (hparse : parsePatch text = .ok args)
    (hverify : tryVerifyApplyPatchArgs fs uris textDiff cwd updateFileMode
      { args with workdir := workdir } world = .ok action world')
    (hplain : ∀ hunk ∈ args.hunks, ∀ path, hunk.Names uris action.cwd path →
      (view world).plain path)
    (hstart : view start = view world) (happlied : parsePatch action.patch = .ok applied)
    (hrun : applyPatch fs uris action.cwd action.updateFileMode action.patch
      { world := start } = .ok () run') :
    Describes action.changes (view world).files (view run'.world).files ↔
      Compatible uris action.cwd action.updateFileMode (view world).files args.hunks
        applied.hunks := by
  obtain ⟨hmode, hpatch, hfold⟩ := tryVerifyApplyPatchArgs_eq_ok hverify
  have hverified := ((foldlM_verifyHunk_spec hfs hplain).of_ok hfold).2
  rw [applyPatch, happlied] at hrun
  rw [hpatch] at happlied
  have hplaces := places_of_parsePatch_patch hparse happlied
  have hplain' : ∀ hunk ∈ applied.hunks, ∀ path, hunk.Names uris action.cwd path →
      (view world).plain path := by
    intro hunk hh path hn
    obtain ⟨other, ho, hplace⟩ := Verified.exists_of_applied hplaces hh
    exact hplain other ho path ((names_of_places hplace).mpr hn)
  rw [← hstart] at hplain' hverified ⊢
  rw [hmode] at hrun ⊢
  exact hverified.describes_iff hplaces (effects_of_applyHunksToFiles hfs hplain' hrun)

end

/-- The patch is verified and then applied, with other files than announced. -/
def Misdescribed (text : Text) : Prop :=
  ∃ args action world' run', parsePatch text = .ok args ∧
    tryVerifyApplyPatchArgs (memoryFileSystem fun _ => false) flatUris (fun _ _ => []) []
      .preserveLineEndings args sampleFiles = .ok action world' ∧
    applyPatch (memoryFileSystem fun _ => false) flatUris action.cwd action.updateFileMode
      action.patch { world := world' } = .ok () run' ∧
    ¬ Describes action.changes sampleFiles run'.world

theorem Misdescribed.of_outcome {text : Text} (args : ApplyPatchArgs) (path place : Text)
    (contents : FileContents) (hparse : parsePatch text = .ok args)
    (h : Outcome (tryVerifyApplyPatchArgs (memoryFileSystem fun _ => false) flatUris (fun _ _ => []) []
      .preserveLineEndings args) sampleFiles
      (fun action world' =>
        (∃ change ∈ action.changes.lookup path, (place, some contents) ∈ change.promises path) ∧
        Outcome (applyPatch (memoryFileSystem fun _ => false) flatUris action.cwd
          action.updateFileMode action.patch) { world := world' }
          (fun _ run' => run'.world place ≠ some contents) fun _ _ => False) fun _ _ => False) :
    Misdescribed text := by
  obtain ⟨action, world', hverify, ⟨change, hlook, hprom⟩, happlied⟩ := h.exists_ok
  obtain ⟨_, run', hrun, hother⟩ := happlied.exists_ok
  exact ⟨args, action, world', run', hparse, hverify, hrun,
    fun hd => hother (hd.promised _ change hlook _ hprom)⟩

/-- The file that is moved to `b` is overwritten by the file that is added there. -/
def collidingPatch : Text :=
  ("*** Begin Patch\n*** Update File: a\n*** Move to: b\n@@\n-x\n+y\n*** Add File: b\n+z\n" ++
    "*** End Patch").toList

/-- Of three carriage returns the first parse takes two and the second one the third. -/
def returningPatch : Text :=
  "*** Begin Patch\n*** Add File: c\n+x\r\r\r\n*** End Patch".toList

theorem verified_action_not_described : Misdescribed collidingPatch ∧ Misdescribed returningPatch := by
  constructor
  · apply Misdescribed.of_outcome ⟨collidingPatch,
      [sampleUpdate (some "b".toList), .addFile "b".toList "z\n".toList], none, none⟩
      "a".toList "b".toList (.text "y\n".toList)
    · decide +kernel
    · decide +kernel
  · apply Misdescribed.of_outcome ⟨"*** Begin Patch\n*** Add File: c\n+x\r\r\n*** End Patch".toList,
      [.addFile "c".toList "x\r\n".toList], none, none⟩
      "c".toList "c".toList (.text "x\r\n".toList)
    · decide +kernel
    · decide +kernel

/-- A file that is moved to `b`, and another one that is added. -/
def freshArgs : ApplyPatchArgs where
  patch :=
    ("*** Begin Patch\n*** Update File: a\n*** Move to: b\n@@\n-x\n+y\n*** Add File: c\n+z\n" ++
      "*** End Patch").toList
  hunks := [sampleUpdate (some "b".toList), .addFile "c".toList "z\n".toList]
  workdir := none
  environmentId := none

theorem parsePatch_freshArgs : parsePatch freshArgs.patch = .ok freshArgs := by decide +kernel

theorem freshArgs_succeeds : ∃ action run',
    tryVerifyApplyPatchArgs (memoryFileSystem fun _ => false) flatUris (fun _ _ => []) []
      .preserveLineEndings freshArgs sampleFiles = .ok action sampleFiles ∧
    applyPatch (memoryFileSystem fun _ => false) flatUris action.cwd action.updateFileMode
      action.patch { world := sampleFiles } = .ok () run' := by
  obtain ⟨action, world', hverify, happlied⟩ : ∃ action world',
      tryVerifyApplyPatchArgs (memoryFileSystem fun _ => false) flatUris (fun _ _ => []) []
        .preserveLineEndings freshArgs sampleFiles = .ok action world' ∧
      Outcome (applyPatch (memoryFileSystem fun _ => false) flatUris action.cwd
        action.updateFileMode action.patch) { world := world' } (fun _ _ => True) fun _ _ => False :=
    Outcome.exists_ok (by decide +kernel)
  obtain ⟨_, run', hrun, -⟩ := happlied.exists_ok
  have hfs := memoryFileSystem_behaves fun _ : Text => false
  obtain ⟨-, -, hfold⟩ := tryVerifyApplyPatchArgs_eq_ok hverify
  have hs := ((foldlM_verifyHunk_spec hfs fun _ _ _ _ => trivial).of_ok hfold).1
  obtain rfl : world' = sampleFiles := congrArg View.files hs
  exact ⟨action, run', hverify, hrun⟩

theorem freshArgs_fresh {cwd : Text} : ∀ hunk ∈ freshArgs.hunks, ∀ dest,
    hunk.dest flatUris cwd = some dest → hunk.source flatUris cwd ≠ some dest ∧
      ∀ other ∈ freshArgs.hunks, other.Names flatUris cwd dest → other = hunk := by
  intro _ hh dest hdest
  rcases mem_pair.mp hh with rfl | rfl
  · have hb : "b".toList = dest := some.inj hdest
    subst hb
    have hs : some "a".toList ≠ some "b".toList := by decide
    have hother : some "c".toList ≠ some "b".toList := by decide
    refine ⟨hs, ?_⟩
    intro _ hm hn
    rcases mem_pair.mp hm with rfl | rfl
    · rfl
    · exact absurd (hn.resolve_right (by simp [Hunk.dest])) hother
  · simp [Hunk.dest] at hdest

theorem applyPatch_describes_freshArgs : ∃ action run',
    tryVerifyApplyPatchArgs (memoryFileSystem fun _ => false) flatUris (fun _ _ => []) []
      .preserveLineEndings freshArgs sampleFiles = .ok action sampleFiles ∧
    applyPatch (memoryFileSystem fun _ => false) flatUris action.cwd action.updateFileMode
      action.patch { world := sampleFiles } = .ok () run' ∧
    Describes action.changes sampleFiles run'.world := by
  obtain ⟨action, run', hverify, hrun⟩ := freshArgs_succeeds
  refine ⟨action, run', hverify, hrun, ?_⟩
  have hfs := memoryFileSystem_behaves fun _ : Text => false
  obtain ⟨hmode, hpatch, hfold⟩ := tryVerifyApplyPatchArgs_eq_ok hverify
  apply (applyPatch_describes_iff hfs parsePatch_freshArgs hverify (fun _ _ _ _ => trivial) rfl
    (hpatch ▸ parsePatch_freshArgs) hrun).mpr
  rw [hmode]
  exact ((foldlM_verifyHunk_spec hfs fun _ _ _ _ => trivial).of_ok hfold).2.compatible_of_fresh
    freshArgs_fresh

end Slopdex.Patch
