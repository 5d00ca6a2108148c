import Slopdex.Patch.FileUpdate
import Slopdex.Patch.FileSystem
import Slopdex.Library.Effects

/-!
# Applying hunks to files

A run keeps the changes that it has committed and whether they are known to be all that happened: a
write that failed, a file that could not be read before it was replaced and a link in the place of a
file make the changes inexact. An error ends the run; its changes are reported all the same.
-/

namespace Slopdex.Patch

open Protocol (Text)
open Library.Effects

inductive AppliedPatchFileChange (Path : Type)
  | add (content : Text) (overwrittenContent : Option Text)
  | delete (content : Text)
  | update (movePath : Option Path) (oldContent : Text) (overwrittenMoveContent : Option Text)
      (newContent : Text)

structure AppliedPatchChange (Path : Type) where
  path : Path
  change : AppliedPatchFileChange Path

/-- `isExact` is the field `exact`. -/
structure AppliedPatchDelta (Path : Type) where
  changes : List (AppliedPatchChange Path) := []
  isExact : Bool := true

structure AffectedPaths where
  added : List Text := []
  modified : List Text := []
  deleted : List Text := []

inductive PatchError
  | parse (error : ParseError)
  | noFilesModified
  | pathUri (message : Text)
  | update (error : UpdateError)
  | io (context : Text) (source : IoError)

structure PatchRun (World Path : Type) where
  world : World
  delta : AppliedPatchDelta Path := {}
  affected : AffectedPaths := {}

abbrev Patching (World Path : Type) := EStateM PatchError (PatchRun World Path)

namespace Hunk

def sourcePath : Hunk → Text
  | addFile path _ | deleteFile path | updateFile path _ _ => path

def path : Hunk → Text
  | addFile path _ | deleteFile path | updateFile _ (some path) _ | updateFile path none _ => path

def resolvePath {Path : Type} (uris : PathUris Path) (cwd : Path) (hunk : Hunk) : Except Text Path :=
  uris.join cwd hunk.sourcePath

end Hunk

section

variable {World Path α : Type}

def perform (operation : World → Except IoError α × World) : Patching World Path (Except IoError α) :=
  fun run => .ok (operation run.world).1 { run with world := (operation run.world).2 }

@[simp] theorem outcome_perform {operation : World → Except IoError α × World}
    {run : PatchRun World Path} {ok : Except IoError α → PatchRun World Path → Prop}
    {error : PatchError → PatchRun World Path → Prop} :
    Outcome (perform operation) run ok error ↔
      ok (operation run.world).1 { run with world := (operation run.world).2 } := Iff.rfl

def resolve (path : Except Text Path) : Patching World Path Path :=
  match path with
  | .ok path => pure path
  | .error message => throw (.pathUri message)

def markInexact : Patching World Path Unit :=
  modify fun run => { run with delta.isExact := false }

/-- `delta.exact &= kept` -/
def keepExactIf (kept : Bool) : Patching World Path Unit :=
  modify fun run => { run with delta.isExact := run.delta.isExact && kept }

def pushChange (change : AppliedPatchChange Path) : Patching World Path Unit :=
  modify fun run => { run with delta.changes := run.delta.changes ++ [change] }

def replaceLastChange (change : AppliedPatchChange Path) : Patching World Path Unit :=
  modify fun run => { run with delta.changes := run.delta.changes.dropLast ++ [change] }

def noteAffected (note : AffectedPaths → AffectedPaths) : Patching World Path Unit :=
  modify fun run => { run with affected := note run.affected }

variable (fs : ExecutorFileSystem World Path) (uris : PathUris Path) (path : Path)

def noteExistingPathDeltaSupport : Patching World Path Unit := do
  match ← perform (fs.getMetadata path) with
  | .ok metadata => if metadata.isFile && !metadata.isSymlink then pure () else markInexact
  | .error source => if source.kind = .notFound then pure () else markInexact

def readOptionalFileTextForDelta : Patching World Path (Option Text) := do
  noteExistingPathDeltaSupport fs path
  match ← perform (fs.readFileText path) with
  | .ok content => return some content
  | .error source =>
    if source.kind = .notFound then return none
    else do
      markInexact
      return none

def ensureNotDirectory (context : Text) (path : Path) : Patching World Path Unit := do
  match ← perform (fs.getMetadata path) with
  | .error source => throw (.io context source)
  | .ok metadata =>
    if metadata.isDirectory then throw (.io context ⟨.invalidInput, "path is a directory".toList⟩)
    else pure ()

def removeFailureWasSideEffectFree (expectedContent : Option Text) :
    Patching World Path Bool :=
  match expectedContent with
  | none => return false
  | some expectedContent => do
    match ← perform (fs.readFileText path) with
    | .ok content => return content == expectedContent
    | .error _ => return false

/-- `remove` on the file, or the error behind a check of what the failure left. -/
def removeFile (context : Text) (path : Path) (expectedContent : Option Text) :
    Patching World Path Unit := do
  match ← perform (fs.remove path) with
  | .ok () => pure ()
  | .error source => do
    keepExactIf (← removeFailureWasSideEffectFree fs path expectedContent)
    throw (.io context source)

/-- `try_write!`: a failed write can still have modified its target. -/
def tryWrite (context : Text) (path : Path) (contents : Text) : Patching World Path Unit := do
  match ← perform (fs.writeFile path contents) with
  | .ok () => pure ()
  | .error source => do
    markInexact
    throw (.io context source)

def writeContext : Text :=
  "Failed to write file ".toList ++ uris.inferredNativePathString path

def writeFileWithMissingParentRetry (contents : Text) : Patching World Path Unit := do
  match ← perform (fs.writeFile path contents) with
  | .ok () => pure ()
  | .error source =>
    if source.kind = .notFound then
      match uris.parent path with
      | none => tryWrite fs (writeContext uris path) path contents
      | some parent =>
        match ← perform (fs.createDirectory parent) with
        | .ok () => tryWrite fs (writeContext uris path) path contents
        | .error source => do
          markInexact
          throw (.io ("Failed to create parent directories for ".toList ++
            uris.inferredNativePathString path) source)
    else do
      markInexact
      throw (.io (writeContext uris path) source)

def deriveNewContentsFromChunks (chunks : List UpdateFileChunk)
    (updateFileMode : ApplyPatchFileUpdateMode) : Patching World Path (Text × Text) := do
  match ← perform (fs.readFileText path) with
  | .error source =>
    throw (.io ("Failed to read file to update ".toList ++ uris.inferredNativePathString path) source)
  | .ok originalContents =>
    match deriveNewContents (uris.inferredNativePathString path) chunks updateFileMode
        originalContents with
    | .error error => throw (.update error)
    | .ok newContents => return (originalContents, newContents)

variable (affectedPath : Text)

def applyAdd (path : Path) (contents : Text) : Patching World Path Unit := do
  let overwrittenContent ← readOptionalFileTextForDelta fs path
  writeFileWithMissingParentRetry fs uris path contents
  pushChange ⟨path, .add contents overwrittenContent⟩
  noteAffected fun affected => { affected with added := affected.added ++ [affectedPath] }

def readDeletedContent : Patching World Path (Option Text) := do
  match ← perform (fs.readFileText path) with
  | .ok content => return some content
  | .error _ => do
    markInexact
    return none

def applyDelete (path : Path) : Patching World Path Unit := do
  let context := "Failed to delete file ".toList ++ uris.inferredNativePathString path
  noteExistingPathDeltaSupport fs path
  let deletedContent ← readDeletedContent fs path
  ensureNotDirectory fs context path
  removeFile fs context path deletedContent
  match deletedContent with
  | some content => pushChange ⟨path, .delete content⟩
  | none => pure ()
  noteAffected fun affected => { affected with deleted := affected.deleted ++ [affectedPath] }

/-- The update of a file with a destination: the destination is written and then the source removed. -/
def applyMove (path destPath : Path) (originalContents newContents : Text) :
    Patching World Path Unit := do
  let context := "Failed to remove original ".toList ++ uris.inferredNativePathString path
  let overwrittenMoveContent ← readOptionalFileTextForDelta fs destPath
  writeFileWithMissingParentRetry fs uris destPath newContents
  pushChange ⟨destPath, .add newContents overwrittenMoveContent⟩
  ensureNotDirectory fs context path
  removeFile fs context path (some originalContents)
  replaceLastChange
    ⟨path, .update (some destPath) originalContents overwrittenMoveContent newContents⟩
  noteAffected fun affected => { affected with modified := affected.modified ++ [affectedPath] }

def applyUpdate (path : Path) (originalContents newContents : Text) : Patching World Path Unit := do
  tryWrite fs (writeContext uris path) path newContents
  pushChange ⟨path, .update none originalContents none newContents⟩
  noteAffected fun affected => { affected with modified := affected.modified ++ [affectedPath] }

variable (cwd : Path) (updateFileMode : ApplyPatchFileUpdateMode)

def applyHunk (hunk : Hunk) : Patching World Path Unit := do
  let path ← resolve (hunk.resolvePath uris cwd)
  match hunk with
  | .addFile _ contents => applyAdd fs uris hunk.path path contents
  | .deleteFile _ => applyDelete fs uris hunk.path path
  | .updateFile _ movePath chunks => do
    noteExistingPathDeltaSupport fs path
    let (originalContents, newContents) ←
      deriveNewContentsFromChunks fs uris path chunks updateFileMode
    match movePath with
    | some dest => do
      let destPath ← resolve (uris.join cwd dest)
      applyMove fs uris hunk.path path destPath originalContents newContents
    | none => applyUpdate fs uris hunk.path path originalContents newContents

def applyHunksToFiles (hunks : List Hunk) : Patching World Path Unit :=
  if hunks.isEmpty then throw .noFilesModified
  else hunks.forM (applyHunk fs uris cwd updateFileMode)

/-- `apply_patch_with_options`: the text of the patch is parsed, whoever has parsed it before. -/
def applyPatch (patch : Text) : Patching World Path Unit :=
  match parsePatch patch with
  | .error error => throw (.parse error)
  | .ok args => applyHunksToFiles fs uris cwd updateFileMode args.hunks

end

end Slopdex.Patch
