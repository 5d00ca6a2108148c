import Slopdex.Patch.Parser
import Mathlib.Logic.Function.Basic

/-!
# The file system under a patch

An operation of the file system can fail at any time; `Behaves` states what it does then and what it
does when it succeeds. A write or a removal that fails may have changed its file all the same. The
statements are about plain paths, with no link on the way; operations on other paths may change
other files as well.
-/

namespace Slopdex.Patch

open Protocol (Text)

inductive IoErrorKind
  | notFound
  | invalidInput
  | invalidData
  | other
  deriving DecidableEq

structure IoError where
  kind : IoErrorKind
  message : Text

structure FileMetadata where
  (isDirectory isFile isSymlink : Bool)

structure PathUris (Path : Type) where
  join : Path → Text → Except Text Path
  parent : Path → Option Path
  inferredNativePathString : Path → Text

structure ExecutorFileSystem (World Path : Type) where
  getMetadata : Path → World → Except IoError FileMetadata × World
  readFileText : Path → World → Except IoError Text × World
  writeFile : Path → Text → World → Except IoError Unit × World
  createDirectory : Path → World → Except IoError Unit × World
  remove : Path → World → Except IoError Unit × World

inductive FileContents
  | text (contents : Text)
  | binary (bytes : List UInt8)
  deriving DecidableEq

def FileContents.toText : FileContents → Option Text
  | text contents => some contents
  | binary _ => none

abbrev Files (Path : Type) := Path → Option FileContents

/-- What can be known of a world: the files, and which paths stand for themselves only. -/
structure View (Path : Type) where
  files : Files Path
  plain : Path → Prop
  link : Path → Prop

section

variable {World Path : Type} [DecidableEq Path]

def View.set (view : View Path) (path : Path) (contents : Option FileContents) : View Path :=
  { view with files := Function.update view.files path contents }

/-- The laws of operations on plain paths and of the metadata of links. -/
structure Behaves (fs : ExecutorFileSystem World Path) (view : World → View Path) : Prop where
  getMetadata_view : ∀ path w, view (fs.getMetadata path w).2 = view w
  readFileText_view : ∀ path w, view (fs.readFileText path w).2 = view w
  createDirectory_view : ∀ path w, view (fs.createDirectory path w).2 = view w
  getMetadata_exists : ∀ path w metadata, (view w).plain path →
    (fs.getMetadata path w).1 = .ok metadata → metadata.isDirectory = false →
      ((view w).files path).isSome
  getMetadata_link : ∀ path w metadata, (view w).link path →
    (fs.getMetadata path w).1 = .ok metadata → metadata.isSymlink = true
  getMetadata_link_error : ∀ path w error, (view w).link path →
    (fs.getMetadata path w).1 = .error error → error.kind ≠ .notFound
  readFileText_ok : ∀ path w contents, (view w).plain path →
    (fs.readFileText path w).1 = .ok contents → (view w).files path = some (.text contents)
  writeFile_ok : ∀ path contents w, (view w).plain path →
    (fs.writeFile path contents w).1 = .ok () →
      view (fs.writeFile path contents w).2 = (view w).set path (some (.text contents))
  writeFile_error : ∀ path contents w error, (view w).plain path →
    (fs.writeFile path contents w).1 = .error error →
      ∃ left, view (fs.writeFile path contents w).2 = (view w).set path left
  remove_ok : ∀ path w, (view w).plain path → (fs.remove path w).1 = .ok () →
    view (fs.remove path w).2 = (view w).set path none
  remove_error : ∀ path w error, (view w).plain path → (fs.remove path w).1 = .error error →
    ∃ left, view (fs.remove path w).2 = (view w).set path left

def missingFile : IoError := ⟨.notFound, "no such file".toList⟩
def invalidText : IoError := ⟨.invalidData, "no valid text".toList⟩
def permissionDenied : IoError := ⟨.other, "permission denied".toList⟩

def memoryFileSystem (readOnly : Path → Bool) : ExecutorFileSystem (Files Path) Path where
  getMetadata path files :=
    match files path with
    | none => (.error missingFile, files)
    | some _ => (.ok ⟨false, true, false⟩, files)
  readFileText path files :=
    match files path with
    | none => (.error missingFile, files)
    | some (.binary _) => (.error invalidText, files)
    | some (.text contents) => (.ok contents, files)
  writeFile path contents files :=
    if readOnly path then (.error permissionDenied, files)
    else (.ok (), Function.update files path (some (.text contents)))
  createDirectory _ files := (.ok (), files)
  remove path files :=
    if readOnly path then (.error permissionDenied, files)
    else
      match files path with
      | none => (.error missingFile, files)
      | some _ => (.ok (), Function.update files path none)

def memoryView (files : Files Path) : View Path := ⟨files, fun _ => True, fun _ => False⟩

theorem memoryFileSystem_behaves (readOnly : Path → Bool) :
    Behaves (memoryFileSystem readOnly) memoryView where
  getMetadata_view path files := by
    cases h : files path <;> simp [memoryFileSystem, h]
  readFileText_view path files := by
    cases h : files path with
    | none => simp [memoryFileSystem, h]
    | some contents => cases contents <;> simp [memoryFileSystem, h]
  createDirectory_view _ _ := rfl
  getMetadata_exists path files metadata _ hok _ := by
    cases h : files path <;> simp [memoryFileSystem, h] at hok
    simp [memoryView, h]
  getMetadata_link _ _ _ hl _ := hl.elim
  getMetadata_link_error _ _ _ hl _ := hl.elim
  readFileText_ok path files contents _ hok := by
    cases h : files path with
    | none => simp [memoryFileSystem, h] at hok
    | some found => cases found <;> simp_all [memoryFileSystem, memoryView]
  writeFile_ok path contents files _ hok := by
    cases h : readOnly path <;> simp [memoryFileSystem, h, memoryView, View.set] at hok ⊢
  writeFile_error path contents files error _ he := by
    cases h : readOnly path with
    | false => simp [memoryFileSystem, h] at he
    | true =>
      refine ⟨files path, ?_⟩
      simp [memoryFileSystem, h, memoryView, View.set]
  remove_ok path files _ hok := by
    cases h : readOnly path <;> cases hf : files path <;>
      simp [memoryFileSystem, h, hf, memoryView, View.set] at hok ⊢
  remove_error path files error _ he := by
    have hs : ((memoryFileSystem readOnly).remove path files).2 = files := by
      cases h : readOnly path <;> cases hf : files path <;>
        simp [memoryFileSystem, h, hf] at he ⊢
    refine ⟨files path, ?_⟩
    rw [hs]
    simp [memoryView, View.set]

end

end Slopdex.Patch
