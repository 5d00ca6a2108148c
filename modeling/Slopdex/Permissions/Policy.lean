import Slopdex.Library.Specificity
import Slopdex.Permissions.PathUri

/-!
# File-system sandbox policies

An entry of a policy names a path, a glob pattern or a symbolic place. The entries are resolved in
the context of the executor and the deepest one that contains the path decides. Besides, two
shortcuts ask on the host whether the policy grants the whole disk, by looking at the entries as
they are written.
-/

namespace Slopdex.Permissions

open Protocol (Text)
open Library.Specificity

/-- Access modes by their precedence between entries for the same path. -/
inductive FileSystemAccessMode
  | read
  | write
  | deny
  deriving DecidableEq

namespace FileSystemAccessMode

def canRead : FileSystemAccessMode → Bool
  | deny => false
  | _ => true

def canWrite : FileSystemAccessMode → Bool
  | write => true
  | _ => false

def rank : FileSystemAccessMode → ℕ
  | read => 0
  | write => 1
  | deny => 2

theorem rank_injective : Function.Injective rank := by
  intro a b h
  cases a <;> cases b <;> first | rfl | cases h

instance : LinearOrder FileSystemAccessMode := LinearOrder.lift' rank rank_injective

theorem canWrite_iff (access : FileSystemAccessMode) : access.canWrite = true ↔ access = write := by
  cases access <;> simp [canWrite]

end FileSystemAccessMode

def protectedMetadataPathNames : List Text := [".git".toList, ".agents".toList, ".codex".toList]

inductive FileSystemSpecialPath
  | root
  | minimal
  | projectRoots (subpath : Option Text)
  | tmpdir
  | slashTmp
  | unknown (path : Text) (subpath : Option Text)
  deriving DecidableEq

inductive FileSystemPath
  | path (path : PathUri)
  | globPattern (pattern : Text)
  | special (value : FileSystemSpecialPath)
  deriving DecidableEq

structure FileSystemSandboxEntry where
  path : FileSystemPath
  access : FileSystemAccessMode

inductive FileSystemSandboxKind
  | restricted
  | unrestricted
  | externalSandbox
  deriving DecidableEq

structure FileSystemSandboxPolicy where
  kind : FileSystemSandboxKind
  entries : List FileSystemSandboxEntry := []

structure FileSystemSandboxPolicyContext where
  cwd : PathUri
  workspaceRoots : List PathUri
  temporaryDirectories : Option (List PathUri)

/-- The machine the code runs on. -/
structure Host where
  native : PathConvention
  windows : WindowsSyntax

def Host.isUnix (host : Host) : Bool := host.native == .posix

/-- `file_system_root` -/
def fileSystemRoot (context : FileSystemSandboxPolicyContext) : Option PathUri :=
  if context.cwd.lexicalDepth = none then none
  else some (PathUri.lastAncestor context.cwd.segmentCount context.cwd)

namespace Host

variable (host : Host)

def namesRoot (path : PathUri) : Bool :=
  match host.native with
  | .posix => path.toAbsPath == some AbsolutePath.root
  | .windows =>
    match path with
    | .fallback (.windowsText wide) => host.windows.isRootPayload wide
    | .fallback _ => false
    | .file _ _ => path.inferPathConvention == some .windows && path.lexicalDepth == some 1

def slashTmpPath : AbsolutePath := AbsolutePath.root.child "tmp".toList

/-- The path of the URI on this host is `/tmp`, which no Windows path is. -/
def namesSlashTmp (path : PathUri) : Bool :=
  host.isUnix && path.toAbsPath == some slashTmpPath

/-- `special_path_matches_absolute_path` -/
def specialPathMatches (value : FileSystemSpecialPath) (path : PathUri) : Bool :=
  match value with
  | .root => host.namesRoot path
  | .slashTmp => host.namesSlashTmp path
  | _ => false

/-- `special_paths_share_target` -/
def specialPathsShareTarget : FileSystemSpecialPath → FileSystemSpecialPath → Bool
  | .projectRoots left, .projectRoots right => left == right
  | .unknown left leftSubpath, .unknown right rightSubpath =>
    left == right && leftSubpath == rightSubpath
  | .root, .root | .minimal, .minimal | .tmpdir, .tmpdir | .slashTmp, .slashTmp => true
  | _, _ => false

/-- `file_system_paths_share_target` -/
def pathsShareTarget : FileSystemPath → FileSystemPath → Bool
  | .path left, .path right => left.same right
  | .special left, .special right => specialPathsShareTarget left right
  | .path path, .special value | .special value, .path path => host.specialPathMatches value path
  | .globPattern left, .globPattern right => left == right
  | .globPattern _, _ | _, .globPattern _ => false

end Host

namespace FileSystemSandboxPolicy

def isRestricted (policy : FileSystemSandboxPolicy) : Bool := policy.kind == .restricted

section Shortcuts

variable (host : Host) (policy : FileSystemSandboxPolicy)

def hasRootAccess (predicate : FileSystemAccessMode → Bool) : Bool :=
  policy.isRestricted &&
    policy.entries.any fun entry ↦ entry.path == .special .root && predicate entry.access

def hasDeniedReadRestrictions : Bool :=
  policy.isRestricted &&
    policy.entries.any fun entry ↦
      entry.access == .deny && !(entry.path == .special .slashTmp && !host.isUnix)

/-- A `write` entry for the same place that wins over the given one. -/
def hasSameTargetWriteOverride (entry : FileSystemSandboxEntry) : Bool :=
  policy.entries.any fun candidate ↦
    candidate.access.canWrite && decide (entry.access < candidate.access) &&
      host.pathsShareTarget candidate.path entry.path

def narrowsWrite (entry : FileSystemSandboxEntry) : Bool :=
  !entry.access.canWrite && match entry.path with
    | .path _ => !policy.hasSameTargetWriteOverride host entry
    | .globPattern _ => true
    | .special .root => entry.access == .deny
    | .special .slashTmp => host.isUnix && !policy.hasSameTargetWriteOverride host entry
    | .special .minimal | .special (.unknown _ _) => false
    | .special (.projectRoots _) | .special .tmpdir =>
      !policy.hasSameTargetWriteOverride host entry

def hasWriteNarrowingEntries : Bool :=
  policy.isRestricted && policy.entries.any (policy.narrowsWrite host)

def hasFullDiskReadAccess : Bool :=
  match policy.kind with
  | .unrestricted | .externalSandbox => true
  | .restricted =>
    policy.hasRootAccess (·.canRead) && !policy.hasDeniedReadRestrictions host

def hasFullDiskWriteAccess : Bool :=
  match policy.kind with
  | .unrestricted | .externalSandbox => true
  | .restricted =>
    policy.hasRootAccess (·.canWrite) && !policy.hasWriteNarrowingEntries host

end Shortcuts

section Decisions

variable (host : Host) (context : FileSystemSandboxPolicyContext)

def entryPaths : FileSystemPath → List PathUri
  | .path path => [path]
  | .globPattern _ => []
  | .special .root => (fileSystemRoot context).toList
  | .special (.projectRoots subpath) =>
    context.workspaceRoots.filterMap fun root ↦
      match subpath with
      | some subpath => root.join host.windows subpath
      | none => some root
  | .special .tmpdir => context.temporaryDirectories.getD []
  | .special .slashTmp =>
    if context.cwd.inferPathConvention = some .posix then
      (context.cwd.join host.windows "/tmp".toList).toList
    else []
  | .special .minimal | .special (.unknown _ _) => []

variable (policy : FileSystemSandboxPolicy)

def resolvedEntries : List (PathUri × FileSystemAccessMode) :=
  policy.entries.flatMap fun entry ↦
    ((entryPaths host context entry.path).filter fun path ↦
      path.inferPathConvention == context.cwd.inferPathConvention).map fun path ↦
        (path, entry.access)

/-- The entries with their depths; an entry without a depth that is no payload voids the policy. -/
def rankedEntries (entries : List (PathUri × FileSystemAccessMode)) :
    Option (List (PathUri × FileSystemAccessMode × ℕ)) :=
  if entries.any fun entry ↦ entry.1.lexicalDepth == none && !entry.1.isFallback then none
  else some (entries.filterMap fun entry ↦
    entry.1.lexicalDepth.map fun depth ↦ (entry.1, entry.2, depth))

def resolveAccess (path : PathUri) : FileSystemAccessMode :=
  if !policy.isRestricted then .write
  else if context.cwd.inferPathConvention = none then .deny
  else if path.inferPathConvention ≠ context.cwd.inferPathConvention ∨
      path.lexicalDepth = none ∨ context.cwd.lexicalDepth = none then .deny
  else
    match rankedEntries (policy.resolvedEntries host context) with
    | none => .deny
    | some entries =>
      mostSpecific .deny ((entries.filter fun entry ↦ path.startsWith entry.1).map fun entry ↦
        (entry.2.2, entry.2.1))

def metadataWriteDenial (path : PathUri) : Option Text := do
  if !policy.isRestricted then none
  let entries := policy.resolvedEntries host context
  let (guarded, name) ← (entries.filter fun entry ↦ entry.2.canWrite).findSome? fun entry ↦
    protectedMetadataPathNames.findSome? fun name ↦
      (entry.1.joinDescendant host.windows name).bind fun guarded ↦
        if path.startsWith guarded then some (guarded, name) else none
  if entries.any fun entry ↦
      entry.2.canWrite && path.startsWith entry.1 && entry.1.startsWith guarded then none
  else some name

def canWritePath (path : PathUri) : Bool :=
  (policy.resolveAccess host context path).canWrite &&
    (policy.hasFullDiskWriteAccess host || (policy.metadataWriteDenial host context path).isNone)

end Decisions

end FileSystemSandboxPolicy

end Slopdex.Permissions
