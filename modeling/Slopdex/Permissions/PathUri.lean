import Mathlib.Data.Nat.Notation
import Mathlib.Data.List.Infix
import Slopdex.Protocol.Types

/-!
# Paths of the host and of an executor

A path of a Unix host is the list of its components. A path that may belong to another machine is a
`file:` URI, whose spelling tells its convention, POSIX or Windows. URIs are kept with their decoded
segments, one value for all percent encodings; a native path without a faithful URI is a payload. A
URL path without segments is the root, and an empty last segment is a trailing slash.
-/

namespace Slopdex.Permissions

open Protocol (Text)
open List

def isName (name : Text) : Bool :=
  name != [] && !name.contains '/' && name != ".".toList && name != "..".toList

@[ext]
structure AbsolutePath where
  components : List Text
  normal : ∀ component ∈ components, isName component = true
  deriving DecidableEq

namespace AbsolutePath

def root : AbsolutePath := ⟨[], nofun⟩

variable (path : AbsolutePath)

/-- Follow one component: `.` stays, `..` goes up and stops at the root. -/
def follow (component : Text) : AbsolutePath :=
  if h : isName component = true then
    ⟨path.components ++ [component], by
      intro name hname
      rcases mem_append.mp hname with hname | hname
      · exact path.normal name hname
      · rw [mem_singleton.mp hname]
        exact h⟩
  else if component = "..".toList then
    ⟨path.components.dropLast, fun name hname ↦ path.normal name (mem_of_mem_dropLast hname)⟩
  else path

def walk (components : List Text) : AbsolutePath :=
  components.foldl follow path

def child (name : Text) : AbsolutePath := path.follow name

/-- The native spelling of the path. -/
def text : Text :=
  if path.components = [] then ['/'] else path.components.flatMap fun component ↦ '/' :: component

end AbsolutePath

inductive PathConvention
  | posix
  | windows
  deriving DecidableEq

inductive Fallback
  | posixPath (path : AbsolutePath)
  | posixText (bytes : Text)
  | windowsText (wide : List ℕ)
  | other (bytes : List ℕ)
  deriving DecidableEq

def isDot (segment : Text) : Bool := segment == ".".toList || segment == "..".toList

@[ext]
structure UrlPath where
  segments : List Text
  resolved : ∀ segment ∈ segments, isDot segment = false
  deriving DecidableEq

inductive PathUri
  | fallback (payload : Fallback)
  | file (host : Option Text) (path : UrlPath)
  deriving DecidableEq

/-- The parts of the path syntax of Windows that the statements leave open. -/
structure WindowsSyntax where
  join : PathUri → Text → Option PathUri
  /-- The payload is a native path without a parent. -/
  isRootPayload : List ℕ → Bool

namespace UrlPath

def fixRoot (segments : List Text) : List Text := if segments = [[]] then [] else segments

theorem mem_of_mem_fixRoot {segments : List Text} {segment : Text}
    (h : segment ∈ fixRoot segments) : segment ∈ segments := by
  unfold fixRoot at h
  split at h
  next => cases h
  next => exact h

variable (path : UrlPath)

def pop : UrlPath :=
  ⟨fixRoot path.segments.dropLast, fun segment hsegment ↦
    path.resolved segment (mem_of_mem_dropLast (mem_of_mem_fixRoot hsegment))⟩

def popIfEmpty : UrlPath := if path.segments.getLast? = some [] then path.pop else path

def push (segment : Text) : UrlPath :=
  if h : isDot segment = false then
    ⟨path.segments ++ [segment], by
      intro other hother
      rcases mem_append.mp hother with hother | hother
      · exact path.resolved other hother
      · rw [mem_singleton.mp hother]
        exact h⟩
  else path

/-- The number of segments that are not empty. -/
def depth : ℕ := (path.segments.filter (· != [])).length

/-- Resolve the components of a relative path; `..` stops at the root. -/
def join (components : List Text) : UrlPath :=
  (components.foldl (fun (state : UrlPath × ℕ) component ↦
    if component = [] ∨ component = ".".toList then state
    else if component = "..".toList then
      if 0 < state.2 then (state.1.pop, state.2 - 1) else state
    else (state.1.push component, state.2 + 1)) (path.popIfEmpty, path.popIfEmpty.depth)).1

theorem isDot_of_isName {name : Text} (h : isName name = true) : isDot name = false := by
  unfold isName at h
  unfold isDot
  simp only [Bool.and_eq_true, bne_iff_ne] at h
  rw [Bool.or_eq_false_iff, beq_eq_false_iff_ne, beq_eq_false_iff_ne]
  exact ⟨h.1.2, h.2⟩

def ofPath (path : AbsolutePath) : UrlPath :=
  ⟨path.components, fun component hcomponent ↦ isDot_of_isName (path.normal component hcomponent)⟩

end UrlPath

namespace PathUri

def isFallback : PathUri → Bool
  | fallback _ => true
  | file _ _ => false

def isWindowsDriveSegment : Text → Bool
  | [letter, ':'] => letter.isAlpha
  | _ => false

def inferPathConvention : PathUri → Option PathConvention
  | fallback (.posixPath _) | fallback (.posixText _) => some .posix
  | fallback (.windowsText _) => some .windows
  | fallback (.other _) => none
  | file (some _) _ => some .windows
  | file none path =>
    if (path.segments.find? (· != [])).any isWindowsDriveSegment then some .windows
    else some .posix

def separates (convention : PathConvention) (c : Char) : Bool :=
  c == '/' || (convention == .windows && c == '\\')

def containmentPathSegments (path : UrlPath) (convention : PathConvention) : Option (List Text) :=
  let segments := path.segments.filter (· != [])
  if segments.any fun segment ↦ segment.any (separates convention) then none else some segments

def lexicalSegments : PathUri → Option (List Text)
  | fallback _ => none
  | uri@(file _ path) => uri.inferPathConvention.bind (containmentPathSegments path)

def lexicalDepth (uri : PathUri) : Option ℕ := uri.lexicalSegments.map (·.length)

def foldCase (text : Text) : Text := text.map Char.toLower

def windowsIdentity : PathUri → Option (Option Text × List Text)
  | fallback _ => none
  | uri@(file host path) =>
    if uri.inferPathConvention = some .windows ∧
        path.segments.all (fun segment ↦ !segment.any (separates .windows)) then
      some (host, path.segments.map foldCase)
    else none

/-- `PartialEq` -/
def same (uri other : PathUri) : Bool :=
  uri == other || (uri.windowsIdentity.isSome && uri.windowsIdentity == other.windowsIdentity)

def nativePathSegmentsStartWith (path base : List Text) : PathConvention → Bool
  | .posix => base.isPrefixOf path
  | .windows => (base.map foldCase).isPrefixOf (path.map foldCase)

def startsWith (uri base : PathUri) : Bool :=
  uri.same base || match uri, base with
    | file host _, file baseHost _ =>
      host == baseHost && uri.inferPathConvention == base.inferPathConvention &&
        match uri.lexicalSegments, base.lexicalSegments with
        | some path, some base =>
          nativePathSegmentsStartWith path base (uri.inferPathConvention.getD .posix)
        | _, _ => false
    | _, _ => false

def anchorDepth (uri : PathUri) : ℕ := if uri.inferPathConvention = some .windows then 1 else 0

def parent : PathUri → Option PathUri
  | fallback _ => none
  | uri@(file host path) =>
    if path.depth ≤ uri.anchorDepth then none else some (file host path.popIfEmpty.pop)

def lastAncestor : ℕ → PathUri → PathUri
  | 0, uri => uri
  | n + 1, uri =>
    match uri.parent with
    | none => uri
    | some parent => lastAncestor n parent

/-- A bound on the number of parents. -/
def segmentCount : PathUri → ℕ
  | fallback _ => 0
  | file _ path => path.segments.length

def fromAbsolutePosixPath (rest : Text) : PathUri :=
  let components := rest.splitOn '/'
  let path := AbsolutePath.root.walk components
  -- a trailing slash is kept, except on the root
  let url := UrlPath.ofPath path
  let uri := file none
    (if components.getLast? = some [] ∧ path.components ≠ [] then url.push [] else url)
  if uri.inferPathConvention = some .posix then uri
  else if path.text = '/' :: rest then fallback (.posixPath path)
  else fallback (.posixText ('/' :: rest))

def join (windows : WindowsSyntax) (uri : PathUri) (path : Text) : Option PathUri :=
  if path.contains (Char.ofNat 0) then none
  else if path = [] then some uri
  else
    match uri.inferPathConvention with
    | none => none
    | some .windows => windows.join uri path
    | some .posix =>
      match path, uri with
      | '/' :: rest, _ => some (fromAbsolutePosixPath rest)
      | _, fallback _ => none
      | _, file host url => some (file host (url.join (path.splitOn '/')))

def joinDescendant (windows : WindowsSyntax) (uri : PathUri) (path : Text) : Option PathUri :=
  (uri.join windows path).filter fun descendant ↦
    !(path.head? == some '/' ||
      (uri.inferPathConvention == some .windows &&
        (path.head? == some '\\' || path.contains ':')) ||
      !descendant.startsWith uri)

/-- `PathUri::from_abs_path` -/
def fromAbsPath (path : AbsolutePath) : PathUri :=
  let uri := file none (UrlPath.ofPath path)
  if path.components.all (fun component ↦ !component.contains (Char.ofNat 0)) ∧
      uri.inferPathConvention = some .posix then uri
  else fallback (.posixPath path)

/-- `PathUri::to_abs_path` -/
def toAbsPath : PathUri → Option AbsolutePath
  | fallback (.posixPath path) =>
    if fromAbsPath path = fallback (.posixPath path) then some path else none
  | fallback _ => none
  | uri@(file _ path) =>
    if uri.inferPathConvention = some .posix then
      some (AbsolutePath.root.walk (path.segments.flatMap (·.splitOn '/')))
    else none

end PathUri

end Slopdex.Permissions
