/-
The accessible roots of the server (`fm-server`: `accessible_roots.rs`
and `require_within_roots` of `error.rs`).

A native path is absolute and kept as the segments that are pushed to
the root; `.` and `..` may be among them. The roots are paths too, a
relative one read from the working directory. The file system is what
stands at the true paths at one moment, links included.
-/
import FileManager.Archives.Reading
import FileManager.Lib.Links

namespace FileManager.Server

open Locations (Segment)
open Archives.Reading (toNativePath)

-- ==== system

abbrev FileSystem := Links.Tree Segment

/-- How many links the system follows on one path. -/
def maxLinks : Nat := 40

def dot : Segment := [46]

def dotDot : Segment := [46, 46]

/-- A segment as the system reads it. -/
def stepOf (segment : Segment) : Links.Step Segment :=
  if segment = dot then .stay
  else if segment = dotDot then .up
  else .down segment

/-- `Path::canonicalize`. -/
def canonicalize (files : FileSystem) (path : List Segment) : Option (List Segment) :=
  Links.walk files maxLinks [] (path.map stepOf)

/-- `Path::exists`. -/
def pathExists (files : FileSystem) (path : List Segment) : Bool := (canonicalize files path).isSome

-- ==== paths

/-- A path without the `.` at its end, which is no component. -/
def trimmed (path : List Segment) : List Segment := (path.reverse.dropWhile (· = dot)).reverse

/-- `Path::file_name`. -/
def fileName (path : List Segment) : Option Segment := (trimmed path).getLast?.filter (· ≠ dotDot)

/-- `Path::parent`. -/
def parent (path : List Segment) : Option (List Segment) :=
  if trimmed path = [] then none else some (trimmed (trimmed path).dropLast)

-- ==== checks

/-- What `ResolutionFailed` says. -/
inductive ResolutionFailure
  | system
  | noExistingAncestor
  | invalidLocation
deriving DecidableEq

/-- `AccessibleRootsError`; nothing returns `NoRootsConfigured`. -/
inductive AccessibleRootsError
  | resolutionFailed (reason : ResolutionFailure)
  | outsideRoots (path : List Segment)
deriving DecidableEq

/-- The loop of `canonicalize_existing_or_pending`, at most so many
times around: from an ancestor that is not there, with the names below
it. -/
def climb (files : FileSystem) : Nat → List Segment → List Segment →
    Except AccessibleRootsError (List Segment × List Segment)
  | 0, _, _ => .error (.resolutionFailed .noExistingAncestor)
  | rounds + 1, ancestor, pendingSuffix =>
    match fileName ancestor, parent ancestor with
    | some name, some above =>
      if pathExists files above then .ok (above, name :: pendingSuffix)
      else climb files rounds above (name :: pendingSuffix)
    | _, _ => .error (.resolutionFailed .noExistingAncestor)

def canonicalizeExistingOrPending (files : FileSystem) (path : List Segment) :
    Except AccessibleRootsError (List Segment) :=
  match canonicalize files path with
  | some canonical => .ok canonical
  | none => do
    let (ancestor, pendingSuffix) ← climb files path.length path []
    match canonicalize files ancestor with
    | none => throw (.resolutionFailed .system)
    | some resolved => return resolved ++ pendingSuffix

/-- The canonical roots; one that is not there is a failure. -/
def canonicalRoots (files : FileSystem) (roots : List (List Segment)) :
    Except AccessibleRootsError (List (List Segment)) :=
  match roots.mapM (canonicalize files) with
  | none => .error (.resolutionFailed .system)
  | some canonical => .ok canonical

def validateWithinAccessibleRoots (files : FileSystem) (path : List Segment)
    (roots : List (List Segment)) : Except AccessibleRootsError (List Segment) :=
  if roots = [] then .ok path
  else do
    let canonicalPath ← canonicalizeExistingOrPending files path
    let canonical ← canonicalRoots files roots
    if canonical.any fun root => root.isPrefixOf canonicalPath then return canonicalPath
    else throw (.outsideRoots canonicalPath)

abbrev LocationDto := Locations.Location

def validateLocation (files : FileSystem) (location : LocationDto)
    (roots : List (List Segment)) : Except AccessibleRootsError Unit :=
  if location.providerId ≠ "local" then .ok ()
  else
    match toNativePath location with
    | none => .error (.resolutionFailed .invalidLocation)
    | some path => do
      let _ ← validateWithinAccessibleRoots files path roots
      return ()

/-- `ApplicationError`, as far as a handler returns it by itself. -/
inductive ApplicationError
  | permissionDenied
deriving DecidableEq

def requireWithinRoots (files : FileSystem) (roots : List (List Segment))
    (location : LocationDto) : Except ApplicationError Unit :=
  match validateLocation files location roots with
  | .ok () => .ok ()
  | .error _ => .error .permissionDenied

end FileManager.Server
