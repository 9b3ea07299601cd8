/-
The listing of archives (`fm-archive`, `lib.rs`: `list_zip` and
`collect_children`), and `rewrite_zip` on the files it works with.

An archive stores paths, not directories: a listing shows what the
stored paths have at the requested place. `rewrite_zip` is here as it
runs on its own, with every system call that may fail and every look at
the cancellation token; the entries it writes are those of the changes
that run beside each other.
-/
import FileManager.Archives.Rewrite
import FileManager.Vfs
import Mathlib.Data.List.Sort

namespace FileManager.Archives.Updates

open Vfs (Instant)

-- ==== listing

structure RawEntry where
  name : String
  kind : EntryKind
  size : Option Nat
  modifiedAt : Option Instant

/-- A stored entry as a listing takes it: its accepted path and what its
format says of it. -/
structure Stored where
  path : String
  isDirectory : Bool
  size : Nat
  modifiedAt : Option Instant

/-- What the paths in the requested directory begin with. -/
def leading (requested : String) : List Char :=
  if requested = "" then [] else requested.toList ++ ['/']

/-- The entry that is listed under a name. -/
def rawEntry (name : List Char) (isDirectory : Bool) (item : Stored) : RawEntry where
  name := String.ofList name
  kind := if isDirectory then .directory else .file
  size := if isDirectory then none else some item.size
  modifiedAt := if isDirectory then none else item.modifiedAt

/-- What a stored entry shows in the requested directory. -/
def candidate (requested : String) (item : Stored) : Option RawEntry :=
  match (leading requested).isPrefixOf? item.path.toList with
  | none => none
  | some remainder =>
    if remainder = [] then none
    else
      match remainder.splitOn '/' with
      | [] => none
      | name :: rest =>
        if name = [] then none
        else some (rawEntry name (!rest.isEmpty || item.isDirectory) item)

/-- The children found so far, by name. -/
abbrev Children := List (String × RawEntry)

/-- The first entry under a name is kept, and no other kind is taken. -/
def addChild (children : Children) (candidate : RawEntry) : Except VfsError Children :=
  match Keyed.get children candidate.name with
  | some existing =>
    if existing.kind = candidate.kind then .ok children
    else .error (.io "archive contains conflicting duplicate entry names")
  | none => .ok (Keyed.put children candidate.name candidate)

/-- The body of the loop over the stored entries. -/
def addItem (requested : String) (children : Children) (item : Stored) : Except VfsError Children :=
  match candidate requested item with
  | none => .ok children
  | some candidate => addChild children candidate

def sortByName (children : Children) : List RawEntry :=
  (children.map Prod.snd).insertionSort fun left right => left.name ≤ right.name

section Zip

variable (crates : Crates) (lastModified : Entry → Option Instant)

/-- An entry of a ZIP archive, under its safe path. -/
def storedZip (item : Entry) : Except VfsError Stored := do
  let path ← safeEntryPath crates item.name
  return { path, isDirectory := crates.isDir item.name,
           size := (item.content.getD []).length, modifiedAt := lastModified item }

/-- The body of the loop of `list_zip`. -/
def addZipItem (requested : String) (children : Children) (item : Entry) :
    Except VfsError Children := do
  let stored ← storedZip crates lastModified item
  addItem requested children stored

def listZip (archive : Bytes) (requested : String) : Except VfsError (List RawEntry) := do
  let entries ← openZip crates archive
  let children ← entries.foldlM (addZipItem crates lastModified requested) []
  return sortByName children

end Zip

-- ==== rewrite_zip

/-- The system calls that `rewrite_zip` makes. -/
inductive Access
  | openArchive
  | parent
  | create
  | readItem (index : Nat)
  | copyItem (index : Nat)
  | startFile
  | openStaging
  | copyStaging
  | addDirectory
  | finish
  | syncAll
  | rename

/-- Where `rewrite_zip` looks at the cancellation token. -/
inductive Look
  | item (index : Nat)
  | add
  | publish

/-- What surrounds one call of `rewrite_zip`. -/
structure Surroundings where
  fault : Access → Option VfsError
  cancelled : Look → Bool
  /-- Whether the guard fails to remove the replacement. -/
  leftover : Bool

def Surroundings.quiet : Surroundings where
  fault _ := none
  cancelled _ := false
  leftover := false

def Surroundings.attempt (env : Surroundings) (access : Access) : Except VfsError Unit :=
  match env.fault access with
  | some error => .error error
  | none => .ok ()

def Surroundings.check (env : Surroundings) (look : Look) : Except VfsError Unit :=
  if env.cancelled look then .error .cancelled else .ok ()

section RewriteZip

variable (crates : Crates) (env : Surroundings) (rewrite : Rewrite)

/-- The loop over the items, with `matched` and what has been written. -/
def copyItems : Nat → List Entry → Bool × List Entry → Except VfsError (Bool × List Entry)
  | _, [], state => .ok state
  | index, item :: rest, (isMatched, written) => do
    env.check (.item index)
    env.attempt (.readItem index)
    let name ← safeEntryPath crates item.name
    if ← rewrite.skip name then copyItems (index + 1) rest (true, written)
    else
      env.attempt (.copyItem index)
      let written ← crates.zip.push .zip item written
      copyItems (index + 1) rest (isMatched, written)

/-- What is written after the copied entries. -/
def addEntry (isMatched : Bool) (written : List Entry) : Except VfsError (List Entry) :=
  match rewrite with
  | .addFile inner staging _ => do
    env.check .add
    env.attempt .startFile
    let written ← crates.zip.push .zip { name := inner, content := some staging } written
    env.attempt .openStaging
    env.attempt .copyStaging
    return written
  | .addDirectory inner => do
    env.attempt .addDirectory
    crates.zip.push .zip { name := inner, content := none } written
  | .remove inner _ =>
    if isMatched then .ok written else .error (.notFound (insideLocation inner))

/-- Everything between the creation of the replacement and its rename:
the entries it holds by then. -/
def writeReplacement (entries : List Entry) : Except VfsError (List Entry) := do
  env.attempt .create
  let (isMatched, written) ← copyItems crates env rewrite 0 entries (false, [])
  let written ← addEntry crates env rewrite isMatched written
  env.attempt .finish
  env.attempt .syncAll
  env.check .publish
  env.attempt .rename
  return written

/-- The files: the archive, and whether a replacement stands beside
it. -/
structure ArchiveFiles where
  archive : Bytes
  replacement : Bool
deriving DecidableEq

/-- `rewrite_zip`, from the archive it is called for. A replacement that
is not renamed is removed by its guard. -/
def rewriteZip (archive : Bytes) : Except VfsError Unit × ArchiveFiles :=
  let opened : Except VfsError (List Entry) := do
    env.attempt .openArchive
    let entries ← openZip crates archive
    env.attempt .parent
    return entries
  match opened with
  | .error error => (.error error, { archive, replacement := false })
  | .ok entries =>
    match writeReplacement crates env rewrite entries with
    | .error error => (.error error, { archive, replacement := env.leftover })
    | .ok written => (.ok (), { archive := crates.zip.encode written, replacement := false })

end RewriteZip

end FileManager.Archives.Updates
