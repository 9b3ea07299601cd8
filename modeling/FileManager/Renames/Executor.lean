/-
The renames of one request, one after the other (`fm-application`,
`operation_planner.rs`: `RenameGroupExecutor`, `RenameExecutor`;
`fm-vfs-local`, `lib.rs`: `LocalFileSystemProvider::rename`).

A directory is the list of its entries. How the filesystem tells names
apart is a parameter: two names with one `key` are one name to it (the
name itself where case matters, its folded form elsewhere). So are
whether `rename` may put one entry in another's place, and whether an
entry leads to something: a link to nothing is there, but `exists` does
not say so.
-/
import FileManager.Operations.Scheduler
import FileManager.Renames.Rules
import FileManager.Transfers.Files

namespace FileManager.Renames

open Scheduler (ExecutionError)

abbrev Entry := RenameTarget

-- ==== the filesystem

/-- How a filesystem treats names. -/
structure Filesystem where
  key : String → String
  replaces : Entry → Entry → Bool
  resolves : List Entry → Entry → Bool

/-- The place of a name in a directory. -/
def childOf (directory : Location) (name : String) : Location :=
  { directory with uri := { directory.uri with
      segments := directory.uri.segments ++ [name] } }

/-- An entry under a new name. -/
def setName (id : EntryId) (name : String) (dir : List Entry) : List Entry :=
  dir.map fun entry => if entry.id = id then { entry with name := name } else entry

namespace Filesystem

variable (fs : Filesystem) (directory : Location)

/-- `Path::exists`. -/
def exists? (dir : List Entry) (name : String) : Bool :=
  dir.any fun entry => decide (fs.key entry.name = fs.key name) && fs.resolves dir entry

/-- `tokio::fs::rename`: what has the new name is replaced, if it may
be. -/
def rename (dir : List Entry) (source destination : String) : Except VfsError Unit × List Entry :=
  match dir.find? fun entry => fs.key entry.name = fs.key source with
  | none => (.error (.notFound (childOf directory destination)), dir)
  | some entry =>
    match dir.find? fun other =>
        other.id ≠ entry.id ∧ fs.key other.name = fs.key destination with
    | none => (.ok (), setName entry.id destination dir)
    | some other =>
      if fs.replaces entry other then
        (.ok (), setName entry.id destination (dir.filter (·.id ≠ other.id)))
      else (.error (.io "rename failed"), dir)

end Filesystem

-- ==== the provider

def eqIgnoreAsciiCase (first second : String) : Bool :=
  decide (first.toList.map Char.toLower = second.toList.map Char.toLower)

/-- `validate_directory_name` of the provider. -/
def validateNewName (name : String) : Except VfsError Unit :=
  match validateName name with
  | .ok () => .ok ()
  | .error .emptySegment => .error .emptyName
  | .error (.invalidName message) =>
    if '/' ∈ message.toList ∨ '\\' ∈ message.toList ∨ message = "." ∨ message = ".." then
      .error .pathTraversalName
    else .error .invalidNameCharacters
  | .error .nullByte => .error .invalidNameCharacters
  | .error (.reservedWindowsName _) => .error .reservedName

section Provider

variable (fs : Filesystem) (directory : Location)

/-- `Location::name` of the destination, which checks its segments, and
then `validate_directory_name`. -/
def checkDestination (destination : String) : Except VfsError Unit :=
  let invalid := .error (.invalidLocation (childOf directory destination))
  match validateName destination with
  | .error (.invalidName message) =>
    if '/' ∈ message.toList ∨ '\\' ∈ message.toList then invalid else validateNewName destination
  | .error .nullByte | .error (.reservedWindowsName _) => invalid
  | _ => validateNewName destination

/-- `LocalFileSystemProvider::rename`, within a directory. A change of
case only goes through a temporary name, and is not checked for what has
the new name; if its second half fails, the first is undone. -/
def providerRename (temporary : String) (dir : List Entry) (source destination : String) :
    Except VfsError Unit × List Entry :=
  match checkDestination directory destination with
  | .error error => (.error error, dir)
  | .ok () =>
    let caseOnly := decide (source ≠ destination) && eqIgnoreAsciiCase source destination
    if fs.exists? dir destination && !caseOnly then
      (.error (.alreadyExists (childOf directory destination)), dir)
    else if caseOnly then
      match fs.rename directory dir source temporary with
      | (.error error, dir) => (.error error, dir)
      | (.ok (), dir) =>
        match fs.rename directory dir temporary destination with
        | (.error error, dir) =>
          (.error error, (fs.rename directory dir temporary source).2)
        | (.ok (), dir) => (.ok (), dir)
    else fs.rename directory dir source destination

/-- `RenameGroupExecutor::execute`: the first rename with the item's
source. -/
def executeItem (renames : List Rename) (temporary : String) (dir : List Entry)
    (source : String) : Except ExecutionError Unit × List Entry :=
  match renames.find? fun rename => rename.source = source with
  | none => (.error (.failed "rename plan entry is missing"), dir)
  | some rename =>
    match providerRename fs directory temporary dir rename.source rename.destination with
    | (.error error, dir) => (.error (.provider error), dir)
    | (.ok (), dir) => (.ok (), dir)

/-- The items of the plan in order, until one fails; `temporaries` are the
names that fresh identifiers give. -/
def executeItems (renames : List Rename) (temporaries : Nat → String) :
    Nat → List Rename → List Entry → Except ExecutionError Unit × List Entry
  | _, [], dir => (.ok (), dir)
  | index, item :: rest, dir =>
    match executeItem fs directory renames (temporaries index) dir item.source with
    | (.error error, dir) => (.error error, dir)
    | (.ok (), dir) => executeItems renames temporaries (index + 1) rest dir

/-- The plan of a `RenameGroupExecutor`, executed: one item for each
rename. -/
def executeAll (temporaries : Nat → String) (renames : List Rename) (dir : List Entry) :
    Except ExecutionError Unit × List Entry :=
  executeItems fs directory renames temporaries 0 renames dir

end Provider

end FileManager.Renames
