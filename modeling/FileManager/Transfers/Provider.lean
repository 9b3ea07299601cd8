/-
The provider calls the transfer executors make (`fm-vfs`, with the
semantics of `fm-vfs-local`), on one store of files, and what may go
wrong in them.

# Faults

What a call does is a function of the files. Whether it gets that far
is not: a provider may fail for reasons of its own at any call, before
or after it has taken effect, and a cancellation may be noticed at any
check. One call of the executor comes with an `Env` that says which of
its provider calls fail and how, and gives the answers that the files
do not determine (entry identifiers, timestamps, page boundaries,
generated names). Results quantify over it.

# Staged files

A temporary has a name with a fresh UUID, which no other entry has or
gets, so temporaries are kept apart from the files. `log` records what
a transfer makes final: the contents committed at a destination, and
the regular files a removal takes away.
-/
import FileManager.Transfers.Files
import FileManager.Lib.Fallible
import FileManager.Operations.Scheduler

namespace FileManager

-- ==== error texts

/-- The error's text; `uriText` writes a location's URI. -/
def VfsError.message (uriText : Location → String) : VfsError → String
  | .notFound location => "location not found: " ++ uriText location
  | .permissionDenied location => "permission denied: " ++ uriText location
  | .locked location => "file is in use by another program: " ++ uriText location
  | .alreadyExists location => "location already exists: " ++ uriText location
  | .emptyName => "directory name is empty"
  | .invalidNameCharacters => "directory name contains invalid characters"
  | .reservedName => "directory name is reserved"
  | .pathTraversalName => "directory name must be one path component"
  | .notADirectory location => "location is not a directory: " ++ uriText location
  | .isADirectory location => "location is a directory: " ++ uriText location
  | .unsupportedCapability capability =>
    "provider does not support capability " ++ capability
  | .unsafeArchiveEntry => "archive contains an unsafe entry path"
  | .archiveResourceLimit kind => "archive resource limit exceeded: " ++ kind
  | .credentialRequired => "archive credential required"
  | .invalidCredential => "archive credential is invalid"
  | .cancelled => "operation cancelled"
  | .io message => "provider I/O failed: " ++ message
  | .invalidLocation location => "invalid location: " ++ uriText location
  | .unknownProvider providerId => "unknown provider: " ++ providerId

def Scheduler.ExecutionError.message (uriText : Location → String) :
    Scheduler.ExecutionError → String
  | .notImplemented => "operation kind is not implemented"
  | .failed message => "operation execution failed: " ++ message
  | .provider error => error.message uriText
  | .warning _ message => message
  | .conflict _ => "operation item has a destination conflict"

namespace Transfers

-- ==== disks

/-- A file made final, or taken away. -/
inductive Transfer
  | committed (destination : Location) (content : Bytes)
  | removed (location : Location) (content : Bytes)
deriving DecidableEq

structure Disk where
  files : Files
  staged : List (Location × Bytes)
  log : List Transfer
deriving DecidableEq

-- ==== faults

/-- The provider calls of one executor call. A call made in a loop
carries the loop's counter. -/
inductive Call
  | sameFilesystem
  | inspectRoot
  | resolveSymlink (round : Nat)
  | list (round page : Nat)
  | inspectDestination
  | inspectSource
  | removeDestination
  | probe (suffix : Nat)
  | createDirectory
  | copySymlink
  | serverSideCopy
  | openRead
  | openWrite
  | transfer
  | capabilities (round : Nat)
  | commitCopy (round : Nat)
  | discardCopy
  | inspectLosing
  | inspectWinning
  | rename
  | preserveMetadata (round : Nat)
  | inspectCompleted
  | removeSource
deriving DecidableEq

/-- A call that fails; `applied` if it does so after taking effect. -/
structure Fault where
  error : VfsError
  applied : Bool

/-- The executor's own checks of the cancellation token. -/
inductive Check
  | visit (round : Nat)
  | transferred
  | finished

structure Env where
  fault : Call → Option Fault
  cancelled : Check → Bool
  /-- `stable_entry_id` -/
  identify : Location → EntryId
  modifiedAt : Location → Option Timestamp
  /-- The sizes of a listing's pages; the last takes the rest. -/
  pages : Location → List Nat
  sameFilesystem : Bool
  setsTimestamps : Bool
  /-- Whether the source's backend clones the file on its own. -/
  clones : Bool
  /-- How much of a broken transfer has been written. -/
  written : Nat
  /-- What a broken removal leaves. -/
  survives : Location → Bool
  /-- The UUID of a temporary's name. -/
  uuid : String
  conflictId : String
  uriText : Location → String

/-- Nothing goes wrong. -/
def Env.quiet : Env where
  fault := fun _ => none
  cancelled := fun _ => false
  identify := fun _ => 0
  modifiedAt := fun _ => none
  pages := fun _ => []
  sameFilesystem := false
  setsTimestamps := false
  clones := false
  written := 0
  survives := fun _ => false
  uuid := "0"
  conflictId := "conflict"
  uriText := fun location => "/".intercalate location.uri.segments

/-- What a reading call answers. -/
def Env.ask (env : Env) (call : Call) {α : Type} (answer : Except VfsError α) : Except VfsError α :=
  match env.fault call with
  | some fault => .error fault.error
  | none => answer

-- ==== reading calls

/-- `EntrySummary`, as far as the executors read it. -/
structure EntrySummary where
  id : EntryId
  location : Location
  name : String
  kind : EntryKind
  size : Option Nat
  modifiedAt : Option Timestamp
deriving DecidableEq

def EntrySummary.entry (summary : EntrySummary) : EntryRef where
  id := summary.id
  location := summary.location

def summarize (env : Env) (location : Location) (node : Node) : EntrySummary where
  id := env.identify location
  location := location
  name := location.uri.segments.getLast?.getD ""
  kind := node.kind
  size := node.size
  modifiedAt := env.modifiedAt location

def inspect (env : Env) (files : Files) (location : Location) : Except VfsError EntrySummary :=
  match Keyed.get files location with
  | some node => .ok (summarize env location node)
  | none => .error (.notFound location)

def resolveSymlink (env : Env) (files : Files) (location : Location) :
    Except VfsError EntrySummary :=
  match Keyed.get files location with
  | some (.symlink target) =>
    match Keyed.get files target with
    | some (.symlink _) | none => .error (.notFound location)
    | some node => .ok (summarize env target node)
  | some node => .ok (summarize env location node)
  | none => .error (.notFound location)

/-- Cut a listing into pages. -/
def paginate {α : Type} : List Nat → List α → List (List α)
  | [], entries => [entries]
  | size :: sizes, entries =>
    entries.take size :: paginate sizes (entries.drop size)

/-- `list`, all pages of it. -/
def list (env : Env) (files : Files) (directory : Location) : List (List EntrySummary) :=
  paginate (env.pages directory)
    ((childrenOf files directory).map fun entry => summarize env entry.1 entry.2)

/-- `open_read`, read to the end. -/
def readFile (files : Files) (location : Location) : Except VfsError Bytes :=
  match Keyed.get files location with
  | some (.file content) => .ok content
  | some .directory => .error (.isADirectory location)
  | some (.symlink target) =>
    match Keyed.get files target with
    | some (.file content) => .ok content
    | _ => .error (.notFound location)
  | none => .error (.notFound location)

-- ==== writing calls

/-- A new entry needs a directory to stand in. -/
def checkParent (files : Files) (location : Location) : Except VfsError Unit :=
  match location.parent with
  | none => .error (.invalidLocation location)
  | some parent =>
    match Keyed.get files parent with
    | some .directory => .ok ()
    | some _ => .error (.notADirectory parent)
    | none => .error (.notFound parent)

/-- Put a new entry where nothing is. -/
def createEntry (location : Location) (node : Node) (disk : Disk) : Except VfsError Disk :=
  match checkParent disk.files location, Keyed.get disk.files location with
  | .error error, _ => .error error
  | .ok (), some _ => .error (.alreadyExists location)
  | .ok (), none => .ok { disk with files := Keyed.put disk.files location node }

def copySymlink (source destination : Location) (disk : Disk) : Except VfsError Disk :=
  match Keyed.get disk.files source with
  | some (.symlink target) => createEntry destination (.symlink target) disk
  | some _ => .error (.io "Invalid argument")
  | none => .error (.notFound source)

/-- Write a temporary. -/
def stage (temporary : Location) (content : Bytes) (disk : Disk) : Disk :=
  { disk with staged := Keyed.put disk.staged temporary content }

/-- `server_side_copy`: nothing happens where the backend does not
clone. -/
def serverSideCopy (clones : Bool) (source temporary : Location) (disk : Disk) :
    Except VfsError Disk :=
  match readFile disk.files source with
  | .ok content => .ok (if clones then stage temporary content disk else disk)
  | .error error => .error error

/-- `open_write` of a new file. -/
def openWrite (temporary : Location) (disk : Disk) : Except VfsError Disk :=
  match checkParent disk.files temporary, Keyed.get disk.staged temporary with
  | .error error, _ => .error error
  | .ok (), some _ => .error (.alreadyExists temporary)
  | .ok (), none => .ok (stage temporary [] disk)

def discardCopy (temporary : Location) (disk : Disk) : Disk :=
  { disk with staged := Keyed.keep disk.staged (· ≠ temporary) }

/-- `commit_copy`: without `overwrite` only where nothing is, with it
over anything but a directory. -/
def commitCopy (temporary destination : Location) (overwrite : Bool)
    (disk : Disk) : Except VfsError Disk :=
  match Keyed.get disk.staged temporary, checkParent disk.files destination,
      Keyed.get disk.files destination, overwrite with
  | none, _, _, _ => .error (.notFound temporary)
  | some _, .error error, _, _ => .error error
  | some _, .ok (), some .directory, true => .error (.isADirectory destination)
  | some _, .ok (), some _, false => .error (.alreadyExists destination)
  | some content, .ok (), _, _ =>
    .ok { files := Keyed.put disk.files destination (.file content)
          staged := Keyed.keep disk.staged (· ≠ temporary)
          log := disk.log ++ [.committed destination content] }

/-- The locations `remove` takes away. -/
def removalOf (files : Files) (location : Location) (recursive : Bool) :
    Except VfsError (Location → Bool) :=
  match Keyed.get files location with
  | none => .error (.notFound location)
  | some .directory =>
    if recursive then .ok (·.startsWith location)
    else if childrenOf files location = [] then .ok (· = location)
    else .error (.io "Directory not empty")
  | some _ => .ok (· = location)

def takeAway (gone : Location → Bool) (disk : Disk) : Disk :=
  { disk with
    files := Keyed.keep disk.files fun l => !gone l
    log := disk.log ++ (contentsOf disk.files gone).map fun file => .removed file.1 file.2 }

/-- `rename`: the entry and all below it. -/
def rename (source destination : Location) (disk : Disk) : Except VfsError Disk :=
  match Keyed.get disk.files source, checkParent disk.files destination,
      Keyed.get disk.files destination with
  | none, _, _ => .error (.notFound source)
  | some _, .error error, _ => .error error
  | some _, .ok (), some _ => .error (.alreadyExists destination)
  | some _, .ok (), none =>
    .ok { disk with
      files := disk.files.map fun entry =>
        (Location.rebase source destination entry.1, entry.2) }

end Transfers

end FileManager
