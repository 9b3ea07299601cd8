/-
The two workspace repositories, one call at a time (`fm-application`,
`workspace/persistent.rs` and `workspace/memory.rs`). Calls of the service
that interleave are in `Service.lean`.

# Files

The directory's `.json` files are named after workspaces, or otherwise; a
file is bytes. A backup of a corrupt file has no `.json` name any more. A
read that panics does not return.

Every access to the directory may fail: `faults` says what becomes of the
next ones, and when it is used up nothing fails. A write through a
temporary file is one access. The clock stands still during a call.
-/
import FileManager.Workspaces.Service
import FileManager.Workspaces.Migration
import FileManager.Lib.Fallible

namespace FileManager.Workspaces

open Fallible Keyed

variable (json : Json)

-- ==== directories

/-- A `.json` file: `<workspace_id>.json`, or another one. -/
inductive FileName
  | workspace (id : WorkspaceId)
  | other (name : String)
deriving DecidableEq

/-- `last-active.json`: `malformed` is one that does not parse. -/
inductive LastActiveFile
  | missing
  | malformed
  | recorded (id : Option WorkspaceId)

/-- What it records: malformed metadata is no record. -/
def LastActiveFile.id : LastActiveFile → Option WorkspaceId
  | .missing | .malformed => none
  | .recorded id => id

inductive ServiceEvent
  | command (event : WorkspaceEvent)
  | created (revision : Nat)
  | opened (revision : Nat)
  | closed (revision : Nat)
  | deleted (revision : Nat)

/-- The directory, what becomes of the next accesses to it, the clock,
and what was published. -/
structure Disk where
  files : List (FileName × json.Bytes)
  lastActive : LastActiveFile
  faults : List (Option String)
  now : Nat
  published : List (WorkspaceId × ServiceEvent)

abbrev Prog (α : Type) := Fallible.Prog WorkspaceError (Disk json) α

variable {json}

def access : Prog json PUnit := fun s =>
  match s.faults with
  | [] => some (.ok ⟨⟩, s)
  | none :: rest => some (.ok ⟨⟩, { s with faults := rest })
  | some message :: rest => some (.error (.io message), { s with faults := rest })

/-- What a file reads as, where there is one. -/
def Disk.read (s : Disk json) (name : FileName) : Option (Migrated Workspace) :=
  (get s.files name).map (parseAndMigrate json s.now)

/-- The directory without a file. -/
def Disk.without (s : Disk json) (name : FileName) : Disk json :=
  { s with files := keep s.files (fun n => n ≠ name) }

/-- The directory with a workspace written to its file. -/
def Disk.store (s : Disk json) (id : WorkspaceId) (workspace : Workspace) : Disk json :=
  { s with files := put s.files (.workspace id) (json.toVec workspace) }

/-- What `read_workspace_file` finds. -/
inductive FoundFile
  | absent
  | corrupt
  | workspace (workspace : Workspace)

/-- The workspace that was found: a corrupt file is none. -/
def FoundFile.existing : FoundFile → Option Workspace
  | .workspace existing => some existing
  | .absent | .corrupt => none

/-- `read_workspace_file`: a file that is rejected is moved away. -/
def readFile (name : FileName) : Prog json FoundFile := do
  access
  match ← reads fun s => .ok (s.read name) with
  | none => return .absent
  | some (.ok workspace) => return .workspace workspace
  | some (.error .panicked) => stuck
  | some (.error .rejected) =>
    access
    writes fun s => s.without name
    return .corrupt

-- ==== the repository

/-- `WorkspaceSummary`, with the fields the name check leaves out. -/
structure Listed where
  id : WorkspaceId
  name : String
  updatedAt : Nat
  revision : Nat

/-- `WorkspaceSummary::from`. -/
def Listed.of (workspace : Workspace) : Listed where
  id := workspace.id
  name := workspace.name
  updatedAt := workspace.updatedAt
  revision := workspace.revision

/-- The entries that `list` goes through: a corrupt one is left out. -/
def listFiles : List FileName → Prog json (List Listed)
  | [] => do
    access
    return []
  | name :: rest => do
    access
    let found ← readFile name
    let summaries ← listFiles rest
    return (found.existing.map Listed.of).toList ++ summaries

/-- `JsonFileWorkspaceRepository::list`. -/
def FileRepository.list : Prog json (List Listed) := do
  access
  let names ← reads fun s => .ok (s.files.map Prod.fst)
  listFiles names

/-- `JsonFileWorkspaceRepository::load`. -/
def FileRepository.load (id : WorkspaceId) : Prog json (Option Workspace) := do
  match ← readFile (.workspace id) with
  | .absent => return none
  | .corrupt => throw (.corrupt id)
  | .workspace workspace => return some workspace

/-- The copy that `save` writes, from what is stored: the same in both
repositories. -/
def persistedCopy (workspace : Workspace) (expected : Option Nat) (now : Nat)
    (existing : Option Workspace) : Except WorkspaceError Workspace :=
  match existing with
  | some existing =>
    if expected.any (fun revision => revision ≠ existing.revision) then
      .error (.revisionConflict workspace.id expected existing.revision)
    else .ok (stamp workspace existing now)
  | none =>
    if expected.isSome then .error (.revisionConflict workspace.id expected 0)
    else .ok { workspace with revision := 1, updatedAt := now }

/-- `JsonFileWorkspaceRepository::save`. -/
def FileRepository.save (workspace : Workspace) (expected : Option Nat) :
    Prog json Workspace := do
  let found ← readFile (.workspace workspace.id)
  let persisted ← reads fun s =>
    persistedCopy workspace expected s.now found.existing
  access
  writes fun s => s.store workspace.id persisted
  return persisted

/-- `JsonFileWorkspaceRepository::delete`. -/
def FileRepository.delete (id : WorkspaceId) (expected : Option Nat) :
    Prog json PUnit := do
  match ← readFile (.workspace id) with
  | .absent => throw (.notFound id)
  | .corrupt => throw (.corrupt id)
  | .workspace existing =>
    onlyIf (expected.any fun revision => revision ≠ existing.revision)
      (throw (.revisionConflict id expected existing.revision))
    access
    writes fun s => s.without (.workspace id)

def FileRepository.lastActiveWorkspaceId : Prog json (Option WorkspaceId) := do
  access
  reads fun s => .ok s.lastActive.id

def FileRepository.setLastActiveWorkspaceId (id : Option WorkspaceId) :
    Prog json PUnit := do
  access
  writes fun s => { s with lastActive := .recorded id }

-- ==== the one in memory

/-- `InMemoryWorkspaceRepository`. -/
structure Memory where
  workspaces : List (WorkspaceId × Workspace)
  lastActive : Option WorkspaceId
  now : Nat

abbrev MemoryProg (α : Type) := Fallible.Prog WorkspaceError Memory α

/-- `InMemoryWorkspaceRepository::list`. -/
def MemoryRepository.list : MemoryProg (List Listed) :=
  reads fun s => .ok (s.workspaces.map fun entry => Listed.of entry.2)

/-- `InMemoryWorkspaceRepository::load`. -/
def MemoryRepository.load (id : WorkspaceId) : MemoryProg (Option Workspace) :=
  reads fun s => .ok (get s.workspaces id)

/-- `InMemoryWorkspaceRepository::save`. -/
def MemoryRepository.save (workspace : Workspace) (expected : Option Nat) :
    MemoryProg Workspace := do
  let persisted ← reads fun s =>
    persistedCopy workspace expected s.now (get s.workspaces workspace.id)
  writes fun s =>
    { s with workspaces := put s.workspaces persisted.id persisted }
  return persisted

/-- `InMemoryWorkspaceRepository::delete`. -/
def MemoryRepository.delete (id : WorkspaceId) (expected : Option Nat) :
    MemoryProg PUnit := do
  match ← reads fun s => .ok (get s.workspaces id) with
  | none => throw (.notFound id)
  | some existing =>
    onlyIf (expected.any fun revision => revision ≠ existing.revision)
      (throw (.revisionConflict id expected existing.revision))
    writes fun s =>
      { s with workspaces := keep s.workspaces (fun k => k ≠ id) }

def MemoryRepository.lastActiveWorkspaceId : MemoryProg (Option WorkspaceId) :=
  reads fun s => .ok s.lastActive

def MemoryRepository.setLastActiveWorkspaceId (id : Option WorkspaceId) : MemoryProg PUnit :=
  writes fun s => { s with lastActive := id }

-- ==== the traits

/-- The calls of `WorkspaceRepository` and `LastActiveWorkspaceStore`. -/
inductive RepositoryCall
  | list
  | load (id : WorkspaceId)
  | save (workspace : Workspace) (expected : Option Nat)
  | delete (id : WorkspaceId) (expected : Option Nat)
  | lastActive
  | setLastActive (id : Option WorkspaceId)

/-- What they return. -/
inductive Answer
  | listed (summaries : List Listed)
  | loaded (workspace : Option Workspace)
  | saved (workspace : Workspace)
  | done
  | active (id : Option WorkspaceId)

def RepositoryCall.onFiles : RepositoryCall → Prog json Answer
  | .list => do
    let summaries ← FileRepository.list
    return .listed summaries
  | .load id => do
    let workspace ← FileRepository.load id
    return .loaded workspace
  | .save workspace expected => do
    let saved ← FileRepository.save workspace expected
    return .saved saved
  | .delete id expected => do
    FileRepository.delete id expected
    return .done
  | .lastActive => do
    let id ← FileRepository.lastActiveWorkspaceId
    return .active id
  | .setLastActive id => do
    FileRepository.setLastActiveWorkspaceId id
    return .done

def RepositoryCall.onMemory : RepositoryCall → MemoryProg Answer
  | .list => do
    let summaries ← MemoryRepository.list
    return .listed summaries
  | .load id => do
    let workspace ← MemoryRepository.load id
    return .loaded workspace
  | .save workspace expected => do
    let saved ← MemoryRepository.save workspace expected
    return .saved saved
  | .delete id expected => do
    MemoryRepository.delete id expected
    return .done
  | .lastActive => do
    let id ← MemoryRepository.lastActiveWorkspaceId
    return .active id
  | .setLastActive id => do
    MemoryRepository.setLastActiveWorkspaceId id
    return .done

end FileManager.Workspaces
