/-
`WorkspaceService::apply_command` over the file repository
(`fm-application`, `workspace/service.rs`, `workspace/persistent.rs` and
`workspace/events.rs`): any number of calls on one workspace, each a
little program over the one file they share.

# Granularity

A call makes three accesses to the workspace's file: the read of `load`,
the read of `save`, and the rename that puts the new file in place. A
renaming command also lists the directory between the first two. No lock
is held between them, and calls interleave at each. Every access may fail
with an I/O error instead (`fault`), which leaves the file alone.

The file holds the workspace that its name says: `save` writes a
workspace under its own identifier only. What a listing says of the
others is part of the action.

`log` is a ghost: the calls whose new file was put in place, in order.
-/
import FileManager.Workspaces.Model
import FileManager.Lib.Machine

namespace FileManager.Workspaces

-- ==== events

/-- The view a `WorkspaceTabViewChanged` event carries. -/
structure ViewPayload where
  sort : List SortDescriptor
  columns : List ColumnConfiguration
  showHidden : Bool
  foldersFirst : Bool
  quickFilter : Option String

def viewPayload (view : DirectoryViewConfiguration) : ViewPayload where
  sort := view.sort
  columns := view.columns
  showHidden := view.showHidden
  foldersFirst := view.foldersFirst
  quickFilter := view.quickFilter

/-- The `BackendEventPayload`s of applied commands. -/
inductive WorkspaceEvent
  | renamed (revision : Nat) (name : String)
  | activePaneChanged (revision : Nat) (paneId : PaneId)
  | tabAdded (revision : Nat) (paneId : PaneId) (tabId : TabId)
      (location : TabLocation)
  | tabClosed (revision : Nat) (paneId : PaneId) (tabId : TabId)
  | tabActivated (revision : Nat) (paneId : PaneId) (tabId : TabId)
  | tabNavigated (revision : Nat) (paneId : PaneId) (tabId : TabId)
      (location : TabLocation)
  | tabViewChanged (revision : Nat) (paneId : PaneId) (tabId : TabId)
      (view : ViewPayload)
  | layoutChanged (revision : Nat) (layout : WorkspaceLayout)

def readTab (persisted : Workspace) (paneId : PaneId)
    (tabId : PaneState → TabId) : Except WorkspaceError TabState :=
  match findPane persisted paneId with
  | .error error => .error error
  | .ok pane => findTab pane persisted.id (tabId pane)

def commandEvent (mutation : Mutation) (persisted : Workspace) :
    Except WorkspaceError WorkspaceEvent :=
  let revision := persisted.revision
  match mutation with
  | .renameWorkspace _ => .ok (.renamed revision persisted.name)
  | .setActivePane paneId => .ok (.activePaneChanged revision paneId)
  | .addTab paneId _ =>
    match readTab persisted paneId PaneState.activeTabId with
    | .ok tab => .ok (.tabAdded revision paneId tab.id tab.location)
    | .error error => .error error
  | .closeTab paneId tabId => .ok (.tabClosed revision paneId tabId)
  | .activateTab paneId tabId => .ok (.tabActivated revision paneId tabId)
  | .navigateTab paneId tabId _ _ =>
    match readTab persisted paneId (fun _ => tabId) with
    | .ok tab => .ok (.tabNavigated revision paneId tabId tab.location)
    | .error error => .error error
  | .updateView paneId tabId _ =>
    match readTab persisted paneId (fun _ => tabId) with
    | .ok tab => .ok (.tabViewChanged revision paneId tabId (viewPayload tab.view))
    | .error error => .error error
  | .updateLayout _ => .ok (.layoutChanged revision persisted.layout)

-- ==== the repository

/-- The workspace's file: `corrupt` is one that does not parse. -/
inductive WorkspaceFile
  | missing
  | corrupt
  | valid (workspace : Workspace)
deriving DecidableEq

/-- `read_workspace_file`: what it returns, and the file after it (a
corrupt file is moved away). -/
def readWorkspaceFile (id : WorkspaceId) (file : WorkspaceFile) (fault : Option String) :
    Except WorkspaceError (Option Workspace) × WorkspaceFile :=
  match fault, file with
  | some message, _ => (.error (.io message), file)
  | none, .missing => (.ok none, .missing)
  | none, .corrupt => (.error (.corrupt id), .missing)
  | none, .valid workspace => (.ok (some workspace), .valid workspace)

/-- The workspace `save` writes over `existing`; a revision is a
`u64`. -/
def stamp (workspace existing : Workspace) (now : Nat) : Workspace :=
  { workspace with
    createdAt := existing.createdAt
    revision := (existing.revision + 1) % 2 ^ 64
    updatedAt := now }

/-- `JsonFileWorkspaceRepository::save` up to the write, from what its
read returned: the file that was compared with and the one to write. A
caller that expects a revision expects a file. -/
def compareForSave (workspace : Workspace) (expected : Nat) (now : Nat)
    (read : Except WorkspaceError (Option Workspace)) :
    Except WorkspaceError (Workspace × Workspace) :=
  match read with
  | .ok (some existing) =>
    if expected = existing.revision then
      .ok (existing, stamp workspace existing now)
    else .error (.revisionConflict workspace.id (some expected) existing.revision)
  | .ok none | .error (.corrupt _) =>
    .error (.revisionConflict workspace.id (some expected) 0)
  | .error error => .error error

-- ==== the service

/-- `WorkspaceSummary`, as far as the name check reads it. -/
structure WorkspaceSummary where
  id : WorkspaceId
  name : String

def namesMatch (a b : String) : Bool := (trim a).map Char.toLower = (trim b).map Char.toLower

/-- `ensure_name_available`, on what the listing returned. -/
def ensureNameAvailable (summaries : List WorkspaceSummary) (name : String)
    (excluding : WorkspaceId) : Except WorkspaceError Unit :=
  if summaries.any (fun summary =>
      summary.id ≠ excluding ∧ namesMatch summary.name name = true) then
    .error (.duplicateName name)
  else .ok ()

/-- `WorkspaceService::load` and the revision check of `apply_command`,
from what the read returned. -/
def checkLoaded (command : WorkspaceCommand) (read : Except WorkspaceError (Option Workspace)) :
    Except WorkspaceError Workspace :=
  match read with
  | .error error => .error error
  | .ok none => .error (.notFound command.workspaceId)
  | .ok (some workspace) =>
    match workspace.validate with
    | .error error => .error error
    | .ok () =>
      if workspace.revision = command.expectedRevision then .ok workspace
      else .error (.revisionConflict command.workspaceId
        (some command.expectedRevision) workspace.revision)

/-- Where an `apply_command` call is: before its first read, before a
rename's listing, before `save`'s read, before the rename of the new
file into place, or back. -/
inductive Position
  | loading
  | naming (name : String) (loaded : Workspace)
  | saving (loaded mutated : Workspace)
  | writing (loaded existing persisted : Workspace)
  | returned (result : Except WorkspaceError Workspace)

/-- One `apply_command` call; `fresh` is the tab identifier it draws, if
it draws one. -/
structure Call where
  command : WorkspaceCommand
  fresh : TabId
  position : Position

/-- A call whose file was put in place: the workspace it loaded and the
one it wrote. -/
structure Entry where
  call : Nat
  command : WorkspaceCommand
  fresh : TabId
  loaded : Workspace
  persisted : Workspace

/-- The file, the clock, and the calls. -/
structure State where
  file : WorkspaceFile
  now : Nat
  calls : List Call
  published : List WorkspaceEvent
  log : List Entry

/-- A stored workspace that no call is under way on. -/
def initial (workspace : Workspace) (now : Nat) : State where
  file := .valid workspace
  now := now
  calls := []
  published := []
  log := []

/-- `command::apply` inside `apply_command`: on to `save`, or back. -/
def afterCheck (home : TabLocation) (call : Call) (loaded : Workspace) : Position :=
  match applyMutation call.fresh home loaded call.command.mutation with
  | .ok mutated => .saving loaded mutated
  | .error error => .returned (.error error)

/-- Put call `i` at a position. -/
def State.move (s : State) (i : Nat) (call : Call) (position : Position) : State :=
  { s with calls := s.calls.set i { call with position := position } }

/-- The first read. -/
def load (home : TabLocation) (s : State) (i : Nat) (call : Call) (fault : Option String) : State :=
  let (read, file) := readWorkspaceFile call.command.workspaceId s.file fault
  let position := match checkLoaded call.command read with
    | .error error => .returned (.error error)
    | .ok loaded =>
      match call.command.mutation with
      | .renameWorkspace name => .naming name loaded
      | _ => afterCheck home call loaded
  State.move { s with file := file } i call position

/-- The listing of a rename; a corrupt file is moved away by it. -/
def checkName (home : TabLocation) (s : State) (i : Nat) (call : Call) (name : String)
    (loaded : Workspace) (fault : Option String) (summaries : List WorkspaceSummary) : State :=
  match fault with
  | some message => s.move i call (.returned (.error (.io message)))
  | none =>
    let position := match ensureNameAvailable summaries name
        call.command.workspaceId with
      | .error error => .returned (.error error)
      | .ok () => afterCheck home call loaded
    let file := if s.file = .corrupt then .missing else s.file
    State.move { s with file := file } i call position

/-- The read and comparison of `save`. -/
def compare (s : State) (i : Nat) (call : Call) (loaded mutated : Workspace)
    (fault : Option String) : State :=
  let (read, file) := readWorkspaceFile mutated.id s.file fault
  let position := match compareForSave mutated call.command.expectedRevision
      s.now read with
    | .error error => .returned (.error error)
    | .ok (existing, persisted) => .writing loaded existing persisted
  State.move { s with file := file } i call position

/-- The write of `save`, and the event. -/
def write (s : State) (i : Nat) (call : Call) (loaded persisted : Workspace)
    (fault : Option String) : State :=
  match fault with
  | some message => s.move i call (.returned (.error (.io message)))
  | none =>
    let s : State := { s with
      file := .valid persisted
      log := s.log ++ [{ call := i, command := call.command
                         fresh := call.fresh, loaded := loaded
                         persisted := persisted }] }
    match commandEvent call.command.mutation persisted with
    | .error error => s.move i call (.returned (.error error))
    | .ok event =>
      State.move { s with published := s.published ++ [event] } i call (.returned (.ok persisted))

/-- A new call, the next access of one, or the clock. -/
inductive Action
  | start (command : WorkspaceCommand) (fresh : TabId)
  | access (call : Nat) (fault : Option String)
      (summaries : List WorkspaceSummary)
  | tick (now : Nat)

/-- The transition function of the calls on workspace `id`. -/
def apply (id : WorkspaceId) (home : TabLocation) (a : Action) (s : State) : Option State :=
  match a with
  | .start command fresh =>
    if command.workspaceId = id then
      some { s with calls := s.calls
        ++ [{ command := command, fresh := fresh, position := .loading }] }
    else none
  | .access i fault summaries =>
    match s.calls[i]? with
    | none => none
    | some call =>
      match call.position with
      | .loading => some (load home s i call fault)
      | .naming name loaded =>
        some (checkName home s i call name loaded fault summaries)
      | .saving loaded mutated => some (compare s i call loaded mutated fault)
      | .writing loaded _ persisted =>
        some (write s i call loaded persisted fault)
      | .returned _ => none
  | .tick now => some { s with now := now }

end FileManager.Workspaces
