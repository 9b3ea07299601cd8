/-
`WorkspaceService` over the file repository, one call at a time
(`fm-application`, `workspace/service.rs`). Calls that interleave are in
`Service.lean`.

The identifiers that a call draws are arguments of it. A publisher is
told what to publish and answers nothing, so that `published` stands for
any of them.

The workspace a new installation starts with
(`workspace/default_workspace.rs`) draws its identifiers too;
`PaneId::new()` does not draw one twice.
-/
import FileManager.Workspaces.Repository

namespace FileManager.Workspaces

section Default

/-- The identifiers of a new workspace. -/
structure NewIds where
  workspace : WorkspaceId
  leftPane : PaneId
  leftTab : TabId
  rightPane : PaneId
  rightTab : TabId
  panes_differ : leftPane ≠ rightPane

variable (isUuid : List Char → Bool)

def locationFor (path : List UInt8) : TabLocation :=
  match Locations.Location.fromNativePath isUuid path with
  | .ok location =>
    { providerId := location.providerId, uri := String.ofList location.uri }
  | .error _ => { providerId := "local", uri := "file:///" }

def defaultPane (paneId : PaneId) (tabId : TabId) (location : TabLocation) :
    PaneState where
  id := paneId
  title := none
  tabs := [buildTab tabId location]
  activeTabId := tabId
  defaultView := defaultDirectoryView

def defaultWorkspace (home : List UInt8) (secondary : Option (List UInt8))
    (ids : NewIds) (now : Nat) : Workspace where
  schemaVersion := currentSchemaVersion
  id := ids.workspace
  name := "Default"
  layout := .split .horizontal (.finite (mkRat 1 2)) (.pane ids.leftPane) (.pane ids.rightPane)
  panes :=
    [defaultPane ids.leftPane ids.leftTab (locationFor isUuid home),
      defaultPane ids.rightPane ids.rightTab (locationFor isUuid (secondary.getD home))]
  activePaneId := ids.leftPane
  operationCentre := { visible := false, height := 240 }
  createdAt := now
  updatedAt := now
  revision := 1

end Default

open Fallible

variable {json : Json}

/-- `WorkspaceService`, apart from its repository and its publisher. -/
structure Service where
  homeDirectory : List UInt8
  secondaryLocation : Option (List UInt8)

def publish (id : WorkspaceId) (event : ServiceEvent) : Prog json PUnit :=
  writes fun s => { s with published := s.published ++ [(id, event)] }

def validateOrError (workspace : Workspace) : Prog json PUnit :=
  reads fun _ => match workspace.validate with
    | .ok () => .ok ⟨⟩
    | .error error => .error error

/-- `WorkspaceService::load`. -/
def Service.load (id : WorkspaceId) : Prog json Workspace := do
  match ← FileRepository.load id with
  | none => throw (.notFound id)
  | some workspace =>
    validateOrError workspace
    return workspace

-- ==== names

def Service.ensureNameAvailable (name : String)
    (excluding : Option WorkspaceId) : Prog json PUnit := do
  let summaries ← FileRepository.list
  onlyIf (summaries.any fun summary =>
      some summary.id ≠ excluding ∧ namesMatch summary.name name = true)
    (throw (.duplicateName name))

/-- A stored workspace has the name. -/
def taken (summaries : List Listed) (name : String) : Bool :=
  summaries.any fun summary => namesMatch summary.name name

/-- The candidates of `unique_name`. -/
def candidate (base : String) (suffix : Nat) : String := base ++ " " ++ Nat.repr suffix

/-- The loop of `unique_name` at a suffix, a `u32`, with so many
candidates to go. -/
def freeName (summaries : List Listed) (base : String) : Nat → Nat → Option String
  | 0, _ => none
  | rounds + 1, suffix =>
    if taken summaries (candidate base suffix) then
      freeName summaries base rounds ((suffix + 1) % 2 ^ 32)
    else some (candidate base suffix)

/-- `unique_name`: where one candidate more than there are workspaces is
taken, all of them are, and the loop goes round. -/
def Service.uniqueName (base : String) : Prog json String := do
  let summaries ← FileRepository.list
  if taken summaries base then
    match freeName summaries base (summaries.length + 1) 2 with
    | some name => return name
    | none => stuck
  else return base

-- ==== commands

def Service.checkCommandName (command : WorkspaceCommand) : Prog json PUnit :=
  match command.mutation with
  | .renameWorkspace name =>
    Service.ensureNameAvailable name (some command.workspaceId)
  | _ => pure ⟨⟩

/-- `WorkspaceService::apply_command`. -/
def Service.applyCommand (service : Service) (fresh : TabId)
    (command : WorkspaceCommand) : Prog json Workspace := do
  let workspace ← Service.load command.workspaceId
  onlyIf (workspace.revision ≠ command.expectedRevision)
    (throw (.revisionConflict command.workspaceId
      (some command.expectedRevision) workspace.revision))
  Service.checkCommandName command
  let mutated ← reads fun _ =>
    applyMutation fresh (locationFor json.isUuid service.homeDirectory) workspace
      command.mutation
  let persisted ← FileRepository.save mutated (some command.expectedRevision)
  let event ← reads fun _ => commandEvent command.mutation persisted
  publish persisted.id (.command event)
  return persisted

-- ==== lifecycle

def Service.newName (workspace : Workspace) : Option String → Prog json String
  | some name => do
    Service.ensureNameAvailable name none
    return name
  | none => Service.uniqueName workspace.name

/-- `WorkspaceService::create`. -/
def Service.create (service : Service) (ids : NewIds) (name : Option String) :
    Prog json Workspace := do
  let workspace ← reads fun s => .ok (defaultWorkspace json.isUuid
    service.homeDirectory service.secondaryLocation ids s.now)
  let name ← Service.newName workspace name
  let workspace : Workspace := { workspace with name := name }
  validateOrError workspace
  let persisted ← FileRepository.save workspace none
  publish persisted.id (.created persisted.revision)
  return persisted

/-- `WorkspaceService::create_default`. -/
def Service.createDefault (service : Service) (ids : NewIds) :
    Prog json Workspace := do
  let persisted ← service.create ids none
  FileRepository.setLastActiveWorkspaceId (some persisted.id)
  publish persisted.id (.opened persisted.revision)
  return persisted

/-- `WorkspaceService::delete`: a workspace that does not load has
revision 0 in the event. -/
def Service.delete (id : WorkspaceId) (expected : Option Nat) :
    Prog json PUnit := do
  let loaded ← caught (FileRepository.load id)
  let revision := match loaded with
    | .ok (some workspace) => workspace.revision
    | .ok none | .error _ => 0
  FileRepository.delete id expected
  publish id (.deleted revision)

/-- The workspace that `start` selects. -/
def Service.selectedId (requested : Option WorkspaceId) : Prog json (Option WorkspaceId) :=
  match requested with
  | some id => pure (some id)
  | none => FileRepository.lastActiveWorkspaceId

/-- `WorkspaceService::start`. -/
def Service.start (service : Service) (ids : NewIds)
    (requested : Option WorkspaceId) : Prog json Workspace := do
  match ← Service.selectedId requested with
  | none => service.createDefault ids
  | some id =>
    match ← caught (Service.load id) with
    | .ok workspace => do
      FileRepository.setLastActiveWorkspaceId (some workspace.id)
      publish workspace.id (.opened workspace.revision)
      return workspace
    | .error (.notFound _) | .error (.corrupt _) => service.createDefault ids
    | .error error => throw error

/-- The workspace that was active is closed, where it can be loaded. -/
def Service.closePrevious (id : WorkspaceId) : Option WorkspaceId → Prog json PUnit
  | none => pure ⟨⟩
  | some previousId =>
    if previousId ≠ id then do
      match ← caught (FileRepository.load previousId) with
      | .ok (some previous) => publish previousId (.closed previous.revision)
      | .ok none | .error _ => pure ⟨⟩
    else pure ⟨⟩

/-- `WorkspaceService::open`. -/
def Service.openWorkspace (id : WorkspaceId) : Prog json Workspace := do
  let previousActiveId ← FileRepository.lastActiveWorkspaceId
  let workspace ← Service.load id
  FileRepository.setLastActiveWorkspaceId (some id)
  Service.closePrevious id previousActiveId
  publish workspace.id (.opened workspace.revision)
  return workspace

-- ==== calls

inductive ServiceCall
  | create (ids : NewIds) (name : Option String)
  | createDefault (ids : NewIds)
  | start (ids : NewIds) (requested : Option WorkspaceId)
  | applyCommand (fresh : TabId) (command : WorkspaceCommand)
  | openWorkspace (id : WorkspaceId)
  | delete (id : WorkspaceId) (expected : Option Nat)

/-- A call, whatever it answers. -/
def ServiceCall.run (service : Service) : ServiceCall → Prog json PUnit
  | .create ids name => do
    let _ ← service.create ids name
  | .createDefault ids => do
    let _ ← service.createDefault ids
  | .start ids requested => do
    let _ ← service.start ids requested
  | .applyCommand fresh command => do
    let _ ← service.applyCommand fresh command
  | .openWorkspace id => do
    let _ ← Service.openWorkspace id
  | .delete id expected => Service.delete id expected

/-- A call, the time at which it is made and the accesses that fail. -/
structure Request where
  call : ServiceCall
  now : Nat
  faults : List (Option String)

/-- What a call leaves, where it returns. -/
def Service.serve (service : Service) (s : Disk json) (request : Request) : Option (Disk json) :=
  ((request.call.run service).run.run
    { s with now := request.now, faults := request.faults }).map Prod.snd

end FileManager.Workspaces
