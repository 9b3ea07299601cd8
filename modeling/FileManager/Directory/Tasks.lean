/-
The tasks of one pane (`fm-application`, `directory.rs`): calls of `list`,
pane watches (`spawn_pane_watch`) and the refreshes of `refresh_affected`,
cut at every point where another of them may come in between.

# Granularity

A call of `list` registers its request under the lock of the panes,
enumerates the provider without it, takes it again to store its page (the
lock is held over `inspect`) and last asks for a watch. A watch or a
refresh stores the new listing under the lock and publishes its deltas
one by one afterwards.

A watch whose token is cancelled may still take a change that it has been
sent: `select!` takes either branch when both are ready; cancellation
only adds that a watch may stop.

`enumerations`, `commits` and `stores` are ghosts: what `list_all`
returned, which call stored a page when how many had registered, and
which deltas a change was given, in the order in which this happened.
-/
import FileManager.Directory.Service

namespace FileManager.Directory

/-- What `publish_changes` does under the lock: the pane with the new
listing, and the deltas to publish. Nothing, where the pane shows no
listing of the location. -/
def storeChanges (lowercase : String → String) (pane : PaneRequest) (location : Location)
    (view : ViewOptions) (change : ProviderChange) (enumerated : List EntrySummary) :
    Option (PaneRequest × List DirectoryDelta) :=
  let entries := arrange lowercase view enumerated
  match pane.snapshot with
  | none => none
  | some previous =>
    if previous.location = location then
      let revision := pane.revision + 1
      let snapshot : DirectorySnapshot := { previous with
        revision := revision
        entries := entries
        totalKnownEntries := some entries.length
        totalKnownSize := some (aggregateTotals entries).1
        totalKnownFileCount := some (aggregateTotals entries).2
        hasMore := false
        continuationToken := none }
      let deltas := deltasForChange change previous snapshot entries revision
      let last := finalRevision revision deltas
      some ({ pane with
        revision := last
        fullEntries := some entries
        snapshot := some { snapshot with revision := last } }, deltas)
    else none

def registerPane (pane : Option PaneRequest) (token : Nat) (request : ListDirectoryRequest) :
    PaneRequest :=
  match continuesListing pane request with
  | some previous => { previous with requestId := request.requestId }
  | none =>
    { requestId := request.requestId
      watchToken := token
      revision := match pane with
        | some previous => previous.revision
        | none => 0
      view := request.view
      snapshot := none
      fullEntries := none }

namespace Tasks

-- ==== enumerations

/-- What `list_all` returned for a location, and what
`GitStatusService::annotate` makes of it. -/
structure Enumeration where
  location : Location
  entries : List EntrySummary
  annotated : List EntrySummary

def annotateGitStatus (enumeration : Enumeration) (showGitStatus : Bool) : List EntrySummary :=
  if !showGitStatus || enumeration.location.providerId ≠ "local" then enumeration.entries
  else enumeration.annotated

/-- The listing of an enumeration under view options: annotated, filtered
and sorted. -/
def Enumeration.listing (lowercase : String → String) (view : ViewOptions)
    (enumeration : Enumeration) : List EntrySummary :=
  arrange lowercase view (annotateGitStatus enumeration view.showGitStatus)

-- ==== the state

/-- Where a call of `list` is. -/
inductive CallPhase
  | enumerating (cached : Option (List EntrySummary))
  | committing (full : List EntrySummary) (offset : Nat)
  | acquiring (snapshot : DirectorySnapshot) (token : Nat)
  | returned (result : Except ApplicationError DirectorySnapshot)
deriving DecidableEq

/-- A call of `list` that has registered its request. -/
structure Call where
  request : ListDirectoryRequest
  phase : CallPhase

/-- Where a watch or a refresh is. -/
inductive TaskPhase
  | idle
  | listing (change : ProviderChange)
  | storing (change : ProviderChange) (enumeration : Enumeration)
  | publishing (deltas : List DirectoryDelta)
  | stopped

/-- `PaneWatch`: the task of a watch, or, with no token, one of
`refresh_affected`. -/
structure Task where
  location : Location
  view : ViewOptions
  token : Option Nat
  phase : TaskPhase

/-- The deltas that are still to be published. -/
def Task.pending (task : Task) : List DirectoryDelta :=
  match task.phase with
  | .publishing deltas => deltas
  | _ => []

/-- Where a task goes when it is done with a change. -/
def Task.rest (task : Task) : TaskPhase :=
  match task.token with
  | some _ => .idle
  | none => .stopped

/-- A page that was stored: by which call, of how many that had
registered, and at which revision. -/
structure Commit where
  call : Nat
  registered : Nat
  revision : Nat

/-- A change that was stored: its deltas, and the revision of the
snapshot that it left on the pane. -/
structure Store where
  deltas : List DirectoryDelta
  revision : Nat

/-- The pane, its calls and tasks, and its deltas on the event bus. -/
structure World where
  pane : Option PaneRequest
  calls : List Call
  tasks : List Task
  tokens : Nat
  bus : List DirectoryDelta
  enumerations : List Enumeration
  commits : List Commit
  stores : List Store

/-- A pane nobody has asked for yet. -/
def World.initial : World where
  pane := none
  calls := []
  tasks := []
  tokens := 0
  bus := []
  enumerations := []
  commits := []
  stores := []

-- ==== the steps

/-- The first lock of `list`. -/
def register (w : World) (request : ListDirectoryRequest) : World :=
  let pane := registerPane w.pane w.tokens request
  { w with
    pane := some pane
    calls := w.calls ++ [{ request := request, phase := .enumerating pane.fullEntries }]
    tokens := w.tokens + 1 }

/-- `list` between its locks. -/
def enumerate (lowercase : String → String) (w : World) (i : Nat) (call : Call)
    (cached : Option (List EntrySummary)) (result : Except VfsError Enumeration) : World :=
  let listed : ListCall := { request := call.request, cached := cached, answered := false }
  let entries := result.map fun enumeration =>
    annotateGitStatus enumeration call.request.view.showGitStatus
  let phase : CallPhase := match prepare lowercase listed entries with
    | .error error => .returned (.error error)
    | .ok (full, offset) => .committing full offset
  { w with
    calls := w.calls.set i { call with phase := phase }
    enumerations := match cached, result with
      | none, .ok enumeration => w.enumerations ++ [enumeration]
      | _, _ => w.enumerations }

/-- The second lock of `list`. -/
def commit (w : World) (i : Nat) (call : Call) (full : List EntrySummary) (offset : Nat)
    (writable tracking : Bool) : World :=
  match w.pane with
  | none =>
    let ended := { call with phase := .returned (.error .operationCancelled) }
    { w with calls := w.calls.set i ended }
  | some pane =>
    if pane.requestId = call.request.requestId then
      let revision := pane.revision + 1
      let snapshot := pageSnapshot call.request full offset revision writable
      let phase : CallPhase :=
        if call.request.continuationToken = none ∧ tracking = true
        then .acquiring snapshot pane.watchToken else .returned (.ok snapshot)
      let stored := { pane with
        revision := revision, fullEntries := some full, snapshot := some snapshot }
      { w with
        pane := some stored
        calls := w.calls.set i { call with phase := phase }
        commits := w.commits
          ++ [{ call := i, registered := w.calls.length, revision := revision }] }
    else
      let ended := { call with phase := .returned (.error .operationCancelled) }
      { w with calls := w.calls.set i ended }

/-- The end of `list`: the watch of a first page. -/
def acquire (w : World) (i : Nat) (call : Call) (snapshot : DirectorySnapshot) (token : Nat)
    (result : Except VfsError Unit) : World :=
  match result with
  | .error error =>
    let ended := { call with phase := .returned (.error (.vfs error)) }
    { w with calls := w.calls.set i ended }
  | .ok () =>
    let ended := { call with phase := .returned (.ok snapshot) }
    { w with
      calls := w.calls.set i ended
      tasks := w.tasks ++ [{ location := snapshot.location, view := call.request.view
                             token := some token, phase := .idle }] }

/-- `refresh_affected`, on the modelled pane. -/
def refresh (w : World) : Option World :=
  match w.pane with
  | none => none
  | some pane =>
    match pane.snapshot with
    | none => none
    | some snapshot =>
      some { w with tasks := w.tasks ++ [{
        location := snapshot.location, view := pane.view, token := none
        phase := .listing .resetRequired }] }

/-- A task goes on to another phase. -/
def World.setTask (w : World) (t : Nat) (task : Task) (phase : TaskPhase) : World :=
  { w with tasks := w.tasks.set t { task with phase := phase } }

/-- A task's listing has returned. A watch goes on after a failure, but
not after `Cancelled`. -/
def listed (w : World) (t : Nat) (task : Task) (change : ProviderChange)
    (result : Except VfsError Enumeration) : World :=
  match result with
  | .error error => w.setTask t task (if error = .cancelled then .stopped else task.rest)
  | .ok enumeration =>
    { w.setTask t task (.storing change enumeration) with
      enumerations := w.enumerations ++ [enumeration] }

/-- `publish_changes`, up to the end of its lock. -/
def store (lowercase : String → String) (w : World) (t : Nat) (task : Task)
    (change : ProviderChange) (enumeration : Enumeration) : World :=
  let entries := annotateGitStatus enumeration task.view.showGitStatus
  match w.pane with
  | none => w.setTask t task (.publishing [])
  | some pane =>
    match storeChanges lowercase pane task.location task.view change entries with
    | none => w.setTask t task (.publishing [])
    | some (stored, deltas) =>
      { w.setTask t task (.publishing deltas) with
        pane := some stored
        stores := w.stores ++ [{ deltas := deltas, revision := stored.revision }] }

/-- What the tasks of a pane do, in any order. -/
inductive Action
  | request (request : ListDirectoryRequest)
  | enumerate (call : Nat) (result : Except VfsError Enumeration)
  | commit (call : Nat) (writable tracking : Bool)
  | acquire (call : Nat) (result : Except VfsError Unit)
  | refresh
  | receive (task : Nat) (change : ProviderChange)
  | stop (task : Nat)
  | listed (task : Nat) (result : Except VfsError Enumeration)
  | store (task : Nat)
  | publish (task : Nat)

/-- An enumeration is of the location that was asked for. -/
def isOf (location : Location) : Except VfsError Enumeration → Bool
  | .ok enumeration => enumeration.location = location
  | .error _ => true

/-- The transition function. -/
def apply (lowercase : String → String) (a : Action) (w : World) : Option World :=
  match a with
  | .request request => some (register w request)
  | .enumerate i result =>
    match w.calls[i]? with
    | none => none
    | some call =>
      match call.phase with
      | .enumerating cached =>
        if isOf call.request.location result
        then some (enumerate lowercase w i call cached result) else none
      | _ => none
  | .commit i writable tracking =>
    match w.calls[i]? with
    | none => none
    | some call =>
      match call.phase with
      | .committing full offset => some (commit w i call full offset writable tracking)
      | _ => none
  | .acquire i result =>
    match w.calls[i]? with
    | none => none
    | some call =>
      match call.phase with
      | .acquiring snapshot token => some (acquire w i call snapshot token result)
      | _ => none
  | .refresh => refresh w
  | .receive t change =>
    match w.tasks[t]? with
    | none => none
    | some task =>
      match task.token, task.phase with
      | some _, .idle => some (w.setTask t task (.listing change))
      | _, _ => none
  | .stop t =>
    match w.tasks[t]? with
    | none => none
    | some task =>
      match task.phase with
      | .idle => some (w.setTask t task .stopped)
      | _ => none
  | .listed t result =>
    match w.tasks[t]? with
    | none => none
    | some task =>
      match task.phase with
      | .listing change =>
        if isOf task.location result then some (listed w t task change result) else none
      | _ => none
  | .store t =>
    match w.tasks[t]? with
    | none => none
    | some task =>
      match task.phase with
      | .storing change enumeration => some (store lowercase w t task change enumeration)
      | _ => none
  | .publish t =>
    match w.tasks[t]? with
    | none => none
    | some task =>
      match task.phase with
      | .publishing [] => some (w.setTask t task task.rest)
      | .publishing (delta :: rest) =>
        some { w.setTask t task (.publishing rest) with bus := w.bus ++ [delta] }
      | _ => none

end Tasks

end FileManager.Directory
