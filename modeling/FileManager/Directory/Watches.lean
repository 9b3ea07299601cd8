/-
Watches shared between panes (`fm-application`, `directory.rs`:
`DirectoryService::list`, `WatchHub`, `spawn_pane_watch`): every pane
that shows a location takes a receiver from one entry of the hub, and
its task gives the entry back when it ends.

# Granularity

The steps are cut where a lock is taken, or a call or a task waits. The
hub keeps its lock while a new provider stream is opened, so that
`acquire` is one step; between it and the start of the pane's task the
call does not wait, but others run. A caller may drop a call of `list`
wherever it waits.

A pane's task may take a change at any time, as changes that were sent
stay in its receiver; which ones are sent makes no difference here.
-/
import FileManager.Directory.Tasks

namespace FileManager.Directory.Watches

open Tasks (Enumeration annotateGitStatus isOf)
open Function (update)

abbrev PaneId := Nat

inductive ChangeTracking
  | nativeWatch
  | deltaApi
  | poll (interval : Nat)
  | unsupported
deriving DecidableEq

-- ==== the hub

/-- A provider's change stream with the task that `acquire` has started to
forward it. The task ends when the entry is cancelled, or the stream
ends. -/
structure Feed where
  location : Location
  cancelled : Bool
  live : Bool
  forwarding : Bool
deriving DecidableEq

/-- `SharedWatch`: its sender and its token are those of `feed`. -/
structure SharedWatch where
  feed : Nat
  references : Nat
  active : Bool

/-- `WatchHub`, and the streams it has opened so far. -/
structure WatchHub where
  watches : Location → Option SharedWatch
  feeds : List Feed

def WatchHub.empty : WatchHub where
  watches _ := none
  feeds := []

def WatchHub.put (hub : WatchHub) (location : Location) (watch : Option SharedWatch) : WatchHub :=
  { hub with watches := update hub.watches location watch }

/-- The stream of a new entry, where `watched` is what `provider.watch`
returns. A polled stream is made here and cannot fail. -/
def openStream (tracking : ChangeTracking) (watched : Except VfsError Unit) :
    Except VfsError Unit :=
  match tracking with
  | .nativeWatch | .deltaApi => watched
  | .poll _ => .ok ()
  | .unsupported => .error (.unsupportedCapability "watch")

/-- `WatchHub::acquire`: the hub, and the feed that the receiver is of. -/
def WatchHub.acquire (hub : WatchHub) (tracking : ChangeTracking) (location : Location)
    (watched : Except VfsError Unit) : Except VfsError (WatchHub × Nat) :=
  match hub.watches location with
  | some watch =>
    .ok (hub.put location (some { watch with references := watch.references + 1 }), watch.feed)
  | none =>
    match openStream tracking watched with
    | .error error => .error error
    | .ok () =>
      let feed : Feed :=
        { location := location, cancelled := false, live := true, forwarding := true }
      let watch : SharedWatch := { feed := hub.feeds.length, references := 1, active := true }
      .ok ({ hub.put location (some watch) with feeds := hub.feeds ++ [feed] }, hub.feeds.length)

/-- The entry's token is cancelled. -/
def WatchHub.cancel (hub : WatchHub) (feed : Nat) : WatchHub :=
  { hub with feeds := hub.feeds.modify feed fun feed => { feed with cancelled := true } }

def WatchHub.release (hub : WatchHub) (location : Location) : WatchHub :=
  match hub.watches location with
  | none => hub
  | some watch =>
    if watch.references - 1 = 0 then (hub.put location none).cancel watch.feed
    else hub.put location (some { watch with references := watch.references - 1 })

def WatchHub.setActive (hub : WatchHub) (location : Location) (active : Bool) : WatchHub :=
  match hub.watches location with
  | none => hub
  | some watch => hub.put location (some { watch with active := active })

/-- The provider's stream has ended. -/
def WatchHub.ends (hub : WatchHub) (feed : Nat) : WatchHub :=
  { hub with feeds := hub.feeds.modify feed fun feed => { feed with live := false } }

/-- The forwarding task leaves its loop. -/
def WatchHub.stops (hub : WatchHub) (feed : Nat) : WatchHub :=
  { hub with feeds := hub.feeds.modify feed fun feed => { feed with forwarding := false } }

/-- Whether a channel still has a sender: the entry's, or the forwarding
task's. -/
def WatchHub.hasSender (hub : WatchHub) (location : Location) (feed : Nat) : Bool :=
  (hub.watches location).any (fun watch => watch.feed = feed)
    || (hub.feeds[feed]?).any Feed.forwarding

-- ==== the state

/-- Where a call of `list` is. -/
inductive CallPhase
  | enumerating (cached : Option (List EntrySummary))
  | committing (full : List EntrySummary) (offset : Nat)
  | acquiring (snapshot : DirectorySnapshot) (token : Nat)
  | spawning (snapshot : DirectorySnapshot) (task : Nat)
  | returned (result : Except ApplicationError DirectorySnapshot)
  | dropped

/-- A call of `list` that has registered its request. -/
structure Call where
  pane : PaneId
  request : ListDirectoryRequest
  phase : CallPhase

/-- Where the watch of a pane is; it is `acquired` until its task runs, and
`leaving` from the end of its loop. -/
inductive TaskPhase
  | acquired
  | waiting
  | listing (change : ProviderChange)
  | storing (change : ProviderChange) (enumeration : Enumeration)
  | leaving
  | released

/-- `PaneWatch`. -/
structure Task where
  pane : PaneId
  location : Location
  view : ViewOptions
  token : Nat
  feed : Nat
  phase : TaskPhase

/-- The location of which the task has a receiver that it has not given
back. -/
def Task.held (task : Task) : Option Location :=
  match task.phase with
  | .released => none
  | _ => some task.location

structure World where
  panes : PaneId → Option PaneRequest
  hub : WatchHub
  calls : List Call
  tasks : List Task
  tokens : Nat
  cancelled : List Nat

/-- `DirectoryService::new`. -/
def World.initial : World where
  panes _ := none
  hub := .empty
  calls := []
  tasks := []
  tokens := 0
  cancelled := []

def World.enter (w : World) (i : Nat) (call : Call) (phase : CallPhase) : World :=
  { w with calls := w.calls.set i { call with phase := phase } }

def World.enterTask (w : World) (t : Nat) (task : Task) (phase : TaskPhase) : World :=
  { w with tasks := w.tasks.set t { task with phase := phase } }

-- ==== the calls of list

/-- The first lock of `list`. The watch of a pane that goes elsewhere is
cancelled. -/
def register (w : World) (pane : PaneId) (request : ListDirectoryRequest) : World :=
  let previous := w.panes pane
  let registered := registerPane previous w.tokens request
  { w with
    panes := update w.panes pane (some registered)
    calls := w.calls ++ [{ pane := pane, request := request
                           phase := .enumerating registered.fullEntries }]
    tokens := w.tokens + 1
    cancelled := match continuesListing previous request, previous with
      | none, some previous => previous.watchToken :: w.cancelled
      | _, _ => w.cancelled }

/-- `list` between its locks. -/
def enumerate (lowercase : String → String) (w : World) (i : Nat) (call : Call)
    (result : Except VfsError Enumeration) : Option World :=
  match call.phase with
  | .enumerating cached =>
    if isOf call.request.location result then
      let listed : ListCall := { request := call.request, cached := cached, answered := false }
      let entries := result.map fun enumeration =>
        annotateGitStatus enumeration call.request.view.showGitStatus
      match prepare lowercase listed entries with
      | .error error => some (w.enter i call (.returned (.error error)))
      | .ok (full, offset) => some (w.enter i call (.committing full offset))
    else none
  | _ => none

/-- The second lock of `list`. `inspected` is what `inspect` makes of the
directory, or nothing when the call is dropped there. -/
def commit (tracking : Location → ChangeTracking) (w : World) (i : Nat) (call : Call)
    (inspected : Option Bool) : Option World :=
  match call.phase with
  | .committing full offset =>
    match (w.panes call.pane).filter fun state => state.requestId = call.request.requestId with
    | none => some (w.enter i call (.returned (.error .operationCancelled)))
    | some state =>
      let revision := state.revision + 1
      let counted := { state with revision := revision, fullEntries := some full }
      match inspected with
      | none =>
        some ({ w with panes := update w.panes call.pane (some counted) }.enter i
          call .dropped)
      | some writable =>
        let snapshot := pageSnapshot call.request full offset revision writable
        let stored := { counted with snapshot := some snapshot }
        let next : CallPhase :=
          if call.request.continuationToken = none ∧ tracking call.request.location ≠ .unsupported
          then .acquiring snapshot state.watchToken else .returned (.ok snapshot)
        some ({ w with panes := update w.panes call.pane (some stored) }.enter i call next)
  | _ => none

/-- The receiver of a first page. -/
def acquire (tracking : Location → ChangeTracking) (w : World) (i : Nat) (call : Call)
    (watched : Except VfsError Unit) : Option World :=
  match call.phase with
  | .acquiring snapshot token =>
    match w.hub.acquire (tracking snapshot.location) snapshot.location watched with
    | .error error => some (w.enter i call (.returned (.error (.vfs error))))
    | .ok (hub, feed) =>
      let task : Task :=
        { pane := call.pane, location := snapshot.location, view := call.request.view
          token := token, feed := feed, phase := .acquired }
      some ({ w with hub := hub, tasks := w.tasks ++ [task] }.enter i call
        (.spawning snapshot w.tasks.length))
  | _ => none

/-- `spawn_pane_watch`, and the end of `list`. -/
def spawn (w : World) (i : Nat) (call : Call) : Option World :=
  match call.phase with
  | .spawning snapshot t =>
    match w.tasks[t]? with
    | some task =>
      match task.phase with
      | .acquired =>
        some ((w.enterTask t task .waiting).enter i call (.returned (.ok snapshot)))
      | _ => none
    | none => none
  | _ => none

/-- The caller drops a call that waits. -/
def drop (w : World) (i : Nat) (call : Call) : Option World :=
  match call.phase with
  | .enumerating _ | .committing _ _ | .acquiring _ _ => some (w.enter i call .dropped)
  | .spawning _ _ | .returned _ | .dropped => none

-- ==== the tasks of the panes

/-- The task of a pane receives a change. -/
def receive (w : World) (t : Nat) (task : Task) (change : ProviderChange) : Option World :=
  match task.phase with
  | .waiting => some (w.enterTask t task (.listing change))
  | _ => none

/-- The task leaves its loop: its token is cancelled. -/
def leaveCancelled (w : World) (t : Nat) (task : Task) : Option World :=
  match task.phase with
  | .waiting => if task.token ∈ w.cancelled then some (w.enterTask t task .leaving) else none
  | _ => none

/-- The task leaves its loop: its channel has no sender left. -/
def leaveClosed (w : World) (t : Nat) (task : Task) : Option World :=
  match task.phase with
  | .waiting =>
    if w.hub.hasSender task.location task.feed then none else some (w.enterTask t task .leaving)
  | _ => none

def listed (w : World) (t : Nat) (task : Task) (result : Except VfsError Enumeration) :
    Option World :=
  match task.phase with
  | .listing change =>
    match result with
    | .error .cancelled => some (w.enterTask t task .leaving)
    | .error _ => some (w.enterTask t task .waiting)
    | .ok enumeration =>
      if enumeration.location = task.location
      then some (w.enterTask t task (.storing change enumeration)) else none
  | _ => none

/-- `publish_changes`, of which the deltas are left out. -/
def store (lowercase : String → String) (w : World) (t : Nat) (task : Task) : Option World :=
  match task.phase with
  | .storing change enumeration =>
    let entries := annotateGitStatus enumeration task.view.showGitStatus
    let stored := (w.panes task.pane).bind fun pane =>
      storeChanges lowercase pane task.location task.view change entries
    match stored with
    | none => some (w.enterTask t task .waiting)
    | some (pane, _) =>
      some ({ w with panes := update w.panes task.pane (some pane) }.enterTask t task
        .waiting)
  | _ => none

/-- The end of a pane's task. -/
def release (w : World) (t : Nat) (task : Task) : Option World :=
  match task.phase with
  | .leaving =>
    some ({ w with hub := w.hub.release task.location }.enterTask t task .released)
  | _ => none

-- ==== all of it

def setPaneActivity (w : World) (pane : PaneId) (active : Bool) : World :=
  match (w.panes pane).bind PaneRequest.snapshot with
  | none => w
  | some snapshot => { w with hub := w.hub.setActive snapshot.location active }

/-- A forwarding task that has something to stop for. -/
def Feed.stopping (feed : Feed) : Bool := feed.forwarding && (feed.cancelled || !feed.live)

inductive Action
  | request (pane : PaneId) (request : ListDirectoryRequest)
  | enumerate (call : Nat) (result : Except VfsError Enumeration)
  | commit (call : Nat) (inspected : Option Bool)
  | acquire (call : Nat) (watched : Except VfsError Unit)
  | spawn (call : Nat)
  | drop (call : Nat)
  | receive (task : Nat) (change : ProviderChange)
  | leaveCancelled (task : Nat)
  | leaveClosed (task : Nat)
  | listed (task : Nat) (result : Except VfsError Enumeration)
  | store (task : Nat)
  | release (task : Nat)
  | setPaneActivity (pane : PaneId) (active : Bool)
  /-- A provider's stream ends. -/
  | streamEnds (feed : Nat)
  /-- A forwarding task ends. -/
  | forwardingEnds (feed : Nat)

def callStep (lowercase : String → String) (tracking : Location → ChangeTracking) (a : Action)
    (w : World) (i : Nat) (call : Call) : Option World :=
  match a with
  | .enumerate _ result => enumerate lowercase w i call result
  | .commit _ inspected => commit tracking w i call inspected
  | .acquire _ watched => acquire tracking w i call watched
  | .spawn _ => spawn w i call
  | .drop _ => drop w i call
  | _ => none

def taskStep (lowercase : String → String) (a : Action) (w : World) (t : Nat) (task : Task) :
    Option World :=
  match a with
  | .receive _ change => receive w t task change
  | .leaveCancelled _ => leaveCancelled w t task
  | .leaveClosed _ => leaveClosed w t task
  | .listed _ result => listed w t task result
  | .store _ => store lowercase w t task
  | .release _ => release w t task
  | _ => none

/-- A step of a stream or of its forwarding task. -/
def feedStep (a : Action) (w : World) (k : Nat) (feed : Feed) : Option World :=
  match a with
  | .streamEnds _ => if feed.live then some { w with hub := w.hub.ends k } else none
  | .forwardingEnds _ => if feed.stopping then some { w with hub := w.hub.stops k } else none
  | _ => none

/-- The transition function. -/
def apply (lowercase : String → String) (tracking : Location → ChangeTracking) (a : Action)
    (w : World) : Option World :=
  match a with
  | .request pane request => some (register w pane request)
  | .enumerate i _ | .commit i _ | .acquire i _ | .spawn i | .drop i =>
    (w.calls[i]?).bind (callStep lowercase tracking a w i)
  | .receive t _ | .leaveCancelled t | .leaveClosed t | .listed t _ | .store t | .release t =>
    (w.tasks[t]?).bind (taskStep lowercase a w t)
  | .setPaneActivity pane active => some (setPaneActivity w pane active)
  | .streamEnds k | .forwardingEnds k => (w.hub.feeds[k]?).bind (feedStep a w k)

end FileManager.Directory.Watches
