/-
The operation centre (`frontend`, `operation-state.ts`:
`reduceOperationEvents`), and what the event stream makes of a sequence
of events that arrives at it: low-frequency events are dispatched as they
come, progress with the next frame.

Events about operations carry what the scheduler serializes
(`scheduler.rs`: `operation_payload`, `progress_payload`): a field that is
`none` is left out, and a spread over an older object keeps the older
one's. Everything else on the stream is of no concern here.
-/
import FileManager.Frontend.EventStream
import FileManager.Lib.Batch
import FileManager.Operations.Scheduler

namespace FileManager.Frontend

open Events (EventEnvelope EventKind)
open Scheduler (SchedulerError)

-- ==== the payloads

structure OperationPayload where
  id : Nat
  kind : OperationKind
  state : OperationState
  sources : List EntryRef
  destination : Option Location
  progress : OperationProgress
  conflictPolicy : ConflictPolicy
  createdAt : Timestamp
  startedAt : Option Timestamp
  completedAt : Option Timestamp
deriving DecidableEq

def operationPayload (operation : Operation) : OperationPayload where
  id := operation.id
  kind := operation.kind
  state := operation.state
  sources := operation.sources
  destination := operation.destination
  progress := operation.progress
  conflictPolicy := operation.conflictPolicy
  createdAt := operation.createdAt
  startedAt := operation.startedAt
  completedAt := operation.completedAt

/-- `BackendEventPayload`, as far as operations go. -/
inductive Payload
  | operationCreated (operation : OperationPayload)
  | operationProgress (operationId : Nat) (progress : OperationProgress)
  | operationStateChanged (operationId : Nat) (state : OperationState)
  | operationConflict (operationId : Nat) (conflict : OperationConflict)
  | operationCompleted (operation : OperationPayload)
  | operationFailed (operationId : Nat) (code : String) (error : SchedulerError)
  | other (kind : EventKind)
deriving DecidableEq

def Payload.kind : Payload → EventKind
  | .operationCreated _ => .operationCreated
  | .operationProgress _ _ => .operationProgress
  | .operationStateChanged _ _ => .operationStateChanged
  | .operationConflict _ _ => .operationConflict
  | .operationCompleted _ => .operationCompleted
  | .operationFailed _ _ _ => .operationFailed
  | .other kind => kind

def Payload.operationId : Payload → Option Nat
  | .operationCreated operation => some operation.id
  | .operationProgress id _ => some id
  | .operationStateChanged id _ => some id
  | .operationConflict id _ => some id
  | .operationCompleted operation => some operation.id
  | .operationFailed id _ _ => some id
  | .other _ => none

/-- What a job publishes about the operation `id`. -/
def payloadOf (id : Nat) : Scheduler.Event → Payload
  | .operationCreated operation => .operationCreated (operationPayload operation)
  | .operationProgress progress => .operationProgress id progress
  | .operationStateChanged state => .operationStateChanged id state
  | .operationConflict conflict => .operationConflict id conflict
  | .operationCompleted operation => .operationCompleted (operationPayload operation)
  | .operationFailed code error => .operationFailed id code error

-- ==== the reducer

structure OperationCentreState where
  byId : Nat → Option OperationPayload
  failuresById : Nat → Option (String × SchedulerError)

def setKey {α : Type} (record : Nat → Option α) (id : Nat) (value : α) : Nat → Option α :=
  fun key => if key = id then some value else record key

/-- `{ ...current, ...update }`. -/
def mergeProgress (current update : OperationProgress) : OperationProgress where
  completedItems := update.completedItems
  totalItems := update.totalItems <|> current.totalItems
  completedBytes := update.completedBytes
  totalBytes := update.totalBytes <|> current.totalBytes
  currentEntry := update.currentEntry <|> current.currentEntry
  bytesPerSecond := update.bytesPerSecond <|> current.bytesPerSecond

/-- One event of `reduceOperationEvents`. -/
def reduceEvent (state : OperationCentreState) : Payload → OperationCentreState
  | .operationCreated operation => { state with byId := setKey state.byId operation.id operation }
  | .operationCompleted operation =>
    { state with byId := setKey state.byId operation.id operation }
  | .operationProgress id progress =>
    match state.byId id with
    | none => state
    | some current =>
      let merged := { current with progress := mergeProgress current.progress progress }
      { state with byId := setKey state.byId id merged }
  | .operationStateChanged id next =>
    match state.byId id with
    | none => state
    | some current =>
      let changed := { current with state := next }
      { state with byId := setKey state.byId id changed }
  | .operationFailed id code error =>
    match state.byId id with
    | none => state
    | some current =>
      let failed := { current with state := OperationState.failed }
      { byId := setKey state.byId id failed
        failuresById := setKey state.failuresById id (code, error) }
  | .operationConflict _ _ => state
  | .other _ => state

def reduceOperationEvents (state : OperationCentreState)
    (events : List (EventEnvelope Payload)) : OperationCentreState :=
  events.foldl (fun state event => reduceEvent state event.payload) state

-- ==== the stream

def dispatchesOf (effects : List (Effect Payload)) : List (EventEnvelope Payload) :=
  effects.filterMap fun
    | .dispatch event => some event
    | _ => none

/-- The stream fed with events that arrive and frames, and what it
dispatches. -/
def feed (stream : SseEventStream Payload) :
    List (Batch.Turn (EventEnvelope Payload)) →
      SseEventStream Payload × List (EventEnvelope Payload)
  | [] => (stream, [])
  | .event event :: rest =>
    let (stream, effects) := stream.handleEvent Payload.kind event
    let (stream, dispatched) := feed stream rest
    (stream, dispatchesOf effects ++ dispatched)
  | .frame :: rest =>
    let (stream, effects) := stream.flush
    let (stream, dispatched) := feed stream rest
    (stream, dispatchesOf effects ++ dispatched)

end FileManager.Frontend
