/-
The browser's event stream (`frontend`, `sse-event-stream.ts`:
`SseEventStream`; `event-stream.ts`: `parseBackendEvent`).

The stream is a machine: each of its methods and callbacks takes it to a
new state and asks for something outside (`Effect`). Timers and frames
fire when the browser lets them, so the delays between reconnects, and
the count of attempts that sets them, are left out.
-/
import FileManager.Events.Bus

namespace FileManager.Frontend

open Events (EventEnvelope EventKind)

-- ==== the types

def eventTypes : List String :=
  ["runtime.ready", "workspace.created", "workspace.renamed", "workspace.opened",
    "workspace.closed", "workspace.deleted", "workspace.layoutChanged",
    "workspace.activePaneChanged", "workspace.tabAdded", "workspace.tabClosed",
    "workspace.tabActivated", "workspace.tabNavigated", "workspace.tabViewChanged",
    "directory.snapshot", "directory.delta", "operation.created", "operation.progress",
    "operation.stateChanged", "operation.conflict", "operation.completed", "operation.failed",
    "plugin.changed", "notification.created", "search.resultsBatch", "comparison.resultsBatch"]

def highFrequencyTypes : List String :=
  ["operation.progress", "directory.delta", "search.resultsBatch", "comparison.resultsBatch"]

def knownEventTypes : List String :=
  ["runtime.ready", "workspace.created", "workspace.renamed", "workspace.opened",
    "workspace.closed", "workspace.deleted", "workspace.layoutChanged",
    "workspace.activePaneChanged", "workspace.tabAdded", "workspace.tabClosed",
    "workspace.tabActivated", "workspace.tabNavigated", "workspace.tabViewChanged",
    "directory.snapshot", "directory.delta", "operation.created", "operation.progress",
    "operation.stateChanged", "operation.conflict", "operation.completed", "operation.failed",
    "plugin.changed", "notification.created", "search.resultsBatch", "comparison.resultsBatch"]

/-- `Number.MAX_SAFE_INTEGER`. -/
def maxSafeInteger : Nat := 2 ^ 53 - 1

section Stream

variable {Payload : Type} (kind : Payload → EventKind)

/-- `parseBackendEvent`, of an envelope that the backend has serialized.
The fields have their types; an id beyond the safe integers is read as
another one that is not safe either. -/
def parseBackendEvent (event : EventEnvelope Payload) : Option (EventEnvelope Payload) :=
  if maxSafeInteger < event.eventId then none
  else if (kind event.payload).eventName ∈ knownEventTypes then some event
  else none

-- ==== the stream

inductive EventStreamStatus
  | connecting
  | open
  | reconnecting
  | closed

/-- `SseEventStream`. A timer is there while it is set. -/
structure SseEventStream (Payload : Type) where
  status : EventStreamStatus
  source : Bool
  reconnectTimer : Bool
  staleTimer : Bool
  lastEventId : Option Nat
  closed : Bool
  queued : List (EventEnvelope Payload)
  framePending : Bool

/-- What the stream does outside itself. -/
inductive Effect (Payload : Type)
  | openSource (lastEventId : Option Nat)
  | closeSource
  | requestFrame
  | dispatch (event : EventEnvelope Payload)
  | resynchronise

/-- A stream that was constructed. -/
def SseEventStream.new : SseEventStream Payload where
  status := .closed
  source := false
  reconnectTimer := false
  staleTimer := false
  lastEventId := none
  closed := true
  queued := []
  framePending := false

namespace SseEventStream

def openSource (stream : SseEventStream Payload) : SseEventStream Payload × List (Effect Payload) :=
  ({ stream with source := true }, [.openSource stream.lastEventId])

def detachSource (stream : SseEventStream Payload) :
    SseEventStream Payload × List (Effect Payload) :=
  if stream.source then ({ stream with source := false }, [.closeSource]) else (stream, [])

def connect (stream : SseEventStream Payload) : SseEventStream Payload × List (Effect Payload) :=
  if stream.source || !stream.closed then (stream, [])
  else openSource { stream with closed := false, status := .connecting }

def close (stream : SseEventStream Payload) : SseEventStream Payload × List (Effect Payload) :=
  let (stream, effects) := detachSource
    { stream with closed := true, reconnectTimer := false, staleTimer := false }
  ({ stream with queued := [], framePending := false, status := .closed }, effects)

def handleOpen (stream : SseEventStream Payload) : SseEventStream Payload :=
  { stream with status := .open, staleTimer := true }

/-- `handleActivity`, of a `keep-alive`. -/
def handleActivity (stream : SseEventStream Payload) : SseEventStream Payload :=
  { stream with staleTimer := true }

def handleGap (stream : SseEventStream Payload) : SseEventStream Payload × List (Effect Payload) :=
  ({ stream with staleTimer := true }, [.resynchronise])

/-- Whether an event waits for a frame. -/
def isHighFrequency (event : EventEnvelope Payload) : Bool :=
  decide ((kind event.payload).eventName ∈ highFrequencyTypes)

def handleEvent (stream : SseEventStream Payload) (raw : EventEnvelope Payload) :
    SseEventStream Payload × List (Effect Payload) :=
  let stream := { stream with staleTimer := true }
  match parseBackendEvent kind raw with
  | none => (stream, [])
  | some event =>
    let stream := { stream with lastEventId := some event.eventId }
    if isHighFrequency kind event then
      let stream := { stream with queued := stream.queued ++ [event] }
      if stream.framePending then (stream, [])
      else ({ stream with framePending := true }, [.requestFrame])
    else (stream, [.dispatch event])

def flush (stream : SseEventStream Payload) : SseEventStream Payload × List (Effect Payload) :=
  ({ stream with framePending := false, queued := [] }, stream.queued.map .dispatch)

def scheduleReconnect (stream : SseEventStream Payload) :
    SseEventStream Payload × List (Effect Payload) :=
  if stream.closed || stream.reconnectTimer then (stream, [])
  else
    let (stream, effects) := detachSource { stream with staleTimer := false }
    ({ stream with status := .reconnecting, reconnectTimer := true }, effects)

/-- The reconnect timer fires. -/
def reconnect (stream : SseEventStream Payload) : SseEventStream Payload × List (Effect Payload) :=
  let stream := { stream with reconnectTimer := false }
  if stream.closed then (stream, []) else openSource stream

end SseEventStream

end Stream

end FileManager.Frontend
