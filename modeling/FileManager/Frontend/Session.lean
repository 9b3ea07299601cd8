/-
A browser's session: its event stream, the events route of the server
(`fm-server`, `routes/events.rs`: `get_events`) and the event bus.

A source that is opened is a request; when the route takes it, it
subscribes to the bus from the id that the request names, and what that
subscription receives is what the connection carries. How much of it has
arrived is up to the network. A connection that is closed takes what has
not arrived with it.
-/
import FileManager.Frontend.EventStream

namespace FileManager.Frontend

open Events (EventEnvelope EventKind SubscriptionEvent)

def developmentSessionId : Events.SessionId := "local-development-session"

/-- The connection of the stream's source. -/
inductive Connection
  | none
  | requested (lastEventId : Option Nat)
  | serving (index arrived : Nat)

/-- `delivered` are the events that have arrived, `dispatched` those that
the listeners were called with; `frames` were asked for and have not come
yet. -/
structure Session (Payload : Type) where
  bus : Events.World Payload
  stream : SseEventStream Payload
  connection : Connection
  frames : Nat
  delivered : List (EventEnvelope Payload)
  dispatched : List (EventEnvelope Payload)

section Session

variable {Payload : Type} (kind : Payload → EventKind)

def Session.new (capacity slots : Nat) : Session Payload where
  bus := Events.World.new capacity slots
  stream := SseEventStream.new
  connection := .none
  frames := 0
  delivered := []
  dispatched := []

/-- An effect of the stream. -/
def perform (session : Session Payload) : Effect Payload → Session Payload
  | .openSource lastEventId => { session with connection := .requested lastEventId }
  | .closeSource => { session with connection := .none }
  | .requestFrame => { session with frames := session.frames + 1 }
  | .dispatch event => { session with dispatched := session.dispatched ++ [event] }
  | .resynchronise => session

/-- The stream after one of its methods, and what that asked for. -/
def Session.after (session : Session Payload)
    (result : SseEventStream Payload × List (Effect Payload)) : Session Payload :=
  result.2.foldl perform { session with stream := result.1 }

/-- An item arrives: an event that no listener was added for is passed
over. -/
def Session.receive (session : Session Payload) : SubscriptionEvent Payload → Session Payload
  | .gap _ _ _ => session.after session.stream.handleGap
  | .event event =>
    let session := { session with delivered := session.delivered ++ [event] }
    if (kind event.payload).eventName ∈ eventTypes then
      session.after (session.stream.handleEvent kind event)
    else session

def Session.next (session : Session Payload) : Option (SubscriptionEvent Payload) :=
  match session.connection with
  | .serving index arrived =>
    match session.bus.subscribers[index]? with
    | some (some subscriber) => subscriber.received[arrived]?
    | _ => none
  | _ => none

inductive Action (Payload : Type)
  /-- Something happens on the bus; the route receives for its connection
  in this way too. -/
  | server (action : Events.Action Payload)
  /-- The route takes the request. -/
  | accept
  | connect
  | close
  /-- The source reports that it is open. -/
  | opened
  | error
  | keepAlive
  | message
  | frame
  | reconnectTimer
  | staleTimer

/-- Whether an action on the bus drops the route's own subscription. -/
def Connection.drops (connection : Connection) : Events.Action Payload → Bool
  | .drop index =>
    match connection with
    | .serving own _ => decide (index = own)
    | _ => false
  | _ => false

def step : Action Payload → Session Payload → Option (Session Payload)
  | .server action, session =>
    if session.connection.drops action then none
    else (Events.step action session.bus).map fun bus => { session with bus := bus }
  | .accept, session =>
    match session.connection with
    | .requested lastEventId =>
      (Events.step (.subscribe developmentSessionId [] true lastEventId) session.bus).map fun bus =>
          { session with
            bus := bus
            connection := .serving session.bus.subscribers.length 0 }
    | _ => none
  | .connect, session => some (session.after session.stream.connect)
  | .close, session => some (session.after session.stream.close)
  | .opened, session =>
    match session.connection with
    | .serving _ _ => some { session with stream := session.stream.handleOpen }
    | _ => none
  | .error, session =>
    match session.connection with
    | .none => none
    | _ => some (session.after session.stream.scheduleReconnect)
  | .keepAlive, session =>
    match session.connection with
    | .serving _ _ => some { session with stream := session.stream.handleActivity }
    | _ => none
  | .message, session =>
    match session.connection, session.next with
    | .serving index arrived, some item =>
      some ({ session with connection := .serving index (arrived + 1) }.receive kind item)
    | _, _ => none
  | .frame, session =>
    if session.frames = 0 then none
    else some ({ session with frames := session.frames - 1 }.after session.stream.flush)
  | .reconnectTimer, session =>
    if session.stream.reconnectTimer then some (session.after session.stream.reconnect)
    else none
  | .staleTimer, session =>
    if session.stream.staleTimer then
      some (session.after { session.stream with staleTimer := false }.scheduleReconnect)
    else none

end Session

end FileManager.Frontend
