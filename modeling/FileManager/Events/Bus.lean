/-
The event bus (`fm-events`, `bus.rs`: `EventBus`, `EventSubscription`).

Publishing and subscribing each hold the bus's lock, so they are single
steps. A `recv` is not: each turn of its loop takes one message from the
live channel, and after a lag the lock is taken anew, so other calls may
come between. The channel itself is tokio's; how many messages it keeps
is a parameter (tokio rounds the capacity up). A subscription holds the
bus, so its channel is never closed.

Payloads are not looked at here and are a parameter. A name of their
kinds (`lib.rs`: `event_name`) is both the one that the SSE route gives
an event and the `type` of its serialized payload.
-/
import FileManager.Lib.Broadcast
import FileManager.Lib.Machine
import FileManager.Lib.Word
import FileManager.Workspaces.Model

namespace FileManager.Events

open Broadcast (Channel)
open Workspaces (WorkspaceId)

-- ==== kinds

/-- The variants of `BackendEventPayload`. -/
inductive EventKind
  | runtimeReady
  | workspaceCreated
  | workspaceRenamed
  | workspaceOpened
  | workspaceClosed
  | workspaceDeleted
  | workspaceLayoutChanged
  | workspaceActivePaneChanged
  | workspaceTabAdded
  | workspaceTabClosed
  | workspaceTabActivated
  | workspaceTabNavigated
  | workspaceTabViewChanged
  | directorySnapshot
  | directoryDelta
  | operationCreated
  | operationProgress
  | operationStateChanged
  | operationConflict
  | operationCompleted
  | operationFailed
  | pluginChanged
  | notificationCreated
  | searchResultsBatch
  | comparisonResultsBatch
  | checksumResultsBatch
  | duplicateResultsReady
  | connectionCreated
  | connectionUpdated
  | connectionStatusChanged
  | connectionDeleted
deriving DecidableEq

/-- `BackendEventPayload::event_name`. -/
def EventKind.eventName : EventKind → String
  | .runtimeReady => "runtime.ready"
  | .workspaceCreated => "workspace.created"
  | .workspaceRenamed => "workspace.renamed"
  | .workspaceOpened => "workspace.opened"
  | .workspaceClosed => "workspace.closed"
  | .workspaceDeleted => "workspace.deleted"
  | .workspaceLayoutChanged => "workspace.layoutChanged"
  | .workspaceActivePaneChanged => "workspace.activePaneChanged"
  | .workspaceTabAdded => "workspace.tabAdded"
  | .workspaceTabClosed => "workspace.tabClosed"
  | .workspaceTabActivated => "workspace.tabActivated"
  | .workspaceTabNavigated => "workspace.tabNavigated"
  | .workspaceTabViewChanged => "workspace.tabViewChanged"
  | .directorySnapshot => "directory.snapshot"
  | .directoryDelta => "directory.delta"
  | .operationCreated => "operation.created"
  | .operationProgress => "operation.progress"
  | .operationStateChanged => "operation.stateChanged"
  | .operationConflict => "operation.conflict"
  | .operationCompleted => "operation.completed"
  | .operationFailed => "operation.failed"
  | .pluginChanged => "plugin.changed"
  | .notificationCreated => "notification.created"
  | .searchResultsBatch => "search.resultsBatch"
  | .comparisonResultsBatch => "comparison.resultsBatch"
  | .checksumResultsBatch => "checksum.resultsBatch"
  | .duplicateResultsReady => "duplicates.resultsReady"
  | .connectionCreated => "connection.created"
  | .connectionUpdated => "connection.updated"
  | .connectionStatusChanged => "connection.statusChanged"
  | .connectionDeleted => "connection.deleted"

-- ==== the events

abbrev SessionId := String

inductive EventAudience
  | global
  | session (id : SessionId)
  | workspace (id : WorkspaceId)

structure EventEnvelope (Payload : Type) where
  eventId : Nat
  timestamp : Nat
  workspaceId : Option WorkspaceId
  payload : Payload
deriving DecidableEq

structure PublishedEvent (Payload : Type) where
  audience : EventAudience
  envelope : EventEnvelope Payload

inductive SubscriptionEvent (Payload : Type)
  | event (envelope : EventEnvelope Payload)
  | gap (lastEventId oldestAvailableId newestAvailableId : Nat)

section Bus

variable {Payload : Type}

-- ==== the bus

/-- `EventBusInner` with its `BusState`. -/
structure EventBus (Payload : Type) where
  capacity : Nat
  nextEventId : Nat
  replay : List (PublishedEvent Payload)
  sender : Channel (PublishedEvent Payload)

/-- `EventBus::new`, with a live channel that keeps `slots` messages. -/
def EventBus.new (capacity slots : Nat) : EventBus Payload where
  capacity := max capacity 1
  nextEventId := 1
  replay := []
  sender := { slots := slots, sent := [] }

/-- The workspace an envelope names. -/
def EventAudience.workspaceId : EventAudience → Option WorkspaceId
  | .workspace id => some id
  | .global => none
  | .session _ => none

/-- The replay buffer with one more event. -/
def pushReplay (capacity : Nat) (replay : List (PublishedEvent Payload))
    (published : PublishedEvent Payload) : List (PublishedEvent Payload) :=
  (if replay.length = capacity then replay.drop 1 else replay) ++ [published]

/-- `EventBus::publish`, to `receivers` live receivers. It panics when the
ids are used up. -/
def EventBus.publish (bus : EventBus Payload) (receivers : Nat) (audience : EventAudience)
    (timestamp : Nat) (payload : Payload) : Option (EventBus Payload × PublishedEvent Payload) :=
  match Word.checkedAdd bus.nextEventId 1 with
  | none => none
  | some nextEventId =>
    let envelope : EventEnvelope Payload :=
      { eventId := bus.nextEventId
        timestamp := timestamp
        workspaceId := audience.workspaceId
        payload := payload }
    let published : PublishedEvent Payload := ⟨audience, envelope⟩
    some ({ bus with
      nextEventId := nextEventId
      replay := pushReplay bus.capacity bus.replay published
      sender := bus.sender.send receivers published }, published)

-- ==== the subscriptions

def canReceive (sessionId : SessionId) (workspaceIds : List WorkspaceId)
    (allWorkspaces : Bool) : EventAudience → Bool
  | .global => true
  | .session target => decide (target = sessionId)
  | .workspace id => allWorkspaces || decide (id ∈ workspaceIds)

/-- `EventSubscription`; `receiver` is its place in the live channel. -/
structure EventSubscription (Payload : Type) where
  sessionId : SessionId
  workspaceIds : List WorkspaceId
  allWorkspaces : Bool
  lastEventId : Nat
  gap : Option (SubscriptionEvent Payload)
  replay : List (PublishedEvent Payload)
  receiver : Nat

def EventSubscription.canReceive (subscription : EventSubscription Payload) :
    EventAudience → Bool :=
  Events.canReceive subscription.sessionId subscription.workspaceIds subscription.allWorkspaces

/-- The ids of the oldest and the newest retained event. -/
def EventBus.replayBounds (bus : EventBus Payload) : Option (Nat × Nat) :=
  match bus.replay.head?, bus.replay.getLast? with
  | some oldest, some newest => some (oldest.envelope.eventId, newest.envelope.eventId)
  | _, _ => none

/-- The gap that a subscription starts with. -/
def EventBus.resumeGap (bus : EventBus Payload) (lastEventId : Option Nat) :
    Option (SubscriptionEvent Payload) :=
  match lastEventId, bus.replayBounds with
  | some last, some (oldest, newest) =>
    if Word.satAdd last 1 < oldest then some (.gap last oldest newest) else none
  | _, _ => none

/-- The events that a subscription starts with. -/
def EventBus.resumeReplay (bus : EventBus Payload) (visible : EventAudience → Bool)
    (lastEventId : Option Nat) : List (PublishedEvent Payload) :=
  match bus.resumeGap lastEventId, lastEventId with
  | none, some last =>
    bus.replay.filter fun published =>
      decide (last < published.envelope.eventId) && visible published.audience
  | _, _ => []

/-- `EventBus::subscribe_inner`. -/
def EventBus.subscribe (bus : EventBus Payload) (sessionId : SessionId)
    (workspaceIds : List WorkspaceId) (allWorkspaces : Bool) (lastEventId : Option Nat) :
    EventSubscription Payload where
  sessionId := sessionId
  workspaceIds := workspaceIds
  allWorkspaces := allWorkspaces
  lastEventId := lastEventId.getD 0
  gap := bus.resumeGap lastEventId
  replay := bus.resumeReplay (canReceive sessionId workspaceIds allWorkspaces) lastEventId
  receiver := bus.sender.subscribe

/-- What one turn of `recv` comes to. -/
inductive Turn (Payload : Type)
  /-- It returns an item. -/
  | item (item : SubscriptionEvent Payload) (subscription : EventSubscription Payload)
  /-- The message is for others, and the loop goes on. -/
  | skip (subscription : EventSubscription Payload)
  /-- The channel reports a lag. -/
  | lagged (subscription : EventSubscription Payload)
  /-- It waits for a message. -/
  | waits

/-- `EventSubscription::recv`, one turn. -/
def EventSubscription.turn (bus : EventBus Payload)
    (subscription : EventSubscription Payload) : Turn Payload :=
  match subscription.gap with
  | some gap => .item gap { subscription with gap := none }
  | none =>
    match subscription.replay with
    | published :: rest =>
      .item (.event published.envelope)
        { subscription with lastEventId := published.envelope.eventId, replay := rest }
    | [] =>
      match bus.sender.recv subscription.receiver with
      | (.empty, _) => .waits
      | (.lagged, next) => .lagged { subscription with receiver := next }
      | (.message published, next) =>
        if subscription.canReceive published.audience then
          .item (.event published.envelope) { subscription with
              lastEventId := published.envelope.eventId, receiver := next }
        else .skip { subscription with receiver := next }

def EventSubscription.liveGap (bus : EventBus Payload) (subscription : EventSubscription Payload) :
    SubscriptionEvent Payload × EventSubscription Payload :=
  let oldest := match bus.replay.head? with
    | some published => published.envelope.eventId
    | none => Word.satAdd subscription.lastEventId 1
  let newest := match bus.replay.getLast? with
    | some published => published.envelope.eventId
    | none => subscription.lastEventId
  (.gap subscription.lastEventId oldest newest,
    { subscription with receiver := bus.sender.subscribe })

-- ==== the runs

/-- A subscription as its owner has it: whether its `recv` is between a lag
and `live_gap`, what it has received, the id it asked to resume from and
the newest id that was issued then. -/
structure Subscriber (Payload : Type) where
  subscription : EventSubscription Payload
  lagged : Bool
  received : List (SubscriptionEvent Payload)
  asked : Option Nat
  issued : Nat

/-- A bus with everything published on it and its subscribers; one that is
dropped leaves its place empty. -/
structure World (Payload : Type) where
  bus : EventBus Payload
  published : List (PublishedEvent Payload)
  subscribers : List (Option (Subscriber Payload))

def World.new (capacity slots : Nat) : World Payload where
  bus := EventBus.new capacity slots
  published := []
  subscribers := []

/-- The receivers of the live channel. -/
def World.receivers (world : World Payload) : Nat := world.subscribers.countP Option.isSome

inductive Action (Payload : Type)
  | publish (audience : EventAudience) (timestamp : Nat) (payload : Payload)
  | subscribe (sessionId : SessionId) (workspaceIds : List WorkspaceId)
      (allWorkspaces : Bool) (lastEventId : Option Nat)
  | recv (index : Nat)
  | liveGap (index : Nat)
  | drop (index : Nat)

/-- One step of a subscriber, and the others as they are. -/
def World.set (world : World Payload) (index : Nat) (subscriber : Option (Subscriber Payload)) :
    World Payload :=
  { world with subscribers := world.subscribers.set index subscriber }

/-- A turn of `recv` by its subscriber. -/
def Subscriber.recv (bus : EventBus Payload) (subscriber : Subscriber Payload) :
    Option (Subscriber Payload) :=
  match subscriber.subscription.turn bus with
  | .item item subscription =>
    some { subscriber with
      subscription := subscription, received := subscriber.received ++ [item] }
  | .skip subscription => some { subscriber with subscription := subscription }
  | .lagged subscription =>
    some { subscriber with subscription := subscription, lagged := true }
  | .waits => none

/-- The rest of a `recv` after a lag. -/
def Subscriber.liveGap (bus : EventBus Payload) (subscriber : Subscriber Payload) :
    Subscriber Payload :=
  let (item, subscription) := subscriber.subscription.liveGap bus
  { subscriber with
    subscription := subscription
    lagged := false
    received := subscriber.received ++ [item] }

def step : Action Payload → World Payload → Option (World Payload)
  | .publish audience timestamp payload, world =>
    match world.bus.publish world.receivers audience timestamp payload with
    | none => none
    | some (bus, published) =>
      some { world with bus := bus, published := world.published ++ [published] }
  | .subscribe sessionId workspaceIds allWorkspaces lastEventId, world =>
    some { world with subscribers := world.subscribers ++
      [some ⟨world.bus.subscribe sessionId workspaceIds allWorkspaces lastEventId,
        false, [], lastEventId, world.bus.nextEventId - 1⟩] }
  | .recv index, world =>
    match world.subscribers[index]? with
    | some (some subscriber) =>
      if subscriber.lagged then none
      else (subscriber.recv world.bus).map fun next => world.set index (some next)
    | _ => none
  | .liveGap index, world =>
    match world.subscribers[index]? with
    | some (some subscriber) =>
      if subscriber.lagged then
        some (world.set index (some (subscriber.liveGap world.bus)))
      else none
    | _ => none
  | .drop index, world =>
    match world.subscribers[index]? with
    | some (some _) => some (world.set index none)
    | _ => none

end Bus

end FileManager.Events
