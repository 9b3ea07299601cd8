/-
Every event that arrives is dispatched once, as long as the stream has a
listener for its kind, its id is a safe integer, and the stream is not
closed while events wait for a frame.

The stream keeps the id of the last event it took, and the route resumes
after it; since a subscription's events rise from where it resumed
(`Follows.rises`), what arrives rises over all connections. What has
arrived is then, kind of event by kind, what was dispatched and what
waits.
-/
import FileManager.Events.Proofs.Delivery
import FileManager.Frontend.Session

namespace FileManager.Frontend

open Machine (Run Free)
open Events (EventEnvelope EventKind SubscriptionEvent Subscriber WorldInv highWater)
open List Session SseEventStream
open SseEventStream (isHighFrequency detachSource reconnect flush)

-- ==== the kinds

/-- The kinds that the stream adds no listener for. -/
def unheard : List EventKind :=
  [.checksumResultsBatch, .duplicateResultsReady, .connectionCreated, .connectionUpdated,
    .connectionStatusChanged, .connectionDeleted]

theorem eventName_mem_eventTypes (kind : EventKind) :
    kind.eventName ∈ eventTypes ↔ kind ∉ unheard := by
  cases kind <;> simp [EventKind.eventName, eventTypes, unheard]

theorem eventName_mem_knownEventTypes (kind : EventKind) :
    kind.eventName ∈ knownEventTypes ↔ kind ∉ unheard :=
  eventName_mem_eventTypes kind

section Dispatch

variable {Payload : Type} {kind : Payload → EventKind} {session session' : Session Payload}
  {event : EventEnvelope Payload} {bus : Events.World Payload} {index arrived : Nat}
  {item : SubscriptionEvent Payload}

-- ==== the statement

/-- What was dispatched of what arrived. -/
structure DispatchedOnce (kind : Payload → EventKind) (session : Session Payload) : Prop where
  /-- No event arrives twice. -/
  distinct : session.delivered.Pairwise fun event after => event.eventId < after.eventId
  /-- Events of low frequency are dispatched as they arrive. -/
  immediate :
    (session.dispatched.filter fun event => !isHighFrequency kind event)
      = session.delivered.filter fun event => !isHighFrequency kind event
  /-- The others are dispatched in order, and the rest of them waits. -/
  frequent :
    (session.dispatched.filter fun event => isHighFrequency kind event)
        ++ session.stream.queued
      = session.delivered.filter fun event => isHighFrequency kind event
  /-- What waits has a frame to come. -/
  waiting : session.stream.queued ≠ [] → 0 < session.frames
  /-- A stream does not resume after an event that was dropped. -/
  resume : ∀ last, session.stream.lastEventId = some last →
    ∀ event ∈ session.delivered, event ∉ session.dispatched → event ∉ session.stream.queued →
      last ≤ event.eventId

/-- A step that loses nothing: the event that arrives is one that the
stream listens for, and a stream that is closed has nothing waiting. -/
def Heard (kind : Payload → EventKind) (session : Session Payload) : Action Payload → Prop
  | .message => ∀ event, session.next = some (.event event) →
      kind event.payload ∉ unheard ∧ event.eventId ≤ maxSafeInteger
  | .close => session.stream.queued = []
  | _ => True

instance (kind : Payload → EventKind) (session : Session Payload) (action : Action Payload) :
    Decidable (Heard kind session action) :=
  match action with
  | .message =>
    match hnext : session.next with
    | some (.event event) =>
      decidable_of_iff (kind event.payload ∉ unheard ∧ event.eventId ≤ maxSafeInteger)
        ⟨fun h _ heq => by cases hnext.symm.trans heq; exact h, fun h => h event hnext⟩
    | some (.gap _ _ _) => isTrue fun _ heq => by cases hnext.symm.trans heq
    | none => isTrue fun _ heq => by cases hnext.symm.trans heq
  | .close => decidable_of_iff (session.stream.queued.isEmpty = true) isEmpty_iff
  | .server _ => isTrue trivial
  | .accept => isTrue trivial
  | .connect => isTrue trivial
  | .opened => isTrue trivial
  | .error => isTrue trivial
  | .keepAlive => isTrue trivial
  | .frame => isTrue trivial
  | .reconnectTimer => isTrue trivial
  | .staleTimer => isTrue trivial

-- ==== the invariant

/-- What the connection carries is above what has arrived. -/
def Connected (bus : Events.World Payload) (lastEventId : Option Nat)
    (delivered : List (EventEnvelope Payload)) : Connection → Prop
  | .none => True
  | .requested last => last = lastEventId
  | .serving index arrived =>
    ∃ subscriber, bus.subscribers[index]? = some (some subscriber) ∧ subscriber.Resumes
      ∧ arrived ≤ subscriber.received.length
      ∧ ∀ event ∈ delivered,
        event.eventId ≤ highWater subscriber.start (subscriber.received.take arrived)

structure SessionInv (kind : Payload → EventKind) (session : Session Payload) : Prop where
  world : WorldInv session.bus
  distinct : session.delivered.Pairwise fun event after => event.eventId < after.eventId
  immediate :
    (session.dispatched.filter fun event => !isHighFrequency kind event)
      = session.delivered.filter fun event => !isHighFrequency kind event
  frequent :
    (session.dispatched.filter fun event => isHighFrequency kind event)
        ++ session.stream.queued
      = session.delivered.filter fun event => isHighFrequency kind event
  pending : session.stream.queued ≠ [] → session.stream.framePending = true
  frames : session.stream.framePending = true → 0 < session.frames
  newest : session.stream.lastEventId = session.delivered.getLast?.map EventEnvelope.eventId
  issued : ∀ event ∈ session.delivered, event.eventId < session.bus.bus.nextEventId
  connected : Connected session.bus session.stream.lastEventId session.delivered
    session.connection

theorem SessionInv.eventId_le (hinv : SessionInv kind session) {last : Nat}
    (hlast : session.stream.lastEventId = some last) (hevent : event ∈ session.delivered) :
    event.eventId ≤ last := by
  rw [hinv.newest] at hlast
  obtain ⟨newest, hnewest, rfl⟩ := Option.map_eq_some_iff.mp hlast
  obtain ⟨before, hbefore⟩ := List.getLast?_eq_some_iff.mp hnewest
  have hdistinct := hinv.distinct
  rw [hbefore] at hevent hdistinct
  rcases mem_append.mp hevent with hold | hsame
  · exact Nat.le_of_lt ((pairwise_append.mp hdistinct).2.2 event hold newest (by simp))
  · rw [mem_singleton.mp hsame]

theorem SessionInv.dispatchedOnce (hinv : SessionInv kind session) :
    DispatchedOnce kind session := by
  refine ⟨hinv.distinct, hinv.immediate, hinv.frequent,
    fun hsome => hinv.frames (hinv.pending hsome), ?_⟩
  intro last _ event hevent hnot hqueued
  -- every event that arrived was dispatched or waits
  exfalso
  by_cases hhigh : isHighFrequency kind event = true
  · have hmem := mem_filter.mpr ⟨hevent, hhigh⟩
    rw [← hinv.frequent] at hmem
    rcases mem_append.mp hmem with hdone | hwaits
    · exact hnot (mem_of_mem_filter hdone)
    · exact hqueued hwaits
  · have hmem : event ∈ session.delivered.filter
        fun event => !isHighFrequency kind event :=
      mem_filter.mpr ⟨hevent, by simp [hhigh]⟩
    rw [← hinv.immediate] at hmem
    exact hnot (mem_of_mem_filter hmem)

theorem sessionInv_new (capacity slots : Nat) : SessionInv kind (new capacity slots) := by
  refine ⟨Events.worldInv_new capacity slots, List.Pairwise.nil, rfl, rfl, ?_, ?_, rfl, ?_, trivial⟩
  · intro hne
    exact absurd rfl hne
  · intro hpending
    cases hpending
  · intro event hevent
    cases hevent

-- ==== what moves no event

/-- A method that leaves what waits and the last id alone. -/
structure Quiet (stream : SseEventStream Payload)
    (result : SseEventStream Payload × List (Effect Payload)) : Prop where
  queued : result.1.queued = stream.queued
  lastEventId : result.1.lastEventId = stream.lastEventId
  pending : stream.queued ≠ [] → result.1.framePending = stream.framePending
  frames : result.1.framePending = true → stream.framePending = true
  effects : result.2 = [] ∨ result.2 = [.openSource stream.lastEventId]
    ∨ result.2 = [.closeSource] ∨ result.2 = [.resynchronise]

theorem SessionInv.after (hinv : SessionInv kind session)
    {result : SseEventStream Payload × List (Effect Payload)}
    (hquiet : Quiet session.stream result) : SessionInv kind (session.after result) := by
  have hfrequent := hinv.frequent
  rw [← hquiet.queued] at hfrequent
  have hpending : result.1.queued ≠ [] → result.1.framePending = true := by
    intro hne
    rw [hquiet.queued] at hne
    rw [hquiet.pending hne]
    exact hinv.pending hne
  have hframes := fun h => hinv.frames (hquiet.frames h)
  have hnewest := hquiet.lastEventId.trans hinv.newest
  have hconnected := hinv.connected
  rw [← hquiet.lastEventId] at hconnected
  unfold Session.after
  rcases hquiet.effects with heffects | heffects | heffects | heffects <;> rw [heffects]
  · exact ⟨hinv.world, hinv.distinct, hinv.immediate, hfrequent, hpending, hframes, hnewest,
      hinv.issued, hconnected⟩
  · exact ⟨hinv.world, hinv.distinct, hinv.immediate, hfrequent, hpending, hframes, hnewest,
      hinv.issued, hquiet.lastEventId.symm⟩
  · exact ⟨hinv.world, hinv.distinct, hinv.immediate, hfrequent, hpending, hframes, hnewest,
      hinv.issued, trivial⟩
  · exact ⟨hinv.world, hinv.distinct, hinv.immediate, hfrequent, hpending, hframes, hnewest,
      hinv.issued, hconnected⟩

section Methods

variable {stream : SseEventStream Payload}

theorem quiet_connect : Quiet stream stream.connect := by
  unfold connect
  split
  case isTrue => exact ⟨rfl, rfl, fun _ => rfl, id, .inl rfl⟩
  case isFalse => exact ⟨rfl, rfl, fun _ => rfl, id, .inr (.inl rfl)⟩

theorem quiet_detachSource : Quiet stream stream.detachSource := by
  unfold detachSource
  split
  case isTrue => exact ⟨rfl, rfl, fun _ => rfl, id, .inr (.inr (.inl rfl))⟩
  case isFalse => exact ⟨rfl, rfl, fun _ => rfl, id, .inl rfl⟩

theorem quiet_close (hempty : stream.queued = []) : Quiet stream stream.close := by
  have hdetach := @quiet_detachSource _ { stream with
    closed := true, reconnectTimer := false, staleTimer := false }
  unfold close
  refine ⟨hempty.symm, hdetach.lastEventId, fun hne => absurd hempty hne, ?_, hdetach.effects⟩
  intro hpending
  cases hpending

theorem quiet_scheduleReconnect : Quiet stream stream.scheduleReconnect := by
  unfold scheduleReconnect
  split
  case isTrue => exact ⟨rfl, rfl, fun _ => rfl, id, .inl rfl⟩
  case isFalse =>
    have hdetach := @quiet_detachSource _ { stream with staleTimer := false }
    exact ⟨hdetach.queued, hdetach.lastEventId, hdetach.pending, hdetach.frames, hdetach.effects⟩

theorem quiet_reconnect : Quiet stream stream.reconnect := by
  unfold reconnect
  simp only
  split
  case isTrue => exact ⟨rfl, rfl, fun _ => rfl, id, .inl rfl⟩
  case isFalse => exact ⟨rfl, rfl, fun _ => rfl, id, .inr (.inl rfl)⟩

theorem quiet_handleGap : Quiet stream stream.handleGap :=
  ⟨rfl, rfl, fun _ => rfl, id, .inr (.inr (.inr rfl))⟩

end Methods

-- ==== the server

theorem SessionInv.server (hinv : SessionInv kind session) {action : Events.Action Payload}
    (hkept : session.connection.drops action = false)
    (hstep : Events.step action session.bus = some bus) :
    SessionInv kind { session with bus := bus } := by
  refine ⟨Events.worldInv_step hstep hinv.world, hinv.distinct, hinv.immediate, hinv.frequent,
    hinv.pending, hinv.frames, hinv.newest, ?_, ?_⟩
  · intro event hevent
    exact Nat.lt_of_lt_of_le (hinv.issued event hevent) (Events.nextEventId_le_of_step hstep)
  · have hconnected := hinv.connected
    cases hconnection : session.connection with
    | none => trivial
    | requested last =>
      rw [hconnection] at hconnected
      exact hconnected
    | serving index arrived =>
      rw [hconnection] at hconnected hkept
      obtain ⟨subscriber, hget, hresumes, hlength, habove⟩ := hconnected
      have hne : action ≠ .drop index := by
        intro heq
        subst heq
        simp [Connection.drops] at hkept
      obtain ⟨next, hnext, hasked, hissued, more, hmore⟩ := Events.subscriber_of_step hstep hne hget
      refine ⟨next, hnext, ?_, ?_, ?_⟩
      · unfold Subscriber.Resumes
        rw [hasked, hissued]
        exact hresumes
      · rw [← hmore, length_append]
        omega
      · have hstart : next.start = subscriber.start := by
          unfold Subscriber.start
          rw [hasked, hissued]
        rw [hstart, ← hmore, take_append_of_le_length hlength]
        exact habove

theorem SessionInv.accept (hinv : SessionInv kind session) {last : Option Nat}
    (hconnection : session.connection = .requested last)
    (hstep : Events.step (.subscribe developmentSessionId [] true last) session.bus = some bus) :
    SessionInv kind { session with
      bus := bus, connection := .serving session.bus.subscribers.length 0 } := by
  have hlast : last = session.stream.lastEventId := by
    have hconnected := hinv.connected
    rw [hconnection] at hconnected
    exact hconnected
  refine ⟨Events.worldInv_step hstep hinv.world, hinv.distinct, hinv.immediate, hinv.frequent,
    hinv.pending, hinv.frames, hinv.newest, ?_, ?_⟩
  · intro event hevent
    exact Nat.lt_of_lt_of_le (hinv.issued event hevent) (Events.nextEventId_le_of_step hstep)
  · cases hstep
    refine ⟨_, List.getElem?_concat_length, ?_, le_rfl, ?_⟩
    · intro asked hasked
      have hsome : session.stream.lastEventId = some asked := hlast.symm.trans hasked
      rw [hinv.newest] at hsome
      obtain ⟨newest, hnewest, heq⟩ := Option.map_eq_some_iff.mp hsome
      have := hinv.issued newest (mem_of_getLast? hnewest)
      show asked ≤ session.bus.bus.nextEventId - 1
      omega
    · intro event hevent
      show event.eventId ≤ last.getD (session.bus.bus.nextEventId - 1)
      cases hsome : last with
      | some asked => exact hinv.eventId_le (hlast.symm.trans hsome) hevent
      | none =>
        have := hinv.issued event hevent
        show event.eventId ≤ session.bus.bus.nextEventId - 1
        omega

-- ==== what arrives

theorem parseBackendEvent_of_heard (hkind : kind event.payload ∉ unheard)
    (hsafe : event.eventId ≤ maxSafeInteger) : parseBackendEvent kind event = some event := by
  unfold parseBackendEvent
  rw [if_neg (Nat.not_lt.mpr hsafe), if_pos ((eventName_mem_knownEventTypes _).mpr hkind)]

theorem next_eq (hconnection : session.connection = .serving index arrived)
    (hnext : session.next = some item) {subscriber : Subscriber Payload}
    (hget : session.bus.subscribers[index]? = some (some subscriber)) :
    subscriber.received.take (arrived + 1) = subscriber.received.take arrived ++ [item]
      ∧ arrived + 1 ≤ subscriber.received.length := by
  unfold Session.next at hnext
  rw [hconnection] at hnext
  simp only [hget] at hnext
  obtain ⟨hlt, rfl⟩ := List.getElem?_eq_some_iff.mp hnext
  refine ⟨?_, hlt⟩
  rw [← take_concat_get hlt, concat_eq_append]

/-- The session with an event that has arrived and is not yet handled. -/
structure Arrives (session : Session Payload) (event : EventEnvelope Payload) : Prop where
  above : ∀ old ∈ session.delivered, old.eventId < event.eventId
  issued : event.eventId < session.bus.bus.nextEventId

theorem SessionInv.arrives (hinv : SessionInv kind session)
    (hconnection : session.connection = .serving index arrived)
    (hnext : session.next = some (.event event)) :
    Arrives session event
      ∧ Connected session.bus (some event.eventId) (session.delivered ++ [event])
        (.serving index (arrived + 1)) := by
  have hconnected := hinv.connected
  rw [hconnection] at hconnected
  obtain ⟨subscriber, hget, hresumes, -, habove⟩ := hconnected
  obtain ⟨htake, hlength⟩ := next_eq hconnection hnext hget
  have hfollows := hinv.world.follows subscriber (mem_of_getElem? hget) hresumes
  have hbefore : subscriber.received.take arrived ++ [.event event] <+: subscriber.received := by
    rw [← htake]
    exact take_prefix _ _
  have hrises := hfollows.rises hinv.world.retains hbefore
  have hlt : ∀ old ∈ session.delivered, old.eventId < event.eventId :=
    fun old hold => Nat.lt_of_le_of_lt (habove old hold) hrises
  refine ⟨⟨hlt, ?_⟩, subscriber, hget, hresumes, hlength, ?_⟩
  · exact hfollows.issued hinv.world.retains hbefore
  · rw [htake, Events.highWater_event]
    intro old hold
    rcases mem_append.mp hold with hbefore | hsame
    · exact Nat.le_of_lt (hlt old hbefore)
    · rw [mem_singleton.mp hsame]

theorem SessionInv.taken (hinv : SessionInv kind session) (harrives : Arrives session event) :
    (session.delivered ++ [event]).Pairwise (fun event after => event.eventId < after.eventId)
      ∧ some event.eventId = (session.delivered ++ [event]).getLast?.map EventEnvelope.eventId
      ∧ ∀ old ∈ session.delivered ++ [event], old.eventId < session.bus.bus.nextEventId := by
  refine ⟨?_, by simp, ?_⟩
  · rw [pairwise_append]
    refine ⟨hinv.distinct, pairwise_singleton _ _, fun old hold new hnew => ?_⟩
    rw [mem_singleton.mp hnew]
    exact harrives.above old hold
  · intro old hold
    rcases mem_append.mp hold with hbefore | hsame
    · exact hinv.issued old hbefore
    · rw [mem_singleton.mp hsame]
      exact harrives.issued

theorem SessionInv.handleEvent (hinv : SessionInv kind session)
    (harrives : Arrives session event) {connection : Connection}
    (hconnected : Connected session.bus (some event.eventId) (session.delivered ++ [event])
      connection) (hkind : kind event.payload ∉ unheard) (hsafe : event.eventId ≤ maxSafeInteger) :
    SessionInv kind (({ session with
      connection := connection, delivered := session.delivered ++ [event] }).after
        (session.stream.handleEvent kind event)) := by
  obtain ⟨hdistinct, hnewest, hissued⟩ := hinv.taken harrives
  unfold SseEventStream.handleEvent
  rw [parseBackendEvent_of_heard hkind hsafe]
  cases hhigh : isHighFrequency kind event with
  | false =>
    simp only [hhigh, Bool.false_eq_true, if_false, Session.after, foldl_cons, foldl_nil]
    refine ⟨hinv.world, hdistinct, ?_, ?_, hinv.pending, hinv.frames, hnewest, hissued, hconnected⟩
    · show (session.dispatched ++ [event]).filter _ = (session.delivered ++ [event]).filter _
      rw [filter_append, filter_append, hinv.immediate]
    · show (session.dispatched ++ [event]).filter _ ++ session.stream.queued
        = (session.delivered ++ [event]).filter _
      rw [filter_append, filter_append, filter_cons_of_neg (by simp [hhigh]),
        filter_nil, append_nil, append_nil]
      exact hinv.frequent
  | true =>
    have himmediate :
        (session.dispatched.filter fun event => !isHighFrequency kind event)
          = (session.delivered ++ [event]).filter
            fun event => !isHighFrequency kind event := by
      rw [hinv.immediate, filter_append]
      simp [hhigh]
    have hfrequent :
        (session.dispatched.filter fun event => isHighFrequency kind event)
            ++ (session.stream.queued ++ [event])
          = (session.delivered ++ [event]).filter
            fun event => isHighFrequency kind event := by
      rw [← append_assoc, hinv.frequent, filter_append]
      simp [hhigh]
    simp only [hhigh, if_true]
    cases hpending : session.stream.framePending with
    | true =>
      simp only [if_true]
      exact ⟨hinv.world, hdistinct, himmediate, hfrequent, fun _ => rfl,
        fun _ => hinv.frames hpending, hnewest, hissued, hconnected⟩
    | false =>
      simp only [Bool.false_eq_true, if_false]
      exact ⟨hinv.world, hdistinct, himmediate, hfrequent, fun _ => rfl,
        fun _ => Nat.succ_pos _, hnewest, hissued, hconnected⟩

theorem SessionInv.message (hinv : SessionInv kind session)
    (hconnection : session.connection = .serving index arrived) (hnext : session.next = some item)
    (hheard : Heard kind session .message) :
    SessionInv kind
      ({ session with connection := .serving index (arrived + 1) }.receive kind item) := by
  cases item with
  | gap last oldest newest =>
    refine SessionInv.after ?_ quiet_handleGap
    refine ⟨hinv.world, hinv.distinct, hinv.immediate, hinv.frequent, hinv.pending, hinv.frames,
      hinv.newest, hinv.issued, ?_⟩
    have hconnected := hinv.connected
    rw [hconnection] at hconnected
    obtain ⟨subscriber, hget, hresumes, -, habove⟩ := hconnected
    obtain ⟨htake, hlength⟩ := next_eq hconnection hnext hget
    have hfollows := hinv.world.follows subscriber (mem_of_getElem? hget) hresumes
    refine ⟨subscriber, hget, hresumes, hlength, fun event hevent => ?_⟩
    rw [htake, Events.highWater_gap]
    refine Nat.le_trans (habove event hevent) (hfollows.gapsRise _ last oldest newest ?_)
    rw [← htake]
    exact take_prefix _ _
  | event event =>
    obtain ⟨hkind, hsafe⟩ := hheard event hnext
    obtain ⟨harrives, hconnected⟩ := hinv.arrives hconnection hnext
    unfold receive
    simp only
    rw [if_pos ((eventName_mem_eventTypes _).mpr hkind)]
    exact hinv.handleEvent harrives hconnected hkind hsafe

-- ==== the frame

theorem foldl_dispatch (events : List (EventEnvelope Payload)) (session : Session Payload) :
    (events.map Effect.dispatch).foldl perform session
      = { session with dispatched := session.dispatched ++ events } := by
  induction events generalizing session with
  | nil => simp
  | cons event rest ih =>
    rw [map_cons, foldl_cons, ih]
    simp [perform]

theorem SessionInv.frame (hinv : SessionInv kind session) :
    SessionInv kind ({ session with frames := session.frames - 1 }.after session.stream.flush) := by
  unfold Session.after flush
  rw [foldl_dispatch]
  -- what waits is of high frequency, so the others are as they were
  have hqueued : ∀ event ∈ session.stream.queued,
      isHighFrequency kind event = true := by
    intro event hevent
    have hmem := mem_append_right
      (session.dispatched.filter fun event => isHighFrequency kind event) hevent
    rw [hinv.frequent] at hmem
    exact (mem_filter.mp hmem).2
  refine ⟨hinv.world, hinv.distinct, ?_, ?_, fun hne => absurd rfl hne, ?_, hinv.newest,
    hinv.issued, hinv.connected⟩
  · have hlow : (session.stream.queued.filter
        fun event => !isHighFrequency kind event) = [] :=
      filter_eq_nil_iff.mpr fun event hevent => by simp [hqueued event hevent]
    simp only [filter_append, hinv.immediate, hlow, append_nil]
  · simp only [filter_append, append_nil]
    rw [filter_eq_self.mpr hqueued]
    exact hinv.frequent
  · intro hpending
    cases hpending

-- ==== the runs

theorem sessionInv_step {action : Action Payload} (hheard : Heard kind session action)
    (hstep : step kind action session = some session') (hinv : SessionInv kind session) :
    SessionInv kind session' := by
  cases action with
  | server action =>
    simp only [step] at hstep
    obtain ⟨hkept, hstep⟩ := Fallible.passed hstep nofun
    rw [Bool.not_eq_true] at hkept
    obtain ⟨bus, hbus, rfl⟩ := Option.map_eq_some_iff.mp hstep
    exact hinv.server hkept hbus
  | accept =>
    simp only [step] at hstep
    split at hstep
    case h_2 => cases hstep
    case h_1 last hconnection =>
      obtain ⟨bus, hbus, rfl⟩ := Option.map_eq_some_iff.mp hstep
      exact hinv.accept hconnection hbus
  | connect =>
    cases hstep
    exact hinv.after quiet_connect
  | close =>
    cases hstep
    exact hinv.after (quiet_close hheard)
  | opened =>
    simp only [step] at hstep
    split at hstep
    case h_2 => cases hstep
    case h_1 =>
      cases hstep
      exact @SessionInv.after _ _ _ hinv (session.stream.handleOpen, [])
        ⟨rfl, rfl, fun _ => rfl, id, .inl rfl⟩
  | error =>
    simp only [step] at hstep
    split at hstep
    case h_1 => cases hstep
    case h_2 =>
      cases hstep
      exact hinv.after quiet_scheduleReconnect
  | keepAlive =>
    simp only [step] at hstep
    split at hstep
    case h_2 => cases hstep
    case h_1 =>
      cases hstep
      exact @SessionInv.after _ _ _ hinv (session.stream.handleActivity, [])
        ⟨rfl, rfl, fun _ => rfl, id, .inl rfl⟩
  | message =>
    simp only [step] at hstep
    split at hstep
    case h_2 => cases hstep
    case h_1 index arrived item hconnection hnext =>
      cases hstep
      exact hinv.message hconnection hnext hheard
  | frame =>
    simp only [step] at hstep
    obtain ⟨-, hstep⟩ := Fallible.passed hstep nofun
    cases hstep
    exact hinv.frame
  | reconnectTimer =>
    simp only [step] at hstep
    split at hstep
    case isFalse => cases hstep
    case isTrue =>
      cases hstep
      exact hinv.after quiet_reconnect
  | staleTimer =>
    simp only [step] at hstep
    split at hstep
    case isFalse => cases hstep
    case isTrue =>
      cases hstep
      have hquiet := @quiet_scheduleReconnect _ { session.stream with staleTimer := false }
      exact hinv.after ⟨hquiet.queued, hquiet.lastEventId, hquiet.pending, hquiet.frames,
        hquiet.effects⟩

/-- Every event that arrives is dispatched once, in order among those of
its class, as long as the stream is not closed while some wait; it
listens for all kinds but six. -/
theorem events_dispatched_once (kind : Payload → EventKind) (capacity slots : Nat)
    {acts : List (Action Payload)}
    (hrun : Run (step kind) (Heard kind) (new capacity slots) acts session) :
    DispatchedOnce kind session ∧ ∀ variant : EventKind,
        (variant.eventName ∈ eventTypes ∧ variant.eventName ∈ knownEventTypes)
          ↔ variant ∉ unheard := by
  refine ⟨(hrun.invariant (sessionInv_new capacity slots)
    fun _ hheard hstep hinv => sessionInv_step hheard hstep hinv).dispatchedOnce, ?_⟩
  intro variant
  rw [eventName_mem_eventTypes, eventName_mem_knownEventTypes, and_self]

end Dispatch

-- ==== two sessions

/-- A progress event that arrives and is dispatched with the next frame. -/
def progressSession : List (Action EventKind) :=
  [.connect, .accept, .server (.publish .global 0 .operationProgress), .server (.recv 0),
    .message, .frame]

theorem events_dispatched_once_one_frame :
    ∃ session, Run (step id) (Heard id) (new 4 4) progressSession session
      ∧ session.dispatched = [⟨1, 0, none, .operationProgress⟩]
      ∧ DispatchedOnce id session := by
  have hrun := Run.of_guardedRun (show Machine.guardedRun (step id) (Heard id)
    (new 4 4) progressSession = some _ from rfl)
  exact ⟨_, hrun, rfl, (events_dispatched_once id 4 4 hrun).1⟩

/-- A batch of checksums, and a progress event that waits when the stream
is closed. -/
def lossySession : List (Action EventKind) :=
  [.connect, .accept, .server (.publish .global 0 .checksumResultsBatch), .server (.recv 0),
    .message, .server (.publish .global 0 .operationProgress), .server (.recv 0), .message,
    .close, .frame]

/-- Neither is dispatched, and the stream would resume after both. -/
theorem checksums_not_dispatched :
    EventKind.checksumResultsBatch.eventName ∉ eventTypes
      ∧ ∃ session, Run (step id) Free (new 4 4) lossySession session ∧ session.delivered
          = [⟨1, 0, none, .checksumResultsBatch⟩, ⟨2, 0, none, .operationProgress⟩]
        ∧ session.dispatched = [] ∧ session.stream.lastEventId = some 2
        ∧ ¬ DispatchedOnce id session := by
  refine ⟨by decide, ?_⟩
  have hrun := Run.of_run (show Machine.run (step id) (new 4 4) lossySession = some _
    from rfl)
  refine ⟨_, hrun, rfl, rfl, rfl, fun h => ?_⟩
  exact absurd h.immediate (by decide)

end FileManager.Frontend
