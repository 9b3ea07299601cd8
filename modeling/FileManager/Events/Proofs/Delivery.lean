/-
The event bus loses nothing silently: between two gaps a subscriber
receives, in order and from the first, what was published for it since
the newest event that the gap before named.

# What is still to come

The invariant says of each subscriber that what it has received since its
last gap, then what is left of its copy of the replay buffer, then what
it has not read of the live channel, is everything published for it since
that gap. A receiver is told of a lag before it can read past the loss,
and the gap it reports starts the equation anew at the newest event.
-/
import FileManager.Events.Bus
import FileManager.Lib.Fallible

namespace FileManager.Events

open Machine (Run Free)
open List Nat Word EventBus World
open Broadcast.Channel (length_send_le unread_subscribe recv_message recv_lagged recv_empty)
open EventBus (resumeGap resumeReplay)

section Delivery

variable {Payload : Type} {event : PublishedEvent Payload}
  {rest events published : List (PublishedEvent Payload)}
  {id receivers timestamp last oldest newest capacity index : Nat} {bus bus' : EventBus Payload}
  {audience : EventAudience} {payload : Payload} {envelope : EventEnvelope Payload}
  {before : List (SubscriptionEvent Payload)} {world world' : World Payload}
  {action : Action Payload}

-- ==== what is seen

/-- The envelopes of the events for an audience. -/
def seen (visible : EventAudience → Bool) (events : List (PublishedEvent Payload)) :
    List (EventEnvelope Payload) :=
  (events.filter fun published => visible published.audience).map PublishedEvent.envelope

/-- The events for an audience after an id. -/
def visibleAfter (visible : EventAudience → Bool) (events : List (PublishedEvent Payload))
    (id : Nat) : List (EventEnvelope Payload) :=
  seen visible (events.filter fun published => id < published.envelope.eventId)

/-- The newest id that the last gap named, or the start, and the events
received since. -/
def sinceGap (start : Nat) (received : List (SubscriptionEvent Payload)) :
    Nat × List (EventEnvelope Payload) :=
  received.foldl (fun since item =>
    match item with
    | .event envelope => (since.1, since.2 ++ [envelope])
    | .gap _ _ newest => (newest, [])) (start, [])

/-- The id that the next event has to exceed. -/
def highWater (start : Nat) (received : List (SubscriptionEvent Payload)) : Nat :=
  match (sinceGap start received).2.getLast? with
  | some envelope => envelope.eventId
  | none => (sinceGap start received).1

/-- The id that a subscriber's events start after: the one it asked to
resume from, or the newest when it subscribed. -/
def Subscriber.start (subscriber : Subscriber Payload) : Nat :=
  subscriber.asked.getD subscriber.issued

/-- What a subscriber may see. -/
def Subscriber.visible (subscriber : Subscriber Payload) : EventAudience → Bool :=
  subscriber.subscription.canReceive

@[simp] theorem seen_append (visible : EventAudience → Bool)
    (first second : List (PublishedEvent Payload)) :
    seen visible (first ++ second) = seen visible first ++ seen visible second := by
  simp [seen]

@[simp] theorem seen_nil (visible : EventAudience → Bool) :
    seen visible ([] : List (PublishedEvent Payload)) = [] := rfl

variable {visible : EventAudience → Bool}

theorem seen_cons_of_visible (h : visible event.audience = true) :
    seen visible (event :: rest) = event.envelope :: seen visible rest := by
  simp [seen, h]

theorem seen_cons_of_not_visible (h : visible event.audience = false) :
    seen visible (event :: rest) = seen visible rest := by
  simp [seen, h]

theorem visibleAfter_append (visible : EventAudience → Bool)
    (first second : List (PublishedEvent Payload)) (id : Nat) :
    visibleAfter visible (first ++ second) id
      = visibleAfter visible first id ++ visibleAfter visible second id := by
  simp [visibleAfter]

theorem visibleAfter_concat (hid : id < event.envelope.eventId) :
    visibleAfter visible (events ++ [event]) id
      = visibleAfter visible events id ++ seen visible [event] := by
  rw [visibleAfter_append]
  simp [visibleAfter, hid]

theorem visibleAfter_eq_nil (h : ∀ event ∈ events, event.envelope.eventId ≤ id) :
    visibleAfter visible events id = [] := by
  have hnone : (events.filter fun published => id < published.envelope.eventId) = [] := by
    rw [filter_eq_nil_iff]
    intro event hevent hlt
    rw [decide_eq_true_eq] at hlt
    exact absurd (h event hevent) (by omega)
  unfold visibleAfter
  rw [hnone, seen_nil]

@[simp] theorem sinceGap_nil (start : Nat) :
    sinceGap start ([] : List (SubscriptionEvent Payload)) = (start, []) := rfl

@[simp] theorem sinceGap_event (start : Nat) (received : List (SubscriptionEvent Payload))
    (envelope : EventEnvelope Payload) :
    sinceGap start (received ++ [.event envelope])
      = ((sinceGap start received).1, (sinceGap start received).2 ++ [envelope]) := by
  simp [sinceGap]

@[simp] theorem sinceGap_gap (start : Nat) (received : List (SubscriptionEvent Payload))
    (last oldest newest : Nat) :
    sinceGap start (received ++ [.gap last oldest newest]) = (newest, []) := by
  simp [sinceGap]

@[simp] theorem highWater_nil (start : Nat) :
    highWater start ([] : List (SubscriptionEvent Payload)) = start := rfl

@[simp] theorem highWater_event (start : Nat) (received : List (SubscriptionEvent Payload))
    (envelope : EventEnvelope Payload) :
    highWater start (received ++ [.event envelope]) = envelope.eventId := by
  simp [highWater]

@[simp] theorem highWater_gap (start : Nat) (received : List (SubscriptionEvent Payload))
    (last oldest newest : Nat) :
    highWater start (received ++ [.gap last oldest newest]) = newest := by
  simp [highWater]

-- ==== the statement

/-- What a subscriber has received of what was published. -/
structure LosesNothing (bus : EventBus Payload) (published : List (PublishedEvent Payload))
    (subscriber : Subscriber Payload) : Prop where
  /-- Events are published with rising ids. -/
  rising : published.Pairwise fun event after =>
    event.envelope.eventId < after.envelope.eventId
  /-- At any time, what came since the last gap are the first of the
  visible events after it. -/
  inOrder : ∀ before, before <+: subscriber.received →
    (sinceGap subscriber.start before).2
      <+: visibleAfter subscriber.visible published (sinceGap subscriber.start before).1
  /-- A gap names an event that was published as its newest. -/
  gaps : ∀ last oldest newest, .gap last oldest newest ∈ subscriber.received →
    ∃ event ∈ published, event.envelope.eventId = newest
  /-- When there is nothing to receive, all of them came. -/
  complete : subscriber.lagged = false → subscriber.subscription.turn bus = .waits →
    (sinceGap subscriber.start subscriber.received).2 = visibleAfter subscriber.visible published
        (sinceGap subscriber.start subscriber.received).1

-- ==== the invariant

/-- The bus and what was published on it. -/
structure Retains (bus : EventBus Payload) (published : List (PublishedEvent Payload)) :
    Prop where
  room : 1 ≤ bus.capacity
  next : 1 ≤ bus.nextEventId
  most : bus.nextEventId ≤ max
  below : ∀ event ∈ published, event.envelope.eventId < bus.nextEventId
  rising : published.Pairwise fun event after =>
    event.envelope.eventId < after.envelope.eventId
  newest : ∀ event, published.getLast? = some event →
    event.envelope.eventId + 1 = bus.nextEventId
  retained : bus.replay <:+ published
  kept : published ≠ [] → bus.replay ≠ []
  sent : bus.sender.sent ≠ [] → published ≠ []

inductive Ahead (bus : EventBus Payload) (published : List (PublishedEvent Payload))
    (subscriber : Subscriber Payload) : Prop
  /-- The gap it starts with, and then what the channel has. -/
  | owing (last oldest newest : Nat) :
      subscriber.subscription.gap = some (.gap last oldest newest) →
      subscriber.lagged = false → subscriber.received = [] →
      subscriber.start ≤ newest → subscriber.subscription.replay = [] →
      (∃ event ∈ published, event.envelope.eventId = newest) →
      seen subscriber.visible (bus.sender.unread subscriber.subscription.receiver)
        = visibleAfter subscriber.visible published newest →
      Ahead bus published subscriber
  /-- The replayed events, and then what the channel has. -/
  | current :
      subscriber.subscription.gap = none → subscriber.lagged = false →
      (sinceGap subscriber.start subscriber.received).2
          ++ (subscriber.subscription.replay.map PublishedEvent.envelope
            ++ seen subscriber.visible (bus.sender.unread subscriber.subscription.receiver))
        = visibleAfter subscriber.visible published
          (sinceGap subscriber.start subscriber.received).1 →
      Ahead bus published subscriber
  /-- A gap that it is about to report. -/
  | lagging :
      subscriber.subscription.gap = none → subscriber.lagged = true →
      subscriber.subscription.replay = [] → published ≠ [] →
      Ahead bus published subscriber

/-- A subscriber that resumed from an id that was issued. -/
def Subscriber.Resumes (subscriber : Subscriber Payload) : Prop :=
  ∀ last, subscriber.asked = some last → last ≤ subscriber.issued

structure Follows (bus : EventBus Payload) (published : List (PublishedEvent Payload))
    (subscriber : Subscriber Payload) : Prop where
  place : subscriber.subscription.receiver ≤ bus.sender.sent.length
  since : (sinceGap subscriber.start subscriber.received).1 < bus.nextEventId
  inOrder : ∀ before, before <+: subscriber.received →
    (sinceGap subscriber.start before).2
      <+: visibleAfter subscriber.visible published (sinceGap subscriber.start before).1
  gaps : ∀ last oldest newest, .gap last oldest newest ∈ subscriber.received →
    ∃ event ∈ published, event.envelope.eventId = newest
  gapsRise : ∀ before last oldest newest,
    before ++ [.gap last oldest newest] <+: subscriber.received →
    highWater subscriber.start before ≤ newest
  ahead : Ahead bus published subscriber

structure WorldInv (world : World Payload) : Prop where
  retains : Retains world.bus world.published
  follows : ∀ subscriber, some subscriber ∈ world.subscribers → subscriber.Resumes →
    Follows world.bus world.published subscriber

-- ==== publish

variable {subscriber next : Subscriber Payload}

theorem publish_eq (h : bus.publish receivers audience timestamp payload = some (bus', event)) :
    event.envelope.eventId = bus.nextEventId ∧ bus.nextEventId + 1 ≤ max ∧ bus' = { bus with
        nextEventId := bus.nextEventId + 1
        replay := pushReplay bus.capacity bus.replay event
        sender := bus.sender.send receivers event } := by
  unfold publish at h
  split at h
  case h_1 => cases h
  case h_2 id hid =>
    have hmost : bus.nextEventId + 1 ≤ max := by
      unfold checkedAdd at hid
      split at hid
      case isTrue hle => exact hle
      case isFalse => cases hid
    rw [checkedAdd_eq hid] at h
    injection h with h
    injection h with hbus hevent
    subst hbus hevent
    exact ⟨rfl, hmost, rfl⟩

theorem pushReplay_isSuffix {replay : List (PublishedEvent Payload)}
    (h : replay <:+ published) : pushReplay capacity replay event <:+ published ++ [event] := by
  unfold pushReplay
  obtain ⟨before, rfl⟩ := h
  split
  case isTrue =>
    refine ⟨before ++ replay.take 1, ?_⟩
    rw [append_assoc, ← append_assoc (replay.take 1), take_append_drop, append_assoc]
  case isFalse => exact ⟨before, by rw [append_assoc]⟩

theorem Retains.publish (hretains : Retains bus published)
    (h : bus.publish receivers audience timestamp payload = some (bus', event)) :
    Retains bus' (published ++ [event]) := by
  obtain ⟨hid, hmost, rfl⟩ := publish_eq h
  refine ⟨hretains.room, by simp, hmost, ?_, ?_, ?_, pushReplay_isSuffix hretains.retained, ?_, ?_⟩
  · intro other hother
    rcases mem_append.mp hother with hold | hnew
    · have := hretains.below other hold
      simp only
      omega
    · rw [mem_singleton.mp hnew, hid]
      simp
  · rw [pairwise_append]
    refine ⟨hretains.rising, pairwise_singleton _ _, fun other hother new hnew => ?_⟩
    rw [mem_singleton.mp hnew, hid]
    exact hretains.below other hother
  · intro last hlast
    rw [List.getLast?_concat] at hlast
    injection hlast with hlast
    rw [← hlast, hid]
  · intro _
    simp [pushReplay]
  · intro _
    simp

theorem Ahead.publish (hretains : Retains bus published)
    (hfollows : Follows bus published subscriber) (hreceivers : receivers ≠ 0)
    (h : bus.publish receivers audience timestamp payload = some (bus', event)) :
    Ahead bus' (published ++ [event]) subscriber := by
  obtain ⟨hid, -, rfl⟩ := publish_eq h
  have hunread := @Broadcast.Channel.unread_send _ bus.sender _ receivers event hreceivers
    hfollows.place
  cases hfollows.ahead with
  | owing last oldest newest hgap hlagged hreceived hstart hreplay hnewest hahead =>
    obtain ⟨named, hnamed, heq⟩ := hnewest
    refine .owing last oldest newest hgap hlagged hreceived hstart hreplay
      ⟨named, mem_append_left _ hnamed, heq⟩ ?_
    have hlt : newest < event.envelope.eventId := by
      have := hretains.below named hnamed
      omega
    simp only [hunread, seen_append, hahead]
    rw [visibleAfter_concat hlt]
  | current hgap hlagged hahead =>
    refine .current hgap hlagged ?_
    have hlt : (sinceGap subscriber.start subscriber.received).1 < event.envelope.eventId := by
      rw [hid]
      exact hfollows.since
    simp only [hunread, seen_append]
    rw [visibleAfter_concat hlt, ← hahead]
    simp only [append_assoc]
  | lagging hgap hlagged hreplay hsome =>
    exact .lagging hgap hlagged hreplay (by simp)

theorem Follows.publish (hretains : Retains bus published)
    (hfollows : Follows bus published subscriber) (hreceivers : receivers ≠ 0)
    (h : bus.publish receivers audience timestamp payload = some (bus', event)) :
    Follows bus' (published ++ [event]) subscriber := by
  have hahead := Ahead.publish hretains hfollows hreceivers h
  obtain ⟨hid, -, rfl⟩ := publish_eq h
  refine ⟨?_, ?_, ?_, ?_, hfollows.gapsRise, hahead⟩
  · exact le_trans hfollows.place length_send_le
  · exact lt_succ_of_lt hfollows.since
  · intro before hbefore
    rw [visibleAfter_append]
    exact (hfollows.inOrder before hbefore).trans (prefix_append _ _)
  · intro last oldest newest hmem
    obtain ⟨named, hnamed, heq⟩ := hfollows.gaps last oldest newest hmem
    exact ⟨named, mem_append_left _ hnamed, heq⟩

-- ==== subscribe

theorem Retains.visibleAfter_newest (h : Retains bus published) (hid : bus.nextEventId ≤ id + 1) :
    visibleAfter visible published id = [] := by
  refine visibleAfter_eq_nil fun other hother => ?_
  have := h.below other hother
  omega

theorem Retains.getLast_replay (h : Retains bus published) {last : PublishedEvent Payload}
    (hlast : bus.replay.getLast? = some last) :
    last ∈ published ∧ last.envelope.eventId + 1 = bus.nextEventId := by
  obtain ⟨before, rfl⟩ := h.retained
  have hmem : last ∈ bus.replay := mem_of_getLast? hlast
  refine ⟨mem_append_right _ hmem, h.newest last ?_⟩
  rw [List.getLast?_append, hlast]
  rfl

theorem Retains.visibleAfter_replay (h : Retains bus published) {oldest : PublishedEvent Payload}
    (holdest : bus.replay.head? = some oldest) (hid : oldest.envelope.eventId ≤ id + 1) :
    visibleAfter visible published id = visibleAfter visible bus.replay id := by
  obtain ⟨before, heq⟩ := h.retained
  have hbefore : visibleAfter visible before id = [] := by
    refine visibleAfter_eq_nil fun other hother => ?_
    have hrising := h.rising
    rw [← heq, pairwise_append] at hrising
    have := hrising.2.2 other hother oldest (mem_of_head? holdest)
    omega
  rw [← heq, visibleAfter_append, hbefore, nil_append]

theorem follows_of_gap (hretains : Retains bus published)
    (hasked : subscriber.asked = some last) (hlast : last < bus.nextEventId)
    (hgap : subscriber.subscription.gap = some (.gap last oldest newest))
    (hlagged : subscriber.lagged = false) (hreceived : subscriber.received = [])
    (hreplay : subscriber.subscription.replay = [])
    (hreceiver : subscriber.subscription.receiver = bus.sender.subscribe)
    (hnewest : ∃ event ∈ published, event.envelope.eventId = newest)
    (hnext : newest + 1 = bus.nextEventId) : Follows bus published subscriber := by
  have hstart : subscriber.start = last := by
    unfold Subscriber.start
    rw [hasked]
    rfl
  refine ⟨le_of_eq hreceiver, ?_, ?_, ?_, ?_, .owing last oldest newest hgap hlagged hreceived
    (by omega) hreplay hnewest ?_⟩
  · rw [hreceived, sinceGap_nil, hstart]
    exact hlast
  · intro before hbefore
    rw [hreceived, prefix_nil] at hbefore
    subst hbefore
    exact nil_prefix
  · intro _ _ _ hmem
    simp [hreceived] at hmem
  · intro before _ _ _ hbefore
    rw [hreceived, prefix_nil] at hbefore
    exact absurd hbefore (by simp)
  · rw [hreceiver, unread_subscribe, seen_nil,
      hretains.visibleAfter_newest (le_of_eq hnext.symm)]

theorem follows_of_replay (hstart : subscriber.start < bus.nextEventId)
    (hgap : subscriber.subscription.gap = none) (hlagged : subscriber.lagged = false)
    (hreceived : subscriber.received = [])
    (hreceiver : subscriber.subscription.receiver = bus.sender.subscribe)
    (hreplay : subscriber.subscription.replay.map PublishedEvent.envelope
      = visibleAfter subscriber.visible published subscriber.start) :
    Follows bus published subscriber := by
  refine ⟨le_of_eq hreceiver, ?_, ?_, ?_, ?_, .current hgap hlagged ?_⟩
  · rw [hreceived, sinceGap_nil]
    exact hstart
  · intro before hbefore
    rw [hreceived, prefix_nil] at hbefore
    subst hbefore
    exact nil_prefix
  · intro _ _ _ hmem
    simp [hreceived] at hmem
  · intro before _ _ _ hbefore
    rw [hreceived, prefix_nil] at hbefore
    exact absurd hbefore (by simp)
  · rw [hreceived, sinceGap_nil, hreceiver, unread_subscribe, seen_nil, append_nil, nil_append]
    exact hreplay

theorem replayBounds_cases (bus : EventBus Payload) :
    (bus.replay = [] ∧ bus.replayBounds = none)
      ∨ ∃ oldest newest, bus.replay.head? = some oldest ∧ bus.replay.getLast? = some newest
        ∧ bus.replayBounds = some (oldest.envelope.eventId, newest.envelope.eventId) := by
  unfold replayBounds
  cases hreplay : bus.replay with
  | nil => exact .inl ⟨rfl, rfl⟩
  | cons oldest rest =>
    right
    cases hlast : (oldest :: rest).getLast? with
    | none => simp at hlast
    | some newest => exact ⟨oldest, newest, rfl, rfl, rfl⟩

theorem follows_subscribe (hretains : Retains bus published) {sessionId : SessionId}
    {workspaceIds : List Workspaces.WorkspaceId} {allWorkspaces : Bool} {lastEventId : Option Nat}
    (hresumes : ∀ last, lastEventId = some last → last ≤ bus.nextEventId - 1) :
    Follows bus published
      ⟨bus.subscribe sessionId workspaceIds allWorkspaces lastEventId, false, [], lastEventId,
        bus.nextEventId - 1⟩ := by
  have hnext := hretains.next
  cases lastEventId with
  | none =>
    refine follows_of_replay ?_ rfl rfl rfl rfl ?_
    · show bus.nextEventId - 1 < bus.nextEventId
      omega
    · show [] = visibleAfter _ published (bus.nextEventId - 1)
      rw [hretains.visibleAfter_newest (by omega)]
  | some last =>
    have hlast := hresumes last rfl
    have hstart : last < bus.nextEventId := by omega
    rcases replayBounds_cases bus with ⟨hreplay, hbounds⟩ |
      ⟨oldest, newest, holdest, hnewest, hbounds⟩
    · have hgap : bus.resumeGap (some last) = none := by
        unfold resumeGap
        rw [hbounds]
      refine follows_of_replay hstart hgap rfl rfl rfl ?_
      have hempty : published = [] := by
        cases published with
        | nil => rfl
        | cons _ _ => exact absurd hreplay (hretains.kept (by simp))
      simp only [subscribe, resumeReplay, hgap, hreplay, hempty]
      rfl
    · by_cases hlt : satAdd last 1 < oldest.envelope.eventId
      · have hgap : bus.resumeGap (some last)
            = some (.gap last oldest.envelope.eventId newest.envelope.eventId) := by
          unfold resumeGap
          rw [hbounds]
          exact if_pos hlt
        obtain ⟨hmem, hid⟩ := hretains.getLast_replay hnewest
        refine follows_of_gap hretains rfl hstart hgap rfl rfl ?_ rfl ⟨newest, hmem, rfl⟩ hid
        simp only [subscribe, resumeReplay, hgap]
      · have hgap : bus.resumeGap (some last) = none := by
          unfold resumeGap
          rw [hbounds]
          exact if_neg hlt
        have hid : oldest.envelope.eventId ≤ last + 1 := by
          unfold satAdd at hlt
          omega
        refine follows_of_replay hstart hgap rfl rfl rfl ?_
        show _ = visibleAfter _ published last
        rw [hretains.visibleAfter_replay holdest hid]
        simp only [subscribe, resumeReplay, hgap, visibleAfter, seen,
          filter_filter]
        refine congrArg (List.map _) (filter_congr fun other _ => ?_)
        exact Bool.and_comm _ _

-- ==== recv

theorem follows_of_received {item : SubscriptionEvent Payload}
    (hfollows : Follows bus published subscriber) (hstart : next.start = subscriber.start)
    (hvisible : next.visible = subscriber.visible)
    (hreceived : next.received = subscriber.received ++ [item])
    (hplace : next.subscription.receiver ≤ bus.sender.sent.length)
    (hsince : (sinceGap next.start next.received).1 < bus.nextEventId)
    (hlast : (sinceGap next.start next.received).2 <+: visibleAfter next.visible published
      (sinceGap next.start next.received).1)
    (hgap : ∀ last oldest newest, item = .gap last oldest newest →
      (∃ event ∈ published, event.envelope.eventId = newest)
      ∧ highWater subscriber.start subscriber.received ≤ newest)
    (hahead : Ahead bus published next) : Follows bus published next := by
  refine ⟨hplace, hsince, ?_, ?_, ?_, hahead⟩
  · intro before hbefore
    rw [hreceived, prefix_concat_iff] at hbefore
    rcases hbefore with rfl | hbefore
    · rw [← hreceived]
      exact hlast
    · rw [hstart, hvisible]
      exact hfollows.inOrder before hbefore
  · intro last oldest newest hmem
    rw [hreceived, mem_append, mem_singleton] at hmem
    rcases hmem with hold | hnew
    · exact hfollows.gaps last oldest newest hold
    · exact (hgap last oldest newest hnew.symm).1
  · intro before last oldest newest hbefore
    rw [hreceived, prefix_concat_iff] at hbefore
    rw [hstart]
    rcases hbefore with heq | hbefore
    · obtain ⟨rfl, hitem⟩ := append_inj' heq rfl
      injection hitem with hitem _
      exact (hgap last oldest newest hitem.symm).2
    · exact hfollows.gapsRise before last oldest newest hbefore

theorem follows_of_same (hfollows : Follows bus published subscriber)
    (hstart : next.start = subscriber.start) (hvisible : next.visible = subscriber.visible)
    (hreceived : next.received = subscriber.received)
    (hplace : next.subscription.receiver ≤ bus.sender.sent.length)
    (hahead : Ahead bus published next) : Follows bus published next := by
  refine ⟨hplace, ?_, ?_, ?_, ?_, hahead⟩
  · rw [hstart, hreceived]
    exact hfollows.since
  · rw [hstart, hvisible, hreceived]
    exact hfollows.inOrder
  · rw [hreceived]
    exact hfollows.gaps
  · rw [hstart, hreceived]
    exact hfollows.gapsRise

theorem follows_of_event {rest : List (EventEnvelope Payload)}
    (hfollows : Follows bus published subscriber) (hstart : next.start = subscriber.start)
    (hvisible : next.visible = subscriber.visible)
    (hreceived : next.received = subscriber.received ++ [.event envelope])
    (hplace : next.subscription.receiver ≤ bus.sender.sent.length)
    (hgap : next.subscription.gap = none) (hlagged : next.lagged = false)
    (hbefore : (sinceGap subscriber.start subscriber.received).2 ++ (envelope :: rest)
      = visibleAfter subscriber.visible published (sinceGap subscriber.start subscriber.received).1)
    (hrest : next.subscription.replay.map PublishedEvent.envelope
        ++ seen next.visible (bus.sender.unread next.subscription.receiver) = rest) :
    Follows bus published next := by
  have hsince : sinceGap next.start next.received
      = ((sinceGap subscriber.start subscriber.received).1,
        (sinceGap subscriber.start subscriber.received).2 ++ [envelope]) := by
    rw [hreceived, sinceGap_event, hstart]
  have hall : (sinceGap next.start next.received).2 ++ rest
      = visibleAfter next.visible published (sinceGap next.start next.received).1 := by
    rw [hsince, hvisible, ← hbefore]
    simp
  refine follows_of_received hfollows hstart hvisible hreceived hplace ?_ ⟨rest, hall⟩ ?_
    (.current hgap hlagged (by rw [hrest]; exact hall))
  · rw [hsince]
    exact hfollows.since
  · intro _ _ _ heq
    cases heq

theorem follows_of_gapItem (hretains : Retains bus published)
    (hfollows : Follows bus published subscriber)
    (hstart : next.start = subscriber.start) (hvisible : next.visible = subscriber.visible)
    (hreceived : next.received = subscriber.received ++ [.gap last oldest newest])
    (hplace : next.subscription.receiver ≤ bus.sender.sent.length)
    (hgap : next.subscription.gap = none) (hlagged : next.lagged = false)
    (hreplay : next.subscription.replay = [])
    (hnewest : ∃ event ∈ published, event.envelope.eventId = newest)
    (hrises : highWater subscriber.start subscriber.received ≤ newest)
    (hahead : seen next.visible (bus.sender.unread next.subscription.receiver)
      = visibleAfter next.visible published newest) :
    Follows bus published next := by
  have hsince : sinceGap next.start next.received = (newest, []) := by rw [hreceived, sinceGap_gap]
  refine follows_of_received hfollows hstart hvisible hreceived hplace ?_ ?_ ?_
    (.current hgap hlagged ?_)
  · obtain ⟨named, hnamed, heq⟩ := hnewest
    rw [hsince, ← heq]
    exact hretains.below named hnamed
  · rw [hsince]
    exact nil_prefix
  · intro _ _ named heq
    injection heq with _ _ hnamed
    rw [← hnamed]
    exact ⟨hnewest, hrises⟩
  · rw [hsince, hreplay]
    exact hahead

theorem Follows.highWater_lt (hretains : Retains bus published)
    (hfollows : Follows bus published subscriber) :
    highWater subscriber.start subscriber.received < bus.nextEventId := by
  unfold highWater
  split
  case h_2 => exact hfollows.since
  case h_1 envelope hlast =>
    have hmem : envelope ∈ visibleAfter subscriber.visible published
        (sinceGap subscriber.start subscriber.received).1 :=
      (hfollows.inOrder _ (prefix_refl _)).subset (mem_of_getLast? hlast)
    obtain ⟨event, hevent, heq⟩ := mem_map.mp hmem
    rw [← heq]
    exact hretains.below event (mem_of_mem_filter (mem_of_mem_filter hevent))

/-- What a turn of `recv` can do. -/
inductive TurnOf (bus : EventBus Payload) (subscriber : Subscriber Payload) :
    Subscriber Payload → Prop
  | gap (item : SubscriptionEvent Payload) :
      subscriber.subscription.gap = some item →
      TurnOf bus subscriber { subscriber with
        subscription := { subscriber.subscription with gap := none }
        received := subscriber.received ++ [item] }
  | replay (first : PublishedEvent Payload) (rest : List (PublishedEvent Payload)) :
      subscriber.subscription.gap = none → subscriber.subscription.replay = first :: rest →
      TurnOf bus subscriber { subscriber with
        subscription := { subscriber.subscription with
          lastEventId := first.envelope.eventId, replay := rest }
        received := subscriber.received ++ [.event first.envelope] }
  | message (message : PublishedEvent Payload) (place : Nat) :
      subscriber.subscription.gap = none → subscriber.subscription.replay = [] →
      bus.sender.recv subscriber.subscription.receiver = (.message message, place) →
      subscriber.visible message.audience = true →
      TurnOf bus subscriber { subscriber with
        subscription := { subscriber.subscription with
          lastEventId := message.envelope.eventId, receiver := place }
        received := subscriber.received ++ [.event message.envelope] }
  | skip (message : PublishedEvent Payload) (place : Nat) :
      subscriber.subscription.gap = none → subscriber.subscription.replay = [] →
      bus.sender.recv subscriber.subscription.receiver = (.message message, place) →
      subscriber.visible message.audience = false →
      TurnOf bus subscriber { subscriber with
        subscription := { subscriber.subscription with receiver := place } }
  | lagged (place : Nat) :
      subscriber.subscription.gap = none → subscriber.subscription.replay = [] →
      bus.sender.recv subscriber.subscription.receiver = (.lagged, place) →
      TurnOf bus subscriber { subscriber with
        subscription := { subscriber.subscription with receiver := place }
        lagged := true }

theorem turnOf_recv (h : subscriber.recv bus = some next) : TurnOf bus subscriber next := by
  unfold Subscriber.recv EventSubscription.turn at h
  split at h
  case h_1 item subscription hturn =>
    cases h
    split at hturn
    case h_1 gap hgap =>
      injection hturn with hitem hsubscription
      subst hitem hsubscription
      exact .gap _ hgap
    case h_2 hgap =>
      split at hturn
      case h_1 first rest hreplay =>
        injection hturn with hitem hsubscription
        subst hitem hsubscription
        exact .replay first rest hgap hreplay
      case h_2 hreplay =>
        split at hturn
        case h_1 => cases hturn
        case h_2 => cases hturn
        case h_3 message place hrecv =>
          split at hturn
          case isFalse => cases hturn
          case isTrue hcan =>
            injection hturn with hitem hsubscription
            subst hitem hsubscription
            exact .message message place hgap hreplay hrecv hcan
  case h_2 subscription hturn =>
    cases h
    split at hturn
    case h_1 => cases hturn
    case h_2 hgap =>
      split at hturn
      case h_1 => cases hturn
      case h_2 hreplay =>
        split at hturn
        case h_1 => cases hturn
        case h_2 => cases hturn
        case h_3 message place hrecv =>
          obtain ⟨hcan, hturn⟩ := Fallible.passed hturn nofun
          cases hturn
          rw [Bool.not_eq_true] at hcan
          exact .skip message place hgap hreplay hrecv hcan
  case h_3 subscription hturn =>
    cases h
    split at hturn
    case h_1 => cases hturn
    case h_2 hgap =>
      split at hturn
      case h_1 => cases hturn
      case h_2 hreplay =>
        split at hturn
        case h_1 => cases hturn
        case h_3 => split at hturn <;> cases hturn
        case h_2 place hrecv =>
          cases hturn
          exact .lagged place hgap hreplay hrecv
  case h_4 => cases h

theorem Follows.ahead_of_current (hfollows : Follows bus published subscriber)
    (hgap : subscriber.subscription.gap = none) (hlagged : subscriber.lagged = false) :
    (sinceGap subscriber.start subscriber.received).2
        ++ (subscriber.subscription.replay.map PublishedEvent.envelope
          ++ seen subscriber.visible (bus.sender.unread subscriber.subscription.receiver))
      = visibleAfter subscriber.visible published
        (sinceGap subscriber.start subscriber.received).1 := by
  cases hfollows.ahead with
  | owing _ _ _ howed => rw [howed] at hgap; cases hgap
  | lagging _ hyes => rw [hyes] at hlagged; cases hlagged
  | current _ _ hahead => exact hahead

theorem Retains.visibleAfter_rising (h : Retains bus published) (visible : EventAudience → Bool)
    (id : Nat) :
    (visibleAfter visible published id).Pairwise (fun a b => a.eventId < b.eventId)
      ∧ ∀ envelope ∈ visibleAfter visible published id, id < envelope.eventId := by
  unfold visibleAfter seen
  constructor
  · rw [pairwise_map]
    exact (h.rising.filter _).filter _
  · intro envelope hmem
    obtain ⟨event, hevent, rfl⟩ := mem_map.mp hmem
    simpa using (mem_filter.mp (mem_of_mem_filter hevent)).2

theorem Follows.rises (hretains : Retains bus published)
    (hfollows : Follows bus published subscriber)
    (hbefore : before ++ [.event envelope] <+: subscriber.received) :
    highWater subscriber.start before < envelope.eventId := by
  have hbegins := hfollows.inOrder _ hbefore
  rw [sinceGap_event] at hbegins
  obtain ⟨hrising, habove⟩ := hretains.visibleAfter_rising subscriber.visible
    (sinceGap subscriber.start before).1
  unfold highWater
  split
  case h_2 => exact habove envelope (hbegins.subset (by simp))
  case h_1 last hlast =>
    have hpairs := hrising.sublist hbegins.sublist
    rw [pairwise_append] at hpairs
    exact hpairs.2.2 last (mem_of_getLast? hlast) envelope (by simp)

theorem Follows.issued (hretains : Retains bus published)
    (hfollows : Follows bus published subscriber)
    (hbefore : before ++ [.event envelope] <+: subscriber.received) :
    envelope.eventId < bus.nextEventId := by
  have hfirst := hfollows.inOrder _ hbefore
  rw [sinceGap_event] at hfirst
  have hmem : envelope ∈ visibleAfter subscriber.visible published
      (sinceGap subscriber.start before).1 := hfirst.subset (by simp)
  obtain ⟨event, hevent, heq⟩ := mem_map.mp hmem
  rw [← heq]
  exact hretains.below event (mem_of_mem_filter (mem_of_mem_filter hevent))

theorem Follows.recv (hretains : Retains bus published)
    (hfollows : Follows bus published subscriber) (hlagged : subscriber.lagged = false)
    (h : subscriber.recv bus = some next) : Follows bus published next := by
  cases turnOf_recv h with
  | gap item hgap =>
    cases hfollows.ahead with
    | current hnone | lagging hnone => rw [hnone] at hgap; cases hgap
    | owing last oldest newest howed _ hreceived hstart hreplay hnewest hahead =>
      rw [howed] at hgap
      cases hgap
      refine follows_of_gapItem hretains hfollows rfl rfl rfl hfollows.place rfl hlagged
        hreplay hnewest ?_ hahead
      rw [hreceived, highWater_nil]
      exact hstart
  | replay first rest hgap hreplay =>
    have hahead := hfollows.ahead_of_current hgap hlagged
    rw [hreplay] at hahead
    exact follows_of_event hfollows rfl rfl rfl hfollows.place hgap hlagged hahead rfl
  | message message place hgap hreplay hrecv hcan =>
    obtain ⟨hunread, hplace⟩ := recv_message hrecv
    have hahead := hfollows.ahead_of_current hgap hlagged
    rw [hreplay, hunread, seen_cons_of_visible hcan] at hahead
    refine follows_of_event hfollows rfl rfl rfl hplace hgap hlagged hahead ?_
    simp only [hreplay]
    rfl
  | skip message place hgap hreplay hrecv hcan =>
    obtain ⟨hunread, hplace⟩ := recv_message hrecv
    have hahead := hfollows.ahead_of_current hgap hlagged
    rw [hunread, seen_cons_of_not_visible hcan] at hahead
    exact follows_of_same hfollows rfl rfl rfl hplace (.current hgap hlagged hahead)
  | lagged place hgap hreplay hrecv =>
    obtain ⟨hsent, hplace⟩ := recv_lagged hrecv
    exact follows_of_same hfollows rfl rfl rfl hplace
      (.lagging hgap rfl hreplay (hretains.sent hsent))

theorem Follows.liveGap (hretains : Retains bus published)
    (hfollows : Follows bus published subscriber) (hlagged : subscriber.lagged = true) :
    Follows bus published (subscriber.liveGap bus) := by
  cases hfollows.ahead with
  | current _ hno | owing _ _ _ _ hno => rw [hno] at hlagged; cases hlagged
  | lagging hgap _ hreplay hsome =>
    cases hlast : bus.replay.getLast? with
    | none => exact absurd (List.getLast?_eq_none_iff.mp hlast) (hretains.kept hsome)
    | some newest =>
      obtain ⟨hmem, hid⟩ := hretains.getLast_replay hlast
      unfold Subscriber.liveGap EventSubscription.liveGap
      simp only [hlast]
      refine follows_of_gapItem hretains hfollows rfl rfl rfl le_rfl hgap rfl hreplay
        ⟨newest, hmem, rfl⟩ (by have := hfollows.highWater_lt hretains; omega) ?_
      rw [hretains.visibleAfter_newest (le_of_eq hid.symm)]
      simp only [unread_subscribe, seen_nil]

-- ==== the runs

theorem worldInv_new (capacity slots : Nat) :
    WorldInv (new capacity slots : World Payload) := by
  refine ⟨⟨le_max_right _ _, le_rfl, show 1 ≤ max by decide, ?_,
    List.Pairwise.nil, ?_, suffix_refl _, ?_, ?_⟩, ?_⟩
  · intro event hevent
    cases hevent
  · intro event hevent
    cases hevent
  · intro hne
    exact absurd rfl hne
  · intro hne
    exact absurd rfl hne
  · intro subscriber hsubscriber
    cases hsubscriber

theorem WorldInv.set (hinv : WorldInv world) {next : Option (Subscriber Payload)}
    (hnext : ∀ subscriber, next = some subscriber → subscriber.Resumes →
      Follows world.bus world.published subscriber) : WorldInv (world.set index next) := by
  refine ⟨hinv.retains, fun subscriber hmem hresumes => ?_⟩
  rcases mem_or_eq_of_mem_set hmem with hold | hnew
  · exact hinv.follows subscriber hold hresumes
  · exact hnext subscriber hnew.symm hresumes

theorem resumes_of_eq (hasked : next.asked = subscriber.asked)
    (hissued : next.issued = subscriber.issued) (h : next.Resumes) : subscriber.Resumes := by
  unfold Subscriber.Resumes at *
  rw [← hasked, ← hissued]
  exact h

theorem resumes_of_turnOf (hturn : TurnOf bus subscriber next) (h : next.Resumes) :
    subscriber.Resumes := by
  cases hturn <;> exact resumes_of_eq rfl rfl h

/-- What a subscriber can do in a step of the world. -/
inductive SubscriberStep (bus : EventBus Payload) (subscriber : Subscriber Payload)
    (index : Nat) : Action Payload → Option (Subscriber Payload) → Prop
  | recv (next : Subscriber Payload) :
      subscriber.lagged = false → subscriber.recv bus = some next →
      SubscriberStep bus subscriber index (.recv index) (some next)
  | liveGap :
      subscriber.lagged = true →
      SubscriberStep bus subscriber index (.liveGap index) (some (subscriber.liveGap bus))
  | drop : SubscriberStep bus subscriber index (.drop index) none

inductive WorldStep (world : World Payload) : Action Payload → World Payload → Prop
  | publish {audience : EventAudience} {timestamp : Nat} {payload : Payload}
      (bus' : EventBus Payload) (event : PublishedEvent Payload) :
      world.bus.publish world.receivers audience timestamp payload = some (bus', event) →
      WorldStep world (.publish audience timestamp payload)
        { world with bus := bus', published := world.published ++ [event] }
  | subscribe (sessionId : SessionId) (workspaceIds : List Workspaces.WorkspaceId)
      (allWorkspaces : Bool) (lastEventId : Option Nat) :
      WorldStep world (.subscribe sessionId workspaceIds allWorkspaces lastEventId)
        { world with subscribers := world.subscribers ++
        [some ⟨world.bus.subscribe sessionId workspaceIds allWorkspaces lastEventId,
          false, [], lastEventId, world.bus.nextEventId - 1⟩] }
  | subscriber {action : Action Payload} (index : Nat) (subscriber : Subscriber Payload)
      (next : Option (Subscriber Payload)) :
      world.subscribers[index]? = some (some subscriber) →
      SubscriberStep world.bus subscriber index action next →
      WorldStep world action (world.set index next)

theorem worldStep_of_step (hstep : step action world = some world') :
    WorldStep world action world' := by
  cases action with
  | publish audience timestamp payload =>
    simp only [step] at hstep
    split at hstep
    case h_1 => cases hstep
    case h_2 bus' event hpublish =>
      cases hstep
      exact .publish bus' event hpublish
  | subscribe sessionId workspaceIds allWorkspaces lastEventId =>
    cases hstep
    exact .subscribe sessionId workspaceIds allWorkspaces lastEventId
  | recv index =>
    simp only [step] at hstep
    split at hstep
    case h_2 => cases hstep
    case h_1 subscriber hget =>
      obtain ⟨hlagged, hstep⟩ := Fallible.passed hstep nofun
      rw [Bool.not_eq_true] at hlagged
      obtain ⟨next, hnext, rfl⟩ := Option.map_eq_some_iff.mp hstep
      exact .subscriber index subscriber (some next) hget (.recv next hlagged hnext)
  | liveGap index =>
    simp only [step] at hstep
    split at hstep
    case h_2 => cases hstep
    case h_1 subscriber hget =>
      split at hstep
      case isFalse => cases hstep
      case isTrue hlagged =>
        cases hstep
        exact .subscriber index subscriber _ hget (.liveGap hlagged)
  | drop index =>
    simp only [step] at hstep
    split at hstep
    case h_2 => cases hstep
    case h_1 subscriber hget =>
      cases hstep
      exact .subscriber index subscriber none hget .drop

theorem worldInv_step (hstep : step action world = some world')
    (hinv : WorldInv world) : WorldInv world' := by
  cases worldStep_of_step hstep with
  | publish bus' event hpublish =>
    refine ⟨hinv.retains.publish hpublish, fun subscriber hmem hresumes => ?_⟩
    -- the subscriber itself is one of the receivers
    have hreceivers : world.receivers ≠ 0 :=
      Nat.pos_iff_ne_zero.mp (countP_pos_iff.mpr ⟨some subscriber, hmem, rfl⟩)
    exact (hinv.follows subscriber hmem hresumes).publish hinv.retains hreceivers hpublish
  | subscribe sessionId workspaceIds allWorkspaces lastEventId =>
    refine ⟨hinv.retains, fun subscriber hmem hresumes => ?_⟩
    rcases mem_append.mp hmem with hold | hnew
    · exact hinv.follows subscriber hold hresumes
    · have heq := mem_singleton.mp hnew
      cases heq
      exact follows_subscribe hinv.retains hresumes
  | subscriber index subscriber next hget hnext =>
    have hmem : some subscriber ∈ world.subscribers := mem_of_getElem? hget
    refine hinv.set fun other heq hresumes => ?_
    cases hnext with
    | drop => cases heq
    | recv next hlagged hrecv =>
      cases heq
      have hbefore := resumes_of_turnOf (turnOf_recv hrecv) hresumes
      exact (hinv.follows subscriber hmem hbefore).recv hinv.retains hlagged hrecv
    | liveGap hlagged =>
      cases heq
      have hbefore : subscriber.Resumes := resumes_of_eq rfl rfl hresumes
      exact (hinv.follows subscriber hmem hbefore).liveGap hinv.retains hlagged

theorem subscriber_of_step (hstep : step action world = some world')
    (hkept : action ≠ .drop index) (hget : world.subscribers[index]? = some (some subscriber)) :
    ∃ next, world'.subscribers[index]? = some (some next)
      ∧ next.asked = subscriber.asked ∧ next.issued = subscriber.issued
      ∧ subscriber.received <+: next.received := by
  have hlength : index < world.subscribers.length := (List.getElem?_eq_some_iff.mp hget).1
  cases worldStep_of_step hstep with
  | publish => exact ⟨subscriber, hget, rfl, rfl, prefix_refl _⟩
  | subscribe =>
    refine ⟨subscriber, ?_, rfl, rfl, prefix_refl _⟩
    rw [List.getElem?_append_left hlength]
    exact hget
  | subscriber other own next hown hnext =>
    by_cases hsame : other = index
    · subst hsame
      rw [hown] at hget
      injection hget with hget
      cases hget
      have hset : ∀ after, (world.set other after).subscribers[other]? = some after :=
        fun after => List.getElem?_set_self hlength
      cases hnext with
      | drop => exact absurd rfl hkept
      | recv next _ hrecv =>
        refine ⟨next, hset _, ?_⟩
        cases turnOf_recv hrecv with
        | skip | lagged => exact ⟨rfl, rfl, prefix_refl _⟩
        | _ => exact ⟨rfl, rfl, prefix_append _ _⟩
      | liveGap => exact ⟨_, hset _, rfl, rfl, prefix_append _ _⟩
    · refine ⟨subscriber, ?_, rfl, rfl, prefix_refl _⟩
      simp only [World.set]
      rw [List.getElem?_set_ne hsame]
      exact hget

theorem nextEventId_le_of_step (hstep : step action world = some world') :
    world.bus.nextEventId ≤ world'.bus.nextEventId := by
  cases worldStep_of_step hstep with
  | publish bus' event hpublish =>
    obtain ⟨-, -, rfl⟩ := publish_eq hpublish
    exact le_succ _
  | subscribe | subscriber => exact le_rfl

theorem worldInv_run {slots : Nat} {acts : List (Action Payload)}
    (hrun : Run step Free (new capacity slots) acts world) : WorldInv world :=
  hrun.invariant (worldInv_new capacity slots) fun _ _ hstep hinv => worldInv_step hstep hinv

theorem Follows.complete (hfollows : Follows bus published subscriber)
    (hlagged : subscriber.lagged = false) (hwaits : subscriber.subscription.turn bus = .waits) :
    (sinceGap subscriber.start subscriber.received).2 = visibleAfter subscriber.visible published
        (sinceGap subscriber.start subscriber.received).1 := by
  unfold EventSubscription.turn at hwaits
  split at hwaits
  case h_1 => cases hwaits
  case h_2 hgap =>
    split at hwaits
    case h_1 => cases hwaits
    case h_2 hreplay =>
      split at hwaits
      case h_2 => cases hwaits
      case h_3 => split at hwaits <;> cases hwaits
      case h_1 place hrecv =>
        have hahead := hfollows.ahead_of_current hgap hlagged
        rw [hreplay, (recv_empty hrecv).1, seen_nil] at hahead
        simpa using hahead

/-- Whatever is published, subscribed and received in whatever order, a
subscriber gets, since its start and since each gap, the visible events
from the first on. -/
theorem event_bus_loses_nothing (capacity slots : Nat) {acts : List (Action Payload)}
    (hrun : Run step Free (new capacity slots) acts world)
    (hmem : some subscriber ∈ world.subscribers)
    (hresumes : ∀ last, subscriber.asked = some last → last ≤ subscriber.issued) :
    LosesNothing world.bus world.published subscriber := by
  have hinv := worldInv_run hrun
  have hfollows := hinv.follows subscriber hmem hresumes
  exact ⟨hinv.retains.rising, hfollows.inOrder, hfollows.gaps,
    fun hlagged hwaits => hfollows.complete hlagged hwaits⟩

end Delivery

/-- Two events, of which the bus retains one; a client that has seen
neither; and a third event. -/
def resumedTooLate : List (Action Nat) :=
  [.publish .global 0 7, .publish .global 1 8, .subscribe "client" [] true (some 0), .recv 0,
    .publish (.session "client") 2 9, .recv 0]

theorem event_bus_loses_nothing_resumed_too_late :
    ∃ world subscriber, Run step Free (new 1 1) resumedTooLate world
      ∧ world.subscribers = [some subscriber]
      ∧ subscriber.received = [.gap 0 2 2, .event ⟨3, 2, none, 9⟩]
      ∧ LosesNothing world.bus world.published subscriber := by
  have hrun := Run.of_run (show Machine.run step (new 1 1) resumedTooLate = some _ from rfl)
  refine ⟨_, _, hrun, rfl, rfl, event_bus_loses_nothing 1 1 hrun List.mem_cons_self ?_⟩
  intro last hlast
  cases hlast
  exact zero_le _

end FileManager.Events
