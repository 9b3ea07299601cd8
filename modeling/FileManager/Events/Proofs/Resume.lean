/-
A resume from an id that the bus has not issued is not noticed. The gap
test of a new subscription compares with the oldest retained event only,
and an id beyond the newest is beyond that one too. So the subscription
starts without a gap and with nothing to replay, and the next event for
it is the first thing it receives.
-/
import FileManager.Events.Proofs.Delivery

namespace FileManager.Events

open Machine (Run Free)
open World Word List Broadcast.Channel

section Resume

variable {Payload : Type} {bus : EventBus Payload} {published : List (PublishedEvent Payload)}
  {world world' : World Payload} {capacity slots last : Nat} {sessionId : SessionId}
  {workspaceIds : List Workspaces.WorkspaceId} {allWorkspaces : Bool}

/-- Whatever happens after a client resumes from `last`, the first item it
receives is a gap. -/
def ReportsGapFirst (world : World Payload) (sessionId : SessionId)
    (workspaceIds : List Workspaces.WorkspaceId) (allWorkspaces : Bool) (last : Nat) : Prop :=
  ∀ start acts world' subscriber item,
    step (.subscribe sessionId workspaceIds allWorkspaces (some last)) world = some start →
    Run step Free start acts world' →
    world'.subscribers[world.subscribers.length]? = some (some subscriber) →
    subscriber.received.head? = some item →
    ∃ lastEventId oldest newest, item = .gap lastEventId oldest newest

/-- The world with a new subscriber. -/
def World.join (world : World Payload) (sessionId : SessionId)
    (workspaceIds : List Workspaces.WorkspaceId) (allWorkspaces : Bool) (last : Nat) :
    World Payload :=
  { world with subscribers := world.subscribers ++
      [some ⟨world.bus.subscribe sessionId workspaceIds allWorkspaces (some last), false, [],
        some last, world.bus.nextEventId - 1⟩] }

theorem step_subscribe :
    step (.subscribe sessionId workspaceIds allWorkspaces (some last)) world
      = some (world.join sessionId workspaceIds allWorkspaces last) := rfl

theorem getElem_join :
    (world.join sessionId workspaceIds allWorkspaces last).subscribers[world.subscribers.length]?
      = some (some ⟨world.bus.subscribe sessionId workspaceIds allWorkspaces (some last), false,
        [], some last, world.bus.nextEventId - 1⟩) := by
  simp [join]

-- ==== how it starts

theorem Retains.resumeGap_of_stale (h : Retains bus published) (hstale : bus.nextEventId ≤ last) :
    bus.resumeGap (some last) = none := by
  unfold EventBus.resumeGap
  rcases replayBounds_cases bus with ⟨-, hbounds⟩ | ⟨oldest, newest, holdest, -, hbounds⟩
  · rw [hbounds]
  · rw [hbounds]
    refine if_neg fun hlt => ?_
    have hmem : oldest ∈ published := h.retained.subset (mem_of_head? holdest)
    have hbelow := h.below oldest hmem
    have hmost := h.most
    unfold satAdd at hlt
    omega

theorem Retains.resumeReplay_of_stale (h : Retains bus published)
    (hstale : bus.nextEventId ≤ last) {visible : EventAudience → Bool} :
    bus.resumeReplay visible (some last) = [] := by
  unfold EventBus.resumeReplay
  rw [h.resumeGap_of_stale hstale]
  simp only
  rw [filter_eq_nil_iff]
  intro event hevent hvisible
  rw [Bool.and_eq_true, decide_eq_true_eq] at hvisible
  have := h.below event (h.retained.subset hevent)
  omega

theorem slots_run {acts : List (Action Payload)} (hrun : Run step Free world acts world') :
    world'.bus.sender.slots = world.bus.sender.slots := by
  refine hrun.invariant (P := fun w => w.bus.sender.slots = world.bus.sender.slots) rfl ?_
  intro before after action _ hstep hslots
  rw [← hslots]
  cases worldStep_of_step hstep with
  | publish bus' event hpublish =>
    obtain ⟨-, -, rfl⟩ := publish_eq hpublish
    simp only [send]
    split <;> rfl
  | subscribe => rfl
  | subscriber => rfl

-- ==== an event comes first

theorem publish_global (hleft : bus.nextEventId < max) (receivers : Nat) (payload : Payload) :
    ∃ bus' event, bus.publish receivers .global 0 payload = some (bus', event)
      ∧ bus'.sender = bus.sender.send receivers event ∧ event.audience = .global := by
  unfold EventBus.publish checkedAdd
  rw [if_pos (show bus.nextEventId + 1 ≤ max from hleft)]
  exact ⟨_, _, rfl, rfl, rfl⟩

theorem step_publish {audience : EventAudience} {timestamp : Nat} {payload : Payload}
    {bus' : EventBus Payload} {event : PublishedEvent Payload}
    (h : world.bus.publish world.receivers audience timestamp payload = some (bus', event)) :
    step (.publish audience timestamp payload) world
      = some { world with bus := bus', published := world.published ++ [event] } := by
  simp only [step, h]

variable {subscription : EventSubscription Payload}

theorem step_recv_item {index : Nat} {subscriber : Subscriber Payload}
    {item : SubscriptionEvent Payload} (hget : world.subscribers[index]? = some (some subscriber))
    (hlagged : subscriber.lagged = false)
    (hturn : subscriber.subscription.turn world.bus = .item item subscription) :
    step (.recv index) world = some (world.set index (some { subscriber with
        subscription := subscription, received := subscriber.received ++ [item] })) := by
  simp only [step, hget, hlagged, Subscriber.recv, hturn]
  rfl

theorem turn_of_send {bus' : EventBus Payload} {receivers : Nat} {event : PublishedEvent Payload}
    (hgap : subscription.gap = none) (hreplay : subscription.replay = [])
    (hreceiver : subscription.receiver = bus.sender.subscribe) (hslots : 1 ≤ bus.sender.slots)
    (hreceivers : receivers ≠ 0) (hsender : bus'.sender = bus.sender.send receivers event)
    (hcan : subscription.canReceive event.audience = true) :
    subscription.turn bus' = .item (.event event.envelope) { subscription with
        lastEventId := event.envelope.eventId, receiver := bus.sender.subscribe + 1 } := by
  unfold EventSubscription.turn
  rw [hgap, hreplay, hreceiver, hsender, recv_send_subscribe hslots hreceivers]
  simp only [hcan, if_true]

theorem not_reportsGapFirst (hretains : Retains world.bus world.published)
    (hslots : 1 ≤ world.bus.sender.slots) (hstale : world.bus.nextEventId ≤ last)
    (hleft : world.bus.nextEventId < max) (payload : Payload) :
    ¬ ReportsGapFirst world sessionId workspaceIds allWorkspaces last := by
  intro h
  have hjoined := @getElem_join _ world last sessionId workspaceIds allWorkspaces
  have hreceivers : (world.join sessionId workspaceIds allWorkspaces last).receivers ≠ 0 :=
    Nat.pos_iff_ne_zero.mp (countP_pos_iff.mpr ⟨_, mem_of_getElem? hjoined, rfl⟩)
  obtain ⟨bus', event, hpublish, hsender, haudience⟩ := @publish_global _ world.bus hleft _ payload
  have hturn := @turn_of_send _ world.bus
    (world.bus.subscribe sessionId workspaceIds allWorkspaces (some last)) bus' _ event
    (hretains.resumeGap_of_stale hstale) (hretains.resumeReplay_of_stale hstale) rfl hslots
    hreceivers hsender (by rw [haudience]; rfl)
  have hfirst := @step_publish _ (world.join sessionId workspaceIds allWorkspaces last)
    _ _ _ bus' event hpublish
  have hsecond := @step_recv_item _ { world.join sessionId workspaceIds allWorkspaces last with
      bus := bus', published := world.published ++ [event] } _ _ _ _ hjoined rfl hturn
  have hrun : Run step Free (world.join sessionId workspaceIds allWorkspaces last) _ _ :=
    (Run.start.snoc _ trivial hfirst).snoc _ trivial hsecond
  have hlength : world.subscribers.length
      < (world.join sessionId workspaceIds allWorkspaces last).subscribers.length := by
    simp [join]
  obtain ⟨_, _, _, heq⟩ := h _ _ _ _ _ step_subscribe hrun (getElem?_set_self hlength) rfl
  cases heq

-- ==== nothing comes

/-- A subscriber that nothing can reach. -/
structure Waiting (index : Nat) (world : World Payload) : Prop where
  full : max ≤ world.bus.nextEventId
  here : index < world.subscribers.length
  waits : ∀ subscriber, world.subscribers[index]? = some (some subscriber) →
    subscriber.received = [] ∧ subscriber.lagged = false
      ∧ subscriber.subscription.turn world.bus = .waits

theorem waiting_step {index : Nat} {action : Action Payload}
    (hstep : step action world = some world') (h : Waiting index world) : Waiting index world' := by
  cases worldStep_of_step hstep with
  | publish bus' event hpublish =>
    have := (publish_eq hpublish).2.1
    have := h.full
    omega
  | subscribe =>
    refine ⟨h.full, by simpa using Nat.lt_succ_of_lt h.here, fun subscriber hget => ?_⟩
    rw [getElem?_append_left h.here] at hget
    exact h.waits subscriber hget
  | subscriber other subscriber next hget hnext =>
    refine ⟨h.full, by simpa [World.set] using h.here, fun found hfound => ?_⟩
    by_cases hsame : other = index
    · subst hsame
      obtain ⟨-, hlagged, hwaits⟩ := h.waits subscriber hget
      cases hnext with
      | recv next _ hrecv =>
        unfold Subscriber.recv at hrecv
        simp [hwaits] at hrecv
      | liveGap hyes => rw [hyes] at hlagged; cases hlagged
      | drop =>
        simp only [World.set] at hfound
        rw [getElem?_set_self h.here] at hfound
        cases hfound
    · simp only [World.set] at hfound
      rw [getElem?_set_ne hsame] at hfound
      exact h.waits found hfound

theorem reportsGapFirst_of_full (hretains : Retains world.bus world.published)
    (hstale : world.bus.nextEventId ≤ last) (hfull : max ≤ world.bus.nextEventId) :
    ReportsGapFirst world sessionId workspaceIds allWorkspaces last := by
  intro start acts world' subscriber item hstart hrun hget hitem
  cases hstart
  have hjoined := @getElem_join _ world last sessionId workspaceIds allWorkspaces
  have hwaiting : Waiting world.subscribers.length
      (world.join sessionId workspaceIds allWorkspaces last) := by
    refine ⟨hfull, by simp [join], fun found hfound => ?_⟩
    rw [hjoined] at hfound
    injection hfound with hfound
    cases hfound
    refine ⟨rfl, rfl, ?_⟩
    unfold EventSubscription.turn EventBus.subscribe
    have hempty : (world.join sessionId workspaceIds allWorkspaces last).bus.sender.recv
        world.bus.sender.subscribe = (.empty, world.bus.sender.subscribe) :=
      recv_subscribe
    simp only [hretains.resumeGap_of_stale hstale, hretains.resumeReplay_of_stale hstale, hempty]
  have hend := hrun.invariant (P := Waiting world.subscribers.length) hwaiting
    fun _ _ hstep h => waiting_step hstep h
  rw [(hend.waits subscriber hget).1] at hitem
  cases hitem

-- ==== the statement

/-- A resume from an id that the bus has not issued is answered with a gap
before any event only where there is no event left to come. -/
theorem stale_resume_reports_gap_iff (hslots : 1 ≤ slots) {acts : List (Action Payload)}
    (hrun : Run step Free (new capacity slots) acts world)
    (hstale : world.bus.nextEventId ≤ last) (payload : Payload) :
    ReportsGapFirst world sessionId workspaceIds allWorkspaces last
      ↔ world.bus.nextEventId = max := by
  have hretains := (worldInv_run hrun).retains
  constructor
  · intro h
    by_contra hne
    have hmost := hretains.most
    refine not_reportsGapFirst hretains ?_ hstale (by omega) payload h
    rw [slots_run hrun]
    exact hslots
  · intro hfull
    exact reportsGapFirst_of_full hretains hstale (Nat.le_of_eq hfull.symm)

/-- A server that has just started, and a client that had seen event 57 of
the one before. -/
theorem stale_resume_reports_gap_iff_restarted :
    (new 4 4 : World Nat).bus.nextEventId ≤ 57
      ∧ (ReportsGapFirst (new 4 4 : World Nat) "local-development-session" [] true 57
        ↔ (new 4 4 : World Nat).bus.nextEventId = max) :=
  ⟨by decide, stale_resume_reports_gap_iff (by decide) .start (by decide) 0⟩

/-- The first thing it receives is the event that its own connection
makes. -/
theorem restarted_server_not_noticed :
    (new 4 4 : World Nat).bus.nextEventId ≤ 57
      ∧ ¬ ReportsGapFirst (new 4 4 : World Nat) "local-development-session" [] true 57 := by
  refine ⟨by decide, fun h => ?_⟩
  obtain ⟨_, _, _, heq⟩ := h _ _ _ _ _ rfl (Run.of_run (show Machine.run step _
      [.publish (.session "local-development-session") 0 0, .recv 0] = some _ from rfl))
    rfl rfl
  cases heq

end Resume

end FileManager.Events
