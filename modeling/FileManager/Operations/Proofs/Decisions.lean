/-
Where a conflict decision goes: from the slot to the retry of the item
the slot was filled for.

# The argument

`Aimed` ties the slot to the queue of deferred items. In the first pass
the slot is filled by the first item that is deferred and by no other, so
its owner heads the queue; in the deferred pass the runner waits on the
slot only for the head, having filled it itself or found it filled for
it.

`Ticketed` follows the decisions themselves by their tickets: each is in
the slot, in the runner's hand or with a retry, and goes with the owner
that was pending when it was submitted.

`Traced` goes back the other way: a conflict that is pending was raised
by an execution of its owner.

`Rounds` counts: a decision is accepted in the round of the decisions
taken before it. Without a decision for all, a round has one conflict,
and it ends when one of its decisions is taken, so a job that gets
through has taken one decision of each round.
-/
import FileManager.Operations.Proofs.Progress
import Mathlib.Data.List.Nodup

namespace FileManager.Scheduler

open Machine List Option

variable {req : Bool} {s s' : State} {deferred rest : List Deferred} {a : Action}
  {submissions : List Submission} {head d : Deferred}
  {raised raised' : Nat → OperationConflict → Prop}

-- ==== the slot and the queue

/-- The position of the first deferred item. -/
def headIndex (deferred : List Deferred) : Option Nat := deferred.head?.map fun d => d.work.index

/-- The item a registered conflict is waited on for. -/
def After.index : After → Option Nat
  | .item _ deferred => headIndex deferred
  | .decision head _ | .retry head _ => some head.work.index

/-- Who the slot may be filled for at a position: `owner` of the slot,
whether an apply-to-all decision is in force, and the cancellation
flag. -/
def Runner.aims (owner : Option Nat) (answered cancelled : Bool) :
    Runner → Prop
  | .acquire | .checkAcquired | .enterPlanning | .planning | .checkPlanned _
  | .announcePlan _ | .awaitConfirmation _ | .checkConfirmed _ => owner = none
  | .nextItem _ deferred | .checkItem _ _ deferred | .callItem _ _ deferred
  | .executing _ _ _ deferred | .checkExecuted _ _ _ deferred
  | .recordWarning _ _ _ deferred | .countItem _ _ _ deferred
  | .checkCounted _ deferred | .fileConflict _ _ _ deferred =>
    owner = headIndex deferred
  | .storeConflict _ index after => after.index = some index
  | .announceConflict _ after => owner = after.index
  | .nextDeferred deferred =>
    answered = false → owner = none ∨ owner = headIndex deferred
  | .needConflict head _ => owner = none ∨ owner = some head.work.index
  | .awaitDecision head _ | .awaitCancellation head _
  | .takeDecision _ head _ => owner = some head.work.index
  | .leaveWaiting .. => owner = none
  | .checkRetry answer _ _ =>
    cancelled = true ∨ (answered = false ∨ answer.ticket.isSome = true → owner = none)
  | .retrying .. | .countRetry .. => answered = false → owner = none
  | _ => True

def slotOwner (s : State) : Option Nat := s.pendingConflict.map PendingConflict.owner

/-- The slot is filled for the item the runner would wait on it for. -/
def Aimed (s : State) : Prop := s.runner.aims (slotOwner s) s.applyToAll.isSome s.cancellation

theorem headIndex_append_of_none
    (h : headIndex deferred = none) : headIndex (deferred ++ [d]) = some d.work.index := by
  cases deferred with
  | nil => rfl
  | cons head rest => cases h

theorem headIndex_append_of_some
    (h : headIndex deferred ≠ none) : headIndex (deferred ++ [d]) = headIndex deferred := by
  cases deferred with
  | nil => exact absurd rfl h
  | cons head rest => rfl

theorem slotOwner_eq_none_iff : slotOwner s = none ↔ s.pendingConflict = none := by
  unfold slotOwner
  exact map_eq_none_iff

variable {r : Runner}

theorem Aimed.move (h : Aimed s) (hm : Moves s a s.runner r) : Aimed { s with runner := r } := by
  show r.aims (slotOwner s) s.applyToAll.isSome s.cancellation
  unfold Aimed at h
  generalize s.runner = r₀ at h hm
  cases hm with
  | @passExecuted result _ _ _ _ =>
    rcases result with error | outcome
    · cases error with
      | warning _ _ | conflict _ => exact h
      | notImplemented | failed _ | provider _ => exact trivial
    · exact h
  | retried result =>
    rcases result with error | outcome
    · cases error with
      | conflict _ => rfl
      | notImplemented | failed _ | provider _ | warning _ _ => exact trivial
    · exact h
  | fileFree hnone =>
    have howner := slotOwner_eq_none_iff.mpr hnone
    exact headIndex_append_of_none (h.symm.trans howner)
  | fileTaken hsome =>
    have howner : slotOwner s ≠ none := fun hn => hsome (slotOwner_eq_none_iff.mp hn)
    have hhead : slotOwner s = headIndex _ := h
    rw [hhead] at howner
    exact hhead.trans (headIndex_append_of_some howner).symm
  | firstPassDone => exact fun _ => .inr h
  | answered hall =>
    refine .inr fun hno => ?_
    rw [hall] at hno
    rcases hno with hno | hno <;> cases hno
  | ask hall => exact h (by rw [hall]; rfl)
  | needFree _ => rfl
  | needTaken hsome =>
    have hne : slotOwner s ≠ none := fun hn => hsome (slotOwner_eq_none_iff.mp hn)
    exact h.resolve_left hne
  | waitCancelled hc => exact .inl hc
  | acquire | passAcquired _ | passPlanned _ | unblocked _ | passConfirmed _
  | item _ | passItem _ | callItem | executed _ | passCounted _
  | decided _ _ | undecided | waitOn _ => exact h
  | _ => exact trivial

theorem Runner.aims_mono {owner : Option Nat} {answered answered' cancelled cancelled' : Bool}
    (hanswered : answered = true → answered' = true)
    (hcancelled : cancelled = true → cancelled' = true) (h : r.aims owner answered cancelled) :
    r.aims owner answered' cancelled' := by
  have hback : answered' = false → answered = false := by
    intro hno
    cases hyes : answered with
    | false => rfl
    | true =>
      rw [hanswered hyes] at hno
      cases hno
  cases r with
  | nextDeferred deferred | retrying answer head rest | countRetry outcome head rest =>
    exact fun hno => h (hback hno)
  | checkRetry answer head rest =>
    exact h.imp hcancelled fun hn hno => hn (hno.imp_left hback)
  | _ => exact h

theorem Aimed.of_control (h : Aimed s) (hrunner : s'.runner = s.runner)
    (howner : slotOwner s' = slotOwner s)
    (hall : s.applyToAll.isSome = true → s'.applyToAll.isSome = true)
    (hflag : s.cancellation = true → s'.cancellation = true) : Aimed s' := by
  unfold Aimed
  rw [hrunner, howner]
  exact Runner.aims_mono hall hflag h

theorem Aimed.step (h : Aimed s) (hlife : Lifecycle s) (hstep : Step req s a s') : Aimed s' := by
  -- what the position the step starts from says
  have hat : ∀ {r : Runner}, s.runner = r →
      r.aims (slotOwner s) s.applyToAll.isSome s.cancellation := by
    intro r hr
    rw [← hr]
    exact h
  cases hstep with
  | move hm => exact h.move hm
  | planned plan hr | enterPlanning hr henters =>
    have hnone := hat hr
    exact hnone
  | @announcePlan plan operation hr henters =>
    have hnone := hat hr
    unfold Aimed announced
    cases req <;> exact hnone
  | announcePlanIllegal error hr _ => exact trivial
  | recordWarning hr =>
    have hhead := hat hr
    exact hhead
  | recordItem emitted hr =>
    have hhead := hat hr
    cases emitted <;> exact hhead
  | storeConflict hr =>
    have hindex := hat hr
    exact Eq.symm hindex
  | @announceConflict conflict after operation hr henters =>
    have hindex : slotOwner s = after.index := hat hr
    cases after with
    | item todo deferred | decision head rest => exact hindex
    | retry head rest => exact fun _ => .inr hindex
  | takeDecision hr => rfl
  | leaveWaiting hr henters =>
    have hnone := hat hr
    exact .inr fun _ => hnone
  | callRetry hr hc =>
    have hguard := hat hr
    intro hno
    rcases hguard with hset | hnone
    · simp [hc] at hset
    · exact hnone (.inl hno)
  | countRetry hr =>
    have hnone := hat hr
    exact fun hno => .inl (hnone hno)
  | complete hr henters => exact trivial
  | settleCancelled handler hr =>
    obtain ⟨operation, -, -, heq⟩ := settleCancelled_eq s handler (hlife.alive hr)
    rw [heq]
    exact trivial
  | failJob error hr =>
    obtain ⟨operation, -, heq⟩ := failJob_eq s error (hlife.alive hr)
    rw [heq]
    exact trivial
  | resolveConflict resolution applyToAll hcaller hpending =>
    refine h.of_control rfl ?_ (fun hall => ?_) id
    · unfold slotOwner
      rw [hpending]
      rfl
    · show isSome (if applyToAll = true then _ else _) = true
      split
      case isTrue => rfl
      case isFalse => exact hall
  | cancel hcaller => exact h.of_control rfl rfl id fun _ => rfl
  | republish hcaller =>
    unfold republishPendingConflict
    split <;> exact h
  | _ =>
    exact h.of_control rfl rfl id id

-- ==== tickets

/-- The decision in the slot, as it would be handed over. -/
def slotDelivery (s : State) : Option Delivery :=
  s.pendingConflict.bind fun p => p.decision.map fun d =>
    { ticket := d.ticket, resolution := d.resolution, owner := p.owner }

/-- The decision the runner holds, as it would hand it over. -/
def Runner.hand : Runner → Option Delivery
  | .takeDecision d head _ | .leaveWaiting d head _ =>
    some { ticket := d.ticket, resolution := d.resolution
           owner := head.work.index }
  | .checkRetry answer head _ => answer.ticket.map fun ticket =>
    { ticket := ticket, resolution := answer.resolution
      owner := head.work.index }
  | _ => none

/-- The decision is the one submitted under its ticket, and its owner
the one whose conflict was pending then. -/
def Answers (submissions : List Submission) (d : Delivery) : Prop :=
  ∃ submission, submissions[d.ticket]? = some submission
    ∧ submission.resolution = d.resolution ∧ submission.owner = d.owner

theorem Answers.lt {d : Delivery} (h : Answers submissions d) : d.ticket < submissions.length := by
  obtain ⟨submission, hget, -, -⟩ := h
  exact (List.getElem?_eq_some_iff.mp hget).1

theorem Answers.append {d : Delivery} (h : Answers submissions d) (new : List Submission) :
    Answers (submissions ++ new) d := by
  obtain ⟨submission, hget, hres, howner⟩ := h
  refine ⟨submission, ?_, hres, howner⟩
  rw [List.getElem?_append_left (List.getElem?_eq_some_iff.mp hget).1]
  exact hget

/-- The tickets handed to a retry. -/
def State.delivered (s : State) : List Nat := s.deliveries.map Delivery.ticket

/-- The job was stopped: it ends, and not by getting through. -/
def Stopped (s : State) : Prop :=
  s.runner.phase = .leaving ∧ OperationState.isThrough s.operation.state = false

/-- Where the decisions of a job are. -/
structure Ticketed (s : State) : Prop where
  slot : ∀ d, slotDelivery s = some d →
    Answers s.submissions d ∧ d.ticket ∉ s.delivered
  hand : ∀ d, s.runner.hand = some d →
    Answers s.submissions d ∧ d.ticket ∉ s.delivered
  answers : ∀ d ∈ s.deliveries, Answers s.submissions d
  once : s.delivered.Nodup
  taken : ∀ t ∈ s.taken, t ∈ s.delivered ∨ (∃ d, s.runner.hand = some d ∧ d.ticket = t) ∨ Stopped s

theorem Aimed.slotDelivery_decided (h : Aimed s) (hr : s.runner = .awaitDecision head rest)
    {pending : PendingConflict} {decision : Decision} (hp : s.pendingConflict = some pending)
    (hd : pending.decision = some decision) :
    slotDelivery s = some { ticket := decision.ticket
                            resolution := decision.resolution
                            owner := head.work.index } := by
  have howner : slotOwner s = some head.work.index := by
    unfold Aimed at h
    rw [hr] at h
    exact h
  unfold slotOwner at howner
  rw [hp] at howner
  injection howner with howner
  simp [slotDelivery, hp, hd, howner]

variable {r' : Runner}

theorem Moves.hand (h : Moves s a r r') :
    (r'.hand = none ∧ (r.hand = none ∨ r'.phase = .leaving))
    ∨ ∃ head rest pending decision, r = .awaitDecision head rest
        ∧ r' = .takeDecision decision head rest ∧ s.pendingConflict = some pending
        ∧ pending.decision = some decision := by
  cases h with
  | decided hp hd => exact .inr ⟨_, _, _, _, rfl, rfl, hp, hd⟩
  | @passExecuted result _ _ _ _ | retried result =>
    rcases result with error | outcome
    · cases error <;> exact .inl ⟨rfl, .inl rfl⟩
    · exact .inl ⟨rfl, .inl rfl⟩
  | cancelled _ _ | illegal _ _ _ => exact .inl ⟨rfl, .inr rfl⟩
  | _ => exact .inl ⟨rfl, .inl rfl⟩

theorem Moves.leaving (h : Moves s a r r') (hr : r.phase = .leaving) : r'.phase = .leaving := by
  rcases h.phase with hl | ⟨-, hp | hp⟩ | ⟨hp, -, -⟩ | ⟨hp, -, -⟩
  · exact hl
  all_goals rw [hr] at hp; cases hp

theorem Ticketed.of_same (h : Ticketed s)
    (hslot : slotDelivery s' = slotDelivery s ∨ slotDelivery s' = none)
    (hsubmissions : s'.submissions = s.submissions) (htaken : s'.taken = s.taken)
    (hdeliveries : s'.deliveries = s.deliveries)
    (hhand : s'.runner.hand = s.runner.hand ∨ (s'.runner.hand = none
      ∧ (s.runner.hand = none ∨ Stopped s')))
    (hstopped : Stopped s → Stopped s') : Ticketed s' := by
  have hdelivered : s'.delivered = s.delivered := by
    unfold State.delivered
    rw [hdeliveries]
  constructor
  · intro d hd
    rw [hsubmissions, hdelivered]
    rcases hslot with heq | hnone
    · exact h.slot d (heq ▸ hd)
    · simp [hnone] at hd
  · intro d hd
    rw [hsubmissions, hdelivered]
    rcases hhand with heq | ⟨hnone, -⟩
    · exact h.hand d (heq ▸ hd)
    · simp [hnone] at hd
  · rw [hsubmissions, hdeliveries]
    exact h.answers
  · rw [hdelivered]
    exact h.once
  · intro t ht
    rw [htaken] at ht
    rw [hdelivered]
    rcases h.taken t ht with hin | ⟨d, hd, hticket⟩ | hstop
    · exact .inl hin
    · rcases hhand with heq | ⟨-, hnone | hstop⟩
      · exact .inr (.inl ⟨d, heq ▸ hd, hticket⟩)
      · simp [hnone] at hd
      · exact .inr (.inr hstop)
    · exact .inr (.inr (hstopped hstop))

theorem Ticketed.of_control (h : Ticketed s) (hrunner : s'.runner = s.runner)
    (hpending : s'.pendingConflict = s.pendingConflict)
    (hsubmissions : s'.submissions = s.submissions)
    (htaken : s'.taken = s.taken) (hdeliveries : s'.deliveries = s.deliveries)
    (hthrough : OperationState.isThrough s.operation.state = false →
      OperationState.isThrough s'.operation.state = false) : Ticketed s' := by
  refine h.of_same (.inl ?_) hsubmissions htaken hdeliveries (.inl ?_) ?_
  · unfold slotDelivery
    rw [hpending]
  · rw [hrunner]
  · intro hboth
    obtain ⟨hphase, hnot⟩ := hboth
    exact ⟨by rw [hrunner]; exact hphase, hthrough hnot⟩

theorem Ticketed.move (h : Ticketed s) (haimed : Aimed s) (hlife : Lifecycle s)
    (hm : Moves s a s.runner r) :
    Ticketed { s with runner := r } := by
  have hnot : OperationState.isThrough s.operation.state = false :=
    not_through_of_live (hlife.live hm.not_done)
  have hstopped : Stopped s → Stopped { s with runner := r } := fun hs => ⟨hm.leaving hs.1, hs.2⟩
  rcases hm.hand with ⟨hnone, hwas⟩ | ⟨head, rest, pending, decision, hr, rfl, hp, hd⟩
  · refine h.of_same (.inl rfl) rfl rfl rfl (.inr ⟨hnone, ?_⟩) hstopped
    exact hwas.imp_right fun hl => ⟨hl, hnot⟩
  · have hslot := haimed.slotDelivery_decided hr hp hd
    refine ⟨h.slot, fun d hd' => ?_, h.answers, h.once, fun t ht => ?_⟩
    · injection hd' with heq
      rw [← heq]
      exact h.slot _ hslot
    · rcases h.taken t ht with hin | ⟨d, hhand, -⟩ | hstop
      · exact .inl hin
      · rw [hr] at hhand
        cases hhand
      · exact .inr (.inr (hstopped hstop))

theorem Ticketed.callRetry {answer : Answer}
    (h : Ticketed s) (haimed : Aimed s) (hr : s.runner = .checkRetry answer head rest)
    (hc : s.cancellation = false) : Ticketed (callRetry s answer head rest) := by
  have hworking : ¬ Stopped s := by
    intro hboth
    obtain ⟨hphase, -⟩ := hboth
    rw [hr] at hphase
    cases hphase
  rcases answer with ⟨resolution, ticket⟩
  cases ticket with
  | none =>
    refine h.of_same (.inl rfl) rfl rfl rfl (.inl ?_) fun hs => absurd hs hworking
    rw [hr]
    rfl
  | some ticket =>
    have hhand : s.runner.hand = some { ticket := ticket
                                        resolution := resolution
                                        owner := head.work.index } := by
      rw [hr]
      rfl
    obtain ⟨hanswers, hfresh⟩ := h.hand _ hhand
    have hempty : s.pendingConflict = none := by
      unfold Aimed at haimed
      rw [hr, hc] at haimed
      rcases haimed with hset | hnone
      · cases hset
      · exact slotOwner_eq_none_iff.mp (hnone (.inr rfl))
    refine ⟨fun d hd => ?_, fun d hd => ?_, fun d hd => ?_, ?_, fun t ht => ?_⟩
    · have hslot : slotDelivery s = some d := hd
      unfold slotDelivery at hslot
      rw [hempty] at hslot
      cases hslot
    · cases hd
    · rcases mem_append.mp hd with hold | hnew
      · exact h.answers d hold
      · rw [mem_singleton.mp hnew]
        exact hanswers
    · show (List.map Delivery.ticket (s.deliveries ++ [_])).Nodup
      rw [map_append]
      refine nodup_append.mpr ⟨h.once, by simp, ?_⟩
      intro t ht t' ht' heq
      rw [map_singleton, mem_singleton] at ht'
      rw [heq, ht'] at ht
      exact hfresh ht
    · have hgrow : ∀ {t : Nat}, t ∈ s.delivered →
          t ∈ (Scheduler.callRetry s { resolution := resolution, ticket := some ticket } head
            rest).delivered := by
        intro t hin
        show t ∈ List.map Delivery.ticket (s.deliveries ++ [_])
        rw [map_append]
        exact mem_append_left _ hin
      rcases h.taken t ht with hin | ⟨d, hd, rfl⟩ | hstop
      · exact .inl (hgrow hin)
      · rw [hhand] at hd
        injection hd with heq
        refine .inl ?_
        show d.ticket ∈ List.map Delivery.ticket (s.deliveries ++ [_])
        rw [← heq]
        simp
      · exact absurd hstop hworking

theorem Ticketed.step (h : Ticketed s) (haimed : Aimed s) (hlife : Lifecycle s)
    (hstep : Step req s a s') : Ticketed s' := by
  have hworking : ∀ {r : Runner}, s.runner = r → r.phase ≠ .leaving →
      ∀ {t : State}, Stopped s → Stopped t := by
    intro r hr hp t hs
    exact absurd (hr ▸ hs.1) hp
  cases hstep with
  | move hm => exact h.move haimed hlife hm
  | @announcePlan plan operation hr henters =>
    refine h.of_same (.inl rfl) rfl rfl rfl (.inr ⟨?_, .inl (by rw [hr]; rfl)⟩)
      (hworking hr (by simp [Runner.phase]))
    unfold announced
    cases req <;> rfl
  | recordItem emitted hr =>
    cases emitted <;> exact h.of_same (.inl rfl) rfl rfl rfl (.inr ⟨rfl, .inl (by rw [hr]; rfl)⟩)
        (hworking hr (by simp [Runner.phase]))
  | storeConflict hr =>
    exact h.of_same (.inr rfl) rfl rfl rfl (.inr ⟨rfl, .inl (by rw [hr]; rfl)⟩)
      (hworking hr (by simp [Runner.phase]))
  | @announceConflict conflict after operation hr henters =>
    refine h.of_same (.inl rfl) rfl rfl rfl (.inr ⟨?_, .inl (by rw [hr]; rfl)⟩)
      (hworking hr (by simp [Runner.phase]))
    cases after <;> rfl
  | @takeDecision decision head rest hr =>
    have hkept : Runner.hand (.leaveWaiting decision head rest) = s.runner.hand := by
      rw [hr]
      rfl
    refine ⟨fun d hd => ?_, fun d hd => ?_, h.answers, h.once, fun t ht => ?_⟩
    · cases hd
    · exact h.hand d (hkept ▸ hd)
    · rcases mem_append.mp ht with hold | hnew
      · rcases h.taken t hold with hin | ⟨d, hd, hticket⟩ | hstop
        · exact .inl hin
        · exact .inr (.inl ⟨d, hkept.trans hd, hticket⟩)
        · exact .inr (.inr (hworking hr (by simp [Runner.phase]) hstop))
      · exact .inr (.inl ⟨_, rfl, (mem_singleton.mp hnew).symm⟩)
  | leaveWaiting hr henters =>
    refine h.of_same (.inl rfl) rfl rfl rfl (.inl ?_) (hworking hr (by simp [Runner.phase]))
    rw [hr]
    rfl
  | callRetry hr hc => exact h.callRetry haimed hr hc
  | planned plan hr | enterPlanning hr henters | announcePlanIllegal error hr _ | recordWarning hr
  | countRetry hr | complete hr henters =>
    exact h.of_same (.inl rfl) rfl rfl rfl (.inr ⟨rfl, .inl (by rw [hr]; rfl)⟩)
      (hworking hr (by simp [Runner.phase]))
  | settleCancelled handler hr =>
    obtain ⟨operation, hstate, -, heq⟩ := settleCancelled_eq s handler (hlife.alive hr)
    rw [heq]
    refine h.of_same (.inl rfl) rfl rfl rfl (.inr ⟨rfl, .inl (by rw [hr]; rfl)⟩) fun _ => ⟨rfl, ?_⟩
    simp [hstate, OperationState.isThrough]
  | failJob error hr =>
    obtain ⟨operation, henters, heq⟩ := failJob_eq s error (hlife.alive hr)
    rw [heq]
    refine h.of_same (.inl rfl) rfl rfl rfl (.inr ⟨rfl, .inl (by rw [hr]; rfl)⟩) fun _ => ⟨rfl, ?_⟩
    simp [henters.state, OperationState.isThrough]
  | @resolveConflict pending resolution applyToAll hcaller hp =>
    have hnew : s.submissions.length ∉ s.delivered := by
      intro hin
      obtain ⟨d, hd, hticket⟩ := mem_map.mp hin
      have hlt := (h.answers d hd).lt
      omega
    refine ⟨fun d hd => ?_, fun d hd => ?_, fun d hd => ?_, h.once, h.taken⟩
    · simp only [slotDelivery, bind_some, map_some, some.injEq] at hd
      rw [← hd]
      exact ⟨⟨_, List.getElem?_concat_length, rfl, rfl⟩, hnew⟩
    · exact ⟨(h.hand d hd).1.append _, (h.hand d hd).2⟩
    · exact (h.answers d hd).append _
  | pause hcaller henters
  | resume hcaller henters | confirm hcaller henters | cancelTransition hcaller henters =>
    exact h.of_control rfl rfl rfl rfl rfl fun _ => by
      simp [henters.state, OperationState.isThrough]
  | republish hcaller =>
    unfold republishPendingConflict
    split <;> exact h.of_control rfl rfl rfl rfl rfl id
  | pauseToken _ | resumeToken _ | cancel _ | cancelToken _
  | cancelIgnored _ _ | tick _ => exact h.of_control rfl rfl rfl rfl rfl id

-- ==== who raised a conflict

/-- The item whose execution is in flight. -/
def Runner.calls : Runner → Option Nat
  | .executing _ work _ _ => some work.index
  | .retrying _ head _ => some head.work.index
  | _ => none

/-- The execution of the item at `index` returns `conflict`. -/
def Raises (index : Nat) (conflict : OperationConflict) (s : State) (a : Action) : Prop :=
  s.runner.calls = some index ∧ a = .executeReturns (.error (.conflict conflict))

/-- The conflicts of deferred items, with their items. -/
def raisedBy (deferred : List Deferred) : List (Nat × OperationConflict) :=
  deferred.map fun d => (d.work.index, d.conflict)

def After.carries : After → List (Nat × OperationConflict)
  | .item _ deferred => raisedBy deferred
  | .decision head rest | .retry head rest => raisedBy (head :: rest)

/-- The conflicts a position carries, with the items they are for. -/
def Runner.carries : Runner → List (Nat × OperationConflict)
  | .nextItem _ deferred | .checkItem _ _ deferred | .callItem _ _ deferred
  | .executing _ _ _ deferred | .recordWarning _ _ _ deferred
  | .countItem _ _ _ deferred | .checkCounted _ deferred
  | .nextDeferred deferred => raisedBy deferred
  | .checkExecuted (.error (.conflict conflict)) work _ deferred
  | .fileConflict conflict work _ deferred =>
    (work.index, conflict) :: raisedBy deferred
  | .checkExecuted _ _ _ deferred => raisedBy deferred
  | .storeConflict conflict index after => (index, conflict) :: after.carries
  | .announceConflict _ after => after.carries
  | .needConflict head rest | .awaitDecision head rest
  | .awaitCancellation head rest | .takeDecision _ head rest
  | .leaveWaiting _ head rest | .checkRetry _ head rest
  | .retrying _ head rest | .countRetry _ head rest =>
    raisedBy (head :: rest)
  | _ => []

/-- Every conflict the job knows of was raised by its item. -/
structure Traced (raised : Nat → OperationConflict → Prop) (s : State) :
    Prop where
  carried : ∀ p ∈ s.runner.carries, raised p.1 p.2
  slot : ∀ pending, s.pendingConflict = some pending →
    raised pending.owner pending.conflict
  submitted : ∀ submission ∈ s.submissions, raised submission.owner submission.conflict

theorem After.runner_carries (after : After) : after.runner.carries = after.carries := by
  cases after <;> rfl

theorem Moves.carries (h : Moves s a r r') :
    ∀ p ∈ r'.carries, p ∈ r.carries
      ∨ (r.calls = some p.1 ∧ a = .executeReturns (.error (.conflict p.2))) := by
  intro p hp
  cases h with
  | executed result =>
    rcases result with error | outcome
    · cases error with
      | conflict c =>
        rcases mem_cons.mp hp with rfl | hold
        · exact .inr ⟨rfl, rfl⟩
        · exact .inl hold
      | notImplemented | failed _ | provider _ | warning _ _ => exact .inl hp
    · exact .inl hp
  | @passExecuted result _ _ _ _ =>
    rcases result with error | outcome
    · cases error with
      | conflict _ | warning _ _ => exact .inl hp
      | notImplemented | failed _ | provider _ => cases hp
    · exact .inl hp
  | retried result =>
    rcases result with error | outcome
    · cases error with
      | conflict c =>
        rcases mem_cons.mp hp with rfl | hold
        · exact .inr ⟨rfl, rfl⟩
        · exact .inl hold
      | notImplemented | failed _ | provider _ | warning _ _ => cases hp
    · exact .inl hp
  | @fileFree conflict work todo deferred _ =>
    refine .inl ?_
    simp only [Runner.carries, After.carries, raisedBy, map_append,
      mem_cons, mem_append, map_cons, map_nil] at hp ⊢
    tauto
  | @fileTaken conflict work todo deferred _ =>
    refine .inl ?_
    simp only [Runner.carries, raisedBy, map_append, mem_cons,
      mem_append, map_cons, map_nil] at hp ⊢
    tauto
  | needFree _ =>
    rcases mem_cons.mp hp with rfl | hold
    · exact .inl mem_cons_self
    · exact .inl hold
  | firstPassDone | item _ | passItem _ | callItem | passCounted _
  | answered _ | ask _ | needTaken _ | decided _ _ | undecided
  | waitCancelled _ | waitOn _ => exact .inl hp
  | _ => cases hp

theorem Traced.of_same (h : Traced raised s)
    (hmono : ∀ index conflict, raised index conflict → raised' index conflict)
    (hcarried : ∀ p ∈ s'.runner.carries, p ∈ s.runner.carries)
    (hslot : s'.pendingConflict = s.pendingConflict ∨ s'.pendingConflict = none)
    (hsubmissions : s'.submissions = s.submissions) : Traced raised' s' := by
  refine ⟨fun p hp => hmono _ _ (h.carried p (hcarried p hp)),
    fun pending hpending => ?_, fun submission hin => ?_⟩
  · rcases hslot with heq | hnone
    · exact hmono _ _ (h.slot pending (heq ▸ hpending))
    · simp [hnone] at hpending
  · exact hmono _ _ (h.submitted submission (hsubmissions ▸ hin))

theorem Traced.step (h : Traced raised s) (hlife : Lifecycle s)
    (hmono : ∀ index conflict, raised index conflict → raised' index conflict)
    (hnow : ∀ index conflict, Raises index conflict s a → raised' index conflict)
    (hstep : Step req s a s') : Traced raised' s' := by
  have hkeep : ∀ {r : Runner}, s.runner = r → ∀ {l : List (Nat × OperationConflict)},
      (∀ p ∈ l, p ∈ r.carries) → ∀ p ∈ l, p ∈ s.runner.carries := by
    intro r hr l hl p hp
    rw [hr]
    exact hl p hp
  cases hstep with
  | move hm =>
    refine ⟨fun p hp => ?_, fun pending hpending => ?_, fun submission hin => ?_⟩
    · rcases hm.carries p hp with hold | hnew
      · exact hmono _ _ (h.carried p hold)
      · exact hnow _ _ hnew
    · exact hmono _ _ (h.slot pending hpending)
    · exact hmono _ _ (h.submitted submission hin)
  | @announcePlan plan operation hr henters =>
    refine h.of_same hmono (fun p hp => ?_) (.inl rfl) rfl
    unfold announced at hp
    cases req <;> cases hp
  | recordItem emitted hr =>
    cases emitted <;> exact h.of_same hmono (hkeep hr fun p hp => hp) (.inl rfl) rfl
  | @storeConflict conflict index after hr =>
    have hcarried : ∀ p ∈ (index, conflict) :: after.carries,
        p ∈ s.runner.carries := hkeep hr fun p hp => hp
    refine ⟨fun p hp => ?_, fun pending hpending => ?_, fun submission hin => ?_⟩
    · exact hmono _ _ (h.carried p (hcarried p (mem_cons_of_mem _ hp)))
    · injection hpending with heq
      rw [← heq]
      exact hmono _ _ (h.carried _ (hcarried _ mem_cons_self))
    · exact hmono _ _ (h.submitted submission hin)
  | @announceConflict conflict after operation hr henters =>
    refine h.of_same hmono (hkeep hr fun p hp => ?_) (.inl rfl) rfl
    rw [After.runner_carries] at hp
    exact hp
  | takeDecision hr =>
    exact h.of_same hmono (hkeep hr fun p hp => hp) (.inr rfl) rfl
  | recordWarning hr | leaveWaiting hr henters | callRetry hr _ =>
    exact h.of_same hmono (hkeep hr fun p hp => hp) (.inl rfl) rfl
  | countRetry hr =>
    exact h.of_same hmono (hkeep hr fun p hp => mem_cons_of_mem _ hp) (.inl rfl) rfl
  | settleCancelled handler hr =>
    obtain ⟨operation, -, -, heq⟩ := settleCancelled_eq s handler (hlife.alive hr)
    rw [heq]
    exact h.of_same hmono (fun p hp => by cases hp) (.inl rfl) rfl
  | failJob error hr =>
    obtain ⟨operation, -, heq⟩ := failJob_eq s error (hlife.alive hr)
    rw [heq]
    exact h.of_same hmono (fun p hp => by cases hp) (.inl rfl) rfl
  | @resolveConflict pending resolution applyToAll hcaller hp =>
    have hpending := hmono _ _ (h.slot pending hp)
    refine ⟨fun p hp => hmono _ _ (h.carried p hp), fun pending' heq => ?_,
      fun submission hin => ?_⟩
    · injection heq with heq
      rw [← heq]
      exact hpending
    · rcases mem_append.mp hin with hold | hnew
      · exact hmono _ _ (h.submitted submission hold)
      · rw [mem_singleton.mp hnew]
        exact hpending
  | republish hcaller =>
    unfold republishPendingConflict
    split <;> exact h.of_same hmono (fun p hp => hp) (.inl rfl) rfl
  | pause _ _ | resume _ _ | confirm _ _ | cancelTransition _ _
  | pauseToken _ | resumeToken _ | cancel _ | cancelToken _
  | cancelIgnored _ _ | tick _ =>
    exact h.of_same hmono (fun p hp => hp) (.inl rfl) rfl
  | _ =>
    exact h.of_same hmono (fun p hp => by cases hp) (.inl rfl) rfl

-- ==== rounds

/-- The decision of that ticket was accepted for the pending conflict,
in the round that goes on. -/
def InRound (s : State) (pending : PendingConflict) (ticket : Nat) : Prop :=
  ∃ submission : Submission, s.submissions[ticket]? = some submission
    ∧ submission.round = s.taken.length ∧ submission.owner = pending.owner ∧ submission.conflict = pending.conflict

/-- The ticket of a decision that was read and not taken yet. -/
def Runner.reading : Runner → Option Nat
  | .takeDecision decision _ _ => some decision.ticket
  | _ => none

/-- The ticket of a decision that was taken and not handed over yet. -/
def Runner.kept : Runner → Option Nat
  | .leaveWaiting decision _ _ => some decision.ticket
  | .checkRetry answer _ _ => answer.ticket
  | _ => none

/-- The runner is about to fill the slot, or every item is done. -/
def Runner.isClear : Runner → Bool
  | .storeConflict .. | .awaitFinish | .checkFinish | .finishing | .complete => true
  | _ => false

theorem Runner.reading_kept_of_hand (h : r.hand = none) : r.reading = none ∧ r.kept = none := by
  cases r with
  | takeDecision | leaveWaiting => cases h
  | checkRetry answer head rest => exact ⟨rfl, map_eq_none_iff.mp h⟩
  | _ => exact ⟨rfl, rfl⟩

/-- What a job knows of the rounds. Without a decision for all, a round
lasts from the storing of one conflict to the taking of its decision:
the slot is empty where the runner is to fill it and once it is
through. -/
structure Rounds (s : State) : Prop where
  decision : ∀ pending decision, s.pendingConflict = some pending →
    pending.decision = some decision →
      decision.ticket + 1 = s.submissions.length ∧ InRound s pending decision.ticket
  reading : ∀ ticket, s.runner.reading = some ticket →
    ∃ pending, s.pendingConflict = some pending ∧ InRound s pending ticket
  kept : ∀ ticket, s.runner.kept = some ticket → ticket ∈ s.taken
  delivered : ∀ ticket ∈ s.delivered, ticket ∈ s.taken
  taken : ∀ round ticket, s.taken[round]? = some ticket →
    ∃ submission : Submission, s.submissions[ticket]? = some submission
      ∧ submission.round = round
  asked : s.applyToAll = none ∨ ∃ submission ∈ s.submissions, submission.applyToAll = true
  clear : s.applyToAll = none → s.runner.isClear = true → s.pendingConflict = none
  through : s.applyToAll = none → OperationState.isThrough s.operation.state = true →
    s.pendingConflict = none
  pending : s.applyToAll = none → ∀ submission ∈ s.submissions,
    (∃ (ticket : Nat) (answer : Submission), s.taken[submission.round]? = some ticket
      ∧ s.submissions[ticket]? = some answer
      ∧ answer.owner = submission.owner ∧ answer.conflict = submission.conflict)
    ∨ (submission.round = s.taken.length ∧ ∃ pending, s.pendingConflict = some pending
      ∧ pending.owner = submission.owner ∧ pending.conflict = submission.conflict)

variable {pending : PendingConflict} {ticket : Nat}

theorem Rounds.of_same (h : Rounds s) (hpending : s'.pendingConflict = s.pendingConflict)
    (hall : s'.applyToAll = s.applyToAll) (htaken : s'.taken = s.taken)
    (hsubmissions : s'.submissions = s.submissions) (hdeliveries : s'.deliveries = s.deliveries)
    (hreading : ∀ ticket, s'.runner.reading = some ticket → ∃ pending,
      s.pendingConflict = some pending ∧ InRound s pending ticket)
    (hkept : ∀ ticket, s'.runner.kept = some ticket → ticket ∈ s.taken)
    (hclear : s'.runner.isClear = true → s.applyToAll = none → s.pendingConflict = none)
    (hthrough : OperationState.isThrough s'.operation.state = true →
      OperationState.isThrough s.operation.state = true ∨ s.runner.isClear = true) :
    Rounds s' := by
  have hround : ∀ {pending ticket}, InRound s pending ticket → InRound s' pending ticket := by
    intro pending ticket
    unfold InRound
    rw [hsubmissions, htaken]
    exact id
  refine ⟨?_, ?_, ?_, ?_, ?_, ?_, ?_, ?_, ?_⟩
  · rw [hpending, hsubmissions]
    exact fun pending decision hp hd => (h.decision pending decision hp hd).imp_right hround
  · intro ticket ht
    obtain ⟨pending, hp, hin⟩ := hreading ticket ht
    exact ⟨pending, hpending.trans hp, hround hin⟩
  · rw [htaken]
    exact hkept
  · unfold State.delivered
    rw [hdeliveries, htaken]
    exact h.delivered
  · rw [htaken, hsubmissions]
    exact h.taken
  · rw [hall, hsubmissions]
    exact h.asked
  · rw [hall, hpending]
    exact fun hnone hr => hclear hr hnone
  · rw [hall, hpending]
    exact fun hnone ht => (hthrough ht).elim (h.through hnone) (h.clear hnone)
  · rw [hall, hsubmissions, htaken, hpending]
    exact h.pending

theorem Moves.clear (h : Moves s a r r') (haims : r.aims (slotOwner s) false s.cancellation)
    (hnew : r'.isClear = true) : r.isClear = true ∨ s.pendingConflict = none := by
  cases h with
  | fileFree hnone | needFree hnone => exact .inr hnone
  | deferredDone => exact .inr (slotOwner_eq_none_iff.mp ((haims rfl).elim id id))
  | finish _ | passFinish _ | finished => exact .inl rfl
  | retried result => exact .inr (slotOwner_eq_none_iff.mp (haims rfl))
  | @passExecuted result _ _ _ _ =>
    rcases result with error | outcome
    · cases error <;> cases hnew
    · cases hnew
  | _ => cases hnew

theorem Rounds.move (h : Rounds s) (haimed : Aimed s) (hm : Moves s a s.runner r) :
    Rounds { s with runner := r } := by
  have hclear : r.isClear = true → s.applyToAll = none → s.pendingConflict = none := by
    intro hr hnone
    unfold Aimed at haimed
    rw [hnone] at haimed
    exact (hm.clear haimed hr).elim (h.clear hnone) id
  rcases hm.hand with ⟨hnone, -⟩ | ⟨head, rest, pending, decision, hr, rfl, hp, hd⟩
  · obtain ⟨hreading, hkept⟩ := Runner.reading_kept_of_hand hnone
    refine h.of_same rfl rfl rfl rfl rfl (fun ticket ht => ?_) (fun ticket ht => ?_) hclear .inl
    · simp [hreading] at ht
    · simp [hkept] at ht
  · refine h.of_same rfl rfl rfl rfl rfl (fun ticket ht => ?_) nofun nofun .inl
    obtain rfl := some.inj ht
    exact ⟨pending, hp, (h.decision pending decision hp hd).2⟩

theorem Rounds.takeDecision {decision : Decision} (h : Rounds s)
    (hr : s.runner = .takeDecision decision head rest) :
    Rounds { s with
      pendingConflict := none
      runner := .leaveWaiting decision head rest
      taken := s.taken ++ [decision.ticket] } := by
  obtain ⟨pending, hp, answer, hget, hround, howner, hconflict⟩ :=
    h.reading decision.ticket (by rw [hr]; rfl)
  refine ⟨nofun, nofun, ?_, fun ticket ht => mem_append_left _ (h.delivered ticket ht), ?_,
    h.asked, fun _ _ => rfl, fun _ _ => rfl, fun hnone submission hin => .inl ?_⟩
  · intro ticket ht
    obtain rfl := some.inj ht
    exact mem_append_right _ mem_cons_self
  · intro round ticket ht
    rw [getElem?_append] at ht
    split at ht
    case isTrue => exact h.taken round ticket ht
    case isFalse hge =>
      obtain ⟨hlt, rfl⟩ := List.getElem?_eq_some_iff.mp ht
      simp only [length_singleton, Nat.lt_one_iff] at hlt
      exact ⟨answer, by simpa [hlt] using hget, by omega⟩
  · rcases h.pending hnone submission hin with
      ⟨ticket, old, ht, hold⟩ | ⟨hnow, pending', hp', howner', hconflict'⟩
    · exact ⟨ticket, old, (getElem?_append_left (List.getElem?_eq_some_iff.mp ht).1).trans ht, hold⟩
    · obtain rfl := some.inj (hp.symm.trans hp')
      refine ⟨decision.ticket, answer, ?_, hget, howner.trans howner', hconflict.trans hconflict'⟩
      rw [hnow]
      exact getElem?_concat_length

theorem Rounds.callRetry {answer : Answer} (h : Rounds s)
    (hr : s.runner = .checkRetry answer head rest) : Rounds (callRetry s answer head rest) := by
  have hsame : Rounds { s with runner := .retrying answer head rest } :=
    h.of_same rfl rfl rfl rfl rfl nofun nofun nofun .inl
  refine ⟨hsame.decision, hsame.reading, hsame.kept, ?_, hsame.taken, hsame.asked, hsame.clear,
    hsame.through, hsame.pending⟩
  rcases answer with ⟨resolution, ticket⟩
  cases ticket with
  | none => exact h.delivered
  | some ticket =>
    intro t ht
    simp only [State.delivered, Scheduler.callRetry, map_append, mem_append] at ht
    rcases ht with hold | hnew
    · exact h.delivered t hold
    · rw [mem_singleton.mp hnew]
      exact h.kept ticket (by rw [hr]; rfl)

/-- An accepted decision is of the current round. -/
theorem Rounds.resolveConflict {resolution : ConflictResolution} {applyToAll : Bool}
    (h : Rounds s) (hp : s.pendingConflict = some pending) :
    Rounds { s with
      pendingConflict := some { pending with
        decision := some { resolution := resolution, ticket := s.submissions.length } }
      applyToAll := if applyToAll then some resolution else s.applyToAll
      submissions := s.submissions ++
        [{ resolution := resolution, applyToAll := applyToAll
           conflict := pending.conflict, owner := pending.owner
           round := s.taken.length }] } := by
  have hgrow : ∀ {ticket submission} {new : Submission}, s.submissions[ticket]? = some submission →
      (s.submissions ++ [new])[ticket]? = some submission := fun hget =>
    (getElem?_append_left (List.getElem?_eq_some_iff.mp hget).1).trans hget
  have hfilled : s.pendingConflict ≠ none := by
    rw [hp]
    exact nofun
  have hwas : (if applyToAll then some resolution else s.applyToAll) = none →
      s.applyToAll = none := by
    intro hnone
    cases applyToAll with
    | false => exact hnone
    | true => cases hnone
  refine ⟨?_, ?_, h.kept, h.delivered, ?_, ?_, ?_, ?_, fun hnone submission hin => ?_⟩
  · intro pending' decision hp' hd
    obtain rfl := some.inj hp'
    obtain rfl := some.inj hd
    exact ⟨by simp, _, getElem?_concat_length, rfl, rfl, rfl⟩
  · intro ticket ht
    obtain ⟨pending', hp', submission, hget, hsame⟩ := h.reading ticket ht
    obtain rfl := some.inj (hp.symm.trans hp')
    exact ⟨_, rfl, submission, hgrow hget, hsame⟩
  · intro round ticket ht
    obtain ⟨submission, hget, hround⟩ := h.taken round ticket ht
    exact ⟨submission, hgrow hget, hround⟩
  · cases applyToAll with
    | true => exact .inr ⟨_, mem_append_right _ mem_cons_self, rfl⟩
    | false =>
      refine h.asked.imp_right ?_
      rintro ⟨submission, hin, hall⟩
      exact ⟨submission, mem_append_left _ hin, hall⟩
  · exact fun hnone hr => absurd (h.clear (hwas hnone) hr) hfilled
  · exact fun hnone ht => absurd (h.through (hwas hnone) ht) hfilled
  · rcases mem_append.mp hin with hold | hnew
    · refine (h.pending (hwas hnone) submission hold).imp ?_ ?_
      · rintro ⟨ticket, answer, ht, hget, hsame⟩
        exact ⟨ticket, answer, ht, hgrow hget, hsame⟩
      · rintro ⟨hround, pending', hp', hsame⟩
        obtain rfl := some.inj (hp.symm.trans hp')
        exact ⟨hround, _, rfl, hsame⟩
    · obtain rfl := mem_singleton.mp hnew
      exact .inr ⟨rfl, _, rfl, rfl, rfl⟩

theorem Rounds.storeConflict {conflict : OperationConflict} {index : Nat} {after : After}
    (h : Rounds s) (hlive : OperationState.isThrough s.operation.state = false)
    (hr : s.runner = .storeConflict conflict index after) :
    Rounds { s with
      pendingConflict := some { conflict := conflict, decision := none, owner := index }
      runner := .announceConflict conflict after } := by
  refine ⟨?_, nofun, nofun, h.delivered, h.taken, h.asked, fun _ => nofun, ?_, ?_⟩
  · intro pending decision hp hd
    obtain rfl := some.inj hp
    cases hd
  · intro _ ht
    simp [hlive] at ht
  · intro hnone submission hin
    refine (h.pending hnone submission hin).imp_right ?_
    rintro ⟨-, pending, hp, -⟩
    rw [h.clear hnone (by rw [hr]; rfl)] at hp
    cases hp

theorem Rounds.step (h : Rounds s) (haimed : Aimed s) (hlife : Lifecycle s)
    (hstep : Step req s a s') : Rounds s' := by
  have hcontrol : ∀ {t : State}, t.runner = s.runner → t.pendingConflict = s.pendingConflict →
      t.applyToAll = s.applyToAll → t.taken = s.taken → t.submissions = s.submissions →
      t.deliveries = s.deliveries → (OperationState.isThrough t.operation.state = true →
        OperationState.isThrough s.operation.state = true) → Rounds t := by
    intro t hsame hpending hall htaken hsubmissions hdeliveries hthrough
    refine h.of_same hpending hall htaken hsubmissions hdeliveries ?_ ?_ ?_
      fun ht => .inl (hthrough ht)
    · rw [hsame]
      exact h.reading
    · rw [hsame]
      exact h.kept
    · rw [hsame]
      exact fun hr hnone => h.clear hnone hr
  cases hstep with
  | move hm => exact h.move haimed hm
  | planned plan hr | announcePlanIllegal error hr _ | recordWarning hr | countRetry hr =>
    exact h.of_same rfl rfl rfl rfl rfl nofun nofun nofun .inl
  | enterPlanning hr henters =>
    exact h.of_same rfl rfl rfl rfl rfl nofun nofun nofun (henters.not_through rfl)
  | @announcePlan plan operation hr henters =>
    refine h.of_same rfl rfl rfl rfl rfl ?_ ?_ ?_
      (henters.not_through (announced_not_through req plan)) <;>
      unfold announced <;> cases req <;> exact nofun
  | recordItem emitted hr =>
    cases emitted <;> exact h.of_same rfl rfl rfl rfl rfl nofun nofun nofun .inl
  | storeConflict hr =>
    exact h.storeConflict (not_through_of_live (hlife.alive hr)) hr
  | @announceConflict conflict after operation hr henters =>
    refine h.of_same rfl rfl rfl rfl rfl ?_ ?_ ?_ (henters.not_through rfl) <;>
      cases after <;> exact nofun
  | takeDecision hr => exact h.takeDecision hr
  | leaveWaiting hr henters =>
    refine h.of_same rfl rfl rfl rfl rfl nofun (fun ticket ht => ?_) nofun (henters.not_through rfl)
    exact h.kept ticket (by rw [hr]; exact ht)
  | callRetry hr _ => exact h.callRetry hr
  | complete hr henters =>
    exact h.of_same rfl rfl rfl rfl rfl nofun nofun nofun fun _ => .inr (by rw [hr]; rfl)
  | settleCancelled handler hr =>
    obtain ⟨operation, hstate, -, heq⟩ := settleCancelled_eq s handler (hlife.alive hr)
    rw [heq]
    refine h.of_same rfl rfl rfl rfl rfl nofun nofun nofun fun ht => ?_
    simp [hstate, OperationState.isThrough] at ht
  | failJob error hr =>
    obtain ⟨operation, henters, heq⟩ := failJob_eq s error (hlife.alive hr)
    rw [heq]
    exact h.of_same rfl rfl rfl rfl rfl nofun nofun nofun (henters.not_through rfl)
  | resolveConflict resolution applyToAll hcaller hp => exact h.resolveConflict hp
  | republish hcaller =>
    unfold republishPendingConflict
    split <;> exact hcontrol rfl rfl rfl rfl rfl rfl id
  | pause _ henters | resume _ henters | confirm _ henters | cancelTransition _ henters =>
    exact hcontrol rfl rfl rfl rfl rfl rfl (henters.not_through rfl)
  | _ =>
    exact hcontrol rfl rfl rfl rfl rfl rfl id

/-- Of the decisions of one round that were taken there is but one. -/
theorem Rounds.taken_unique (h : Rounds s) {submission submission' : Submission}
    {ticket ticket' : Nat} (ht : s.taken[submission.round]? = some ticket)
    (ht' : ticket' ∈ s.taken) (hget' : s.submissions[ticket']? = some submission')
    (hround : submission'.round = submission.round) : ticket' = ticket := by
  obtain ⟨round, hround'⟩ := mem_iff_getElem?.mp ht'
  obtain ⟨answer, hget, rfl⟩ := h.taken round ticket' hround'
  obtain rfl := some.inj (hget.symm.trans hget')
  rw [hround] at hround'
  exact some.inj (hround'.symm.trans ht)

-- ==== the results

/-- In every run, a decision is handed to one `execute` call only, that
of the item whose execution raised the conflict it was submitted for;
the slot holds the last one accepted, for the conflict that is pending;
one that the runner took is handed to its call, unless the job is
stopped. Once the job is through, and no decision was for all, of the
decisions accepted while a conflict was pending exactly one was handed
over, to the retry of its item. -/
theorem decisions_reach_their_item {request : Request} {now : Timestamp} {acts : List Action}
    (hrun : Run (apply req) Free (startOperation request now) acts s) :
    (∀ d ∈ s.deliveries, ∃ submission, s.submissions[d.ticket]? = some submission
        ∧ submission.resolution = d.resolution ∧ submission.owner = d.owner
        ∧ Happened (apply req) Free (startOperation request now) acts
            (Raises d.owner submission.conflict))
    ∧ (s.deliveries.map Delivery.ticket).Nodup
    ∧ (∀ pending decision, s.pendingConflict = some pending → pending.decision = some decision →
        decision.ticket + 1 = s.submissions.length ∧ InRound s pending decision.ticket)
    ∧ (∀ t ∈ s.taken, t ∈ s.deliveries.map Delivery.ticket
        ∨ (∃ d, s.runner.hand = some d ∧ d.ticket = t) ∨ Stopped s)
    ∧ (OperationState.isThrough s.operation.state = true →
        (∀ submission ∈ s.submissions, submission.applyToAll = false) →
        ∀ submission ∈ s.submissions, ∃ d ∈ s.deliveries, d.owner = submission.owner
          ∧ (∃ answer, s.submissions[d.ticket]? = some answer ∧ answer.round = submission.round
            ∧ answer.conflict = submission.conflict)
          ∧ ∀ d' ∈ s.deliveries, ∀ answer', s.submissions[d'.ticket]? = some answer' →
            answer'.round = submission.round → d' = d) := by
  have hinv : Aimed s ∧ Ticketed s ∧ Rounds s ∧ Traced (fun index conflict =>
      Happened (apply req) Free (startOperation request now) acts (Raises index conflict)) s := by
    refine run_invariant_trace (P := fun acts s => Aimed s ∧ Ticketed s ∧ Rounds s
      ∧ Traced (fun index conflict =>
          Happened (apply req) Free (startOperation request now) acts
            (Raises index conflict)) s) hrun ?_ ?_
    · exact ⟨rfl, ⟨nofun, nofun, nofun, List.nodup_nil, nofun⟩,
        ⟨nofun, nofun, nofun, nofun, nofun, .inl rfl, fun _ _ => rfl, fun _ _ => rfl, nofun⟩,
        nofun, nofun, nofun⟩
    · intro acts s s' a hbefore hlife _ hstep ⟨haimed, hticketed, hrounds, htraced⟩
      refine ⟨haimed.step hlife hstep, hticketed.step haimed hlife hstep,
        hrounds.step haimed hlife hstep, ?_⟩
      exact htraced.step hlife (fun _ _ h => h.concat a) (fun _ _ h => hbefore.happened h) hstep
  obtain ⟨-, hticketed, hrounds, htraced⟩ := hinv
  refine ⟨fun d hd => ?_, hticketed.once, hrounds.decision, hticketed.taken, ?_⟩
  · obtain ⟨submission, hget, hres, howner⟩ := hticketed.answers d hd
    refine ⟨submission, hget, hres, howner, ?_⟩
    rw [← howner]
    exact htraced.submitted submission (List.mem_of_getElem? hget)
  · intro hthrough hsingle submission hin
    have hnone : s.applyToAll = none := by
      refine hrounds.asked.resolve_right ?_
      rintro ⟨other, hother, hall⟩
      rw [hsingle other hother] at hall
      cases hall
    have hdone : s.runner = .done := by
      have hterminal : s.operation.state.isTerminal = true := by
        cases hs : s.operation.state <;> rw [hs] at hthrough <;> first | rfl | cases hthrough
      exact run_invariant (P := fun _ => TerminalDone) hrun (Lifecycle.start request now).done
        (fun hlife _ hstep _ => hlife.done.step hstep) hterminal
    rcases hrounds.pending hnone submission hin with
      ⟨ticket, answer, ht, hget, howner, hconflict⟩ | ⟨-, pending, hp, -⟩
    · have htaken := List.mem_of_getElem? ht
      have hdelivered : ticket ∈ s.delivered := by
        rcases hticketed.taken ticket htaken with hin | ⟨d, hd, -⟩ | ⟨-, hnot⟩
        · exact hin
        · rw [hdone] at hd
          cases hd
        · simp [hthrough] at hnot
      obtain ⟨d, hd, rfl⟩ := mem_map.mp hdelivered
      obtain ⟨answer', hget', -, howner'⟩ := hticketed.answers d hd
      obtain rfl := some.inj (hget.symm.trans hget')
      obtain ⟨same, hsame, hround⟩ := hrounds.taken _ _ ht
      obtain rfl := some.inj (hget.symm.trans hsame)
      refine ⟨d, hd, howner'.symm.trans howner, ⟨answer, hget, hround, hconflict⟩, ?_⟩
      intro d' hd' answer' hget' hround'
      have hticket := hrounds.taken_unique ht (hrounds.delivered _ (mem_map_of_mem hd')) hget' hround'
      exact inj_on_of_nodup_map hticketed.once hd' hd hticket
    · rw [hrounds.through hnone hthrough] at hp
      cases hp

/-- The first item conflicts, the second does not; the first is retried
with the decisions `decisions`, given before the runner looks. -/
def decidedRun (decisions : List Action) : List Action :=
  planScript (samplePlan 3 4) ++ executeScript (.error (.conflict (sampleConflict 1)))
    ++ [.runner, .runner, .runner] ++ itemScript .completed
    ++ [.runner, .runner, .runner] ++ decisions
    ++ [.runner, .runner, .runner, .runner, .executeReturns (.ok .completed),
      .runner, .runner, .runner, .runner, .finishReturns (.ok ()), .runner]

/-- Of two decisions that were accepted for one conflict, one is handed
over. -/
theorem decisions_reach_their_item_retry :
    ∃ s, Run (apply false) Free (startOperation sampleRequest 0)
        (decidedRun [.resolveConflict .skip false, .resolveConflict .overwrite false]) s
      ∧ s.operation.state = .completed ∧ s.submissions.length = 2
      ∧ ∀ submission ∈ s.submissions, ∃ d ∈ s.deliveries, d.owner = submission.owner := by
  obtain ⟨s, hrun, hstate, hlength, hsingle⟩ := Run.exists_of_run
    (show (run (apply false) (startOperation sampleRequest 0)
      (decidedRun [.resolveConflict .skip false, .resolveConflict .overwrite false])).any
      (fun s => decide (s.operation.state = .completed ∧ s.submissions.length = 2
        ∧ ∀ submission ∈ s.submissions, submission.applyToAll = false)) = true from by decide)
  refine ⟨s, hrun, hstate, hlength, fun submission hin => ?_⟩
  obtain ⟨-, -, -, -, hrounds⟩ := decisions_reach_their_item hrun
  obtain ⟨d, hd, howner, -⟩ := hrounds (by rw [hstate]; rfl) hsingle submission hin
  exact ⟨d, hd, howner⟩

/-- Both items conflict; the decision for the first is sent again when
the second is the one that is asked about. -/
def repeatedRun : List Action :=
  planScript (samplePlan 3 4) ++ executeScript (.error (.conflict (sampleConflict 1)))
    ++ [.runner, .runner, .runner]
    ++ executeScript (.error (.conflict (sampleConflict 2)))
    ++ [.runner, .runner, .runner, .runner, .resolveConflict .overwrite false,
      .runner, .runner, .runner, .runner, .executeReturns (.ok .completed),
      .runner, .runner, .runner, .runner, .runner,
      .resolveConflict .overwrite false, .runner, .runner, .runner, .runner,
      .executeReturns (.ok .completed), .runner, .runner, .runner, .runner,
      .finishReturns (.ok ()), .runner]

/-- Of two decisions for one conflict the first was handed to no call;
one that is sent again is handed to another item. -/
theorem decision_unused_or_reused :
    (∃ s, Run (apply false) Free (startOperation sampleRequest 0)
        (decidedRun [.resolveConflict .skip false, .resolveConflict .overwrite false]) s
      ∧ s.operation.state = .completed
      ∧ s.submissions.map Submission.applyToAll = [false, false]
      ∧ s.deliveries.map Delivery.ticket = [1])
    ∧ ∃ s, Run (apply false) Free (startOperation sampleRequest 0) repeatedRun s
      ∧ s.operation.state = .completed
      ∧ s.deliveries.map Delivery.owner = [0, 1] :=
  ⟨Run.exists_of_run (by decide), Run.exists_of_run (by decide)⟩

end FileManager.Scheduler
