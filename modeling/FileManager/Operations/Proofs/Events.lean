/-
The published lifecycle of a job: the `OperationStateChanged` events,
prefixed by `Queued`, are the walk the stored state has made through
`can_transition_to`.

# The argument

A step publishes a list of events (`step_extends`); the list denotes
a walk from the old stored state to the new one, because every
transition is published under the lock it is made under. The runner
makes every terminal transition itself and stops there
(`TerminalDone.step`), so nothing of the lifecycle follows a
terminal event.

The one step that breaks the first half is `fail_job` in `Cancelling`:
it stores `Failed` and publishes no transition. `PublishesFailure` is
the condition that excludes that branch.
-/
import FileManager.Operations.Proofs.Lifecycle
import FileManager.Lib.Walk

namespace FileManager.Scheduler

open Machine Walk List

variable {req : Bool} {s s' : State} {a b next : OperationState} {operation : Operation}

-- ==== what a step publishes

/-- The lifecycle events: state changes and progress. -/
def Event.isLifecycle : Event → Bool
  | .operationStateChanged _ | .operationProgress _ => true
  | _ => false

def Event.isTerminalChange : Event → Bool
  | .operationStateChanged state => state.isTerminal
  | _ => false

/-- The states of the published `OperationStateChanged` events. -/
def stateChanges (events : List Event) : List OperationState :=
  events.filterMap fun
    | .operationStateChanged state => some state
    | _ => none

@[simp] theorem stateChanges_append (first second : List Event) :
    stateChanges (first ++ second) = stateChanges first ++ stateChanges second := by
  unfold stateChanges
  exact filterMap_append ..

/-- The relation of the legal transitions. -/
def Legal (state next : OperationState) : Prop := state.canTransitionTo next = true

/-- `events` publish a walk of legal transitions from `a` to `b`, and
nothing of the lifecycle after a terminal state. -/
structure Publishes (a : OperationState) (events : List Event)
    (b : OperationState) : Prop where
  walk : IsWalk Legal a (stateChanges events) b
  silent : events.Pairwise fun e e' =>
    e.isTerminalChange = true → e'.isLifecycle = false

theorem Publishes.nil (a : OperationState) : Publishes a [] a := ⟨IsWalk.refl a, Pairwise.nil⟩

variable {e : Event}

theorem Publishes.other (he : stateChanges [e] = []) (a : OperationState) : Publishes a [e] a := by
  refine ⟨?_, pairwise_singleton _ _⟩
  rw [he]
  exact IsWalk.refl a

theorem Publishes.change (h : Legal a b) : Publishes a [.operationStateChanged b] b :=
  ⟨IsWalk.single h, pairwise_singleton _ _⟩

theorem Publishes.terminal_of_mem {events : List Event} (h : Publishes a events b)
    (hmem : e ∈ events) (hterm : e.isTerminalChange = true) : b.isTerminal = true := by
  cases e with
  | operationStateChanged state =>
    have hpoint : state ∈ a :: stateChanges events := by
      refine mem_cons_of_mem a (mem_filterMap.mpr ⟨_, hmem, rfl⟩)
    have hexit : ∀ y, ¬ Legal state y := by
      intro y hy
      have hlive := OperationState.not_terminal_of_canTransitionTo hy
      rw [show state.isTerminal = true from hterm] at hlive
      cases hlive
    rw [h.walk.eq_of_mem hpoint hexit]
    exact hterm
  | _ => cases hterm

theorem Publishes.append {c : OperationState} {first second : List Event} (hf : Publishes a first b)
    (hs : Publishes b second c) (hquiet : b.isTerminal = true →
      ∀ e ∈ second, e.isLifecycle = false) :
    Publishes a (first ++ second) c := by
  refine ⟨?_, pairwise_append.mpr ⟨hf.silent, hs.silent, ?_⟩⟩
  · rw [stateChanges_append]
    exact hf.walk.append hs.walk
  · intro e he e' he' hterm
    exact hquiet (hf.terminal_of_mem he hterm) e' he'

-- ==== the run publishes

/-- `fail_job` is not reached in `Cancelling`, where it stores `Failed`
without publishing the transition. -/
def PublishesFailure (s : State) (a : Action) : Prop :=
  a.isRunner = true → s.runner.isFailing = true →
    s.operation.state ≠ .cancelling

instance (s : State) (a : Action) : Decidable (PublishesFailure s a) :=
  inferInstanceAs (Decidable (_ → _ → _))

/-- What a step from `s` to `s'` publishes is a walk from the one state
to the other, and nothing of the lifecycle out of a terminal state. -/
def Extends (s s' : State) : Prop :=
  ∃ new, s'.events = s.events ++ new ∧ Publishes s.operation.state new s'.operation.state
    ∧ (s.operation.state.isTerminal = true →
        ∀ e ∈ new, e.isLifecycle = false)

theorem Extends.quiet (hevents : s'.events = s.events)
    (hstate : s'.operation.state = s.operation.state) : Extends s s' := by
  refine ⟨[], by simpa using hevents, ?_, fun _ e he => by cases he⟩
  rw [hstate]
  exact .nil _

theorem Extends.live {new : List Event} (hlive : s.operation.state.isTerminal = false)
    (hevents : s'.events = s.events ++ new) (hpublishes : Publishes s.operation.state new next)
    (hstate : s'.operation.state = next) : Extends s s' := by
  refine ⟨new, hevents, by rw [hstate]; exact hpublishes, fun hterm => ?_⟩
  simp [hlive] at hterm

theorem Extends.enters (henters : Enters s.operation next operation)
    (hevents : s'.events = s.events ++ [.operationStateChanged next])
    (hoperation : s'.operation = operation) : Extends s s' := by
  refine .live henters.not_terminal hevents (.change henters.legal) ?_
  rw [hoperation, henters.state]

theorem Extends.enters_with (henters : Enters s.operation next operation)
    (he : stateChanges [e] = []) (hquiet : e.isLifecycle = false)
    (hevents : s'.events = s.events ++ [.operationStateChanged next, e])
    (hoperation : s'.operation = operation) : Extends s s' := by
  have hpublishes : Publishes s.operation.state ([.operationStateChanged next] ++ [e]) next := by
    refine (Publishes.change henters.legal).append (.other he next) ?_
    intro _ e' he'
    rw [mem_singleton.mp he']
    exact hquiet
  refine .live henters.not_terminal hevents hpublishes ?_
  rw [hoperation, henters.state]

theorem extends_settleCancelled (handler : Bool) (hlive : s.operation.state.isTerminal = false) :
    Extends s (settleCancelled s handler) := by
  obtain ⟨operation, hstate, -, h⟩ := settleCancelled_eq s handler hlive
  rw [h]
  by_cases hc : s.operation.state = .cancelling
  · rw [if_pos hc]
    refine .live hlive rfl (.change ?_) hstate
    rw [hc]
    rfl
  · rw [if_neg hc]
    have hlegal : Legal s.operation.state .cancelling :=
      OperationState.canTransitionTo_cancelling hlive hc
    have hpublishes : Publishes s.operation.state ([.operationStateChanged .cancelling]
          ++ [.operationStateChanged .cancelled]) .cancelled :=
      (Publishes.change hlegal).append (.change rfl) fun hterm => by cases hterm
    exact .live hlive rfl hpublishes hstate

theorem extends_failJob (error : SchedulerError) (hlive : s.operation.state.isTerminal = false)
    (hc : s.operation.state ≠ .cancelling) : Extends s (failJob s error) := by
  obtain ⟨operation, henters, h⟩ := failJob_eq s error hlive
  rw [h, if_neg hc]
  exact .enters_with henters rfl rfl (append_assoc _ _ _) rfl

theorem step_extends {a : Action} (hdone : TerminalDone s)
    (hok : PublishesFailure s a) (h : Step req s a s') : Extends s s' := by
  cases h with
  | @announcePlan plan operation hr henters =>
    have hlive := hdone.alive hr
    have hpublishes : Publishes s.operation.state
        ([.operationProgress (announceTotals s plan).operation.progress]
          ++ [.operationStateChanged (announced req plan).1])
        (announced req plan).1 := by
      refine (Publishes.other rfl _).append (.change henters.legal) ?_
      intro hterm
      simp [hlive] at hterm
    exact .live hlive (append_assoc _ _ _) hpublishes henters.state
  | announcePlanIllegal error hr _ =>
    exact .live (hdone.alive hr) rfl (.other rfl _) rfl
  | recordItem emitted hr =>
    have hlive := hdone.alive hr
    cases emitted with
    | none => exact .quiet rfl rfl
    | some rate => exact .live hlive rfl (.other rfl _) rfl
  | announceConflict hr henters => exact .enters_with henters rfl rfl rfl rfl
  | complete hr henters => exact .enters_with henters rfl rfl rfl rfl
  | settleCancelled handler hr =>
    exact extends_settleCancelled handler (hdone.alive hr)
  | failJob error hr =>
    exact extends_failJob error (hdone.alive hr) (hok rfl (by rw [hr]; rfl))
  | enterPlanning hr henters | leaveWaiting hr henters | pause hcaller henters
  | resume hcaller henters | confirm hcaller henters | cancelTransition hcaller henters =>
    exact .enters henters rfl rfl
  | republish hcaller =>
    unfold republishPendingConflict
    split
    case h_1 => exact .quiet rfl rfl
    case h_2 pending hp =>
      refine ⟨[.operationConflict pending.conflict], rfl, .other rfl _, ?_⟩
      intro _ e he
      rw [mem_singleton.mp he]
      rfl
  | move _ | planned _ _ | recordWarning _ | storeConflict _ | takeDecision _
  | callRetry _ _ | countRetry _ | pauseToken _ | resumeToken _
  | resolveConflict _ _ _ _ | cancel _ | cancelToken _ | cancelIgnored _ _
  | tick _ => exact .quiet rfl rfl

theorem run_publishes {request : Request} {now : Timestamp} {acts : List Action}
    (hrun : Run (apply req) PublishesFailure (startOperation request now) acts s) :
    Publishes .queued s.events s.operation.state := by
  refine run_invariant (P := fun _ s =>
    Publishes .queued s.events s.operation.state) hrun (.other rfl .queued) ?_
  intro acts s s' a hlife hok hstep hpublished
  obtain ⟨new, hevents, hnew, hquiet⟩ := step_extends hlife.done hok hstep
  rw [hevents]
  exact hpublished.append hnew hquiet

/-- In every run that never fails a job in `Cancelling`, the published
states are a path of `can_transition_to` to the stored one, and nothing
follows a terminal one. -/
theorem events_are_state_history {request : Request} {now : Timestamp}
    {acts : List Action}
    (hrun : Run (apply req) PublishesFailure (startOperation request now) acts s) :
    (.queued :: stateChanges s.events).IsChain Legal
      ∧ (stateChanges s.events).getLastD .queued = s.operation.state
      ∧ s.events.Pairwise fun e e' =>
          e.isTerminalChange = true → e'.isLifecycle = false := by
  have hpublished := run_publishes hrun
  exact ⟨hpublished.walk.chain, hpublished.walk.last, hpublished.silent⟩

/-- A copy of two files that succeeds meets the condition. -/
theorem events_are_state_history_completed :
    ∃ acts s, Run (apply false) PublishesFailure (startOperation sampleRequest 0) acts s
      ∧ s.operation.state = .completed
      ∧ (stateChanges s.events).getLastD .queued = s.operation.state := by
  obtain ⟨s, hrun, hstate⟩ := Run.exists_of_guardedRun
    (show (guardedRun (apply false) PublishesFailure (startOperation sampleRequest 0)
      (planScript (samplePlan 3 4) ++ itemScript .completed
        ++ itemScript .skipped ++ finishScript)).any
      (fun s => decide (s.operation.state = .completed)) = true from by decide)
  exact ⟨_, s, hrun, hstate, (events_are_state_history hrun).2.1⟩

/-- A cancelled job whose cleanup fails twice: `fail_job` stores
`Failed`, and `Cancelling` stays the last state published. -/
def failedCancellation : List Action :=
  [.runner, .cancel, .cancelToken, .cancelTransition, .runner,
    .cleanupReturns (.error .notImplemented), .runner,
    .cleanupReturns (.error .notImplemented), .runner]

/-- The last published state is not always the stored one, even when
the runner has returned and no call is under way. -/
theorem failed_cancellation_unpublished :
    ∃ s, Run (apply false) Free (startOperation sampleRequest 0) failedCancellation s
      ∧ s.runner.isDone = true ∧ s.caller = none
      ∧ s.operation.state = .failed
      ∧ (stateChanges s.events).getLastD .queued = .cancelling :=
  Run.exists_of_run (by decide)

-- ==== after the end

/-- What an ended job keeps; a conflict may be announced again. -/
structure Stays (s s' : State) : Prop where
  operation : s'.operation = s.operation
  runner : s'.runner = s.runner
  observed : s'.observed = s.observed
  outcomes : s'.outcomes = s.outcomes
  deliveries : s'.deliveries = s.deliveries
  events : ∃ new, s'.events = s.events ++ new
    ∧ ∀ e ∈ new, ∃ conflict, e = .operationConflict conflict

theorem Stays.refl (s : State) : Stays s s := ⟨rfl, rfl, rfl, rfl, rfl, [], by simp, by simp⟩

theorem Stays.trans {s₁ s₂ s₃ : State} (h : Stays s₁ s₂) (h' : Stays s₂ s₃) : Stays s₁ s₃ := by
  obtain ⟨new, hnew, hquiet⟩ := h.events
  obtain ⟨new', hnew', hquiet'⟩ := h'.events
  refine ⟨h'.operation.trans h.operation, h'.runner.trans h.runner, h'.observed.trans h.observed,
    h'.outcomes.trans h.outcomes, h'.deliveries.trans h.deliveries, new ++ new', ?_, ?_⟩
  · rw [hnew', hnew, append_assoc]
  · intro e he
    exact (mem_append.mp he).elim (hquiet e) (hquiet' e)

theorem stays_step {a : Action} (hlife : Lifecycle s) (hstep : Step req s a s')
    (hterminal : s.operation.state.isTerminal = true) : Stays s s' := by
  have hdone := hlife.done hterminal
  have habsurd : ∀ {next : OperationState} {operation : Operation},
      Enters s.operation next operation → False := by
    intro next operation henters
    exact absurd (hterminal.symm.trans henters.not_terminal) (by simp)
  cases hstep with
  | move hm => exact absurd hdone hm.not_done
  | pause _ henters | resume _ henters | confirm _ henters
  | cancelTransition _ henters => exact (habsurd henters).elim
  | republish _ =>
    unfold republishPendingConflict
    split
    case h_1 => exact Stays.refl s
    case h_2 pending _ =>
      refine ⟨rfl, rfl, rfl, rfl, rfl, [.operationConflict pending.conflict], rfl, ?_⟩
      intro e he
      exact ⟨_, mem_singleton.mp he⟩
  | pauseToken _ | resumeToken _ | resolveConflict _ _ _ _ | cancel _ | cancelToken _
  | cancelIgnored _ _ | tick _ => exact ⟨rfl, rfl, rfl, rfl, rfl, [], by simp, by simp⟩
  | planned _ hr | enterPlanning hr _ | announcePlan hr _
  | announcePlanIllegal _ hr _ | recordWarning hr | recordItem _ hr
  | storeConflict hr | announceConflict hr _ | takeDecision hr | leaveWaiting hr _
  | callRetry hr _ | countRetry hr | complete hr _ | settleCancelled _ hr
  | failJob _ hr => exact absurd (hdone.symm.trans hr) (by simp)

/-- No control call after the end of a job changes what it has become,
has done and has reported. -/
theorem ended_job_stays {request : Request} {now : Timestamp} {acts later : List Action}
    (hrun : Run (apply req) Free (startOperation request now) acts s)
    (hterminal : s.operation.state.isTerminal = true)
    (hlater : Run (apply req) Free s later s') : Stays s s' ∧ s'.runner = .done := by
  have hlife : Lifecycle s :=
    hrun.invariant (Lifecycle.start request now) fun _ _ h hlife => hlife.step (step_of_apply h)
  have hstays : Lifecycle s' ∧ Stays s s' := by
    refine hlater.invariant (P := fun s' => Lifecycle s' ∧ Stays s s') ⟨hlife, Stays.refl s⟩ ?_
    intro t t' a _ h ⟨hlife, hkept⟩
    have hstep := step_of_apply h
    have hstill : t.operation.state.isTerminal = true := by rw [hkept.operation]; exact hterminal
    exact ⟨hlife.step hstep, hkept.trans (stays_step hlife hstep hstill)⟩
  exact ⟨hstays.2, hstays.1.done (by rw [hstays.2.operation]; exact hterminal)⟩

/-- A completed job, cancelled. -/
theorem completed_job_stays :
    ∃ acts s s', Run (apply false) Free (startOperation sampleRequest 0) acts s
      ∧ Run (apply false) Free s [.cancel, .cancelToken, .cancelTransition] s'
      ∧ s.operation.state = .completed ∧ s'.cancellation = true ∧ Stays s s'
      ∧ s'.runner = .done := by
  obtain ⟨s, hrun, hend⟩ := Run.exists_of_run
    (show (Machine.run (apply false) (startOperation sampleRequest 0)
      (planScript (samplePlan 3 4) ++ itemScript .completed
        ++ itemScript .skipped ++ finishScript)).any
      (fun s => decide (s.operation.state = .completed
        ∧ (Machine.run (apply false) s [.cancel, .cancelToken, .cancelTransition]).any
          (fun s' => decide (s'.cancellation = true)) = true)) = true from by decide)
  obtain ⟨hstate, hlater⟩ := hend
  obtain ⟨s', hlater, hcancelled⟩ := Run.exists_of_run hlater
  exact ⟨_, s, s', hrun, hlater, hstate, hcancelled,
    ended_job_stays hrun (by rw [hstate]; rfl) hlater⟩

end FileManager.Scheduler
