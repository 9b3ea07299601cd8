/-
What one step of a job can do: an inversion lemma for every function
of `Scheduler.lean` that may take two ways, and the frame of the
runner's and the callers' steps. Every invariant of the scheduler is
derived from these; no later proof unfolds `transitionAndPublish`.
-/
import FileManager.Operations.Scheduler

namespace FileManager.Scheduler

open OperationState

variable {req : Bool} {s s' : State} {next : OperationState} {before after : Operation}

-- ==== transitions

/-- `after` is `before` after a legal transition to `next`: the state is
written, the work reported so far is not. -/
structure Enters (before : Operation) (next : OperationState)
    (after : Operation) : Prop where
  legal : before.state.canTransitionTo next = true
  state : after.state = next
  progress : after.progress = before.progress
  errors : after.errors = before.errors
  id : after.id = before.id
  ended : next.isTerminal = true → after.completedAt ≠ none

theorem Enters.not_terminal (h : Enters before next after) : before.state.isTerminal = false :=
  not_terminal_of_canTransitionTo h.legal

theorem Enters.of_transition {now : Timestamp}
    (h : before.transition next now = .ok after) : Enters before next after := by
  obtain ⟨hlegal, hstate, hprogress, herrors, hid, hended⟩ := Operation.transition_eq_ok h
  refine ⟨hlegal, hstate, hprogress, herrors, hid, fun hterminal => ?_⟩
  rw [hended, if_pos hterminal]
  exact Option.some_ne_none _

theorem transitionAndPublish_cases (s : State) (next : OperationState) :
    (s.operation.state.canTransitionTo next = false
      ∧ ∃ error, transitionAndPublish s next = .error error)
    ∨ ∃ operation, Enters s.operation next operation ∧ transitionAndPublish s next = .ok { s with
            operation := operation
            events := s.events ++ [.operationStateChanged next] } := by
  unfold transitionAndPublish
  cases h : s.operation.transition next s.now with
  | error error =>
    exact .inl ⟨Operation.transition_eq_error h, error, rfl⟩
  | ok operation =>
    exact .inr ⟨operation, Enters.of_transition h, rfl⟩

theorem transitionThen_cases (s : State) (next : OperationState) (runner : Runner) :
    (s.operation.state.canTransitionTo next = false ∧ ∃ error, transitionThen s next runner
          = { s with runner := .raised (.transition error) })
    ∨ ∃ operation, Enters s.operation next operation
        ∧ transitionThen s next runner = { s with
            operation := operation
            events := s.events ++ [.operationStateChanged next]
            runner := runner } := by
  unfold transitionThen
  rcases transitionAndPublish_cases s next with
    ⟨hillegal, error, h⟩ | ⟨operation, henters, h⟩
  · exact .inl ⟨hillegal, error, by rw [h]⟩
  · exact .inr ⟨operation, henters, by rw [h]⟩

theorem announceConflict_cases (s : State) (conflict : OperationConflict) (after : After) :
    (s.operation.state.canTransitionTo .waitingForConflictResolution = false
      ∧ ∃ error, announceConflict s conflict after
          = { s with runner := .raised (.transition error) })
    ∨ ∃ operation,
        Enters s.operation .waitingForConflictResolution operation
        ∧ announceConflict s conflict after = { s with
            operation := operation
            events := s.events
              ++ [.operationStateChanged .waitingForConflictResolution,
                .operationConflict conflict]
            runner := after.runner } := by
  unfold announceConflict
  rcases transitionAndPublish_cases s .waitingForConflictResolution with
    ⟨hillegal, error, h⟩ | ⟨operation, henters, h⟩
  · exact .inl ⟨hillegal, error, by rw [h]⟩
  · exact .inr ⟨operation, henters, by rw [h]; simp⟩

/-- The state `run_job` ends a job in that it does not abandon. -/
def terminalOf (operation : Operation) : OperationState :=
  if operation.errors = [] then .completed else .completedWithWarnings

theorem terminalOf_isTerminal (operation : Operation) :
    (terminalOf operation).isTerminal = true := by
  unfold terminalOf
  split <;> rfl

theorem complete_cases (s : State) :
    (s.operation.state.canTransitionTo (terminalOf s.operation) = false ∧ ∃ error, complete s
          = { s with runner := .raised (.transition error) })
    ∨ ∃ operation, Enters s.operation (terminalOf s.operation) operation
        ∧ complete s = { s with
            operation := operation
            events := s.events
              ++ [.operationStateChanged (terminalOf s.operation),
                .operationCompleted operation]
            runner := .done } := by
  unfold complete
  rcases transitionAndPublish_cases s (terminalOf s.operation) with
    ⟨hillegal, error, h⟩ | ⟨operation, henters, h⟩
  · refine .inl ⟨hillegal, error, ?_⟩
    unfold terminalOf at h
    dsimp only
    rw [h]
  · refine .inr ⟨operation, henters, ?_⟩
    unfold terminalOf at h ⊢
    dsimp only
    rw [h]
    simp

/-- `finish_cancelled` always succeeds on an operation that is not
terminal: it publishes `Cancelling` first unless a cancel call has, then
`Cancelled`. -/
theorem settleCancelled_enters (s : State) (handler : Bool)
    (hlive : s.operation.state.isTerminal = false) :
    ∃ before operation, Enters before .cancelled operation
      ∧ before.progress = s.operation.progress ∧ before.id = s.operation.id
      ∧ settleCancelled s handler = { s with
          operation := operation
          events := s.events ++
            (if s.operation.state = .cancelling
              then [.operationStateChanged .cancelled]
              else [.operationStateChanged .cancelling,
                .operationStateChanged .cancelled])
          runner := .done } := by
  unfold settleCancelled
  by_cases hc : s.operation.state = .cancelling
  · have hlegal : s.operation.state.canTransitionTo .cancelled = true := by
      rw [hc]; rfl
    rcases transitionAndPublish_cases s .cancelled with
      ⟨hillegal, -⟩ | ⟨operation, henters, h⟩
    · rw [hlegal] at hillegal; cases hillegal
    · exact ⟨s.operation, operation, henters, rfl, rfl, by simp [hc, h]⟩
  · rcases transitionAndPublish_cases s .cancelling with
      ⟨hillegal, -⟩ | ⟨operation, henters, h⟩
    · rw [canTransitionTo_cancelling hlive hc] at hillegal
      cases hillegal
    · rcases transitionAndPublish_cases { s with
          operation := operation
          events := s.events ++ [.operationStateChanged .cancelling] }
          .cancelled with ⟨hillegal, -⟩ | ⟨operation', henters', h'⟩
      · rw [henters.state] at hillegal; cases hillegal
      · exact ⟨operation, operation', henters', henters.progress, henters.id,
          by simp [hc, h, h']⟩

theorem settleCancelled_eq (s : State) (handler : Bool)
    (hlive : s.operation.state.isTerminal = false) :
    ∃ operation, operation.state = .cancelled ∧ operation.progress = s.operation.progress
      ∧ settleCancelled s handler = { s with
          operation := operation
          events := s.events ++
            (if s.operation.state = .cancelling
              then [.operationStateChanged .cancelled]
              else [.operationStateChanged .cancelling,
                .operationStateChanged .cancelled])
          runner := .done } := by
  obtain ⟨before, operation, henters, hprogress, -, h⟩ := settleCancelled_enters s handler hlive
  exact ⟨operation, henters.state, henters.progress.trans hprogress, h⟩

theorem failTransition_eq (s : State) (hlive : s.operation.state.isTerminal = false) :
    ∃ operation, Enters s.operation .failed operation ∧ failTransition s = { s with
          operation := operation
          events := s.events ++
            (if s.operation.state = .cancelling then []
              else [.operationStateChanged .failed]) } := by
  have hlegal := canTransitionTo_failed hlive
  have hlive' : ¬ s.operation.state.isTerminal = true := by simp [hlive]
  unfold failTransition
  rw [if_neg hlive']
  by_cases hc : s.operation.state = .cancelling
  · obtain ⟨operation, h⟩ := Operation.exists_transition s.now hlegal
    refine ⟨operation, Enters.of_transition h, ?_⟩
    rw [if_pos hc, if_pos hc, h, List.append_nil]
  · rcases transitionAndPublish_cases s .failed with
      ⟨hillegal, -⟩ | ⟨operation, henters, h⟩
    · rw [hlegal] at hillegal; cases hillegal
    · refine ⟨operation, henters, ?_⟩
      rw [if_neg hc, if_neg hc, h]

theorem failJob_eq (s : State) (error : SchedulerError)
    (hlive : s.operation.state.isTerminal = false) :
    ∃ operation, Enters s.operation .failed operation ∧ failJob s error = { s with
          operation := operation
          events := s.events ++
            (if s.operation.state = .cancelling then []
              else [.operationStateChanged .failed])
            ++ [.operationFailed "operationFailed" error]
          observed := s.observed ++ [operation]
          runner := .done } := by
  obtain ⟨operation, henters, h⟩ := failTransition_eq s hlive
  refine ⟨operation, henters, ?_⟩
  unfold failJob
  rw [h]

-- ==== control calls

theorem transitionAndPublish_eq_ok {next : OperationState}
    (h : transitionAndPublish s next = .ok s') :
    ∃ operation, Enters s.operation next operation
      ∧ s' = { s with
          operation := operation
          events := s.events ++ [.operationStateChanged next] } := by
  rcases transitionAndPublish_cases s next with ⟨-, error, ht⟩ | ⟨operation, henters, ht⟩
  · rw [ht] at h; cases h
  · rw [ht] at h; injection h with h; exact ⟨operation, henters, h.symm⟩

theorem cancelTransition_cases (s : State) :
    ((s.operation.state.isTerminal = true ∨ s.operation.state = .cancelling)
      ∧ cancelTransition s = { s with caller := none })
    ∨ ∃ operation, Enters s.operation .cancelling operation
        ∧ cancelTransition s = { s with
            operation := operation
            events := s.events ++ [.operationStateChanged .cancelling]
            caller := none } := by
  unfold cancelTransition
  by_cases hopen : s.operation.state.isTerminal = false ∧ s.operation.state ≠ .cancelling
  · rcases transitionAndPublish_cases { s with caller := none }
        .cancelling with ⟨hillegal, -⟩ | ⟨operation, henters, h⟩
    · rw [show ({ s with caller := none } : State).operation = s.operation
          from rfl, canTransitionTo_cancelling hopen.1 hopen.2]
        at hillegal
      cases hillegal
    · exact .inr ⟨operation, henters, by simp [hopen, h]⟩
  · refine .inl ⟨?_, by simp only [hopen, if_false]⟩
    by_cases hterm : s.operation.state.isTerminal = true
    · exact .inl hterm
    · refine .inr (Classical.not_not.mp fun hne => hopen ⟨?_, hne⟩)
      simpa using hterm

theorem whenUnlocked_eq_some {call : State → Option State} (h : whenUnlocked s call = some s') :
    s.caller = none ∧ call s = some s' := by
  unfold whenUnlocked at h
  split at h
  case isFalse => cases h
  case isTrue hcaller => exact ⟨hcaller, h⟩

-- ==== the step relation

/-- The cancellation checks of `run_job` that lead straight into
`finish_cancelled`. -/
def Runner.checksCancellation : Runner → Bool
  | .checkAcquired | .checkPlanned _ | .checkConfirmed _ | .checkItem ..
  | .checkCounted .. | .checkRetry .. | .checkFinish => true
  | .checkExecuted result .. => !result.isOk
  | _ => false

/-- The steps the runner takes by itself. -/
def Action.isRunner : Action → Bool
  | .runner => true
  | _ => false

/-- The control call that resumes the job. -/
def Action.isResume : Action → Bool
  | .resume => true
  | _ => false

/-- The control calls that ask for `Running`. -/
def Action.asksRunning : Action → Bool
  | .resume | .confirm => true
  | _ => false

/-- The runner is about to run `fail_job`. -/
def Runner.isFailing : Runner → Bool
  | .failing _ => true
  | _ => false

/-- The runner is about to make the terminal transition of a cancelled
job. -/
def Runner.isSettling : Runner → Bool
  | .settleCancelled _ => true
  | _ => false

/-- The runner is about to make the terminal transition of a job that
got through. -/
def Runner.isCompleting : Runner → Bool
  | .complete => true
  | _ => false

def Runner.isDone : Runner → Bool
  | .done => true
  | _ => false

/-- The state a runner position enters by a transition that may be
refused, `announcePlan` apart. -/
def Runner.entering (operation : Operation) : Runner → Option OperationState
  | .enterPlanning => some .planning
  | .announceConflict .. => some .waitingForConflictResolution
  | .leaveWaiting .. => some .running
  | .complete => some (terminalOf operation)
  | _ => none

/-- The steps that move the runner and write no cell: from position to
position, with the reads that decide them. -/
inductive Moves (s : State) : Action → Runner → Runner → Prop
  | acquire : Moves s .runner .acquire .checkAcquired
  | passAcquired : s.cancellation = false →
      Moves s .runner .checkAcquired .enterPlanning
  | planFailed (error : ExecutionError) :
      Moves s (.planReturns (.error error)) .planning (.raised (.execution error))
  | passPlanned {plan : OperationPlan} : s.cancellation = false →
      Moves s .runner (.checkPlanned plan) (.announcePlan plan)
  | unblocked {plan : OperationPlan} : blocked s = false →
      Moves s .runner (.awaitConfirmation plan) (.checkConfirmed plan)
  | passConfirmed {plan : OperationPlan} : s.cancellation = false →
      Moves s .runner (.checkConfirmed plan) (.nextItem plan.work [])
  | firstPassDone {deferred : List Deferred} :
      Moves s .runner (.nextItem [] deferred) (.nextDeferred deferred)
  | item {work : Work} {todo : List Work} {deferred : List Deferred} :
      blocked s = false →
      Moves s .runner (.nextItem (work :: todo) deferred) (.checkItem work todo deferred)
  | passItem {work : Work} {todo : List Work} {deferred : List Deferred} :
      s.cancellation = false →
      Moves s .runner (.checkItem work todo deferred) (.callItem work todo deferred)
  | callItem {work : Work} {todo : List Work} {deferred : List Deferred} :
      Moves s .runner (.callItem work todo deferred) (.executing s.applyToAll work todo deferred)
  | executed {resolution : Option ConflictResolution} {work : Work}
      {todo : List Work} {deferred : List Deferred}
      (result : Except ExecutionError ExecutionOutcome) :
      Moves s (.executeReturns result) (.executing resolution work todo deferred)
        (.checkExecuted result work todo deferred)
  | passExecuted {result : Except ExecutionError ExecutionOutcome}
      {work : Work} {todo : List Work} {deferred : List Deferred} :
      (s.cancellation = true → result.isOk = true) →
      Moves s .runner (.checkExecuted result work todo deferred)
        (afterExecution result work todo deferred)
  | passCounted {todo : List Work} {deferred : List Deferred} :
      s.cancellation = false →
      Moves s .runner (.checkCounted todo deferred) (.nextItem todo deferred)
  | fileFree {conflict : OperationConflict} {work : Work}
      {todo : List Work} {deferred : List Deferred} :
      s.pendingConflict = none →
      Moves s .runner (.fileConflict conflict work todo deferred)
        (.storeConflict conflict work.index
          (.item todo (deferred ++ [{ work := work, conflict := conflict }])))
  | fileTaken {conflict : OperationConflict} {work : Work}
      {todo : List Work} {deferred : List Deferred} :
      s.pendingConflict ≠ none →
      Moves s .runner (.fileConflict conflict work todo deferred)
        (.nextItem todo (deferred ++ [{ work := work, conflict := conflict }]))
  | deferredDone : Moves s .runner (.nextDeferred []) .awaitFinish
  | answered {head : Deferred} {rest : List Deferred}
      {resolution : ConflictResolution} : s.applyToAll = some resolution →
      Moves s .runner (.nextDeferred (head :: rest)) (.checkRetry (.direct resolution) head rest)
  | ask {head : Deferred} {rest : List Deferred} : s.applyToAll = none →
      Moves s .runner (.nextDeferred (head :: rest)) (.needConflict head rest)
  | needFree {head : Deferred} {rest : List Deferred} :
      s.pendingConflict = none →
      Moves s .runner (.needConflict head rest)
        (.storeConflict head.conflict head.work.index (.decision head rest))
  | needTaken {head : Deferred} {rest : List Deferred} :
      s.pendingConflict ≠ none →
      Moves s .runner (.needConflict head rest) (.awaitDecision head rest)
  | decided {head : Deferred} {rest : List Deferred}
      {pending : PendingConflict} {decision : Decision} :
      s.pendingConflict = some pending → pending.decision = some decision →
      Moves s .runner (.awaitDecision head rest) (.takeDecision decision head rest)
  | undecided {head : Deferred} {rest : List Deferred} :
      Moves s .runner (.awaitDecision head rest) (.awaitCancellation head rest)
  | waitCancelled {head : Deferred} {rest : List Deferred} :
      s.cancellation = true →
      Moves s .runner (.awaitCancellation head rest) (.checkRetry (.direct .skip) head rest)
  | waitOn {head : Deferred} {rest : List Deferred} :
      s.cancellation = false →
      Moves s .runner (.awaitCancellation head rest) (.awaitDecision head rest)
  | retried {answer : Answer} {head : Deferred} {rest : List Deferred}
      (result : Except ExecutionError ExecutionOutcome) :
      Moves s (.executeReturns result) (.retrying answer head rest) (afterRetry result head rest)
  | finish : blocked s = false → Moves s .runner .awaitFinish .checkFinish
  | passFinish : s.cancellation = false →
      Moves s .runner .checkFinish .finishing
  | finished : Moves s (.finishReturns (.ok ())) .finishing .complete
  | finishFailed (error : ExecutionError) :
      Moves s (.finishReturns (.error error)) .finishing (.raised (.execution error))
  | cancelled {r : Runner} : s.cancellation = true →
      r.checksCancellation = true → Moves s .runner r (.cleaning false)
  | cleaned {handler : Bool} :
      Moves s (.cleanupReturns (.ok ())) (.cleaning handler) (.settleCancelled handler)
  | cleanFailed (error : ExecutionError) :
      Moves s (.cleanupReturns (.error error)) (.cleaning false) (.raised (.execution error))
  | handlerCleanFailed (error : ExecutionError) :
      Moves s (.cleanupReturns (.error error)) (.cleaning true) (.failing (.execution error))
  | illegal {r : Runner} {next : OperationState} (error : TransitionError) :
      r.entering s.operation = some next →
      s.operation.state.canTransitionTo next = false →
      Moves s .runner r (.raised (.transition error))
  | handleCancelled {error : SchedulerError} : s.cancellation = true →
      Moves s .runner (.raised error) (.cleaning true)
  | abandon {error : SchedulerError} : s.cancellation = false →
      Moves s .runner (.raised error) (.abandoning error)
  | abandoned {error : SchedulerError}
      (result : Except ExecutionError Unit) :
      Moves s (.cleanupReturns result) (.abandoning error) (.failing error)

/-- The state and runner position a plan is announced with. -/
def announced (req : Bool) (plan : OperationPlan) : OperationState × Runner :=
  if req then (.waitingForConflictResolution, .awaitConfirmation plan)
  else (.running, .nextItem plan.work [])

/-- Everything one action can do to a job: a move of the runner, or one
of the writes. -/
inductive Step (req : Bool) (s : State) : Action → State → Prop
  | move {a : Action} {r : Runner} : Moves s a s.runner r →
      Step req s a { s with runner := r }
  | planned (plan : OperationPlan) : s.runner = .planning →
      Step req s (.planReturns (.ok plan))
        { s with runner := .checkPlanned plan, plan := some plan }
  | enterPlanning {operation : Operation} : s.runner = .enterPlanning →
      Enters s.operation .planning operation →
      Step req s .runner { s with
        operation := operation
        events := s.events ++ [.operationStateChanged .planning]
        runner := .planning }
  | announcePlan {plan : OperationPlan} {operation : Operation} :
      s.runner = .announcePlan plan →
      Enters (announceTotals s plan).operation (announced req plan).1 operation →
      Step req s .runner { s with
        operation := operation
        events := (announceTotals s plan).events
          ++ [.operationStateChanged (announced req plan).1]
        runner := (announced req plan).2 }
  | announcePlanIllegal {plan : OperationPlan} (error : TransitionError) :
      s.runner = .announcePlan plan →
      s.operation.state.canTransitionTo (announced req plan).1 = false →
      Step req s .runner { announceTotals s plan with
        runner := .raised (.transition error) }
  | recordWarning {error : OperationEntryError} {work : Work}
      {todo : List Work} {deferred : List Deferred} :
      s.runner = .recordWarning error work todo deferred →
      Step req s .runner { s with
        operation := { s.operation with
          errors := s.operation.errors ++ [error] }
        runner := .countItem .warned work todo deferred }
  | recordItem {ending : Ending} {work : Work} {todo : List Work}
      {deferred : List Deferred} (emitted : Option (Option Nat)) :
      s.runner = .countItem ending work todo deferred →
      Step req s (.recordItem emitted)
        (recordItem s work ending emitted (.checkCounted todo deferred))
  | storeConflict {conflict : OperationConflict} {owner : Nat}
      {after : After} : s.runner = .storeConflict conflict owner after →
      Step req s .runner { s with
        pendingConflict := some { conflict := conflict, decision := none
                                  owner := owner }
        runner := .announceConflict conflict after }
  | announceConflict {conflict : OperationConflict} {after : After}
      {operation : Operation} :
      s.runner = .announceConflict conflict after →
      Enters s.operation .waitingForConflictResolution operation →
      Step req s .runner { s with
        operation := operation
        events := s.events
          ++ [.operationStateChanged .waitingForConflictResolution,
            .operationConflict conflict]
        runner := after.runner }
  | takeDecision {decision : Decision} {head : Deferred}
      {rest : List Deferred} : s.runner = .takeDecision decision head rest →
      Step req s .runner { s with
        pendingConflict := none
        runner := .leaveWaiting decision head rest
        taken := s.taken ++ [decision.ticket] }
  | leaveWaiting {decision : Decision} {head : Deferred}
      {rest : List Deferred} {operation : Operation} :
      s.runner = .leaveWaiting decision head rest →
      Enters s.operation .running operation →
      Step req s .runner { s with
        operation := operation
        events := s.events ++ [.operationStateChanged .running]
        runner := .checkRetry decision.answer head rest }
  | callRetry {answer : Answer} {head : Deferred} {rest : List Deferred} :
      s.runner = .checkRetry answer head rest → s.cancellation = false →
      Step req s .runner (callRetry s answer head rest)
  | countRetry {outcome : ExecutionOutcome} {head : Deferred}
      {rest : List Deferred} : s.runner = .countRetry outcome head rest →
      Step req s .runner { countWork s head.work outcome.ending with
        runner := .nextDeferred rest }
  | complete {operation : Operation} : s.runner = .complete →
      Enters s.operation (terminalOf s.operation) operation →
      Step req s .runner { s with
        operation := operation
        events := s.events
          ++ [.operationStateChanged (terminalOf s.operation),
            .operationCompleted operation]
        runner := .done }
  | settleCancelled (handler : Bool) : s.runner = .settleCancelled handler →
      Step req s .runner (settleCancelled s handler)
  | failJob (error : SchedulerError) : s.runner = .failing error →
      Step req s .runner (failJob s error)
  | pause {operation : Operation} : s.caller = none →
      Enters s.operation .paused operation →
      Step req s .pause { s with
        operation := operation
        events := s.events ++ [.operationStateChanged .paused]
        caller := some .pausing }
  | pauseToken : s.caller = some .pausing →
      Step req s .pauseToken { s with paused := true, caller := none }
  | resume {operation : Operation} : s.caller = none →
      Enters s.operation .running operation →
      Step req s .resume { s with
        operation := operation
        events := s.events ++ [.operationStateChanged .running]
        caller := some .resuming }
  | resumeToken : s.caller = some .resuming →
      Step req s .resumeToken { s with paused := false, caller := none }
  | confirm {operation : Operation} : s.caller = none →
      Enters s.operation .running operation →
      Step req s .confirm { s with
        operation := operation
        events := s.events ++ [.operationStateChanged .running] }
  | resolveConflict {pending : PendingConflict}
      (resolution : ConflictResolution) (applyToAll : Bool) :
      s.caller = none → s.pendingConflict = some pending →
      Step req s (.resolveConflict resolution applyToAll) { s with
        pendingConflict := some { pending with
          decision := some { resolution := resolution
                             ticket := s.submissions.length } }
        applyToAll := if applyToAll then some resolution else s.applyToAll
        submissions := s.submissions ++
          [{ resolution := resolution, applyToAll := applyToAll
             conflict := pending.conflict, owner := pending.owner
             round := s.taken.length }] }
  | cancel : s.caller = none →
      Step req s .cancel { s with
        cancellation := true, caller := some .cancelRequested }
  | cancelToken : s.caller = some .cancelRequested →
      Step req s .cancelToken { s with
        paused := false, caller := some .cancelReleased }
  | cancelIgnored : s.caller = some .cancelReleased →
      (s.operation.state.isTerminal = true ∨ s.operation.state = .cancelling) →
      Step req s .cancelTransition { s with caller := none }
  | cancelTransition {operation : Operation} :
      s.caller = some .cancelReleased →
      Enters s.operation .cancelling operation →
      Step req s .cancelTransition { s with
        operation := operation
        events := s.events ++ [.operationStateChanged .cancelling]
        caller := none }
  | republish : s.caller = none →
      Step req s .republishPendingConflicts (republishPendingConflict s)
  | tick (now : Timestamp) : Step req s (.tick now) { s with now := now }

-- ==== the inversion lemma

variable {r r' : Runner}

/-- A step that only moves the runner. -/
private theorem step_of_moves {a : Action} (hr : s.runner = r) (hm : Moves s a r r') :
    Step req s a { s with runner := r' } :=
  .move (hr ▸ hm)

private theorem step_checkCancelled (hr : s.runner = r)
    (hcheck : r.checksCancellation = true) (hpass : s.cancellation = false → Moves s .runner r r') :
    Step req s .runner (checkCancelled s r') := by
  unfold checkCancelled
  split
  case isTrue hc => exact step_of_moves hr (.cancelled hc hcheck)
  case isFalse hc => exact step_of_moves hr (hpass (by simpa using hc))

private theorem step_transitionThen (hr : s.runner = r)
    (hentering : r.entering s.operation = some next)
    (hok : ∀ operation, Enters s.operation next operation → Step req s .runner { s with
        operation := operation
        events := s.events ++ [.operationStateChanged next]
        runner := r' }) :
    Step req s .runner (transitionThen s next r') := by
  rcases transitionThen_cases s next r' with
    ⟨hillegal, error, h⟩ | ⟨operation, henters, h⟩
  · rw [h]
    exact step_of_moves hr (.illegal error hentering hillegal)
  · rw [h]
    exact hok operation henters

theorem step_of_runnerStep (h : runnerStep req s = some s') : Step req s .runner s' := by
  unfold runnerStep at h
  split at h
  case h_1 hr => cases h; exact step_of_moves hr .acquire
  case h_2 hr => cases h; exact step_checkCancelled hr rfl .passAcquired
  case h_3 hr =>
      cases h
      exact step_transitionThen hr rfl fun _ henters => .enterPlanning hr henters
  case h_4 plan hr => cases h; exact step_checkCancelled hr rfl .passPlanned
  case h_5 plan hr =>
      have heq : s' = transitionThen (announceTotals s plan)
          (announced req plan).1 (announced req plan).2 := by
        injection h with h
        rw [← h]
        unfold announced
        cases req <;> rfl
      subst heq
      rcases transitionThen_cases (announceTotals s plan)
          (announced req plan).1 (announced req plan).2 with
        ⟨hillegal, error, h'⟩ | ⟨operation, henters, h'⟩
      · rw [h']
        exact .announcePlanIllegal error hr hillegal
      · rw [h']
        exact .announcePlan hr henters
  case h_6 plan hr =>
      split at h
      case isTrue => cases h
      case isFalse hb => cases h; exact step_of_moves hr (.unblocked (by simpa using hb))
  case h_7 plan hr => cases h; exact step_checkCancelled hr rfl .passConfirmed
  case h_8 deferred hr => cases h; exact step_of_moves hr .firstPassDone
  case h_9 work todo deferred hr =>
      split at h
      case isTrue => cases h
      case isFalse hb => cases h; exact step_of_moves hr (.item (by simpa using hb))
  case h_10 work todo deferred hr =>
      cases h; exact step_checkCancelled hr rfl .passItem
  case h_11 work todo deferred hr => cases h; exact step_of_moves hr .callItem
  case h_12 result work todo deferred hr =>
      split at h
      case isTrue hc =>
        cases h
        simp only [Bool.and_eq_true] at hc
        exact step_of_moves hr (.cancelled hc.1 hc.2)
      case isFalse hc =>
        cases h
        refine step_of_moves hr (.passExecuted fun hcancel => ?_)
        simpa [hcancel] using hc
  case h_13 error work todo deferred hr => cases h; exact .recordWarning hr
  case h_14 todo deferred hr => cases h; exact step_checkCancelled hr rfl .passCounted
  case h_15 conflict work todo deferred hr =>
      cases h
      split
      case isTrue hp => exact step_of_moves hr (.fileFree (by simpa using hp))
      case isFalse hp => exact step_of_moves hr (.fileTaken (by simpa using hp))
  case h_16 conflict owner after hr => cases h; exact .storeConflict hr
  case h_17 conflict after hr =>
      cases h
      rcases announceConflict_cases s conflict after with
        ⟨hillegal, error, h'⟩ | ⟨operation, henters, h'⟩
      · rw [h']
        exact step_of_moves hr (.illegal error rfl hillegal)
      · rw [h']
        exact .announceConflict hr henters
  case h_18 hr => cases h; exact step_of_moves hr .deferredDone
  case h_19 head rest hr =>
      split at h
      case h_1 resolution hall => cases h; exact step_of_moves hr (.answered hall)
      case h_2 hall => cases h; exact step_of_moves hr (.ask hall)
  case h_20 head rest hr =>
      cases h
      split
      case isTrue hp => exact step_of_moves hr (.needFree (by simpa using hp))
      case isFalse hp => exact step_of_moves hr (.needTaken (by simpa using hp))
  case h_21 head rest hr =>
      cases hd : s.pendingConflict.bind PendingConflict.decision with
      | some decision =>
        rw [hd] at h
        cases h
        obtain ⟨pending, hp, hdec⟩ := Option.bind_eq_some_iff.mp hd
        exact step_of_moves hr (.decided hp hdec)
      | none =>
        rw [hd] at h
        cases h
        exact step_of_moves hr .undecided
  case h_22 head rest hr =>
      cases h
      split
      case isTrue hc => exact step_of_moves hr (.waitCancelled hc)
      case isFalse hc => exact step_of_moves hr (.waitOn (by simpa using hc))
  case h_23 decision head rest hr => cases h; exact .takeDecision hr
  case h_24 decision head rest hr =>
      cases h
      exact step_transitionThen hr rfl fun _ henters => .leaveWaiting hr henters
  case h_25 answer head rest hr =>
      cases h
      split
      case isTrue hc => exact step_of_moves hr (.cancelled hc rfl)
      case isFalse hc => exact .callRetry hr (by simpa using hc)
  case h_26 outcome head rest hr => cases h; exact .countRetry hr
  case h_27 hr =>
      split at h
      case isTrue => cases h
      case isFalse hb => cases h; exact step_of_moves hr (.finish (by simpa using hb))
  case h_28 hr => cases h; exact step_checkCancelled hr rfl .passFinish
  case h_29 hr =>
      cases h
      rcases complete_cases s with
        ⟨hillegal, error, h'⟩ | ⟨operation, henters, h'⟩
      · rw [h']
        exact step_of_moves hr (.illegal error rfl hillegal)
      · rw [h']
        exact .complete hr henters
  case h_30 handler hr => cases h; exact .settleCancelled handler hr
  case h_31 error hr =>
      cases h
      split
      case isTrue hc => exact step_of_moves hr (.handleCancelled hc)
      case isFalse hc => exact step_of_moves hr (.abandon (by simpa using hc))
  case h_32 error hr => cases h; exact .failJob error hr
  all_goals cases h

theorem step_of_apply {a : Action} (h : apply req a s = some s') : Step req s a s' := by
  cases a with
  | pause =>
    obtain ⟨hcaller, h⟩ := whenUnlocked_eq_some h
    unfold pause at h
    split at h
    case h_1 ht =>
      obtain ⟨operation, henters, rfl⟩ := transitionAndPublish_eq_ok ht
      cases h
      exact .pause hcaller henters
    case h_2 => cases h
  | pauseToken =>
    simp only [apply] at h
    split at h
    case isFalse => cases h
    case isTrue hcaller => cases h; exact .pauseToken hcaller
  | resume =>
    obtain ⟨hcaller, h⟩ := whenUnlocked_eq_some h
    unfold resume at h
    split at h
    case h_1 ht =>
      obtain ⟨operation, henters, rfl⟩ := transitionAndPublish_eq_ok ht
      cases h
      exact .resume hcaller henters
    case h_2 => cases h
  | resumeToken =>
    simp only [apply] at h
    split at h
    case isFalse => cases h
    case isTrue hcaller => cases h; exact .resumeToken hcaller
  | confirm =>
    obtain ⟨hcaller, h⟩ := whenUnlocked_eq_some h
    unfold confirm at h
    split at h
    case h_1 ht =>
      obtain ⟨operation, henters, rfl⟩ := transitionAndPublish_eq_ok ht
      cases h
      exact .confirm hcaller henters
    case h_2 => cases h
  | resolveConflict resolution applyToAll =>
    simp only [apply] at h
    obtain ⟨hcaller, h⟩ := whenUnlocked_eq_some h
    unfold resolveConflict at h
    split at h
    case h_1 => cases h
    case h_2 pending hp => cases h; exact .resolveConflict resolution applyToAll hcaller hp
  | cancel =>
    obtain ⟨hcaller, h⟩ := whenUnlocked_eq_some h
    cases h
    exact .cancel hcaller
  | cancelToken =>
    simp only [apply] at h
    split at h
    case isFalse => cases h
    case isTrue hcaller => cases h; exact .cancelToken hcaller
  | cancelTransition =>
    simp only [apply] at h
    split at h
    case isFalse => cases h
    case isTrue hcaller =>
      cases h
      rcases cancelTransition_cases s with ⟨hskip, h'⟩ | ⟨operation, henters, h'⟩
      · rw [h']
        exact .cancelIgnored hcaller hskip
      · rw [h']
        exact .cancelTransition hcaller henters
  | republishPendingConflicts =>
    simp only [apply] at h
    obtain ⟨hcaller, h⟩ := whenUnlocked_eq_some h
    cases h
    exact .republish hcaller
  | tick now => cases h; exact .tick now
  | runner => exact step_of_runnerStep h
  | recordItem emitted =>
    simp only [apply] at h
    split at h
    case h_1 ending work todo deferred hr => cases h; exact .recordItem emitted hr
    case h_2 => cases h
  | planReturns result =>
    simp only [apply] at h
    split at h
    case h_1 plan hr => cases h; exact .planned plan hr
    case h_2 error hr => cases h; exact step_of_moves hr (.planFailed error)
    case h_3 => cases h
  | executeReturns result =>
    simp only [apply] at h
    split at h
    case h_1 resolution work todo deferred hr =>
        cases h; exact step_of_moves hr (.executed result)
    case h_2 answer head rest hr =>
        cases h; exact step_of_moves hr (.retried result)
    case h_3 => cases h
  | finishReturns result =>
    simp only [apply] at h
    split at h
    case h_1 hr => cases h; exact step_of_moves hr .finished
    case h_2 error hr => cases h; exact step_of_moves hr (.finishFailed error)
    case h_3 => cases h
  | cleanupReturns result =>
    simp only [apply] at h
    split at h
    case h_1 handler hr => cases h; exact step_of_moves hr .cleaned
    case h_2 handler error hr =>
        cases h
        cases handler with
        | true => exact step_of_moves hr (.handlerCleanFailed error)
        | false => exact step_of_moves hr (.cleanFailed error)
    case h_3 error hr => cases h; exact step_of_moves hr (.abandoned _)
    case h_4 => cases h

end FileManager.Scheduler
