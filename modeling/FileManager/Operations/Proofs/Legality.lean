/-
When a job can fail on its own: the runner's transitions against the
control calls' ones.

# The table

`Stage` groups the runner's positions by what may be true of the
operation there, and `Stage.admits` is the table: which states, with the
conflict slot filled or empty. In every row the runner's next transition
is legal, except out of `Cancelling`, where the cancellation flag is set
and the error handling turns the refusal into a cancellation.

# Where the code leaves the table

`run_job` treats a refused transition as a failure of the job, and four
accepted calls make one be refused. `KeepsLegal` excludes them: a
`resume` or `confirm` that takes the job out of `Planning`, or out of
`WaitingForConflictResolution` when it waits for a decision and not for
its confirmation; a pause still in force when a plan, a conflict or the
end is announced; and an apply-to-all decision given before the deferred
pass, which answers the item without emptying the slot.
-/
import FileManager.Operations.Proofs.Gate

namespace FileManager.Scheduler

open Machine Runner List Scheduler.Action
open OperationState (canTransitionTo)
open Bool (and_eq_true)

variable {req filled cancellation : Bool} {s s' : State} {state next : OperationState} {a : Action}
  {acts : List Action}

-- ==== the table

/-- What the runner is about, as far as the operation's state depends
on it. -/
inductive Stage
  | queued
  | planning
  | gate
  | steady
  | pass (deferred : Bool)
  | storing (deferred : Bool)
  | announcing (deferred : Bool)
  | asking
  | leaving
  | retry
  | ending

open Stage

/-- A conflict is registered for an item that has been deferred. -/
def After.deferred : After → Bool
  | .item _ deferred => !deferred.isEmpty
  | .decision _ _ | .retry _ _ => true

/-- The stage of a position. Where it says `deferred`, the stage is told
whether an item has been deferred: only then can the slot be filled. -/
def Runner.stage : Runner → Stage
  | .acquire | .checkAcquired | .enterPlanning => .queued
  | .planning | .checkPlanned _ | .announcePlan _ => .planning
  | .awaitConfirmation _ => .gate
  | .nextItem _ deferred | .checkItem _ _ deferred | .callItem _ _ deferred
  | .executing _ _ _ deferred | .checkExecuted _ _ _ deferred
  | .recordWarning _ _ _ deferred | .countItem _ _ _ deferred
  | .checkCounted _ deferred | .fileConflict _ _ _ deferred
  | .nextDeferred deferred => .pass !deferred.isEmpty
  | .needConflict .. => .pass true
  | .storeConflict _ _ after => .storing after.deferred
  | .announceConflict _ after => .announcing after.deferred
  | .awaitDecision .. | .awaitCancellation .. | .takeDecision .. => .asking
  | .leaveWaiting .. => .leaving
  | .checkRetry .. => .retry
  | .checkConfirmed _ | .retrying .. | .countRetry .. | .awaitFinish
  | .checkFinish | .finishing | .complete => .steady
  | .cleaning _ | .settleCancelled _ | .raised _ | .abandoning _
  | .failing _ | .done => .ending

/-- The states a working job may be in with an empty slot. -/
def isSteady : OperationState → Bool
  | .running | .paused | .cancelling => true
  | _ => false

/-- The states a job may be in while a conflict waits for its
decision. -/
def isAsking : OperationState → Bool
  | .waitingForConflictResolution | .cancelling => true
  | _ => false

/-- The table: whether a stage admits the state, with the slot filled or
empty and the cancellation flag. -/
def Stage.admits (req : Bool) (stage : Stage) (state : OperationState)
    (filled cancellation : Bool) : Bool :=
  match stage with
  | .queued => !filled && (state = .queued || state = .cancelling)
  | .planning =>
    !filled && (state = .planning || state = .cancelling
      || req && isSteady state)
  | .gate => !filled && (isSteady state || isAsking state)
  | .steady => !filled && isSteady state
  | .pass deferred =>
    if filled then deferred && isAsking state else isSteady state
  | .storing deferred => deferred && !filled && isSteady state
  | .announcing deferred => deferred && filled && isSteady state
  | .asking => filled && isAsking state
  | .leaving => !filled && isAsking state
  | .retry => cancellation || !filled && isSteady state
  | .ending => true

/-- The job is where the table says. -/
def Tabled (req : Bool) (s : State) : Prop :=
  s.runner.stage.admits req s.operation.state s.pendingConflict.isSome s.cancellation = true

-- ==== the control calls

variable {stage : Stage}

theorem Stage.admits_paused (h : stage.admits req state filled cancellation = true)
    (hlegal : state.canTransitionTo .paused = true) :
    stage.admits req .paused filled cancellation = true := by
  have hstate := OperationState.eq_of_canTransitionTo_paused hlegal
  subst hstate
  cases stage <;> simp_all [admits, isSteady, isAsking]

theorem Stage.admits_running (h : stage.admits req state filled cancellation = true)
    (hlegal : state.canTransitionTo .running = true) (hplanning : state = .planning → req = true)
    (hwaiting : state = .waitingForConflictResolution → stage = .gate) :
    stage.admits req .running filled cancellation = true := by
  rcases OperationState.eq_of_canTransitionTo_running hlegal with
    rfl | rfl | rfl
  · have hreq := hplanning rfl
    cases stage <;> simp_all [admits, isSteady, isAsking]
  · cases stage <;> simp_all [admits, isSteady, isAsking]
  · have hgate := hwaiting rfl
    subst hgate
    simp_all [admits, isSteady]

theorem Stage.admits_cancelling (h : stage.admits req state filled cancellation = true) :
    stage.admits req .cancelling filled cancellation = true := by
  cases stage with
  | pass deferred =>
    simp only [admits, isSteady, isAsking] at h ⊢
    split at h <;> simp_all
  | retry =>
    simp only [admits, isSteady] at h ⊢
    cases cancellation <;> simp_all
  | _ => simp_all [admits, isSteady, isAsking]

theorem Stage.admits_requested (h : stage.admits req state filled cancellation = true) :
    stage.admits req state filled true = true := by
  cases stage <;> simp_all [admits]

-- ==== the condition

/-- The positions in which the runner announces something by a
transition that a pause in force makes illegal. -/
def Runner.announces : Runner → Bool
  | .announcePlan _ | .announceConflict .. | .complete => true
  | _ => false

def Runner.turnsToDeferred : Runner → Bool
  | .nextDeferred (_ :: _) => true
  | _ => false

/-- No accepted call makes a later transition of the runner illegal. -/
structure KeepsLegal (req : Bool) (s : State) (a : Action) : Prop where
  planning : a.asksRunning = true → s.operation.state = .planning → req = true
  waiting : a.asksRunning = true →
    s.operation.state = .waitingForConflictResolution →
    s.runner.phase = .gate
  paused : a.isRunner = true → s.runner.announces = true →
    s.operation.state = .paused → s.cancellation = true
  answered : a.isRunner = true → s.runner.turnsToDeferred = true →
    s.applyToAll.isSome = true → s.pendingConflict.isSome = true →
    s.cancellation = true

instance (req : Bool) (s : State) (a : Action) : Decidable (KeepsLegal req s a) :=
  decidable_of_iff ((a.asksRunning = true → s.operation.state = .planning → req = true)
      ∧ (a.asksRunning = true →
          s.operation.state = .waitingForConflictResolution →
          s.runner.phase = .gate)
      ∧ (a.isRunner = true → s.runner.announces = true →
          s.operation.state = .paused → s.cancellation = true)
      ∧ (a.isRunner = true → s.runner.turnsToDeferred = true →
          s.applyToAll.isSome = true → s.pendingConflict.isSome = true →
          s.cancellation = true))
    ⟨fun ⟨h₁, h₂, h₃, h₄⟩ => ⟨h₁, h₂, h₃, h₄⟩,
      fun h => ⟨h.planning, h.waiting, h.paused, h.answered⟩⟩

variable {r : Runner}

theorem Runner.stage_of_phase_gate (h : r.phase = .gate) : r.stage = .gate := by
  cases r <;> first | rfl | cases h

-- ==== the runner's moves

theorem Tabled.move (h : Tabled req s) (hok : KeepsLegal req s a) (hm : Moves s a s.runner r) :
    Tabled req { s with runner := r } := by
  unfold Tabled at h ⊢
  show r.stage.admits req s.operation.state s.pendingConflict.isSome s.cancellation = true
  have hans := hok.answered
  generalize s.runner = r₀ at h hm hans
  cases hm with
  | unblocked hb =>
    simp only [stage, admits, and_eq_true] at h ⊢
    refine ⟨h.1, ?_⟩
    have hnone : s.pendingConflict.isNone = true := by simpa using h.1
    cases hstate : s.operation.state <;> simp_all [blocked, isSteady, isAsking]
  | passConfirmed _ =>
    simp only [stage, admits, and_eq_true] at h ⊢
    simp_all
  | @passExecuted result _ _ _ _ =>
    rcases result with error | outcome
    · cases error with
      | warning _ _ | conflict _ => exact h
      | notImplemented | failed _ | provider _ => rfl
    · exact h
  | retried result =>
    rcases result with error | outcome
    · cases error with
      | conflict _ =>
        simp only [afterRetry, stage, admits, After.deferred] at h ⊢
        simpa using h
      | notImplemented | failed _ | provider _ | warning _ _ => rfl
    · exact h
  | fileFree hnone | needFree hnone =>
    simp only [stage, admits, hnone] at h ⊢
    simpa [After.deferred] using h
  | fileTaken hsome =>
    have hfilled := Option.isSome_iff_ne_none.mpr hsome
    simp only [stage, admits, hfilled, if_true, and_eq_true] at h ⊢
    simpa using h.2
  | deferredDone =>
    simp only [stage, admits] at h ⊢
    split at h <;> simp_all
  | answered hall =>
    simp only [stage, admits] at h ⊢
    cases hfilled : s.pendingConflict.isSome with
    | false =>
      have hsteady : isSteady s.operation.state = true := by simpa [hfilled] using h
      simp [hsteady]
    | true =>
      have hcancel := hans rfl rfl (by rw [hall]; rfl) hfilled
      simp [hcancel]
  | needTaken hsome =>
    have hfilled := Option.isSome_iff_ne_none.mpr hsome
    simp only [stage, admits, hfilled, if_true] at h ⊢
    simpa using h
  | waitCancelled hc => simp [stage, admits, hc]
  | planFailed _ | finishFailed _ | cancelled _ _ | cleaned | cleanFailed _
  | handlerCleanFailed _ | illegal _ _ _ | handleCancelled _ | abandon _
  | abandoned _ => rfl
  | _ => exact h

-- ==== the step lemma

theorem Tabled.step (h : Tabled req s) (hlife : Lifecycle s) (hok : KeepsLegal req s a)
    (hstep : Step req s a s') : Tabled req s' := by
  -- the row the step starts from, once the position is known
  have hrow : ∀ {r : Runner}, s.runner = r →
      r.stage.admits req s.operation.state s.pendingConflict.isSome s.cancellation = true := by
    intro r hr
    rw [← hr]
    exact h
  cases hstep with
  | move hm => exact h.move hok hm
  | enterPlanning hr henters =>
    have hempty := hrow hr
    simp only [stage, admits, and_eq_true] at hempty
    simp [Tabled, stage, admits, henters.state, hempty.1]
  | announcePlan hr henters =>
    have hempty := hrow hr
    simp only [stage, admits, and_eq_true] at hempty
    unfold Tabled announced at *
    cases req with
    | true =>
      simp_all [stage, admits, henters.state, isAsking]
    | false =>
      simp_all [stage, admits, henters.state, isSteady]
  | announcePlanIllegal error hr _ => rfl
  | planned plan hr | recordWarning hr =>
    have hsame := hrow hr
    exact hsame
  | recordItem emitted hr =>
    have hsame := hrow hr
    cases emitted <;> exact hsame
  | storeConflict hr =>
    have hsteady := hrow hr
    simp only [stage, admits, and_eq_true] at hsteady
    simp [Tabled, stage, admits, hsteady.1.1, hsteady.2]
  | @announceConflict conflict after operation hr henters =>
    have hfilled := hrow hr
    simp only [stage, admits, and_eq_true] at hfilled
    unfold Tabled
    simp only [henters.state, hfilled.1.2]
    cases after with
    | item todo deferred =>
      have hdeferred : (!deferred.isEmpty) = true := hfilled.1.1
      simp only [After.runner, stage, admits, hdeferred, if_true, isAsking, Bool.and_self]
    | decision head rest | retry head rest => rfl
  | takeDecision hr =>
    have hasking := hrow hr
    simp only [stage, admits, and_eq_true] at hasking
    simp [Tabled, stage, admits, hasking.2]
  | leaveWaiting hr henters =>
    have hempty := hrow hr
    simp only [stage, admits, and_eq_true] at hempty
    simp [Tabled, stage, admits, henters.state, hempty.1, isSteady]
  | callRetry hr hc =>
    have hsteady := hrow hr
    simp only [stage, admits, hc, Bool.false_or] at hsteady
    exact hsteady
  | countRetry hr =>
    have hsteady := hrow hr
    simp only [stage, admits, and_eq_true] at hsteady
    unfold Tabled
    simp_all [stage, admits, countWork]
  | complete hr henters => rfl
  | settleCancelled handler hr =>
    obtain ⟨operation, -, -, heq⟩ := settleCancelled_eq s handler (hlife.alive hr)
    rw [heq]
    rfl
  | failJob error hr =>
    obtain ⟨operation, -, heq⟩ := failJob_eq s error (hlife.alive hr)
    rw [heq]
    rfl
  | pause hcaller henters =>
    have hadmits := admits_paused h henters.legal
    rw [← henters.state] at hadmits
    exact hadmits
  | resume hcaller henters | confirm hcaller henters =>
    have hadmits := admits_running h henters.legal (hok.planning rfl)
      fun hw => stage_of_phase_gate (hok.waiting rfl hw)
    rw [← henters.state] at hadmits
    exact hadmits
  | cancelTransition hcaller henters =>
    have hadmits := admits_cancelling h
    rw [← henters.state] at hadmits
    exact hadmits
  | cancel hcaller => exact admits_requested h
  | resolveConflict _ _ hcaller hpending =>
    unfold Tabled at h ⊢
    rw [hpending] at h
    exact h
  | republish hcaller =>
    unfold republishPendingConflict
    split <;> exact h
  | _ => exact h

-- ==== who is to blame

/-- An item's conflict is a question, no failure. -/
def ExecutionError.isConflict : ExecutionError → Bool
  | .conflict _ => true
  | _ => false

/-- The executor returned the error, from any of its four calls. -/
def Returned (acts : List Action) (e : ExecutionError) : Prop :=
  planReturns (.error e) ∈ acts
    ∨ (executeReturns (.error e) ∈ acts ∧ e.isConflict = false)
    ∨ finishReturns (.error e) ∈ acts
    ∨ cleanupReturns (.error e) ∈ acts

theorem Returned.concat {e : ExecutionError} (a : Action)
    (h : Returned acts e) : Returned (acts ++ [a]) e := by
  rcases h with h | h | h | h
  · exact .inl (mem_append_left _ h)
  · exact .inr (.inl ⟨mem_append_left _ h.1, h.2⟩)
  · exact .inr (.inr (.inl (mem_append_left _ h)))
  · exact .inr (.inr (.inr (mem_append_left _ h)))

/-- The error the runner carries to `fail_job`. -/
def Runner.error? : Runner → Option SchedulerError
  | .raised error | .abandoning error | .failing error => some error
  | _ => none

/-- The error of an `execute` call that the runner has yet to look
at. -/
def Runner.result? : Runner → Option ExecutionError
  | .checkExecuted (.error e) _ _ _ => some e
  | _ => none

/-- The error handling has not yet read the cancellation flag. -/
def Runner.isRaised : Runner → Bool
  | .raised _ => true
  | _ => false

/-- The error a job carries, and the one it has failed with, was
returned by the executor; a refused transition is carried only as far as
the error handling of a cancelled job. -/
structure Blames (acts : List Action) (s : State) : Prop where
  carried : ∀ error, s.runner.error? = some error →
    (∃ e, error = .execution e ∧ Returned acts e)
      ∨ (s.runner.isRaised = true ∧ s.cancellation = true)
  checked : ∀ e, s.runner.result? = some e →
    executeReturns (.error e) ∈ acts
  failed : s.operation.state = .failed →
    ∃ e, .operationFailed "operationFailed" (.execution e) ∈ s.events ∧ Returned acts e

theorem Blames.of_none (hnone : s.runner.error? = none) (hnone' : s.runner.result? = none)
    (hstate : s.operation.state ≠ .failed) : Blames acts s := by
  refine ⟨fun error herror => ?_, fun e he => ?_, fun hf => absurd hf hstate⟩
  · simp [hnone] at herror
  · rw [hnone'] at he
    cases he

theorem Blames.of_control (a : Action) (h : Blames acts s) (hrunner : s'.runner = s.runner)
    (hflag : s.cancellation = true → s'.cancellation = true)
    (hstate : s'.operation.state = .failed → s.operation.state = .failed)
    (hevents : ∀ e ∈ s.events, e ∈ s'.events) : Blames (acts ++ [a]) s' := by
  refine ⟨fun error herror => ?_, fun e he => ?_, fun hf => ?_⟩
  · rw [hrunner] at herror ⊢
    rcases h.carried error herror with ⟨e, he, hret⟩ | ⟨hraised, hset⟩
    · exact .inl ⟨e, he, hret.concat a⟩
    · exact .inr ⟨hraised, hflag hset⟩
  · rw [hrunner] at he
    exact mem_append_left _ (h.checked e he)
  · obtain ⟨e, hmem, hret⟩ := h.failed (hstate hf)
    exact ⟨e, hevents _ hmem, hret.concat a⟩

theorem Blames.of_enters (a : Action) {operation : Operation}
    (h : Blames acts s) (henters : Enters s.operation next operation) (hne : next ≠ .failed)
    (hrunner : s'.runner = s.runner) (hflag : s'.cancellation = s.cancellation)
    (hoperation : s'.operation = operation)
    (hevents : s'.events = s.events ++ [.operationStateChanged next]) :
    Blames (acts ++ [a]) s' := by
  refine h.of_control a hrunner (fun hset => hflag.trans hset) (fun hf => ?_) ?_
  · rw [hoperation, henters.state] at hf
    exact absurd hf hne
  · intro e he
    rw [hevents]
    exact mem_append_left _ he

theorem Tabled.cancelled_of_illegal (h : Tabled req s) (hlife : Lifecycle s)
    (hok : KeepsLegal req s .runner) (hentering : s.runner.entering s.operation = some next)
    (hillegal : s.operation.state.canTransitionTo next = false) : s.cancellation = true := by
  by_cases hc : s.operation.state = .cancelling
  · exact hlife.flag.state hc
  · have hpaused := hok.paused rfl
    unfold Tabled at h
    generalize s.runner = r at h hentering hpaused
    cases r with
    | enterPlanning =>
      cases hentering
      simp only [stage, admits] at h
      cases hs : s.operation.state <;> simp_all [canTransitionTo]
    | announceConflict conflict after =>
      cases hentering
      simp only [stage, admits, isSteady] at h
      cases hs : s.operation.state <;> simp_all [canTransitionTo, announces]
    | leaveWaiting decision head rest =>
      cases hentering
      simp only [stage, admits, isAsking] at h
      cases hs : s.operation.state <;> simp_all [canTransitionTo]
    | complete =>
      cases hentering
      simp only [stage, admits, isSteady] at h
      unfold terminalOf at hillegal
      split at hillegal <;> cases hs : s.operation.state <;> simp_all [canTransitionTo, announces]
    | _ => cases hentering

theorem Tabled.cancelled_of_announce {plan : OperationPlan} (h : Tabled req s)
    (hlife : Lifecycle s) (hok : KeepsLegal req s .runner) (hr : s.runner = .announcePlan plan)
    (hillegal : s.operation.state.canTransitionTo (announced req plan).1 = false) :
    s.cancellation = true := by
  by_cases hc : s.operation.state = .cancelling
  · exact hlife.flag.state hc
  · have hpaused := hok.paused rfl (by rw [hr]; rfl)
    unfold Tabled announced at *
    rw [hr] at h
    simp only [stage, admits, isSteady] at h
    cases req <;> cases hs : s.operation.state <;> simp_all [canTransitionTo]

theorem Blames.move (h : Blames acts s) (htab : Tabled req s)
    (hlife : Lifecycle s) (hok : KeepsLegal req s a) (hm : Moves s a s.runner r) :
    Blames (acts ++ [a]) { s with runner := r } := by
  have hfailed : s.operation.state = .failed →
      ∃ e, .operationFailed "operationFailed" (.execution e) ∈ s.events
        ∧ Returned (acts ++ [a]) e := by
    intro hf
    obtain ⟨e, hmem, hret⟩ := h.failed hf
    exact ⟨e, hmem, hret.concat a⟩
  -- a position that carries no error and waits to look at none
  have hnone : r.error? = none → r.result? = none →
      Blames (acts ++ [a]) { s with runner := r } := by
    intro hne hne'
    refine ⟨fun error herror => ?_, fun e he => ?_, hfailed⟩
    · rw [show ({ s with runner := r } : State).runner.error? = none from hne]
        at herror
      cases herror
    · rw [show ({ s with runner := r } : State).runner.result? = none from hne']
        at he
      cases he
  -- a position that carries an error of the executor
  have hcarry : ∀ e, Returned (acts ++ [a]) e → r.result? = none →
      r.error? = some (.execution e) →
      Blames (acts ++ [a]) { s with runner := r } := by
    intro e hret hne' herr
    refine ⟨fun error herror => ?_, fun e' he => ?_, hfailed⟩
    · have heq : some (.execution e) = some error := herr.symm.trans herror
      exact .inl ⟨e, (Option.some.inj heq).symm, hret⟩
    · rw [show ({ s with runner := r } : State).runner.result? = none from hne']
        at he
      cases he
  obtain ⟨r₀, hr⟩ : ∃ r₀, s.runner = r₀ := ⟨_, rfl⟩
  rw [hr] at hm
  cases hm with
  | planFailed e => exact hcarry e (.inl (by simp)) rfl rfl
  | finishFailed e => exact hcarry e (.inr (.inr (.inl (by simp)))) rfl rfl
  | cleanFailed e | handlerCleanFailed e =>
    exact hcarry e (.inr (.inr (.inr (by simp)))) rfl rfl
  | executed result =>
    refine ⟨fun error herror => (by cases herror), fun e he => ?_, hfailed⟩
    rcases result with error | outcome
    · cases he
      simp
    · cases he
  | @passExecuted result _ _ _ _ =>
    rcases result with error | outcome
    · have hmem := mem_append_left [runner] (h.checked error (by rw [hr]; rfl))
      cases error with
      | warning _ _ | conflict _ => exact hnone rfl rfl
      | notImplemented | failed _ | provider _ =>
        exact hcarry _ (.inr (.inl ⟨hmem, rfl⟩)) rfl rfl
    · exact hnone rfl rfl
  | retried result =>
    rcases result with error | outcome
    · cases error with
      | conflict _ => exact hnone rfl rfl
      | notImplemented | failed _ | provider _ | warning _ _ =>
        exact hcarry _ (.inr (.inl ⟨by simp, rfl⟩)) rfl rfl
    · exact hnone rfl rfl
  | illegal error hentering hillegal =>
    have hcancel := htab.cancelled_of_illegal hlife hok (by rw [hr]; exact hentering) hillegal
    exact ⟨fun _ _ => .inr ⟨rfl, hcancel⟩, fun e he => (by cases he), hfailed⟩
  | @abandon error hc =>
    rcases h.carried error (by rw [hr]; rfl) with ⟨e, rfl, hret⟩ | ⟨-, hset⟩
    · exact hcarry e (hret.concat _) rfl rfl
    · simp [hc] at hset
  | @abandoned error result =>
    rcases h.carried error (by rw [hr]; rfl) with ⟨e, rfl, hret⟩ | ⟨hraised, -⟩
    · exact hcarry e (hret.concat _) rfl rfl
    · rw [hr] at hraised
      cases hraised
  | _ => exact hnone rfl rfl

theorem Blames.step (h : Blames acts s) (htab : Tabled req s) (hlife : Lifecycle s)
    (hok : KeepsLegal req s a) (hstep : Step req s a s') : Blames (acts ++ [a]) s' := by
  have hlive : ∀ {r : Runner}, s.runner = r → r ≠ .done →
      s.operation.state ≠ .failed := by
    intro r hr hne hf
    have hterm := hlife.live (by rw [hr]; exact hne)
    rw [hf] at hterm
    cases hterm
  have hnext : ∀ {operation : Operation} {next : OperationState},
      Enters s.operation next operation → next ≠ .failed →
      operation.state ≠ .failed := by
    intro operation next henters hne
    rw [henters.state]
    exact hne
  cases hstep with
  | move hm => exact h.move htab hlife hok hm
  | planned plan hr => exact .of_none rfl rfl (hlive hr (by simp))
  | @announcePlan plan operation hr henters =>
    refine .of_none ?_ ?_ ?_
    · unfold announced
      cases req <;> rfl
    · unfold announced
      cases req <;> rfl
    · rw [henters.state]
      unfold announced
      cases req <;> simp
  | announcePlanIllegal error hr hillegal =>
    have hcancel := htab.cancelled_of_announce hlife hok hr hillegal
    refine ⟨fun _ _ => .inr ⟨rfl, hcancel⟩, fun e he => (by cases he), fun hf => ?_⟩
    exact absurd hf (hlive hr (by simp))
  | recordItem emitted hr =>
    have hstate := hlive hr (by simp)
    cases emitted <;> exact .of_none rfl rfl hstate
  | recordWarning hr | storeConflict hr | takeDecision hr | callRetry hr _
  | countRetry hr => exact .of_none rfl rfl (hlive hr (by simp))
  | @announceConflict conflict after operation hr henters =>
    have hstate := hnext henters (by simp)
    cases after <;> exact .of_none rfl rfl hstate
  | enterPlanning hr henters | leaveWaiting hr henters =>
    exact .of_none rfl rfl (hnext henters (by simp))
  | complete hr henters =>
    refine .of_none rfl rfl (hnext henters ?_)
    unfold terminalOf
    split <;> simp
  | settleCancelled handler hr =>
    obtain ⟨operation, hstate, -, heq⟩ := settleCancelled_eq s handler (hlife.alive hr)
    rw [heq]
    exact .of_none rfl rfl (by simp [hstate])
  | failJob error hr =>
    obtain ⟨operation, henters, heq⟩ := failJob_eq s error (hlife.alive hr)
    rw [heq]
    refine ⟨fun _ herror => (by cases herror), fun _ he => (by cases he), fun _ => ?_⟩
    rcases h.carried error (by rw [hr]; rfl) with ⟨e, rfl, hret⟩ | ⟨hraised, -⟩
    · exact ⟨e, by simp, hret.concat _⟩
    · rw [hr] at hraised
      cases hraised
  | pause hcaller henters | resume hcaller henters | confirm hcaller henters =>
    exact h.of_enters _ henters (by simp) rfl rfl rfl rfl
  | cancelTransition hcaller henters =>
    exact h.of_enters _ henters (by simp) rfl rfl rfl rfl
  | republish hcaller =>
    unfold republishPendingConflict
    split
    case h_1 => exact h.of_control _ rfl id id fun _ he => he
    case h_2 =>
      exact h.of_control _ rfl id id fun _ he => mem_append_left _ he
  | cancel _ => exact h.of_control _ rfl (fun _ => rfl) id fun _ he => he
  | pauseToken _ | resumeToken _ | resolveConflict _ _ _ _ | cancelToken _
  | cancelIgnored _ _ | tick _ => exact h.of_control _ rfl id id fun _ he => he

-- ==== the run lemma

theorem tabled_run {request : Request} {now : Timestamp}
    (hrun : Run (apply req) (KeepsLegal req) (startOperation request now) acts s) :
    Tabled req s ∧ Blames acts s := by
  refine run_invariant (P := fun acts s => Tabled req s ∧ Blames acts s) hrun ?_ ?_
  · exact ⟨rfl, .of_none rfl rfl (by simp [startOperation, submit, Operation.new])⟩
  · intro acts s s' a hlife hok hstep ⟨htab, hblames⟩
    exact ⟨htab.step hlife hok hstep, hblames.step htab hlife hok hstep⟩

/-- In every run without the four kinds of call, a job that has failed
reports an error that the executor itself returned. -/
theorem failed_only_by_executor {request : Request} {now : Timestamp}
    {acts : List Action}
    (hrun : Run (apply req) (KeepsLegal req) (startOperation request now) acts s)
    (hfailed : s.operation.state = .failed) :
    ∃ e, .operationFailed "operationFailed" (.execution e) ∈ s.events
      ∧ Returned acts e :=
  (tabled_run hrun).2.failed hfailed

/-- A job whose plan fails is such a run. -/
theorem failed_only_by_executor_plan :
    ∃ acts s, Run (apply false) (KeepsLegal false) (startOperation sampleRequest 0) acts s
      ∧ s.operation.state = .failed ∧ ∃ e, Returned acts e := by
  obtain ⟨s, hrun, hstate⟩ := Run.exists_of_guardedRun
    (show (guardedRun (apply false) (KeepsLegal false) (startOperation sampleRequest 0)
      [.runner, .runner, .runner, .planReturns (.error .notImplemented),
        .runner, .cleanupReturns (.ok ()), .runner]).any
      (fun s => decide (s.operation.state = .failed)) = true from by decide)
  obtain ⟨e, -, hret⟩ := failed_only_by_executor hrun hstate
  exact ⟨_, s, hrun, hstate, e, hret⟩

-- ==== the four ways out of the table

/-- The error handling of a job that was not cancelled. -/
def abandonScript : List Action := [.runner, .cleanupReturns (.ok ()), .runner]

/-- The first item of the plan conflicts and is registered. -/
def conflictScript : List Action :=
  planScript (samplePlan 3 4) ++ executeScript (.error (.conflict (sampleConflict 1)))
    ++ [.runner, .runner, .runner]

def resumeInPlanning : List Action :=
  [.runner, .runner, .runner, .resume, .resumeToken,
    .planReturns (.ok (samplePlan 3 4)), .runner, .runner] ++ abandonScript

/-- A job is resumed while a conflict waits for its decision. -/
def resumeInConflict : List Action :=
  conflictScript ++ [.resume, .resumeToken] ++ itemScript .completed
    ++ [.runner, .runner, .runner, .resolveConflict .skip false, .runner,
      .runner, .runner] ++ abandonScript

/-- A job is paused while an item executes that then conflicts. -/
def pauseInConflict : List Action :=
  planScript (samplePlan 3 4) ++ [.runner, .runner, .runner, .pause, .pauseToken,
      .executeReturns (.error (.conflict (sampleConflict 1))), .runner,
      .runner, .runner, .runner] ++ abandonScript

/-- An apply-to-all decision is given during the first pass; every call
of the executor succeeds. -/
def applyToAllInFirstPass : List Action :=
  conflictScript ++ [.resolveConflict .overwrite true] ++ itemScript .completed
    ++ [.runner, .runner, .runner, .executeReturns (.ok .completed), .runner,
      .runner, .runner, .runner, .finishReturns (.ok ()), .runner]
    ++ abandonScript

/-- The actions fail a job whose executor returned no error. -/
def FailsUnprovoked (acts : List Action) : Prop :=
  (∃ s, Run (apply false) Free (startOperation sampleRequest 0) acts s
    ∧ s.operation.state = .failed)
  ∧ ∀ e, ¬ Returned acts e

/-- Each of the four does. -/
theorem calls_fail_a_job :
    FailsUnprovoked resumeInPlanning ∧ FailsUnprovoked resumeInConflict
      ∧ FailsUnprovoked pauseInConflict ∧ FailsUnprovoked applyToAllInFirstPass := by
  refine ⟨⟨Run.exists_of_run (by decide), fun e he => ?_⟩,
    ⟨Run.exists_of_run (by decide), fun e he => ?_⟩,
    ⟨Run.exists_of_run (by decide), fun e he => ?_⟩,
    ⟨Run.exists_of_run (by decide), fun e he => ?_⟩⟩
  · simp [Returned, resumeInPlanning, abandonScript] at he
  · simp [Returned, resumeInConflict, conflictScript, planScript,
      executeScript, itemScript, abandonScript] at he
    simp [he.1, ExecutionError.isConflict] at he
  · simp [Returned, pauseInConflict, planScript, abandonScript] at he
    simp [he.1, ExecutionError.isConflict] at he
  · simp [Returned, applyToAllInFirstPass, conflictScript, planScript,
      executeScript, itemScript, abandonScript] at he
    simp [he.1, ExecutionError.isConflict] at he

end FileManager.Scheduler
