/-
What becomes of the results of `execute`: each one is carried by the
runner until it is counted, and none is counted that was not returned.

`State.settled` is the list of the results so far, counted or on their
way: only the return of an `execute` call adds to it, as long as the
executor raises no warnings (a warning that a cancellation overtakes is
dropped).
-/
import FileManager.Operations.Proofs.Progress

namespace FileManager.Scheduler

open Machine List Option

variable {req : Bool} {s s' : State} {resolution : Option ConflictResolution} {work : Work}
  {result : Except ExecutionError ExecutionOutcome}

/-- The result a runner position carries to the count. -/
def Runner.inFlight : Runner → List (Work × Ending)
  | .checkExecuted (.ok outcome) work _ _ => [(work, outcome.ending)]
  | .countItem ending work _ _ => [(work, ending)]
  | .countRetry outcome head _ => [(head.work, outcome.ending)]
  | _ => []

def Runner.warns : Runner → Bool
  | .checkExecuted (.error (.warning _ _)) .. => true
  | .recordWarning .. => true
  | _ => false

/-- The results of `execute` so far. -/
def State.settled (s : State) : List (Work × Ending) := s.outcomes ++ s.runner.inFlight

/-- The return of an `execute` call. -/
def Action.isExecuteReturn : Action → Bool
  | .executeReturns _ => true
  | _ => false

/-- The return of a `plan` call. -/
def Action.isPlanReturn : Action → Bool
  | .planReturns _ => true
  | _ => false

-- ==== one step

theorem After.runner_inFlight (after : After) :
    after.runner.inFlight = [] ∧ after.runner.warns = false := by
  cases after <;> exact ⟨rfl, rfl⟩

variable {r : Runner}

theorem inFlight_of_checksCancellation (h : r.checksCancellation = true) : r.inFlight = [] := by
  cases r with
  | checkExecuted result _ _ _ =>
    rcases result with error | outcome
    · rfl
    · cases h
  | checkAcquired | checkPlanned _ | checkConfirmed _ | checkItem _ _ _
  | checkCounted _ _ | checkRetry _ _ _ | checkFinish => rfl
  | _ => cases h

theorem inFlight_of_entering {operation : Operation} {next : OperationState}
    (h : r.entering operation = some next) : r.inFlight = [] := by
  cases r with
  | enterPlanning | announceConflict _ _ | leaveWaiting _ _ _ | complete => rfl
  | _ => cases h

variable {a : Action} {r r' : Runner}

theorem Moves.inFlight (h : Moves s a r r')
    (hreturn : a.isExecuteReturn = false) : r'.inFlight = r.inFlight := by
  cases h with
  | executed _ | retried _ => cases hreturn
  | @passExecuted result work todo deferred _ =>
    rcases result with error | outcome
    · cases error <;> rfl
    · rfl
  | cancelled _ hchecks => exact (inFlight_of_checksCancellation hchecks).symm
  | illegal _ hentering _ => exact (inFlight_of_entering hentering).symm
  | _ => rfl

theorem Moves.warns (h : Moves s a r r') (hreturn : a.isExecuteReturn = false)
    (hwarns : r.warns = false) : r'.warns = false := by
  cases h with
  | executed _ | retried _ => cases hreturn
  | @passExecuted result work todo deferred _ =>
    rcases result with error | outcome
    · cases error with
      | warning _ _ => cases hwarns
      | _ => rfl
    · rfl
  | _ => rfl

theorem settled_step_cases (hlife : Lifecycle s) (hstep : Step req s a s')
    (hreturn : a.isExecuteReturn = false) :
    s'.settled = s.settled ∨ ∃ error work todo deferred,
        s.runner = .recordWarning error work todo deferred
        ∧ s'.settled = s.settled ++ [(work, .warned)]
        ∧ s'.operation.errors = s.operation.errors ++ [error] := by
  -- a step that counts nothing, between positions that carry nothing
  have hquiet : ∀ t : State, t.outcomes = s.outcomes → s.runner.inFlight = [] →
      t.runner.inFlight = [] → t.settled = s.settled := by
    intro t houtcomes hbefore hafter
    unfold State.settled
    rw [houtcomes, hbefore, hafter]
  cases hstep with
  | move hm => exact .inl (congrArg (s.outcomes ++ ·) (hm.inFlight hreturn))
  | recordWarning hr =>
    refine .inr ⟨_, _, _, _, hr, ?_, rfl⟩
    unfold State.settled
    rw [hr]
    exact (append_nil _ ▸ rfl)
  | recordItem emitted hr =>
    refine .inl ?_
    unfold State.settled
    rw [hr]
    cases emitted <;> exact append_nil _
  | countRetry hr =>
    refine .inl ?_
    unfold State.settled
    rw [hr]
    exact append_nil _
  | @announcePlan plan operation hr _ =>
    refine .inl (hquiet _ rfl (by rw [hr]; rfl) ?_)
    unfold announced
    cases req <;> rfl
  | @announceConflict conflict after operation hr _ =>
    exact .inl (hquiet _ rfl (by rw [hr]; rfl) after.runner_inFlight.1)
  | settleCancelled handler hr =>
    obtain ⟨operation, -, -, heq⟩ := settleCancelled_eq s handler (hlife.alive hr)
    rw [heq]
    exact .inl (hquiet _ rfl (by rw [hr]; rfl) rfl)
  | failJob error hr =>
    obtain ⟨operation, -, heq⟩ := failJob_eq s error (hlife.alive hr)
    rw [heq]
    exact .inl (hquiet _ rfl (by rw [hr]; rfl) rfl)
  | republish _ =>
    unfold republishPendingConflict
    split <;> exact .inl rfl
  | planned _ hr | enterPlanning hr _ | announcePlanIllegal _ hr _ | storeConflict hr
  | takeDecision hr | leaveWaiting hr _ | callRetry hr _ | complete hr _ =>
    exact .inl (hquiet _ rfl (by rw [hr]; rfl) rfl)
  | _ => exact .inl rfl

theorem warns_step (hlife : Lifecycle s) (hstep : Step req s a s')
    (hreturn : a.isExecuteReturn = false) (hwarns : s.runner.warns = false) :
    s'.runner.warns = false := by
  cases hstep with
  | move hm => exact hm.warns hreturn hwarns
  | recordItem emitted hr => cases emitted <;> rfl
  | @announcePlan plan operation hr _ =>
    unfold announced
    cases req <;> rfl
  | @announceConflict conflict after operation hr _ => exact after.runner_inFlight.2
  | settleCancelled handler hr =>
    obtain ⟨operation, -, -, heq⟩ := settleCancelled_eq s handler (hlife.alive hr)
    rw [heq]
    rfl
  | failJob error hr =>
    obtain ⟨operation, -, heq⟩ := failJob_eq s error (hlife.alive hr)
    rw [heq]
    rfl
  | republish _ =>
    unfold republishPendingConflict
    split <;> exact hwarns
  | pause _ _ | resume _ _ | confirm _ _ | cancelTransition _ _ | pauseToken _
  | resumeToken _ | resolveConflict _ _ _ _ | cancel _ | cancelToken _
  | cancelIgnored _ _ | tick _ => exact hwarns
  | _ => rfl

theorem settled_step (hlife : Lifecycle s) (hstep : Step req s a s')
    (hreturn : a.isExecuteReturn = false) (hwarns : s.runner.warns = false) :
    s'.settled = s.settled ∧ s'.runner.warns = false := by
  refine ⟨?_, warns_step hlife hstep hreturn hwarns⟩
  rcases settled_step_cases hlife hstep hreturn with hsame | ⟨_, _, _, _, hr, -⟩
  · exact hsame
  · rw [hr] at hwarns
    cases hwarns

theorem plan_step (hlife : Lifecycle s) (hstep : Step req s a s')
    (hreturn : a.isPlanReturn = false) : s'.plan = s.plan := by
  cases hstep with
  | planned plan hr => cases hreturn
  | recordItem emitted hr => cases emitted <;> rfl
  | settleCancelled handler hr =>
    obtain ⟨operation, -, -, heq⟩ := settleCancelled_eq s handler (hlife.alive hr)
    rw [heq]
  | failJob error hr =>
    obtain ⟨operation, -, heq⟩ := failJob_eq s error (hlife.alive hr)
    rw [heq]
  | republish _ =>
    unfold republishPendingConflict
    split <;> rfl
  | _ => rfl

theorem runner_of_planReturns {result : Except ExecutionError OperationPlan}
    (hstep : Step req s (.planReturns result) s') : s.runner = .planning := by
  cases hstep with
  | move hm =>
    generalize s.runner = r at hm
    cases hm
    rfl
  | planned plan hr => exact hr

theorem runner_of_finishReturns {result : Except ExecutionError Unit}
    (hstep : Step req s (.finishReturns result) s') : s.runner = .finishing := by
  cases hstep with
  | move hm =>
    generalize s.runner = r at hm
    cases hm with
    | finished => rfl
    | finishFailed _ => rfl

/-- The outcome that the result of an `execute` call is. -/
def outcomeOf (work : Work) : Except ExecutionError ExecutionOutcome →
    List (Work × Ending)
  | .ok outcome => [(work, outcome.ending)]
  | .error _ => []

theorem settled_of_inProgress
    (h : s.runner.inProgress = some (work, resolution)) : s.settled = s.outcomes := by
  have hquiet : s.runner.inFlight = [] := by
    cases hr : s.runner <;> rw [hr] at h <;> first | rfl | cases h
  unfold State.settled
  rw [hquiet, append_nil]

theorem remaining_of_inProgress {runner : Runner}
    (h : runner.inProgress = some (work, resolution)) :
    ∃ rest, runner.remaining = some (work :: rest) := by
  cases runner with
  | executing _ work' todo deferred | retrying _ head rest =>
    injection h with h
    injection h with hwork _
    subst hwork
    exact ⟨_, rfl⟩
  | _ => cases h

theorem settled_executeReturns (hprogress : s.runner.inProgress = some (work, resolution))
    (happly : apply req (.executeReturns result) s = some s') :
    s'.settled = s.settled ++ outcomeOf work result := by
  rw [settled_of_inProgress hprogress]
  unfold State.settled
  cases hr : s.runner with
  | executing _ work' todo deferred =>
    rw [hr] at hprogress
    simp only [apply, hr, some.injEq] at happly
    injection hprogress with hprogress
    injection hprogress with hwork _
    subst hwork happly
    rcases result with error | outcome
    · cases error <;> simp [Runner.inFlight, outcomeOf]
    · simp [Runner.inFlight, outcomeOf]
  | retrying _ head rest =>
    rw [hr] at hprogress
    simp only [apply, hr, some.injEq] at happly
    injection hprogress with hprogress
    injection hprogress with hwork _
    subst hwork happly
    rcases result with error | outcome
    · cases error <;> simp [Runner.inFlight, afterRetry, outcomeOf]
    · simp [Runner.inFlight, afterRetry, outcomeOf]
  | _ => rw [hr] at hprogress; cases hprogress

theorem warns_executeReturns (hresult : ∀ entry message, result ≠ .error (.warning entry message))
    (happly : apply req (.executeReturns result) s = some s') : s'.runner.warns = false := by
  cases hr : s.runner with
  | executing _ work todo deferred =>
    simp only [apply, hr, some.injEq] at happly
    subst happly
    rcases result with error | outcome
    · cases error with
      | warning entry message => exact absurd rfl (hresult entry message)
      | _ => rfl
    · rfl
  | retrying _ head rest =>
    simp only [apply, hr, some.injEq] at happly
    subst happly
    rcases result with error | outcome
    · cases error <;> rfl
    · rfl
  | _ => simp [apply, hr] at happly

-- ==== results with warnings

theorem Moves.inFlight_unwarned (h : Moves s a r r')
    (hreturn : a.isExecuteReturn = true) : ∀ o ∈ r'.inFlight, o.2 ≠ .warned := by
  have hending : ∀ outcome : ExecutionOutcome, outcome.ending ≠ .warned := by
    intro outcome
    cases outcome <;> exact nofun
  intro o ho
  cases h with
  | executed result | retried result =>
    rcases result with error | outcome
    · cases error <;> cases ho
    · rw [mem_singleton.mp ho]
      exact hending outcome
  | _ => cases hreturn

theorem operation_step_terminal (hlife : Lifecycle s) (hstep : Step req s a s')
    (hterminal : s.operation.state.isTerminal = true) : s'.operation = s.operation := by
  have hdone := hlife.done hterminal
  have habsurd : ∀ {next : OperationState} {operation : Operation},
      Enters s.operation next operation → False := by
    intro next operation henters
    have := henters.not_terminal
    simp [hterminal] at this
  cases hstep with
  | move hm => exact absurd hdone hm.not_done
  | pause _ henters | resume _ henters | confirm _ henters
  | cancelTransition _ henters => exact (habsurd henters).elim
  | republish _ =>
    unfold republishPendingConflict
    split <;> rfl
  | pauseToken _ | resumeToken _ | resolveConflict _ _ _ _ | cancel _ | cancelToken _
  | cancelIgnored _ _ | tick _ => rfl
  | planned _ hr | enterPlanning hr _ | announcePlan hr _
  | announcePlanIllegal _ hr _ | recordWarning hr | recordItem _ hr
  | storeConflict hr | announceConflict hr _ | takeDecision hr | leaveWaiting hr _
  | callRetry hr _ | countRetry hr | complete hr _ | settleCancelled _ hr
  | failJob _ hr => exact absurd (hdone.symm.trans hr) (by simp)

theorem errors_step (hlife : Lifecycle s) (hstep : Step req s a s') :
    s'.operation.state = .cancelled ∨ ∃ new, s'.operation.errors = s.operation.errors ++ new := by
  have hsame : s'.operation.errors = s.operation.errors →
      s'.operation.state = .cancelled ∨ ∃ new, s'.operation.errors = s.operation.errors ++ new :=
    fun heq => .inr ⟨[], by rw [heq, append_nil]⟩
  cases hstep with
  | recordWarning hr => exact .inr ⟨_, rfl⟩
  | recordItem emitted hr => exact hsame (by cases emitted <;> rfl)
  | settleCancelled handler hr =>
    obtain ⟨operation, hstate, -, heq⟩ := settleCancelled_eq s handler (hlife.alive hr)
    rw [heq]
    exact .inl hstate
  | failJob error hr =>
    obtain ⟨operation, henters, heq⟩ := failJob_eq s error (hlife.alive hr)
    refine hsame ?_
    rw [heq]
    exact henters.errors
  | republish _ =>
    refine hsame ?_
    unfold republishPendingConflict
    split <;> rfl
  | enterPlanning _ henters | announcePlan _ henters | announceConflict _ henters
  | leaveWaiting _ henters | complete _ henters | pause _ henters | resume _ henters
  | confirm _ henters | cancelTransition _ henters => exact hsame henters.errors
  | _ =>
    exact hsame rfl

/-- Warned items leave errors, and an operation that completed has
none. -/
structure Heeds (s : State) : Prop where
  warned : ∀ o ∈ s.settled, o.2 = .warned →
    s.operation.errors ≠ [] ∨ s.operation.state = .cancelled
  completed : s.operation.state = .completed → s.operation.errors = []

theorem completed_step (hlife : Lifecycle s) (hstep : Step req s a s')
    (hstate : s'.operation.state = .completed) :
    s.operation.state = .completed ∨ s'.operation.errors = [] := by
  cases hstep with
  | complete hr henters =>
    rw [henters.state] at hstate
    refine .inr ?_
    show (_ : Operation).errors = []
    rw [henters.errors]
    by_contra hne
    unfold terminalOf at hstate
    rw [if_neg hne] at hstate
    cases hstate
  | settleCancelled handler hr =>
    obtain ⟨operation, hcancelled, -, heq⟩ := settleCancelled_eq s handler (hlife.alive hr)
    rw [heq] at hstate
    rw [show operation.state = .completed from hstate] at hcancelled
    cases hcancelled
  | failJob error hr =>
    obtain ⟨operation, henters, heq⟩ := failJob_eq s error (hlife.alive hr)
    rw [heq] at hstate
    have hfailed := henters.state
    rw [show operation.state = .completed from hstate] at hfailed
    cases hfailed
  | announcePlan _ henters =>
    rw [henters.state] at hstate
    unfold announced at hstate
    cases req <;> cases hstate
  | enterPlanning _ henters | announceConflict _ henters | leaveWaiting _ henters
  | pause _ henters | resume _ henters | confirm _ henters
  | cancelTransition _ henters =>
    simp [henters.state] at hstate
  | recordItem emitted _ => exact .inl (by cases emitted <;> exact hstate)
  | republish _ =>
    unfold republishPendingConflict at hstate
    split at hstate <;> exact .inl hstate
  | _ =>
    exact .inl hstate

theorem Heeds.step {a : Action} (h : Heeds s) (hlife : Lifecycle s) (hstep : Step req s a s')
    (hsettled : ∀ o ∈ s'.settled, o ∈ s.settled ∨ (o.2 = .warned → s'.operation.errors ≠ [])) :
    Heeds s' := by
  constructor
  · intro o ho hwarned
    rcases hsettled o ho with ho | hnew
    · rcases h.warned o ho hwarned with hne | hcancelled
      · rcases errors_step hlife hstep with hcancelled | ⟨new, heq⟩
        · exact .inr hcancelled
        · refine .inl ?_
          rw [heq]
          exact append_ne_nil_of_left_ne_nil hne new
      · rw [operation_step_terminal hlife hstep (by rw [hcancelled]; rfl)]
        exact .inr hcancelled
    · exact .inl (hnew hwarned)
  · intro hstate
    rcases completed_step hlife hstep hstate with hwas | hnone
    · rw [operation_step_terminal hlife hstep (by rw [hwas]; rfl)]
      exact h.completed hwas
    · exact hnone

theorem heeds_run {ok : State → Action → Prop} {request : Request}
    {now : Timestamp} {acts : List Action}
    (hrun : Run (apply req) ok (startOperation request now) acts s) : Heeds s := by
  refine run_invariant_trace (P := fun _ s => Heeds s) hrun ?_ ?_
  · refine ⟨?_, ?_⟩
    · intro o ho
      cases ho
    · intro hstate
      cases hstate
  · intro acts s s' a _ hlife _ hstep h
    refine h.step hlife hstep fun o ho => ?_
    cases hreturn : a.isExecuteReturn with
    | false =>
      rcases settled_step_cases hlife hstep hreturn with
        hsame | ⟨error, work, _, _, -, hmore, herrors⟩
      · rw [hsame] at ho
        exact .inl ho
      · rw [hmore] at ho
        rcases mem_append.mp ho with ho | -
        · exact .inl ho
        · exact .inr fun _ => by rw [herrors]; simp
    | true =>
      obtain ⟨result, rfl⟩ : ∃ result, a = .executeReturns result := by
        cases a <;> first | exact ⟨_, rfl⟩ | cases hreturn
      cases hstep with
      | move hm =>
        rcases mem_append.mp ho with ho | ho
        · exact .inl (mem_append_left _ ho)
        · exact .inr fun hwarned => absurd hwarned (hm.inFlight_unwarned hreturn o ho)

-- ==== the way to the cleanup

/-- The runner is on its way to `cleanup_partial`, or in it. -/
def Runner.cleansUp (cancelled : Bool) : Runner → Bool
  | .checkExecuted (.ok _) .. => false
  | .checkExecuted (.error (.warning _ _)) .. => cancelled
  | .checkExecuted (.error (.conflict _)) .. => cancelled
  | .checkExecuted (.error _) .. => true
  | .raised _ | .cleaning _ | .abandoning _ => true
  | _ => false

/-- The return of `cleanup_partial`. -/
def Action.isCleanupReturn : Action → Bool
  | .cleanupReturns _ => true
  | _ => false

theorem Runner.cleansUp_mono {cancelled : Bool}
    (h : r.cleansUp cancelled = true) : r.cleansUp true = true := by
  cases r with
  | checkExecuted result _ _ _ =>
    rcases result with error | outcome
    · cases error <;> rfl
    · cases h
  | raised _ | cleaning _ | abandoning _ => rfl
  | _ => cases h

theorem Moves.cleansUp (h : Moves s a r r') (hreturn : a.isCleanupReturn = false)
    (hcleans : r.cleansUp s.cancellation = true) : r'.cleansUp s.cancellation = true := by
  cases h with
  | @passExecuted result _ _ _ hpass =>
    rcases result with error | outcome
    · cases hcancelled : s.cancellation with
      | true => cases hpass hcancelled
      | false =>
        rw [hcancelled] at hcleans
        cases error with
        | warning _ _ | conflict _ => cases hcleans
        | _ => rfl
    · cases hcleans
  | cancelled _ _ | illegal _ _ _ | handleCancelled _ | abandon _ => rfl
  | cleaned | cleanFailed _ | handlerCleanFailed _ | abandoned _ => cases hreturn
  | _ => cases hcleans

theorem cleansUp_step (hstep : Step req s a s') (hreturn : a.isCleanupReturn = false)
    (hcleans : s.runner.cleansUp s.cancellation = true) :
    s'.runner.cleansUp s'.cancellation = true := by
  cases hstep with
  | move hm => exact hm.cleansUp hreturn hcleans
  | cancel _ => exact Runner.cleansUp_mono hcleans
  | republish _ =>
    unfold republishPendingConflict
    split <;> exact hcleans
  | pause _ _ | resume _ _ | confirm _ _ | cancelTransition _ _ | pauseToken _
  | resumeToken _ | resolveConflict _ _ _ _ | cancelToken _ | cancelIgnored _ _
  | tick _ => exact hcleans
  | planned _ hr | enterPlanning hr _ | announcePlan hr _
  | announcePlanIllegal _ hr _ | recordWarning hr | recordItem _ hr
  | storeConflict hr | announceConflict hr _ | takeDecision hr | leaveWaiting hr _
  | callRetry hr _ | countRetry hr | complete hr _ | settleCancelled _ hr
  | failJob _ hr => rw [hr] at hcleans; cases hcleans

theorem cleansUp_executeReturns (happly : apply req (.executeReturns result) s = some s')
    (hends : ∃ error, result = .error error ∧ (∀ conflict, error ≠ .conflict conflict)
      ∧ ((∃ entry message, error = .warning entry message) →
        s.cancellation = true ∨ ∀ resolution work todo deferred,
          s.runner ≠ .executing resolution work todo deferred)) :
    s'.runner.cleansUp s'.cancellation = true := by
  obtain ⟨error, rfl, hconflict, hwarning⟩ := hends
  cases hr : s.runner with
  | executing resolution work todo deferred =>
    simp only [apply, hr, some.injEq] at happly
    subst happly
    cases error with
    | conflict conflict => exact absurd rfl (hconflict conflict)
    | warning entry message =>
      rcases hwarning ⟨entry, message, rfl⟩ with hcancelled | hnot
      · exact hcancelled
      · exact absurd hr (hnot _ _ _ _)
    | _ => rfl
  | retrying _ head rest =>
    simp only [apply, hr, some.injEq] at happly
    subst happly
    cases error with
    | conflict conflict => exact absurd rfl (hconflict conflict)
    | _ => rfl
  | _ => simp [apply, hr] at happly

end FileManager.Scheduler
