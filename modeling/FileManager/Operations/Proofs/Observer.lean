/-
What the durable history knows of a job: the last snapshot handed to
the observer, and what a restart lists for it.

# The argument

The scheduler calls its observer in two places, `submit` and
`fail_job`. A job that ends any other way ends unobserved: the history
keeps its queued snapshot, and `OperationHistory::load` takes it for an
operation the program was stopped in. `EndsObserved` is the condition
that the job's terminal transition is not one of those two,
`run_job`'s own and `finish_cancelled`'s.
-/
import FileManager.Operations.Proofs.Lifecycle
import FileManager.Application.OperationHistory

namespace FileManager.Scheduler

open Machine OperationHistory

variable {req : Bool} {s s' : State}

-- ==== the last snapshot

/-- The step is neither the transition that completes the job nor the
one that settles its cancellation. -/
def EndsObserved (s : State) (a : Action) : Prop :=
  a.isRunner = true → s.runner.isSettling = false ∧ (s.runner.isCompleting = true →
        s.operation.state.canTransitionTo (terminalOf s.operation) = false)

instance (s : State) (a : Action) : Decidable (EndsObserved s a) :=
  inferInstanceAs (Decidable (_ → _ ∧ (_ → _)))

/-- The observer's last snapshot is the terminal operation, or one that
is not terminal either. -/
structure ObservedLast (s : State) : Prop where
  terminal : s.operation.state.isTerminal = true →
    s.observed.getLast? = some s.operation
  live : s.operation.state.isTerminal = false →
    ∃ last, s.observed.getLast? = some last ∧ last.state.isTerminal = false

theorem ObservedLast.of_live (h : ObservedLast s) (hlive : s.operation.state.isTerminal = false)
    (hlive' : s'.operation.state.isTerminal = false) (hobserved : s'.observed = s.observed) :
    ObservedLast s' := by
  refine ⟨fun hterm => ?_, fun _ => ?_⟩
  · rw [hlive'] at hterm
    cases hterm
  · rw [hobserved]
    exact h.live hlive

theorem ObservedLast.of_enters {next : OperationState} {operation : Operation}
    (h : ObservedLast s) (henters : Enters s.operation next operation)
    (hnext : next.isTerminal = false) (hoperation : s'.operation = operation)
    (hobserved : s'.observed = s.observed) : ObservedLast s' := by
  refine h.of_live henters.not_terminal ?_ hobserved
  rw [hoperation, henters.state]
  exact hnext

theorem ObservedLast.of_eq (h : ObservedLast s) (hoperation : s'.operation = s.operation)
    (hobserved : s'.observed = s.observed) : ObservedLast s' := by
  refine ⟨fun hterm => ?_, fun hlive => ?_⟩
  · rw [hoperation] at hterm ⊢
    rw [hobserved]
    exact h.terminal hterm
  · rw [hoperation] at hlive
    rw [hobserved]
    exact h.live hlive

theorem ObservedLast.step {a : Action} (h : ObservedLast s) (hlife : Lifecycle s)
    (hok : EndsObserved s a) (hstep : Step req s a s') : ObservedLast s' := by
  cases hstep with
  | announcePlan hr henters =>
    have hlive := hlife.alive hr
    refine h.of_live hlive ?_ rfl
    rw [henters.state]
    exact announced_not_terminal _ _
  | announcePlanIllegal error hr _ | recordWarning hr | countRetry hr =>
    have hlive := hlife.alive hr
    exact h.of_live hlive hlive rfl
  | recordItem emitted hr =>
    have hlive := hlife.alive hr
    cases emitted <;> exact h.of_live hlive hlive rfl
  | complete hr henters =>
    have hillegal := (hok rfl).2 (by rw [hr]; rfl)
    rw [henters.legal] at hillegal
    cases hillegal
  | settleCancelled handler hr =>
    have hnot := (hok rfl).1
    rw [hr] at hnot
    cases hnot
  | failJob error hr =>
    obtain ⟨operation, henters, heq⟩ := failJob_eq s error (hlife.alive hr)
    rw [heq]
    refine ⟨fun _ => List.getLast?_concat, fun hlive => ?_⟩
    rw [henters.state] at hlive
    cases hlive
  | enterPlanning hr henters | announceConflict hr henters | leaveWaiting hr henters
  | pause hcaller henters | resume hcaller henters | confirm hcaller henters
  | cancelTransition hcaller henters => exact h.of_enters henters rfl rfl rfl
  | republish hcaller =>
    unfold republishPendingConflict
    split <;> exact h.of_eq rfl rfl
  | move _ | planned _ _ | storeConflict _ | takeDecision _ | callRetry _ _
  | pauseToken _ | resumeToken _ | resolveConflict _ _ _ _ | cancel _
  | cancelToken _ | cancelIgnored _ _ | tick _ => exact h.of_eq rfl rfl

theorem observedLast_run {request : Request} {now : Timestamp} {acts : List Action}
    (hrun : Run (apply req) EndsObserved (startOperation request now) acts s) : ObservedLast s := by
  refine run_invariant (P := fun _ s => ObservedLast s) hrun ?_ ?_
  · exact ⟨fun hterm => (by cases hterm), fun _ => ⟨_, rfl, rfl⟩⟩
  · intro acts s s' a hlife hok hstep h
    exact h.step hlife hok hstep

-- ==== after a restart

def listedState (operation : Operation) : OperationState :=
  if operation.state.isTerminal then operation.state else .interrupted

theorem ObservedLast.interrupt_state (h : ObservedLast s) :
    ∃ last, s.observed.getLast? = some last
      ∧ ∀ restart, (interrupt restart last).state = listedState s.operation := by
  cases hterm : s.operation.state.isTerminal with
  | true =>
    refine ⟨s.operation, h.terminal hterm, fun restart => ?_⟩
    exact OperationHistory.interrupt_state restart s.operation
  | false =>
    obtain ⟨last, hlast, hlive⟩ := h.live hterm
    refine ⟨last, hlast, fun restart => ?_⟩
    rw [OperationHistory.interrupt_state]
    simp [listedState, hlive, hterm]

/-- In every run whose terminal transition is `fail_job`'s, the last
snapshot carries the state, and after a session in which the saves go
through a restart lists it, as `Interrupted` if it has none. -/
theorem history_agrees_with_run {request : Request} {now : Timestamp}
    {acts : List Action}
    (hrun : Run (apply req) EndsObserved (startOperation request now) acts s) :
    (s.operation.state.isTerminal = true →
      ∃ last, s.observed.getLast? = some last ∧ last.state = s.operation.state)
    ∧ ∀ (history : OperationHistory)
        (snapshots : List Snapshot) (restart : Timestamp)
        (saved : Bool),
      (∀ o ∈ history.operations, o.id ≠ request.id) →
      (∀ e ∈ snapshots, e.saved = true) →
      snapshotsOf request.id snapshots = s.observed →
      (∀ o ∈ (load (history.session snapshots).file restart saved).list,
        o.id = request.id → o.state = listedState s.operation)
      ∧ (history.operations.length + snapshots.length ≤ maxEntries →
          (∀ o ∈ s.observed, retained restart o = true
            ∧ ∀ e ∈ snapshots, retained e.now o = true) →
          ∃ o ∈ (load (history.session snapshots).file restart saved).list,
            o.id = request.id ∧ o.state = listedState s.operation) := by
  have hobserved := observedLast_run hrun
  refine ⟨fun hterm => ⟨_, hobserved.terminal hterm, rfl⟩, ?_⟩
  intro history snapshots restart saved hfresh hsaved hown
  obtain ⟨last, hlast, hstate⟩ := hobserved.interrupt_state
  rw [← hown] at hlast
  have hne : snapshots ≠ [] := by
    intro heq
    subst heq
    cases hlast
  rw [file_session hsaved hne]
  refine ⟨fun o ho hid => ?_, fun hroom hage => ?_⟩
  · obtain ⟨stored, hstored, rfl⟩ := mem_list_load ho
    rw [interrupt_id] at hid
    have hmem := (having_session_sublist hfresh
      snapshots).subset (Keyed.mem_having.mpr ⟨hstored, hid⟩)
    rw [hlast] at hmem
    rw [List.mem_singleton.mp hmem]
    exact hstate restart
  · have hin : last ∈ (history.session snapshots).operations := by
      refine mem_session hfresh hroom ?_ hlast
      rw [hown]
      exact fun o ho => (hage o ho).2
    have hlen := history.length_session_le snapshots
    have hyoung : retained restart last = true :=
      (hage last (hown ▸ List.mem_of_getLast? hlast)).1
    refine ⟨_, list_load_of_mem hin (Nat.le_trans hlen hroom)
      hyoung, ?_, hstate restart⟩
    rw [interrupt_id]
    exact (Keyed.mem_having.mp (List.mem_of_getLast? hlast)).2

/-- The session of a history that sees this job only, at one time. -/
def ownSession (s : State) : List Snapshot :=
  s.observed.map fun o => { operation := o, now := 0, saved := true }

/-- A job whose plan fails is listed as `Failed` after a restart. -/
theorem history_agrees_with_run_failed :
    ∃ acts s, Run (apply false) EndsObserved (startOperation sampleRequest 0) acts s
      ∧ s.operation.state = .failed
      ∧ ∃ o ∈ (load ((mk [] none).session (ownSession s)).file 0
          true).list,
        o.id = 1 ∧ o.state = .failed := by
  obtain ⟨s, hrun, hstate, hown, hroom, hage⟩ := Run.exists_of_guardedRun
    (show (guardedRun (apply false) EndsObserved (startOperation sampleRequest 0)
      [.runner, .runner, .runner, .planReturns (.error .notImplemented),
        .runner, .cleanupReturns (.ok ()), .runner]).any
      (fun s => decide (s.operation.state = .failed
        ∧ snapshotsOf 1 (ownSession s) = s.observed
        ∧ 0 + (ownSession s).length ≤ maxEntries
        ∧ ∀ o ∈ s.observed, retained 0 o = true
          ∧ ∀ e ∈ ownSession s, retained e.now o = true)) = true
      from by decide)
  have hsaved : ∀ e ∈ ownSession s, e.saved = true := by
    intro e he
    obtain ⟨o, -, rfl⟩ := List.mem_map.mp he
    rfl
  obtain ⟨o, ho, hid, heq⟩ := ((history_agrees_with_run hrun).2
    (mk [] none) (ownSession s) 0 true
    (fun o ho => by cases ho) hsaved hown).2 hroom hage
  refine ⟨_, s, hrun, hstate, o, ho, hid, ?_⟩
  rw [heq, listedState, hstate]
  rfl

/-- A copy that succeeds is never observed again after `submit`, and a
restart lists it as `Interrupted`. -/
theorem completed_listed_interrupted :
    ∃ acts s, Run (apply false) Free (startOperation sampleRequest 0) acts s
      ∧ s.operation.state = .completed
      ∧ s.observed.getLast?.map Operation.state = some .queued
      ∧ (load ((mk [] none).session (ownSession s)).file 0
          true).list.map Operation.state = [.interrupted] := by
  have h : ∃ s, Run (apply false) Free (startOperation sampleRequest 0)
      (planScript (samplePlan 3 4) ++ itemScript .completed
        ++ itemScript .completed ++ finishScript) s
      ∧ s.operation.state = .completed
      ∧ s.observed.getLast?.map Operation.state = some .queued
      ∧ (load ((mk [] none).session (ownSession s)).file 0
          true).list.map Operation.state = [.interrupted] :=
    Run.exists_of_run (by decide)
  exact ⟨_, h⟩

end FileManager.Scheduler
