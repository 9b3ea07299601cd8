/-
The pause token against the operation's state: the two cells `pause`,
`resume`, `confirm`, `cancel` and the runner write.

# The argument

`pause` and `resume` write the state first and the token after it;
between the two writes the cells differ, so the property is about the
states in which no call is between its writes (`caller` is empty).

What breaks the agreement is a step out of `Paused` that does not open
the token: `confirm`, which is accepted there, and three transitions of
the runner (the announcement of the plan, the return from a decision,
and `fail_job`). `LeavesPaused` excludes them, except under a
cancellation, which is about to open the token itself.
-/
import FileManager.Operations.Proofs.Gate

namespace FileManager.Scheduler

open Machine

variable {req : Bool} {s s' : State}

-- ==== the condition

def Action.isConfirm : Action → Bool
  | .confirm => true
  | _ => false

/-- The runner's positions with a transition that is open from
`Paused`. -/
def Runner.leavesPaused : Runner → Bool
  | .announcePlan _ | .leaveWaiting .. | .failing _ => true
  | _ => false

/-- `Paused` is left by a `resume` or under a cancellation. -/
structure LeavesPaused (s : State) (a : Action) : Prop where
  confirm : a.isConfirm = true → s.operation.state ≠ .paused
  runner : a.isRunner = true → s.runner.leavesPaused = true →
    s.operation.state = .paused → s.cancellation = true

instance (s : State) (a : Action) : Decidable (LeavesPaused s a) :=
  decidable_of_iff ((a.isConfirm = true → s.operation.state ≠ .paused)
      ∧ (a.isRunner = true → s.runner.leavesPaused = true →
          s.operation.state = .paused → s.cancellation = true))
    ⟨fun ⟨h₁, h₂⟩ => ⟨h₁, h₂⟩, fun h => ⟨h.confirm, h.runner⟩⟩

-- ==== the invariant

/-- `finish_cancelled` is under way. -/
def Runner.isCleaning : Runner → Bool
  | .cleaning _ | .settleCancelled _ => true
  | _ => false

/-- Token and state agree at rest, and each call in progress will make
them agree. -/
structure PauseSync (s : State) : Prop where
  rest : s.caller = none → (s.paused = true ↔ s.operation.state = .paused)
  pausing : s.caller = some .pausing → s.operation.state = .paused
  resuming : s.caller = some .resuming → s.operation.state ≠ .paused
  released : s.caller = some .cancelReleased → s.paused = false
  cleaning : s.runner.isCleaning = true → s.cancellation = true

theorem PauseSync.of_eq (h : PauseSync s) (hstate : s'.operation.state = s.operation.state)
    (hpaused : s'.paused = s.paused) (hcaller : s'.caller = s.caller)
    (hflag : s'.cancellation = s.cancellation)
    (hcleaning : s'.runner.isCleaning = true → s.cancellation = true) : PauseSync s' := by
  constructor
  · rw [hcaller, hpaused, hstate]
    exact h.rest
  · rw [hcaller, hstate]
    exact h.pausing
  · rw [hcaller, hstate]
    exact h.resuming
  · rw [hcaller, hpaused]
    exact h.released
  · rw [hflag]
    exact hcleaning

theorem PauseSync.of_leave (h : PauseSync s) (hlife : Lifecycle s)
    (hleave : s.operation.state = .paused → s.cancellation = true)
    (hstate : s'.operation.state ≠ .paused) (hpaused : s'.paused = s.paused)
    (hcaller : s'.caller = s.caller) (hcleaning : s'.runner.isCleaning = false) : PauseSync s' := by
  -- at rest and in a pause the state was not `Paused` before
  have hnot : s.caller = none ∨ s.caller = some .pausing →
      s.operation.state ≠ .paused := by
    intro hc hp
    rcases hlife.flag.closing (hleave hp) with hr | hclosing
    · rcases hr with hr | hr <;> rcases hc with hc | hc <;> rw [hc] at hr <;> cases hr
    · rw [hp] at hclosing
      cases hclosing
  refine ⟨fun hc => ?_, fun hc => ?_, fun _ => hstate, fun hc => ?_, ?_⟩
  · rw [hcaller] at hc
    have hclosed : s.paused ≠ true := fun ht => hnot (.inl hc) ((h.rest hc).mp ht)
    rw [hpaused]
    exact ⟨fun ht => absurd ht hclosed, fun hp => absurd hp hstate⟩
  · rw [hcaller] at hc
    exact absurd (h.pausing hc) (hnot (.inr hc))
  · rw [hcaller] at hc
    rw [hpaused]
    exact h.released hc
  · intro hc
    simp [hcleaning] at hc

theorem PauseSync.cleaning_of_moves {a : Action} {r : Runner} (h : PauseSync s)
    (hm : Moves s a s.runner r) (hc : r.isCleaning = true) : s.cancellation = true := by
  obtain ⟨r₀, hr⟩ : ∃ r₀, s.runner = r₀ := ⟨_, rfl⟩
  rw [hr] at hm
  cases hm with
  | cancelled hset _ | handleCancelled hset => exact hset
  | cleaned => exact h.cleaning (by rw [hr]; rfl)
  | @passExecuted result _ _ _ _ | retried result =>
    rcases result with error | outcome
    · cases error <;> cases hc
    · cases hc
  | _ => cases hc

theorem Enters.paused_absurd {before after : Operation} {next : OperationState} {P : Prop}
    (h : Enters before next after) (hillegal : OperationState.paused.canTransitionTo next = false) :
    before.state = .paused → P := by
  intro hp
  have hlegal := h.legal
  rw [hp, hillegal] at hlegal
  cases hlegal

theorem PauseSync.step {a : Action} (h : PauseSync s) (hlife : Lifecycle s)
    (hok : LeavesPaused s a) (hstep : Step req s a s') : PauseSync s' := by
  cases hstep with
  | move hm => exact h.of_eq rfl rfl rfl rfl (h.cleaning_of_moves hm)
  | recordItem emitted hr =>
    cases emitted <;> exact h.of_eq rfl rfl rfl rfl fun hc => by cases hc
  | enterPlanning hr henters =>
    exact h.of_leave hlife (henters.paused_absurd rfl) (by simp [henters.state]) rfl rfl rfl
  | @announcePlan plan operation hr henters =>
    refine h.of_leave hlife (hok.runner rfl (by rw [hr]; rfl)) ?_ rfl rfl ?_
    · rw [henters.state]
      unfold announced
      cases req <;> simp
    · unfold announced
      cases req <;> rfl
  | @announceConflict conflict after operation hr henters =>
    refine h.of_leave hlife (henters.paused_absurd rfl) (by simp [henters.state]) rfl rfl ?_
    cases after <;> rfl
  | leaveWaiting hr henters =>
    exact h.of_leave hlife (hok.runner rfl (by rw [hr]; rfl)) (by simp [henters.state]) rfl rfl rfl
  | complete hr henters =>
    have hterm := terminalOf_isTerminal s.operation
    refine h.of_leave hlife (henters.paused_absurd ?_) (fun hp => ?_) rfl rfl rfl
    · unfold terminalOf
      split <;> rfl
    · rw [← henters.state.symm.trans hp |>.symm] at hterm
      cases hterm
  | settleCancelled handler hr =>
    obtain ⟨operation, hstate, -, heq⟩ := settleCancelled_eq s handler (hlife.alive hr)
    rw [heq]
    exact h.of_leave hlife (fun _ => h.cleaning (by rw [hr]; rfl)) (by simp [hstate]) rfl rfl rfl
  | failJob error hr =>
    obtain ⟨operation, henters, heq⟩ := failJob_eq s error (hlife.alive hr)
    rw [heq]
    exact h.of_leave hlife (hok.runner rfl (by rw [hr]; rfl)) (by simp [henters.state]) rfl rfl rfl
  | pause hcaller henters =>
    refine ⟨fun hc => ?_, fun _ => henters.state, fun hc => ?_, fun hc => ?_, h.cleaning⟩
    all_goals cases hc
  | pauseToken hcaller =>
    refine ⟨fun _ => ⟨fun _ => h.pausing hcaller, fun _ => rfl⟩, fun hc => ?_,
      fun hc => ?_, fun hc => ?_, h.cleaning⟩
    all_goals cases hc
  | resume hcaller henters =>
    refine ⟨fun hc => ?_, fun hc => ?_, fun _ => by simp [henters.state], fun hc => ?_, h.cleaning⟩
    all_goals cases hc
  | resumeToken hcaller =>
    have hstate := h.resuming hcaller
    refine ⟨fun _ => ⟨fun ht => ?_, fun hp => absurd hp hstate⟩, fun hc => ?_,
      fun hc => ?_, fun hc => ?_, h.cleaning⟩
    · cases ht
    all_goals cases hc
  | confirm hcaller henters =>
    have hnot := hok.confirm rfl
    have hclosed : s.paused ≠ true := fun ht => hnot ((h.rest hcaller).mp ht)
    refine ⟨fun _ => ⟨fun ht => absurd ht hclosed, fun hp => ?_⟩, fun hc => ?_,
      fun _ => by simp [henters.state], fun hc => ?_, h.cleaning⟩
    · simp [henters.state] at hp
    · rw [show _ = none from hcaller] at hc
      cases hc
    · rw [show _ = none from hcaller] at hc
      cases hc
  | cancel hcaller =>
    refine ⟨fun hc => ?_, fun hc => ?_, fun hc => ?_, fun hc => ?_, fun _ => rfl⟩
    all_goals cases hc
  | cancelToken hcaller =>
    refine ⟨fun hc => ?_, fun hc => ?_, fun hc => ?_, fun _ => rfl, h.cleaning⟩
    all_goals cases hc
  | cancelIgnored hcaller hskip =>
    have hclosed := h.released hcaller
    refine ⟨fun _ => ⟨fun ht => ?_, fun hp => ?_⟩, fun hc => ?_, fun hc => ?_,
      fun hc => ?_, h.cleaning⟩
    · simp [hclosed] at ht
    · rw [hp] at hskip
      rcases hskip with hskip | hskip <;> cases hskip
    all_goals cases hc
  | cancelTransition hcaller henters =>
    have hclosed := h.released hcaller
    refine ⟨fun _ => ⟨fun ht => ?_, fun hp => ?_⟩, fun hc => ?_, fun hc => ?_,
      fun hc => ?_, h.cleaning⟩
    · simp [hclosed] at ht
    · simp [henters.state] at hp
    all_goals cases hc
  | republish hcaller =>
    unfold republishPendingConflict
    split <;> exact h.of_eq rfl rfl rfl rfl h.cleaning
  | resolveConflict _ _ hcaller hpending =>
    exact h.of_eq rfl rfl rfl rfl h.cleaning
  | tick _ => exact h.of_eq rfl rfl rfl rfl h.cleaning
  | _ =>
    exact h.of_eq rfl rfl rfl rfl fun hc => by cases hc

-- ==== the run lemma

/-- In every run in which `Paused` is left by a `resume` or under a
cancellation, the token is paused exactly in `Paused`, but between the
writes of a control call. -/
theorem pause_token_agrees {request : Request} {now : Timestamp}
    {acts : List Action}
    (hrun : Run (apply req) LeavesPaused (startOperation request now) acts s)
    (hrest : s.caller = none) :
    s.paused = true ↔ s.operation.state = .paused := by
  have hsync : PauseSync s := by
    refine run_invariant (P := fun _ s => PauseSync s) hrun ?_ ?_
    · constructor
      · exact fun _ => ⟨fun ht => (by cases ht), fun hp => (by cases hp)⟩
      all_goals intro hc; cases hc
    · intro acts s s' a hlife hok hstep h
      exact h.step hlife hok hstep
  exact hsync.rest hrest

/-- A job that was paused while an item executes. -/
theorem pause_token_agrees_paused :
    ∃ acts s, Run (apply false) LeavesPaused (startOperation sampleRequest 0) acts s
      ∧ s.caller = none ∧ s.operation.state = .paused ∧ s.paused = true := by
  obtain ⟨s, hrun, hrest, hstate⟩ := Run.exists_of_guardedRun
    (show (guardedRun (apply false) LeavesPaused (startOperation sampleRequest 0)
      (planScript (samplePlan 3 4) ++ [.runner, .runner, .runner, .pause, .pauseToken])).any
      (fun s => decide (s.caller = none ∧ s.operation.state = .paused)) = true
      from by decide)
  exact ⟨_, s, hrun, hrest, hstate, (pause_token_agrees hrun hrest).mpr hstate⟩

/-- `confirm` takes a paused job back to `Running` and leaves its token
paused. -/
theorem confirm_leaves_token_paused :
    ∃ s, Run (apply false) Free (startOperation sampleRequest 0)
        (planScript (samplePlan 3 4) ++ [.pause, .pauseToken, .confirm]) s
      ∧ s.caller = none ∧ s.operation.state = .running ∧ s.paused = true :=
  Run.exists_of_run (by decide)

end FileManager.Scheduler
