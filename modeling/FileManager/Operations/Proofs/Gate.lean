/-
The confirmation gate: a job whose executor requires confirmation calls
`execute` only after an accepted `confirm`.

# The argument

The gate is no cell of its own. `run_job` announces the plan in
`WaitingForConflictResolution` with an empty conflict slot, and
`wait_while_blocked` holds it while both stay so. A job at the gate
leaves it by a cancellation, which the check after the gate sees, or by a
transition to `Running`. `confirm` makes that, but so does `resume`;
`ResumesPaused` is the condition that no `resume` meets the job there.
-/
import FileManager.Operations.Proofs.Lifecycle

namespace FileManager.Scheduler

open Machine
open List (mem_append_left)

variable {s s' : State} {a : Action} {acts : List Action}

-- ==== phases

/-- The parts of `run_job`, seen from the gate. -/
inductive Phase
  | planning
  | gate
  | gateCheck
  | working
  | leaving
deriving DecidableEq

def Runner.phase : Runner → Phase
  | .acquire | .checkAcquired | .enterPlanning | .planning | .checkPlanned _
  | .announcePlan _ => .planning
  | .awaitConfirmation _ => .gate
  | .checkConfirmed _ => .gateCheck
  | .cleaning _ | .settleCancelled _ | .raised _ | .abandoning _ | .failing _
  | .done => .leaving
  | _ => .working

/-- An `execute` call is in flight. -/
def Runner.isExecuting : Runner → Bool
  | .executing .. | .retrying .. => true
  | _ => false

theorem Runner.phase_of_isExecuting {r : Runner} (h : r.isExecuting = true) :
    r.phase = .working := by
  cases r <;> first | rfl | cases h

@[simp] theorem After.runner_phase (after : After) : after.runner.phase = .working := by
  cases after <;> rfl

theorem Moves.phase {r r' : Runner} (h : Moves s a r r') :
    r'.phase = .leaving ∨ (r'.phase = r.phase ∧ (r.phase = .planning ∨ r.phase = .working))
    ∨ (r.phase = .gate ∧ r'.phase = .gateCheck ∧ blocked s = false)
    ∨ (r.phase = .gateCheck ∧ r'.phase = .working ∧ s.cancellation = false) := by
  cases h with
  | acquire | passAcquired _ | passPlanned _ => exact .inr (.inl ⟨rfl, .inl rfl⟩)
  | unblocked hb => exact .inr (.inr (.inl ⟨rfl, rfl, hb⟩))
  | passConfirmed hc => exact .inr (.inr (.inr ⟨rfl, rfl, hc⟩))
  | @passExecuted result _ _ _ _ =>
    rcases result with error | outcome
    · cases error with
      | warning _ _ | conflict _ => exact .inr (.inl ⟨rfl, .inr rfl⟩)
      | notImplemented | failed _ | provider _ => exact .inl rfl
    · exact .inr (.inl ⟨rfl, .inr rfl⟩)
  | retried result =>
    rcases result with error | outcome
    · cases error with
      | conflict _ => exact .inr (.inl ⟨rfl, .inr rfl⟩)
      | notImplemented | failed _ | provider _ | warning _ _ => exact .inl rfl
    · exact .inr (.inl ⟨rfl, .inr rfl⟩)
  | planFailed _ | finishFailed _ | cancelled _ _ | cleaned | cleanFailed _
  | handlerCleanFailed _ | illegal _ _ _ | handleCancelled _ | abandon _
  | abandoned _ => exact .inl rfl
  | _ => exact .inr (.inl ⟨rfl, .inr rfl⟩)

-- ==== the gate

/-- No `resume` meets a job that waits at the gate for its
confirmation. -/
def ResumesPaused (s : State) (a : Action) : Prop :=
  a.isResume = true → s.runner.phase = .gate →
    s.operation.state ≠ .waitingForConflictResolution

instance (s : State) (a : Action) : Decidable (ResumesPaused s a) :=
  inferInstanceAs (Decidable (_ → _ → _))

/-- What holds of a job that requires confirmation, after the actions
`acts`. -/
structure Gated (acts : List Action) (s : State) : Prop where
  slot : s.runner.phase = .planning ∨ s.runner.phase = .gate →
    s.pendingConflict = none
  gate : s.runner.phase = .gate → Action.confirm ∈ acts
    ∨ s.operation.state = .waitingForConflictResolution
    ∨ s.operation.state = .cancelling
  gateCheck : s.runner.phase = .gateCheck → Action.confirm ∈ acts ∨ s.cancellation = true
  working : s.runner.phase = .working → Action.confirm ∈ acts

theorem Gated.of_leaving (h : s.runner.phase = .leaving) : Gated acts s := by
  constructor <;> intro hp <;> simp [h] at hp

theorem Gated.of_working (h : s.runner.phase = .working) (hmem : Action.confirm ∈ acts) :
    Gated acts s := by
  constructor <;> intro hp <;> simp [h] at hp
  exact hmem

theorem Gated.of_eq (a : Action) (h : Gated acts s) (hphase : s'.runner.phase = s.runner.phase)
    (hslot : s.pendingConflict = none → s'.pendingConflict = none)
    (hstate : s'.operation.state = s.operation.state)
    (hflag : s.cancellation = true → s'.cancellation = true) : Gated (acts ++ [a]) s' := by
  refine ⟨fun hp => ?_, fun hp => ?_, fun hp => ?_, fun hp => ?_⟩
  · rw [hphase] at hp
    exact hslot (h.slot hp)
  · rw [hphase] at hp
    rw [hstate]
    exact (h.gate hp).imp_left (mem_append_left _)
  · rw [hphase] at hp
    exact (h.gateCheck hp).imp (mem_append_left _) hflag
  · rw [hphase] at hp
    exact mem_append_left _ (h.working hp)

theorem Gated.of_control (a : Action) (h : Gated acts s) (hrunner : s'.runner = s.runner)
    (hslot : s'.pendingConflict = s.pendingConflict) (hflag : s'.cancellation = s.cancellation)
    (hgate : s.runner.phase = .gate → Action.confirm ∈ acts ++ [a]
      ∨ s'.operation.state = .cancelling) :
    Gated (acts ++ [a]) s' := by
  refine ⟨fun hp => ?_, fun hp => ?_, fun hp => ?_, fun hp => ?_⟩
  · rw [hrunner] at hp
    rw [hslot]
    exact h.slot hp
  · rw [hrunner] at hp
    exact (hgate hp).imp_right .inr
  · rw [hrunner] at hp
    rw [hflag]
    exact (h.gateCheck hp).imp_left (mem_append_left _)
  · rw [hrunner] at hp
    exact mem_append_left _ (h.working hp)

theorem Gated.confirmed_of_unblocked (h : Gated acts s) (hflag : CancelFlagged s)
    (hgate : s.runner.phase = .gate) (hb : blocked s = false) :
    Action.confirm ∈ acts ∨ s.cancellation = true := by
  rcases h.gate hgate with hmem | hwaiting | hcancelling
  · exact .inl hmem
  · have hslot := h.slot (.inr hgate)
    simp [blocked, hwaiting, hslot] at hb
  · exact .inr (hflag.state hcancelling)

theorem Gated.move {r : Runner} (h : Gated acts s) (hflag : CancelFlagged s)
    (hm : Moves s a s.runner r) : Gated (acts ++ [a]) { s with runner := r } := by
  rcases hm.phase with hp | ⟨hp, -⟩ | ⟨hgate, hp, hb⟩ | ⟨hcheck, hp, hc⟩
  · exact .of_leaving hp
  · exact h.of_eq a hp id rfl id
  · have hopen := h.confirmed_of_unblocked hflag hgate hb
    constructor <;> intro hp' <;> simp [hp] at hp'
    exact hopen.imp_left (mem_append_left _)
  · refine .of_working hp (mem_append_left _ ?_)
    rcases h.gateCheck hcheck with hmem | hset
    · exact hmem
    · simp [hc] at hset

theorem Gated.step (h : Gated acts s) (hlife : Lifecycle s)
    (hok : ResumesPaused s a) (hstep : Step true s a s') : Gated (acts ++ [a]) s' := by
  have hworking : ∀ {r : Runner}, s.runner = r → r.phase = .working →
      Action.confirm ∈ acts ++ [a] := by
    intro r hr hp
    exact mem_append_left _ (h.working (by rw [hr, hp]))
  cases hstep with
  | move hm => exact h.move hlife.flag hm
  | planned plan hr => exact h.of_eq _ (by rw [hr]; rfl) id rfl id
  | enterPlanning hr henters =>
    refine ⟨fun _ => ?_, ?_, ?_, ?_⟩
    · exact h.slot (.inl (by rw [hr]; rfl))
    all_goals intro hp; cases hp
  | announcePlan hr henters =>
    refine ⟨fun _ => ?_, fun _ => ?_, ?_, ?_⟩
    · exact h.slot (.inl (by rw [hr]; rfl))
    · exact .inr (.inl henters.state)
    all_goals intro hp; cases hp
  | announcePlanIllegal error hr _ => exact .of_leaving rfl
  | recordItem emitted hr =>
    refine .of_working ?_ (hworking hr rfl)
    cases emitted <;> rfl
  | announceConflict hr henters =>
    exact .of_working (After.runner_phase _) (hworking hr rfl)
  | recordWarning hr | storeConflict hr | takeDecision hr | callRetry hr _ | countRetry hr
  | leaveWaiting hr _ => exact .of_working rfl (hworking hr rfl)
  | complete hr henters => exact .of_leaving rfl
  | settleCancelled handler hr =>
    obtain ⟨operation, -, -, heq⟩ := settleCancelled_eq s handler (hlife.alive hr)
    rw [heq]
    exact .of_leaving rfl
  | failJob error hr =>
    obtain ⟨operation, -, heq⟩ := failJob_eq s error (hlife.alive hr)
    rw [heq]
    exact .of_leaving rfl
  | pause hcaller henters =>
    refine h.of_control _ rfl rfl rfl fun hp => .inl ?_
    rcases h.gate hp with hmem | hstate | hstate
    · exact mem_append_left _ hmem
    all_goals
      have hlegal := henters.legal
      rw [hstate] at hlegal
      cases hlegal
  | resume hcaller henters =>
    refine h.of_control _ rfl rfl rfl fun hp => .inl ?_
    rcases h.gate hp with hmem | hstate | hstate
    · exact mem_append_left _ hmem
    · exact absurd hstate (hok rfl hp)
    · have hlegal := henters.legal
      rw [hstate] at hlegal
      cases hlegal
  | confirm hcaller henters =>
    exact h.of_control _ rfl rfl rfl fun _ => .inl (by simp)
  | cancelTransition hcaller henters =>
    exact h.of_control _ rfl rfl rfl fun _ => .inr henters.state
  | resolveConflict _ _ hcaller hpending =>
    refine h.of_eq _ rfl (fun hnone => ?_) rfl id
    rw [hpending] at hnone
    cases hnone
  | republish hcaller =>
    unfold republishPendingConflict
    split <;> exact h.of_eq _ rfl id rfl id
  | cancel _ => exact h.of_eq _ rfl id rfl fun _ => rfl
  | pauseToken _ | resumeToken _ | cancelToken _ | cancelIgnored _ _
  | tick _ => exact h.of_eq _ rfl id rfl id

/-- In every run in which no `resume` meets a job at the gate, an
executor that requires confirmation executes after an accepted
`confirm`. -/
theorem execute_after_confirm {request : Request} {now : Timestamp}
    {acts : List Action}
    (hrun : Run (apply true) ResumesPaused (startOperation request now) acts s)
    (hcall : s.runner.isExecuting = true) : Action.confirm ∈ acts := by
  have hgated : Gated acts s := by
    refine run_invariant hrun ⟨fun _ => rfl, ?_, ?_, ?_⟩ ?_
    · intro hp; cases hp
    · intro hp; cases hp
    · intro hp; cases hp
    · intro acts s s' a hlife hok hstep hgated
      exact hgated.step hlife hok hstep
  exact hgated.working (Runner.phase_of_isExecuting hcall)

/-- A confirmed job that has called `execute`. -/
theorem execute_after_confirm_confirmed :
    ∃ acts s, Run (apply true) ResumesPaused (startOperation sampleRequest 0) acts s
      ∧ s.runner.isExecuting = true ∧ Action.confirm ∈ acts := by
  obtain ⟨s, hrun, hcall⟩ := Run.exists_of_guardedRun (show (guardedRun (apply true) ResumesPaused
      (startOperation sampleRequest 0)
      (planScript (samplePlan 3 4) ++ [.confirm, .runner, .runner, .runner, .runner, .runner])).any
      (fun s => decide (s.runner.isExecuting = true)) = true from by decide)
  exact ⟨_, s, hrun, hcall, execute_after_confirm hrun hcall⟩

/-- `resume` opens the gate: the first item is executed and no
confirmation was given. -/
theorem resume_opens_gate :
    ∃ acts s, Run (apply true) Free (startOperation sampleRequest 0) acts s
      ∧ s.runner.isExecuting = true ∧ Action.confirm ∉ acts := by
  obtain ⟨s, hrun, hcall⟩ := Run.exists_of_run
    (show (run (apply true) (startOperation sampleRequest 0)
      (planScript (samplePlan 3 4) ++ [.resume, .resumeToken, .runner, .runner,
        .runner, .runner, .runner])).any
      (fun s => decide (s.runner.isExecuting = true)) = true from by decide)
  exact ⟨_, s, hrun, hcall, by simp [planScript]⟩

end FileManager.Scheduler
