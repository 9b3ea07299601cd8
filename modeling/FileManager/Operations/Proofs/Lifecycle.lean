/-
What every run keeps, whatever its steps: the runner stops at a
terminal state, and a cancellation that shows in the operation's state
was requested before.
-/
import FileManager.Operations.Proofs.Steps

namespace FileManager.Scheduler

open Machine
open OperationState (isClosing_of_canTransitionTo isClosing isTerminal)

variable {req : Bool} {s s' : State} {a : Action} {next : OperationState} {operation : Operation}
  {P : List Action → State → Prop} {ok : State → Action → Prop} {acts : List Action}
  {request : Request} {now : Timestamp}

-- ==== the runner stops there

/-- A job whose operation is terminal has a runner that is done. -/
def TerminalDone (s : State) : Prop := s.operation.state.isTerminal = true → s.runner = .done

theorem TerminalDone.live (h : TerminalDone s) (hr : s.runner ≠ .done) :
    s.operation.state.isTerminal = false := by
  cases hterm : s.operation.state.isTerminal with
  | false => rfl
  | true => exact absurd (h hterm) hr

theorem TerminalDone.alive (h : TerminalDone s) {r : Runner} (hr : s.runner = r)
    (hne : r ≠ .done := by simp) : s.operation.state.isTerminal = false :=
  h.live (hr ▸ hne)

theorem Moves.not_done {r r' : Runner} (h : Moves s a r r') : r ≠ .done := by
  intro heq
  subst heq
  cases h with
  | cancelled _ hcheck => cases hcheck
  | illegal _ hentering _ => cases hentering

theorem TerminalDone.of_eq (h : TerminalDone s) (hstate : s'.operation.state = s.operation.state)
    (hrunner : s.runner = .done → s'.runner = .done) : TerminalDone s' := by
  intro hterm
  rw [hstate] at hterm
  exact hrunner (h hterm)

theorem TerminalDone.of_enters (hstate : s'.operation.state = next)
    (hlive : next.isTerminal = false) : TerminalDone s' := by
  intro hterm
  rw [hstate, hlive] at hterm
  cases hterm

theorem announced_not_terminal (req : Bool) (plan : OperationPlan) :
    (announced req plan).1.isTerminal = false := by
  unfold announced
  cases req <;> rfl

theorem TerminalDone.step (hdone : TerminalDone s) (h : Step req s a s') : TerminalDone s' := by
  have hleft : ∀ {r : Runner}, s.runner = r → r ≠ .done →
      ∀ {t : State}, t.operation.state = s.operation.state → TerminalDone t := by
    intro r hr hne t hstate
    refine hdone.of_eq hstate fun hd => absurd (hr.symm.trans hd) hne
  cases h with
  | move hm => exact hleft rfl hm.not_done rfl
  | planned plan hr => exact hleft hr (by simp) rfl
  | announcePlan hr henters =>
    exact .of_enters henters.state (announced_not_terminal _ _)
  | announcePlanIllegal error hr _ => exact hleft hr (by simp) rfl
  | recordWarning hr => exact hleft hr (by simp) rfl
  | recordItem emitted hr =>
    refine hleft hr (by simp) ?_
    cases emitted <;> rfl
  | storeConflict hr => exact hleft hr (by simp) rfl
  | takeDecision hr => exact hleft hr (by simp) rfl
  | callRetry hr _ => exact hleft hr (by simp) rfl
  | countRetry hr => exact hleft hr (by simp) rfl
  | complete hr henters => exact fun _ => rfl
  | settleCancelled handler hr =>
    have hlive := hdone.alive hr
    obtain ⟨operation, -, -, h⟩ := settleCancelled_eq s handler hlive
    rw [h]
    exact fun _ => rfl
  | failJob error hr =>
    have hlive := hdone.alive hr
    obtain ⟨operation, -, h⟩ := failJob_eq s error hlive
    rw [h]
    exact fun _ => rfl
  | enterPlanning hr henters | announceConflict hr henters | leaveWaiting hr henters
  | pause hcaller henters | resume hcaller henters | confirm hcaller henters
  | cancelTransition hcaller henters => exact .of_enters henters.state rfl
  | republish hcaller =>
    refine hdone.of_eq ?_ fun hd => ?_
    · unfold republishPendingConflict
      split <;> rfl
    · unfold republishPendingConflict
      split <;> exact hd
  | pauseToken _ | resumeToken _ | resolveConflict _ _ _ _ | cancel _
  | cancelToken _ | cancelIgnored _ _ | tick _ => exact hdone.of_eq rfl id

-- ==== cancellation is flagged

/-- The cancellation flag is set before anything else of a cancel call
shows, and an operation with the flag set is coming to its end once the
call is over. -/
structure CancelFlagged (s : State) : Prop where
  state : s.operation.state = .cancelling → s.cancellation = true
  caller : s.caller = some .cancelRequested ∨ s.caller = some .cancelReleased →
    s.cancellation = true
  closing : s.cancellation = true →
    (s.caller = some .cancelRequested ∨ s.caller = some .cancelReleased)
      ∨ s.operation.state.isClosing = true

theorem CancelFlagged.of_enters (h : CancelFlagged s) (henters : Enters s.operation next operation)
    (hne : next ≠ .cancelling) (hoperation : s'.operation.state = operation.state)
    (hflag : s'.cancellation = s.cancellation) (hcaller : s'.caller = s.caller) : CancelFlagged s' := by
  refine ⟨fun hc => ?_, fun hc => ?_, fun hset => ?_⟩
  · rw [hoperation, henters.state] at hc
    exact absurd hc hne
  · rw [hcaller] at hc
    rw [hflag]
    exact h.caller hc
  · rw [hflag] at hset
    rw [hcaller, hoperation, henters.state]
    refine (h.closing hset).imp_right fun hclosing => ?_
    exact isClosing_of_canTransitionTo hclosing henters.legal

theorem CancelFlagged.unset (h : CancelFlagged s)
    (hcaller : s.caller = none) (henters : Enters s.operation next operation)
    (hnext : next.isClosing = false) : s.cancellation = false := by
  cases hset : s.cancellation with
  | false => rfl
  | true =>
    rcases h.closing hset with hc | hclosing
    · rw [hcaller] at hc
      rcases hc with hc | hc <;> cases hc
    · have := isClosing_of_canTransitionTo hclosing henters.legal
      simp [hnext] at this

theorem announced_ne_cancelling (req : Bool) (plan : OperationPlan) :
    (announced req plan).1 ≠ .cancelling := by
  unfold announced
  cases req <;> simp

theorem CancelFlagged.step (h : CancelFlagged s) (hdone : TerminalDone s) (hstep : Step req s a s')
    :
    CancelFlagged s' := by
  cases hstep with
  | @announcePlan plan operation hr henters =>
    have henters' : Enters s.operation (announced req plan).1
        { operation with progress := s.operation.progress } :=
      ⟨henters.legal, henters.state, rfl, henters.errors, henters.id, henters.ended⟩
    exact h.of_enters henters' (announced_ne_cancelling _ _) rfl rfl rfl
  | recordItem emitted hr =>
    cases emitted <;> exact ⟨h.state, h.caller, h.closing⟩
  | complete hr henters =>
    refine h.of_enters henters (fun hc => ?_) rfl rfl rfl
    have hterm := terminalOf_isTerminal s.operation
    rw [hc] at hterm
    cases hterm
  | settleCancelled handler hr =>
    obtain ⟨operation, hstate, -, heq⟩ := settleCancelled_eq s handler (hdone.alive hr)
    rw [heq]
    exact ⟨fun hc => absurd (hstate.symm.trans hc) (by simp), h.caller,
      fun _ => .inr (by simp [hstate, isClosing, isTerminal])⟩
  | failJob error hr =>
    obtain ⟨operation, henters, heq⟩ := failJob_eq s error (hdone.alive hr)
    rw [heq]
    exact h.of_enters henters (by simp) rfl rfl rfl
  | pause hcaller henters | resume hcaller henters =>
    have hunset := h.unset hcaller henters rfl
    exact ⟨fun hc => absurd (henters.state.symm.trans hc) (by simp),
      fun hc => (by simp at hc), fun hset => (by simp [hunset] at hset)⟩
  | enterPlanning hr henters | announceConflict hr henters | leaveWaiting hr henters
  | confirm hcaller henters => exact h.of_enters henters (by simp) rfl rfl rfl
  | cancel hcaller =>
    exact ⟨fun _ => rfl, fun _ => rfl, fun _ => .inl (.inl rfl)⟩
  | cancelToken hcaller =>
    exact ⟨h.state, fun _ => h.caller (.inl hcaller), fun _ => .inl (.inr rfl)⟩
  | cancelTransition hcaller henters =>
    exact ⟨fun _ => h.caller (.inr hcaller), fun hc => (by simp at hc),
      fun _ => .inr (by simp [henters.state, isClosing])⟩
  | cancelIgnored hcaller hskip =>
    refine ⟨h.state, fun hc => (by simp at hc), fun _ => .inr ?_⟩
    rcases hskip with hterm | hc
    · simp [isClosing, hterm]
    · simp [isClosing, hc]
  | pauseToken hcaller | resumeToken hcaller =>
    refine ⟨h.state, fun hc => (by simp at hc), fun hset => ?_⟩
    have hclosing := h.closing hset
    rw [hcaller] at hclosing
    exact hclosing.imp_left fun hc => by rcases hc with hc | hc <;> cases hc
  | republish hcaller =>
    unfold republishPendingConflict
    split <;> exact ⟨h.state, h.caller, h.closing⟩
  | move _ | planned _ _ | announcePlanIllegal _ _ _ | recordWarning _
  | storeConflict _ | takeDecision _ | callRetry _ _ | countRetry _
  | resolveConflict _ _ _ _ | tick _ => exact ⟨h.state, h.caller, h.closing⟩

-- ==== the run lemma

/-- The two together. -/
structure Lifecycle (s : State) : Prop where
  done : TerminalDone s
  flag : CancelFlagged s

theorem Lifecycle.start (request : Request) (now : Timestamp) :
    Lifecycle (startOperation request now) := by
  refine ⟨fun hterm => ?_, fun hc => ?_, fun hc => ?_, fun hset => ?_⟩
  · cases hterm
  · cases hc
  · rcases hc with hc | hc <;> cases hc
  · cases hset

theorem Lifecycle.step (h : Lifecycle s) (hstep : Step req s a s') : Lifecycle s' :=
  ⟨h.done.step hstep, h.flag.step h.done hstep⟩

theorem Lifecycle.live (h : Lifecycle s) (hr : s.runner ≠ .done) :
    s.operation.state.isTerminal = false :=
  h.done.live hr

theorem Lifecycle.alive (h : Lifecycle s) {r : Runner} (hr : s.runner = r)
    (hne : r ≠ .done := by simp) : s.operation.state.isTerminal = false :=
  h.done.alive hr hne

/-- The invariant rule of a job: what holds of a submitted operation and
survives every step from a reached state, which keeps its lifecycle,
holds at the end of every run. -/
theorem run_invariant_trace
    (hrun : Run (apply req) ok (startOperation request now) acts s)
    (hinit : P [] (startOperation request now))
    (hstep : ∀ {acts : List Action} {s s' : State} {a : Action},
      Run (apply req) ok (startOperation request now) acts s → Lifecycle s → ok s a →
      Step req s a s' → P acts s → P (acts ++ [a]) s') :
    P acts s := by
  have hboth : Lifecycle s ∧ P acts s := by
    refine Run.invariant_trace (P := fun acts s => Lifecycle s ∧ P acts s)
      ⟨Lifecycle.start request now, hinit⟩ ?_ hrun
    intro acts s s' a hbefore hok h ⟨hlife, hp⟩
    have hs := step_of_apply h
    exact ⟨hlife.step hs, hstep hbefore hlife hok hs hp⟩
  exact hboth.2

theorem run_invariant
    (hrun : Run (apply req) ok (startOperation request now) acts s)
    (hinit : P [] (startOperation request now))
    (hstep : ∀ {acts : List Action} {s s' : State} {a : Action}, Lifecycle s → ok s a →
      Step req s a s' → P acts s → P (acts ++ [a]) s') :
    P acts s :=
  run_invariant_trace hrun hinit fun _ hlife hok hs hp => hstep hlife hok hs hp

end FileManager.Scheduler
