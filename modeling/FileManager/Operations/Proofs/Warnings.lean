/-
What becomes of a warning: in the first pass it is recorded, its item is
counted, and the job goes on to its end.

The two matches of `run_job` on an execution's result differ here. The
first pass has an arm for warnings, the retries have none, so a warning
that a retry returns is raised like any other error and fails the job.
`WarnsEarly` excludes it, together with the calls that make a transition
of the runner illegal (`KeepsLegal`), which fail a job whatever the
executor returns.
-/
import FileManager.Operations.Proofs.Legality
import FileManager.Operations.Proofs.Results

namespace FileManager.Scheduler

open Machine List

variable {req : Bool} {s s' : State} {error : OperationEntryError} {request : Request}
  {now : Timestamp} {work : Work}

-- ==== vocabulary

/-- Neither a warning nor a conflict. -/
def ExecutionError.isFatal : ExecutionError → Bool
  | .warning _ _ | .conflict _ => false
  | _ => true

/-- The error that a call of the executor returns. -/
def Action.error? : Action → Option ExecutionError
  | .planReturns (.error e) | .executeReturns (.error e) | .finishReturns (.error e)
  | .cleanupReturns (.error e) => some e
  | _ => none

def Runner.isRetrying : Runner → Bool
  | .retrying .. => true
  | _ => false

/-- Warnings come from the first execution of an item and conflicts from
an execution, and no call makes a transition of the runner illegal. -/
structure WarnsEarly (req : Bool) (s : State) (a : Action) : Prop where
  legal : KeepsLegal req s a
  soft : ∀ e, a.error? = some e → e.isFatal = false →
    a.isExecuteReturn = true ∧ (e.isConflict = true ∨ s.runner.isRetrying = false)

instance (req : Bool) (s : State) (a : Action) : Decidable (WarnsEarly req s a) :=
  decidable_of_iff (KeepsLegal req s a ∧ a.error?.all (fun e => e.isFatal
      || (a.isExecuteReturn && (e.isConflict || !s.runner.isRetrying))) = true)
    ⟨fun ⟨hlegal, hsoft⟩ => ⟨hlegal, fun e he hfatal => by
        rw [he] at hsoft
        simpa [hfatal] using hsoft⟩,
      fun h => ⟨h.legal, by
        cases he : a.error? with
        | none => rfl
        | some e =>
          have hsoft := h.soft e he
          cases hfatal : e.isFatal <;> simp_all⟩⟩

/-- An execution of the item, the first or a retry, returned the
warning. -/
def Warned (req : Bool) (ok : State → Action → Prop) (s₀ : State) (acts : List Action)
    (work : Work) (error : OperationEntryError) : Prop :=
  Happened (apply req) ok s₀ acts fun s a =>
    a = .executeReturns (.error (.warning error.entry error.message))
      ∧ ∃ resolution, s.runner.inProgress = some (work, resolution)

def Runner.warning? : Runner → Option (Work × OperationEntryError)
  | .checkExecuted (.error (.warning entry message)) work _ _ => some (work, ⟨entry, message⟩)
  | .recordWarning error work _ _ => some (work, error)
  | _ => none

/-- A cancellation was asked for. -/
def State.isCancelled (s : State) : Prop := s.cancellation = true ∨ s.operation.state = .cancelled

-- ==== one step

variable {a : Action}

theorem cancellation_step (hlife : Lifecycle s) (hstep : Step req s a s')
    (h : s.cancellation = true) : s'.cancellation = true := by
  cases hstep with
  | settleCancelled handler hr =>
    obtain ⟨operation, -, -, heq⟩ := settleCancelled_eq s handler (hlife.alive hr)
    rw [heq]
    exact h
  | failJob error hr =>
    obtain ⟨operation, -, heq⟩ := failJob_eq s error (hlife.alive hr)
    rw [heq]
    exact h
  | recordItem emitted hr => cases emitted <;> exact h
  | republish _ =>
    unfold republishPendingConflict
    split <;> exact h
  | cancel _ => rfl
  | _ => exact h

variable {a : Action}

theorem State.isCancelled.step (h : s.isCancelled) (hlife : Lifecycle s)
    (hstep : Step req s a s') : s'.isCancelled := by
  rcases h with hflag | hstate
  · exact .inl (cancellation_step hlife hstep hflag)
  · refine .inr ?_
    rw [operation_step_terminal hlife hstep (by rw [hstate]; rfl)]
    exact hstate

theorem warning_step (hstep : Step req s a s') (hreturn : a.isExecuteReturn = false)
    (h : s.runner.warning? = some (work, error)) :
    s'.cancellation = true ∨ s'.runner.warning? = some (work, error)
      ∨ ((work, .warned) ∈ s'.settled ∧ error ∈ s'.operation.errors) := by
  cases hstep with
  | @move _ r hm =>
    show s.cancellation = true ∨ r.warning? = some (work, error) ∨ _
    generalize s.runner = r₀ at hm h
    cases hm with
    | executed _ | retried _ => cases hreturn
    | @passExecuted result _ _ _ _ =>
      rcases result with e | outcome
      · cases e with
        | warning entry message => exact .inr (.inl h)
        | conflict _ | notImplemented | failed _ | provider _ => cases h
      · cases h
    | cancelled hflag _ => exact .inl hflag
    | illegal _ hentering _ =>
      cases r₀ with
      | checkExecuted _ _ _ _ | recordWarning _ _ _ _ => cases hentering
      | _ => cases h
    | _ => cases h
  | recordWarning hr =>
    rw [hr] at h
    cases h
    refine .inr (.inr ⟨?_, mem_append_right _ (mem_singleton_self _)⟩)
    exact mem_append_right _ (mem_singleton_self _)
  | republish _ =>
    unfold republishPendingConflict
    split <;> exact .inr (.inl h)
  | pause _ _ | resume _ _ | confirm _ _ | cancelTransition _ _ | pauseToken _
  | resumeToken _ | resolveConflict _ _ _ _ | cancel _ | cancelToken _
  | cancelIgnored _ _ | tick _ => exact .inr (.inl h)
  | planned _ hr | enterPlanning hr _ | announcePlan hr _ | announcePlanIllegal _ hr _
  | recordItem _ hr | storeConflict hr | announceConflict hr _ | takeDecision hr
  | leaveWaiting hr _ | callRetry hr _ | countRetry hr | complete hr _
  | settleCancelled _ hr | failJob _ hr => rw [hr] at h; cases h

theorem settled_errors_step (hlife : Lifecycle s) (hstep : Step req s a s')
    (hreturn : a.isExecuteReturn = false) (hsettled : (work, .warned) ∈ s.settled)
    (herrors : error ∈ s.operation.errors) :
    s'.isCancelled ∨ ((work, .warned) ∈ s'.settled ∧ error ∈ s'.operation.errors) := by
  rcases errors_step hlife hstep with hcancelled | ⟨new, heq⟩
  · exact .inl (.inr hcancelled)
  · refine .inr ⟨?_, ?_⟩
    · rcases settled_step_cases hlife hstep hreturn with hsame | ⟨_, _, _, _, -, hmore, -⟩
      · rw [hsame]
        exact hsettled
      · rw [hmore]
        exact mem_append_left _ hsettled
    · rw [heq]
      exact mem_append_left _ herrors

theorem executeReturns_keeps {result : Except ExecutionError ExecutionOutcome}
    (hstep : Step req s (.executeReturns result) s') :
    (∀ o ∈ s.settled, o ∈ s'.settled) ∧ s'.operation = s.operation ∧ s.runner.warning? = none := by
  cases hstep with
  | @move _ r hm =>
    have hin : s.runner.inFlight = [] ∧ s.runner.warning? = none := by
      generalize s.runner = r₀ at hm
      cases hm with
      | executed _ | retried _ => exact ⟨rfl, rfl⟩
    refine ⟨fun o ho => ?_, rfl, hin.2⟩
    unfold State.settled at ho ⊢
    rw [hin.1, append_nil] at ho
    exact mem_append_left _ ho

theorem not_interrupted_step (hlife : Lifecycle s) (hstep : Step req s a s')
    (h : s.operation.state ≠ .interrupted) : s'.operation.state ≠ .interrupted := by
  have henter : ∀ {before operation : Operation} {next : OperationState},
      Enters before next operation → next ≠ .interrupted → operation.state ≠ .interrupted := by
    intro before operation next henters hnext
    rw [henters.state]
    exact hnext
  cases hstep with
  | announcePlan hr henters =>
    refine henter henters ?_
    unfold announced
    cases req <;> exact nofun
  | complete hr henters =>
    refine henter henters ?_
    unfold terminalOf
    split <;> exact nofun
  | settleCancelled handler hr =>
    obtain ⟨operation, hstate, -, heq⟩ := settleCancelled_eq s handler (hlife.alive hr)
    rw [heq]
    show operation.state ≠ .interrupted
    rw [hstate]
    exact nofun
  | failJob error hr =>
    obtain ⟨operation, henters, heq⟩ := failJob_eq s error (hlife.alive hr)
    rw [heq]
    exact henter henters nofun
  | enterPlanning _ henters | announceConflict _ henters | leaveWaiting _ henters
  | pause _ henters | resume _ henters | confirm _ henters
  | cancelTransition _ henters => exact henter henters nofun
  | recordItem emitted _ => cases emitted <;> exact h
  | republish _ =>
    unfold republishPendingConflict
    split <;> exact h
  | _ => exact h

-- ==== invariants

/-- Every warning so far is recorded or about to be. -/
def Recorded (req : Bool) (ok : State → Action → Prop) (s₀ : State) (acts : List Action)
    (s : State) : Prop :=
  ∀ work error, Warned req ok s₀ acts work error →
    s.isCancelled ∨ s.runner.warning? = some (work, error)
      ∨ ((work, .warned) ∈ s.settled ∧ error ∈ s.operation.errors)

variable {acts : List Action} {ok : State → Action → Prop}

theorem Recorded.step {s₀ : State} (h : Recorded req ok s₀ acts s)
    (hok : ∀ s a, ok s a → WarnsEarly req s a) (hrun : Run (apply req) ok s₀ acts s) (ha : ok s a)
    (hlife : Lifecycle s) (hstep : Step req s a s') : Recorded req ok s₀ (acts ++ [a]) s' := by
  intro work error hwarned
  rcases hwarned.of_concat hrun with hbefore | ⟨rfl, resolution, hprogress⟩
  · rcases h work error hbefore with hcancelled | hpending | ⟨hsettled, herrors⟩
    · exact .inl (hcancelled.step hlife hstep)
    · cases hreturn : a.isExecuteReturn with
      | false =>
        rcases warning_step hstep hreturn hpending with hflag | hmore
        · exact .inl (.inl hflag)
        · exact .inr hmore
      | true =>
        obtain ⟨result, rfl⟩ : ∃ result, a = .executeReturns result := by
          cases a <;> first | exact ⟨_, rfl⟩ | cases hreturn
        rw [(executeReturns_keeps hstep).2.2] at hpending
        cases hpending
    · cases hreturn : a.isExecuteReturn with
      | false =>
        exact (settled_errors_step hlife hstep hreturn hsettled herrors).imp_right .inr
      | true =>
        obtain ⟨result, rfl⟩ : ∃ result, a = .executeReturns result := by
          cases a <;> first | exact ⟨_, rfl⟩ | cases hreturn
        obtain ⟨hkeeps, hoperation, -⟩ := executeReturns_keeps hstep
        exact .inr (.inr ⟨hkeeps _ hsettled, hoperation ▸ herrors⟩)
  · -- the warning comes from a first execution, which hands it on
    obtain ⟨-, hconflict | hfirst⟩ := (hok _ _ ha).soft _ rfl rfl
    · cases hconflict
    · refine .inr (.inl ?_)
      cases hstep with
      | @move _ r hm =>
        show r.warning? = some (work, error)
        generalize s.runner = r₀ at hm hfirst hprogress
        cases hm with
        | executed _ =>
          cases hprogress
          rfl
        | retried _ => cases hfirst

/-- No error that fails the job is a warning or a conflict. -/
structure Fatal (s : State) : Prop where
  carried : ∀ e, s.runner.error? = some (.execution e) → e.isFatal = true
  published : ∀ e, .operationFailed "operationFailed" (.execution e) ∈ s.events →
    e.isFatal = true

theorem Fatal.move {r : Runner} (h : Fatal s) (ha : WarnsEarly req s a)
    (hm : Moves s a s.runner r) : Fatal { s with runner := r } := by
  refine ⟨fun e he => ?_, h.published⟩
  have hcarried := h.carried
  have hsoft : ∀ e, a.error? = some e → a.isExecuteReturn = false → e.isFatal = true := by
    intro e he hreturn
    cases hfatal : e.isFatal with
    | true => rfl
    | false =>
      rw [(ha.soft e he hfatal).1] at hreturn
      cases hreturn
  have hretry := ha.soft
  change r.error? = some (.execution e) at he
  generalize s.runner = r₀ at hm hcarried hretry
  cases hm with
  | planFailed e' | finishFailed e' | cleanFailed e' | handlerCleanFailed e' =>
    cases he
    exact hsoft _ rfl rfl
  | @passExecuted result _ _ _ _ =>
    rcases result with e' | outcome
    · cases e' <;> cases he <;> rfl
    · cases he
  | retried result =>
    rcases result with e' | outcome
    · cases e' with
      | warning entry message =>
        obtain ⟨-, hconflict | hfirst⟩ := hretry _ rfl rfl
        · cases hconflict
        · cases hfirst
      | conflict _ => cases he
      | _ =>
        cases he
        rfl
    · cases he
  | abandon _ | abandoned _ => exact hcarried e he
  | _ => cases he

theorem Fatal.of_quiet (h : Fatal s) (new : List Event) (hevents : s'.events = s.events ++ new)
    (hnew : ∀ e, .operationFailed "operationFailed" (.execution e) ∉ new)
    (hrunner : ∀ e, s'.runner.error? = some (.execution e) →
      s.runner.error? = some (.execution e)) : Fatal s' := by
  refine ⟨fun e he => h.carried e (hrunner e he), fun e he => ?_⟩
  rw [hevents] at he
  rcases mem_append.1 he with hbefore | hlast
  · exact h.published e hbefore
  · exact absurd hlast (hnew e)

theorem Fatal.step (h : Fatal s) (ha : WarnsEarly req s a) (hlife : Lifecycle s)
    (hstep : Step req s a s') : Fatal s' := by
  cases hstep with
  | move hm => exact h.move ha hm
  | @announcePlan plan operation hr henters =>
    refine h.of_quiet _ (append_assoc _ _ _) (by simp) fun e he => ?_
    unfold announced at he
    cases req <;> cases he
  | recordItem emitted hr =>
    cases emitted with
    | none => exact h.of_quiet [] (append_nil _).symm (by simp) fun e he => (by cases he)
    | some rate => exact h.of_quiet [_] rfl (by simp) fun e he => (by cases he)
  | @announceConflict conflict after operation hr henters =>
    refine h.of_quiet [_, _] rfl (by simp) fun e he => ?_
    cases after <;> cases he
  | settleCancelled handler hr =>
    obtain ⟨operation, -, -, heq⟩ := settleCancelled_eq s handler (hlife.alive hr)
    rw [heq]
    refine h.of_quiet _ rfl (fun e he => ?_) fun e he => (by cases he)
    split at he <;> simp at he
  | failJob error hr =>
    obtain ⟨operation, -, heq⟩ := failJob_eq s error (hlife.alive hr)
    rw [heq]
    refine ⟨fun e he => (by cases he), fun e he => ?_⟩
    rcases mem_append.1 he with hbefore | hlast
    · rcases mem_append.1 hbefore with hbefore | hchange
      · exact h.published e hbefore
      · split at hchange <;> simp at hchange
    · cases mem_singleton.1 hlast
      exact h.carried e (by rw [hr]; rfl)
  | complete hr henters =>
    exact h.of_quiet [_, _] rfl (by simp) fun e he => (by cases he)
  | planned _ hr | recordWarning hr | storeConflict hr | takeDecision hr | callRetry hr _
  | countRetry hr =>
    exact h.of_quiet [] (append_nil _).symm (by simp) fun e he => (by cases he)
  | pause _ henters | resume _ henters | confirm _ henters | cancelTransition _ henters =>
    exact h.of_quiet [_] rfl (by simp) fun e he => he
  | republish _ =>
    unfold republishPendingConflict
    split
    case h_1 => exact h
    case h_2 => exact h.of_quiet [_] rfl (by simp) fun e he => he
  | pauseToken _ | resumeToken _ | resolveConflict _ _ _ _ | cancel _ | cancelToken _
  | cancelIgnored _ _ | tick _ => exact h.of_quiet [] (append_nil _).symm (by simp) fun e he => he
  | _ =>
    exact h.of_quiet [_] rfl (by simp) fun e he => (by cases he)

-- ==== the run lemma

/-- Warnings are recorded and counted once, and stop nothing. -/
structure NonFatal (req : Bool) (ok : State → Action → Prop) (s₀ : State) (acts : List Action)
    (s : State) : Prop where
  once : (s.outcomes.map fun o => o.1.index).Nodup
  recorded : Recorded req ok s₀ acts s
  /-- The job of a warned item goes on to its end. -/
  goesOn : ∀ work error, Warned req ok s₀ acts work error →
    s.operation.state.isTerminal = true →
    s.isCancelled ∨ (s.operation.state = .completedWithWarnings
        ∧ ∃ plan, s.plan = some plan ∧ (s.outcomes.map Prod.fst).Perm plan.work)
      ∨ (s.operation.state = .failed ∧ ∃ e, Returned acts e ∧ e.isFatal = true)
  failed : s.operation.state = .failed → ∃ e, Returned acts e ∧ e.isFatal = true

theorem lifecycle_run (hrun : Run (apply req) ok (startOperation request now) acts s) : Lifecycle s :=
  hrun.invariant (Lifecycle.start request now) fun _ _ h hlife => hlife.step (step_of_apply h)

theorem recorded_fatal_run
    (hrun : Run (apply req) (WarnsEarly req) (startOperation request now) acts s) :
    Recorded req (WarnsEarly req) (startOperation request now) acts s ∧ Fatal s
      ∧ s.operation.state ≠ .interrupted := by
  refine run_invariant_trace (P := fun acts s =>
    Recorded req (WarnsEarly req) (startOperation request now) acts s ∧ Fatal s
      ∧ s.operation.state ≠ .interrupted) hrun ?_ ?_
  · refine ⟨?_, ⟨?_, ?_⟩, ?_⟩
    · rintro work error ⟨before, a, after, s₁, hacts, -⟩
      simp at hacts
    · exact fun e he => (by cases he)
    · exact fun e he => by simp [startOperation, submit] at he
    · intro hnot
      cases hnot
  · rintro acts s s' a hbefore hlife ha hstep ⟨hrecorded, hfatal, hstate⟩
    exact ⟨hrecorded.step (fun _ _ h => h) hbefore ha hlife hstep,
      hfatal.step ha hlife hstep, not_interrupted_step hlife hstep hstate⟩

/-- In every run in which warnings come from the first pass, warnings
are not fatal. -/
theorem warnings_are_not_fatal {request : Request} {now : Timestamp} {acts : List Action}
    (hrun : Run (apply req) (WarnsEarly req) (startOperation request now) acts s) :
    NonFatal req (WarnsEarly req) (startOperation request now) acts s := by
  obtain ⟨hrecorded, hfatal, hstate⟩ := recorded_fatal_run hrun
  have haccounts := (accounted_run hrun).progressAccounts
  have hfailed : s.operation.state = .failed → ∃ e, Returned acts e ∧ e.isFatal = true := by
    intro hf
    obtain ⟨e, hmem, hreturned⟩ := (tabled_run (hrun.mono fun _ _ h => h.legal)).2.failed hf
    exact ⟨e, hreturned, hfatal.published e hmem⟩
  refine ⟨haccounts.once, hrecorded, fun work error hwarned hterminal => ?_, hfailed⟩
  rcases hrecorded work error hwarned with hcancelled | hpending | ⟨-, herror⟩
  · exact .inl hcancelled
  · have hdone := (lifecycle_run hrun).done hterminal
    rw [hdone] at hpending
    cases hpending
  · cases hs : s.operation.state with
    | cancelled => exact .inl (.inr hs)
    | failed => exact .inr (.inr ⟨rfl, hfailed hs⟩)
    | completedWithWarnings =>
      obtain ⟨plan, hplan, hall, -⟩ := haccounts.through (by rw [hs]; rfl)
      exact .inr (.inl ⟨rfl, plan, hplan, hall⟩)
    | completed =>
      have hnone := (heeds_run hrun).completed hs
      rw [hnone] at herror
      cases herror
    | interrupted => exact absurd hs hstate
    | _ =>
      rw [hs] at hterminal
      cases hterminal

/-- A copy of two files, the first with a warning. -/
def warnedCopy : List Action :=
  planScript (samplePlan 3 4)
    ++ executeScript (.error (.warning (sampleEntry 1) "denied"))
    ++ [.runner, .recordItem none, .runner] ++ itemScript .completed ++ finishScript

theorem warned_copy_completes :
    ∃ s, Run (apply false) (WarnsEarly false) (startOperation sampleRequest 0) warnedCopy s
      ∧ s.operation.state = .completedWithWarnings
      ∧ NonFatal false (WarnsEarly false) (startOperation sampleRequest 0) warnedCopy s := by
  have hreached : ∃ s, Run (apply false) (WarnsEarly false) (startOperation sampleRequest 0)
      warnedCopy s ∧ s.operation.state = .completedWithWarnings :=
    Run.exists_of_guardedRun (by decide)
  obtain ⟨s, hrun, hstate⟩ := hreached
  exact ⟨s, hrun, hstate, warnings_are_not_fatal hrun⟩

/-- Two items conflict, and the retry of the first ends in a warning. -/
def warnedRetry : List Action :=
  planScript (samplePlan 3 4)
    ++ executeScript (.error (.conflict (sampleConflict 1))) ++ [.runner, .runner, .runner]
    ++ executeScript (.error (.conflict (sampleConflict 2))) ++ [.runner]
    ++ [.runner, .runner, .runner, .resolveConflict .overwrite false, .runner, .runner, .runner,
      .runner, .executeReturns (.error (.warning (sampleEntry 1) "denied")), .runner,
      .cleanupReturns (.ok ()), .runner]

/-- The executor returned nothing but conflicts and a warning: the job
fails, and the warning is not recorded. -/
theorem warned_retry_fails :
    ∃ s, Run (apply false) Free (startOperation sampleRequest 0) warnedRetry s
      ∧ s.operation.state = .failed ∧ s.operation.errors = [] ∧ s.outcomes = []
      ∧ ∀ a ∈ warnedRetry, ∀ e, a.error? = some e → e.isFatal = false := by
  have hreached : ∃ s, Run (apply false) Free (startOperation sampleRequest 0) warnedRetry s
      ∧ s.operation.state = .failed ∧ s.operation.errors = [] ∧ s.outcomes = [] :=
    Run.exists_of_run (by decide)
  obtain ⟨s, hrun, hstate, herrors, houtcomes⟩ := hreached
  refine ⟨s, hrun, hstate, herrors, houtcomes, fun a ha e he => ?_⟩
  have hall : ∀ a ∈ warnedRetry, a.error?.all (fun e => !e.isFatal) = true := by decide
  have hsoft := hall a ha
  rw [he] at hsoft
  simpa using hsoft

end FileManager.Scheduler
