/-
What is recorded of the operations that a service has accepted.

The observer is handed an operation when it is submitted and when
`fail_job` ends it, and nothing otherwise (`Outcome`). An entry of the
history is the last snapshot of its operation, or the retention rule has
taken it out (`Kept`); that holds of every run (`Recorded`).
-/
import FileManager.Application.OperationService
import FileManager.Operations.Proofs.Observer

namespace FileManager

open OperationHistory Keyed List
open Scheduler (startOperation)
open Function (update update_apply update_of_ne)

namespace Scheduler

-- ==== the steps of a job

variable {req : Bool} {s s' : State} {a : Action}

/-- What a step means to whoever lists the operation: it goes on, or is
over and stays as it is; it ends and is handed over; or it ends and
nobody is told. -/
inductive Outcome (s : State) (a : Action) (s' : State) : Prop
  | goes (hstate : s'.operation.state.isTerminal = s.operation.state.isTerminal)
      (hkept : s.operation.state.isTerminal = true → s'.operation = s.operation)
      (hobserved : s'.observed = s.observed)
  | handed (hrunner : a.isRunner = true) (hfailing : s.runner.isFailing = true)
      (hlive : s.operation.state.isTerminal = false)
      (hterminal : s'.operation.state.isTerminal = true)
      (hobserved : s'.observed = s.observed ++ [s'.operation])
  | untold (hends : ¬ EndsObserved s a) (hlive : s.operation.state.isTerminal = false)
      (hterminal : s'.operation.state.isTerminal = true) (hobserved : s'.observed = s.observed)

theorem Outcome.of_live (hlive : s.operation.state.isTerminal = false)
    (hlive' : s'.operation.state.isTerminal = false) (hobserved : s'.observed = s.observed) :
    Outcome s a s' := by
  refine .goes (hlive'.trans hlive.symm) (fun hterminal => ?_) hobserved
  simp [hlive] at hterminal

theorem Outcome.of_enters {next : OperationState} {before operation : Operation}
    (henters : Enters before next operation) (hbefore : before.state = s.operation.state)
    (hnext : next.isTerminal = false) (hoperation : s'.operation = operation)
    (hobserved : s'.observed = s.observed) : Outcome s a s' := by
  refine .of_live (hbefore ▸ henters.not_terminal) ?_ hobserved
  rw [hoperation, henters.state]
  exact hnext

theorem Outcome.of_eq (hoperation : s'.operation = s.operation)
    (hobserved : s'.observed = s.observed) : Outcome s a s' :=
  .goes (by rw [hoperation]) (fun _ => hoperation) hobserved

theorem outcome_of_step (hlife : Lifecycle s) (hstep : Step req s a s') : Outcome s a s' := by
  cases hstep with
  | announcePlan hr henters =>
    exact .of_enters henters rfl (announced_not_terminal _ _) rfl rfl
  | announcePlanIllegal error hr _ | recordWarning hr | countRetry hr =>
    have hlive := hlife.alive hr
    exact .of_live hlive hlive rfl
  | recordItem emitted hr =>
    have hlive := hlife.alive hr
    cases emitted <;> exact .of_live hlive hlive rfl
  | complete hr henters =>
    refine .untold (fun hok => ?_) henters.not_terminal ?_ rfl
    · have hillegal := (hok rfl).2 (by rw [hr]; rfl)
      rw [henters.legal] at hillegal
      cases hillegal
    · rw [henters.state]
      exact terminalOf_isTerminal _
  | settleCancelled handler hr =>
    have hlive := hlife.alive hr
    obtain ⟨operation, hstate, -, heq⟩ := settleCancelled_eq s handler hlive
    rw [heq]
    refine .untold (fun hok => ?_) hlive (by rw [hstate]; rfl) rfl
    have hnot := (hok rfl).1
    rw [hr] at hnot
    cases hnot
  | failJob error hr =>
    have hlive := hlife.alive hr
    obtain ⟨operation, henters, heq⟩ := failJob_eq s error hlive
    rw [heq]
    exact .handed rfl (by rw [hr]; rfl) hlive (by rw [henters.state]; rfl) rfl
  | enterPlanning hr henters | announceConflict hr henters | leaveWaiting hr henters
  | pause hcaller henters | resume hcaller henters | confirm hcaller henters
  | cancelTransition hcaller henters => exact .of_enters henters rfl rfl rfl rfl
  | republish hcaller =>
    unfold republishPendingConflict
    split <;> exact .of_eq rfl rfl
  | move _ | planned _ _ | storeConflict _ | takeDecision _ | callRetry _ _
  | pauseToken _ | resumeToken _ | resolveConflict _ _ _ _ | cancel _
  | cancelToken _ | cancelIgnored _ _ | tick _ => exact .of_eq rfl rfl

theorem id_of_step (hlife : Lifecycle s) (hstep : Step req s a s') :
    s'.operation.id = s.operation.id := by
  cases hstep with
  | recordItem emitted hr => cases emitted <;> rfl
  | settleCancelled handler hr =>
    obtain ⟨before, operation, henters, -, hid, heq⟩ :=
      settleCancelled_enters s handler (hlife.alive hr)
    rw [heq]
    exact henters.id.trans hid
  | failJob error hr =>
    obtain ⟨operation, henters, heq⟩ := failJob_eq s error (hlife.alive hr)
    rw [heq]
    exact henters.id
  | enterPlanning hr henters | announcePlan hr henters | announceConflict hr henters
  | leaveWaiting hr henters | complete hr henters | pause hcaller henters | resume hcaller henters
  | confirm hcaller henters | cancelTransition hcaller henters => exact henters.id
  | republish hcaller =>
    unfold republishPendingConflict
    split <;> rfl
  | announcePlanIllegal _ _ _ | recordWarning _ | countRetry _ | move _ | planned _ _
  | storeConflict _ | takeDecision _ | callRetry _ _ | pauseToken _ | resumeToken _
  | resolveConflict _ _ _ _ | cancel _ | cancelToken _ | cancelIgnored _ _ | tick _ => rfl

end Scheduler

namespace OperationService

open Scheduler (EndsObserved Lifecycle)

-- ==== vocabulary

variable {service service' : Service} {id i : Nat} {last : Operation} {state s s' : Scheduler.State}
  {a : Scheduler.Action} {now : Timestamp} {saved : Bool} {idempotencyKey : Option String}
  {planned : Except ApplicationError Bool} {request : Scheduler.Request} {call : ListCall}
  {job : Job}

-- ==== the retention

section Retention

variable (now : Timestamp) {operations : List Operation} {operation : Operation}

theorem mem_prune_of_live (hmem : operation ∈ operations)
    (hlive : operation.state.isTerminal = false) : operation ∈ prune now operations := by
  unfold prune
  have hretained : operation ∈ operations.filter (retained now) :=
    mem_filter.mpr ⟨hmem, by simp [retained, hlive]⟩
  generalize operations.filter (retained now) = kept at hretained
  obtain ⟨k, hk⟩ := List.getElem?_of_mem hretained
  refine mem_map.mpr ⟨(operation, k), mem_filter.mpr ⟨?_, ?_⟩, rfl⟩
  · exact mem_zipIdx_iff_getElem?.mpr hk
  · rw [decide_eq_true_eq]
    intro hexcess
    -- the excess is made of positions of terminal operations
    obtain ⟨entry, hentry, hposition⟩ := mem_map.mp hexcess
    have hsorted := mem_mergeSort.mp (mem_of_mem_take hentry)
    obtain ⟨pair, hpair, rfl⟩ := mem_map.mp hsorted
    obtain ⟨hzip, hterminal⟩ := mem_filter.mp hpair
    have hat := mem_zipIdx_iff_getElem?.mp hzip
    rw [show pair.2 = k from hposition, hk] at hat
    rw [← Option.some.inj hat, hlive] at hterminal
    cases hterminal

theorem prune_cases (hnodup : (operations.map Operation.id).Nodup) (hmem : operation ∈ operations) :
    (having Operation.id operation.id (prune now operations) = [operation]
        ∧ operation.id ∉ prunedIds now operations) ∨ (operation.state.isTerminal = true
        ∧ having Operation.id operation.id (prune now operations) = []
        ∧ operation.id ∈ prunedIds now operations) := by
  have hsub := prune_sublist now operations
  have hunique : ∀ o ∈ operations, o.id = operation.id → o = operation :=
    fun o ho hid => functional_of_nodup hnodup o ho operation hmem hid
  by_cases hkept : operation ∈ prune now operations
  · refine .inl ⟨having_eq_singleton (hnodup.sublist (hsub.map _)) hkept, fun hpruned => ?_⟩
    obtain ⟨o, ho, hid⟩ := mem_map.mp hpruned
    obtain ⟨ho, hgone⟩ := mem_filter.mp ho
    rw [hunique o ho hid] at hgone
    simp [hkept] at hgone
  · have hterminal : operation.state.isTerminal = true := by
      by_contra hlive
      exact hkept (mem_prune_of_live now hmem (by simpa using hlive))
    refine .inr ⟨hterminal, filter_eq_nil_iff.mpr fun o ho hid => ?_, ?_⟩
    · rw [decide_eq_true_eq] at hid
      exact hkept (hunique o (hsub.subset ho) hid ▸ ho)
    · refine mem_map.mpr ⟨operation, mem_filter.mpr ⟨hmem, ?_⟩, rfl⟩
      simp [hterminal, hkept]

theorem prune_of_absent (habsent : having Operation.id id operations = []) :
    having Operation.id id (prune now operations) = [] ∧ id ∉ prunedIds now operations := by
  constructor
  · have hsub : (having Operation.id id (prune now operations)).Sublist
        (having Operation.id id operations) :=
      having_sublist (prune_sublist now operations)
    rw [habsent] at hsub
    exact sublist_nil.mp hsub
  · intro hpruned
    obtain ⟨o, ho, hid⟩ := mem_map.mp hpruned
    have hmem : o ∈ having Operation.id id operations :=
      mem_having.mpr ⟨(mem_filter.mp ho).1, hid⟩
    simp [habsent] at hmem

end Retention

-- ==== the records

/-- The history has the last snapshot of an operation, or the retention
rule has taken it out. -/
def Kept (service : Service) (id : Nat) (last : Operation) : Prop :=
  (having Operation.id id service.history.operations = [last] ∧ id ∉ service.dropped)
    ∨ (last.state.isTerminal = true
      ∧ having Operation.id id service.history.operations = [] ∧ id ∈ service.dropped)

theorem Kept.of_eq (h : Kept service id last) (hhistory : service'.history = service.history)
    (hdropped : service'.dropped = service.dropped) : Kept service' id last := by
  unfold Kept
  rw [hhistory, hdropped]
  exact h

section Observe

variable {operation : Operation} {now : Timestamp} {saved : Bool}

theorem observe_history (service : Service) (operation : Operation) (now : Timestamp)
    (saved : Bool) :
    (service.observe operation now saved).history.operations = prune now
        (upsert Operation.id operation service.history.operations) := rfl

theorem kept_of_observe (hnodup : (service.history.operations.map Operation.id).Nodup)
    (hid : operation.id = id) (hdropped : id ∉ service.dropped) :
    Kept (service.observe operation now saved) id operation := by
  subst hid
  have hmem : operation ∈ upsert Operation.id operation service.history.operations :=
    (mem_upsert hnodup).mpr (.inl rfl)
  unfold Kept
  rw [observe_history]
  rcases prune_cases now (nodup_upsert hnodup) hmem with
    ⟨hkept, hpruned⟩ | ⟨hterminal, hgone, hpruned⟩
  · refine .inl ⟨hkept, fun h => ?_⟩
    rcases mem_append.mp h with h | h
    · exact hdropped h
    · exact hpruned h
  · exact .inr ⟨hterminal, hgone, mem_append_right _ hpruned⟩

theorem Kept.observe (h : Kept service id last)
    (hnodup : (service.history.operations.map Operation.id).Nodup) (hid : operation.id ≠ id) :
    Kept (service.observe operation now saved) id last := by
  have hupsert := having_upsert_of_ne hid service.history.operations
  unfold Kept
  rw [observe_history]
  rcases h with ⟨hhaving, hdropped⟩ | ⟨hterminal, hhaving, hdropped⟩
  · rw [hhaving] at hupsert
    have hlast : last ∈ having Operation.id id
        (upsert Operation.id operation service.history.operations) := by
      rw [hupsert]
      exact mem_singleton_self last
    obtain ⟨hmem, rfl⟩ := mem_having.mp hlast
    rcases prune_cases now (nodup_upsert hnodup) hmem with
      ⟨hkept, hpruned⟩ | ⟨hterminal, hgone, hpruned⟩
    · refine .inl ⟨hkept, fun h => ?_⟩
      rcases mem_append.mp h with h | h
      · exact hdropped h
      · exact hpruned h
    · exact .inr ⟨hterminal, hgone, mem_append_right _ hpruned⟩
  · rw [hhaving] at hupsert
    obtain ⟨hgone, -⟩ := prune_of_absent now hupsert
    exact .inr ⟨hterminal, hgone, mem_append_left _ hdropped⟩

theorem nodup_observe (operation : Operation) (now : Timestamp) (saved : Bool)
    (hnodup : (service.history.operations.map Operation.id).Nodup) :
    ((service.observe operation now saved).history.operations.map Operation.id).Nodup := by
  rw [observe_history]
  exact (nodup_upsert hnodup).sublist ((prune_sublist _ _).map _)

end Observe

/-- A job under its key: what it last handed to the observer is kept, and
is not terminal while the operation is not. -/
structure JobRecorded (service : Service) (id : Nat) (state : Scheduler.State) : Prop where
  life : Lifecycle state
  named : state.operation.id = id
  last : ∃ last, state.observed.getLast? = some last ∧ Kept service id last
    ∧ (state.operation.state.isTerminal = false → last.state.isTerminal = false)

/-- What the service has recorded of its operations, in every run. -/
structure Recorded (service : Service) : Prop where
  keys : ∀ id, id ∈ service.accepted ↔ (service.jobs id).isSome = true
  accepted : service.accepted.Nodup
  history : (service.history.operations.map Operation.id).Nodup
  file : ∀ operations ∈ service.history.file, (operations.map Operation.id).Nodup
  jobs : ∀ id job, service.jobs id = some job → JobRecorded service id job.state
  submitting : ∀ submitting ∈ service.submitting, service.jobs submitting.id = none
    ∧ JobRecorded service submitting.id submitting.job.state
    ∧ submitting.job.state.operation.state.isTerminal = false

theorem JobRecorded.of_eq (h : JobRecorded service id state)
    (hhistory : service'.history = service.history)
    (hdropped : service'.dropped = service.dropped) : JobRecorded service' id state := by
  obtain ⟨last, hlast, hkept, hlive⟩ := h.last
  exact ⟨h.life, h.named, last, hlast, hkept.of_eq hhistory hdropped, hlive⟩

theorem JobRecorded.observe (h : JobRecorded service id state) (operation : Operation)
    (now : Timestamp) (saved : Bool) (hnodup : (service.history.operations.map Operation.id).Nodup)
    (hid : operation.id ≠ id) : JobRecorded (service.observe operation now saved) id state := by
  obtain ⟨last, hlast, hkept, hlive⟩ := h.last
  exact ⟨h.life, h.named, last, hlast, hkept.observe hnodup hid, hlive⟩

theorem file_observe (h : Recorded service) (operation : Operation) (now : Timestamp)
    (saved : Bool) : ∀ operations ∈ (service.observe operation now saved).history.file,
      (operations.map Operation.id).Nodup := by
  intro operations hfile
  simp only [Service.observe, observe, pruneAndSave] at hfile
  split at hfile
  case isTrue =>
    cases hfile
    exact nodup_observe operation now saved h.history
  case isFalse => exact h.file operations hfile

theorem recorded_new {file : Option (List Operation)}
    (hfile : ((file.getD []).map Operation.id).Nodup) (now : Timestamp) (saved : Bool) :
    Recorded (Service.new file now saved) := by
  have hloaded : ((prune now ((file.getD []).map (interrupt now))).map Operation.id).Nodup := by
    refine List.Nodup.sublist ((prune_sublist _ _).map _) ?_
    rw [map_map]
    have hids : Operation.id ∘ interrupt now = Operation.id :=
      funext fun operation => interrupt_id now operation
    rwa [hids]
  refine ⟨fun id => ?_, nodup_nil, hloaded, fun operations hmem => ?_,
    fun _ _ hjob => (by cases hjob), fun _ hsubmitting => (by cases hsubmitting)⟩
  · simp [Service.new]
  · simp only [Service.new, load, pruneAndSave] at hmem
    split at hmem
    case isTrue =>
      cases hmem
      exact hloaded
    case isFalse =>
      rw [Option.mem_def] at hmem
      rw [hmem] at hfile
      exact hfile

-- ==== the job steps

theorem stepJob_cases (hlife : Lifecycle job.state)
    (h : service.stepJob id job a now saved = some service') :
    ∃ state, Scheduler.Outcome job.state a state ∧ Lifecycle state
      ∧ state.operation.id = job.state.operation.id
      ∧ ((state.observed = job.state.observed ∧ service' = { service with
            jobs := update service.jobs id (some { job with state := state }) })
        ∨ (state.observed = job.state.observed ++ [state.operation]
          ∧ service' = Service.observe { service with
              jobs := update service.jobs id (some { job with state := state }) }
            state.operation now saved)) := by
  unfold Service.stepJob at h
  cases hs : Scheduler.apply job.requiresConfirmation a job.state with
  | none => simp [hs] at h
  | some state =>
    have hstep := Scheduler.step_of_apply hs
    have houtcome := Scheduler.outcome_of_step hlife hstep
    refine ⟨state, houtcome, hlife.step hstep, Scheduler.id_of_step hlife hstep, ?_⟩
    have hnone : state.observed = job.state.observed →
        state.observed[job.state.observed.length]? = none := by
      intro heq
      rw [heq]
      exact List.getElem?_eq_none le_rfl
    simp only [hs] at h
    cases houtcome with
    | goes hstate hkept hobserved | untold hends hlive hterminal hobserved =>
      simp only [hnone hobserved, Option.some.injEq] at h
      exact .inl ⟨hobserved, h.symm⟩
    | handed hrunner hfailing hlive hterminal hobserved =>
      have hnew : state.observed[job.state.observed.length]? = some state.operation := by
        rw [hobserved]
        exact List.getElem?_concat_length ..
      simp only [hnew, Option.some.injEq] at h
      exact .inr ⟨hobserved, h.symm⟩

theorem live_of_handed (h : Scheduler.Outcome s a s')
    (hobserved : s'.observed = s.observed ++ [s'.operation]) :
    s.operation.state.isTerminal = false := by
  cases h with
  | goes _ _ hsame => simp [hsame] at hobserved
  | handed _ _ hlive _ _ | untold _ hlive _ _ => exact hlive

theorem live_of_live (h : Scheduler.Outcome s a s')
    (hlive : s'.operation.state.isTerminal = false) : s.operation.state.isTerminal = false := by
  cases h with
  | goes hstate _ _ => rw [← hstate]; exact hlive
  | handed _ _ hbefore _ _ | untold _ hbefore _ _ => exact hbefore

theorem Recorded.step_job (h : Recorded service) (hjob : service.jobs id = some job)
    (hs : service.stepJob id job a now saved = some service') : Recorded service' := by
  have hrecorded := h.jobs id job hjob
  obtain ⟨last, hlast, hkept, hlive⟩ := hrecorded.last
  obtain ⟨state, houtcome, hlife, hid, hcase⟩ := stepJob_cases hrecorded.life hs
  have hname : state.operation.id = id := hid.trans hrecorded.named
  have hkeys : ∀ id', id' ∈ service.accepted ↔
      (update service.jobs id (some { job with state := state }) id').isSome = true := by
    intro id'
    rw [h.keys, update_apply]
    split
    case isTrue heq => rw [heq, hjob]; rfl
    case isFalse => rfl
  have hother : ∀ submitting ∈ service.submitting, submitting.id ≠ id := by
    intro submitting hsubmitting heq
    have hnone := (h.submitting submitting hsubmitting).1
    rw [heq, hjob] at hnone
    cases hnone
  rcases hcase with ⟨hobserved, rfl⟩ | ⟨hobserved, rfl⟩
  · -- nothing is handed over: the history stays
    refine ⟨hkeys, h.accepted, h.history, h.file, fun id' job' hjob' => ?_,
      fun submitting hsubmitting => ?_⟩
    · simp only [update_apply] at hjob'
      split at hjob'
      case isTrue heq =>
        cases hjob'
        subst heq
        refine ⟨hlife, hname, last, by rw [hobserved]; exact hlast, hkept, fun hgoes => ?_⟩
        exact hlive (live_of_live houtcome hgoes)
      case isFalse => exact (h.jobs id' job' hjob').of_eq rfl rfl
    · obtain ⟨hnone, hsubmitted, hgoes⟩ := h.submitting submitting hsubmitting
      refine ⟨?_, hsubmitted.of_eq rfl rfl, hgoes⟩
      simp only [update_of_ne (hother submitting hsubmitting)]
      exact hnone
  · -- the failed operation is in the history now
    have hundropped : id ∉ service.dropped := by
      rcases hkept with ⟨-, hdropped⟩ | ⟨hterminal, -, -⟩
      · exact hdropped
      · rw [hlive (live_of_handed houtcome hobserved)] at hterminal
        cases hterminal
    have hnodup := h.history
    refine ⟨hkeys, h.accepted, nodup_observe state.operation now saved hnodup,
      file_observe h state.operation now saved, fun id' job' hjob' => ?_,
      fun submitting hsubmitting => ?_⟩
    · simp only [Service.observe, update_apply] at hjob'
      split at hjob'
      case isTrue heq =>
        cases hjob'
        subst heq
        refine ⟨hlife, hname, state.operation, by rw [hobserved]; exact List.getLast?_concat,
          kept_of_observe hnodup hname hundropped, fun hgoes => hgoes⟩
      case isFalse hne =>
        have hnew := (h.jobs id' job' hjob').observe state.operation now saved hnodup
          (by rw [hname]; exact Ne.symm hne)
        exact hnew.of_eq rfl rfl
    · obtain ⟨hnone, hsubmitted, hgoes⟩ := h.submitting submitting hsubmitting
      have hne := hother submitting hsubmitting
      have hnew := hsubmitted.observe state.operation now saved hnodup
        (by rw [hname]; exact Ne.symm hne)
      refine ⟨?_, hnew.of_eq rfl rfl, hgoes⟩
      simp only [Service.observe, update_of_ne hne]
      exact hnone

-- ==== the other steps

theorem start_cases (hs : service.start request idempotencyKey planned now saved = some service') :
    service' = service ∨ ∃ requiresConfirmation, service.fresh request.id = true
      ∧ service' = { service.observe (startOperation request now).operation now saved with
          submitting := some
            { idempotencyKey := idempotencyKey, id := request.id
              job := ⟨requiresConfirmation, startOperation request now⟩ } } := by
  unfold Service.start at hs
  split at hs
  case h_1 => cases hs
  case h_2 =>
    split at hs
    case h_1 => cases hs; exact .inl rfl
    case h_2 => cases hs; exact .inl rfl
    case h_3 requiresConfirmation _ =>
      split at hs
      case isFalse => cases hs
      case isTrue hfresh =>
        cases hs
        exact .inr ⟨requiresConfirmation, hfresh, rfl⟩

theorem insert_cases (hs : service.insert = some service') :
    ∃ submitting, service.submitting = some submitting
      ∧ service'.jobs = update service.jobs submitting.id (some submitting.job)
      ∧ service'.accepted = service.accepted ++ [submitting.id]
      ∧ service'.history = service.history ∧ service'.submitting = none
      ∧ service'.calls = service.calls ∧ service'.dropped = service.dropped := by
  unfold Service.insert at hs
  split at hs
  case h_1 => cases hs
  case h_2 submitting hsubmitting =>
    cases hs
    exact ⟨submitting, hsubmitting, rfl, rfl, rfl, rfl, rfl, rfl⟩

theorem Recorded.step_start (h : Recorded service)
    (hs : service.start request idempotencyKey planned now saved = some service') :
    Recorded service' := by
  rcases start_cases hs with rfl | ⟨requiresConfirmation, hfresh, rfl⟩
  · exact h
  · simp only [Service.fresh, Bool.and_eq_true, decide_eq_true_eq] at hfresh
    obtain ⟨⟨haccepted, hdropped⟩, -⟩ := hfresh
    have hhistory := nodup_observe (startOperation request now).operation now saved
      h.history
    have hfile := file_observe h (startOperation request now).operation now saved
    have hkept : Kept (service.observe (startOperation request now).operation now saved)
        request.id (startOperation request now).operation :=
      kept_of_observe h.history rfl hdropped
    refine ⟨h.keys, h.accepted, hhistory, hfile, fun id job hjob => ?_,
      fun submitting hsubmitting => ?_⟩
    · have hmem : id ∈ service.accepted := (h.keys id).mpr (by
        rw [show service.jobs id = some job from hjob]
        rfl)
      have hne : request.id ≠ id := fun heq => haccepted (heq ▸ hmem)
      exact ((h.jobs id job hjob).observe _ now saved h.history hne).of_eq rfl rfl
    · cases hsubmitting
      refine ⟨?_, ⟨Lifecycle.start request now, rfl, _, rfl, ?_, fun _ => rfl⟩, rfl⟩
      · exact Option.not_isSome_iff_eq_none.mp fun hsome => haccepted ((h.keys _).mpr hsome)
      · exact hkept.of_eq rfl rfl

theorem Recorded.step_insert (h : Recorded service) (hs : service.insert = some service') :
    Recorded service' := by
  obtain ⟨submitting, hsubmitting, hjobs, haccepted, hhistory, hnone', -, hdropped⟩ :=
    insert_cases hs
  obtain ⟨hnone, hrecorded, -⟩ := h.submitting submitting hsubmitting
  refine ⟨fun id => ?_, ?_, hhistory ▸ h.history, hhistory ▸ h.file, fun id job hjob => ?_,
    fun other hother => ?_⟩
  · rw [hjobs, haccepted, mem_append, mem_singleton, update_apply, h.keys]
    split
    case isTrue heq => simp [heq]
    case isFalse hne => simp [hne]
  · rw [haccepted]
    refine List.Nodup.append h.accepted (nodup_singleton _) ?_
    rw [disjoint_singleton, h.keys, hnone]
    exact Bool.false_ne_true
  · rw [hjobs, update_apply] at hjob
    split at hjob
    case isTrue heq =>
      cases hjob
      subst heq
      exact hrecorded.of_eq hhistory hdropped
    case isFalse => exact (h.jobs id job hjob).of_eq hhistory hdropped
  · rw [hnone'] at hother
    cases hother

theorem Recorded.step_calls (h : Recorded service) (calls : List ListCall) :
    Recorded { service with calls := calls } :=
  ⟨h.keys, h.accepted, h.history, h.file, fun id job hjob => (h.jobs id job hjob).of_eq rfl rfl,
    fun submitting hsubmitting =>
      have hrest := h.submitting submitting hsubmitting
      ⟨hrest.1, hrest.2.1.of_eq rfl rfl, hrest.2.2⟩⟩

theorem calls_of_readJob (hs : service.readJob i call id = some service') :
    ∃ todo seen job, call.phase = .reading todo seen ∧ id ∈ todo ∧ service.jobs id = some job
      ∧ service' = { service with calls := service.calls.set i { call with
          phase := .reading (todo.erase id) (seen ++ [job.state.operation]) } } := by
  unfold Service.readJob at hs
  split at hs
  case h_2 => cases hs
  case h_1 todo seen job hphase hjob =>
    split at hs
    case isFalse => cases hs
    case isTrue hmem =>
      cases hs
      exact ⟨todo, seen, job, hphase, hmem, hjob, rfl⟩

theorem calls_of_readHistory (hs : service.readHistory i call = some service') :
    ∃ seen, call.phase = .reading [] seen
      ∧ service' = { service with calls := service.calls.set i { call with
          phase := .returned (joinOperations seen service.history) } } := by
  unfold Service.readHistory at hs
  split at hs
  case h_2 => cases hs
  case h_1 seen hphase =>
    cases hs
    exact ⟨seen, hphase, rfl⟩

theorem Recorded.step (h : Recorded service) {a : Action} (hs : apply a service = some service') :
    Recorded service' := by
  cases a with
  | start request idempotencyKey planned now saved => exact h.step_start hs
  | insert => exact h.step_insert hs
  | job id a now saved =>
    obtain ⟨job, hjob, hstep⟩ := Option.bind_eq_some_iff.mp hs
    exact h.step_job hjob hstep
  | beginList =>
    cases hs
    exact h.step_calls _
  | readJob i id =>
    obtain ⟨call, -, hstep⟩ := Option.bind_eq_some_iff.mp hs
    obtain ⟨todo, seen, job, -, -, -, rfl⟩ := calls_of_readJob hstep
    exact h.step_calls _
  | readHistory i =>
    obtain ⟨call, -, hstep⟩ := Option.bind_eq_some_iff.mp hs
    obtain ⟨seen, -, rfl⟩ := calls_of_readHistory hstep
    exact h.step_calls _

end OperationService

end FileManager
