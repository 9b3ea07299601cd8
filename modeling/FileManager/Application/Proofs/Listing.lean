/-
What `list_operations` and `get_operation` tell of an accepted
operation.

The list takes from the scheduler what is not terminal and from the
history what is, so an operation that ends has to be in the history by
then. It is, with its last snapshot, when `fail_job` ends it; the other
ends hand nothing over, and the operation is in neither. A call of
`list_operations` looks at the history after the jobs: an operation that
fails between the two looks is in both (`HandsOver`).
-/
import FileManager.Application.Proofs.Records

namespace FileManager.OperationService

open Machine (Run Free)
open Scheduler (EndsObserved Lifecycle runnerStep itemScript)
open List Service
open Keyed (having mem_having)
open Option (bind_eq_some_iff)
open Function (update update_self update_of_ne update_apply)

-- ==== vocabulary

variable {service service' : Service} {id : Nat} {last operation : Operation}
  {seen : List Operation} {job : Job} {a : Scheduler.Action} {now : Timestamp} {call : ListCall}
  {todo : List Nat} {saved : Bool}

/-- What a list has of one operation. -/
def entriesOf (id : Nat) (dtos : List OperationDto) : List Operation :=
  having Operation.id id (dtos.map OperationDto.operation)

/-- A call of `list_operations` has returned an accepted operation once, as
it was or as it ended, unless the retention rule has dropped it. -/
def Returned (service : Service) (dtos : List OperationDto) (id : Nat) : Prop :=
  (∃ operation, entriesOf id dtos = [operation] ∧ (operation.state.isTerminal = true →
        ∀ job ∈ service.jobs id, job.state.operation = operation))
    ∨ (id ∈ service.dropped ∧ entriesOf id dtos = [])

/-- Every accepted operation is listed once: as its job has it while it is
not terminal, and from the history afterwards, unless the retention rule
has dropped it. `get_operation` finds those that are listed and those that
have a job, in the same state. Calls that had others come in between have
returned no less. -/
structure Complete (service : Service) : Prop where
  active : ∀ id job, service.jobs id = some job → job.state.operation.state.isTerminal = false →
    entriesOf id service.listOperations = [job.state.operation]
  ended : ∀ id job, service.jobs id = some job → job.state.operation.state.isTerminal = true →
    (entriesOf id service.listOperations = [job.state.operation]
        ∧ job.state.operation ∈ service.history.list)
      ∨ (id ∈ service.dropped ∧ entriesOf id service.listOperations = [])
  found : ∀ id, (service.getOperation id).isOk = true ↔
    (∃ dto ∈ service.listOperations, dto.operation.id = id) ∨ (service.jobs id).isSome = true
  same : ∀ dto ∈ service.listOperations, ∃ dto', service.getOperation dto.operation.id = .ok dto'
      ∧ dto'.operation.state = dto.operation.state
  returned : ∀ call ∈ service.calls, ∀ dtos, call.phase = .returned dtos →
    ∀ id ∈ call.accepted, Returned service dtos id

/-- The step of a job does not end it as `run_job` and `finish_cancelled`
do; and `fail_job` ends no operation that a call of `list_operations` has
seen active, and not yet looked for in the history. -/
def HandsOver (service : Service) : Action → Prop
  | .job id a _ _ => ∀ job ∈ service.jobs id, EndsObserved job.state a
      ∧ (a.isRunner = true → job.state.runner.isFailing = true →
        ∀ call ∈ service.calls, id ∉ call.active)
  | _ => True

-- ==== the lists

theorem operations_join (seen : List Operation) (history : OperationHistory) :
    ((joinOperations seen history).map OperationDto.operation).Perm
      (seen.filter (fun operation => !operation.state.isTerminal) ++ history.list) := by
  unfold joinOperations newestFirst
  refine ((perm_insertionSort _ _).map _).trans ?_
  rw [map_append, map_map, map_map]
  have hdto : ∀ (positions : Operation → Option Nat) (operations : List Operation),
      operations.map (OperationDto.operation ∘ fun operation =>
        operationDto operation (positions operation)) = operations :=
    fun positions operations => map_id _
  rw [hdto (fun operation => queuePosition _ operation.id), hdto (fun _ => none)]
  exact ((perm_insertionSort _ _).filter _).append_right _

theorem entriesOf_join (id : Nat) (seen : List Operation) (history : OperationHistory) :
    (entriesOf id (joinOperations seen history)).Perm
      ((having Operation.id id seen).filter (fun operation => !operation.state.isTerminal)
        ++ (having Operation.id id history.operations).filter
          fun operation => operation.state.isTerminal) := by
  refine ((operations_join seen history).filter _).trans ?_
  rw [filter_append]
  unfold having OperationHistory.list
  simp only [filter_filter, Bool.and_comm]
  exact List.Perm.refl _

theorem entries_of_live (hseen : having Operation.id id seen = [operation])
    (hlive : operation.state.isTerminal = false) (hkept : Kept service id last)
    (hlast : last.state.isTerminal = false) :
    entriesOf id (joinOperations seen service.history) = [operation] := by
  have hjoin := entriesOf_join id seen service.history
  rcases hkept with ⟨hhaving, -⟩ | ⟨hterminal, -, -⟩
  · rw [hseen, hhaving] at hjoin
    simp only [filter_cons, hlive, hlast, filter_nil, Bool.not_false, if_true,
      Bool.false_eq_true, if_false, append_nil] at hjoin
    exact perm_singleton.mp hjoin
  · simp [hlast] at hterminal

theorem entries_of_terminal (hseen : having Operation.id id seen = [operation])
    (hterminal : operation.state.isTerminal = true) (hkept : Kept service id last)
    (hlast : last.state.isTerminal = true) :
    (entriesOf id (joinOperations seen service.history) = [last] ∧ last ∈ service.history.list)
      ∨ (id ∈ service.dropped ∧ entriesOf id (joinOperations seen service.history) = []) := by
  have hjoin := entriesOf_join id seen service.history
  rcases hkept with ⟨hhaving, -⟩ | ⟨-, hhaving, hdropped⟩
  · have hmem : last ∈ having Operation.id id service.history.operations := by
      rw [hhaving]
      exact mem_singleton_self last
    rw [hseen, hhaving] at hjoin
    simp only [filter_cons, hterminal, hlast, filter_nil, Bool.not_true, if_true,
      Bool.false_eq_true, if_false, nil_append] at hjoin
    exact .inl ⟨perm_singleton.mp hjoin, mem_filter.mpr ⟨(mem_having.mp hmem).1, hlast⟩⟩
  · rw [hseen, hhaving] at hjoin
    simp only [filter_cons, hterminal, filter_nil, Bool.not_true, Bool.false_eq_true,
      if_false, append_nil] at hjoin
    exact .inr ⟨hdropped, perm_nil.mp hjoin⟩

-- ==== what is told

/-- An operation that is over was handed over as it is. -/
def Told (service : Service) : Prop :=
  ∀ id job, service.jobs id = some job → job.state.operation.state.isTerminal = true →
    job.state.observed.getLast? = some job.state.operation

/-- The jobs after a step: none is gone, what is over stays as it is, and
none that a list has seen active has ended. -/
structure Advances (service service' : Service) : Prop where
  accepted : ∀ id ∈ service.accepted, id ∈ service'.accepted
  dropped : ∀ id ∈ service.dropped, id ∈ service'.dropped
  jobs : ∀ id job, service.jobs id = some job → ∃ job', service'.jobs id = some job'
    ∧ (job.state.operation.state.isTerminal = true → job'.state.operation = job.state.operation)
    ∧ ((∃ call ∈ service.calls, id ∈ call.active) →
      job'.state.operation.state.isTerminal = job.state.operation.state.isTerminal)

theorem Advances.of_jobs (haccepted : ∀ id ∈ service.accepted, id ∈ service'.accepted)
    (hdropped : ∀ id ∈ service.dropped, id ∈ service'.dropped)
    (hjobs : ∀ id job, service.jobs id = some job → service'.jobs id = some job) :
    Advances service service' :=
  ⟨haccepted, hdropped, fun id job hjob => ⟨job, hjobs id job hjob, fun _ => rfl, fun _ => rfl⟩⟩

theorem advances_of_stepJob (h : Recorded service)
    (hjob : service.jobs id = some job) (hok : HandsOver service (.job id a now saved))
    (hs : service.stepJob id job a now saved = some service') : Advances service service' := by
  obtain ⟨state, houtcome, -, -, hcase⟩ := stepJob_cases (h.jobs id job hjob).life hs
  obtain ⟨hobserves, hunseen⟩ := hok job hjob
  have hjobs : service'.jobs
      = update service.jobs id (some { job with state := state }) := by
    rcases hcase with ⟨-, rfl⟩ | ⟨-, rfl⟩ <;> rfl
  refine ⟨?_, ?_, fun id' job' hjob' => ?_⟩
  · rcases hcase with ⟨-, rfl⟩ | ⟨-, rfl⟩ <;> exact fun _ hmem => hmem
  · rcases hcase with ⟨-, rfl⟩ | ⟨-, rfl⟩
    · exact fun _ hmem => hmem
    · exact fun _ hmem => mem_append_left _ hmem
  · rw [hjobs]
    by_cases heq : id' = id
    · subst heq
      obtain rfl : job = job' := Option.some.inj (hjob.symm.trans hjob')
      refine ⟨_, update_self .., ?_⟩
      cases houtcome with
      | goes hstate hkept hobserved => exact ⟨hkept, fun _ => hstate⟩
      | handed hrunner hfailing hlive hterminal hobserved =>
        refine ⟨fun hover => ?_, fun ⟨call, hcall, hactive⟩ => ?_⟩
        · simp [hlive] at hover
        · exact absurd hactive (hunseen hrunner hfailing call hcall)
      | untold hends hlive hterminal hobserved => exact absurd hobserves hends
    · exact ⟨job', by rw [update_of_ne heq]; exact hjob', fun _ => rfl, fun _ => rfl⟩

theorem advances_of_apply (h : Recorded service) {a : Action} (hok : HandsOver service a)
    (hs : apply a service = some service') : Advances service service' := by
  cases a with
  | start request idempotencyKey planned now saved =>
    rcases start_cases hs with rfl | ⟨_, -, rfl⟩
    · exact .of_jobs (fun _ h => h) (fun _ h => h) fun _ _ h => h
    · exact .of_jobs (fun _ h => h) (fun _ h => mem_append_left _ h) fun _ _ h => h
  | insert =>
    obtain ⟨submitting, hsubmitting, hjobs, haccepted, -, -, -, hdropped⟩ := insert_cases hs
    refine .of_jobs (fun _ hmem => ?_) (fun _ hmem => ?_) fun id job hjob => ?_
    · rw [haccepted]
      exact mem_append_left _ hmem
    · rw [hdropped]
      exact hmem
    · have hne : id ≠ submitting.id := by
        rintro rfl
        rw [(h.submitting submitting hsubmitting).1] at hjob
        cases hjob
      rw [hjobs, update_of_ne hne]
      exact hjob
  | job id a now saved =>
    obtain ⟨job, hjob, hstep⟩ := bind_eq_some_iff.mp hs
    exact advances_of_stepJob h hjob hok hstep
  | beginList =>
    cases hs
    exact .of_jobs (fun _ h => h) (fun _ h => h) fun _ _ h => h
  | readJob i id =>
    obtain ⟨call, -, hstep⟩ := bind_eq_some_iff.mp hs
    obtain ⟨todo, seen, job, -, -, -, rfl⟩ := calls_of_readJob hstep
    exact .of_jobs (fun _ h => h) (fun _ h => h) fun _ _ h => h
  | readHistory i =>
    obtain ⟨call, -, hstep⟩ := bind_eq_some_iff.mp hs
    obtain ⟨seen, -, rfl⟩ := calls_of_readHistory hstep
    exact .of_jobs (fun _ h => h) (fun _ h => h) fun _ _ h => h

theorem Told.step (htold : Told service) (h : Recorded service) {a : Action}
    (hok : HandsOver service a) (hs : apply a service = some service') : Told service' := by
  cases a with
  | start request idempotencyKey planned now saved =>
    rcases start_cases hs with rfl | ⟨_, -, rfl⟩ <;> exact htold
  | insert =>
    obtain ⟨submitting, hsubmitting, hjobs, -⟩ := insert_cases hs
    intro id job hjob hterminal
    rw [hjobs, update_apply] at hjob
    split at hjob
    case isTrue =>
      cases hjob
      rw [(h.submitting submitting hsubmitting).2.2] at hterminal
      cases hterminal
    case isFalse => exact htold id job hjob hterminal
  | job id a now saved =>
    obtain ⟨job, hjob, hstep⟩ := bind_eq_some_iff.mp hs
    obtain ⟨state, houtcome, -, -, hcase⟩ := stepJob_cases (h.jobs id job hjob).life hstep
    have hjobs : service'.jobs
        = update service.jobs id (some { job with state := state }) := by
      rcases hcase with ⟨-, rfl⟩ | ⟨-, rfl⟩ <;> rfl
    intro id' job' hjob' hterminal
    rw [hjobs, update_apply] at hjob'
    split at hjob'
    case isFalse => exact htold id' job' hjob' hterminal
    case isTrue =>
      cases hjob'
      cases houtcome with
      | goes hstate hkept hobserved =>
        have hover := hstate.symm.trans hterminal
        show state.observed.getLast? = some state.operation
        rw [hobserved, hkept hover]
        exact htold id job hjob hover
      | handed hrunner hfailing hlive _ hobserved =>
        show state.observed.getLast? = some state.operation
        rw [hobserved]
        exact List.getLast?_concat
      | untold hends hlive _ hobserved => exact absurd (hok job hjob).1 hends
  | beginList => cases hs; exact htold
  | readJob i id =>
    obtain ⟨call, -, hstep⟩ := bind_eq_some_iff.mp hs
    obtain ⟨todo, seen, job, -, -, -, rfl⟩ := calls_of_readJob hstep
    exact htold
  | readHistory i =>
    obtain ⟨call, -, hstep⟩ := bind_eq_some_iff.mp hs
    obtain ⟨seen, -, rfl⟩ := calls_of_readHistory hstep
    exact htold

theorem kept_of_told (h : Recorded service) (htold : Told service)
    (hjob : service.jobs id = some job) (hterminal : job.state.operation.state.isTerminal = true) :
    Kept service id job.state.operation := by
  obtain ⟨last, hlast, hkept, -⟩ := (h.jobs id job hjob).last
  rw [htold id job hjob hterminal] at hlast
  cases hlast
  exact hkept

-- ==== calls in flight

/-- A call of `list_operations`: what it has looked at it has seen once, and
what it has seen active is active. -/
structure CallSound (service : Service) (call : ListCall) : Prop where
  accepted : ∀ id ∈ call.accepted, id ∈ service.accepted
  reading : ∀ todo seen, call.phase = .reading todo seen → todo.Nodup ∧ ∀ id ∈ call.accepted,
    (id ∈ todo ∧ having Operation.id id seen = [])
      ∨ (id ∉ todo ∧ ∃ operation job, having Operation.id id seen = [operation]
        ∧ service.jobs id = some job
        ∧ operation.state.isTerminal = job.state.operation.state.isTerminal)
  returned : ∀ dtos, call.phase = .returned dtos → ∀ id ∈ call.accepted, Returned service dtos id

theorem mem_active (hphase : call.phase = .reading todo seen)
    (hseen : having Operation.id id seen = [operation])
    (hlive : operation.state.isTerminal = false) : id ∈ call.active := by
  have hmem : operation ∈ having Operation.id id seen := by
    rw [hseen]
    exact mem_singleton_self operation
  obtain ⟨hmem, hid⟩ := mem_having.mp hmem
  unfold ListCall.active
  rw [hphase]
  exact mem_map.mpr ⟨operation, mem_filter.mpr ⟨hmem, by rw [hlive]; rfl⟩, hid⟩

theorem CallSound.advance (h : Recorded service) (hsound : CallSound service call)
    (hcall : call ∈ service.calls) (hadvances : Advances service service') :
    CallSound service' call := by
  refine ⟨fun id hid => hadvances.accepted id (hsound.accepted id hid),
    fun todo seen hphase => ?_, fun dtos hphase id hid => ?_⟩
  · obtain ⟨hnodup, hids⟩ := hsound.reading todo seen hphase
    refine ⟨hnodup, fun id hid => ?_⟩
    rcases hids id hid with hleft | ⟨htodo, operation, job, hseen, hjob, hstate⟩
    · exact .inl hleft
    · obtain ⟨job', hjob', hkept, hgoes⟩ := hadvances.jobs id job hjob
      refine .inr ⟨htodo, operation, job', hseen, hjob', ?_⟩
      cases hterminal : operation.state.isTerminal with
      | true => rw [hkept (hstate.symm.trans hterminal), ← hstate, hterminal]
      | false =>
        rw [hgoes ⟨call, hcall, mem_active hphase hseen hterminal⟩, ← hstate, hterminal]
  · rcases hsound.returned dtos hphase id hid with
      ⟨operation, hentries, hover⟩ | ⟨hdropped, hentries⟩
    · refine .inl ⟨operation, hentries, fun hterminal job' hjob' => ?_⟩
      obtain ⟨job, hjob⟩ := Option.isSome_iff_exists.mp ((h.keys id).mp (hsound.accepted id hid))
      have hsame := hover hterminal job hjob
      obtain ⟨job'', hjob'', hkept, -⟩ := hadvances.jobs id job hjob
      obtain rfl : job' = job'' := Option.some.inj (hjob'.symm.trans hjob'')
      rw [hkept (by rw [hsame]; exact hterminal), hsame]
    · exact .inr ⟨hadvances.dropped id hdropped, hentries⟩

theorem callSound_begin (h : Recorded service) (calls : List ListCall) :
    CallSound { service with calls := calls }
      { accepted := service.accepted, phase := .reading service.accepted [] } := by
  refine ⟨fun _ hid => hid, fun todo seen hphase => ?_, fun dtos hphase => ?_⟩
  · cases hphase
    exact ⟨h.accepted, fun id hid => .inl ⟨hid, rfl⟩⟩
  · cases hphase

theorem CallSound.read (h : Recorded service) (hsound : CallSound service call)
    (hphase : call.phase = .reading todo seen) (hmem : id ∈ todo)
    (hjob : service.jobs id = some job) (calls : List ListCall) :
    CallSound { service with calls := calls }
      { call with phase := .reading (todo.erase id) (seen ++ [job.state.operation]) } := by
  obtain ⟨hnodup, hids⟩ := hsound.reading todo seen hphase
  have hname := (h.jobs id job hjob).named
  refine ⟨hsound.accepted, fun todo' seen' hphase' => ?_, fun dtos hphase' => (by cases hphase')⟩
  cases hphase'
  refine ⟨hnodup.erase id, fun id' hid' => ?_⟩
  unfold having
  rw [filter_append]
  rcases hids id' hid' with ⟨htodo, hseen⟩ | ⟨htodo, operation, job', hseen, hjob', hstate⟩
  · unfold having at hseen
    by_cases heq : id' = id
    · subst heq
      refine .inr ⟨fun hleft => (hnodup.mem_erase_iff.mp hleft).1 rfl, job.state.operation, job, ?_,
        hjob, rfl⟩
      rw [hseen]
      simp [hname]
    · refine .inl ⟨(mem_erase_of_ne heq).mpr htodo, ?_⟩
      rw [hseen]
      simp [hname, Ne.symm heq]
  · unfold having at hseen
    have hne : id ≠ id' := by
      rintro rfl
      exact htodo hmem
    refine .inr ⟨fun hleft => htodo (mem_of_mem_erase hleft), operation, job', ?_, hjob', hstate⟩
    rw [hseen]
    simp [hname, hne]

theorem CallSound.return (h : Recorded service) (htold : Told service)
    (hsound : CallSound service call) (hphase : call.phase = .reading [] seen)
    (calls : List ListCall) :
    CallSound { service with calls := calls }
      { call with phase := .returned (joinOperations seen service.history) } := by
  refine ⟨hsound.accepted, fun todo' seen' hphase' => (by cases hphase'),
    fun dtos hphase' id hid => ?_⟩
  cases hphase'
  rcases (hsound.reading [] seen hphase).2 id hid with
    ⟨htodo, -⟩ | ⟨-, operation, job, hseen, hjob, hstate⟩
  · cases htodo
  · cases hterminal : operation.state.isTerminal with
    | true =>
      have hover := hstate.symm.trans hterminal
      have hkept := kept_of_told h htold hjob hover
      rcases entries_of_terminal hseen hterminal hkept hover with ⟨hentries, -⟩ | hdropped
      · refine .inl ⟨job.state.operation, hentries, fun _ job' hjob' => ?_⟩
        obtain rfl : job = job' := Option.some.inj (hjob.symm.trans hjob')
        rfl
      · exact .inr hdropped
    | false =>
      obtain ⟨last, -, hkept, hlive⟩ := (h.jobs id job hjob).last
      have hentries := entries_of_live hseen hterminal hkept (hlive (hstate.symm.trans hterminal))
      refine .inl ⟨operation, hentries, fun hover => ?_⟩
      simp [hterminal] at hover

theorem calls_step (h : Recorded service) (htold : Told service) {a : Action}
    (hcalls : ∀ call ∈ service.calls, CallSound service call) (hok : HandsOver service a)
    (hs : apply a service = some service') : ∀ call ∈ service'.calls, CallSound service' call := by
  have hadvances := advances_of_apply h hok hs
  have hsame : service'.calls = service.calls →
      ∀ call ∈ service'.calls, CallSound service' call := by
    intro heq call hcall
    rw [heq] at hcall
    exact (hcalls call hcall).advance h hcall hadvances
  cases a with
  | start request idempotencyKey planned now saved =>
    rcases start_cases hs with rfl | ⟨_, -, rfl⟩ <;> exact hsame rfl
  | insert =>
    obtain ⟨submitting, -, -, -, -, -, heq, -⟩ := insert_cases hs
    exact hsame heq
  | job id a now saved =>
    obtain ⟨job, hjob, hstep⟩ := bind_eq_some_iff.mp hs
    obtain ⟨state, -, -, -, hcase⟩ := stepJob_cases (h.jobs id job hjob).life hstep
    refine hsame ?_
    rcases hcase with ⟨-, rfl⟩ | ⟨-, rfl⟩ <;> rfl
  | beginList =>
    cases hs
    intro call hcall
    rcases mem_append.mp hcall with hcall | hcall
    · exact (hcalls call hcall).advance h hcall hadvances
    · obtain rfl := mem_singleton.mp hcall
      exact callSound_begin h _
  | readJob i id =>
    obtain ⟨call, hat, hstep⟩ := bind_eq_some_iff.mp hs
    obtain ⟨todo, seen, job, hphase, hmem, hjob, rfl⟩ := calls_of_readJob hstep
    intro other hother
    rcases mem_or_eq_of_mem_set hother with hold | rfl
    · exact (hcalls other hold).advance h hold hadvances
    · exact (hcalls call (mem_of_getElem? hat)).read h hphase hmem hjob _
  | readHistory i =>
    obtain ⟨call, hat, hstep⟩ := bind_eq_some_iff.mp hs
    obtain ⟨seen, hphase, rfl⟩ := calls_of_readHistory hstep
    intro other hother
    rcases mem_or_eq_of_mem_set hother with hold | rfl
    · exact (hcalls other hold).advance h hold hadvances
    · exact (hcalls call (mem_of_getElem? hat)).return h htold hphase _

-- ==== everything

theorem having_snapshots (h : Recorded service) (hjob : service.jobs id = some job) :
    having Operation.id id service.snapshots = [job.state.operation] := by
  have hids : service.snapshots.map Operation.id = service.accepted := by
    unfold snapshots
    have hall := h.keys
    have hnames := h.jobs
    generalize service.accepted = accepted at hall ⊢
    have hsome : ∀ id ∈ accepted, (service.jobs id).isSome = true := fun id => (hall id).mp
    clear hall
    induction accepted with
    | nil => rfl
    | cons head rest ih =>
      obtain ⟨job', hjob'⟩ := Option.isSome_iff_exists.mp (hsome head mem_cons_self)
      rw [filterMap_cons_some (by rw [hjob']; rfl), map_cons,
        (hnames head job' hjob').named, ih fun id hid => hsome id (mem_cons_of_mem _ hid)]
  have hmem : job.state.operation ∈ service.snapshots :=
    mem_filterMap.mpr ⟨id, (h.keys id).mpr (by rw [hjob]; rfl), by rw [hjob]; rfl⟩
  have hname := (h.jobs id job hjob).named
  subst hname
  exact Keyed.having_eq_singleton (by rw [hids]; exact h.accepted) hmem

theorem mem_snapshots (h : Recorded service) (hmem : operation ∈ service.snapshots) :
    ∃ job, service.jobs operation.id = some job ∧ job.state.operation = operation := by
  obtain ⟨id, -, hmap⟩ := mem_filterMap.mp hmem
  obtain ⟨job, hjob, rfl⟩ := Option.map_eq_some_iff.mp hmap
  have hname := (h.jobs id job hjob).named
  exact ⟨job, by rw [hname]; exact hjob, rfl⟩

theorem mem_listOperations :
    (∃ dto ∈ service.listOperations, dto.operation = operation) ↔
      (operation ∈ service.snapshots ∧ operation.state.isTerminal = false)
        ∨ operation ∈ service.history.list := by
  have hjoin := (operations_join service.snapshots service.history).mem_iff (a := operation)
  rw [mem_map, mem_append, mem_filter, Bool.not_eq_true'] at hjoin
  exact hjoin

theorem historyGet_of_mem (h : Recorded service) (hmem : operation ∈ service.history.list) :
    historyGet service.history operation.id = some (operationDto operation none) := by
  obtain ⟨hmem, hterminal⟩ := mem_filter.mp hmem
  unfold historyGet
  cases hfind : service.history.operations.find? (fun o =>
      decide (o.id = operation.id ∧ o.state.isTerminal = true)) with
  | none =>
    have hnone := List.find?_eq_none.mp hfind operation hmem
    simp [hterminal] at hnone
  | some found =>
    have hfound := List.find?_some hfind
    rw [decide_eq_true_eq] at hfound
    rw [Keyed.functional_of_nodup h.history found (mem_of_find?_eq_some hfind) operation hmem
      hfound.1]
    rfl

theorem mem_list_of_historyGet {dto : OperationDto} (h : historyGet service.history id = some dto) :
    dto.operation ∈ service.history.list ∧ dto.operation.id = id := by
  obtain ⟨operation, hfind, rfl⟩ := Option.map_eq_some_iff.mp h
  have hfound := List.find?_some hfind
  rw [decide_eq_true_eq] at hfound
  exact ⟨mem_filter.mpr ⟨mem_of_find?_eq_some hfind, hfound.2⟩, hfound.1⟩

theorem operation_of_history (h : Recorded service) (htold : Told service)
    (hmem : operation ∈ service.history.list)
    (hjob : service.jobs operation.id = some job) : job.state.operation = operation := by
  obtain ⟨hmem, hterminal⟩ := mem_filter.mp hmem
  obtain ⟨last, hlast, hkept, hlive⟩ := (h.jobs operation.id job hjob).last
  have hhaving : operation ∈ having Operation.id operation.id service.history.operations :=
    mem_having.mpr ⟨hmem, rfl⟩
  rcases hkept with ⟨hsingle, -⟩ | ⟨-, hnone, -⟩
  · rw [hsingle] at hhaving
    obtain rfl := mem_singleton.mp hhaving
    cases hover : job.state.operation.state.isTerminal with
    | false =>
      rw [hlive hover] at hterminal
      cases hterminal
    | true =>
      rw [htold operation.id job hjob hover] at hlast
      exact Option.some.inj hlast
  · simp [hnone] at hhaving

theorem complete_of_recorded (h : Recorded service) (htold : Told service)
    (hcalls : ∀ call ∈ service.calls, CallSound service call) : Complete service where
  active id job hjob hlive := by
    obtain ⟨last, -, hkept, hgoes⟩ := (h.jobs id job hjob).last
    exact entries_of_live (having_snapshots h hjob) hlive hkept (hgoes hlive)
  ended id job hjob hterminal :=
    entries_of_terminal (having_snapshots h hjob) hterminal (kept_of_told h htold hjob hterminal)
      hterminal
  found id := by
    constructor
    · intro hok
      unfold getOperation at hok
      split at hok
      case h_1 job hjob => exact .inr (by rw [hjob]; rfl)
      case h_2 hjob =>
        split at hok
        case h_2 => cases hok
        case h_1 dto hget =>
          obtain ⟨hmem, hid⟩ := mem_list_of_historyGet hget
          obtain ⟨listed, hlisted, heq⟩ := mem_listOperations.mpr (.inr hmem)
          exact .inl ⟨listed, hlisted, by rw [heq]; exact hid⟩
    · intro hcase
      unfold getOperation
      cases hjob : service.jobs id with
      | some job => rfl
      | none =>
        rcases hcase with ⟨dto, hdto, rfl⟩ | hsome
        · rcases mem_listOperations.mp ⟨dto, hdto, rfl⟩ with ⟨hmem, -⟩ | hmem
          · obtain ⟨job, hjob', -⟩ := mem_snapshots h hmem
            rw [hjob] at hjob'
            cases hjob'
          · rw [historyGet_of_mem h hmem]
            rfl
        · simp [hjob] at hsome
  same dto hdto := by
    unfold getOperation
    cases hjob : service.jobs dto.operation.id with
    | some job =>
      refine ⟨_, rfl, ?_⟩
      rcases mem_listOperations.mp ⟨dto, hdto, rfl⟩ with ⟨hmem, -⟩ | hmem
      · obtain ⟨job', hjob', heq⟩ := mem_snapshots h hmem
        obtain rfl : job = job' := Option.some.inj (hjob.symm.trans hjob')
        exact congrArg Operation.state heq
      · exact congrArg Operation.state (operation_of_history h htold hmem hjob)
    | none =>
      rcases mem_listOperations.mp ⟨dto, hdto, rfl⟩ with ⟨hmem, -⟩ | hmem
      · obtain ⟨job, hjob', -⟩ := mem_snapshots h hmem
        rw [hjob] at hjob'
        cases hjob'
      · rw [historyGet_of_mem h hmem]
        exact ⟨_, rfl, rfl⟩
  returned call hcall dtos hphase := (hcalls call hcall).returned dtos hphase

-- ==== runs

section Runs

variable {file : Option (List Operation)} {start : Timestamp} {loaded : Bool}
  {acts : List Action} {ok : Service → Action → Prop}

theorem recorded_of_run (hfile : ((file.getD []).map Operation.id).Nodup)
    (hrun : Run apply ok (new file start loaded) acts service) : Recorded service :=
  hrun.invariant (P := Recorded) (recorded_new hfile start loaded) fun _ _ hs h => h.step hs

theorem complete_of_run (hfile : ((file.getD []).map Operation.id).Nodup)
    (hrun : Run apply HandsOver (new file start loaded) acts service) :
    Complete service := by
  have hall : Recorded service ∧ Told service ∧ ∀ call ∈ service.calls, CallSound service call := by
    refine hrun.invariant (P := fun service => Recorded service ∧ Told service
      ∧ ∀ call ∈ service.calls, CallSound service call) ?_ ?_
    · exact ⟨recorded_new hfile start loaded, fun _ _ hjob => (by cases hjob),
        fun _ hcall => (by cases hcall)⟩
    · rintro service service' a hok hs ⟨h, htold, hcalls⟩
      exact ⟨h.step hs, htold.step h hok hs, calls_step h htold hcalls hok hs⟩
  exact complete_of_recorded hall.1 hall.2.1 hall.2.2

end Runs

theorem untold_of_ends {req : Bool} {s s' : Scheduler.State} (hlife : Lifecycle s)
    (hends : ¬ EndsObserved s a) (hs : Scheduler.apply req a s = some s') :
    s.operation.state.isTerminal = false
      ∧ s'.operation.state.isTerminal = true ∧ s'.observed = s.observed := by
  obtain ⟨hrunner, hcase⟩ := Classical.not_imp.mp hends
  cases a with
  | runner =>
    cases hr : s.runner with
    | settleCancelled handler =>
      have hlive := hlife.alive hr
      obtain ⟨operation, hstate, -, heq⟩ := Scheduler.settleCancelled_eq s handler hlive
      simp only [Scheduler.apply, runnerStep, hr, Option.some.injEq] at hs
      rw [← hs, heq]
      exact ⟨hlive, by rw [hstate]; rfl, rfl⟩
    | complete =>
      have hlive := hlife.alive hr
      simp only [Scheduler.apply, runnerStep, hr, Option.some.injEq] at hs
      rcases Scheduler.complete_cases s with ⟨hillegal, -⟩ | ⟨operation, henters, heq⟩
      · exact absurd ⟨by rw [hr]; rfl, fun _ => hillegal⟩ hcase
      · rw [← hs, heq]
        refine ⟨hlive, ?_, rfl⟩
        rw [henters.state]
        exact Scheduler.terminalOf_isTerminal _
    | _ => exact absurd ⟨by rw [hr]; rfl, by rw [hr]; intro hnot; cases hnot⟩ hcase
  | _ => cases hrunner

theorem not_complete_of_untold (h : Recorded service)
    (hjob : service.jobs id = some job) (hends : ¬ EndsObserved job.state a)
    (hs : apply (.job id a now saved) service = some service') : ¬ Complete service' := by
  intro hcomplete
  have hrecorded := h.jobs id job hjob
  obtain ⟨last, -, hkept, hgoes⟩ := hrecorded.last
  simp only [apply, hjob, Option.bind_some, stepJob] at hs
  cases hstep : Scheduler.apply job.requiresConfirmation a job.state with
  | none => simp [hstep] at hs
  | some state =>
    obtain ⟨hlive, hterminal, hobserved⟩ := untold_of_ends hrecorded.life hends hstep
    have hnone : state.observed[job.state.observed.length]? = none := by
      rw [hobserved]
      exact List.getElem?_eq_none le_rfl
    simp only [hstep, hnone, Option.some.injEq] at hs
    subst hs
    have hlast := hgoes hlive
    rcases hkept with ⟨hhaving, hundropped⟩ | ⟨hover, -, -⟩
    · rcases hcomplete.ended id _ (update_self ..) hterminal with
        ⟨-, hlisted⟩ | ⟨hdropped, -⟩
      · -- the history still has the operation as it was submitted
        obtain ⟨hmem, -⟩ := mem_filter.mp hlisted
        have hname := (Scheduler.id_of_step hrecorded.life
          (Scheduler.step_of_apply hstep)).trans hrecorded.named
        have hin : state.operation ∈ having Operation.id id service.history.operations :=
          mem_having.mpr ⟨hmem, hname⟩
        rw [hhaving] at hin
        rw [mem_singleton.mp hin, hlast] at hterminal
        cases hterminal
      · exact hundropped hdropped
    · simp [hlast] at hover

/-- In every run in which each step hands over, what is listed and found
is complete; an operation that ends otherwise makes it incomplete. -/
theorem operations_listed {file : Option (List Operation)}
    (hfile : ((file.getD []).map Operation.id).Nodup) (start : Timestamp) (loaded : Bool) :
    (∀ acts service, Run apply HandsOver (new file start loaded) acts service →
        Complete service)
      ∧ ∀ acts service id job a now saved service',
        Run apply Free (new file start loaded) acts service →
        service.jobs id = some job → ¬ EndsObserved job.state a →
        apply (.job id a now saved) service = some service' → ¬ Complete service' :=
  ⟨fun _ _ hrun => complete_of_run hfile hrun, fun _ _ _ _ _ _ _ _ hrun hjob hends hs =>
      not_complete_of_untold (recorded_of_run hfile hrun) hjob hends hs⟩

-- One operation that fails, and one that completes.

def copyRequest (id : Nat) : Scheduler.Request := { Scheduler.sampleRequest with id := id }

/-- A request, up to its job. -/
def accept (id : Nat) : List Action := [.start (copyRequest id) none (.ok false) 0 true, .insert]

def jobSteps (id : Nat) (steps : List Scheduler.Action) : List Action :=
  steps.map fun a => .job id a 0 true

/-- A plan that fails, up to `fail_job`. -/
def failedPlan (id : Nat) : List Action :=
  jobSteps id [.runner, .runner, .runner, .planReturns (.error .notImplemented), .runner,
    .cleanupReturns (.ok ())]

/-- A copy that succeeds. -/
def copied (id : Nat) : List Action :=
  jobSteps id (Scheduler.planScript (Scheduler.samplePlan 3 4)
    ++ itemScript .completed ++ itemScript .completed ++ Scheduler.finishScript)

def returnedStates (service : Service) (i id : Nat) : Option (List OperationState) :=
  match service.calls[i]? with
  | some call =>
    match call.phase with
    | .returned dtos => some ((entriesOf id dtos).map Operation.state)
    | .reading _ _ => none
  | none => none

instance : ∀ (service : Service) (a : Action), Decidable (HandsOver service a)
  | service, .job id a _ _ => inferInstanceAs (Decidable (∀ job ∈ service.jobs id,
      EndsObserved job.state a ∧ (a.isRunner = true → job.state.runner.isFailing = true →
        ∀ call ∈ service.calls, id ∉ call.active)))
  | _, .start .. | _, .insert | _, .beginList | _, .readJob .. | _, .readHistory _ =>
    .isTrue trivial

/-- One fails and one is queued; a call that both come before lists
both. -/
theorem failed_and_queued_listed :
    ∃ service : Service, returnedStates service 0 1 = some [.failed]
      ∧ returnedStates service 0 2 = some [.queued] ∧ Complete service := by
  obtain ⟨service, hrun, hfailed, hqueued⟩ : ∃ service : Service,
      Run apply HandsOver (new none 0 true)
        (accept 1 ++ failedPlan 1 ++ jobSteps 1 [.runner] ++ accept 2
          ++ [.beginList, .readJob 0 2, .readJob 0 1, .readHistory 0]) service
      ∧ returnedStates service 0 1 = some [.failed]
      ∧ returnedStates service 0 2 = some [.queued] :=
    Run.exists_of_guardedRun (by decide +kernel)
  have hfile : (((none : Option (List Operation)).getD []).map Operation.id).Nodup :=
    List.nodup_nil
  exact ⟨service, hfailed, hqueued, (operations_listed hfile 0 true).1 _ _ hrun⟩

/-- A copy that has completed is not listed; and an operation that fails
while it is being listed is listed twice. -/
theorem completed_unlisted_failed_twice :
    (∃ service : Service, Run apply Free (new none 0 true) (accept 1 ++ copied 1) service
        ∧ (service.jobs 1).map (fun job => job.state.operation.state) = some .completed
        ∧ service.listOperations = [] ∧ service.dropped = [])
      ∧ ∃ service : Service, Run apply Free (new none 0 true)
          (accept 1 ++ failedPlan 1 ++ [.beginList, .readJob 0 1] ++ jobSteps 1 [.runner]
            ++ [.readHistory 0]) service
        ∧ returnedStates service 0 1 = some [.planning, .failed] := by
  constructor <;> exact Run.exists_of_run (by decide +kernel)

end FileManager.OperationService
