/-
The operations of `FileManagerService` (`fm-application`, `service.rs`
and `operation_history.rs`; `fm-operations`, `scheduler.rs`): what
`start_operation` accepts, and what `list_operations` and
`get_operation` tell of it, from the jobs of the scheduler and from the
history.

# Granularity

A job takes its own steps, those of `Scheduler.apply`; a snapshot that it
hands to the observer is in the history by the end of the step.
`start_operation` holds the lock of the idempotency keys; `submit` first
has the operation observed and then inserts its job, which are two steps.
`list_operations` looks at one job after another, in any order, and then
at the history; each look is a step.

`dropped` is a ghost: the operations that the retention rule has taken
out of the history.
-/
import FileManager.Application.OperationHistory
import FileManager.Operations.Scheduler
import Mathlib.Data.List.Sort

namespace FileManager.OperationService

open Scheduler (Request)

-- ==== transport records

/-- The `ApplicationError`s of operations. -/
inductive ApplicationError
  | notFound
  | invalidRequest (message : String)
  | providerUnavailable
  | internal

def operationResultSummary (operation : Operation) : Option String :=
  let items := operation.progress.completedItems
  let warnings := operation.errors.length
  match operation.state with
  | .completed => some s!"Completed {items} items."
  | .completedWithWarnings => some s!"Completed with {warnings} warnings."
  | .cancelled => some s!"Cancelled after {items} items."
  | .failed => some "Operation failed."
  | .interrupted => some s!"Interrupted after {items} items; it was not resumed."
  | _ => none

/-- `OperationDto`: the operation, and what `operation_dto` adds to it. -/
structure OperationDto where
  operation : Operation
  queuePosition : Option Nat
  resultSummary : Option String

def operationDto (operation : Operation) (queuePosition : Option Nat) : OperationDto where
  operation := operation
  queuePosition := queuePosition
  resultSummary := operationResultSummary operation

-- ==== the lists

/-- `sort_by_key` on `Reverse(created_at)`, which is stable. -/
def newestFirst {α : Type} (createdAt : α → Timestamp) (l : List α) : List α :=
  l.insertionSort fun a b => createdAt b ≤ createdAt a

def queuePosition (active : List Operation) (id : Nat) : Option Nat :=
  let queued := (active.filter fun operation => operation.state = .queued).insertionSort
    fun a b => a.createdAt ≤ b.createdAt
  (queued.findIdx? fun operation => operation.id = id).map (· + 1)

/-- `list_operations`, on what the scheduler and the history have. -/
def joinOperations (snapshots : List Operation) (history : OperationHistory) : List OperationDto :=
  let active := (newestFirst Operation.createdAt snapshots).filter
    fun operation => !operation.state.isTerminal
  newestFirst (fun dto => dto.operation.createdAt)
    (active.map (fun operation => operationDto operation (queuePosition active operation.id))
      ++ history.list.map fun operation => operationDto operation none)

/-- `OperationHistory::get`. -/
def historyGet (history : OperationHistory) (id : Nat) : Option OperationDto :=
  (history.operations.find? fun operation =>
    operation.id = id ∧ operation.state.isTerminal = true).map fun operation =>
      operationDto operation none

-- ==== the service

/-- A job, with what its executor says of confirmation. -/
structure Job where
  requiresConfirmation : Bool
  state : Scheduler.State

/-- `start_operation` between the observer and the job's insertion. -/
structure Submitting where
  idempotencyKey : Option String
  id : Nat
  job : Job

/-- Where a call of `list_operations` is: `todo` are the jobs that it has
not looked at, `seen` what it saw. -/
inductive ListPhase
  | reading (todo : List Nat) (seen : List Operation)
  | returned (operations : List OperationDto)

/-- A call of `list_operations`; `accepted` is a ghost, the operations that
were accepted when it began. -/
structure ListCall where
  accepted : List Nat
  phase : ListPhase

/-- The operations that the call has seen active, while it has yet to look
at the history. -/
def ListCall.active (call : ListCall) : List Nat :=
  match call.phase with
  | .reading _ seen =>
    (seen.filter fun operation => !operation.state.isTerminal).map Operation.id
  | .returned _ => []

structure Service where
  jobs : Nat → Option Job
  /-- The keys of `jobs`. -/
  accepted : List Nat
  history : OperationHistory
  submitting : Option Submitting
  idempotency : List (String × Nat)
  calls : List ListCall
  dropped : List Nat

/-- A service that has loaded its history from a file. -/
def Service.new (file : Option (List Operation)) (now : Timestamp) (saved : Bool) : Service where
  jobs _ := none
  accepted := []
  history := .load file now saved
  submitting := none
  idempotency := []
  calls := []
  dropped := []

/-- `Scheduler::list`, before it is sorted. -/
def Service.snapshots (service : Service) : List Operation :=
  service.accepted.filterMap fun id => (service.jobs id).map fun job => job.state.operation

/-- `list_operations`, where nothing comes in between. -/
def Service.listOperations (service : Service) : List OperationDto :=
  joinOperations service.snapshots service.history

def Service.getOperation (service : Service) (id : Nat) : Except ApplicationError OperationDto :=
  match service.jobs id with
  | some job => .ok (operationDto job.state.operation none)
  | none =>
    match historyGet service.history id with
    | some dto => .ok dto
    | none => .error .notFound

-- ==== the observer

/-- The terminal operations that `prune` takes out of a list. -/
def prunedIds (now : Timestamp) (operations : List Operation) : List Nat :=
  (operations.filter fun operation =>
    operation.state.isTerminal && operation ∉ OperationHistory.prune now operations).map
      Operation.id

/-- `observe`, of the history. -/
def Service.observe (service : Service) (operation : Operation) (now : Timestamp)
    (saved : Bool) : Service :=
  { service with
    history := service.history.observe operation now saved
    dropped := service.dropped
      ++ prunedIds now (Keyed.upsert Operation.id operation service.history.operations) }

-- ==== start_operation

/-- What `start_operation` makes of a request. -/
inductive Started
  | failed (error : ApplicationError)
  | existing (id : Nat)
  | submitted (requiresConfirmation : Bool)

/-- `start_operation`, up to `submit`; `planned` is the executor that
`planner.plan` returns. -/
def startOutcome (idempotency : List (String × Nat)) (request : Request)
    (idempotencyKey : Option String) (planned : Except ApplicationError Bool) : Started :=
  if request.conflictPolicy = .keepNewer then
    .failed (.invalidRequest
      "keepNewer conflict policy is not supported yet; choose ask, skip, overwrite, or renameNew")
  else
    match idempotencyKey.bind (Keyed.get idempotency) with
    | some id => .existing id
    | none =>
      match planned with
      | .error error => .failed error
      | .ok requiresConfirmation => .submitted requiresConfirmation

/-- An identifier that `OperationId::new` may make: no operation has it or
had it. -/
def Service.fresh (service : Service) (id : Nat) : Bool :=
  id ∉ service.accepted && id ∉ service.dropped
    && service.history.operations.all fun operation => operation.id ≠ id

/-- `start_operation`, up to the observer. A second one waits for the
first. -/
def Service.start (service : Service) (request : Request) (idempotencyKey : Option String)
    (planned : Except ApplicationError Bool) (now : Timestamp) (saved : Bool) : Option Service :=
  match service.submitting with
  | some _ => none
  | none =>
    match startOutcome service.idempotency request idempotencyKey planned with
    | .failed _ | .existing _ => some service
    | .submitted requiresConfirmation =>
      if service.fresh request.id then
        let job : Job :=
          { requiresConfirmation := requiresConfirmation
            state := Scheduler.startOperation request now }
        some { service.observe job.state.operation now saved with
          submitting := some { idempotencyKey := idempotencyKey, id := request.id, job := job } }
      else none

/-- The rest of `start_operation`: the job is inserted, and the key
remembered. -/
def Service.insert (service : Service) : Option Service :=
  match service.submitting with
  | none => none
  | some submitting =>
    some { service with
      jobs := Function.update service.jobs submitting.id (some submitting.job)
      accepted := service.accepted ++ [submitting.id]
      submitting := none
      idempotency := match submitting.idempotencyKey with
        | some key => Keyed.put service.idempotency key submitting.id
        | none => service.idempotency }

-- ==== transitions

inductive Action
  | start (request : Request) (idempotencyKey : Option String)
      (planned : Except ApplicationError Bool) (now : Timestamp) (saved : Bool)
  | insert
  /-- A step of a job; a snapshot that it hands to the observer is recorded
  at `now`. -/
  | job (id : Nat) (a : Scheduler.Action) (now : Timestamp) (saved : Bool)
  | beginList
  | readJob (call : Nat) (id : Nat)
  | readHistory (call : Nat)

def Service.stepJob (service : Service) (id : Nat) (job : Job) (a : Scheduler.Action)
    (now : Timestamp) (saved : Bool) : Option Service :=
  match Scheduler.apply job.requiresConfirmation a job.state with
  | none => none
  | some state =>
    let stepped : Service := { service with
      jobs := Function.update service.jobs id (some { job with state := state }) }
    match state.observed[job.state.observed.length]? with
    | none => some stepped
    | some operation => some (stepped.observe operation now saved)

/-- `list_operations` looks at a job. -/
def Service.readJob (service : Service) (i : Nat) (call : ListCall) (id : Nat) : Option Service :=
  match call.phase, service.jobs id with
  | .reading todo seen, some job =>
    if id ∈ todo then
      some { service with
        calls := service.calls.set i { call with
          phase := .reading (todo.erase id) (seen ++ [job.state.operation]) } }
    else none
  | _, _ => none

/-- `list_operations` looks at the history, and returns. -/
def Service.readHistory (service : Service) (i : Nat) (call : ListCall) : Option Service :=
  match call.phase with
  | .reading [] seen =>
    some { service with
      calls := service.calls.set i { call with
        phase := .returned (joinOperations seen service.history) } }
  | _ => none

/-- The transition function. -/
def apply (a : Action) (service : Service) : Option Service :=
  match a with
  | .start request idempotencyKey planned now saved =>
    service.start request idempotencyKey planned now saved
  | .insert => service.insert
  | .job id a now saved =>
    (service.jobs id).bind fun job => service.stepJob id job a now saved
  | .beginList =>
    some { service with
      calls := service.calls ++ [{
        accepted := service.accepted, phase := .reading service.accepted [] }] }
  | .readJob i id => (service.calls[i]?).bind fun call => service.readJob i call id
  | .readHistory i => (service.calls[i]?).bind fun call => service.readHistory i call

end FileManager.OperationService
