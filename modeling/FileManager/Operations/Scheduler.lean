/-
The operation scheduler (`fm-operations`, `scheduler.rs`), one job at a
time: the shared cells of `struct Job`, the runner (`run_job` and the
error handling of the task `submit` spawns) as a program counter, and
the control calls `pause`, `resume`, `confirm`, `resolve_conflict` and
`cancel` as actions that any interleaving may put between two steps of
the runner.

# Granularity

One runner step is one access to a shared cell: a cancellation check, one
critical section of the operation lock, one read or write of the conflict
slot or of `apply_to_all`. The executor's own calls (`plan`, `execute`,
`finish`, `cleanup_partial`) are two events, the call and the return;
what a call returns is an arbitrary action, so a run quantifies over
every executor.

Every control call holds the `jobs` lock from start to end, so control
calls do not interleave with one another, but the runner does run between
their writes: `caller` is the call that holds it between two of its
writes. A rejected call is no step. `resolve_conflict` writes the slot
and `apply_to_all` under the slot lock and is one step.

`wait_while_blocked` reads the state and then whether the slot is
filled. Only the runner fills or clears the slot, so the two reads are
one step here; a blocked runner has no step, and `resumed` needs no
cell.

Acquiring a permit is open at any time: permits only delay a job.

# What the state keeps besides the cells

`events` and `observed` are what the job has published on the event bus
and handed to the snapshot observer, in order. `plan`, `outcomes`,
`submissions`, `taken` and `deliveries`, and the fields `ticket` and
`owner`, are ghosts: they record what happened and no step reads them.
-/
import FileManager.Operations.Model
import FileManager.Lib.Word
import FileManager.Lib.Machine

namespace FileManager.Scheduler

-- ==== plans and outcomes

structure PlanItem where
  entry : EntryRef
  bytes : Nat
deriving DecidableEq

/-- `OperationPlan`. Its values are those `OperationPlan::new` builds,
the only constructor the program uses: the totals are computed from the
items, and a `Vec` is no longer than a `u64` counts. -/
structure OperationPlan where
  items : List PlanItem
  totalItems : Option Nat
  totalBytes : Option Nat
  fits : items.length ≤ Word.max
  totalItems_eq : totalItems = some items.length
  totalBytes_eq : totalBytes = Word.checkedSum (items.map PlanItem.bytes)
deriving DecidableEq

def OperationPlan.new (items : List PlanItem) (fits : items.length ≤ Word.max) : OperationPlan where
  items := items
  totalItems := some items.length
  totalBytes := Word.checkedSum (items.map PlanItem.bytes)
  fits := fits
  totalItems_eq := rfl
  totalBytes_eq := rfl

inductive ExecutionError
  | notImplemented
  | failed (message : String)
  | provider (error : VfsError)
  | warning (entry : EntryRef) (message : String)
  | conflict (conflict : OperationConflict)
deriving DecidableEq

inductive ExecutionOutcome
  | completed
  | skipped
deriving DecidableEq

/-- `SchedulerError`, as far as a job can raise it. -/
inductive SchedulerError
  | transition (error : TransitionError)
  | execution (error : ExecutionError)
deriving DecidableEq

/-- How a counted plan item ended. -/
inductive Ending
  | completed
  | skipped
  | warned
deriving DecidableEq

def ExecutionOutcome.ending : ExecutionOutcome → Ending
  | .completed => .completed
  | .skipped => .skipped

/-- A plan item with its position in the plan, which tells apart items
that are equal as values. -/
structure Work where
  index : Nat
  item : PlanItem

/-- The plan's items in order, with their positions. -/
def OperationPlan.work (plan : OperationPlan) : List Work :=
  plan.items.zipIdx.map fun p => { index := p.2, item := p.1 }

/-- An entry of `deferred`: an item and the conflict its first execution
raised. -/
structure Deferred where
  work : Work
  conflict : OperationConflict

-- ==== decisions, events

/-- A decision in the slot; `ticket` numbers the accepted
`resolve_conflict` calls. -/
structure Decision where
  resolution : ConflictResolution
  ticket : Nat

/-- `PendingConflict`; `owner` is the position of the item whose
execution raised the conflict. -/
structure PendingConflict where
  conflict : OperationConflict
  decision : Option Decision
  owner : Nat

/-- An accepted `resolve_conflict` call: its arguments, the conflict
that was pending, and the number of decisions taken before. -/
structure Submission where
  resolution : ConflictResolution
  applyToAll : Bool
  conflict : OperationConflict
  owner : Nat
  round : Nat

/-- The resolution a retry is called with; `ticket` is the decision it
was taken from, if it was taken from the slot. -/
structure Answer where
  resolution : ConflictResolution
  ticket : Option Nat

/-- A resolution that did not come from the slot. -/
def Answer.direct (resolution : ConflictResolution) : Answer where
  resolution := resolution
  ticket := none

/-- A decision taken from the slot. -/
def Decision.answer (decision : Decision) : Answer where
  resolution := decision.resolution
  ticket := some decision.ticket

/-- A decision handed to an `execute` call: its ticket, what was passed
and the position of the item the call is for. -/
structure Delivery where
  ticket : Nat
  resolution : ConflictResolution
  owner : Nat

/-- The `BackendEventPayload`s a job publishes about its operation. -/
inductive Event
  | operationCreated (operation : Operation)
  | operationProgress (progress : OperationProgress)
  | operationStateChanged (state : OperationState)
  | operationConflict (conflict : OperationConflict)
  | operationCompleted (operation : Operation)
  | operationFailed (code : String) (error : SchedulerError)
deriving DecidableEq

-- ==== the runner

/-- Where `register_conflict` returns to: the first pass, the wait for a
decision, or the head of the retry loop. -/
inductive After
  | item (todo : List Work) (deferred : List Deferred)
  | decision (head : Deferred) (rest : List Deferred)
  | retry (head : Deferred) (rest : List Deferred)

/-- The runner's position, with the locals of `run_job` that are live
there. `cleaning` and `settleCancelled` are `finish_cancelled`, called
from `run_job` or (`handler`) from the spawned task's error handling;
`raised`, `abandoning` and `failing` are that error handling. -/
inductive Runner
  | acquire
  | checkAcquired
  | enterPlanning
  | planning
  | checkPlanned (plan : OperationPlan)
  | announcePlan (plan : OperationPlan)
  | awaitConfirmation (plan : OperationPlan)
  | checkConfirmed (plan : OperationPlan)
  | nextItem (todo : List Work) (deferred : List Deferred)
  | checkItem (work : Work) (todo : List Work) (deferred : List Deferred)
  | callItem (work : Work) (todo : List Work) (deferred : List Deferred)
  | executing (resolution : Option ConflictResolution) (work : Work)
      (todo : List Work) (deferred : List Deferred)
  | checkExecuted (result : Except ExecutionError ExecutionOutcome)
      (work : Work) (todo : List Work) (deferred : List Deferred)
  | recordWarning (error : OperationEntryError) (work : Work)
      (todo : List Work) (deferred : List Deferred)
  | countItem (ending : Ending) (work : Work) (todo : List Work)
      (deferred : List Deferred)
  | checkCounted (todo : List Work) (deferred : List Deferred)
  | fileConflict (conflict : OperationConflict) (work : Work)
      (todo : List Work) (deferred : List Deferred)
  | storeConflict (conflict : OperationConflict) (owner : Nat) (after : After)
  | announceConflict (conflict : OperationConflict) (after : After)
  | nextDeferred (deferred : List Deferred)
  | needConflict (head : Deferred) (rest : List Deferred)
  | awaitDecision (head : Deferred) (rest : List Deferred)
  | awaitCancellation (head : Deferred) (rest : List Deferred)
  | takeDecision (decision : Decision) (head : Deferred) (rest : List Deferred)
  | leaveWaiting (decision : Decision) (head : Deferred) (rest : List Deferred)
  | checkRetry (answer : Answer) (head : Deferred) (rest : List Deferred)
  | retrying (answer : Answer) (head : Deferred) (rest : List Deferred)
  | countRetry (outcome : ExecutionOutcome) (head : Deferred)
      (rest : List Deferred)
  | awaitFinish
  | checkFinish
  | finishing
  | complete
  | cleaning (handler : Bool)
  | settleCancelled (handler : Bool)
  | raised (error : SchedulerError)
  | abandoning (error : SchedulerError)
  | failing (error : SchedulerError)
  | done

/-- The item an `execute` call in flight is for, and the resolution it
was called with. -/
def Runner.inProgress : Runner → Option (Work × Option ConflictResolution)
  | .executing resolution work _ _ => some (work, resolution)
  | .retrying answer head _ => some (head.work, some answer.resolution)
  | _ => none

/-- Where the runner goes on after `register_conflict`. -/
def After.runner : After → Runner
  | .item todo deferred => .nextItem todo deferred
  | .decision head rest => .awaitDecision head rest
  | .retry head rest => .nextDeferred (head :: rest)

/-- A control call between two of its writes. -/
inductive Call
  | pausing
  | resuming
  | cancelRequested
  | cancelReleased
deriving DecidableEq

/-- One job: the cells of `struct Job`, the runner, the control call in
progress, the clock, and what has been published and recorded. -/
structure State where
  operation : Operation
  cancellation : Bool
  paused : Bool
  pendingConflict : Option PendingConflict
  applyToAll : Option ConflictResolution
  runner : Runner
  caller : Option Call
  now : Timestamp
  events : List Event
  observed : List Operation
  plan : Option OperationPlan
  outcomes : List (Work × Ending)
  submissions : List Submission
  taken : List Nat
  deliveries : List Delivery

/-- `Scheduler::submit`: announce and observe the operation, then queue
its job. -/
def submit (operation : Operation) (now : Timestamp) : State where
  operation := operation
  cancellation := false
  paused := false
  pendingConflict := none
  applyToAll := none
  runner := .acquire
  caller := none
  now := now
  events := [.operationCreated operation]
  observed := [operation]
  plan := none
  outcomes := []
  submissions := []
  taken := []
  deliveries := []

/-- What a caller of `start_operation` chooses. -/
structure Request where
  id : Nat
  kind : OperationKind
  sources : List EntryRef
  destination : Option Location
  conflictPolicy : ConflictPolicy

/-- `FileManagerService::start_operation`, after planning: a new
operation, submitted. -/
def startOperation (request : Request) (now : Timestamp) : State :=
  submit (Operation.new request.id request.kind request.sources
    request.destination request.conflictPolicy now) now

-- ==== transitions and checks

/-- `transition_and_publish`, under the operation lock. -/
def transitionAndPublish (s : State) (next : OperationState) : Except TransitionError State :=
  match s.operation.transition next s.now with
  | .ok operation =>
    .ok { s with operation := operation
                 events := s.events ++ [.operationStateChanged next] }
  | .error error => .error error

/-- `transition_and_publish(..)?` inside `run_job`: go on at `runner`, or
raise the transition error. -/
def transitionThen (s : State) (next : OperationState) (runner : Runner) : State :=
  match transitionAndPublish s next with
  | .ok s' => { s' with runner := runner }
  | .error error => { s with runner := .raised (.transition error) }

def publishProgress (s : State) : State :=
  { s with events := s.events ++ [.operationProgress s.operation.progress] }

/-- The loop condition of `wait_while_blocked`. -/
def blocked (s : State) : Bool :=
  s.operation.state = .paused
    || (s.operation.state = .waitingForConflictResolution
        && s.pendingConflict.isNone)

/-- `if job.cancellation.is_cancelled() { finish_cancelled()?; return }`. -/
def checkCancelled (s : State) (runner : Runner) : State :=
  if s.cancellation then { s with runner := .cleaning false }
  else { s with runner := runner }

-- ==== control calls

/-- `Scheduler::pause`, up to the transition; the token write follows. -/
def pause (s : State) : Option State :=
  match transitionAndPublish s .paused with
  | .ok s' => some { s' with caller := some .pausing }
  | .error _ => none

/-- `Scheduler::resume`, up to the transition; the token write follows. -/
def resume (s : State) : Option State :=
  match transitionAndPublish s .running with
  | .ok s' => some { s' with caller := some .resuming }
  | .error _ => none

/-- `Scheduler::confirm`. -/
def confirm (s : State) : Option State :=
  match transitionAndPublish s .running with
  | .ok s' => some s'
  | .error _ => none

/-- `Scheduler::resolve_conflict`. -/
def resolveConflict (s : State) (resolution : ConflictResolution)
    (applyToAll : Bool) : Option State :=
  match s.pendingConflict with
  | none => none
  | some pending =>
    some { s with
      pendingConflict := some { pending with
        decision := some { resolution := resolution
                           ticket := s.submissions.length } }
      applyToAll := if applyToAll then some resolution else s.applyToAll
      submissions := s.submissions ++
        [{ resolution := resolution, applyToAll := applyToAll
           conflict := pending.conflict, owner := pending.owner
           round := s.taken.length }] }

/-- `Scheduler::cancel`, up to the cancellation flag; the token write and
the transition follow. -/
def cancel (s : State) : Option State :=
  some { s with cancellation := true, caller := some .cancelRequested }

/-- The transition of `Scheduler::cancel`, skipped for a terminal or
already cancelling operation. -/
def cancelTransition (s : State) : State :=
  let s := { s with caller := none }
  if s.operation.state.isTerminal = false
      ∧ s.operation.state ≠ .cancelling then
    match transitionAndPublish s .cancelling with
    | .ok s' => s'
    | .error _ => s
  else s

/-- `Scheduler::republish_pending_conflicts`, for this job. -/
def republishPendingConflict (s : State) : State :=
  match s.pendingConflict with
  | none => s
  | some pending =>
    { s with events := s.events ++ [.operationConflict pending.conflict] }

-- ==== runner steps

/-- The progress update after an item, under the operation lock. -/
def countWork (s : State) (work : Work) (ending : Ending) : State :=
  { s with
    operation := { s.operation with
      progress := { s.operation.progress with
        completedItems := Word.satAdd s.operation.progress.completedItems 1
        completedBytes := Word.satAdd s.operation.progress.completedBytes
          (if ending = .completed then work.item.bytes else 0)
        currentEntry := some work.item.entry } }
    outcomes := s.outcomes ++ [(work, ending)] }

/-- The first pass's progress update: `emitted` is what
`ProgressPublisher::record` answers, the smoothed rate when it is time
to publish. -/
def recordItem (s : State) (work : Work) (ending : Ending)
    (emitted : Option (Option Nat)) (runner : Runner) : State :=
  let s := { countWork s work ending with runner := runner }
  match emitted with
  | none => s
  | some rate =>
    publishProgress { s with
      operation := { s.operation with
        progress := { s.operation.progress with bytesPerSecond := rate } } }

/-- The totals of a fresh plan, under the operation lock. -/
def announceTotals (s : State) (plan : OperationPlan) : State :=
  publishProgress { s with
    operation := { s.operation with
      progress := { s.operation.progress with
        totalItems := plan.totalItems
        totalBytes := plan.totalBytes } } }

/-- The match on an execution's result in the first pass, after the
cancellation check. -/
def afterExecution (result : Except ExecutionError ExecutionOutcome)
    (work : Work) (todo : List Work) (deferred : List Deferred) : Runner :=
  match result with
  | .ok outcome => .countItem outcome.ending work todo deferred
  | .error (.warning entry message) =>
    .recordWarning { entry := entry, message := message } work todo deferred
  | .error (.conflict conflict) => .fileConflict conflict work todo deferred
  | .error error => .raised (.execution error)

/-- The match on a retry's result. -/
def afterRetry (result : Except ExecutionError ExecutionOutcome)
    (head : Deferred) (rest : List Deferred) : Runner :=
  match result with
  | .ok outcome => .countRetry outcome head rest
  | .error (.conflict conflict) =>
    .storeConflict conflict head.work.index (.retry head rest)
  | .error error => .raised (.execution error)

/-- The transition of `register_conflict`, and its event. -/
def announceConflict (s : State) (conflict : OperationConflict) (after : After) : State :=
  match transitionAndPublish s .waitingForConflictResolution with
  | .ok s' =>
    { s' with events := s'.events ++ [.operationConflict conflict]
              runner := after.runner }
  | .error error => { s with runner := .raised (.transition error) }

def callRetry (s : State) (answer : Answer) (head : Deferred) (rest : List Deferred) : State :=
  { s with
    runner := .retrying answer head rest
    deliveries := match answer.ticket with
      | none => s.deliveries
      | some ticket =>
        s.deliveries ++ [{ ticket := ticket, resolution := answer.resolution
                           owner := head.work.index }] }

/-- The end of `run_job`: the terminal transition and its event. -/
def complete (s : State) : State :=
  let terminal : OperationState :=
    if s.operation.errors = [] then .completed else .completedWithWarnings
  match transitionAndPublish s terminal with
  | .ok s' =>
    { s' with events := s'.events ++ [.operationCompleted s'.operation]
              runner := .done }
  | .error error => { s with runner := .raised (.transition error) }

/-- `finish_cancelled` after `cleanup_partial`, under the operation
lock. -/
def settleCancelled (s : State) (handler : Bool) : State :=
  let reject (s : State) (error : TransitionError) : State :=
    { s with runner :=
        if handler then .failing (.transition error)
        else .raised (.transition error) }
  let cancelling : Except TransitionError State :=
    if s.operation.state ≠ .cancelling then transitionAndPublish s .cancelling
    else .ok s
  match cancelling with
  | .error error => reject s error
  | .ok s₁ =>
    match transitionAndPublish s₁ .cancelled with
    | .error error => reject s₁ error
    | .ok s₂ => { s₂ with runner := .done }

/-- The transition of `fail_job`: published, except out of
`Cancelling`. -/
def failTransition (s : State) : State :=
  if s.operation.state.isTerminal then s
  else if s.operation.state = .cancelling then
    match s.operation.transition .failed s.now with
    | .ok operation => { s with operation := operation }
    | .error _ => s
  else
    match transitionAndPublish s .failed with
    | .ok s' => s'
    | .error _ => s

/-- `fail_job`, under the operation lock. -/
def failJob (s : State) (error : SchedulerError) : State :=
  let s := failTransition s
  { s with events := s.events ++ [.operationFailed "operationFailed" error]
           observed := s.observed ++ [s.operation]
           runner := .done }

/-- The runner's next step, where it is its own to take: not while an
executor call is in flight, not while blocked, and not where the
progress publisher's answer is needed. -/
def runnerStep (requiresConfirmation : Bool) (s : State) : Option State :=
  match s.runner with
  | .acquire => some { s with runner := .checkAcquired }
  | .checkAcquired => some (checkCancelled s .enterPlanning)
  | .enterPlanning => some (transitionThen s .planning .planning)
  | .checkPlanned plan => some (checkCancelled s (.announcePlan plan))
  | .announcePlan plan =>
    some (if requiresConfirmation then
      transitionThen (announceTotals s plan) .waitingForConflictResolution (.awaitConfirmation plan)
    else
      transitionThen (announceTotals s plan) .running (.nextItem plan.work []))
  | .awaitConfirmation plan =>
    if blocked s then none else some { s with runner := .checkConfirmed plan }
  | .checkConfirmed plan => some (checkCancelled s (.nextItem plan.work []))
  | .nextItem [] deferred => some { s with runner := .nextDeferred deferred }
  | .nextItem (work :: todo) deferred =>
    if blocked s then none
    else some { s with runner := .checkItem work todo deferred }
  | .checkItem work todo deferred =>
    some (checkCancelled s (.callItem work todo deferred))
  | .callItem work todo deferred =>
    some { s with runner := .executing s.applyToAll work todo deferred }
  | .checkExecuted result work todo deferred =>
    if s.cancellation && !result.isOk then
      some { s with runner := .cleaning false }
    else some { s with runner := afterExecution result work todo deferred }
  | .recordWarning error work todo deferred =>
    some { s with
      operation := { s.operation with
        errors := s.operation.errors ++ [error] }
      runner := .countItem .warned work todo deferred }
  | .checkCounted todo deferred => some (checkCancelled s (.nextItem todo deferred))
  | .fileConflict conflict work todo deferred =>
    let after : After := .item todo (deferred ++ [{ work := work, conflict := conflict }])
    some { s with runner :=
      if s.pendingConflict.isNone then
        .storeConflict conflict work.index after
      else after.runner }
  | .storeConflict conflict owner after =>
    some { s with
      pendingConflict := some { conflict := conflict, decision := none
                                owner := owner }
      runner := .announceConflict conflict after }
  | .announceConflict conflict after => some (announceConflict s conflict after)
  | .nextDeferred [] => some { s with runner := .awaitFinish }
  | .nextDeferred (head :: rest) =>
    match s.applyToAll with
    | some resolution =>
      some { s with runner := .checkRetry (.direct resolution) head rest }
    | none => some { s with runner := .needConflict head rest }
  | .needConflict head rest =>
    some { s with runner :=
      if s.pendingConflict.isNone then
        .storeConflict head.conflict head.work.index (.decision head rest)
      else .awaitDecision head rest }
  | .awaitDecision head rest =>
    match s.pendingConflict.bind PendingConflict.decision with
    | some decision =>
      some { s with runner := .takeDecision decision head rest }
    | none => some { s with runner := .awaitCancellation head rest }
  | .awaitCancellation head rest =>
    some { s with runner :=
      if s.cancellation then .checkRetry (.direct .skip) head rest
      else .awaitDecision head rest }
  | .takeDecision decision head rest =>
    some { s with pendingConflict := none
                  runner := .leaveWaiting decision head rest
                  taken := s.taken ++ [decision.ticket] }
  | .leaveWaiting decision head rest =>
    some (transitionThen s .running (.checkRetry decision.answer head rest))
  | .checkRetry answer head rest =>
    some (if s.cancellation then { s with runner := .cleaning false }
      else callRetry s answer head rest)
  | .countRetry outcome head rest =>
    some { countWork s head.work outcome.ending with
      runner := .nextDeferred rest }
  | .awaitFinish =>
    if blocked s then none else some { s with runner := .checkFinish }
  | .checkFinish => some (checkCancelled s .finishing)
  | .complete => some (complete s)
  | .settleCancelled handler => some (settleCancelled s handler)
  | .raised error =>
    some { s with runner :=
      if s.cancellation then .cleaning true else .abandoning error }
  | .failing error => some (failJob s error)
  | .planning | .executing .. | .countItem .. | .retrying .. | .finishing
  | .cleaning _ | .abandoning _ | .done => none

-- ==== the machine

/-- One step of the job: a control call or the rest of one, a runner
step, an executor call's return, or the clock. -/
inductive Action
  | pause
  | pauseToken
  | resume
  | resumeToken
  | confirm
  | resolveConflict (resolution : ConflictResolution) (applyToAll : Bool)
  | cancel
  | cancelToken
  | cancelTransition
  | republishPendingConflicts
  | tick (now : Timestamp)
  | runner
  | recordItem (emitted : Option (Option Nat))
  | planReturns (result : Except ExecutionError OperationPlan)
  | executeReturns (result : Except ExecutionError ExecutionOutcome)
  | finishReturns (result : Except ExecutionError Unit)
  | cleanupReturns (result : Except ExecutionError Unit)

/-- Run a control call if no other one holds the `jobs` lock. -/
def whenUnlocked (s : State) (call : State → Option State) : Option State :=
  if s.caller = none then call s else none

/-- The job's transition function: `none` where the action is not open
in the state. -/
def apply (requiresConfirmation : Bool) (a : Action) (s : State) : Option State :=
  match a with
  | .pause => whenUnlocked s pause
  | .pauseToken =>
    if s.caller = some .pausing then
      some { s with paused := true, caller := none }
    else none
  | .resume => whenUnlocked s resume
  | .resumeToken =>
    if s.caller = some .resuming then
      some { s with paused := false, caller := none }
    else none
  | .confirm => whenUnlocked s confirm
  | .resolveConflict resolution applyToAll =>
    whenUnlocked s fun s => resolveConflict s resolution applyToAll
  | .cancel => whenUnlocked s cancel
  | .cancelToken =>
    if s.caller = some .cancelRequested then
      some { s with paused := false, caller := some .cancelReleased }
    else none
  | .cancelTransition =>
    if s.caller = some .cancelReleased then some (cancelTransition s)
    else none
  | .republishPendingConflicts =>
    whenUnlocked s fun s => some (republishPendingConflict s)
  | .tick now => some { s with now := now }
  | .runner => runnerStep requiresConfirmation s
  | .recordItem emitted =>
    match s.runner with
    | .countItem ending work todo deferred =>
      some (recordItem s work ending emitted (.checkCounted todo deferred))
    | _ => none
  | .planReturns result =>
    match s.runner, result with
    | .planning, .ok plan =>
      some { s with runner := .checkPlanned plan, plan := some plan }
    | .planning, .error error =>
      some { s with runner := .raised (.execution error) }
    | _, _ => none
  | .executeReturns result =>
    match s.runner with
    | .executing _ work todo deferred =>
      some { s with runner := .checkExecuted result work todo deferred }
    | .retrying _ head rest =>
      some { s with runner := afterRetry result head rest }
    | _ => none
  | .finishReturns result =>
    match s.runner, result with
    | .finishing, .ok _ => some { s with runner := .complete }
    | .finishing, .error error =>
      some { s with runner := .raised (.execution error) }
    | _, _ => none
  | .cleanupReturns result =>
    match s.runner, result with
    | .cleaning handler, .ok _ =>
      some { s with runner := .settleCancelled handler }
    | .cleaning handler, .error error =>
      some { s with runner :=
        if handler then .failing (.execution error)
        else .raised (.execution error) }
    | .abandoning error, _ => some { s with runner := .failing error }
    | _, _ => none

-- ==== sample jobs

/-- A copy of one file, for concrete runs. -/
def sampleRequest : Request where
  id := 1
  kind := .copy
  sources := []
  destination := none
  conflictPolicy := .ask

/-- A file of the sample plans, told apart by its number. -/
def sampleEntry (number : Nat) : EntryRef where
  id := number
  location := { providerId := "local", uri := { authority := "", segments := [] } }

/-- A plan of two files of the given sizes. -/
def samplePlan (bytes bytes' : Nat) : OperationPlan :=
  OperationPlan.new
    [{ entry := sampleEntry 1, bytes := bytes },
      { entry := sampleEntry 2, bytes := bytes' }]
    (by simp [Word.max])

/-- The conflict the sample file of that number raises. -/
def sampleConflict (number : Nat) : OperationConflict where
  id := if number = 1 then "first" else "second"
  source := { name := "source", kind := .file, size := none, modifiedAt := none }
  destination := { name := "destination", kind := .file, size := none, modifiedAt := none }

def planScript (plan : OperationPlan) : List Action :=
  [.runner, .runner, .runner, .planReturns (.ok plan), .runner, .runner]

/-- One item of the first pass, up to its result. -/
def executeScript (result : Except ExecutionError ExecutionOutcome) : List Action :=
  [.runner, .runner, .runner, .executeReturns result, .runner]

/-- One item of the first pass that ends well, counted. -/
def itemScript (outcome : ExecutionOutcome) : List Action :=
  executeScript (.ok outcome) ++ [.recordItem none, .runner]

/-- From the end of the first pass, nothing deferred, to the end. -/
def finishScript : List Action :=
  [.runner, .runner, .runner, .runner, .finishReturns (.ok ()), .runner]

end FileManager.Scheduler
