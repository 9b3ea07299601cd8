/-
The operation record and its lifecycle (`fm-operations`, `model.rs`):
states, the legal transitions between them, and `Operation::transition`,
which is the only function that writes an operation's state.

`Utc::now()` is an argument (`now`): the caller's clock reading.
-/
import FileManager.Domain

namespace FileManager

-- ==== lifecycle

inductive OperationState
  | queued
  | planning
  | running
  | paused
  | waitingForConflictResolution
  | cancelling
  | cancelled
  | completed
  | completedWithWarnings
  | failed
  | interrupted
deriving DecidableEq

namespace OperationState

variable {state next : OperationState}

/-- `OperationState::can_transition_to`. -/
def canTransitionTo : OperationState → OperationState → Bool
  | queued, next => next ∈ [planning, cancelling, failed]
  | planning, next =>
    next ∈ [running, waitingForConflictResolution, cancelling, failed]
  | running, next =>
    next ∈ [paused, waitingForConflictResolution, cancelling, completed,
      completedWithWarnings, failed]
  | paused, next => next ∈ [running, cancelling, failed]
  | waitingForConflictResolution, next => next ∈ [running, cancelling, failed]
  | cancelling, next => next ∈ [cancelled, failed]
  | _, _ => false

/-- `OperationState::is_terminal`. -/
def isTerminal : OperationState → Bool
  | cancelled | completed | completedWithWarnings | failed | interrupted => true
  | _ => false

theorem not_terminal_of_canTransitionTo
    (h : state.canTransitionTo next = true) : state.isTerminal = false := by
  cases state <;> first | rfl | cases h

/-- Cancellation and failure are open from every state that is not
terminal, except that a cancellation is not requested twice. -/
theorem canTransitionTo_failed (hterm : state.isTerminal = false) :
    state.canTransitionTo failed = true := by
  cases state <;> first | rfl | cases hterm

theorem canTransitionTo_cancelling (hterm : state.isTerminal = false) (hne : state ≠ cancelling) :
    state.canTransitionTo cancelling = true := by
  cases state <;> first | rfl | exact absurd rfl hne | cases hterm

/-- The states of an operation that only comes to its end. -/
def isClosing (state : OperationState) : Bool := state = cancelling || state.isTerminal

theorem isClosing_of_canTransitionTo (hclosing : state.isClosing = true)
    (h : state.canTransitionTo next = true) : next.isClosing = true := by
  cases state <;> cases hclosing
  · cases next <;> first | rfl | cases h
  all_goals cases h

theorem eq_of_canTransitionTo_paused
    (h : state.canTransitionTo paused = true) : state = running := by
  cases state <;> first | rfl | cases h

theorem eq_of_canTransitionTo_running (h : state.canTransitionTo running = true) :
    state = planning ∨ state = paused ∨ state = waitingForConflictResolution := by
  cases state <;> first | (simp; done) | cases h

end OperationState

-- ==== records

inductive OperationKind
  | createArchive
  | moveToArchive
  | createDirectory
  | createFile
  | rename
  | copy
  | move
  | duplicate
  | trash
  | delete
deriving DecidableEq

inductive ConflictPolicy
  | ask
  | skip
  | overwrite
  | renameNew
  | keepNewer
deriving DecidableEq

/-- `ConflictResolution`: a decision passed back to a conflicting item. -/
inductive ConflictResolution
  | skip
  | overwrite
  | renameNew
deriving DecidableEq

/-- `ConflictEntry`: what a user is shown of one side of a collision. -/
structure ConflictEntry where
  name : String
  kind : EntryKind
  size : Option Nat
  modifiedAt : Option Timestamp
deriving DecidableEq

structure OperationConflict where
  id : String
  source : ConflictEntry
  destination : ConflictEntry
deriving DecidableEq

structure OperationEntryError where
  entry : EntryRef
  message : String
deriving DecidableEq

structure OperationProgress where
  completedItems : Nat := 0
  totalItems : Option Nat := none
  completedBytes : Nat := 0
  totalBytes : Option Nat := none
  currentEntry : Option EntryRef := none
  bytesPerSecond : Option Nat := none
deriving DecidableEq

structure Operation where
  id : Nat
  kind : OperationKind
  state : OperationState
  sources : List EntryRef
  destination : Option Location
  progress : OperationProgress
  conflictPolicy : ConflictPolicy
  createdAt : Timestamp
  startedAt : Option Timestamp
  completedAt : Option Timestamp
  errors : List OperationEntryError
deriving DecidableEq

structure TransitionError where
  source : OperationState
  target : OperationState
deriving DecidableEq

namespace Operation

variable {next : OperationState} {operation : Operation} {now : Timestamp}

/-- `Operation::new`: a queued operation with no reported work. -/
def new (id : Nat) (kind : OperationKind) (sources : List EntryRef)
    (destination : Option Location) (conflictPolicy : ConflictPolicy)
    (now : Timestamp) : Operation where
  id := id
  kind := kind
  state := .queued
  sources := sources
  destination := destination
  progress := {}
  conflictPolicy := conflictPolicy
  createdAt := now
  startedAt := none
  completedAt := none
  errors := []

/-- `Operation::transition`. -/
def transition (operation : Operation) (next : OperationState)
    (now : Timestamp) : Except TransitionError Operation :=
  if operation.state.canTransitionTo next then
    .ok { operation with
      state := next
      startedAt :=
        if next = .planning ∧ operation.startedAt = none then some now
        else operation.startedAt
      completedAt := if next.isTerminal then some now else operation.completedAt }
  else .error { source := operation.state, target := next }

theorem transition_eq_ok {operation' : Operation}
    (h : operation.transition next now = .ok operation') :
    operation.state.canTransitionTo next = true ∧ operation'.state = next
      ∧ operation'.progress = operation.progress
      ∧ operation'.errors = operation.errors
      ∧ operation'.id = operation.id
      ∧ operation'.completedAt = if next.isTerminal then some now else operation.completedAt := by
  unfold transition at h
  split at h
  case isFalse => cases h
  case isTrue hlegal =>
    cases h
    exact ⟨hlegal, rfl, rfl, rfl, rfl, rfl⟩

theorem transition_eq_error {error : TransitionError}
    (h : operation.transition next now = .error error) :
    operation.state.canTransitionTo next = false := by
  unfold transition at h
  split at h
  case isTrue => cases h
  case isFalse hlegal => simpa using hlegal

theorem exists_transition (now : Timestamp) (hlegal : operation.state.canTransitionTo next = true) :
    ∃ operation', operation.transition next now = .ok operation' := by
  unfold transition
  rw [if_pos hlegal]
  exact ⟨_, rfl⟩

end Operation

end FileManager
