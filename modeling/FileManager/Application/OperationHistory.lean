/-
The durable operation history (`fm-application`,
`operation_history.rs`): the snapshots the scheduler hands to its
observer, pruned and written after each of them, and read back after a
restart.

# What is modelled

`OperationHistory` is the in-memory list and the file's content as
`serde_json` decodes it (`none` for a file that is missing or does not
parse). A save may fail at any of its I/O calls, all of which leave the
previous file in place: `saved` is whether it went through. One
`observe` is one step; two of them serialise on the list's mutex.
-/
import FileManager.Operations.Model
import FileManager.Lib.Keyed
import Mathlib.Data.List.Induction

namespace FileManager

open Keyed List

/-- `OperationHistory`: the list, and what the file holds. -/
structure OperationHistory where
  operations : List Operation
  file : Option (List Operation)

namespace OperationHistory

variable {history : OperationHistory} {id : Nat} {now : Timestamp} {file : List Operation}
  {saved : Bool}

/-- `OPERATION_HISTORY_MAX_ENTRIES`. -/
def maxEntries : Nat := 100

/-- `OPERATION_HISTORY_MAX_AGE_DAYS`, in the unit of `Timestamp`. -/
def maxAge : Nat := 30 * 24 * 60 * 60 * 1000

-- ==== pruning

/-- The retention by age: what is not terminal stays. -/
def retained (now : Timestamp) (operation : Operation) : Bool :=
  !operation.state.isTerminal
    || match operation.completedAt with
      | none => true
      | some completedAt => now ≤ completedAt + maxAge

/-- The order of `sort_by_key(completed_at)`: `None` first. -/
def completedBefore : Option Timestamp → Option Timestamp → Bool
  | none, _ => true
  | some _, none => false
  | some t, some t' => t ≤ t'

/-- The positions of the terminal operations beyond the newest
`maxEntries`. -/
def excess (operations : List Operation) : List Nat :=
  let terminal := (operations.zipIdx.filter fun p => p.1.state.isTerminal).map
    fun p => (p.2, p.1.completedAt)
  let sorted := terminal.mergeSort fun a b => completedBefore a.2 b.2
  (sorted.take (terminal.length - maxEntries)).map Prod.fst

/-- The list part of `prune_and_save`. -/
def prune (now : Timestamp) (operations : List Operation) : List Operation :=
  let kept := operations.filter (retained now)
  let remove := excess kept
  (kept.zipIdx.filter fun p => p.2 ∉ remove).map Prod.fst

theorem zipIdx_map_fst (operations : List Operation) :
    operations.zipIdx.map Prod.fst = operations := by
  simp

theorem prune_sublist (now : Timestamp) (operations : List Operation) :
    (prune now operations).Sublist operations := by
  unfold prune
  refine List.Sublist.trans ?_ (filter_sublist (p := retained now))
  have hmap := (filter_sublist (p := fun p : Operation × Nat =>
      decide (p.2 ∉ excess (operations.filter (retained now))))
    (l := (operations.filter (retained now)).zipIdx)).map Prod.fst
  rwa [zipIdx_map_fst] at hmap

theorem prune_of_length_le {operations : List Operation} (now : Timestamp)
    (h : operations.length ≤ maxEntries) :
    prune now operations = operations.filter (retained now) := by
  have hfits : (operations.filter (retained now)).length ≤ maxEntries :=
    Nat.le_trans (length_filter_le _ _) h
  have hexcess : excess (operations.filter (retained now)) = [] := by
    unfold excess
    have hlen := length_filter_le (fun p : Operation × Nat => p.1.state.isTerminal)
      (operations.filter (retained now)).zipIdx
    rw [length_zipIdx] at hlen
    have hzero : ((((operations.filter (retained now)).zipIdx.filter
        fun p => p.1.state.isTerminal).map
          fun p => (p.2, p.1.completedAt)).length - maxEntries) = 0 := by
      rw [length_map]
      omega
    simp only [hzero, take_zero, map_nil]
  unfold prune
  simp only [hexcess]
  simp

-- ==== operations

def pruneAndSave (history : OperationHistory) (now : Timestamp) (saved : Bool) : OperationHistory :=
  let operations := prune now history.operations
  { operations := operations
    file := if saved then some operations else history.file }

/-- `OperationSnapshotObserver::observe`. -/
def observe (history : OperationHistory) (operation : Operation)
    (now : Timestamp) (saved : Bool) : OperationHistory :=
  pruneAndSave { history with
      operations := upsert Operation.id operation history.operations }
    now saved

/-- What `load` makes of a stored operation. -/
def interrupt (now : Timestamp) (operation : Operation) : Operation :=
  if operation.state.isTerminal then operation
  else { operation with state := .interrupted, completedAt := some now }

/-- `OperationHistory::load`, on what the file decodes to. -/
def load (file : Option (List Operation)) (now : Timestamp) (saved : Bool) : OperationHistory :=
  pruneAndSave { operations := (file.getD []).map (interrupt now), file := file } now saved

/-- `OperationHistory::list`, before the conversion to transport
records. -/
def list (history : OperationHistory) : List Operation :=
  history.operations.filter fun operation => operation.state.isTerminal

-- ==== sessions

/-- One `observe` call of a session. -/
structure Snapshot where
  operation : Operation
  now : Timestamp
  saved : Bool

/-- The calls of a session, in order. -/
def session (history : OperationHistory) (snapshots : List Snapshot) : OperationHistory :=
  snapshots.foldl (fun h e => h.observe e.operation e.now e.saved) history

def snapshotsOf (id : Nat) (snapshots : List Snapshot) : List Operation :=
  having Operation.id id (snapshots.map Snapshot.operation)

theorem session_concat (snapshots : List Snapshot) (e : Snapshot) :
    session history (snapshots ++ [e])
      = (session history snapshots).observe e.operation e.now e.saved := by
  unfold session
  rw [foldl_concat]

theorem snapshotsOf_concat (snapshots : List Snapshot) (e : Snapshot) :
    snapshotsOf id (snapshots ++ [e]) = snapshotsOf id snapshots
        ++ if e.operation.id = id then [e.operation] else [] := by
  unfold snapshotsOf having
  rw [map_append, filter_append]
  by_cases he : e.operation.id = id <;> simp [he]

theorem having_session_sublist
    (hfresh : ∀ o ∈ history.operations, o.id ≠ id) (snapshots : List Snapshot) :
    (having Operation.id id (session history snapshots).operations).Sublist
      (snapshotsOf id snapshots).getLast?.toList := by
  induction snapshots using List.reverseRecOn with
  | nil =>
    have hnone : having Operation.id id history.operations = [] := by
      refine filter_eq_nil_iff.mpr fun o ho => ?_
      simpa using hfresh o ho
    show (having Operation.id id history.operations).Sublist _
    rw [hnone]
    exact nil_sublist _
  | append_singleton snapshots e ih =>
    rw [session_concat, snapshotsOf_concat]
    refine (having_sublist (prune_sublist _ _)).trans ?_
    by_cases he : e.operation.id = id
    · subst he
      rw [having_upsert_self (length_le_one_of_sublist ih)]
      simp
    · rw [having_upsert_of_ne he]
      simpa [he] using ih

variable {snapshots : List Snapshot}

theorem file_session (hsaved : ∀ e ∈ snapshots, e.saved = true) (hne : snapshots ≠ []) :
    (session history snapshots).file = some (session history snapshots).operations := by
  obtain ⟨front, e, rfl⟩ := (eq_nil_or_concat' snapshots).resolve_left hne
  rw [session_concat]
  have he := hsaved e (by simp)
  simp [observe, pruneAndSave, he]

theorem length_session_le (snapshots : List Snapshot) :
    (session history snapshots).operations.length
      ≤ history.operations.length + snapshots.length := by
  induction snapshots using List.reverseRecOn with
  | nil => exact Nat.le_refl _
  | append_singleton snapshots e ih =>
    rw [session_concat, length_append, length_singleton]
    have hprune := (prune_sublist e.now (upsert Operation.id e.operation
      (session history snapshots).operations)).length_le
    have hupsert := length_upsert_le Operation.id e.operation (session history snapshots).operations
    show (prune e.now (upsert Operation.id e.operation
      (session history snapshots).operations)).length ≤ _
    omega

theorem mem_session {last : Operation} (hfresh : ∀ o ∈ history.operations, o.id ≠ id)
    (hroom : history.operations.length + snapshots.length ≤ maxEntries)
    (hage : ∀ o ∈ snapshotsOf id snapshots, ∀ e ∈ snapshots, retained e.now o = true)
    (hlast : (snapshotsOf id snapshots).getLast? = some last) :
    last ∈ (session history snapshots).operations := by
  induction snapshots using List.reverseRecOn generalizing last with
  | nil => cases hlast
  | append_singleton snapshots e ih =>
    rw [length_append, length_singleton] at hroom
    have hlen := history.length_session_le snapshots
    have hupsert := length_upsert_le Operation.id e.operation (session history snapshots).operations
    rw [session_concat]
    show last ∈ prune e.now (upsert Operation.id e.operation (session history snapshots).operations)
    rw [prune_of_length_le _ (by omega)]
    have hkept : retained e.now last = true := hage last (mem_of_getLast? hlast) e (by simp)
    refine mem_filter.mpr ⟨?_, hkept⟩
    rw [snapshotsOf_concat] at hlast hage
    have hown : last ∈ having Operation.id id (upsert Operation.id e.operation
          (session history snapshots).operations) := by
      by_cases he : e.operation.id = id
      · subst he
        have honly := having_session_sublist hfresh snapshots
        rw [having_upsert_self (length_le_one_of_sublist honly)]
        simpa using hlast.symm
      · rw [having_upsert_of_ne he]
        simp only [he, if_false, append_nil] at hlast hage
        have hin := ih (by omega) (fun o ho e' he' => hage o ho e' (mem_append_left _ he')) hlast
        have hid := (mem_having.mp (mem_of_getLast? hlast)).2
        exact mem_having.mpr ⟨hin, hid⟩
    exact (mem_having.mp hown).1

-- ==== after a restart

@[simp] theorem interrupt_id (now : Timestamp) (operation : Operation) :
    (interrupt now operation).id = operation.id := by
  unfold interrupt
  split <;> rfl

theorem interrupt_state (now : Timestamp) (operation : Operation) :
    (interrupt now operation).state
      = if operation.state.isTerminal then operation.state else .interrupted := by
  unfold interrupt
  split <;> rfl

theorem interrupt_isTerminal (now : Timestamp) (operation : Operation) :
    (interrupt now operation).state.isTerminal = true := by
  rw [interrupt_state]
  split
  case isTrue h => exact h
  case isFalse => rfl

theorem retained_interrupt {operation : Operation} (h : retained now operation = true) :
    retained now (interrupt now operation) = true := by
  unfold interrupt
  split
  case isTrue => exact h
  case isFalse => simp [retained]

theorem mem_list_load {o : Operation}
    (h : o ∈ (load (some file) now saved).list) : ∃ stored ∈ file, o = interrupt now stored := by
  unfold list at h
  have hin := (prune_sublist now (file.map (interrupt now))).subset (mem_filter.mp h).1
  obtain ⟨stored, hmem, heq⟩ := mem_map.mp hin
  exact ⟨stored, hmem, heq.symm⟩

theorem list_load_of_mem {stored : Operation}
    (hmem : stored ∈ file) (hroom : file.length ≤ maxEntries) (hage : retained now stored = true) :
    interrupt now stored ∈ (load (some file) now saved).list := by
  unfold list
  refine mem_filter.mpr ⟨?_, interrupt_isTerminal now stored⟩
  show interrupt now stored ∈ prune now (file.map (interrupt now))
  rw [prune_of_length_le now (by simpa using hroom)]
  exact mem_filter.mpr ⟨mem_map.mpr ⟨stored, hmem, rfl⟩, retained_interrupt hage⟩

end OperationHistory

end FileManager
