/-
`DeleteExecutor` (`fm-application`, `operation_planner.rs`): permanent
deletion. It plans the trees of its sources, a directory after what is in
it, and removes one entry a call, without what may be below it.

The planning of each source has an environment of its own. Which entries
a listing marks as read-only is an attribute of the provider's, kept
beside its files. The audit record that the end of a deletion appends to
a log is not modelled.
-/
import FileManager.Transfers.Provider

namespace FileManager.Transfers

open Fallible (writes)
open Scheduler (ExecutionError ExecutionOutcome OperationPlan PlanItem)

/-- `DeleteExecutor`, without its counter: the providers it knows, and
whether read-only entries are deleted. -/
structure DeleteExecutor where
  providers : List String
  overrideReadOnly : Bool

/-- The disk, and the executor's counter of what it has removed. -/
structure DeleteWorld where
  disk : Disk
  deleted : Nat

abbrev DeleteExec := Fallible.Prog ExecutionError DeleteWorld

/-- The locals of the planning loop; the stack's top comes first, and an
entry is marked once its children have been put on it. -/
structure Deletion where
  stack : List (EntrySummary × Bool)
  items : List PlanItem

namespace DeleteExecutor

variable (delete : DeleteExecutor) (readOnly : Location → Bool) (env : Env)

-- ==== planning

/-- Push the entries of one page, the last first. -/
def pushPage (entries : List EntrySummary) (stack : List (EntrySummary × Bool)) :
    List (EntrySummary × Bool) :=
  entries.reverse.foldl (fun stack child => (child, false) :: stack) stack

/-- Push the pages of a listing, from page `page` on. -/
def pushPages (round : Nat) :
    Nat → List (List EntrySummary) → List (EntrySummary × Bool) →
    Except ExecutionError (List (EntrySummary × Bool))
  | _, [], stack => .ok stack
  | page, entries :: rest, stack =>
    match env.fault (.list round page) with
    | some fault => .error (.provider fault.error)
    | none => pushPages round (page + 1) rest (pushPage entries stack)

/-- One round of the planning loop, for the entry taken off the stack. -/
def visit (files : Files) (round : Nat) (summary : EntrySummary) (visited : Bool)
    (st : Deletion) : Except ExecutionError Deletion :=
  if env.cancelled (.visit round) then .error (.provider .cancelled)
  else if readOnly summary.location && !delete.overrideReadOnly then
    .error (.failed ("read-only entry requires explicit override: "
      ++ env.uriText summary.location))
  else if summary.kind = .directory ∧ visited = false then
    match pushPages env round 0 (list env files summary.location) ((summary, true) :: st.stack) with
    | .error error => .error error
    | .ok stack => .ok { st with stack := stack }
  else
    .ok { st with
      items := st.items ++ [{ entry := summary.entry, bytes := summary.size.getD 0 }] }

def planLoop (files : Files) : Nat → Deletion → Option (Except ExecutionError Deletion)
  | fuel, st =>
    match st.stack, fuel with
    | [], _ => some (.ok st)
    | _ :: _, 0 => none
    | (summary, visited) :: rest, fuel + 1 =>
      match delete.visit readOnly env files fuel summary visited { st with stack := rest } with
      | .error error => some (.error error)
      | .ok st' => planLoop files fuel st'

def providerMissing : ExecutionError := .failed "delete provider is missing"

/-- The planning of one source, behind the items of those before it. -/
def planSource (files : Files) (fuel : Nat) (source : Location) (items : List PlanItem) :
    Option (Except ExecutionError (List PlanItem)) :=
  if source.providerId ∉ delete.providers then some (.error providerMissing)
  else
    match env.ask .inspectRoot (inspect env files source) with
    | .error error => some (.error (.provider error))
    | .ok root =>
      (delete.planLoop readOnly env files fuel
        { stack := [(root, false)], items := items }).map (·.map Deletion.items)

/-- The planning of the sources, the first of which is the `i`-th. -/
def planSources (envs : Nat → Env) (files : Files) (fuel : Nat) :
    Nat → List Location → List PlanItem → Option (Except ExecutionError (List PlanItem))
  | _, [], items => some (.ok items)
  | i, source :: rest, items =>
    match delete.planSource readOnly (envs i) files fuel source items with
    | none => none
    | some (.error error) => some (.error error)
    | some (.ok items') => planSources envs files fuel (i + 1) rest items'

/-- `DeleteExecutor::plan`. -/
def plan (envs : Nat → Env) (operation : Operation) (fuel : Nat) :
    DeleteExec OperationPlan := fun w =>
  match delete.planSources readOnly envs w.disk.files fuel 0
      (operation.sources.map EntryRef.location) [] with
  | none => none
  | some (.error error) => some (.error error, w)
  | some (.ok items) =>
    -- a `Vec` holds no more
    if fits : items.length ≤ Word.max then some (.ok (OperationPlan.new items fits), w)
    else none

-- ==== removing

/-- `remove`, not recursive, with its error as the answer. -/
def removeEntry (location : Location) : DeleteExec (Except VfsError Unit) := fun w =>
  match removalOf w.disk.files location false, env.fault .removeSource with
  | .ok gone, none => some (.ok (.ok ()), { w with disk := takeAway gone w.disk })
  | .ok gone, some fault =>
    some (.ok (.error fault.error), { w with
      disk := takeAway (fun l => gone l && !env.survives l) w.disk })
  | .error error, none => some (.ok (.error error), w)
  | .error _, some fault => some (.ok (.error fault.error), w)

/-- `DeleteExecutor::execute`. The counter is an `AtomicU64`. -/
def execute (item : PlanItem) : DeleteExec ExecutionOutcome := do
  if item.entry.location.providerId ∉ delete.providers then throw providerMissing
  else
    match ← removeEntry env item.entry.location with
    | .ok () =>
      writes fun w => { w with deleted := (w.deleted + 1) % 2 ^ 64 }
      pure .completed
    | .error error => throw (.warning item.entry (error.message env.uriText))

/-- The items of a plan, executed in its order. -/
def executeAll (envs : PlanItem → Env) : List PlanItem → DeleteExec (List ExecutionOutcome)
  | [] => pure []
  | item :: rest => do
    let outcome ← delete.execute (envs item) item
    let outcomes ← executeAll envs rest
    pure (outcome :: outcomes)

end DeleteExecutor

end FileManager.Transfers
