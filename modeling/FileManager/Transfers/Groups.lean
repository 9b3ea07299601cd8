/-
The executors of whole operations (`fm-application`,
`operation_planner.rs`): `CopyGroupExecutor`, `MoveGroupExecutor` and
`DuplicateExecutor`. Each holds one executor for each source, with cells
of its own, plans them in order into one plan, and hands every plan item
to the first of them that knows it.

The three differ in how a member plans, in which items are a member's,
in what becomes of a source that is gone, and in one text.
-/
import FileManager.Transfers.Move

namespace FileManager.Transfers

open Fallible (reads writes stuck caught)
open Scheduler (ExecutionError ExecutionOutcome OperationPlan PlanItem)

-- ==== the state

/-- The cells of one member; `fallback` is used by moves only. -/
structure Seat where
  cells : CopyCells := {}
  fallback : Bool := false

/-- The disk, the members' cells, and the keys of `stale_sources`. -/
structure GroupWorld where
  disk : Disk
  seats : List Seat
  stale : List Location

abbrev GroupExec := Fallible.Prog ExecutionError GroupWorld

/-- What a member sees of a group. -/
def GroupWorld.at (g : GroupWorld) (seat : Seat) : World where
  disk := g.disk
  cells := seat.cells
  fallback := seat.fallback

/-- The group after a call of member `i`. -/
def GroupWorld.after (g : GroupWorld) (i : Nat) (w : World) : GroupWorld :=
  { g with
    disk := w.disk
    seats := g.seats.set i { cells := w.cells, fallback := w.fallback } }

/-- A call of member `i`. -/
def onSeat {α : Type} (i : Nat) (p : Exec α) : GroupExec α := fun g =>
  match g.seats[i]? with
  | none => none
  | some seat =>
    match p.run.run (g.at seat) with
    | none => none
    | some (result, w) => some (result, g.after i w)

-- ==== the members

/-- `duplicate_name`: the suffix goes before the first dot that is not
the first character. -/
def duplicateName (name : String) (index : Nat) : String :=
  let stem := name.toList.take 1 ++ (name.toList.drop 1).takeWhile (· ≠ '.')
  let extension := name.toList.drop stem.length
  let suffix := if index ≤ 1 then " copy" else " copy " ++ toString index
  String.ofList stem ++ suffix ++ String.ofList extension

/-- The search for a free name in `DuplicateExecutor::plan`. -/
def duplicateFrom (env : Env) (directory : Location) (name : String) :
    Nat → Nat → Exec String
  | 0, _ => stuck
  | fuel + 1, index => do
    let candidate := duplicateName name index
    let destination ← orFail LocationError.message (directory.join candidate)
    let found ← reads fun w =>
      .ok (env.ask (.probe index) (inspect env w.disk.files destination))
    match found with
    | .error (.notFound _) => pure candidate
    | .ok _ => duplicateFrom env directory name fuel (min (index + 1) (2 ^ 32 - 1))
    | .error error => throw (.provider error)

inductive Member
  | copy (executor : CopyExecutor)
  | move (executor : MoveExecutor)
  | duplicate (executor : CopyExecutor)

namespace Member

/-- The copy a member makes, or falls back to. -/
def copier : Member → CopyExecutor
  | .copy executor | .duplicate executor => executor
  | .move executor => executor.copy

def duplicateSource (executor : CopyExecutor) : Exec Location :=
  match executor.sourceOverride with
  | some source => pure source
  | none => throw (.failed "duplicate source is missing")

/-- The planning of one duplicate: find it a name, then plan the copy. -/
def planDuplicate (executor : CopyExecutor) (env : Env) (operation : Operation)
    (fuel : Nat) : Exec OperationPlan := do
  let source ← duplicateSource executor
  let name ← orFail LocationError.message source.name
  let rootName ← duplicateFrom env executor.destinationDirectory name fuel 1
  setCells fun cells => { cells with rootName := some rootName }
  executor.plan env operation fuel

/-- A member's `plan`. -/
def plan (env : Env) (operation : Operation) (fuel : Nat) :
    Member → Exec OperationPlan
  | .copy executor => executor.plan env operation fuel
  | .move executor => executor.plan env operation fuel
  | .duplicate executor => planDuplicate executor env operation fuel

/-- Whether a plan item is handed to this member. -/
def knows (location : Location) (cells : CopyCells) : Member → Bool
  | .copy _ | .duplicate _ => (Keyed.get cells.planned location).isSome
  | .move executor =>
    decide (location = executor.source) || (Keyed.get cells.planned location).isSome

/-- A member's `execute`. -/
def execute (env : Env) (operation : Operation) (item : PlanItem)
    (resolution : Option ConflictResolution) (fuel : Nat) :
    Member → Exec ExecutionOutcome
  | .copy executor | .duplicate executor =>
    executor.execute env operation item resolution fuel
  | .move executor => executor.execute env operation item resolution fuel

/-- A member's `finish`. -/
def finish (env : Env) : Member → Exec PUnit
  | .copy executor | .duplicate executor => executor.finish env
  | .move executor => executor.finish env

/-- What to do about a source that is gone: the source to report, or the
error that is raised (`none` where it is handed on). -/
def staleSource : Member → Option (Except ExecutionError Location)
  | .copy executor => some (match executor.sourceOverride with
      | some source => .ok source
      | none => .error (.failed "copy source is missing from its plan"))
  | .move executor => some (.ok executor.source)
  | .duplicate _ => none

end Member

-- ==== the groups

/-- The executor of one operation. -/
inductive Group
  | copyGroup (copies : List CopyExecutor)
  | moveGroup (moves : List MoveExecutor)
  | duplicate (copies : List CopyExecutor)

namespace Group

def members : Group → List Member
  | .copyGroup copies => copies.map .copy
  | .moveGroup moves => moves.map .move
  | .duplicate copies => copies.map .duplicate

/-- The text for an item that no member knows. -/
def missing : Group → String
  | .copyGroup _ => "copy plan entry is missing"
  | .moveGroup _ => "move plan entry is missing"
  | .duplicate _ => "duplicate plan entry is missing"

/-- The items one member contributes to the plan. A source that is gone
becomes an item of its own, which `execute` warns about. -/
def planMember (env : Env) (operation : Operation) (fuel : Nat) (i : Nat)
    (member : Member) : GroupExec (List PlanItem) := do
  match ← caught (onSeat i (member.plan env operation fuel)) with
  | .ok plan => pure plan.items
  | .error (.provider (.notFound location)) =>
    match member.staleSource with
    | none => throw (.provider (.notFound location))
    | some (.error error) => throw error
    | some (.ok source) => do
      writes fun g => { g with stale := source :: g.stale }
      pure [{ entry := { id := env.identify source, location := source }
              bytes := 0 }]
  | .error error => throw error

/-- The planning loop over the members; member `i` makes its calls in
`envs i`. -/
def planMembers (envs : Nat → Env) (operation : Operation) (fuel : Nat) :
    Nat → List Member → GroupExec (List PlanItem)
  | _, [] => pure []
  | i, member :: rest => do
    let items ← planMember (envs i) operation fuel i member
    let more ← planMembers envs operation fuel (i + 1) rest
    pure (items ++ more)

/-- `plan` of a group. -/
def plan (group : Group) (envs : Nat → Env) (operation : Operation)
    (fuel : Nat) : GroupExec OperationPlan := do
  let items ← planMembers envs operation fuel 0 group.members
  -- a `Vec` holds no more
  if fits : items.length ≤ Word.max then pure (OperationPlan.new items fits)
  else stuck

/-- The first member, from member `i` on, that knows the location. -/
def ownerFrom (location : Location) (seats : List Seat) :
    Nat → List Member → Option (Nat × Member)
  | _, [] => none
  | i, member :: rest =>
    if seats[i]?.any (fun seat => member.knows location seat.cells) then
      some (i, member)
    else ownerFrom location seats (i + 1) rest

/-- The member a plan item is handed to. -/
def owner (group : Group) (g : GroupWorld) (location : Location) : Option (Nat × Member) :=
  ownerFrom location g.seats 0 group.members

/-- The warning for an item whose source was gone when it was planned. -/
def goneWarning (item : PlanItem) : ExecutionError :=
  .warning item.entry "Source no longer exists; skipped."

/-- `execute` of a group. Duplicates keep no stale sources. -/
def execute (group : Group) (env : Env) (operation : Operation) (item : PlanItem)
    (resolution : Option ConflictResolution) (fuel : Nat) :
    GroupExec ExecutionOutcome := do
  let g ← reads fun g => .ok g
  if item.entry.location ∈ g.stale then throw (goneWarning item)
  else
    match group.owner g item.entry.location with
    | some (i, member) =>
      onSeat i (member.execute env operation item resolution fuel)
    | none => throw (.failed group.missing)

/-- A call of every member in turn; the first error ends it. -/
def eachMember (call : Nat → Member → Exec PUnit) :
    Nat → List Member → GroupExec PUnit
  | _, [] => pure ⟨⟩
  | i, member :: rest => do
    onSeat i (call i member)
    eachMember call (i + 1) rest

/-- `cleanup_partial` of a group. -/
def cleanupPartial (group : Group) (envs : Nat → Env) : GroupExec PUnit :=
  eachMember (fun i _ => CopyExecutor.cleanupPartial (envs i)) 0 group.members

/-- `finish` of a group. -/
def finish (group : Group) (envs : Nat → Env) : GroupExec PUnit :=
  eachMember (fun i member => member.finish (envs i)) 0 group.members

end Group

end FileManager.Transfers
