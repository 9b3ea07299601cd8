/-
What an operation is to do, before any destination is written down: the
entries that each of its sources reaches, with the path along which it
reaches them. An entry reached along two paths occurs twice.

The walk is the one that planning makes (a directory is entered when it
is reached; through a followed link only if it has not been entered
before), but it builds no map. A source whose walk fails reaches
nothing.
-/
import FileManager.Transfers.Groups

namespace FileManager

/-- The place below a location along a path. -/
def Location.descend (location : Location) (path : List String) : Location :=
  { location with
    uri := { location.uri with segments := location.uri.segments ++ path } }

namespace Transfers

/-- The entries below one source, each with its path, and the place the
source itself goes to. -/
structure Reach where
  root : Location
  entries : List (Location × List String)

/-- An entry reached along a path below a root. -/
structure Occurrence where
  entry : Location
  root : Location
  path : List String
deriving DecidableEq

def Occurrence.destination (o : Occurrence) : Location := o.root.descend o.path

def Reach.occurrences (reach : Reach) : List Occurrence :=
  reach.entries.map fun entry =>
    { entry := entry.1, root := reach.root, path := entry.2 }

-- ==== one source

namespace CopyExecutor

variable (copy : CopyExecutor) (env : Env) (files : Files)

/-- The entries of a directory that is entered, its last page first. -/
def below (round : Nat) (source : EntrySummary) : Option (List EntrySummary) :=
  if source.kind = .directory then
    let pages := list env files source.location
    if (∀ page < pages.length, env.fault (.list round page) = none)
        ∧ ∀ child ∈ pages.flatten, validateName child.name = .ok () then
      some pages.reverse.flatten
    else none
  else some []

/-- The walk, from what is still to be visited. -/
def walk : Nat → List (EntrySummary × List String) → List EntryId →
    Option (List (Location × List String))
  | _, [], _ => some []
  | 0, _ :: _, _ => none
  | fuel + 1, (summary, path) :: rest, followed =>
    if env.cancelled (.visit fuel) then none
    else
      match copy.follow env files fuel summary followed with
      | .error _ => none
      | .ok none => walk fuel rest followed
      | .ok (some (source, followed')) =>
        match below env files fuel source with
        | none => none
        | some children =>
          (walk fuel (children.map (fun child => (child, path ++ [child.name]))
            ++ rest) followed').map ((summary.location, path) :: ·)

/-- What the copy of a source reaches. -/
def reach (operation : Operation) (rootName : Option String) (fuel : Nat) :
    Option Reach := do
  let source ← copy.sourceOverride.or (operation.sources.head?.map EntryRef.location)
  let summary ← (env.ask .inspectRoot (inspect env files source)).toOption
  let root ← (copy.destinationDirectory.join (rootName.getD summary.name)).toOption
  if source.providerId = root.providerId ∧ validatePaths source root ≠ .ok () then
    none
  else
    (copy.walk env files fuel [(summary, [])] []).map fun entries =>
      { root := root, entries := entries }

end CopyExecutor

namespace Member

variable (env : Env) (files : Files)

def freeName (directory : Location) (name : String) : Nat → Nat → Option String
  | 0, _ => none
  | fuel + 1, index =>
    match directory.join (duplicateName name index) with
    | .error _ => none
    | .ok destination =>
      match env.ask (.probe index) (inspect env files destination) with
      | .error (.notFound _) => some (duplicateName name index)
      | .ok _ => freeName directory name fuel (min (index + 1) (2 ^ 32 - 1))
      | .error _ => none

/-- Whether a source can be renamed to where it goes, if that can be
told. -/
def renames (move : MoveExecutor) : Option Bool :=
  if !move.forceFallback && move.transfer.serverSideMove then
    (env.ask .sameFilesystem (.ok env.sameFilesystem)).toOption
  else some false

def reach (operation : Operation) (fuel : Nat) : Member → Option Reach
  | .copy executor => executor.reach env files operation none fuel
  | .duplicate executor => do
    let source ← executor.sourceOverride
    let name ← source.name.toOption
    let rootName ← freeName env files executor.destinationDirectory name fuel 1
    executor.reach env files operation (some rootName) fuel
  | .move executor => do
    let name ← executor.source.name.toOption
    let root ← (executor.destinationDirectory.join name).toOption
    let _ ← (validatePaths executor.source root).toOption
    match ← renames env executor with
    | true => some { root := root, entries := [(executor.source, [])] }
    | false => executor.copy.reach env files operation none fuel

end Member

-- ==== one operation

namespace Group

/-- What the members from member `i` on reach. -/
def reachFrom (envs : Nat → Env) (files : Files) (operation : Operation)
    (fuel : Nat) : Nat → List Member → List (Member × Option Reach)
  | _, [] => []
  | i, member :: rest =>
    (member, member.reach (envs i) files operation fuel)
      :: reachFrom envs files operation fuel (i + 1) rest

/-- The occurrences of what members reach. -/
def occurrencesOf (reaches : List (Member × Option Reach)) : List Occurrence :=
  reaches.flatMap fun pair => pair.2.elim [] Reach.occurrences

/-- The sources of the members that reach nothing. -/
def goneOf (reaches : List (Member × Option Reach)) : List Location :=
  reaches.filterMap fun pair =>
    match pair.2, pair.1.staleSource with
    | none, some (.ok source) => some source
    | _, _ => none

/-- What the members of a group reach, in order. -/
def reaches (group : Group) (envs : Nat → Env) (files : Files)
    (operation : Operation) (fuel : Nat) : List (Member × Option Reach) :=
  reachFrom envs files operation fuel 0 group.members

end Group

-- ==== what is executed

/-- The destination `execute` looks up for an entry, in one member. -/
def Member.destinationOf (seat : Seat) (location : Location) :
    Member → Option Location
  | .copy _ | .duplicate _ =>
    (Keyed.get seat.cells.planned location).map PlannedCopyEntry.destination
  | .move executor =>
    if seat.fallback then
      (Keyed.get seat.cells.planned location).map PlannedCopyEntry.destination
    else
      match location.name with
      | .error _ => none
      | .ok name => (executor.destinationDirectory.join name).toOption

/-- The destination a group executes the item of an entry against: that
of the member it is handed to. -/
def Group.executedAt (group : Group) (g : GroupWorld) (location : Location) : Option Location :=
  if location ∈ g.stale then none
  else
    match group.owner g location with
    | none => none
    | some (i, member) =>
      g.seats[i]?.bind fun seat => member.destinationOf seat location

/-- A group that has not begun, on some files. -/
def Group.fresh (group : Group) (files : Files) : GroupWorld where
  disk := { files := files, staged := [], log := [] }
  seats := group.members.map fun _ => {}
  stale := []

end Transfers

end FileManager
