/-
Applying a sync plan (`fm-application`: `apply_sync_plan` and
`start_operation` of `service.rs`, `operation_requests.rs`, and `plan` of
`operation_planner.rs` for the two kinds of operation that a row becomes;
`fm-comparison`: `path.rs`).

What the planner asks of the providers is a parameter. The operations
that were started are kept with the rows that they were started for.
-/
import FileManager.Comparison.Model
import FileManager.Operations.Model
import FileManager.Locations.Model

namespace FileManager.Comparison.Apply

/-- `ApplicationError`, as far as a row meets it; an invalid location is
an `InvalidRequest`, with the text of its error. -/
inductive ApplicationError
  | notFound
  | invalidRequest (message : String)
  | invalidLocation (error : Locations.LocationError)
  | provider (error : VfsError)

/-- `StartOperationRequestDto`, as far as it is read here. -/
structure StartOperationRequest where
  operationType : OperationKind
  sources : List Locations.Location
  destination : Option Locations.Location
  conflictPolicy : ConflictPolicy

/-- What the service rests on: what a connection's identifier is, and
what is asked of the providers, to find that of a location and what it
can do, and how to bring a source to a directory. -/
structure Service where
  isUuid : List Char → Bool
  canRead : Locations.Location → Except ApplicationError Unit
  canWrite : Locations.Location → Except ApplicationError Unit
  canDelete : Locations.Location → Except ApplicationError Unit
  resolveTransfer : Locations.Location → Locations.Location → Except ApplicationError Unit

-- ==== starting

/-- `OperationPlanner::plan`, of a copy and a delete. -/
def Service.plan (service : Service) (request : StartOperationRequest) :
    Except ApplicationError Unit :=
  if request.operationType = .copy then
    if request.sources = [] then .error (.invalidRequest "copy requires at least one source")
    else
      match request.destination with
      | none => .error (.invalidRequest "copy requires a destination directory")
      | some directory => do
        service.canWrite directory
        request.sources.forM fun source => do
          service.canRead source
          service.resolveTransfer source directory
  else if request.sources = [] then
    .error (.invalidRequest "delete requires at least one source")
  else request.sources.forM service.canDelete

/-- `start_operation` without an idempotency key; what is planned is
submitted. -/
def Service.startOperation (service : Service) (request : StartOperationRequest) :
    Except ApplicationError Unit :=
  if request.conflictPolicy = .keepNewer then
    .error (.invalidRequest ("keepNewer conflict policy is not supported yet; "
      ++ "choose ask, skip, overwrite, or renameNew"))
  else service.plan request

-- ==== rows

/-- The two roots of a comparison. -/
structure Roots where
  left : Locations.Location
  right : Locations.Location

variable (service : Service)

/-- The loop of `resolve_relative`. -/
def joinAll (current : Locations.Location) :
    List (List Char) → Except Locations.LocationError Locations.Location
  | [] => .ok current
  | segment :: rest => do joinAll (← current.join service.isUuid segment) rest

def resolveRelative (root : Locations.Location) (relativePath : List Char) :
    Except Locations.LocationError Locations.Location :=
  if relativePath = [] then .ok root else joinAll service root (relativePath.splitOn '/')

/-- `relative_parent`: what comes before the last slash. -/
def relativeParent (relativePath : List Char) : List Char :=
  (relativePath.reverse.dropWhile (· ≠ '/')).tail.reverse

def copyRequest (sourceRoot destinationRoot : Locations.Location) (relativePath : List Char) :
    Except ApplicationError StartOperationRequest := do
  let source ← (resolveRelative service sourceRoot relativePath).mapError .invalidLocation
  let destinationParent ← (resolveRelative service destinationRoot
    (relativeParent relativePath)).mapError .invalidLocation
  return { operationType := .copy, sources := [source], destination := some destinationParent,
           conflictPolicy := .overwrite }

def deleteRequest (root : Locations.Location) (relativePath : List Char) :
    Except ApplicationError StartOperationRequest := do
  let target ← (resolveRelative service root relativePath).mapError .invalidLocation
  return { operationType := .delete, sources := [target], destination := none,
           conflictPolicy := .ask }

/-- What a row asks for; nothing, if it is skipped. -/
def rowRequest (roots : Roots) (item : SyncPlanItem) :
    Option (Except ApplicationError StartOperationRequest) :=
  match item.action with
  | .skip => none
  | .copyLeftToRight => some (copyRequest service roots.left roots.right item.relativePath.toList)
  | .copyRightToLeft => some (copyRequest service roots.right roots.left item.relativePath.toList)
  | .deleteLeft => some (deleteRequest service roots.left item.relativePath.toList)
  | .deleteRight => some (deleteRequest service roots.right item.relativePath.toList)

/-- An operation, by its row and its request. -/
abbrev Started := SyncPlanItem × StartOperationRequest

/-- A turn of the loop in `apply_sync_plan`. -/
def applyRow (roots : Roots) (item : SyncPlanItem) : Except ApplicationError (Option Started) :=
  match rowRequest service roots item with
  | none => .ok none
  | some made => do
    let request ← made
    service.startOperation request
    return some (item, request)

/-- The loop, with what has been started so far. -/
def applyRows (roots : Roots) :
    List SyncPlanItem → List Started → Except ApplicationError Unit × List Started
  | [], started => (.ok (), started)
  | item :: rest, started =>
    match applyRow service roots item with
    | .error error => (.error error, started)
    | .ok operation => applyRows roots rest (started ++ operation.toList)

/-- `apply_sync_plan`, with the roots that the store has for the
comparison. -/
def applySyncPlan (roots : Option Roots) (items : List SyncPlanItem) :
    Except ApplicationError Unit × List Started :=
  match roots with
  | none => (.error .notFound, [])
  | some roots => applyRows service roots items []

end FileManager.Comparison.Apply
