/-
`MoveExecutor` (`fm-application`, `operation_planner.rs`): the move of
one source into a destination directory. Where both are on one
filesystem the source is renamed; otherwise (`fallback`) it is copied
by the `CopyExecutor` the move owns, and `finish` removes it once its
root has arrived.
-/
import FileManager.Transfers.Copy

namespace FileManager.Transfers

open Fallible (reads writes)
open Scheduler (ExecutionOutcome OperationPlan PlanItem)
open LocationError (message)

/-- `MoveExecutor`, without its cells. -/
structure MoveExecutor where
  source : Location
  destinationDirectory : Location
  symlinkPolicy : SymlinkPolicy
  forceFallback : Bool
  transfer : TransferPlan

namespace MoveExecutor

variable (move : MoveExecutor) (env : Env)

/-- The copy a move falls back to: it stops at the first error. -/
def copy : CopyExecutor where
  destinationDirectory := move.destinationDirectory
  symlinkPolicy := move.symlinkPolicy
  sourceOverride := some move.source
  continueOnError := false
  transfer := move.transfer

/-- Whether the source can be renamed to where it goes. -/
def onSameFilesystem : Exec Bool :=
  if !move.forceFallback && move.transfer.serverSideMove then
    consult env .sameFilesystem fun _ => .ok env.sameFilesystem
  else pure false

/-- `MoveExecutor::plan`. -/
def plan (operation : Operation) (fuel : Nat) : Exec OperationPlan := do
  let name ← orFail message move.source.name
  let destination ← orFail message (move.destinationDirectory.join name)
  orFail SafetyError.message (validatePaths move.source destination)
  let sameFilesystem ← move.onSameFilesystem env
  writes fun w => { w with fallback := !sameFilesystem }
  if sameFilesystem then
    pure (OperationPlan.new
      [{ entry := { id := env.identify move.source, location := move.source }
         bytes := 0 }]
      (by simp [Word.max]))
  else move.copy.plan env operation fuel

/-- Where a renamed source goes: over what is there, beside it, or to
the free place. -/
def makeRoom (fuel : Nat) (destination : Location) (recursive : Bool) :
    CopyExecutor.Disposition → Exec Location
  | .free | .skip => pure destination
  | .overwrite => do
    remove env .removeDestination destination recursive
    pure destination
  | .renameNew => CopyExecutor.nextCopyDestination env fuel destination

/-- `MoveExecutor::execute` on one filesystem. -/
def executeRename (operation : Operation) (item : PlanItem)
    (resolution : Option ConflictResolution) (fuel : Nat) :
    Exec ExecutionOutcome := do
  let name ← orFail message item.entry.location.name
  let destination ← orFail message (move.destinationDirectory.join name)
  let disposition ← reads fun w =>
    CopyExecutor.examine env operation.conflictPolicy resolution
      item.entry.location destination w.disk.files
  if disposition = .skip then pure .skipped
  else
    let recursive ← reads fun w =>
      .ok (Keyed.get w.disk.files destination = some Node.directory : Bool)
    let destination' ← makeRoom env fuel destination recursive disposition
    perform env .rename (rename item.entry.location destination')
    pure .completed

/-- `MoveExecutor::execute`. -/
def execute (operation : Operation) (item : PlanItem)
    (resolution : Option ConflictResolution) (fuel : Nat) :
    Exec ExecutionOutcome := do
  let fallback ← reads fun w => .ok w.fallback
  if fallback then move.copy.execute env operation item resolution fuel
  else move.executeRename env operation item resolution fuel

/-- `MoveExecutor::cleanup_partial`. -/
def cleanupPartial : Exec PUnit := CopyExecutor.cleanupPartial env

/-- The end of a move that copied: the source goes once its root has a
destination, and the destination is there. -/
def removeSource : Exec PUnit := do
  let cells ← reads fun w => .ok w.cells
  match cells.completedRootDestination with
  | none => pure ()
  | some destination => do
    let _ ← consult env .inspectCompleted (inspect env · destination)
    remove env .removeSource move.source true

/-- `MoveExecutor::finish`. -/
def finish : Exec PUnit := do
  let fallback ← reads fun w => .ok w.fallback
  if fallback then
    move.copy.finish env
    if env.cancelled .finished then pure ()
    else move.removeSource env

end MoveExecutor

end FileManager.Transfers
