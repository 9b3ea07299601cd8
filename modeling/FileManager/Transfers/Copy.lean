/-
`CopyExecutor` (`fm-application`, `operation_planner.rs`): the copy of
one source below a destination directory. It plans the source's tree,
transfers one planned entry a call, and keeps its plan and its progress
in cells that its calls share.

A loop of the source whose length the model does not bound takes fuel;
a call that runs out of it has not returned, and is no step. The pause
token only delays, and metadata is not modelled: of `preserve_metadata`
and `capabilities_for` only the failures remain.
-/
import FileManager.Transfers.Provider

namespace FileManager.Transfers

open Fallible (reads writes stuck onlyIf)
open Scheduler (ExecutionError ExecutionOutcome OperationPlan PlanItem)

-- ==== the executor

/-- `SymlinkPolicyDto`. -/
inductive SymlinkPolicy
  | copyLink
  | copyTarget
deriving DecidableEq

/-- `TransferPlan`: whether the strategy is `ServerSideCopy`, whether the
move strategy is `ServerSideMove`, and whether both sides are one
endpoint. -/
structure TransferPlan where
  serverSideCopy : Bool
  serverSideMove : Bool
  sameEndpoint : Bool

/-- `CopyExecutor`, without its cells. -/
structure CopyExecutor where
  destinationDirectory : Location
  symlinkPolicy : SymlinkPolicy
  sourceOverride : Option Location
  continueOnError : Bool
  transfer : TransferPlan

structure PlannedCopyEntry where
  kind : EntryKind
  destination : Location
  source : EntryRef
  isRoot : Bool
deriving DecidableEq

/-- The cells of `CopyExecutor`. `planned` is keyed by the planned
entry's URI, which names its provider, so by its location. -/
structure CopyCells where
  temporary : Option Location := none
  planned : List (Location × PlannedCopyEntry) := []
  directories : List (EntryRef × Location) := []
  rootName : Option String := none
  completedRootDestination : Option Location := none
deriving DecidableEq

/-- The disk and the executor's cells; `fallback` is `MoveExecutor`'s. -/
structure World where
  disk : Disk
  cells : CopyCells
  fallback : Bool
deriving DecidableEq

abbrev Exec := Fallible.Prog ExecutionError World

/-- A provider call that only reads. -/
def consult (env : Env) (call : Call) {α : Type} (answer : Files → Except VfsError α) : Exec α :=
  reads fun w => (env.ask call (answer w.disk.files)).mapError .provider

/-- A provider call that writes the disk, with its error as the
answer. -/
def attempt (env : Env) (call : Call) (effect : Disk → Except VfsError Disk) :
    Exec (Except VfsError Unit) := fun w =>
  match effect w.disk, env.fault call with
  | .ok disk, none => some (.ok (.ok ()), { w with disk := disk })
  | .ok disk, some fault =>
    some (.ok (.error fault.error),
      if fault.applied then { w with disk := disk } else w)
  | .error error, none => some (.ok (.error error), w)
  | .error _, some fault => some (.ok (.error fault.error), w)

/-- A provider call that writes the disk, with `?`. -/
def perform (env : Env) (call : Call) (effect : Disk → Except VfsError Disk) :
    Exec PUnit := do
  match ← attempt env call effect with
  | .ok () => pure ()
  | .error error => throw (.provider error)

/-- `remove`: a failing removal may have taken a part away. -/
def remove (env : Env) (call : Call) (location : Location) (recursive : Bool) :
    Exec PUnit := fun w =>
  match removalOf w.disk.files location recursive, env.fault call with
  | .ok gone, none =>
    some (.ok ⟨⟩, { w with disk := takeAway gone w.disk })
  | .ok gone, some fault =>
    some (.error (.provider fault.error), { w with
      disk := takeAway (fun l => gone l && !env.survives l) w.disk })
  | .error error, none => some (.error (.provider error), w)
  | .error _, some fault => some (.error (.provider fault.error), w)

/-- `map_err(|error| ExecutionError::Failed(error.to_string()))?` -/
def orFail {ε α : Type} (message : ε → String) : Except ε α → Exec α
  | .ok a => pure a
  | .error error => throw (.failed (message error))

def destinationParent (destination : Location) : Exec Location :=
  match destination.parent with
  | some parent => pure parent
  | none => throw (.failed "copy destination has no parent")

def CopyCells.setPlan (planned : List (Location × PlannedCopyEntry))
    (directories : List (EntryRef × Location)) (cells : CopyCells) : CopyCells :=
  { cells with planned := planned, directories := directories }

def setCells (f : CopyCells → CopyCells) : Exec PUnit :=
  writes fun w => { w with cells := f w.cells }

-- ==== planning

/-- The locals of the planning loop; the stack's top comes first. -/
structure Planning where
  stack : List (EntrySummary × Location)
  items : List PlanItem
  planned : List (Location × PlannedCopyEntry)
  directories : List (EntryRef × Location)
  followed : List EntryId

namespace CopyExecutor

variable (copy : CopyExecutor) (env : Env)

/-- What to copy for a stack entry: the entry itself, or what a followed
link points to (`continue` for a directory that has been followed
before); and the directories followed by then. -/
def follow (files : Files) (round : Nat) (summary : EntrySummary) (followed : List EntryId) :
    Except ExecutionError (Option (EntrySummary × List EntryId)) :=
  if summary.kind = .symlink ∧ copy.symlinkPolicy = .copyTarget then
    match env.ask (.resolveSymlink round)
        (resolveSymlink env files summary.location) with
    | .error error => .error (.provider error)
    | .ok target =>
      if target.kind = .directory then
        if target.id ∈ followed then .ok none
        else .ok (some (target, target.id :: followed))
      else .ok (some (target, followed))
  else if summary.kind = .directory ∧ copy.symlinkPolicy = .copyTarget then
    .ok (some (summary, summary.id :: followed))
  else .ok (some (summary, followed))

/-- Push the entries of one page, given last to first. -/
def pushPage (destination : Location) :
    List EntrySummary → List (EntrySummary × Location) →
    Except ExecutionError (List (EntrySummary × Location))
  | [], stack => .ok stack
  | child :: rest, stack =>
    match destination.join child.name with
    | .error error => .error (.failed error.message)
    | .ok childDestination =>
      pushPage destination rest ((child, childDestination) :: stack)

/-- Push the pages of a listing, from page `page` on. -/
def pushPages (round : Nat) (destination : Location) :
    Nat → List (List EntrySummary) → List (EntrySummary × Location) →
    Except ExecutionError (List (EntrySummary × Location))
  | _, [], stack => .ok stack
  | page, entries :: rest, stack =>
    match env.fault (.list round page) with
    | some fault => .error (.provider fault.error)
    | none =>
      match pushPage destination entries.reverse stack with
      | .error error => .error error
      | .ok stack' => pushPages round destination (page + 1) rest stack'

/-- Plan the copy of `source` in the place of the stack entry
`planEntry`. -/
def planEntry (root : Location) (planEntry : EntryRef) (source : EntrySummary)
    (destination : Location) (st : Planning) : Planning :=
  { st with
    planned := Keyed.put st.planned planEntry.location
      { kind := source.kind
        destination := destination
        source := source.entry
        isRoot := decide (planEntry.location = root) }
    items := st.items ++ [{ entry := planEntry, bytes := source.size.getD 0 }] }

/-- One round of the planning loop, for the entry taken off the stack. -/
def visit (files : Files) (root : Location) (round : Nat) (summary : EntrySummary)
    (destination : Location) (st : Planning) : Except ExecutionError Planning :=
  if env.cancelled (.visit round) then .error (.provider .cancelled)
  else
    match copy.follow env files round summary st.followed with
    | .error error => .error error
    | .ok none => .ok st
    | .ok (some (source, followed)) =>
      let st := { planEntry root summary.entry source destination st with
        followed := followed }
      if source.kind = .directory then
        match pushPages env round destination 0
            (list env files source.location) st.stack with
        | .error error => .error error
        | .ok stack => .ok { st with
            stack := stack
            directories := st.directories ++ [(source.entry, destination)] }
      else .ok st

def planLoop (files : Files) (root : Location) :
    Nat → Planning → Option (Except ExecutionError Planning)
  | fuel, st =>
    match st.stack, fuel with
    | [], _ => some (.ok st)
    | _ :: _, 0 => none
    | (summary, destination) :: rest, fuel + 1 =>
      match copy.visit env files root fuel summary destination
          { st with stack := rest } with
      | .error error => some (.error error)
      | .ok st' => planLoop files root fuel st'

/-- The location `plan` starts from. -/
def sourceOf (operation : Operation) : Exec Location :=
  match copy.sourceOverride, operation.sources with
  | some location, _ => pure location
  | none, source :: _ => pure source.location
  | none, [] => throw (.failed "copy source is missing")

/-- The planning loop from its initial state, as a part of `plan`. -/
def runPlanning (fuel : Nat) (source : EntrySummary)
    (rootDestination : Location) : Exec Planning := fun w =>
  (copy.planLoop env w.disk.files source.location fuel
    { stack := [(source, rootDestination)], items := [], planned := []
      directories := [], followed := [] }).map fun result => (result, w)

/-- `CopyExecutor::plan`. -/
def plan (operation : Operation) (fuel : Nat) : Exec OperationPlan := do
  let source ← copy.sourceOf operation
  let summary ← consult env .inspectRoot (inspect env · source)
  let cells ← reads fun w => .ok w.cells
  let rootDestination ← orFail LocationError.message
    (copy.destinationDirectory.join (cells.rootName.getD summary.name))
  onlyIf (source.providerId = rootDestination.providerId)
    (orFail SafetyError.message (validatePaths source rootDestination))
  let st ← copy.runPlanning env fuel summary rootDestination
  setCells (CopyCells.setPlan st.planned st.directories)
  -- a `Vec` holds no more
  if fits : st.items.length ≤ Word.max then pure (OperationPlan.new st.items fits)
  else stuck

-- ==== transferring

def effectiveResolution (policy : ConflictPolicy)
    (resolution : Option ConflictResolution) : Option ConflictResolution :=
  resolution.or (match policy with
    | .ask => none
    | .skip => some .skip
    | .overwrite => some .overwrite
    | .renameNew => some .renameNew
    | .keepNewer => none)

def conflictEntry (entry : EntrySummary) : ConflictEntry where
  name := entry.name
  kind := entry.kind
  size := entry.size
  modifiedAt := entry.modifiedAt

def conflictError (source destination : EntrySummary) : ExecutionError :=
  .conflict { id := env.conflictId
              source := conflictEntry source
              destination := conflictEntry destination }

/-- Two entries of different kinds do not replace one another. -/
def kindMismatch : ExecutionError := .failed "a file and directory cannot replace one another"

/-- What `execute` finds at the destination, and what is to be done
about it. -/
inductive Disposition
  | free
  | skip
  | overwrite
  | renameNew
deriving DecidableEq

/-- The check of the destination at the head of `execute`. A destination
that cannot be inspected counts as free. -/
def examine (policy : ConflictPolicy) (resolution : Option ConflictResolution)
    (source destination : Location) (files : Files) : Except ExecutionError Disposition :=
  match env.ask .inspectDestination (inspect env files destination) with
  | .error _ => .ok .free
  | .ok existing =>
    match env.ask .inspectSource (inspect env files source) with
    | .error error => .error (.provider error)
    | .ok entry =>
      if entry.kind ≠ existing.kind then .error kindMismatch
      else
        match effectiveResolution policy resolution with
        | none => .error (conflictError env entry existing)
        | some .skip => .ok .skip
        | some .overwrite => .ok .overwrite
        | some .renameNew => .ok .renameNew

/-- The planned entry, with its destination below the new root. -/
def rebaseEntry (oldRoot newRoot : Location) (planned : PlannedCopyEntry) : PlannedCopyEntry :=
  { planned with
    destination := Location.rebase oldRoot newRoot planned.destination }

/-- `rebase_planned_destinations`. Every planned destination is the
root's or below it, so that a prefix of the URI's text is one of its
path. -/
def rebasePlannedDestinations (oldRoot newRoot : Location) (cells : CopyCells) : CopyCells :=
  { cells with
    planned := cells.planned.map fun entry =>
      (entry.1, rebaseEntry oldRoot newRoot entry.2)
    directories := cells.directories.map fun directory =>
      (directory.1, Location.rebase oldRoot newRoot directory.2) }

/-- The search of `next_copy_destination`. -/
def probeFrom (parent : Location) (name : String) : Nat → Nat → Exec Location
  | 0, _ => stuck
  | fuel + 1, suffix => do
    let candidate ← orFail LocationError.message (parent.join (copyName name suffix))
    let found ← reads fun w =>
      .ok (env.ask (.probe suffix) (inspect env w.disk.files candidate))
    match found with
    | .error (.notFound _) => pure candidate
    | .ok _ => probeFrom parent name fuel (suffix + 1)
    | .error error => throw (.provider error)

def nextCopyDestination (fuel : Nat) (original : Location) : Exec Location := do
  let parent ← destinationParent original
  let name ← orFail LocationError.message original.name
  probeFrom env parent name fuel 1

/-- The streamed transfer: the reader, the writer, and the loop between
them. -/
def stream (source temporary : Location) : Exec PUnit := do
  let content ← consult env .openRead (readFile · source)
  perform env .openWrite (openWrite temporary)
  match env.fault .transfer with
  | none => perform env .transfer fun disk => .ok (stage temporary content disk)
  | some fault => do
    writes fun w => { w with
      disk := stage temporary (content.take env.written) w.disk }
    throw (.provider fault.error)

/-- The collision found at the commit, where nothing says what to do
about it. -/
def raiseConflict (source temporary destination : Location) :
    Exec ExecutionOutcome := do
  perform env .discardCopy fun disk => .ok (discardCopy temporary disk)
  setCells fun cells => { cells with temporary := none }
  let losing ← consult env .inspectLosing (inspect env · source)
  let winning ← consult env .inspectWinning (inspect env · destination)
  if losing.kind ≠ winning.kind then throw kindMismatch
  else throw (conflictError env losing winning)

/-- The commit loop of `copy_file`. `parent` and `name` are the final
destination's. -/
def commitLoop (effective : Option ConflictResolution)
    (source temporary finalDestination parent : Location) :
    Nat → Nat → Location → Exec ExecutionOutcome
  | 0, _, _ => stuck
  | fuel + 1, suffix, destination => do
    onlyIf copy.transfer.sameEndpoint (consult env (.capabilities suffix) fun _ => .ok ())
    let committed ← attempt env (.commitCopy suffix)
      (commitCopy temporary destination (effective = some .overwrite))
    match committed, effective with
    | .ok (), _ =>
      setCells fun cells => { cells with temporary := none }
      pure .completed
    | .error (.alreadyExists _), some .renameNew =>
      let name ← orFail LocationError.message finalDestination.name
      let next ← orFail LocationError.message (parent.join (copyName name suffix))
      commitLoop effective source temporary finalDestination parent fuel (suffix + 1) next
    | .error (.alreadyExists _), none =>
      raiseConflict env source temporary destination
    | .error error, _ => throw (.provider error)

def copyFile (policy : ConflictPolicy) (resolution : Option ConflictResolution)
    (fuel : Nat) (source finalDestination : Location) : Exec ExecutionOutcome := do
  let parent ← destinationParent finalDestination
  let temporary ← orFail LocationError.message
    (copy.destinationDirectory.join (".fm-copy-" ++ env.uuid))
  setCells fun cells => { cells with temporary := some temporary }
  onlyIf copy.transfer.serverSideCopy
    (perform env .serverSideCopy (serverSideCopy env.clones source temporary))
  onlyIf (!(copy.transfer.serverSideCopy && env.clones)) (stream env source temporary)
  onlyIf (env.cancelled .transferred) (throw (.provider .cancelled))
  copy.commitLoop env (effectiveResolution policy resolution) source temporary
    finalDestination parent fuel 1 finalDestination

/-- Make room at the destination, and say where the entry goes. -/
def makeRoom (fuel : Nat) (planned : PlannedCopyEntry) :
    Disposition → Exec Location
  | .free | .skip => pure planned.destination
  | .overwrite => do
    onlyIf (planned.kind = .symlink) (remove env .removeDestination planned.destination false)
    pure planned.destination
  | .renameNew => do
    let renamed ← nextCopyDestination env fuel planned.destination
    onlyIf (planned.isRoot && planned.kind = .directory)
      (setCells (rebasePlannedDestinations planned.destination renamed))
    pure renamed

/-- An error of a nested entry is a warning where the copy goes on after
errors. -/
def softenError (item : PlanItem) (planned : PlannedCopyEntry)
    (p : Exec ExecutionOutcome) : Exec ExecutionOutcome :=
  if copy.continueOnError ∧ planned.isRoot = false then
    tryCatch p fun error =>
      throw (.warning item.entry (error.message env.uriText))
  else p

/-- The transfer of one planned entry to `destination`; an existing
directory is reused. -/
def transferEntry (policy : ConflictPolicy) (resolution : Option ConflictResolution) (fuel : Nat)
    (item : PlanItem) (planned : PlannedCopyEntry) (destination : Location)
    (disposition : Disposition) : Exec ExecutionOutcome :=
  match planned.kind with
  | .directory =>
    if disposition = .overwrite then pure .completed
    else do
      let _ ← destinationParent destination
      let _ ← orFail LocationError.message destination.name
      copy.softenError env item planned do
        perform env .createDirectory (createEntry destination .directory)
        pure .completed
  | .symlink =>
    copy.softenError env item planned do
      perform env .copySymlink (copySymlink item.entry.location destination)
      pure .completed
  | .file =>
    copy.softenError env item planned
      (copy.copyFile env policy resolution fuel planned.source.location
        destination)

/-- `CopyExecutor::execute`. -/
def execute (operation : Operation) (item : PlanItem)
    (resolution : Option ConflictResolution) (fuel : Nat) :
    Exec ExecutionOutcome := do
  let found ← reads fun w => .ok (Keyed.get w.cells.planned item.entry.location)
  match found with
  | none => throw (.failed "copy plan entry is missing")
  | some planned =>
    let disposition ← reads fun w =>
      examine env operation.conflictPolicy resolution planned.source.location
        planned.destination w.disk.files
    if disposition = .skip then pure .skipped
    else
      let destination ← makeRoom env fuel planned disposition
      let outcome ← copy.transferEntry env operation.conflictPolicy resolution
        fuel item planned destination disposition
      onlyIf planned.isRoot (setCells fun cells =>
        { cells with completedRootDestination := some destination })
      pure outcome

/-- `CopyExecutor::cleanup_partial`. -/
def cleanupPartial : Exec PUnit := do
  let cells ← reads fun w => .ok w.cells
  setCells fun cells => { cells with temporary := none }
  match cells.temporary with
  | none => pure ()
  | some temporary =>
    perform env .discardCopy fun disk => .ok (discardCopy temporary disk)

/-- The loop of `finish` over the directories, deepest first. -/
def preserveDirectories : List (EntryRef × Location) → Exec PUnit
  | [] => pure ()
  | directory :: rest => do
    onlyIf copy.transfer.sameEndpoint (consult env (.capabilities rest.length) fun _ => .ok ())
    onlyIf (copy.transfer.sameEndpoint && env.setsTimestamps)
      (consult env (.preserveMetadata rest.length) fun files => do
        let _ ← inspect env files directory.1.location
        let _ ← inspect env files directory.2
        pure ())
    preserveDirectories rest

/-- `CopyExecutor::finish`. -/
def finish : Exec PUnit := do
  let cells ← reads fun w => .ok w.cells
  copy.preserveDirectories env cells.directories.reverse

end CopyExecutor

end FileManager.Transfers
