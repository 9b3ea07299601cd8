/-
Saves of the whole-file editor (`fm-application`, `file_editor.rs`) on
local files.

Any number of calls of `save` run at the same time. One step is one call
of the provider, which goes through or fails; what a call computes
between two provider calls belongs to the step before. `commit_copy`
(`fm-vfs-local`) is the four system calls it makes.

A temporary has a name with a fresh UUID, so each save has its own, apart
from the files. The revision of a content (`content_revision`) is a
parameter.
-/
import FileManager.Transfers.Files
import FileManager.Lib.Machine

namespace FileManager.Editor

open Function (update)

-- ==== requests

def maxEditableFileBytes : Nat := 3 * 1024 * 1024

/-- `SaveEditableFileRequestDto`, the content as bytes. -/
structure SaveRequest (ρ : Type) where
  location : Location
  destination : Option Location
  content : Bytes
  expectedRevision : ρ
  overwriteConflict : Bool

/-- `ApplicationError`, as far as `save` raises it. -/
inductive SaveError (ρ : Type)
  | provider (error : VfsError)
  | invalidRequest (message : String)
  | fileRevisionConflict (expectedRevision actualRevision : ρ)
deriving DecidableEq

/-- `SaveEditableFileResponseDto`. -/
structure SaveResponse (ρ : Type) where
  revision : ρ
  size : Nat
  overwroteConflict : Bool
deriving DecidableEq

/-- How far a call of `save` has come: what it goes on with after a
provider call. -/
inductive Phase (ρ : Type)
  | resolved
  | inspected
  | sized
  /-- The file is open for reading; its bytes are those of the time. -/
  | opened (existing : Bytes)
  | checked (conflicted : Bool)
  | created (conflicted : Bool)
  | discarding (error : VfsError)
  | written (conflicted : Bool)
  | preserved (conflicted : Bool)
  /-- The new name is there, and the temporary one still. -/
  | linked (conflicted : Bool)
  | committed (conflicted : Bool)
  | returned (result : Except (SaveError ρ) (SaveResponse ρ))
deriving DecidableEq

/-- The provider calls; those from `preserveMetadata` on are the system
calls of `commit_copy`. -/
inductive Call
  | inspect
  | fileSize
  | openRead
  | readToEnd
  | openWrite
  | write
  | discardCopy
  | preserveMetadata
  | rename
  | hardLink
  | removeTemporary
  | symlinkMetadata
deriving DecidableEq

/-- A failing call; so much of the content is written by then. -/
structure Fault where
  error : VfsError
  written : Nat
deriving DecidableEq

variable {ι ρ : Type}

structure Action (ι : Type) where
  save : ι
  call : Call
  fault : Option Fault
deriving DecidableEq

structure State (ι ρ : Type) where
  files : Location → Option Node
  temporaries : ι → Option Bytes
  phases : ι → Phase ρ
  auditLog : List Location

/-- Before the first call. -/
def State.initial (files : Location → Option Node) : State ι ρ where
  files := files
  temporaries _ := none
  phases _ := .resolved
  auditLog := []

-- ==== calls

/-- Where the content goes. -/
def SaveRequest.saveLocation (request : SaveRequest ρ) : Location :=
  request.destination.getD request.location

/-- `inspect`, and the check of the kind. -/
def inspect (request : SaveRequest ρ) (files : Location → Option Node) :
    Except (SaveError ρ) (Phase ρ) :=
  match files request.location with
  | none => .error (.provider (.notFound request.location))
  | some node =>
    if node.kind ≠ .file then
      .error (.invalidRequest "symlinks and non-files cannot be replaced by the editor")
    else .ok .inspected

/-- `file_size`, and the check of the size. -/
def fileSize (request : SaveRequest ρ) (files : Location → Option Node) :
    Except (SaveError ρ) (Phase ρ) :=
  match (files request.location).bind Node.size with
  | none => .error (.provider (.notFound request.location))
  | some existingSize =>
    if existingSize > maxEditableFileBytes then
      .error (.invalidRequest ("file is too large for the editor (" ++ toString existingSize
        ++ " bytes; limit is " ++ toString maxEditableFileBytes ++ ")"))
    else .ok .sized

def openRead (request : SaveRequest ρ) (files : Location → Option Node) :
    Except (SaveError ρ) (Phase ρ) :=
  match files request.location with
  | some (.file content) => .ok (.opened content)
  | _ => .error (.provider (.notFound request.location))

section Checks

variable [DecidableEq ρ] (contentRevision : Bytes → ρ)

/-- `read_to_end`, and the checks of the revision, of the new size and of
the parent. -/
def check (request : SaveRequest ρ) (existing : Bytes) : Except (SaveError ρ) (Phase ρ) :=
  let actualRevision := contentRevision existing
  let conflicted := decide (actualRevision ≠ request.expectedRevision)
  if conflicted ∧ ¬ request.overwriteConflict then
    .error (.fileRevisionConflict request.expectedRevision actualRevision)
  else if request.content.length > maxEditableFileBytes then
    .error (.invalidRequest ("edited content exceeds the " ++ toString maxEditableFileBytes
      ++ "-byte limit"))
  else if request.saveLocation.parent = none then
    .error (.invalidRequest "cannot edit a filesystem root")
  else .ok (.checked conflicted)

/-- What `save` returns in the end. -/
def response (request : SaveRequest ρ) (conflicted : Bool) : SaveResponse ρ where
  revision := contentRevision request.content
  size := request.content.length
  overwroteConflict := conflicted

end Checks

-- ==== states

section States

variable (s : State ι ρ) (save : ι)

/-- The bytes of the temporary get that name. -/
def State.putTemporary (location : Location) : State ι ρ :=
  { s with files := update s.files location ((s.temporaries save).map Node.file) }

@[simp] theorem State.putTemporary_temporaries (location : Location) :
    (s.putTemporary save location).temporaries = s.temporaries := rfl

@[simp] theorem State.putTemporary_phases (location : Location) :
    (s.putTemporary save location).phases = s.phases := rfl

@[simp] theorem State.putTemporary_files (location : Location) :
    (s.putTemporary save location).files
      = update s.files location ((s.temporaries save).map Node.file) := rfl

variable [DecidableEq ι]

/-- The save goes on from there. -/
def State.enter (phase : Phase ρ) : State ι ρ :=
  { s with phases := update s.phases save phase }

@[simp] theorem State.enter_files (phase : Phase ρ) : (s.enter save phase).files = s.files := rfl

@[simp] theorem State.enter_temporaries (phase : Phase ρ) :
    (s.enter save phase).temporaries = s.temporaries := rfl

@[simp] theorem State.enter_phases (phase : Phase ρ) :
    (s.enter save phase).phases = update s.phases save phase := rfl

/-- The temporary of a save from now on. -/
def State.setTemporary (content : Option Bytes) : State ι ρ :=
  { s with temporaries := update s.temporaries save content }

@[simp] theorem State.setTemporary_files (content : Option Bytes) :
    (s.setTemporary save content).files = s.files := rfl

@[simp] theorem State.setTemporary_temporaries (content : Option Bytes) :
    (s.setTemporary save content).temporaries = update s.temporaries save content := rfl

@[simp] theorem State.setTemporary_phases (content : Option Bytes) :
    (s.setTemporary save content).phases = s.phases := rfl

/-- The save goes on with the outcome of a call that only reads. -/
def State.proceed : Except (SaveError ρ) (Phase ρ) → State ι ρ
  | .ok phase => s.enter save phase
  | .error error => s.enter save (.returned (.error error))

end States

-- ==== steps

section Steps

variable [DecidableEq ρ] [DecidableEq ι] (contentRevision : Bytes → ρ)

/-- One call that goes through. -/
def perform (request : SaveRequest ρ) (save : ι) (s : State ι ρ) :
    Call → Phase ρ → Option (State ι ρ)
  | .inspect, .resolved => some (s.proceed save (inspect request s.files))
  | .fileSize, .inspected => some (s.proceed save (fileSize request s.files))
  | .openRead, .sized => some (s.proceed save (openRead request s.files))
  | .readToEnd, .opened existing => some (s.proceed save (check contentRevision request existing))
  | .openWrite, .checked conflicted =>
    some ((s.setTemporary save (some [])).enter save (.created conflicted))
  | .write, .created conflicted =>
    some ((s.setTemporary save (some request.content)).enter save (.written conflicted))
  | .discardCopy, .discarding error =>
    some ((s.setTemporary save none).enter save (.returned (.error (.provider error))))
  | .preserveMetadata, .written conflicted => some (s.enter save (.preserved conflicted))
  | .rename, .preserved conflicted =>
    if request.destination = none then
      some (((s.putTemporary save request.saveLocation).setTemporary save none).enter save
        (.committed conflicted))
    else none
  | .hardLink, .preserved conflicted =>
    if request.destination = none then none
    else if s.files request.saveLocation = none then
      some ((s.putTemporary save request.saveLocation).enter save (.linked conflicted))
    else
      some (s.enter save (.returned (.error (.provider (.alreadyExists request.saveLocation)))))
  | .removeTemporary, .linked conflicted =>
    some ((s.setTemporary save none).enter save (.committed conflicted))
  | .symlinkMetadata, .committed conflicted =>
    some ({ s with auditLog := if conflicted then s.auditLog ++ [request.saveLocation]
                               else s.auditLog }.enter save
      (.returned (.ok (response contentRevision request conflicted))))
  | _, _ => none

/-- One call that fails. -/
def refuse (request : SaveRequest ρ) (save : ι) (fault : Fault) (s : State ι ρ) :
    Call → Phase ρ → Option (State ι ρ)
  | .write, .created _ =>
    some ((s.setTemporary save (some (request.content.take fault.written))).enter save
      (.discarding fault.error))
  | .discardCopy, .discarding error =>
    some (s.enter save (.returned (.error (.provider error))))
  | .inspect, .resolved | .fileSize, .inspected | .openRead, .sized | .readToEnd, .opened _
  | .openWrite, .checked _ | .preserveMetadata, .written _ | .rename, .preserved _
  | .hardLink, .preserved _ | .removeTemporary, .linked _ | .symlinkMetadata, .committed _ =>
    some (s.enter save (.returned (.error (.provider fault.error))))
  | _, _ => none

def step (requests : ι → SaveRequest ρ) (a : Action ι) (s : State ι ρ) : Option (State ι ρ) :=
  match a.fault with
  | none => perform contentRevision (requests a.save) a.save s a.call (s.phases a.save)
  | some fault => refuse (requests a.save) a.save fault s a.call (s.phases a.save)

end Steps

end FileManager.Editor
