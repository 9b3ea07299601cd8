/-
The provider of local files (`fm-vfs-local`): how a staged copy is
committed or discarded, and how an entry is renamed.

As with the remote providers, a call is a program that asks; here a
question is one call to the file system, answered by what it returns or
by an error of its kind.

A rename runs on what stands at the places of a file system, none of
them below another; what is below an entry goes with it. Which paths
are one place to the file system is a parameter.
-/
import FileManager.Archives.Reading
import FileManager.Remote.Provider
import FileManager.Renames.Executor
import FileManager.Lib.Dialogue

namespace FileManager.Local

open Archives.Reading (toNativePath)
open Remote (textOf invalid)

/-- `std::io::Error`, as far as `map_io_error` tells it apart. -/
inductive IoError
  /-- `is_locked_error`. -/
  | locked
  | notFound
  | permissionDenied
  | alreadyExists
  | notADirectory
  | other (message : String)

def mapIoError (uri : List Char) : IoError → VfsError
  | .locked => .locked (textOf uri)
  | .notFound => .notFound (textOf uri)
  | .permissionDenied => .permissionDenied (textOf uri)
  | .alreadyExists => .alreadyExists (textOf uri)
  | .notADirectory => .notADirectory (textOf uri)
  | .other message => .io message

abbrev Path := List Locations.Segment

/-- A call to the file system. -/
inductive SystemCall
  /-- `preserve_copy_metadata`: times and permissions, not the bytes. -/
  | preserveCopyMetadata (source temporary : Path)
  | rename (temporary destination : Path)
  | hardLink (temporary destination : Path)
  | removeFile (path : Path)
  | symlinkMetadata (path : Path)

/-- What a call of the provider asks. -/
inductive Ask
  | isCancelled
  | call (call : SystemCall)

abbrev Ask.Answer : Ask → Type
  | .isCancelled => Bool
  | .call _ => Except IoError Unit

abbrev Op (α : Type) := Dialogue.Attempt Ask Ask.Answer VfsError α

def checkCancelled : Op Unit := do
  let fired ← (ExceptT.lift (Dialogue.Talk.perform Ask.isCancelled) : Op Bool)
  if fired then throw .cancelled

/-- `to_native_path`. -/
def nativePath (location : Locations.Location) : Op Path :=
  ExceptT.mk (pure ((toNativePath location).elim (.error (invalid location.uri)) .ok))

/-- A call to the file system, with its error. -/
def system (call : SystemCall) : Op (Except IoError Unit) :=
  ExceptT.lift (Dialogue.Talk.perform (Ask.call call))

/-- `map_err(|error| map_io_error(error, uri))?` -/
def orIo (uri : List Char) (call : SystemCall) : Op Unit := do
  let result ← system call
  ExceptT.mk (pure (result.mapError (mapIoError uri)))

structure CopyCommitOptions where
  overwrite : Bool
  preserveMetadata : Bool

def commitCopy (source temporary destination : Locations.Location) (options : CopyCommitOptions) :
    Op Locations.Location := do
  checkCancelled
  let temporaryPath ← nativePath temporary
  let destinationPath ← nativePath destination
  if options.preserveMetadata then
    let sourcePath ← nativePath source
    orIo source.uri (.preserveCopyMetadata sourcePath temporaryPath)
  if options.overwrite then orIo destination.uri (.rename temporaryPath destinationPath)
  else
    orIo destination.uri (.hardLink temporaryPath destinationPath)
    orIo temporary.uri (.removeFile temporaryPath)
  orIo destination.uri (.symlinkMetadata destinationPath)
  return destination

def discardCopy (temporary : Locations.Location) : Op Unit := do
  let path ← nativePath temporary
  let result ← system (.removeFile path)
  match result with
  | .ok () | .error .notFound => return ()
  | .error error => throw (mapIoError temporary.uri error)

-- ==== renames

/-- What stands at a place. Two links to one inode are one file. -/
structure Occupant where
  inode : Nat
  isDirectory : Bool
  /-- Nothing is below it. -/
  isEmpty : Bool
  /-- A symbolic link that leads nowhere. -/
  isDangling : Bool
deriving DecidableEq

structure Volume (κ : Type) where
  key : Path → κ
  /-- `Path::to_string_lossy`. -/
  text : Path → List Char
  /-- What `rename` says where it cannot replace. -/
  refusal : IoError

abbrev Places (κ : Type) := κ → Option Occupant

/-- `rename` may put the one in the place of the other. -/
def Occupant.replaces (moved other : Occupant) : Bool :=
  if moved.isDirectory then other.isDirectory && other.isEmpty else !other.isDirectory

section Renames

variable {κ : Type} [DecidableEq κ] (volume : Volume κ)

/-- The system call, which may fail for any reason. -/
def Volume.rename (fault : Option IoError) (places : Places κ) (source destination : Path) :
    Except IoError Unit × Places κ :=
  match fault, places (volume.key source) with
  | some error, _ => (.error error, places)
  | none, none => (.error .notFound, places)
  | none, some moved =>
    let left := Function.update places (volume.key source) none
    let put := Function.update left (volume.key destination) (some moved)
    match left (volume.key destination) with
    | none => (.ok (), put)
    | some other =>
      if other.inode = moved.inode then (.ok (), places)
      else if moved.replaces other then (.ok (), put)
      else (.error volume.refusal, places)

/-- `Path::exists`: links are followed. -/
def Volume.exists? (places : Places κ) (path : Path) : Bool :=
  (places (volume.key path)).any (!·.isDangling)

/-- The two paths differ in the case of letters only. -/
def Volume.caseOnly (source destination : Path) : Bool :=
  source ≠ destination
    ∧ (volume.text source).map Char.toLower = (volume.text destination).map Char.toLower

/-- The checks of `rename` and the paths it goes on with. -/
def renamePaths (isUuid : List Char → Bool) (cancelled : Bool)
    (source destination : Locations.Location) : Except VfsError (Path × Path) :=
  if cancelled then .error .cancelled
  else
    match destination.name isUuid with
    | .error _ => .error (invalid destination.uri)
    | .ok name => do
      Renames.validateNewName (String.ofList name)
      match toNativePath source, toNativePath destination with
      | none, _ => .error (invalid source.uri)
      | _, none => .error (invalid destination.uri)
      | some sourcePath, some destinationPath => .ok (sourcePath, destinationPath)

/-- `rename`; `faults` are the failures of its system calls. -/
def rename (isUuid : List Char → Bool) (cancelled : Bool) (temporary : Path)
    (faults : Nat → Option IoError) (source destination : Locations.Location)
    (places : Places κ) : Except VfsError Locations.Location × Places κ :=
  match renamePaths isUuid cancelled source destination with
  | .error error => (.error error, places)
  | .ok (sourcePath, destinationPath) =>
    let caseOnly := volume.caseOnly sourcePath destinationPath
    if volume.exists? places destinationPath && !caseOnly then
      (.error (.alreadyExists (textOf destination.uri)), places)
    else if caseOnly then
      match volume.rename (faults 0) places sourcePath temporary with
      | (.error error, places) => (.error (mapIoError source.uri error), places)
      | (.ok (), places) =>
        match volume.rename (faults 1) places temporary destinationPath with
        | (.ok (), places) => (.ok destination, places)
        | (.error error, places) =>
          (.error (mapIoError destination.uri error),
            (volume.rename (faults 2) places temporary sourcePath).2)
    else
      match volume.rename (faults 0) places sourcePath destinationPath with
      | (.error error, places) => (.error (mapIoError destination.uri error), places)
      | (.ok (), places) => (.ok destination, places)

end Renames

end FileManager.Local
