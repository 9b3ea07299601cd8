/-
The provider of FTP and FTPS files (`fm-vfs-ftp`, `provider.rs`).

A call is a program that asks: the resolver for the saved connection,
the network for a control connection, the server for the reply to a
command. What is answered, errors as `map_ftp` gives them included, is
left open. The lines of a listing are read by the FTP library, which is
a parameter.

A transfer runs in a task of its own: a call starts it on the client it
has connected and returns the other end of a pipe.
-/
import FileManager.Remote.Provider
import FileManager.Lib.Dialogue
import Mathlib.Data.List.Infix

namespace FileManager.Ftp

open Remote ExceptT
open Dialogue.Talk (perform)
open Dialogue.Attempt (caught)

variable (isUuid : List Char → Bool)

-- ==== locations

structure Parsed where
  id : List Char
  path : List Char
  secure : Bool
  uri : List Char
deriving DecidableEq

/-- The schemes, and what follows them. -/
def schemeOf (uri : List Char) : Option (Bool × List Char) :=
  match "ftps://".toList.isPrefixOf? uri with
  | some rest => some (true, rest)
  | none =>
    match "ftp://".toList.isPrefixOf? uri with
    | some rest => some (false, rest)
    | none => none

def Parsed.parse (location : Locations.Location) : Except VfsError Parsed :=
  if location.providerId ≠ "ftp" then .error (invalid location.uri)
  else
    match schemeOf location.uri with
    | none => .error (invalid location.uri)
    | some (secure, rest) =>
      match Text.splitOnce '/' rest with
      | none => .error (invalid location.uri)
      | some (id, path) =>
        if isUuid id then .ok { id, path := '/' :: path, secure, uri := location.uri }
        else .error (invalid location.uri)

-- ==== the wire

/-- `map_ftp`, of the text of the library's error. -/
def mapFtp (message : List Char) : VfsError :=
  if "550".toList <:+: message then .notFound (textOf "remote FTP path".toList)
  else if "530".toList <:+: message then .permissionDenied (textOf "FTP connection".toList)
  else .io (String.ofList message)

/-- The commands of the control connection. -/
inductive Command
  | list (path : List Char)
  | mkdir (path : List Char)
  | rename (source destination : List Char)
  | rm (path : List Char)
  | rmdir (path : List Char)
  | size (path : List Char)

abbrev Command.Result : Command → Type
  | .list _ => List (List Char)
  | .size _ => Nat
  | _ => Unit

/-- What the task of a stream sends. -/
inductive Transfer
  | retr (path : List Char)
  | stor (path : List Char)

/-- What a call asks. -/
inductive Ask
  | isCancelled
  | resolve (id : List Char)
  | connect (id : List Char)
  | command (sent : Command)
  | spawn (task : Transfer)

abbrev Ask.Answer : Ask → Type
  | .isCancelled => Bool
  | .resolve _ => Except VfsError Bool
  | .connect _ => Except VfsError Unit
  | .command sent => Except VfsError sent.Result
  | .spawn _ => Unit

abbrev Op (α : Type) := Dialogue.Attempt Ask Ask.Answer VfsError α

/-- `FtpConnectionResolver::resolve`: whether the connection has TLS. -/
def resolve (id : List Char) : Op Bool := mk (perform (Ask.resolve id))

/-- `Client::connect`. -/
def connect (id : List Char) : Op Unit := mk (perform (Ask.connect id))

/-- A command of `Client`. -/
def send (command : Command) : Op command.Result := mk (perform (Ask.command command))

/-- `tokio::spawn`, with the client and the inner end of the pipe. -/
def spawn (task : Transfer) : Op Unit := ExceptT.lift (perform (Ask.spawn task))

def cancelled : Token → Op Unit
  | .new => pure ()
  | .caller => do
    let fired ← (ExceptT.lift (perform Ask.isCancelled) : Op Bool)
    if fired then throw .cancelled

/-- `FtpFileSystemProvider::client`. -/
def client (parsed : Parsed) : Op Unit := do
  let explicitTls ← resolve parsed.id
  if explicitTls ≠ parsed.secure then throw (invalid parsed.uri)
  connect parsed.id

/-- `Parsed::parse`, in a call. -/
def parsed (location : Locations.Location) : Op Parsed :=
  mk (pure (Parsed.parse isUuid location))

-- ==== listings

/-- `suppaftp::list::File`. -/
structure File where
  name : List Char
  isDirectory : Bool
  isSymlink : Bool
  size : Nat

variable (parseLine : List Char → Option File)

def summary (location : Locations.Location) (file : File) : Summary where
  location := location
  name := file.name
  kind := if file.isDirectory then .directory else if file.isSymlink then .symlink else .file
  size := if file.isDirectory ∨ file.isSymlink then none else some file.size

/-- The entry of a file in a listing. -/
def entryOf (location : Locations.Location) (file : File) : Except VfsError Summary :=
  match location.join isUuid file.name with
  | .ok child => .ok (summary child file)
  | .error _ => .error (invalid location.uri)

/-- What `list` makes of the lines. -/
def pageOf (location : Locations.Location) (options : ListOptions)
    (lines : List (List Char)) : Except VfsError DirectoryPage := do
  let some offset := options.offset | throw (invalid location.uri)
  let files := lines.filterMap parseLine
  let entries ← ((files.drop offset).take options.pageSize).mapM (entryOf isUuid location)
  return .from entries offset files.length

def list (location : Locations.Location) (options : ListOptions) (token : Token) :
    Op DirectoryPage := do
  cancelled token
  if options.pageSize = 0 then throw (invalid location.uri)
  let p ← parsed isUuid location
  client p
  let lines ← send (.list p.path)
  cancelled token
  mk (pure (pageOf isUuid parseLine location options lines))

/-- The parent and the name of an entry; a root has none. -/
def parentAndName (location : Locations.Location) :
    Except VfsError (Locations.Location × List Char) :=
  match location.parent isUuid, location.name isUuid with
  | .ok (some parent), .ok name => .ok (parent, name)
  | _, _ => .error (invalid location.uri)

def inspect (location : Locations.Location) (token : Token) : Op Summary := do
  let (parent, name) ← mk (pure (parentAndName isUuid location))
  let page ← list isUuid parseLine parent .standard token
  match page.entries.find? fun entry => entry.name = name with
  | some entry => return entry
  | none => throw (.notFound (textOf location.uri))

-- ==== calls

def fileSize (location : Locations.Location) (token : Token) : Op Nat := do
  cancelled token
  let p ← parsed isUuid location
  client p
  send (.size p.path)

def rename (source destination : Locations.Location) (token : Token) : Op Locations.Location := do
  cancelled token
  let a ← parsed isUuid source
  let b ← parsed isUuid destination
  if a.id ≠ b.id ∨ a.secure ≠ b.secure then throw (invalid destination.uri)
  client a
  send (.rename a.path b.path)
  return destination

def remove (location : Locations.Location) (useTrash : Bool) (token : Token) : Op Unit := do
  cancelled token
  if useTrash then throw (.unsupportedCapability "DELETE")
  let p ← parsed isUuid location
  client p
  let removed ← caught (send (.rm p.path))
  match removed with
  | .ok () => return ()
  | .error _ => send (.rmdir p.path)

def openRead (location : Locations.Location) (token : Token) : Op Unit := do
  cancelled token
  let p ← parsed isUuid location
  client p
  spawn (.retr p.path)

/-- The check of `open_write` and `commit_copy` without `overwrite`: any
failure of `inspect` is taken for absence. -/
def refuseExisting (location : Locations.Location) (overwrite : Bool) : Op Unit :=
  if overwrite then pure ()
  else do
    let found ← caught (inspect isUuid parseLine location .new)
    match found with
    | .ok _ => throw (.alreadyExists (textOf location.uri))
    | .error _ => pure ()

def openWrite (location : Locations.Location) (overwrite : Bool) (token : Token) : Op Unit := do
  cancelled token
  refuseExisting isUuid parseLine location overwrite
  let p ← parsed isUuid location
  client p
  spawn (.stor p.path)

def commitCopy (temporary destination : Locations.Location) (overwrite : Bool) (token : Token) :
    Op Locations.Location := do
  refuseExisting isUuid parseLine destination overwrite
  rename isUuid temporary destination token

def discardCopy (temporary : Locations.Location) (token : Token) : Op Unit := do
  let removed ← caught (remove isUuid temporary false token)
  match removed with
  | .ok () | .error (.notFound _) => pure ()
  | .error other => throw other

end FileManager.Ftp
