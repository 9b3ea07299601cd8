/-
The provider of SFTP files (`fm-vfs-sftp`, `provider.rs`), as far as it
changes the server.

As with FTP, a call is a program that asks: for the parameters of the
connection, for a session with its SFTP subsystem, and one request of the
SFTP client at a time. A failure is kept with where it comes from;
`Failure.vfsError` is what the caller gets.
-/
import FileManager.Remote.Provider
import FileManager.Lib.Dialogue
import FileManager.Ssh.Model

namespace FileManager.Sftp

open Remote
open Ssh (SshError)
open Dialogue.Talk (perform)

-- ==== locations

/-- What `decode_percent` collects: what is no escape stands for itself. -/
def decodedBytes : List Char → List UInt8
  | [] => []
  | '%' :: high :: low :: rest =>
    match Text.hexValue high, Text.hexValue low with
    | some h, some l => UInt8.ofNat (h * 16 + l) :: decodedBytes rest
    | _, _ => 37 :: decodedBytes (high :: low :: rest)
  | c :: rest => String.utf8EncodeChar c ++ decodedBytes rest

/-- `decode_percent`. -/
def decodePercent (segment : List Char) : Option (List Char) := Text.ofUtf8 (decodedBytes segment)

/-- `ParsedSftpLocation`. -/
structure Parsed where
  connectionId : List Char
  remotePath : List Char
deriving DecidableEq

/-- `ParsedSftpLocation::parse`. -/
def Parsed.parse (location : Locations.Location) : Except VfsError Parsed :=
  if location.providerId ≠ "sftp" then .error (invalid location.uri)
  else
    match ("sftp://".toList.isPrefixOf? location.uri).bind (Text.splitOnce '/') with
    | none => .error (invalid location.uri)
    | some (connectionId, path) =>
      if connectionId = [] then .error (invalid location.uri)
      else if path = [] then .ok { connectionId, remotePath := ['/'] }
      else
        match (path.splitOn '/').mapM decodePercent with
        | none => .error (invalid location.uri)
        | some segments => .ok { connectionId, remotePath := '/' :: ['/'].intercalate segments }

def joinRemotePath (parent name : List Char) : List Char :=
  if parent.getLast? = some '/' then parent ++ name else parent ++ '/' :: name

def mapJoinError (error : Locations.LocationError) (location : Locations.Location) : VfsError :=
  match error with
  | .emptySegment => .emptyName
  | .invalidName _ => .pathTraversalName
  | .nullByte => .invalidNameCharacters
  | .reservedWindowsName _ => .reservedName
  | _ => invalid location.uri

-- ==== errors

/-- `StatusCode`, as far as the calls tell them apart. -/
inductive StatusCode
  | noSuchFile
  | permissionDenied
  | other
deriving DecidableEq

/-- A status reply that is no success. -/
structure Status where
  statusCode : StatusCode
  errorMessage : String
deriving DecidableEq

/-- The errors of the SFTP client that are about the transport. -/
inductive TransportError
  | io (message : String)
  | timeout
  | unexpectedPacket
  | unexpectedBehavior (message : String)
deriving DecidableEq

/-- `russh_sftp::client::error::Error`. -/
inductive SftpError
  | status (reply : Status)
  | transport (error : TransportError)
  | limited (message : String)
deriving DecidableEq

def TransportError.text : TransportError → String
  | .io message => s!"I/O: {message}"
  | .timeout => "Timeout"
  | .unexpectedPacket => "Unexpected packet"
  | .unexpectedBehavior message => message

def SftpError.text : SftpError → String
  | .status reply => reply.errorMessage
  | .transport error => error.text
  | .limited message => s!"Limit exceeded: {message}"

def isTransportError : SftpError → Bool
  | .transport _ => true
  | _ => false

/-- How an error names a connection. -/
def connectionUri (connectionId : List Char) : List Char := "sftp://".toList ++ connectionId

def mapSftpError (error : SftpError) (connectionId : List Char) : VfsError :=
  match error with
  | .status reply =>
    match reply.statusCode with
    | .noSuchFile => .notFound (textOf (connectionUri connectionId))
    | .permissionDenied => .permissionDenied (textOf (connectionUri connectionId))
    | .other => .io reply.errorMessage
  | other => .io other.text

def mapSshError (error : SshError) (connectionId : List Char) : VfsError :=
  match error with
  | .authenticationFailed => .permissionDenied (textOf (connectionUri connectionId))
  | .cancelled => .cancelled
  | other => .io other.text

/-- A failure and where it comes from. -/
inductive Failure
  /-- The call itself, or the resolver. -/
  | vfs (error : VfsError)
  | session (error : SshError) (connectionId : List Char)
  | sftp (error : SftpError) (connectionId : List Char)
deriving DecidableEq

/-- What the caller gets. -/
def Failure.vfsError : Failure → VfsError
  | .vfs error => error
  | .session error connectionId => mapSshError error connectionId
  | .sftp error connectionId => mapSftpError error connectionId

-- ==== the wire

/-- An entry of `read_dir`. -/
structure DirEntry where
  fileName : List Char
  isDir : Bool

/-- A request of the SFTP client. -/
inductive Request
  | symlinkMetadata (path : List Char)
  | readDir (path : List Char)
  | tryExists (path : List Char)
  | createDir (path : List Char)
  | rename (oldPath newPath : List Char)
  | removeFile (path : List Char)
  | removeDir (path : List Char)
  /-- `open_with_flags` with `WRITE`, `CREATE` and `TRUNCATE`, and
  `EXCLUDE` unless it may overwrite. -/
  | openWrite (path : List Char) (overwrite : Bool)

/-- What the calls read of a reply. -/
abbrev Request.Reply : Request → Type
  | .symlinkMetadata _ => Bool
  | .readDir _ => List DirEntry
  | .tryExists _ => Bool
  | _ => Unit

/-- What a call asks. -/
inductive Ask
  | isCancelled
  | resolve (connectionId : List Char)
  /-- `acquire_sftp`. -/
  | acquire (connectionId : List Char)
  | invalidate (connectionId : List Char)
  | send (request : Request)

abbrev Ask.Answer : Ask → Type
  | .isCancelled => Bool
  | .resolve _ => Except VfsError Unit
  | .acquire _ => Except SshError Unit
  | .invalidate _ => Unit
  | .send request => Except SftpError request.Reply

abbrev Op (α : Type) := Dialogue.Attempt Ask Ask.Answer Failure α

def checkCancelled : Op Unit := do
  let fired ← (ExceptT.lift (perform Ask.isCancelled) : Op Bool)
  if fired then throw (.vfs .cancelled)

/-- `SshConnectionResolver::resolve`. -/
def resolve (connectionId : List Char) : Op Unit := do
  let result ← (ExceptT.lift (perform (Ask.resolve connectionId)) :
    Op (Except VfsError Unit))
  ExceptT.mk (pure (result.mapError .vfs))

def acquireSftp (connectionId : List Char) : Op (Except SshError Unit) :=
  ExceptT.lift (perform (Ask.acquire connectionId))

/-- `SshConnectionManager::invalidate`. -/
def invalidate (connectionId : List Char) : Op Unit :=
  ExceptT.lift (perform (Ask.invalidate connectionId))

/-- The operation of a call to `with_sftp`. -/
def send (request : Request) : Op (Except SftpError request.Reply) :=
  ExceptT.lift (perform (Ask.send request))

def parsed (location : Locations.Location) : Op Parsed :=
  ExceptT.mk (pure ((Parsed.parse location).mapError .vfs))

-- ==== with_sftp

/-- `RECONNECT_BACKOFF`, in milliseconds. -/
def reconnectBackoff : List Nat := [200, 600]

/-- One attempt on a session; a transport failure is for `retry`. -/
def operate (connectionId : List Char) (request : Request) (retry : Failure → Op request.Reply) :
    Op request.Reply := do
  match ← send request with
  | .ok value => return value
  | .error error =>
    if isTransportError error then retry (.sftp error connectionId)
    else throw (.sftp error connectionId)

/-- The attempts after the first. -/
def reconnect (connectionId : List Char) (request : Request) : List Nat → Failure → Op request.Reply
  | [], lastError => throw lastError
  | _ :: rest, _ => do
    invalidate connectionId
    match ← acquireSftp connectionId with
    | .error error => reconnect connectionId request rest (.session error connectionId)
    | .ok () => operate connectionId request (reconnect connectionId request rest)

/-- `with_sftp`; its operation is one request. -/
def withSftp (connectionId : List Char) (request : Request) : Op request.Reply := do
  resolve connectionId
  match ← acquireSftp connectionId with
  | .error error => throw (.session error connectionId)
  | .ok () =>
    operate connectionId request (reconnect connectionId request reconnectBackoff)

-- ==== the calls

/-- The entries of a directory, one after another, the directories among
them by `remove`. -/
def removeEntries (connectionId : List Char) (remove : List Char → Op (Option Unit))
    (remotePath : List Char) : List DirEntry → Op (Option Unit)
  | [] => return some ()
  | entry :: rest => do
    let childPath := joinRemotePath remotePath entry.fileName
    if entry.isDir then
      match ← remove childPath with
      | none => return none
      | some () => removeEntries connectionId remove remotePath rest
    else
      withSftp connectionId (.removeFile childPath)
      removeEntries connectionId remove remotePath rest

/-- `remove_directory_recursive`; no result if the directories are deeper
than the fuel. -/
def removeDirectoryRecursive (connectionId : List Char) : Nat → List Char → Op (Option Unit)
  | 0, _ => return none
  | fuel + 1, remotePath => do
    let entries ← withSftp connectionId (.readDir remotePath)
    match ← removeEntries connectionId (removeDirectoryRecursive connectionId fuel) remotePath
        entries with
    | none => return none
    | some () =>
      withSftp connectionId (.removeDir remotePath)
      return some ()

variable (isUuid : List Char → Bool)

def createDirectory (location : Locations.Location) (name : List Char) :
    Op Locations.Location := do
  checkCancelled
  match location.join isUuid name with
  | .error error => throw (.vfs (mapJoinError error location))
  | .ok childLocation =>
    let p ← parsed childLocation
    withSftp p.connectionId (.createDir p.remotePath)
    return childLocation

def rename (source destination : Locations.Location) : Op Locations.Location := do
  checkCancelled
  let a ← parsed source
  let b ← parsed destination
  if a.connectionId ≠ b.connectionId then throw (.vfs (invalid destination.uri))
  withSftp a.connectionId (.rename a.remotePath b.remotePath)
  return destination

structure RemoveOptions where
  useTrash : Bool
  recursive : Bool

def remove (fuel : Nat) (location : Locations.Location) (options : RemoveOptions) :
    Op (Option Unit) := do
  checkCancelled
  if options.useTrash then throw (.vfs (.unsupportedCapability "TRASH"))
  let p ← parsed location
  let isDir ← withSftp p.connectionId (.symlinkMetadata p.remotePath)
  if isDir then
    if options.recursive then removeDirectoryRecursive p.connectionId fuel p.remotePath
    else
      withSftp p.connectionId (.removeDir p.remotePath)
      return some ()
  else
    withSftp p.connectionId (.removeFile p.remotePath)
    return some ()

def openWrite (destination : Locations.Location) (overwrite : Bool) : Op Unit := do
  checkCancelled
  let p ← parsed destination
  withSftp p.connectionId (.openWrite p.remotePath overwrite)

/-- What `commit_copy` does about a destination that exists. -/
def makeRoom (destination : Locations.Location) (p : Parsed) (overwrite : Bool) : Op Unit := do
  if overwrite then
    let _ ← Dialogue.Attempt.caught (withSftp p.connectionId (.removeFile p.remotePath))
  else
    let found ← withSftp p.connectionId (.tryExists p.remotePath)
    if found then throw (.vfs (.alreadyExists (textOf destination.uri)))

def commitCopy (temporary destination : Locations.Location) (overwrite : Bool) :
    Op Locations.Location := do
  checkCancelled
  let a ← parsed temporary
  let b ← parsed destination
  if a.connectionId ≠ b.connectionId then throw (.vfs (invalid destination.uri))
  makeRoom destination b overwrite
  withSftp b.connectionId (.rename a.remotePath b.remotePath)
  return destination

def discardCopy (temporary : Locations.Location) : Op Unit := do
  let p ← parsed temporary
  let removed ← Dialogue.Attempt.caught (withSftp p.connectionId (.removeFile p.remotePath))
  match removed with
  | .ok () => return ()
  | .error failure =>
    match failure.vfsError with
    | .notFound _ => return ()
    | _ => throw failure

end FileManager.Sftp
