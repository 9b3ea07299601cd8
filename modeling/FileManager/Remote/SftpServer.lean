/-
An SFTP server behind a transport that may fail at every request.

The server is any that keeps to the protocol (`Server`): looking changes
nothing, a request that is refused changes nothing, and a request that
makes, moves or removes a name is refused when it comes a second time,
since the name is there or gone. The transport follows a script: for each
call to `with_sftp`, what the resolver says, and for each of its three
attempts whether a session is had and what becomes of the request.
-/
import FileManager.Remote.Sftp

namespace FileManager.Sftp

open Ssh (SshError)

variable {σ : Type}

-- ==== server

def Request.changes : Request → Bool
  | .symlinkMetadata _ | .readDir _ | .tryExists _ => false
  | _ => true

/-- The requests that the server takes once only. -/
def Request.exclusive : Request → Bool
  | .createDir _ | .rename _ _ | .removeFile _ | .removeDir _ | .openWrite _ false => true
  | _ => false

structure Server (σ : Type) where
  perform : (request : Request) → σ → Except Status request.Reply × σ
  looks : ∀ request tree, request.changes = false → (perform request tree).2 = tree
  refuses : ∀ request tree status, (perform request tree).1 = .error status →
    (perform request tree).2 = tree
  again : ∀ request tree reply, request.exclusive = true → (perform request tree).1 = .ok reply →
    ∃ status, (perform request (perform request tree).2).1 = .error status

-- ==== transport

/-- What becomes of a request. -/
inductive Delivery
  | unperformed (error : TransportError)
  /-- It is performed, and its reply is lost. -/
  | lost (error : TransportError)
  | answered

/-- One attempt. -/
structure Fate where
  session : Except SshError Unit
  delivery : Delivery

/-- The attempts of one call to `with_sftp`. -/
structure Script where
  resolver : Except VfsError Unit
  first : Fate
  second : Fate
  third : Fate

/-- What a call to `with_sftp` hears of a request that the server
takes. -/
inductive Reception
  | unsent
  /-- It is performed, and its reply is lost. -/
  | unheard
  | heard
deriving DecidableEq

/-- The attempts, up to the first that reaches the server. -/
def received : List Fate → Reception
  | [] => .unsent
  | fate :: rest =>
    match fate.session, fate.delivery with
    | .error _, _ => received rest
    | .ok (), .unperformed _ => received rest
    | .ok (), .lost _ => .unheard
    | .ok (), .answered => .heard

/-- Without a session at the first attempt there is no other. -/
def Script.received (script : Script) : Reception :=
  match script.resolver, script.first.session with
  | .ok (), .ok () => Sftp.received [script.first, script.second, script.third]
  | _, _ => .unsent

/-- Nothing fails. -/
def Script.plain : Script :=
  { resolver := .ok (), first := ⟨.ok (), .answered⟩, second := ⟨.ok (), .answered⟩,
    third := ⟨.ok (), .answered⟩ }

/-- The server and what is left of the script of the current call to
`with_sftp`, its current attempt first. -/
structure World (σ : Type) where
  tree : σ
  /-- The requests that took effect. -/
  changes : List Request
  /-- The calls to `with_sftp` so far. -/
  calls : Nat
  fates : List Fate

def World.initial (tree : σ) : World σ where
  tree := tree
  changes := []
  calls := 0
  fates := []

/-- The server performs a request. -/
def World.perform (server : Server σ) (request : Request) (w : World σ) : World σ :=
  { w with
    tree := (server.perform request w.tree).2
    changes := match (server.perform request w.tree).1 with
      | .ok _ => if request.changes then w.changes ++ [request] else w.changes
      | .error _ => w.changes }

/-- A request on a session. -/
def World.send (server : Server σ) (request : Request) (w : World σ) (delivery : Delivery) :
    Except SftpError request.Reply × World σ :=
  match delivery with
  | .unperformed error => (.error (.transport error), w)
  | .lost error => (.error (.transport error), w.perform server request)
  | .answered =>
    ((server.perform request w.tree).1.mapError .status, w.perform server request)

/-- The fate of the current attempt. -/
def World.fate (w : World σ) : Fate := w.fates.headD ⟨.ok (), .answered⟩

section Answers

variable (server : Server σ) (scripts : Nat → Script) (fired : Bool)

def answer : (question : Ask) → World σ → question.Answer × World σ
  | .isCancelled, w => (fired, w)
  | .resolve _, w =>
    let script := scripts w.calls
    (script.resolver,
      { w with calls := w.calls + 1, fates := [script.first, script.second, script.third] })
  | .acquire _, w => (w.fate.session, w)
  | .invalidate _, w => ((), { w with fates := w.fates.tail })
  | .send request, w => w.send server request w.fate.delivery

end Answers

-- ==== calls

/-- The calls of the provider that change the server through `with_sftp`;
`open_write` with `EXCLUDE`. -/
inductive Call
  | createDirectory (location : Locations.Location) (name : List Char)
  | rename (source destination : Locations.Location)
  | remove (location : Locations.Location) (options : RemoveOptions)
  | openWrite (destination : Locations.Location)
  | commitCopy (temporary destination : Locations.Location) (overwrite : Bool)

/-- A call, for whether it returns; `none` as `removeDirectoryRecursive`
has it. -/
def Call.program (isUuid : List Char → Bool) (fuel : Nat) : Call → Op (Option Unit)
  | .createDirectory location name => do
    let _ ← Sftp.createDirectory isUuid location name
    return some ()
  | .rename source destination => do
    let _ ← Sftp.rename source destination
    return some ()
  | .remove location options => Sftp.remove fuel location options
  | .openWrite destination => do
    Sftp.openWrite destination false
    return some ()
  | .commitCopy temporary destination overwrite => do
    let _ ← Sftp.commitCopy temporary destination overwrite
    return some ()

end FileManager.Sftp
