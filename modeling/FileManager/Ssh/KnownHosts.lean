/-
The stores of accepted host keys (`fm-ssh`, `known_hosts.rs`): the one in
memory, and the file, with any number of its calls at the same time.

A call of the file store reads the whole file, and `accept` and `forget`
then put a changed copy in its place. One step is the read, with the
change that follows it, or the write.
-/
import FileManager.Domain
import FileManager.Ssh.HostKeys

namespace FileManager.Ssh.KnownHosts

structure StoredHostKey where
  fingerprint : String
  acceptedAt : Timestamp

/-- `HashMap<String, StoredHostKey>`. -/
abbrev Store := String → Option StoredHostKey

-- ==== in memory

/-- A call; an accept brings the time it reads from the clock. -/
inductive Call
  | lookup (key : String)
  | accept (key fingerprint : String) (now : Timestamp)
  | forget (key : String)

def Call.key : Call → String
  | .lookup key | .accept key _ _ | .forget key => key

/-- What a call of `InMemoryKnownHostsStore` makes of the entries. -/
def Call.change : Call → Store → Store
  | .lookup _, entries => entries
  | .accept key fingerprint now, entries =>
    Function.update entries key (some ⟨fingerprint, now⟩)
  | .forget key, entries => Function.update entries key none

-- ==== the file

/-- How far a call has come. -/
inductive Phase
  | called
  /-- What is to be in the file. -/
  | writing (entries : Store)
  | returned (result : Except SshError (Option StoredHostKey))

/-- The call has returned without an error. -/
def Phase.succeeds : Phase → Bool
  | .returned (.ok _) => true
  | _ => false

inductive Act
  /-- `read_all`. -/
  | read (reading : Reading)
  /-- `write_all`, or the error it ends in. -/
  | write (error : Option SshError)

structure Action (ι : Type) where
  call : ι
  act : Act

structure File (ι : Type) where
  /-- A missing file has no entries. -/
  entries : Store
  phases : ι → Phase

variable {ι : Type}

def File.initial (entries : Store) : File ι where
  entries := entries
  phases _ := .called

/-- `JsonFileKnownHostsStore::read_all`. -/
def File.readAll (s : File ι) : Reading → Store
  | .current => s.entries
  | .empty => fun _ => none

variable [DecidableEq ι]

def File.enter (s : File ι) (i : ι) (phase : Phase) : File ι :=
  { s with phases := Function.update s.phases i phase }

/-- One step of a call of `JsonFileKnownHostsStore`. -/
def fileStep (calls : ι → Call) (a : Action ι) (s : File ι) : Option (File ι) :=
  match a.act, s.phases a.call, calls a.call with
  | .read reading, .called, .lookup key =>
    some (s.enter a.call (.returned (.ok (s.readAll reading key))))
  | .read reading, .called, call => some (s.enter a.call (.writing (call.change (s.readAll reading))))
  | .write none, .writing entries, _ =>
    some ({ s with entries }.enter a.call (.returned (.ok none)))
  | .write (some error), .writing _, _ => some (s.enter a.call (.returned (.error error)))
  | _, _, _ => none

end FileManager.Ssh.KnownHosts
