/-
Trust in host keys: the known-hosts file (`fm-ssh`: `known_hosts.rs`),
what is checked when a connection is made (`session.rs`), and the calls
that make one or change what is trusted (`fm-application`:
`connection_facade.rs`), any number of them at the same time.

One step is one thing that is awaited: the profile, the server's key, a
look into the store, the end of the handshake, a write. The SSH library
completes a connection only after `check_server_key` has said that the
key is trusted.
-/
import FileManager.Ssh.Model
import FileManager.Lib.Keyed
import FileManager.Lib.Machine

namespace FileManager.Ssh

-- ==== store

/-- The fingerprints of the file, by connection id. -/
abbrev Entries := List (String × String)

/-- How a look into the file goes. -/
inductive Reading
  | current
  /-- It cannot be read or is no JSON, which counts as empty. -/
  | empty
deriving DecidableEq

/-- `JsonFileKnownHostsStore::read_all`. -/
def readAll (file : Entries) : Reading → Entries
  | .current => file
  | .empty => []

/-- `KnownHostsStore::lookup`: of the file, or of a store whose lookups
may fail. -/
inductive Lookup
  | file (reading : Reading)
  | fails (error : SshError)
deriving DecidableEq

def lookup (file : Entries) (id : String) : Lookup → Except SshError (Option String)
  | .file reading => .ok (Keyed.get (readAll file reading) id)
  | .fails error => .error error

-- ==== verification

inductive HostKeyVerification
  | trusted (fingerprint : String)
  | unverified (fingerprint : String)
  | mismatch (fingerprint expectedFingerprint : String)
deriving DecidableEq

/-- `host_key_verification_fingerprint`. -/
def HostKeyVerification.fingerprint : HostKeyVerification → String
  | .trusted fingerprint | .unverified fingerprint | .mismatch fingerprint _ => fingerprint

def verifyHostKey (found : Except SshError (Option String)) (presented : String) :
    Except SshError HostKeyVerification := do
  match ← found with
  | none => return .unverified presented
  | some stored =>
    return if stored = presented then .trusted presented else .mismatch presented stored

/-- The verification that `check_server_key` leaves for the caller; a
failing store is no trust. -/
def checkServerKey (found : Except SshError (Option String)) (presented : String) :
    HostKeyVerification :=
  match verifyHostKey found presented with
  | .ok verification => verification
  | .error _ => .unverified presented

def hostKeyOrConnectError (outcome : Option HostKeyVerification) (host : String) (port : Nat) :
    SshError :=
  match outcome with
  | some (.unverified fingerprint) => .hostKeyUnverified fingerprint
  | some (.mismatch fingerprint expected) => .hostKeyMismatch fingerprint expected
  | _ => .connect host port "connection rejected during transport or key exchange"

/-- `SshSession::probe_host_key`, of what `establish_transport` returns. -/
def probeHostKey : Except SshError HostKeyVerification → Except SshError HostKeyVerification
  | .ok verification => .ok verification
  | .error (.hostKeyUnverified fingerprint) => .ok (.unverified fingerprint)
  | .error (.hostKeyMismatch fingerprint expected) => .ok (.mismatch fingerprint expected)
  | .error other => .error other

-- ==== calls

inductive HostKeyPolicy
  | promptOnFirstUse
  | requireKnownHost
deriving DecidableEq

/-- What the calls use of a profile. -/
structure Profile where
  host : String
  port : Nat
  hostKeyPolicy : HostKeyPolicy
deriving DecidableEq

inductive Call
  /-- `probe_ssh_host_key`. -/
  | probe (id : String)
  /-- `accept_ssh_host_key`. -/
  | accept (id fingerprint : String)
  /-- `SshSession::connect`, for `connect`, `test`, the SFTP provider or a
  terminal. -/
  | connect (id : String)

def Call.id : Call → String
  | .probe id | .accept id _ | .connect id => id

inductive CallError
  /-- The profile is not had. -/
  | connection
  | invalidRequest (message : String)
  | platformOperationFailed (message : String)
  | ssh (error : SshError)
deriving DecidableEq

/-- What `accept_ssh_host_key` checks before it stores. -/
def acceptable (policy : HostKeyPolicy) (fingerprint : String)
    (verification : HostKeyVerification) : Except CallError Unit :=
  if verification.fingerprint ≠ fingerprint then
    .error (.invalidRequest
      "the host key changed again since it was probed; re-probe before accepting")
  else
    match verification, policy with
    | .unverified _, .requireKnownHost =>
      .error (.invalidRequest ("this connection requires a pre-established known host key and "
        ++ "does not accept first-time trust"))
    | _, _ => .ok ()

/-- How far a call has come. -/
inductive Phase
  | called
  | connecting (profile : Profile)
  /-- The server has presented its key. -/
  | presented (profile : Profile) (fingerprint : String)
  /-- `check_server_key` has returned. -/
  | checked (profile : Profile) (fingerprint : String) (verification : HostKeyVerification)
  /-- `authenticate` is run on the connection. -/
  | authenticating (fingerprint : String)
  /-- `accept_ssh_host_key` has probed. -/
  | verified (policy : HostKeyPolicy) (verification : HostKeyVerification)
  /-- `KnownHostsStore::accept` has read the file. -/
  | storing (policy : HostKeyPolicy) (entries : Entries)
  | returned (result : Except CallError (Option HostKeyVerification))
deriving DecidableEq

inductive Act
  | load (profile : Option Profile)
  | present (fingerprint : String)
  | checkServerKey (found : Lookup)
  /-- The connection is complete. -/
  | complete
  /-- It is rejected or breaks. -/
  | reject
  | timeOut
  | authenticate (result : Except SshError Unit)
  | readAll (reading : Reading)
  | writeAll (failure : Option String)
deriving DecidableEq

structure Action (ι : Type) where
  call : ι
  act : Act

/-- The file and the calls. -/
structure Hosts (ι : Type) where
  file : Entries
  phases : ι → Phase

variable {ι : Type}

/-- Before the first call, with nothing accepted. -/
def Hosts.initial : Hosts ι where
  file := []
  phases _ := .called

/-- Where a call is after `probe_host_key`. -/
def Call.afterProbe (policy : HostKeyPolicy) (result : Except SshError HostKeyVerification) :
    Call → Phase
  | .accept _ _ =>
    match result with
    | .ok verification => .verified policy verification
    | .error error => .returned (.error (.platformOperationFailed error.text))
  | _ =>
    match result with
    | .ok verification => .returned (.ok (some verification))
    | .error error => .returned (.error (.platformOperationFailed error.text))

/-- Where a call is after `establish_transport` has failed. -/
def Call.afterFailure (policy : HostKeyPolicy) (error : SshError) : Call → Phase
  | .connect _ => .returned (.error (.ssh error))
  | call => call.afterProbe policy (probeHostKey (.error error))

/-- Where a call is once its connection is complete. -/
def Call.afterCompletion (policy : HostKeyPolicy) (fingerprint : String)
    (verification : HostKeyVerification) : Call → Phase
  | .connect _ => .authenticating fingerprint
  | call => call.afterProbe policy (probeHostKey (.ok verification))

section Steps

variable (calls : ι → Call) [DecidableEq ι]

def Hosts.enter (s : Hosts ι) (i : ι) (phase : Phase) : Hosts ι :=
  { s with phases := Function.update s.phases i phase }

@[simp] theorem enter_file (s : Hosts ι) (i : ι) (phase : Phase) :
    (s.enter i phase).file = s.file := rfl

@[simp] theorem enter_self (s : Hosts ι) (i : ι) (phase : Phase) :
    (s.enter i phase).phases i = phase := Function.update_self _ _ _

theorem enter_of_ne {i j : ι} (h : j ≠ i) (s : Hosts ι) (phase : Phase) :
    (s.enter i phase).phases j = s.phases j := Function.update_of_ne h _ _

/-- The connection of a call, up to its end. -/
def connectStep (i : ι) (s : Hosts ι) : Act → Phase → Option (Hosts ι)
  | .load none, .called => some (s.enter i (.returned (.error .connection)))
  | .load (some profile), .called => some (s.enter i (.connecting profile))
  | .present fingerprint, .connecting profile =>
    some (s.enter i (.presented profile fingerprint))
  | .checkServerKey found, .presented profile fingerprint =>
    some (s.enter i (.checked profile fingerprint
      (checkServerKey (lookup s.file (calls i).id found) fingerprint)))
  | .complete, .checked profile fingerprint (.trusted stored) =>
    some (s.enter i ((calls i).afterCompletion profile.hostKeyPolicy fingerprint (.trusted stored)))
  | .reject, .connecting profile | .reject, .presented profile _ =>
    some (s.enter i ((calls i).afterFailure profile.hostKeyPolicy
      (hostKeyOrConnectError none profile.host profile.port)))
  | .reject, .checked profile _ verification =>
    some (s.enter i ((calls i).afterFailure profile.hostKeyPolicy
      (hostKeyOrConnectError (some verification) profile.host profile.port)))
  | .timeOut, .connecting profile | .timeOut, .presented profile _
  | .timeOut, .checked profile _ _ =>
    some (s.enter i ((calls i).afterFailure profile.hostKeyPolicy
      (.timeout profile.host profile.port)))
  | _, _ => none

/-- What comes after it. -/
def storeStep (i : ι) (s : Hosts ι) : Act → Phase → Call → Option (Hosts ι)
  | .authenticate result, .authenticating _, _ =>
    some (s.enter i (.returned ((result.mapError .ssh).map fun _ => none)))
  | .readAll reading, .verified policy verification, .accept _ fingerprint =>
    match acceptable policy fingerprint verification with
    | .error error => some (s.enter i (.returned (.error error)))
    | .ok () => some (s.enter i (.storing policy (readAll s.file reading)))
  | .writeAll none, .storing _ entries, .accept id fingerprint =>
    some ({ s with file := Keyed.put entries id fingerprint }.enter i (.returned (.ok none)))
  | .writeAll (some message), .storing _ _, .accept _ _ =>
    some (s.enter i (.returned (.error
      (.platformOperationFailed (SshError.knownHostsStore message).text))))
  | _, _, _ => none

def hostStep (a : Action ι) (s : Hosts ι) : Option (Hosts ι) :=
  match connectStep calls a.call s a.act (s.phases a.call) with
  | some s' => some s'
  | none => storeStep a.call s a.act (s.phases a.call) (calls a.call)

end Steps

end FileManager.Ssh
