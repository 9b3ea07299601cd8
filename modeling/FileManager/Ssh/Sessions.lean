/-
The pool of SSH sessions (`fm-ssh`: `manager.rs`), the calls that take
sessions from it (`fm-vfs-sftp`: `with_sftp`; `fm-application`:
`SshResolver`), and the calls that change the saved connections
(`fm-connections`: `service.rs`), any number of them at the same time.

One step is what happens up to the next await: one look into a store or
under a lock, one dial, one request. A provider call is one use of
`with_sftp` after another. A call may be dropped wherever it awaits, and
a session may close at any time.
-/
import FileManager.Ssh.HostKeys

namespace FileManager.Ssh.Pool

open Function

-- ==== connections

inductive SecretMaterial
  | password (password : String)
  | privateKey (key : String) (passphrase : Option String)
  | privateKeyPath (path : String) (passphrase : Option String)
  | oAuthToken (accessToken : String) (refreshToken : Option String)

inductive SshAuthenticationMethod
  | password
  | privateKey
  | agent
deriving DecidableEq

structure SshConnectTarget where
  host : String
  port : Nat
  username : String
deriving DecidableEq

/-- `SshConnectionConfiguration`, as far as a connection is dialled by
it. -/
structure SshConnectionConfiguration where
  host : String
  port : Nat
  username : String
  authentication : SshAuthenticationMethod
  hostKeyPolicy : HostKeyPolicy
  keepalive : Option Nat
deriving DecidableEq

inductive ConnectionConfiguration
  | ssh (configuration : SshConnectionConfiguration)
  | other
deriving DecidableEq

/-- `ConnectionProfile`; a credential reference is the place of the
secret among those that the store was given. -/
structure ConnectionProfile where
  configuration : ConnectionConfiguration
  credentialRef : Option Nat
deriving DecidableEq

/-- The private key of a credential; what a file holds is read when the
connection is resolved and left open. -/
inductive KeyText
  | pasted (key : String)
  | file (path : String)
deriving DecidableEq

inductive SshCredential
  | password (password : String)
  | privateKey (key : KeyText) (passphrase : Option String)
  | agent
deriving DecidableEq

/-- What a session is opened to and authenticated with. -/
structure Login where
  target : SshConnectTarget
  credential : SshCredential
deriving DecidableEq

structure SshConnectionParameters where
  login : Login
  hostKeyPolicy : HostKeyPolicy
  keepalive : Option Nat
deriving DecidableEq

/-- The credential that `ssh_connection_parameters` makes. -/
def sshCredential (authentication : SshAuthenticationMethod) (secret : Option SecretMaterial) :
    Except String SshCredential :=
  match authentication, secret with
  | .agent, _ => .ok .agent
  | .password, some (.password password) => .ok (.password password)
  | .password, _ => .error "password authentication requires a stored password credential"
  | .privateKey, some (.privateKey key passphrase) => .ok (.privateKey (.pasted key) passphrase)
  | .privateKey, some (.privateKeyPath path passphrase) =>
    .ok (.privateKey (.file path) passphrase)
  | .privateKey, _ =>
    .error "private-key authentication requires a stored key or key-file path"

def sshConnectionParameters (configuration : SshConnectionConfiguration)
    (secret : Option SecretMaterial) : Except String SshConnectionParameters :=
  (sshCredential configuration.authentication secret).map fun credential =>
    { login :=
        { target := ⟨configuration.host, configuration.port, configuration.username⟩
          credential }
      hostKeyPolicy := configuration.hostKeyPolicy
      keepalive := configuration.keepalive }

/-- `ConnectionStatus`, as far as the calls set it. -/
inductive ConnectionStatus
  | disconnected
  | connected

-- ==== calls

structure Session where
  number : Nat
  login : Login
deriving DecidableEq

inductive Call
  /-- `update_connection`; the draft, as far as it is used. -/
  | update (id : String) (configuration : ConnectionConfiguration)
      (secret : Option SecretMaterial)
  | delete (id : String)
  | disconnect (id : String)
  /-- `with_sftp`. -/
  | withSftp (id : String)

def Call.id : Call → String
  | .update id _ _ | .delete id | .disconnect id | .withSftp id => id

/-- How far a call has come. -/
inductive Phase
  | called
  /-- `SshResolver` has the profile. -/
  | loaded (profile : ConnectionProfile)
  /-- A session is next, with so many attempts after it. -/
  | resolved (parameters : SshConnectionParameters) (retries : Nat)
  | dialling (parameters : SshConnectionParameters) (number retries : Nat)
  /-- The session is opened, and not in the pool yet. -/
  | dialled (parameters : SshConnectionParameters) (session : Session) (retries : Nat)
  | acquired (parameters : SshConnectionParameters) (session : Session) (retries : Nat)
  /-- The SFTP channel of the session is open. -/
  | ready (parameters : SshConnectionParameters) (session : Session) (retries : Nat)
  /-- An attempt failed, and so many are left. -/
  | waiting (parameters : SshConnectionParameters) (retries : Nat)
  /-- `update`: the profile that is replaced. -/
  | existing (profile : ConnectionProfile)
  /-- `update`: the new secret is stored. -/
  | stored (profile : ConnectionProfile) (previous : Option Nat)
  | prepared (profile : ConnectionProfile)
  | saved
  /-- `delete`: the profile that is deleted. -/
  | found (profile : ConnectionProfile)
  | removed (profile : ConnectionProfile)
  | cleaned
  /-- `disconnect`: the status is set. -/
  | marked
  | returned (succeeds : Bool)
deriving DecidableEq

inductive Act
  | load
  | resolve
  | lookUp
  | connect
  | insert
  | openSftp
  | send (lost : Bool)
  | invalidate
  | store
  | deleteSecret (succeeds : Bool)
  | save
  | deleteProfile
  | disconnect
  | finish
  /-- What is awaited fails. -/
  | fail
  /-- The call is dropped. -/
  | drop
deriving DecidableEq

inductive Action (ι : Type)
  | call (i : ι) (act : Act)
  /-- The transport of a session closes. -/
  | close (number : Nat)

structure World (ι : Type) where
  profiles : String → Option ConnectionProfile
  /-- All that the credential store was ever given. -/
  secrets : List SecretMaterial
  /-- The references that were deleted. -/
  deleted : Nat → Bool
  statuses : String → Option ConnectionStatus
  pool : String → Option Session
  /-- `SshSession::is_closed`. -/
  closed : Nat → Bool
  /-- The number of dials so far. -/
  dials : Nat
  phases : ι → Phase

variable {ι : Type}

/-- Connections are saved, and no session is open. -/
def World.initial (profiles : String → Option ConnectionProfile) (secrets : List SecretMaterial) :
    World ι where
  profiles := profiles
  secrets := secrets
  deleted _ := false
  statuses _ := none
  pool _ := none
  closed _ := false
  dials := 0
  phases _ := .called

/-- The secret of a profile; a reference that was not given has none. -/
def World.secretOf (w : World ι) (profile : ConnectionProfile) : Option SecretMaterial :=
  profile.credentialRef.bind fun reference => w.secrets[reference]?

def World.parametersOf (w : World ι) (profile : ConnectionProfile) :
    Option SshConnectionParameters :=
  match profile.configuration with
  | .ssh configuration => (sshConnectionParameters configuration (w.secretOf profile)).toOption
  | .other => none

/-- What the profile of a connection logs in to, and with what. -/
def World.current (w : World ι) (id : String) : Option Login :=
  ((w.profiles id).bind w.parametersOf).map (·.login)

/-- The credential of the profile can be resolved. -/
def World.resolves (w : World ι) (profile : ConnectionProfile) : Bool :=
  profile.credentialRef.all fun reference => decide (reference < w.secrets.length)
    && !w.deleted reference

section Steps

variable (calls : ι → Call) [DecidableEq ι]

def World.enter (w : World ι) (i : ι) (phase : Phase) : World ι :=
  { w with phases := update w.phases i phase }

/-- A live session of the pool. -/
def World.pooled (w : World ι) (id : String) : Option Session :=
  (w.pool id).filter fun session => !w.closed session.number

/-- `CredentialStore::delete`. -/
def World.deleteSecret (w : World ι) (reference : Option Nat) (succeeds : Bool) : World ι :=
  match reference, succeeds with
  | some reference, true => { w with deleted := update w.deleted reference true }
  | _, _ => w

/-- No session is had: the first attempt ends the call, and so does the
last. -/
def afterAcquireError (parameters : SshConnectionParameters) (retries : Nat) : Phase :=
  if retries = 2 ∨ retries = 0 then .returned false else .waiting parameters retries

/-- One step of `with_sftp`. -/
def withSftpStep (id : String) (i : ι) (w : World ι) : Act → Phase → Option (World ι)
  | .load, .called =>
    some (w.enter i (match w.profiles id with
      | some profile => .loaded profile
      | none => .returned false))
  | .resolve, .loaded profile =>
    some (w.enter i (match w.resolves profile, w.parametersOf profile with
      | true, some parameters => .resolved parameters 2
      | _, _ => .returned false))
  | .lookUp, .resolved parameters retries =>
    match w.pooled id with
    | some session => some (w.enter i (.acquired parameters session retries))
    | none =>
      some ({ w with dials := w.dials + 1 }.enter i (.dialling parameters w.dials retries))
  | .connect, .dialling parameters number retries =>
    some (w.enter i (.dialled parameters ⟨number, parameters.login⟩ retries))
  | .insert, .dialled parameters session retries =>
    some ({ w with pool := update w.pool id (some session) }.enter i
      (.acquired parameters session retries))
  | .openSftp, .acquired parameters session retries =>
    some (w.enter i (.ready parameters session retries))
  | .send false, .ready _ _ _ => some w
  | .send true, .ready parameters _ retries =>
    some (w.enter i (if retries = 0 then .returned false else .waiting parameters retries))
  | .invalidate, .waiting parameters retries =>
    some ({ w with pool := update w.pool id none }.enter i
      (.resolved parameters (retries - 1)))
  | .finish, .ready _ _ _ => some (w.enter i (.returned true))
  | .fail, .dialling parameters _ retries | .fail, .acquired parameters _ retries =>
    some (w.enter i (afterAcquireError parameters retries))
  | .fail, .called | .fail, .loaded _ => some (w.enter i (.returned false))
  | _, _ => none

/-- One step of `update_connection`. -/
def updateStep (id : String) (configuration : ConnectionConfiguration)
    (secret : Option SecretMaterial) (i : ι) (w : World ι) : Act → Phase → Option (World ι)
  | .load, .called =>
    some (w.enter i (match w.profiles id with
      | some profile => .existing profile
      | none => .returned false))
  | .store, .existing profile =>
    match secret with
    | some secret =>
      some ({ w with secrets := w.secrets ++ [secret] }.enter i
        (.stored ⟨configuration, some w.secrets.length⟩ profile.credentialRef))
    | none => some (w.enter i (.prepared ⟨configuration, profile.credentialRef⟩))
  | .deleteSecret succeeds, .stored profile previous =>
    some ((w.deleteSecret previous succeeds).enter i (.prepared profile))
  | .save, .prepared profile =>
    some ({ w with profiles := update w.profiles id (some profile) }.enter i .saved)
  | .finish, .saved => some (w.enter i (.returned true))
  | .fail, .called | .fail, .existing _ | .fail, .prepared _ | .fail, .saved =>
    some (w.enter i (.returned false))
  | _, _ => none

/-- One step of `delete_connection`. -/
def deleteStep (id : String) (i : ι) (w : World ι) : Act → Phase → Option (World ι)
  | .load, .called =>
    some (w.enter i (match w.profiles id with
      | some profile => .found profile
      | none => .returned false))
  | .deleteProfile, .found profile =>
    match w.profiles id with
    | some _ =>
      some ({ w with profiles := update w.profiles id none }.enter i (.removed profile))
    | none => some (w.enter i (.returned false))
  | .deleteSecret succeeds, .removed profile =>
    some ({ w.deleteSecret profile.credentialRef succeeds with
      statuses := update w.statuses id none }.enter i .cleaned)
  | .finish, .cleaned => some (w.enter i (.returned true))
  | .fail, .called | .fail, .found _ => some (w.enter i (.returned false))
  | _, _ => none

/-- One step of `disconnect_connection`. -/
def disconnectStep (id : String) (i : ι) (w : World ι) : Act → Phase → Option (World ι)
  | .disconnect, .called =>
    some (match w.profiles id with
      | some _ => { w with
          statuses := update w.statuses id (some .disconnected) }.enter i .marked
      | none => w.enter i (.returned false))
  | .finish, .marked => some (w.enter i (.returned true))
  | .fail, .called | .fail, .marked => some (w.enter i (.returned false))
  | _, _ => none

def callStep (i : ι) (act : Act) (w : World ι) : Option (World ι) :=
  match act, calls i with
  | .drop, _ => some (w.enter i (.returned false))
  | act, .withSftp id => withSftpStep id i w act (w.phases i)
  | act, .update id configuration secret =>
    updateStep id configuration secret i w act (w.phases i)
  | act, .delete id => deleteStep id i w act (w.phases i)
  | act, .disconnect id => disconnectStep id i w act (w.phases i)

def poolStep : Action ι → World ι → Option (World ι)
  | .call i act, w => callStep calls i act w
  | .close number, w => some { w with closed := update w.closed number true }

end Steps

end FileManager.Ssh.Pool
