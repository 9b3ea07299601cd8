/-
The tracked statuses of `ConnectionService` (`fm-connections`,
`service.rs`) under any number of calls at the same time: connect, test,
disconnect, update and delete.

A step is what a call does between two of its awaits and lock sections.
What an await brings comes with the step. The credential store's content
decides nothing else here, so deleting a secret is no step. A last-error
message is kept as the error whose text it is.
-/
import FileManager.Connections.Model

namespace FileManager.Connections.Tracking

-- ==== calls

inductive Command
  | connect
  | test
  | disconnect
  | update (draft : ConnectionDraft)
  | delete

structure Call where
  command : Command
  id : ConnectionId

/-- What `connect` and `test` return once they have the profile. -/
abbrev Outcome := Except ConnectionError ConnectionStatus

/-- How far a call has come. -/
inductive Phase
  | idle
  | issued
  | refused (error : ConnectionError)
  -- `connect`, `test` and `disconnect`.
  | beginning (profile : ConnectionProfile)
  | announcing (profile : ConnectionProfile)
  | evaluating (profile : ConnectionProfile)
  | resolving (profile : ConnectionProfile)
  | dialling (profile : ConnectionProfile)
  | failing (error : ConnectionError)
  | clearing
  | settling (outcome : Outcome)
  | publishing (outcome : Outcome)
  | answered (outcome : Outcome)
  -- `update`.
  | storing (profile : ConnectionProfile)
  | saving (profile : ConnectionProfile)
  | saved
  | updated
  -- `delete`.
  | deleting
  | dropped
  | removed
  | deleted

def Phase.returned : Phase → Bool
  | .refused _ | .answered _ | .updated | .deleted => true
  | _ => false

inductive Event
  | statusChanged (status : ConnectionStatus)
  | updated
  | deleted
deriving DecidableEq

/-- The service, with the calls that were issued, the last one first. -/
structure Service (ι : Type) where
  profiles : ConnectionId → Option ConnectionProfile
  statuses : ConnectionId → Option ConnectionStatus
  lastErrors : ConnectionId → Option ConnectionError
  events : List (ConnectionId × Event)
  phases : ι → Phase
  issued : List ι

variable {ι : Type}

/-- A process that has just started. -/
def Service.initial (profiles : ConnectionId → Option ConnectionProfile) : Service ι where
  profiles := profiles
  statuses _ := none
  lastErrors _ := none
  events := []
  phases _ := .idle
  issued := []

def Service.trackedStatus (s : Service ι) (id : ConnectionId) : ConnectionStatus :=
  (s.statuses id).getD .disconnected

def Outcome.status : Outcome → ConnectionStatus
  | .ok status => status
  | .error _ => .failed

-- ==== evaluate

/-- The last part of `evaluate`, with the kinds that have a dialer. -/
def reached (dialers : ConnectionKind → Bool) (profile : ConnectionProfile) : Phase :=
  if dialers profile.kind then .dialling profile else .settling (.ok .connected)

/-- `evaluate`, to its first await. -/
def evaluate (dialers : ConnectionKind → Bool) (profile : ConnectionProfile) : Phase :=
  match validateOrError profile with
  | .error error => .settling (.error error)
  | .ok () =>
    match profile.credentialRef with
    | some _ => .resolving profile
    | none =>
      if profile.configuration.requiresStoredCredential then
        .settling (.ok .authenticationRequired)
      else reached dialers profile

/-- `evaluate`, once the credential store has answered. -/
def resolved (dialers : ConnectionKind → Bool) (profile : ConnectionProfile) :
    Except CredentialError SecretMaterial → Phase
  | .ok _ => reached dialers profile
  | .error (.notFound _) => .settling (.ok .authenticationRequired)
  | .error error => .settling (.error (.credential error))

/-- `evaluate`, once the dialer has answered. -/
def dialled : Except ConnectionError Unit → Phase
  | .ok () => .settling (.ok .connected)
  | .error (.hostKeyUnverified _) => .settling (.ok .hostKeyUnverified)
  | .error (.hostKeyMismatch _ _) => .settling (.ok .hostKeyMismatch)
  | .error other => .failing other

-- ==== steps

inductive Act
  | issue
  /-- `get`. -/
  | load (error : Option ConnectionError) (now : Timestamp)
  /-- `set_status_and_publish`: `Connecting`, and the outcome. -/
  | begin
  | settle
  | publish
  | evaluate
  | resolve (result : Except CredentialError SecretMaterial)
  | dial (result : Except ConnectionError Unit)
  | setLastError
  | clearLastError
  | store (result : Except CredentialError CredentialRef)
  | save (error : Option ConnectionError) (savedAt : Timestamp)
  | drop (error : Option ConnectionError)
  | removeStatus

structure Action (ι : Type) where
  call : ι
  act : Act

/-- The profile that `update` makes. -/
def updatedProfile (draft : ConnectionDraft) (existing : ConnectionProfile) (now : Timestamp) :
    ConnectionProfile :=
  { existing with
    name := draft.name
    kind := draft.kind
    configuration := draft.configuration
    updatedAt := now }

/-- What a call goes on with when it has its profile. -/
def Command.found (command : Command) (profile : ConnectionProfile) (now : Timestamp) : Phase :=
  match command with
  | .connect => .beginning profile
  | .test => .evaluating profile
  | .disconnect => .clearing
  | .update draft =>
    let profile := updatedProfile draft profile now
    match validateOrError profile with
    | .error error => .refused error
    | .ok () => if draft.secret.isSome then .storing profile else .saving profile
  | .delete => .deleting

/-- What `ConnectionRepository::save` persists. -/
def persisted (existing : Option ConnectionProfile) (profile : ConnectionProfile)
    (savedAt : Timestamp) : ConnectionProfile :=
  { profile with
    createdAt :=
      match existing with
      | some existing => existing.createdAt
      | none => profile.createdAt
    updatedAt := savedAt }

variable [DecidableEq ι]

def Service.enter (s : Service ι) (i : ι) (phase : Phase) : Service ι :=
  { s with phases := Function.update s.phases i phase }

def Service.setStatus (s : Service ι) (id : ConnectionId) (status : Option ConnectionStatus) :
    Service ι :=
  { s with statuses := Function.update s.statuses id status }

def Service.setError (s : Service ι) (id : ConnectionId) (error : Option ConnectionError) :
    Service ι :=
  { s with lastErrors := Function.update s.lastErrors id error }

def Service.setProfile (s : Service ι) (id : ConnectionId) (profile : Option ConnectionProfile) :
    Service ι :=
  { s with profiles := Function.update s.profiles id profile }

def Service.announce (s : Service ι) (id : ConnectionId) (event : Event) : Service ι :=
  { s with events := s.events ++ [(id, event)] }

def callStep (calls : ι → Call) (dialers : ConnectionKind → Bool) (a : Action ι)
    (s : Service ι) : Option (Service ι) :=
  let i := a.call
  let id := (calls i).id
  match a.act, s.phases i with
  | .issue, .idle => some { s.enter i .issued with issued := i :: s.issued }
  | .load (some error) _, .issued => some (s.enter i (.refused error))
  | .load none now, .issued =>
    match s.profiles id with
    | none => some (s.enter i (.refused (.notFound id)))
    | some profile => some (s.enter i ((calls i).command.found profile now))
  | .begin, .beginning profile =>
    some ((s.setStatus id (some .connecting)).enter i (.announcing profile))
  | .publish, .announcing profile =>
    some ((s.announce id (.statusChanged .connecting)).enter i (.evaluating profile))
  | .evaluate, .evaluating profile =>
    some ((s.setError id none).enter i (evaluate dialers profile))
  | .resolve result, .resolving profile => some (s.enter i (resolved dialers profile result))
  | .dial result, .dialling _ => some (s.enter i (dialled result))
  | .setLastError, .failing error =>
    some ((s.setError id (some error)).enter i (.settling (.ok .failed)))
  | .clearLastError, .clearing =>
    some ((s.setError id none).enter i (.settling (.ok .disconnected)))
  | .settle, .settling outcome =>
    some ((s.setStatus id (some outcome.status)).enter i (.publishing outcome))
  | .publish, .publishing outcome =>
    some ((s.announce id (.statusChanged outcome.status)).enter i (.answered outcome))
  | .store (.ok reference), .storing profile =>
    some (s.enter i (.saving { profile with credentialRef := some reference }))
  | .store (.error error), .storing _ => some (s.enter i (.refused (.credential error)))
  | .save (some error) _, .saving _ => some (s.enter i (.refused error))
  | .save none savedAt, .saving profile =>
    some ((s.setProfile id (some (persisted (s.profiles id) profile savedAt))).enter i .saved)
  | .publish, .saved => some ((s.announce id .updated).enter i .updated)
  | .drop (some error), .deleting => some (s.enter i (.refused error))
  | .drop none, .deleting =>
    match s.profiles id with
    | none => some (s.enter i (.refused (.notFound id)))
    | some _ => some ((s.setProfile id none).enter i .dropped)
  | .removeStatus, .dropped => some ((s.setStatus id none).enter i .removed)
  | .publish, .removed => some ((s.announce id .deleted).enter i .deleted)
  | _, _ => none

end FileManager.Connections.Tracking
