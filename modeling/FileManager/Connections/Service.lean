/-
`ConnectionService::create`, `update` and `delete` (`fm-connections`,
`service.rs`) over the repository of the profiles and the credential
store.

Each call asks the repository at most once to load, to save and to delete;
how these go, and what the clock says, comes with the call (`Answers`). A
repository call that fails has changed nothing. The credential store does
what it is asked.
-/
import FileManager.Connections.Model

namespace FileManager.Connections

/-- What is kept, and how many ids and references have been drawn. -/
structure Stores where
  profiles : ConnectionId → Option ConnectionProfile
  secrets : CredentialRef → Option SecretMaterial
  ids : Nat
  references : Nat

def Stores.empty : Stores := ⟨fun _ => none, fun _ => none, 0, 0⟩

/-- What the repository and the clock give a call; the errors are those of
the repository's calls that fail. -/
structure Answers where
  load : Option ConnectionError
  save : Option ConnectionError
  delete : Option ConnectionError
  now : Timestamp
  savedAt : Timestamp

-- ==== the stores

/-- `CredentialStore::store`; the reference is the next one. -/
def Stores.store (s : Stores) (secret : SecretMaterial) : Stores :=
  { s with
    secrets := Function.update s.secrets s.references (some secret)
    references := s.references + 1 }

/-- `CredentialStore::delete`. -/
def Stores.deleteSecret (s : Stores) (reference : CredentialRef) : Stores :=
  { s with secrets := Function.update s.secrets reference none }

/-- `ConnectionService::get`. -/
def Stores.get (s : Stores) (answers : Answers) (id : ConnectionId) :
    Except ConnectionError ConnectionProfile :=
  match answers.load, s.profiles id with
  | some error, _ => .error error
  | none, some profile => .ok profile
  | none, none => .error (.notFound id)

/-- What `ConnectionRepository::save` persists. -/
def Stores.persisted (s : Stores) (answers : Answers) (profile : ConnectionProfile) :
    ConnectionProfile :=
  { profile with
    createdAt :=
      match s.profiles profile.id with
      | some existing => existing.createdAt
      | none => profile.createdAt
    updatedAt := answers.savedAt }

/-- `ConnectionRepository::save`. -/
def Stores.save (s : Stores) (answers : Answers) (profile : ConnectionProfile) :
    Except ConnectionError ConnectionProfile × Stores :=
  match answers.save with
  | some error => (.error error, s)
  | none =>
    let persisted := s.persisted answers profile
    (.ok persisted, { s with profiles := Function.update s.profiles persisted.id (some persisted) })

/-- `ConnectionRepository::delete`. -/
def Stores.delete (s : Stores) (answers : Answers) (id : ConnectionId) :
    Except ConnectionError Unit × Stores :=
  match answers.delete, s.profiles id with
  | some error, _ => (.error error, s)
  | none, some _ => (.ok (), { s with profiles := Function.update s.profiles id none })
  | none, none => (.error (.notFound id), s)

-- ==== the calls

/-- `ConnectionService::create`. -/
def create (answers : Answers) (draft : ConnectionDraft) (s : Stores) :
    Except ConnectionError ConnectionProfile × Stores :=
  let profile : ConnectionProfile :=
    { id := s.ids
      name := draft.name
      kind := draft.kind
      configuration := draft.configuration
      credentialRef := none
      createdAt := answers.now
      updatedAt := answers.now }
  let s := { s with ids := s.ids + 1 }
  match validateOrError profile with
  | .error error => (.error error, s)
  | .ok () =>
    match draft.secret with
    | some secret =>
      (s.store secret).save answers { profile with credentialRef := some s.references }
    | none => s.save answers profile

/-- `ConnectionService::update`. -/
def update (answers : Answers) (id : ConnectionId) (draft : ConnectionDraft) (s : Stores) :
    Except ConnectionError ConnectionProfile × Stores :=
  match s.get answers id with
  | .error error => (.error error, s)
  | .ok existing =>
    let profile : ConnectionProfile :=
      { id
        name := draft.name
        kind := draft.kind
        configuration := draft.configuration
        credentialRef := existing.credentialRef
        createdAt := existing.createdAt
        updatedAt := answers.now }
    match validateOrError profile with
    | .error error => (.error error, s)
    | .ok () =>
      match draft.secret with
      | some secret =>
        let stored := s.store secret
        -- The old secret goes before the profile is saved.
        let cleaned := match existing.credentialRef with
          | some previous => stored.deleteSecret previous
          | none => stored
        cleaned.save answers { profile with credentialRef := some s.references }
      | none => s.save answers profile

/-- `ConnectionService::delete`. -/
def delete (answers : Answers) (id : ConnectionId) (s : Stores) :
    Except ConnectionError Unit × Stores :=
  match s.get answers id with
  | .error error => (.error error, s)
  | .ok existing =>
    match s.delete answers id with
    | (.error error, s) => (.error error, s)
    | (.ok (), s) =>
      match existing.credentialRef with
      | some reference => (.ok (), s.deleteSecret reference)
      | none => (.ok (), s)

-- ==== sequences

inductive Call
  | create (draft : ConnectionDraft)
  | update (id : ConnectionId) (draft : ConnectionDraft)
  | delete (id : ConnectionId)

/-- A call, with how the repository's calls go in it. -/
structure Request where
  call : Call
  answers : Answers

/-- What a call returns, with the profile that it has persisted. -/
def Request.execute (r : Request) (s : Stores) :
    Except ConnectionError (Option ConnectionProfile) × Stores :=
  match r.call with
  | .create draft =>
    let (result, s) := create r.answers draft s
    (result.map some, s)
  | .update id draft =>
    let (result, s) := update r.answers id draft s
    (result.map some, s)
  | .delete id =>
    let (result, s) := delete r.answers id s
    (result.map fun _ => none, s)

end FileManager.Connections
