/-
Connections (`fm-connections`): a profile, what is checked of it, and the
errors that come of it.

Ids and credential references are drawn at random; here the n-th one that
is drawn is `n`, so that no two are the same. Display hints that nothing
reads are left out.
-/
import FileManager.Domain
import FileManager.Workspaces.Model

namespace FileManager.Connections

abbrev ConnectionId := Nat

abbrev CredentialRef := Nat

inductive SecretMaterial
  | password (password : String)
  | privateKey (key : String) (passphrase : Option String)
  | privateKeyPath (path : String) (passphrase : Option String)
  | oauthToken (accessToken : String) (refreshToken : Option String)
deriving DecidableEq

inductive CredentialError
  | notFound (reference : CredentialRef)
  | unavailable (message : String)
  | backend (message : String)
deriving DecidableEq

-- ==== configurations

inductive ConnectionKind
  | ssh
  | ftp
  | ftps
  | oneDrive
  | webDav
  | s3
  | smb
deriving DecidableEq

inductive SshAuthenticationMethod
  | password
  | privateKey
  | agent

def SshAuthenticationMethod.requiresStoredCredential : SshAuthenticationMethod → Bool
  | .password | .privateKey => true
  | .agent => false

structure SshConnectionConfiguration where
  host : String
  port : Nat
  username : String
  authentication : SshAuthenticationMethod

structure FtpConnectionConfiguration where
  host : String
  port : Nat
  username : String

structure WebDavConnectionConfiguration where
  baseUrl : String
  username : String

inductive ConnectionConfiguration
  | ssh (config : SshConnectionConfiguration)
  | ftp (config : FtpConnectionConfiguration)
  | ftps (config : FtpConnectionConfiguration)
  | oneDrive
  | webDav (config : WebDavConnectionConfiguration)
  | s3 (bucket : String)
  | smb (server share : String)

def ConnectionConfiguration.kind : ConnectionConfiguration → ConnectionKind
  | .ssh _ => .ssh
  | .ftp _ => .ftp
  | .ftps _ => .ftps
  | .oneDrive => .oneDrive
  | .webDav _ => .webDav
  | .s3 _ => .s3
  | .smb _ _ => .smb

def ConnectionConfiguration.requiresStoredCredential : ConnectionConfiguration → Bool
  | .ssh config => config.authentication.requiresStoredCredential
  | .ftp _ | .ftps _ | .webDav _ => true
  | .oneDrive | .s3 _ | .smb _ _ => false

inductive ConnectionValidationError
  | emptyName
  | kindMismatch (kind configurationKind : ConnectionKind)
  | emptySshHost
  | emptySshUsername
  | invalidSshPort
  | emptyFtpHost
  | emptyFtpUsername
  | invalidFtpPort
  | emptyWebDavBaseUrl
  | emptyWebDavUsername
  | emptyS3Bucket
  | emptySmbServer
  | emptySmbShare
deriving DecidableEq

/-- An error where a text is blank. -/
def blank (text : String) (error : ConnectionValidationError) : List ConnectionValidationError :=
  if Workspaces.trim text = [] then [error] else []

def zeroPort (port : Nat) (error : ConnectionValidationError) : List ConnectionValidationError :=
  if port = 0 then [error] else []

def ConnectionConfiguration.validate : ConnectionConfiguration → List ConnectionValidationError
  | .ssh config =>
    blank config.host .emptySshHost ++ blank config.username .emptySshUsername
      ++ zeroPort config.port .invalidSshPort
  | .ftp config | .ftps config =>
    blank config.host .emptyFtpHost ++ blank config.username .emptyFtpUsername
      ++ zeroPort config.port .invalidFtpPort
  | .webDav config =>
    blank config.baseUrl .emptyWebDavBaseUrl ++ blank config.username .emptyWebDavUsername
  | .s3 bucket => blank bucket .emptyS3Bucket
  | .smb server share => blank server .emptySmbServer ++ blank share .emptySmbShare
  | .oneDrive => []

-- ==== profiles

structure ConnectionProfile where
  id : ConnectionId
  name : String
  kind : ConnectionKind
  configuration : ConnectionConfiguration
  credentialRef : Option CredentialRef
  createdAt : Timestamp
  updatedAt : Timestamp

def ConnectionProfile.validate (profile : ConnectionProfile) : List ConnectionValidationError :=
  blank profile.name .emptyName ++ (if profile.configuration.kind ≠ profile.kind then
          [.kindMismatch profile.kind profile.configuration.kind]
        else [])
    ++ profile.configuration.validate

structure ConnectionDraft where
  name : String
  kind : ConnectionKind
  configuration : ConnectionConfiguration
  secret : Option SecretMaterial

inductive ConnectionStatus
  | disconnected
  | connecting
  | connected
  | reconnecting
  | authenticationRequired
  | hostKeyUnverified
  | hostKeyMismatch
  | failed
deriving DecidableEq

inductive ConnectionError
  | notFound (id : ConnectionId)
  | invalid (errors : List ConnectionValidationError)
  | io (message : String)
  | serialization (message : String)
  | corrupt (id backupPath : String)
  | credential (error : CredentialError)
  | hostKeyUnverified (fingerprint : String)
  | hostKeyMismatch (fingerprint expectedFingerprint : String)
  | dialFailed (message : String)
deriving DecidableEq

def validateOrError (profile : ConnectionProfile) : Except ConnectionError Unit :=
  if profile.validate = [] then .ok () else .error (.invalid profile.validate)

end FileManager.Connections
