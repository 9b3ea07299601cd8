/-
What the SSH sessions share (`fm-ssh`: `error.rs`, `types.rs`).
-/
import Mathlib.Data.List.Basic

namespace FileManager.Ssh

inductive SshError
  | connect (host : String) (port : Nat) (message : String)
  | timeout (host : String) (port : Nat)
  | hostKeyUnverified (fingerprint : String)
  | hostKeyMismatch (fingerprint expectedFingerprint : String)
  | authenticationFailed
  | unsupportedAuthenticationMethod (method : String)
  | agent (message : String)
  | invalidPrivateKey (message : String)
  | cancelled
  | session (message : String)
  | sftp (message : String)
  | knownHostsStore (message : String)
  | hostKeyAcceptanceMismatch (presented attempted : String)
deriving DecidableEq

/-- `SshError::to_string`. -/
def SshError.text : SshError → String
  | .connect host port message => s!"failed to connect to {host}:{port}: {message}"
  | .timeout host port => s!"connection to {host}:{port} timed out"
  | .hostKeyUnverified fingerprint => s!"host key {fingerprint} has not been verified yet"
  | .hostKeyMismatch fingerprint expected =>
    s!"host key {fingerprint} does not match the previously accepted {expected}"
  | .authenticationFailed => "authentication failed"
  | .unsupportedAuthenticationMethod method =>
    s!"authentication method not supported: {method}"
  | .agent message => s!"ssh-agent error: {message}"
  | .invalidPrivateKey message => s!"invalid private key: {message}"
  | .cancelled => "operation cancelled"
  | .session message => s!"ssh session error: {message}"
  | .sftp message => s!"sftp error: {message}"
  | .knownHostsStore message => s!"known-hosts store error: {message}"
  | .hostKeyAcceptanceMismatch presented attempted =>
    s!"host key {presented} does not match the fingerprint being accepted {attempted}"

end FileManager.Ssh
