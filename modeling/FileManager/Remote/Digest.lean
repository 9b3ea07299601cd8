/-
Digest authentication of the WebDAV provider (`fm-vfs-webdav`, `digest.rs`
and `provider.rs`): what a challenge says and what answers it, and the
cache of challenges that all calls of a provider share.

A step of a call is what it does between two awaits. A server may answer
anything at any time. An entry of the cache is shared by the calls that
have looked it up, also when another has taken its place; here the entries
are numbered as they are made. A count is a `u32`, and goes round.
-/
import FileManager.Workspaces.Model
import FileManager.Renames.Executor
import FileManager.Lib.Text

namespace FileManager.WebDav.Digest

open Workspaces (trim)
open String (ofList)

-- ==== challenges

structure DigestChallenge where
  realm : String
  nonce : String
  opaqueText : Option String
  qop : Option String
  algorithm : Option String
deriving DecidableEq

inductive DigestError
  | malformedChallenge
  | unsupported (what : String)

/-- `split_auth_params`, with the part that it is in. -/
def splitAuthParams (current : List Char) (inQuotes : Bool) : List Char → List String
  | [] =>
    let part := ofList current
    if trim part = [] then [] else [part]
  | c :: rest =>
    if c = '"' then splitAuthParams (current ++ [c]) (!inQuotes) rest
    else if c = ',' && !inQuotes then ofList current :: splitAuthParams [] inQuotes rest
    else splitAuthParams (current ++ [c]) inQuotes rest

/-- `trim_matches('"')`. -/
def unquoted (value : List Char) : List Char :=
  ((value.dropWhile (· = '"')).reverse.dropWhile (· = '"')).reverse

/-- One parameter of `parse_auth_params`. -/
def authParam (part : String) : Option (String × String) :=
  (Text.splitOnce '=' part.toList).map fun (key, value) =>
    (ofList ((trim (ofList key)).map Char.toLower),
      ofList (unquoted (trim (ofList value))))

/-- `parse_auth_params`, by key: the last one of a key is kept. -/
def authParams (rest : List Char) (key : String) : Option String :=
  (((splitAuthParams [] false rest).filterMap authParam).reverse.find? fun param =>
    param.1 = key).map Prod.snd

def DigestChallenge.parse (header : String) : Except DigestError DigestChallenge :=
  match "Digest".toList.isPrefixOf? (trim header) with
  | none => .error .malformedChallenge
  | some rest =>
    let params := authParams rest
    match params "realm", params "nonce" with
    | some realm, some nonce =>
      let algorithm := params "algorithm"
      let known := algorithm.all fun algorithm =>
        Renames.eqIgnoreAsciiCase algorithm "MD5"
          || Renames.eqIgnoreAsciiCase algorithm "MD5-sess"
      if !known then .error (.unsupported (algorithm.getD ""))
      else
        let qop := params "qop"
        let auth := qop.all fun qop =>
          (qop.toList.splitOn ',').any fun value =>
            decide (trim (ofList value) = "auth".toList)
        if !auth then .error (.unsupported (qop.getD ""))
        else
          .ok
            { realm
              nonce
              opaqueText := params "opaque"
              qop := qop.map fun _ => "auth"
              algorithm }
    | _, _ => .error .malformedChallenge

-- ==== calls

/-- A call on a Digest connection: one request (`execute`), or an upload
with the requests before it. -/
inductive Call
  | execute (cacheKey : String)
  | openWrite (baseUrl : String) (overwrite : Bool)

def Call.cacheKey : Call → String
  | .execute cacheKey => cacheKey
  | .openWrite baseUrl _ => baseUrl

/-- What an `execute` is made for. -/
inductive Purpose
  | call
  /-- `open_write`: to see that the destination is not there. -/
  | inspect
  /-- `open_write`: so that there is a challenge in the cache. -/
  | prime
deriving DecidableEq

/-- How far a call has come. -/
inductive Phase
  | called
  -- `execute`.
  | looking (purpose : Purpose)
  | holding (purpose : Purpose) (entry : Nat)
  | tried (purpose : Purpose)
  | probing (purpose : Purpose)
  | challenged (purpose : Purpose) (challenge : DigestChallenge)
  | answering (purpose : Purpose)
  -- The end of `open_write`.
  | fetching
  | uploading (entry : Option Nat)
  | returned
deriving DecidableEq

structure CachedDigest where
  challenge : DigestChallenge
  nonceCount : Nat

/-- An authenticated request. -/
structure Sent where
  challenge : DigestChallenge
  nonceCount : Nat

/-- The nonce and the count that a request carries; without a qop it
carries no count. -/
def Sent.pair (sent : Sent) : Option (String × Nat) :=
  if sent.challenge.qop.isSome then some (sent.challenge.nonce, sent.nonceCount) else none

/-- The provider, with the requests that it has sent with an
authorization. -/
structure Provider (ι : Type) where
  cache : String → Option Nat
  entries : List CachedDigest
  phases : ι → Phase
  sent : List Sent

variable {ι : Type}

def Provider.new : Provider ι where
  cache _ := none
  entries := []
  phases _ := .called
  sent := []

/-- What comes back to a request. -/
inductive Reply
  | failed
  /-- 401, with its `WWW-Authenticate`. -/
  | unauthorized (header : Option String)
  /-- Another response, and whether an `inspect` by it succeeds. -/
  | other (found : Bool)
deriving DecidableEq

inductive Act
  | start
  /-- `digest_cache.read()`. -/
  | look
  /-- `fetch_add` on the entry that the call has, and its request. -/
  | count
  | reply (reply : Reply)
  /-- `digest_cache.write()`, and the request that answers. -/
  | install
deriving DecidableEq

structure Action (ι : Type) where
  call : ι
  act : Act

/-- What a call goes on with when an `execute` of it has ended. -/
def Purpose.done (purpose : Purpose) (found : Bool) : Phase :=
  match purpose with
  | .call => .returned
  | .inspect => if found then .returned else .looking .prime
  | .prime => .fetching

def nextCount (nonceCount : Nat) : Nat := (nonceCount + 1) % 2 ^ 32

/-- What an unauthenticated request is answered with. -/
def Purpose.probed (purpose : Purpose) : Reply → Phase
  | .failed => purpose.done false
  | .other found => purpose.done found
  | .unauthorized none => purpose.done false
  | .unauthorized (some header) =>
    match DigestChallenge.parse header with
    | .error _ => purpose.done false
    | .ok challenge => .challenged purpose challenge

variable [DecidableEq ι]

def Provider.enter (s : Provider ι) (i : ι) (phase : Phase) : Provider ι :=
  { s with phases := Function.update s.phases i phase }

/-- `nonce_count.fetch_add`, and the request with the new count. -/
def Provider.count (s : Provider ι) (entry : Nat) (cached : CachedDigest) : Provider ι :=
  let nonceCount := nextCount cached.nonceCount
  { s with
    entries := s.entries.set entry { cached with nonceCount }
    sent := s.sent ++ [⟨cached.challenge, nonceCount⟩] }

/-- A new entry for a challenge, and the request that answers it. -/
def Provider.install (s : Provider ι) (cacheKey : String) (challenge : DigestChallenge) :
    Provider ι :=
  { s with
    cache := Function.update s.cache cacheKey (some s.entries.length)
    entries := s.entries ++ [⟨challenge, 1⟩]
    sent := s.sent ++ [⟨challenge, 1⟩] }

def callStep (calls : ι → Call) (a : Action ι) (s : Provider ι) : Option (Provider ι) :=
  let i := a.call
  let cacheKey := (calls i).cacheKey
  match a.act, s.phases i with
  | .start, .called =>
    match calls i with
    | .execute _ => some (s.enter i (.looking .call))
    | .openWrite _ overwrite =>
      some (s.enter i (.looking (if overwrite then .prime else .inspect)))
  | .look, .looking purpose =>
    match s.cache cacheKey with
    | some entry => some (s.enter i (.holding purpose entry))
    | none => some (s.enter i (.probing purpose))
  | .count, .holding purpose entry =>
    s.entries[entry]?.map fun cached => (s.count entry cached).enter i (.tried purpose)
  | .reply (.unauthorized _), .tried purpose => some (s.enter i (.probing purpose))
  | .reply .failed, .tried purpose => some (s.enter i (purpose.done false))
  | .reply (.other found), .tried purpose => some (s.enter i (purpose.done found))
  | .reply reply, .probing purpose => some (s.enter i (purpose.probed reply))
  | .install, .challenged purpose challenge =>
    some ((s.install cacheKey challenge).enter i (.answering purpose))
  | .reply (.other found), .answering purpose => some (s.enter i (purpose.done found))
  | .reply _, .answering purpose => some (s.enter i (purpose.done false))
  | .look, .fetching => some (s.enter i (.uploading (s.cache cacheKey)))
  | .count, .uploading (some entry) =>
    s.entries[entry]?.map fun cached => (s.count entry cached).enter i .returned
  | .count, .uploading none => some (s.enter i .returned)
  | _, _ => none

end FileManager.WebDav.Digest
