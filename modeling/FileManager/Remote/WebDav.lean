/-
The provider of WebDAV files (`fm-vfs-webdav`, `provider.rs`).

As with FTP, a call is a program that asks. One question is one request
with its authentication (`execute`), answered by a response or by a
transport failure. The libraries are parameters (`Libraries`): URLs, and
the reading of a multistatus body.
-/
import FileManager.Remote.Provider
import FileManager.Lib.Dialogue

namespace FileManager.WebDav

open Remote ExceptT
open Dialogue.Talk (perform)
open Dialogue.Attempt (caught)

abbrev Bytes := List UInt8

-- ==== libraries

structure DavEntry where
  href : List Char
  isCollection : Bool
  contentLength : Option Nat
deriving DecidableEq

structure Libraries where
  /-- `percent_encoding::percent_decode_str`. -/
  percentDecodeStr : List Char → Bytes
  /-- `url::Url::parse`, then `path`. -/
  urlPath : List Char → Option (List Char)
  /-- The base URL with the segments pushed. -/
  urlFor : List Char → List (List Char) → Option (List Char)
  /-- `parse_multistatus`. -/
  parseMultistatus : Bytes → Option (List DavEntry)
  /-- `StatusCode::canonical_reason`, as a status is displayed with it. -/
  reason : Nat → String

-- ==== locations

structure Parsed where
  connectionId : List Char
  segments : List (List Char)
  uri : List Char
deriving DecidableEq

open Parsed

variable (isUuid : List Char → Bool) (libraries : Libraries)

def percentDecode (segment : List Char) : Option (List Char) :=
  Text.ofUtf8 (libraries.percentDecodeStr segment)

def Parsed.parse (location : Locations.Location) : Except VfsError Parsed :=
  if location.providerId ≠ "webdav" then .error (invalid location.uri)
  else
    match ("webdav://".toList.isPrefixOf? location.uri).bind (Text.splitOnce '/') with
    | none => .error (invalid location.uri)
    | some (connectionId, path) =>
      if !isUuid connectionId then .error (invalid location.uri)
      else
        match (if path = [] then [] else path.splitOn '/').mapM (percentDecode libraries) with
        | none => .error (invalid location.uri)
        | some segments => .ok { connectionId, segments, uri := location.uri }

-- ==== the wire

/-- `WebDavConnectionParameters`; the login goes with each request. -/
structure WebDavConnectionParameters where
  baseUrl : List Char
  digest : Bool

inductive Method
  | propfind
  | move (destination : List Char)
  | delete
  | get
  | head
  | mkcol
  | copy (destination : List Char)

/-- `reqwest::Response`, read to its end. -/
structure Response where
  status : Nat
  body : Bytes

/-- `StatusCode::is_success`; `MULTI_STATUS` is among them. -/
def Response.isSuccess (response : Response) : Bool :=
  200 ≤ response.status && response.status < 300

def mapStatus (libraries : Libraries) (status : Nat) (uri : List Char) : VfsError :=
  if status = 404 then .notFound (textOf uri)
  else if status = 401 ∨ status = 403 then .permissionDenied (textOf uri)
  else if status = 423 then .locked (textOf uri)
  else if status = 412 ∨ status = 409 then .alreadyExists (textOf uri)
  else .io (s!"WebDAV request failed with status {status} " ++ libraries.reason status)

/-- What a call asks. -/
inductive Ask
  | isCancelled
  | resolve (connectionId : List Char)
  /-- `probe_range_support`: from the cache, or by a `HEAD`. -/
  | probeRangeSupport (connectionId : List Char)
  | request (method : Method) (url : List Char)
  /-- The task of an upload. -/
  | spawn (url : List Char)

abbrev Ask.Answer : Ask → Type
  | .isCancelled => Bool
  | .resolve _ => Except VfsError WebDavConnectionParameters
  | .probeRangeSupport _ => Bool
  | .request _ _ => Except VfsError Response
  | .spawn _ => Unit

abbrev Op (α : Type) := Dialogue.Attempt Ask Ask.Answer VfsError α

/-- `WebDavConnectionResolver::resolve`. -/
def resolve (parsed : Parsed) : Op WebDavConnectionParameters :=
  mk (perform (Ask.resolve parsed.connectionId))

/-- `probe_range_support`, for its effect on the cache. -/
def probeRangeSupport (parsed : Parsed) : Op Unit := do
  let _ ← (ExceptT.lift (perform (Ask.probeRangeSupport parsed.connectionId)) :
    Op Bool)

def request (method : Method) (url : List Char) : Op Response :=
  mk (perform (Ask.request method url))

def cancelled : Token → Op Unit
  | .new => pure ()
  | .caller => do
    let fired ← (ExceptT.lift (perform Ask.isCancelled) : Op Bool)
    if fired then throw .cancelled

def urlFor (parsed : Parsed) (parameters : WebDavConnectionParameters) :
    Except VfsError (List Char) :=
  if libraries.urlPath parameters.baseUrl = none then .error (invalid parameters.baseUrl)
  else
    match libraries.urlFor parameters.baseUrl parsed.segments with
    | some url => .ok url
    | none => .error (invalid parsed.uri)

def decodedPath (text : List Char) : List Char :=
  let path := (libraries.urlPath text).getD text
  (percentDecode libraries path).getD path

/-- The location and the URL of a call. -/
def target (location : Locations.Location) : Op (Parsed × List Char) := do
  let parsed ← mk (pure (parse isUuid libraries location))
  let parameters ← resolve parsed
  let url ← mk (pure (urlFor libraries parsed parameters))
  return (parsed, url)

-- ==== listings

/-- `str::trim_end_matches('/')`. -/
def trimEnd (path : List Char) : List Char := (path.reverse.dropWhile (· = '/')).reverse

/-- The name of what a response is about: none for the collection itself
and for an empty one. -/
def nameIn (selfPath : List Char) (entry : DavEntry) : Option (List Char) :=
  let path := trimEnd (decodedPath libraries entry.href)
  let name := (path.splitOn '/').getLastD []
  if path = trimEnd selfPath ∨ name = [] then none else some name

/-- The summary of an entry of that name. -/
def summary (location : Locations.Location) (name : List Char) (entry : DavEntry) :
    Except VfsError Summary :=
  match location.join isUuid name with
  | .error _ => .error (invalid location.uri)
  | .ok child => .ok
      { location := child
        name := name
        kind := if entry.isCollection then .directory else .file
        size := if entry.isCollection then none else some (entry.contentLength.getD 0) }

/-- The children among the responses. -/
def childrenIn (selfPath : List Char) (entries : List DavEntry) : List (List Char × DavEntry) :=
  entries.filterMap fun entry => (nameIn libraries selfPath entry).map fun name => (name, entry)

/-- What `list` makes of the responses. -/
def pageOf (location : Locations.Location) (options : ListOptions) (selfPath : List Char)
    (entries : List DavEntry) : Except VfsError DirectoryPage := do
  let summaries ← (childrenIn libraries selfPath entries).mapM fun child =>
    summary isUuid location child.1 child.2
  let some offset := options.offset | throw (invalid location.uri)
  return .from ((summaries.drop offset).take options.pageSize) offset summaries.length

/-- The end of `list`, once there is a response. -/
def readPage (location : Locations.Location) (options : ListOptions) (token : Token)
    (url : List Char) (response : Response) : Op DirectoryPage := do
  if !response.isSuccess then throw (mapStatus libraries response.status location.uri)
  match libraries.parseMultistatus response.body with
  | none => throw (.io "malformed WebDAV multistatus response")
  | some entries =>
    cancelled token
    let selfPath := decodedPath libraries url
    mk (pure (pageOf isUuid libraries location options selfPath entries))

def list (location : Locations.Location) (options : ListOptions) (token : Token) :
    Op DirectoryPage := do
  cancelled token
  if options.pageSize = 0 then throw (invalid location.uri)
  let parsed ← mk (pure (parse isUuid libraries location))
  let parameters ← resolve parsed
  probeRangeSupport parsed
  let url ← mk (pure (urlFor libraries parsed parameters))
  let response ← request .propfind url
  readPage isUuid libraries location options token url response

/-- The parent and the name of an entry; a root has none. -/
def parentAndName (location : Locations.Location) :
    Except VfsError (Locations.Location × List Char) :=
  match location.parent isUuid, location.name isUuid with
  | .ok (some parent), .ok name => .ok (parent, name)
  | _, _ => .error (invalid location.uri)

def inspect (location : Locations.Location) (token : Token) : Op Summary := do
  let (parent, name) ← mk (pure (parentAndName isUuid location))
  let page ← list isUuid libraries parent .standard token
  match page.entries.find? fun entry => entry.name = name with
  | some entry => return entry
  | none => throw (.notFound (textOf location.uri))

-- ==== calls

def rename (source destination : Locations.Location) (token : Token) :
    Op Locations.Location := do
  cancelled token
  let a ← mk (pure (parse isUuid libraries source))
  let b ← mk (pure (parse isUuid libraries destination))
  if a.connectionId ≠ b.connectionId then throw (invalid destination.uri)
  let parameters ← resolve a
  let sourceUrl ← mk (pure (urlFor libraries a parameters))
  let destinationUrl ← mk (pure (urlFor libraries b parameters))
  let response ← request (.move destinationUrl) sourceUrl
  if response.isSuccess then return destination
  else throw (mapStatus libraries response.status destination.uri)

def remove (location : Locations.Location) (useTrash : Bool) (token : Token) : Op Unit := do
  cancelled token
  if useTrash then throw (.unsupportedCapability "DELETE")
  let (_, url) ← target isUuid libraries location
  let response ← request .delete url
  if response.isSuccess ∨ response.status = 404 then return ()
  else throw (mapStatus libraries response.status location.uri)

/-- The check of `open_write` and `commit_copy` without `overwrite`: any
failure of `inspect` is taken for absence. -/
def refuseExisting (location : Locations.Location) (overwrite : Bool) : Op Unit :=
  if overwrite then pure ()
  else do
    let found ← caught (inspect isUuid libraries location .new)
    match found with
    | .ok _ => throw (.alreadyExists (textOf location.uri))
    | .error _ => pure ()

def openWrite (location : Locations.Location) (overwrite : Bool) (token : Token) : Op Unit := do
  cancelled token
  refuseExisting isUuid libraries location overwrite
  let parsed ← mk (pure (parse isUuid libraries location))
  let parameters ← resolve parsed
  let url ← mk (pure (urlFor libraries parsed parameters))
  -- a challenge has to be there before the body is streamed
  if parameters.digest then
    let _ ← caught (request .head url)
  ExceptT.lift (perform (Ask.spawn url))

def commitCopy (temporary destination : Locations.Location) (overwrite : Bool) (token : Token) :
    Op Locations.Location := do
  refuseExisting isUuid libraries destination overwrite
  rename isUuid libraries temporary destination token

def discardCopy (temporary : Locations.Location) (token : Token) : Op Unit := do
  let removed ← caught (remove isUuid libraries temporary false token)
  match removed with
  | .ok () | .error (.notFound _) => pure ()
  | .error other => throw other

end FileManager.WebDav
