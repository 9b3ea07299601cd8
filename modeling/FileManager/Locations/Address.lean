/-
What a location names: an abstract address, apart from the text that
spells it.

A `Place` is a scheme, the authority (a connection, or an archive's
outer file) and the decoded segments. `Place.render` is the text the
path operations write for it, and `Place.WellFormed` says which places
have one. `Reads` is the relation the parsers decide: the text is
accepted and spells that place. The last part is about the spelling
itself: what of it `Location::parse` keeps.
-/
import FileManager.Locations.Model

namespace FileManager.Locations

open Text

variable (isUuid : List Char → Bool)

-- ==== places

inductive Scheme
  | file
  | archive
  | sftp
  | ftp
  | ftps
  | webdav
deriving DecidableEq

def Scheme.text : Scheme → List Char
  | .file => "file".toList
  | .archive => "archive".toList
  | .sftp => "sftp".toList
  | .ftp => "ftp".toList
  | .ftps => "ftps".toList
  | .webdav => "webdav".toList

def Scheme.provider : Scheme → String
  | .file => "local"
  | .archive => "archive"
  | .sftp => "sftp"
  | .ftp | .ftps => "ftp"
  | .webdav => "webdav"

/-- What ends the authority. -/
def Scheme.separator : Scheme → Char
  | .archive => '!'
  | _ => '/'

structure Place where
  scheme : Scheme
  authority : List Char
  segments : List Segment

/-- What follows the separator in the text of a place. -/
def Place.path (place : Place) : List Char :=
  let path := encodePath place.segments
  match place.scheme with
  | .archive => if path = [] then [] else '/' :: path
  | _ => path

def Place.render (place : Place) : List Char :=
  place.scheme.text ++ "://".toList ++ place.authority
    ++ place.scheme.separator :: place.path

def Place.location (place : Place) : Location where
  providerId := place.scheme.provider
  uri := place.render

def Place.child (place : Place) (name : List Char) : Place :=
  { place with segments := place.segments ++ [utf8 name] }

def Place.up (place : Place) : Place := { place with segments := place.segments.dropLast }

def Scheme.AcceptsAuthority (authority : List Char) : Scheme → Prop
  | .file => ∃ bytes, percentDecode authority = .ok bytes ∧ (0 : UInt8) ∉ bytes
  | .archive => authority ≠ [] ∧ ∃ parsed,
      ParsedFileUri.parse ("file://".toList ++ authority) = .ok parsed
        ∧ parsed.validateSegments = .ok () ∧ parsed.segments ≠ []
  | .sftp => (sftpForm isUuid).acceptsId authority = true
  | .ftp | .ftps => (ftpForm isUuid).acceptsId authority = true
  | .webdav => (webDavForm isUuid).acceptsId authority = true

def Scheme.AcceptsSegment (segment : Segment) : Scheme → Prop
  | .archive => ∃ name, ofUtf8 segment = some name ∧ validateName name = .ok ()
  | .ftp | .ftps => segment ≠ [] ∧ checkSegment false segment = .ok ()
  | _ => segment ≠ [] ∧ checkSegment true segment = .ok ()

/-- No character ends the text, or the authority, early. -/
structure Unbroken (separator : Char) (authority path : List Char) : Prop where
  authority_query : '?' ∉ authority
  authority_fragment : '#' ∉ authority
  authority_separator : separator ∉ authority
  path_query : '?' ∉ path
  path_fragment : '#' ∉ path

structure Place.WellFormed (place : Place) : Prop where
  unbroken : Unbroken place.scheme.separator place.authority []
  authority : place.scheme.AcceptsAuthority isUuid place.authority
  segments : ∀ segment ∈ place.segments, place.scheme.AcceptsSegment segment

-- ==== reading

/-- The decoded segments of what follows the separator. -/
def Scheme.segmentsOf (scheme : Scheme) (path : List Char) : Except LocationError (List Segment) :=
  match scheme with
  | .file => decodePath (stripEnd '/' path)
  | .archive => do
    let inner ← innerPath path
    collect decodeInnerSegment (rawSegments inner)
  | _ => decodePath path

/-- The text is that of the place, with this path after the
separator. -/
structure Reads (uri : List Char) (place : Place) (path : List Char) : Prop where
  text : uri = place.scheme.text ++ "://".toList ++ place.authority
    ++ place.scheme.separator :: path
  unbroken : Unbroken place.scheme.separator place.authority path
  authority : place.scheme.AcceptsAuthority isUuid place.authority
  decoded : place.scheme.segmentsOf path = .ok place.segments
  segments : ∀ segment ∈ place.segments, place.scheme.AcceptsSegment segment

/-- What `Location::parse` keeps of the text. -/
def Place.canonical (place : Place) (uri : List Char) : List Char :=
  if place.scheme = .file ∧ place.segments ≠ [] then stripEnd '/' uri
  else uri

-- ==== spelling

/-- The segments as they are written in what follows the separator. -/
def Scheme.rawOf (scheme : Scheme) (path : List Char) : List (List Char) :=
  match scheme with
  | .file => rawSegments (stripEnd '/' path)
  | .archive => rawSegments (path.drop 1)
  | _ => rawSegments path

/-- What is written after the authority. -/
def pathText (uri : List Char) : List Char :=
  match splitOnce ':' uri with
  | none => []
  | some (scheme, rest) =>
    let separator := if scheme = "archive".toList then '!' else '/'
    match splitOnce separator (rest.drop 2) with
    | none => []
    | some (_, path) => path

def writtenSegments (uri : List Char) : List (List Char) :=
  match parseScheme uri with
  | .error _ => []
  | .ok scheme =>
    if scheme = "file".toList then Scheme.file.rawOf (pathText uri)
    else if scheme = "archive".toList then Scheme.archive.rawOf (pathText uri)
    else rawSegments (pathText uri)

/-- Two URIs with the same scheme that write every segment with the same
characters and, where there is no segment, the root in the same way. -/
def SpelledAlike (uri uri' : List Char) : Prop :=
  parseScheme uri = parseScheme uri' ∧ writtenSegments uri = writtenSegments uri'
    ∧ (writtenSegments uri = [] → pathText uri = pathText uri')

-- ==== addresses

/-- Authority and decoded segments, as the location's provider reads
them. -/
structure Address where
  authority : List Char
  segments : List Segment
deriving DecidableEq

/-- A search has no path: its identifier is its one segment. -/
def searchAddress (uri : List Char) : Except LocationError Address :=
  match ("search://".toList.isPrefixOf? uri).map (List.splitOn '/') with
  | some [authority, searchId] =>
    .ok { authority := authority, segments := [utf8 searchId] }
  | _ => .error .invalidUri

/-- The parser of the location's provider, and what is made of its
result: the shape that the path operations share. -/
def Location.dispatch {α : Type} (location : Location)
    (archive : ParsedArchiveUri → Except LocationError α)
    (remote : RemoteForm → ParsedRemoteUri → Except LocationError α)
    (file : ParsedFileUri → Except LocationError α) : Except LocationError α := do
  if location.providerId = "archive" then
    let parsed ← ParsedArchiveUri.parse location.uri
    return ← archive parsed
  if location.providerId = "sftp" then
    let parsed ← parseSftp isUuid location.uri
    return ← remote (sftpForm isUuid) parsed
  if location.providerId = "ftp" then
    let parsed ← parseFtp isUuid location.uri
    return ← remote (ftpForm isUuid) parsed
  if location.providerId = "webdav" then
    let parsed ← parseWebDav isUuid location.uri
    return ← remote (webDavForm isUuid) parsed
  location.ensureLocal
  let parsed ← ParsedFileUri.parse location.uri
  parsed.validateSegments
  file parsed

def Location.address (location : Location) : Except LocationError Address :=
  if location.providerId = "search" then searchAddress location.uri
  else location.dispatch isUuid (fun parsed =>
      .ok { authority := parsed.outer, segments := parsed.innerSegments })
    (fun _ parsed =>
      .ok { authority := parsed.connectionId, segments := parsed.segments })
    (fun parsed => .ok { authority := parsed.authority, segments := parsed.segments })

end FileManager.Locations
