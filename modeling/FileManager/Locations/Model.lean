/-
Locations (`fm-domain`, `location.rs`): URI text, its parsers, one for
each form, and the path operations on it.

Texts are lists of characters and decoded segments are lists of bytes,
as in the source. `Uuid::parse_str` belongs to another crate: what it
accepts is the parameter `isUuid`. The native paths are those of a Unix
system.
-/
import FileManager.Lib.Text

namespace FileManager.Locations

open Text

abbrev Segment := List UInt8

/-- `LocationError`, as far as the modelled functions report it. An
`InvalidName` carries the bytes of the name it shows. -/
inductive LocationError
  | invalidUri
  | unknownProvider (scheme : List Char)
  | mismatchedProvider (providerId : String) (scheme : List Char)
  | nullByte
  | emptySegment
  | invalidPercentEncoding
  | invalidUnicode
  | reservedWindowsName (name : List Char)
  | invalidName (name : Segment)
  | relativeNativePath
  | rootMismatch
  | escapesRoot
deriving DecidableEq

structure Location where
  providerId : String
  uri : List Char
deriving DecidableEq

variable (isUuid : List Char → Bool)

-- ==== pieces

/-- A `collect` of results: the first error, or every value. -/
def collect {α β : Type} (f : α → Except LocationError β) :
    List α → Except LocationError (List β)
  | [] => .ok []
  | x :: rest => do
    let y ← f x
    let ys ← collect f rest
    return y :: ys

def percentDecode (segment : List Char) : Except LocationError Segment :=
  match decode segment with
  | some bytes => .ok bytes
  | none => .error .invalidPercentEncoding

/-- The bytes that `percent_encode` writes as themselves. -/
def isUnreserved (byte : UInt8) : Bool :=
  (48 ≤ byte ∧ byte ≤ 57) ∨ (65 ≤ byte ∧ byte ≤ 90) ∨ (97 ≤ byte ∧ byte ≤ 122)
    ∨ byte = 45 ∨ byte = 46 ∨ byte = 95 ∨ byte = 126 ∨ byte = 58

def percentEncode (bytes : Segment) : List Char := encode isUnreserved bytes

/-- The encoded segments, joined by slashes. -/
def encodePath (segments : List Segment) : List Char :=
  ['/'].intercalate (segments.map percentEncode)

/-- The segments of a path as they are written. -/
def rawSegments (path : List Char) : List (List Char) :=
  if path = [] then [] else path.splitOn '/'

def decodePath (path : List Char) : Except LocationError (List Segment) :=
  if (rawSegments path).any List.isEmpty then .error .emptySegment
  else collect percentDecode (rawSegments path)

/-- `String::from_utf8`. -/
def fromUtf8 (bytes : Segment) : Except LocationError (List Char) :=
  match ofUtf8 bytes with
  | some name => .ok name
  | none => .error .invalidUnicode

-- ==== names

/-- The name up to its first dot, without the blanks and dots at its
end, in upper case. -/
def deviceStem (name : List Char) : List Char :=
  let trimmed := (name.reverse.dropWhile fun c => c = ' ' ∨ c = '.').reverse
  (trimmed.takeWhile fun c => c ≠ '.').map Char.toUpper

/-- The device names, those without a number first. -/
def isDeviceStem (stem : List Char) : Bool :=
  stem ∈ ["CON".toList, "PRN".toList, "AUX".toList, "NUL".toList, "CLOCK$".toList]
    ∨ (stem.length = 4 ∧ (stem.take 3 = "COM".toList ∨ stem.take 3 = "LPT".toList)
      ∧ stem.getLast?.any (fun c => '1' ≤ c ∧ c ≤ '9') = true)

def rejectWindowsDeviceName (name : List Char) : Except LocationError Unit :=
  if isDeviceStem (deviceStem name) then .error (.reservedWindowsName name)
  else .ok ()

def validateName (name : List Char) : Except LocationError Unit :=
  if name = [] then .error .emptySegment
  else if name = ['.'] ∨ name = ['.', '.'] ∨ '/' ∈ name ∨ '\\' ∈ name then
    .error (.invalidName (utf8 name))
  else if Char.ofNat 0 ∈ name then .error .nullByte
  else rejectWindowsDeviceName name

/-- The check of one segment; `devices` says whether device names are
rejected. -/
def checkSegment (devices : Bool) (segment : Segment) : Except LocationError Unit :=
  if (0 : UInt8) ∈ segment then .error .nullByte
  else if (47 : UInt8) ∈ segment ∨ (92 : UInt8) ∈ segment then
    .error (.invalidName segment)
  else if devices then
    match ofUtf8 segment with
    | some name => rejectWindowsDeviceName name
    | none => .ok ()
  else .ok ()

/-- The loop over the segments of a `validate_segments`. -/
def checkSegments (devices : Bool) : List Segment → Except LocationError Unit
  | [] => .ok ()
  | segment :: rest => do
    checkSegment devices segment
    checkSegments devices rest

-- ==== schemes

/-- The syntax `parse_scheme` asks of a scheme. -/
def isSchemeText : List Char → Bool
  | [] => false
  | c :: rest => c.isAlpha && rest.all fun c => c.isAlpha || ['+', '-', '.'].contains c

def parseScheme (uri : List Char) : Except LocationError (List Char) :=
  match splitOnce ':' uri with
  | none => .error .invalidUri
  | some (scheme, _) =>
    if isSchemeText scheme then .ok scheme else .error .invalidUri

def schemeMap : List (List Char × String) :=
  [("file".toList, "local"), ("archive".toList, "archive"), ("sftp".toList, "sftp"),
    ("ftp".toList, "ftp"), ("ftps".toList, "ftp"), ("webdav".toList, "webdav")]

/-- `provider_for_scheme`; no scheme is reserved. -/
def providerForScheme (scheme : List Char) : Except LocationError String :=
  if scheme = "search".toList then .ok "search"
  else match schemeMap.find? (fun pair => pair.1 = scheme) with
    | some (_, provider) => .ok provider
    | none => .error (.unknownProvider scheme)

/-- What follows `scheme://`, without a query or a fragment. -/
def remainderOf (scheme uri : List Char) : Except LocationError (List Char) :=
  match (scheme ++ "://".toList).isPrefixOf? uri with
  | none => .error .invalidUri
  | some remainder =>
    if '?' ∈ remainder ∨ '#' ∈ remainder then .error .invalidUri
    else .ok remainder

-- ==== files

structure ParsedFileUri where
  authority : List Char
  segments : List Segment
deriving DecidableEq

/-- The authority and the path of a `file:` URI. -/
def fileParts (uri : List Char) :
    Except LocationError (List Char × List Char) := do
  let remainder ← remainderOf "file".toList uri
  match remainder with
  | '/' :: path => return ([], path)
  | _ =>
    match splitOnce '/' remainder with
    | some parts => return parts
    | none => throw .invalidUri

/-- `ParsedFileUri::parse`: one slash at the end of the path says
nothing. -/
def ParsedFileUri.parse (uri : List Char) : Except LocationError ParsedFileUri := do
  let (authority, path) ← fileParts uri
  let segments ← decodePath (stripEnd '/' path)
  return { authority := authority, segments := segments }

def ParsedFileUri.validateSegments (parsed : ParsedFileUri) :
    Except LocationError Unit := do
  let authority ← percentDecode parsed.authority
  if (0 : UInt8) ∈ authority then throw .nullByte
  checkSegments true parsed.segments

-- ==== archives

structure ParsedArchiveUri where
  outer : List Char
  innerSegments : List Segment

/-- The outer file and what follows the mark of an `archive:` URI. -/
def archiveParts (uri : List Char) :
    Except LocationError (List Char × List Char) := do
  let remainder ← remainderOf "archive".toList uri
  match splitOnce '!' remainder with
  | some parts => return parts
  | none => throw .invalidUri

/-- One segment inside an archive. -/
def decodeInnerSegment (segment : List Char) : Except LocationError Segment := do
  let decoded ← percentDecode segment
  let name ← fromUtf8 decoded
  validateName name
  return decoded

/-- What follows the mark, without its first slash. -/
def innerPath : List Char → Except LocationError (List Char)
  | [] => .ok []
  | '/' :: inner => .ok inner
  | _ => .error .invalidUri

def ParsedArchiveUri.parse (uri : List Char) :
    Except LocationError ParsedArchiveUri := do
  let (outer, inner) ← archiveParts uri
  if outer = [] ∨ '!' ∈ outer then throw .invalidUri
  let parsedOuter ← ParsedFileUri.parse ("file://".toList ++ outer)
  parsedOuter.validateSegments
  if parsedOuter.segments = [] then throw .invalidUri
  let inner ← innerPath inner
  let innerSegments ← collect decodeInnerSegment (rawSegments inner)
  return { outer := outer, innerSegments := innerSegments }

def ParsedArchiveUri.intoLocation (parsed : ParsedArchiveUri) : Location where
  providerId := "archive"
  uri :=
    let inner := encodePath parsed.innerSegments
    "archive://".toList ++ parsed.outer ++ '!'
      :: (if inner = [] then [] else '/' :: inner)

-- ==== connections

/-- `ParsedSftpUri`, `ParsedWebDavUri` and `ParsedFtpUri`; the first two
have one scheme each. -/
structure ParsedRemoteUri where
  scheme : List Char
  connectionId : List Char
  segments : List Segment
deriving DecidableEq

/-- Where the three differ: the connection identifiers, whether device
names are rejected, and the message for a root without a name. -/
structure RemoteForm where
  acceptsId : List Char → Bool
  rejectsDevices : Bool
  rootMessage : String

/-- The form of `sftp:` URIs. -/
def sftpForm : RemoteForm where
  acceptsId := fun id => !id.isEmpty && isUuid id
  rejectsDevices := true
  rootMessage := "sftp root has no name"

/-- The form of `webdav:` URIs. -/
def webDavForm : RemoteForm where
  acceptsId := fun id => !id.isEmpty && isUuid id
  rejectsDevices := true
  rootMessage := "webdav root has no name"

/-- The form of `ftp:` and `ftps:` URIs. -/
def ftpForm : RemoteForm where
  acceptsId := isUuid
  rejectsDevices := false
  rootMessage := "FTP root has no name"

/-- The connection and the path of a URI of that scheme. -/
def remoteParts (scheme uri : List Char) :
    Except LocationError (List Char × List Char) := do
  let remainder ← remainderOf scheme uri
  match splitOnce '/' remainder with
  | some parts => return parts
  | none => throw .invalidUri

/-- The `parse` of the three. -/
def parseRemote (form : RemoteForm) (scheme uri : List Char) :
    Except LocationError ParsedRemoteUri := do
  let (connectionId, path) ← remoteParts scheme uri
  if !form.acceptsId connectionId then throw .invalidUri
  let segments ← decodePath path
  return { scheme := scheme, connectionId := connectionId, segments := segments }

/-- `ParsedSftpUri::parse`. -/
def parseSftp (uri : List Char) : Except LocationError ParsedRemoteUri :=
  parseRemote (sftpForm isUuid) "sftp".toList uri

/-- `ParsedWebDavUri::parse`. -/
def parseWebDav (uri : List Char) : Except LocationError ParsedRemoteUri :=
  parseRemote (webDavForm isUuid) "webdav".toList uri

/-- `ParsedFtpUri::parse`, which finds the scheme itself. -/
def parseFtp (uri : List Char) : Except LocationError ParsedRemoteUri := do
  let scheme ← parseScheme uri
  if scheme ≠ "ftp".toList ∧ scheme ≠ "ftps".toList then throw .invalidUri
  parseRemote (ftpForm isUuid) scheme uri

-- ==== parsing

def validateSearchUri (uri : List Char) : Except LocationError Unit :=
  match "search://".toList.isPrefixOf? uri with
  | none => .error .invalidUri
  | some remainder =>
    match remainder.splitOn '/' with
    | [authority, searchId] =>
      if authority = "local".toList ∧ searchId ≠ [] then .ok ()
      else .error .invalidUri
    | _ => .error .invalidUri

def Location.parse (uri : List Char) : Except LocationError Location := do
  let scheme ← parseScheme uri
  if scheme = "search".toList then
    validateSearchUri uri
    return { providerId := "search", uri := uri }
  let providerId ← providerForScheme scheme
  if scheme = "archive".toList then
    let _ ← ParsedArchiveUri.parse uri
    return { providerId := providerId, uri := uri }
  if scheme = "sftp".toList then
    let parsed ← parseSftp isUuid uri
    checkSegments (sftpForm isUuid).rejectsDevices parsed.segments
    return { providerId := providerId, uri := uri }
  if scheme = "ftp".toList ∨ scheme = "ftps".toList then
    let parsed ← parseFtp isUuid uri
    checkSegments (ftpForm isUuid).rejectsDevices parsed.segments
    return { providerId := providerId, uri := uri }
  if scheme = "webdav".toList then
    let parsed ← parseWebDav isUuid uri
    checkSegments (webDavForm isUuid).rejectsDevices parsed.segments
    return { providerId := providerId, uri := uri }
  let parsed ← ParsedFileUri.parse uri
  parsed.validateSegments
  -- a directory's trailing slash is dropped, a root's is not
  let canonical := if parsed.segments = [] then uri else stripEnd '/' uri
  return { providerId := providerId, uri := canonical }

-- ==== locations

def ParsedFileUri.intoLocation (parsed : ParsedFileUri) :
    Except LocationError Location := do
  parsed.validateSegments
  Location.parse isUuid ("file://".toList ++ parsed.authority ++ '/' :: encodePath parsed.segments)

/-- The `into_location` of the three. -/
def ParsedRemoteUri.intoLocation (form : RemoteForm) (parsed : ParsedRemoteUri) :
    Except LocationError Location := do
  checkSegments form.rejectsDevices parsed.segments
  Location.parse isUuid
    (parsed.scheme ++ "://".toList ++ parsed.connectionId
      ++ '/' :: encodePath parsed.segments)

def Location.ensureLocal (location : Location) : Except LocationError Unit := do
  let scheme ← parseScheme location.uri
  if location.providerId ≠ "local" ∨ scheme ≠ "file".toList then
    throw (.mismatchedProvider location.providerId scheme)

/-- A turn of `normalize_segments`. -/
def normalizeStep (normalized : List Segment) (segment : Segment) :
    Except LocationError (List Segment) :=
  if segment = [46] then .ok normalized
  else if segment = [46, 46] then
    if normalized = [] then .error .escapesRoot else .ok normalized.dropLast
  else .ok (normalized ++ [segment])

def normalizeSegments (segments : List Segment) : Except LocationError (List Segment) :=
  segments.foldlM normalizeStep []

def Location.normalizeWithin (location root : Location) : Except LocationError Location := do
  location.ensureLocal
  root.ensureLocal
  let parsed ← ParsedFileUri.parse location.uri
  let parsedRoot ← ParsedFileUri.parse root.uri
  if parsed.authority ≠ parsedRoot.authority then throw .rootMismatch
  let normalized ← normalizeSegments parsed.segments
  let normalizedRoot ← normalizeSegments parsedRoot.segments
  if !normalizedRoot.isPrefixOf normalized then throw .escapesRoot
  ParsedFileUri.intoLocation isUuid { authority := parsed.authority, segments := normalized }

/-- The `name` of a parsed URI. -/
def lastName (rootMessage : String) (segments : List Segment) : Except LocationError (List Char) :=
  match segments.getLast? with
  | none => .error (.invalidName (utf8 rootMessage.toList))
  | some bytes => fromUtf8 bytes

/-- The `parent` of the three. -/
def ParsedRemoteUri.parent (form : RemoteForm) (parsed : ParsedRemoteUri) :
    Except LocationError (Option Location) :=
  if parsed.segments = [] then .ok none
  else do
    let location ← ParsedRemoteUri.intoLocation isUuid form
      { parsed with segments := parsed.segments.dropLast }
    return some location

/-- The `join` of the three. -/
def ParsedRemoteUri.join (form : RemoteForm) (parsed : ParsedRemoteUri)
    (name : List Char) : Except LocationError Location :=
  ParsedRemoteUri.intoLocation isUuid form
    { parsed with segments := parsed.segments ++ [utf8 name] }

def Location.parent (location : Location) :
    Except LocationError (Option Location) := do
  if location.providerId = "archive" then
    let parsed ← ParsedArchiveUri.parse location.uri
    if parsed.innerSegments = [] then return none
    return some (ParsedArchiveUri.intoLocation
      { parsed with innerSegments := parsed.innerSegments.dropLast })
  if location.providerId = "sftp" then
    let parsed ← parseSftp isUuid location.uri
    return ← parsed.parent isUuid (sftpForm isUuid)
  if location.providerId = "ftp" then
    let parsed ← parseFtp isUuid location.uri
    return ← parsed.parent isUuid (ftpForm isUuid)
  if location.providerId = "webdav" then
    let parsed ← parseWebDav isUuid location.uri
    return ← parsed.parent isUuid (webDavForm isUuid)
  location.ensureLocal
  let parsed ← ParsedFileUri.parse location.uri
  parsed.validateSegments
  if parsed.segments = [] then return none
  let parent ← ParsedFileUri.intoLocation isUuid
    { parsed with segments := parsed.segments.dropLast }
  return some parent

def Location.join (location : Location) (name : List Char) :
    Except LocationError Location := do
  if location.providerId = "archive" then
    validateName name
    let parsed ← ParsedArchiveUri.parse location.uri
    return ParsedArchiveUri.intoLocation
      { parsed with innerSegments := parsed.innerSegments ++ [utf8 name] }
  if location.providerId = "sftp" then
    validateName name
    let parsed ← parseSftp isUuid location.uri
    return ← parsed.join isUuid (sftpForm isUuid) name
  if location.providerId = "ftp" then
    validateName name
    let parsed ← parseFtp isUuid location.uri
    return ← parsed.join isUuid (ftpForm isUuid) name
  if location.providerId = "webdav" then
    validateName name
    let parsed ← parseWebDav isUuid location.uri
    return ← parsed.join isUuid (webDavForm isUuid) name
  location.ensureLocal
  validateName name
  let parsed ← ParsedFileUri.parse location.uri
  parsed.validateSegments
  ParsedFileUri.intoLocation isUuid { parsed with segments := parsed.segments ++ [utf8 name] }

def Location.name (location : Location) : Except LocationError (List Char) := do
  if location.providerId = "archive" then
    let parsed ← ParsedArchiveUri.parse location.uri
    return ← lastName "archive root has no name" parsed.innerSegments
  if location.providerId = "sftp" then
    let parsed ← parseSftp isUuid location.uri
    return ← lastName (sftpForm isUuid).rootMessage parsed.segments
  if location.providerId = "ftp" then
    let parsed ← parseFtp isUuid location.uri
    return ← lastName (ftpForm isUuid).rootMessage parsed.segments
  if location.providerId = "webdav" then
    let parsed ← parseWebDav isUuid location.uri
    return ← lastName (webDavForm isUuid).rootMessage parsed.segments
  location.ensureLocal
  let parsed ← ParsedFileUri.parse location.uri
  parsed.validateSegments
  lastName "filesystem root has no name" parsed.segments

/-- The `Normal` components of a native path. -/
def nativeSegments (path : List UInt8) : List Segment :=
  (path.splitOn 47).filter fun segment =>
    segment ≠ [] ∧ segment ≠ [46] ∧ segment ≠ [46, 46]

def Location.fromNativePath (path : List UInt8) : Except LocationError Location :=
  if path.head? ≠ some 47 then .error .relativeNativePath
  else ParsedFileUri.intoLocation isUuid { authority := [], segments := nativeSegments path }

end FileManager.Locations
