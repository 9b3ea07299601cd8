/-
The check of a source and a destination before they are copied or moved
(`fm-operations`, `safety.rs`), on the text of the locations, and what a
location denotes.

# Paths

The check compares paths. A local location has a native path, of its
decoded segments; for the others the text after the scheme is taken for
one. Components are those of `std::path` on a Unix system.

# Folding

`to_string_lossy().to_lowercase()` is the parameter `fold`, from the
bytes of a path to its text in lower case.

# Entries

What a location denotes is stated on its own, from what the parsers read
in it: an endpoint, and the decoded names below it with `.` and `..`
resolved. A connection is the one that its identifier has as a UUID.
-/
import FileManager.Locations.Address

namespace FileManager.Locations

-- ==== paths

/-- `std::path::Component`, of a Unix path. -/
inductive Component
  | rootDir
  | curDir
  | parentDir
  | normal (name : Segment)
deriving DecidableEq

/-- What is between two slashes, as a component. Empty ones and `.` are
passed over. -/
def componentOf (part : Segment) : Option Component :=
  if part = [] ∨ part = [46] then none
  else if part = [46, 46] then some .parentDir
  else some (.normal part)

/-- `Path::components`. -/
def components (path : List UInt8) : List Component :=
  (if path.head? = some 47 then [.rootDir]
    else if (path.splitOn 47).head? = some [46] then [.curDir]
    else [])
  ++ (path.splitOn 47).filterMap componentOf

/-- A `PathBuf` that components are pushed on: whether it has a root, and
its names. -/
structure NormalPath where
  rooted : Bool
  names : List Segment
deriving DecidableEq

namespace NormalPath

def components (path : NormalPath) : List Component :=
  (if path.rooted then [.rootDir] else []) ++ path.names.map .normal

/-- `Path::starts_with`. -/
def startsWith (path base : NormalPath) : Bool := base.components.isPrefixOf path.components

/-- The path's bytes. -/
def text (path : NormalPath) : List UInt8 :=
  (if path.rooted then [47] else []) ++ [47].intercalate path.names

/-- A turn of the loop in `normalized_path`. -/
def step (path : NormalPath) : Component → NormalPath
  | .curDir => path
  | .parentDir => { path with names := path.names.dropLast }
  | .rootDir => { rooted := true, names := [] }
  | .normal name => { path with names := path.names ++ [name] }

end NormalPath

/-- The loop of `normalized_path`. -/
def normalize (path : List UInt8) : NormalPath :=
  (components path).foldl NormalPath.step { rooted := false, names := [] }

/-- `Location::to_native_path`; its errors are not told apart here. -/
def Location.toNativePath (location : Location) : Option (List UInt8) :=
  match location.ensureLocal, ParsedFileUri.parse location.uri with
  | .ok (), .ok parsed =>
    if parsed.authority ≠ [] then none
    else match parsed.validateSegments with
      | .ok () => some (47 :: [47].intercalate parsed.segments)
      | .error _ => none
  | _, _ => none

-- ==== the check

/-- `SafetyError`, as far as `validate_paths` raises it. -/
inductive SafetyError
  | sameEntry
  | destinationInsideSource
  | caseOnlyDifference
  | incomparableLocations
deriving DecidableEq

/-- `str::strip_prefix`, and the bytes of the rest behind `front`. -/
def strippedText (scheme front uri : List Char) : Option (List UInt8) :=
  ((scheme ++ "://".toList).isPrefixOf? uri).map fun remainder =>
    Text.utf8 (front ++ remainder)

/-- The path that `normalized_path` goes through. -/
def comparedPath (location : Location) : Option (List UInt8) :=
  if location.providerId = "archive" then
    strippedText "archive".toList [] location.uri
  else if location.providerId = "sftp" then strippedText "sftp".toList [] location.uri
  else if location.providerId = "ftp" then
    (strippedText "ftps".toList "ftps/".toList location.uri).or
      (strippedText "ftp".toList "ftp/".toList location.uri)
  else if location.providerId = "webdav" then
    strippedText "webdav".toList [] location.uri
  else location.toNativePath

def normalizedPath (location : Location) : Except SafetyError NormalPath :=
  match comparedPath location with
  | some path => .ok (normalize path)
  | none => .error .incomparableLocations

def validatePaths (fold : List UInt8 → List Char) (source destination : Location)
    (caseSensitive : Bool) : Except SafetyError Unit :=
  if source.providerId ≠ destination.providerId then .error .incomparableLocations
  else
    match normalizedPath source, normalizedPath destination with
    | .error error, _ => .error error
    | .ok _, .error error => .error error
    | .ok sourcePath, .ok destinationPath =>
      if sourcePath = destinationPath then .error .sameEntry
      else if !caseSensitive ∧ fold sourcePath.text = fold destinationPath.text then
        .error .caseOnlyDifference
      else if destinationPath.startsWith sourcePath then .error .destinationInsideSource
      else .ok ()

-- ==== entries

/-- Segments with `.` and `..` resolved, and without empty ones. -/
def resolve (segments : List Segment) : List Segment :=
  segments.foldl (fun names segment =>
    if segment = [] ∨ segment = [46] then names
    else if segment = [46, 46] then names.dropLast
    else names ++ [segment]) []

/-- Where the names of an entry are looked up. -/
inductive Endpoint (U : Type)
  | files (authority : List Char)
  | archive (authority : List Char) (outer : List Segment)
  | connection (scheme : Scheme) (id : Option U)

structure Entry (U : Type) where
  endpoint : Endpoint U
  names : List Segment

def outerFile (outer : List Char) : ParsedFileUri :=
  match ParsedFileUri.parse ("file://".toList ++ outer) with
  | .ok parsed => parsed
  | .error _ => { authority := [], segments := [] }

/-- The entry a place denotes; `uuid` is `Uuid::parse_str`. -/
def Place.entry {U : Type} (uuid : List Char → Option U) (place : Place) : Entry U :=
  match place.scheme with
  | .file => { endpoint := .files place.authority, names := resolve place.segments }
  | .archive =>
    { endpoint := .archive (outerFile place.authority).authority
        (resolve (outerFile place.authority).segments)
      names := place.segments }
  | .sftp | .ftp | .ftps | .webdav =>
    { endpoint := .connection place.scheme (uuid place.authority)
      names := resolve place.segments }

def Location.Denotes {U : Type} (uuid : List Char → Option U) (location : Location)
    (entry : Entry U) : Prop :=
  ∃ place, location.providerId = place.scheme.provider
    ∧ (∃ path, Reads (fun id => (uuid id).isSome) location.uri place path)
    ∧ entry = place.entry uuid

/-- What a provider tells two names apart by. -/
def nameKey (fold : List UInt8 → List Char) (caseSensitive : Bool) (name : Segment) :
    Segment ⊕ List Char :=
  if caseSensitive then .inl name else .inr (fold name)

/-- Two endpoints that a provider does not tell apart. -/
def SameEndpoint {U : Type} (fold : List UInt8 → List Char) (caseSensitive : Bool) :
    Endpoint U → Endpoint U → Prop
  | .archive authority outer, .archive authority' outer' =>
    authority = authority'
      ∧ outer.map (nameKey fold caseSensitive) = outer'.map (nameKey fold caseSensitive)
  | endpoint, endpoint' => endpoint = endpoint'

/-- The second entry is the first, or below it. -/
structure AtOrBelow {U : Type} (fold : List UInt8 → List Char) (caseSensitive : Bool)
    (source destination : Entry U) : Prop where
  endpoint : SameEndpoint fold caseSensitive source.endpoint destination.endpoint
  names : source.names.map (nameKey fold caseSensitive)
    <+: destination.names.map (nameKey fold caseSensitive)

/-- What the check lets through is neither the source nor below it. -/
def CheckSound {U : Type} (fold : List UInt8 → List Char) (uuid : List Char → Option U)
    (source destination : Location) (caseSensitive : Bool) : Prop :=
  validatePaths fold source destination caseSensitive = .ok () →
    ∀ entry entry', source.Denotes uuid entry → destination.Denotes uuid entry' →
      ¬ AtOrBelow fold caseSensitive entry entry'

-- ==== spelling

/-- What is written for a place whose path is not decoded: its text
behind the scheme, which stands in front for the two of FTP. -/
def Place.written (place : Place) (path : List Char) : List Char :=
  let text := place.authority ++ place.scheme.separator :: path
  match place.scheme with
  | .ftp => "ftp/".toList ++ text
  | .ftps => "ftps/".toList ++ text
  | _ => text

/-- The path a place is spelled with, `.` and `..` resolved: decoded for
a local one, as it is written for the others. -/
def Place.spelled (place : Place) (path : List Char) : NormalPath :=
  match place.scheme with
  | .file => { rooted := true, names := resolve place.segments }
  | _ =>
    { rooted := decide ((place.written path).head? = some '/')
      names := resolve (((place.written path).splitOn '/').map Text.utf8) }

/-- The second path begins with the components of the first, letter for
letter, or is the first one in other case. -/
def SpelledBelow (fold : List UInt8 → List Char) (caseSensitive : Bool)
    (path path' : NormalPath) : Prop :=
  path.components <+: path'.components ∨ (caseSensitive = false ∧ fold path.text = fold path'.text)

end FileManager.Locations
