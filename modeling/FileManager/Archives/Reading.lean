/-
The locations of files and of archives, as the archive provider reads
them (`fm-archive`, `lib.rs`: `ParsedArchiveLocation`): the native path
of a local location, and the outer file and the inner path of one in an
archive.
-/
import FileManager.Archives.Listing

namespace FileManager.Archives.Reading

open Updates

-- ==== locations

/-- What an error says of a location. -/
def describe (location : Locations.Location) : Location where
  providerId := location.providerId
  uri := { authority := String.ofList location.uri, segments := [] }

def invalid (location : Locations.Location) : VfsError := .invalidLocation (describe location)

/-- `Location::to_native_path`, as the segments that are pushed to the
root. -/
def toNativePath (location : Locations.Location) : Option (List Locations.Segment) :=
  match location.ensureLocal, Locations.ParsedFileUri.parse location.uri with
  | .ok (), .ok parsed =>
    if parsed.authority = [] ∧ parsed.validateSegments = .ok () then some parsed.segments
    else none
  | _, _ => none

def percentDecodeSegment (segment : List Char) : Option (List Char) :=
  (Text.decode segment).bind Text.ofUtf8

def decodeArchiveInnerPath (inner : List Char) : Option String :=
  if inner = [] then some ""
  else ((inner.splitOn '/').mapM percentDecodeSegment).map fun segments =>
    String.ofList (['/'].intercalate segments)

structure ParsedArchiveLocation where
  archivePath : List Locations.Segment
  inner : String

variable (isUuid : List Char → Bool)

/-- The path of the file before the mark. -/
def archivePathOf (outer : List Char) : Option (List Locations.Segment) :=
  match Locations.Location.parse isUuid ("file://".toList ++ outer) with
  | .error _ => none
  | .ok location => toNativePath location

def ParsedArchiveLocation.parse (location : Locations.Location) :
    Except VfsError ParsedArchiveLocation :=
  if location.providerId ≠ "archive" then .error (invalid location)
  else
    match ("archive://".toList.isPrefixOf? location.uri).bind (Text.splitOnce '!') with
    | none => .error (invalid location)
    | some (outer, inner) =>
      match archivePathOf isUuid outer,
          decodeArchiveInnerPath (if inner.head? = some '/' then inner.tail else inner) with
      | some archivePath, some inner => .ok { archivePath, inner }
      | _, _ => .error (invalid location)

end FileManager.Archives.Reading
