/-
The handlers of the server's API that are given locations (`fm-server`,
`routes/`), up to the call of the application service.

A handler checks the locations it checks, in its order, and hands the
request to the service as it came. Of a request only the locations are
kept; an address in a query is the text the service parses. Requests
without a location of their own (pages of a job, its cancellation,
settings, connections) are one case.

# Runs

Between two requests anything may have changed the file system.
-/
import FileManager.Server.Roots

namespace FileManager.Server

open Locations (Segment)

/-- The requests, by their handlers. -/
inductive Request
  -- `routes/directory.rs`
  | listDirectory (location : LocationDto)
  | refreshDirectory (location : LocationDto)
  | listDirectoryChildren (location : LocationDto)
  | navigatePane (location : LocationDto)
  | getEntryMetadata (location : LocationDto)
  -- `routes/files.rs`
  | cacheArchivePassword (location : LocationDto)
  | readFileRange (location : LocationDto)
  | loadEditableFile (location : LocationDto)
  | saveEditableFile (location : LocationDto) (destination : Option LocationDto)
  | searchInFile (location : LocationDto)
  | calculateFolderSize (location : LocationDto)
  | getFileGitHistory (location : LocationDto)
  -- `routes/search.rs`, `routes/operation.rs`
  | startSearch (roots : List LocationDto)
  | startOperation (sources : List LocationDto) (destination : Option LocationDto)
      (destinations : List LocationDto)
  -- `routes/comparison.rs`, `routes/checksum.rs`
  | startComparison (left right : LocationDto)
  | startChecksums (entries : List LocationDto)
  | saveChecksumFile (destination : LocationDto)
  | startDuplicateScan (roots : List LocationDto)
  -- `routes/thumbnails.rs`, `routes/icons.rs`, `routes/extended_attributes.rs`
  | getThumbnail (uri : List Char)
  | getFileIcon (uri : List Char)
  | getFinderTags (uri : List Char)
  | setFinderTags (uri : List Char)
  | getSpotlightComment (uri : List Char)
  | setSpotlightComment (uri : List Char)
  /-- `routes/action.rs`: the parameters of a mutating action are those
  of an operation. -/
  | invokeAction (sources : List LocationDto) (destination : Option LocationDto)
      (destinations : List LocationDto)
  /-- `routes/workspace.rs`: the location a tab is sent to. -/
  | applyWorkspaceCommand (location : Option LocationDto)
  | unaddressed
deriving DecidableEq

variable (isUuid : List Char → Bool)

/-- The location an address is parsed to; the service refuses another
text. -/
def addressed (uri : List Char) : List LocationDto :=
  match Locations.Location.parse isUuid uri with
  | .ok location => [location]
  | .error _ => []

def Request.locations : Request → List LocationDto
  | .listDirectory location | .refreshDirectory location | .listDirectoryChildren location
  | .navigatePane location | .getEntryMetadata location | .cacheArchivePassword location
  | .readFileRange location | .loadEditableFile location | .searchInFile location
  | .calculateFolderSize location | .getFileGitHistory location
  | .saveChecksumFile location => [location]
  | .saveEditableFile location destination => location :: destination.toList
  | .startSearch roots | .startDuplicateScan roots => roots
  | .startOperation sources destination destinations
  | .invokeAction sources destination destinations =>
    sources ++ destination.toList ++ destinations
  | .startComparison left right => [left, right]
  | .startChecksums entries => entries
  | .getThumbnail uri | .getFileIcon uri | .getFinderTags uri | .setFinderTags uri
  | .getSpotlightComment uri | .setSpotlightComment uri => addressed isUuid uri
  | .applyWorkspaceCommand location => location.toList
  | .unaddressed => []

-- ==== handlers

/-- The checks a handler begins with. -/
def requireAll (files : FileSystem) (roots : List (List Segment)) :
    List LocationDto → Except ApplicationError Unit
  | [] => .ok ()
  | location :: rest => do
    requireWithinRoots files roots location
    requireAll files roots rest

/-- The handlers: what the service is called with. -/
def handle (files : FileSystem) (roots : List (List Segment)) (request : Request) :
    Except ApplicationError Request :=
  match request with
  | .listDirectory location | .refreshDirectory location | .listDirectoryChildren location
  | .navigatePane location | .getEntryMetadata location | .cacheArchivePassword location
  | .readFileRange location | .loadEditableFile location | .searchInFile location
  | .calculateFolderSize location | .getFileGitHistory location => do
    requireWithinRoots files roots location
    return request
  | .saveEditableFile location destination => do
    requireWithinRoots files roots location
    requireAll files roots destination.toList
    return request
  | .startSearch searched => do
    requireAll files roots searched
    return request
  | .startOperation sources destination destinations => do
    requireAll files roots sources
    requireAll files roots destination.toList
    requireAll files roots destinations
    return request
  | .startComparison _ _ | .startChecksums _ | .saveChecksumFile _ | .startDuplicateScan _
  | .getThumbnail _ | .getFileIcon _ | .getFinderTags _ | .setFinderTags _
  | .getSpotlightComment _ | .setSpotlightComment _ | .invokeAction _ _ _
  | .applyWorkspaceCommand _ | .unaddressed => return request

-- ==== runs

/-- A request, and the files it meets. -/
structure Moment where
  files : FileSystem
  request : Request

/-- `AppState`: the accessible roots, and the calls the service has had,
the last one at the end. -/
structure AppState where
  roots : List (List Segment)
  calls : List Moment

def AppState.start (roots : List (List Segment)) : AppState where
  roots := roots
  calls := []

/-- One request; a rejected one never gets to the service. -/
def serve (moment : Moment) (state : AppState) : Option AppState :=
  match handle moment.files state.roots moment.request with
  | .error _ => some state
  | .ok request => some { state with calls := state.calls ++ [{ moment with request }] }

end FileManager.Server
