/-
Polling a remote directory (`fm-vfs-ftp` and `fm-vfs-webdav`, `list`;
`fm-application`, `directory.rs`: `list_all`, `poll_change_stream`,
`spawn_pane_watch`), with all that an entry carries, its identifier
included.

`EntryId::new` draws identifiers that have not been drawn before: they
are numbered, and every listing says from where to where it has drawn.
What the server has stays the same; a request that is not answered leaves
the listing unfinished.

The forwarding of a change and the pane's watch are in steps of their
own; a pane's receiver keeps sixteen changes, and has missed the older
ones when more are sent.
-/
import FileManager.Directory.Poll
import FileManager.Remote.Ftp
import FileManager.Remote.WebDav

namespace FileManager.Remote.Polled

open Directory (EntrySummary PaneRequest DirectorySnapshot DirectoryDelta ListDirectoryRequest
  ProviderChange arrange pageSnapshot storeChanges)
open Directory.Poll (PollState poll)

-- ==== entries

def located (location : Locations.Location) : Location where
  providerId := location.providerId
  uri := { authority := String.ofList location.uri, segments := [] }

/-- `Path::extension`, of one name: what follows the last dot, unless the
dot is the first character or there is none. -/
def extensionOf (name : List Char) : Option String :=
  let last := name.reverse.takeWhile (· ≠ '.')
  let before := (name.reverse.drop last.length).tail
  if last.length = name.length ∨ before = [] ∨ name = "..".toList then none
  else some (String.ofList last.reverse)

/-- An entry, but for its identifier. -/
structure Draft where
  location : Locations.Location
  name : List Char
  kind : EntryKind
  size : Option Nat
  modifiedAt : Option Timestamp

/-- The `EntrySummary` that both providers make. -/
def Draft.summary (draft : Draft) (id : EntryId) : EntrySummary where
  id := id
  location := located draft.location
  name := String.ofList draft.name
  kind := draft.kind
  size := draft.size
  modifiedAt := draft.modifiedAt
  createdAt := none
  hidden := draft.name.head? = some '.'
  readOnly := false
  extension := extensionOf draft.name
  mimeType := none
  iconKey := none
  metadataRevision := 0
  gitStatus := none

/-- Each item becomes an entry with a new identifier, until one cannot. -/
def drawEntries {α : Type} (draft : α → Except VfsError Draft) :
    List α → Nat → Except VfsError (List EntrySummary) × Nat
  | [], drawn => (.ok [], drawn)
  | item :: rest, drawn =>
    match draft item with
    | .error error => (.error error, drawn)
    | .ok draft' =>
      match drawEntries draft rest (drawn + 1) with
      | (.error error, after) => (.error error, after)
      | (.ok entries, after) => (.ok (draft'.summary drawn :: entries), after)

/-- A `DirectoryPage`, as far as `list_all` reads it. -/
structure Page where
  entries : List EntrySummary
  next : Option Nat

/-- The page that begins at an offset, of so many entries. -/
def Page.of (entries : List EntrySummary) (offset total : Nat) : Page where
  entries := entries
  next := if offset + entries.length < total then some (offset + entries.length) else none

/-- The page size of `list_all`. -/
def pageSize : Nat := 1024

-- ==== the providers

variable (isUuid : List Char → Bool)

/-- `suppaftp::list::File`, with its time. -/
structure FtpFile extends Ftp.File where
  modified : Timestamp

/-- `summary` of a file that FTP lists. -/
def ftpDraft (location : Locations.Location) (file : FtpFile) : Except VfsError Draft :=
  match location.join isUuid file.name with
  | .error _ => .error (invalid location.uri)
  | .ok child => .ok
      { location := child
        name := file.name
        kind := if file.isDirectory then .directory else if file.isSymlink then .symlink else .file
        size := if file.isDirectory ∨ file.isSymlink then none else some file.size
        modifiedAt := some file.modified }

/-- What `list` of the FTP provider makes of the server's lines: it draws
for the page. -/
def ftpList (parseLine : List Char → Option FtpFile) (location : Locations.Location)
    (lines : List (List Char)) (offset drawn : Nat) : Except VfsError Page × Nat :=
  match Ftp.Parsed.parse isUuid location with
  | .error error => (.error error, drawn)
  | .ok _ =>
    let files := lines.filterMap parseLine
    match drawEntries (ftpDraft isUuid location) ((files.drop offset).take pageSize) drawn with
    | (.error error, after) => (.error error, after)
    | (.ok entries, after) => (.ok (.of entries offset files.length), after)

/-- `DavEntry`, with its time. -/
structure DavEntry extends WebDav.DavEntry where
  lastModified : Option Timestamp

variable (libraries : WebDav.Libraries)

/-- The children among the responses. -/
def davChildren (selfPath : List Char) (entries : List DavEntry) : List (List Char × DavEntry) :=
  entries.filterMap fun entry =>
    (WebDav.nameIn libraries selfPath entry.toDavEntry).map fun name => (name, entry)

/-- The summary of a child that WebDAV lists. -/
def davDraft (location : Locations.Location) (child : List Char × DavEntry) :
    Except VfsError Draft :=
  match location.join isUuid child.1 with
  | .error _ => .error (invalid location.uri)
  | .ok childLocation => .ok
      { location := childLocation
        name := child.1
        kind := if child.2.isCollection then .directory else .file
        size := if child.2.isCollection then none else some (child.2.contentLength.getD 0)
        modifiedAt := child.2.lastModified }

/-- What `list` of the WebDAV provider makes of the responses: it draws for
all children, whatever the page. -/
def davList (location : Locations.Location) (selfPath : List Char) (responses : List DavEntry)
    (offset drawn : Nat) : Except VfsError Page × Nat :=
  match WebDav.Parsed.parse isUuid libraries location with
  | .error error => (.error error, drawn)
  | .ok _ =>
    let children := davChildren libraries selfPath responses
    match drawEntries (davDraft isUuid location) children drawn with
    | (.error error, after) => (.error error, after)
    | (.ok entries, after) =>
      (.ok (.of ((entries.drop offset).take pageSize) offset entries.length), after)

-- ==== list_all

/-- What a provider makes of a request for the page at an offset, when it
is answered, and how many identifiers have been drawn by then. -/
abbrev Fetch : Type := Nat → Nat → Except VfsError Page × Nat

/-- `list_all`: `requests` is what becomes of its requests, an answer or a
failure; nothing where they do not suffice. -/
def listAll (fetch : Fetch) : List (Option VfsError) → List EntrySummary → Nat → Nat →
    Option (Except VfsError (List EntrySummary)) × Nat
  | [], _, _, drawn => (none, drawn)
  | some error :: _, _, _, drawn => (some (.error error), drawn)
  | none :: rest, entries, offset, drawn =>
    match fetch offset drawn with
    | (.error error, after) => (some (.error error), after)
    | (.ok page, after) =>
      match page.next with
      | none => (some (.ok (entries ++ page.entries)), after)
      | some next => listAll fetch rest (entries ++ page.entries) next after

/-- A listing: how many identifiers others draw before it, and what its
requests meet. -/
structure Attempt where
  others : Nat
  requests : List (Option VfsError)

/-- `list_all`, from its start. -/
def Attempt.list (attempt : Attempt) (fetch : Fetch) (drawn : Nat) :
    Option (Except VfsError (List EntrySummary)) × Nat :=
  listAll fetch attempt.requests [] 0 (drawn + attempt.others)

-- ==== a pane that watches

/-- A change that a pane's watch has published: the snapshot before it, and
its deltas. -/
structure Publication where
  previous : DirectorySnapshot
  deltas : List DirectoryDelta

/-- A pane that shows the directory, the stream that polls it, and what
waits in the receiver; `sent` and `published` are ghosts. -/
structure Watch where
  state : PollState
  pane : PaneRequest
  drawn : Nat
  pending : List ProviderChange
  sent : List ProviderChange
  published : List Publication

variable (lowercase : String → String) (request : ListDirectoryRequest)

/-- A pane's first page, and its watch. -/
def Watch.start (fetch : Fetch) (attempt : Attempt) (revision token : Nat) (writable : Bool) :
    Option Watch :=
  match attempt.list fetch 0 with
  | (some (.ok entries), drawn) =>
    let full := arrange lowercase request.view entries
    some
      { state := { previous := none, backoff := 1 }
        pane :=
          { requestId := request.requestId, watchToken := token, revision := revision
            view := request.view
            snapshot := some (pageSnapshot request full 0 revision writable)
            fullEntries := some full }
        drawn := drawn, pending := [], sent := [], published := [] }
  | _ => none

/-- A turn of the stream. -/
def Watch.poll (fetch : Fetch) (w : Watch) (attempt : Attempt) : Option Watch :=
  match attempt.list fetch w.drawn with
  | (none, _) => none
  | (some result, drawn) =>
    match Directory.Poll.poll w.state result with
    | none => none
    | some (state, change) =>
      some { w with
        state := state, drawn := drawn
        pending := w.pending ++ change.toList, sent := w.sent ++ change.toList }

def capacity : Nat := 16

/-- `recv`: the next change, or a reset in the place of those that were
missed. -/
def receive (pending : List ProviderChange) : Option (ProviderChange × List ProviderChange) :=
  if capacity < pending.length then
    some (.resetRequired, pending.drop (pending.length - capacity))
  else
    match pending with
    | [] => none
    | change :: rest => some (change, rest)

/-- A turn of the pane's watch: it lists the directory again. -/
def Watch.refresh (fetch : Fetch) (w : Watch) (attempt : Attempt) : Option Watch :=
  match receive w.pending with
  | none => none
  | some (change, pending) =>
    match attempt.list fetch w.drawn with
    | (some (.ok entries), drawn) =>
      match w.pane.snapshot,
        storeChanges lowercase w.pane request.location request.view change entries with
      | some previous, some (pane, deltas) =>
        some { w with
          pane := pane, drawn := drawn, pending := pending
          published := w.published ++ [{ previous := previous, deltas := deltas }] }
      | _, _ => some { w with drawn := drawn, pending := pending }
    | (_, drawn) => some { w with drawn := drawn, pending := pending }

inductive Action
  | poll (attempt : Attempt)
  | refresh (attempt : Attempt)

/-- The transition function. -/
def apply (fetch : Fetch) (a : Action) (w : Watch) : Option Watch :=
  match a with
  | .poll attempt => w.poll fetch attempt
  | .refresh attempt => w.refresh lowercase request fetch attempt

end FileManager.Remote.Polled
