/-
Directory listings (`fm-application`, `directory.rs`; `fm-domain`,
`entry.rs` and `snapshot.rs`; `fm-events`): the entry records, the
filter and the order of a listing, the difference of two listings as
deltas, and what a client makes of a delta (`app-shell.ts`).

Sorting is stable, so it is an insertion sort here. `to_lowercase` is
an argument: a listing's order is all that depends on it.
-/
import FileManager.Domain
import FileManager.Lib.Keyed
import Mathlib.Data.List.Sort

namespace FileManager.Directory

abbrev RequestId := Nat

-- ==== entries

inductive GitFileStatus
  | clean
  | modified
  | staged
  | untracked
  | ignored
deriving DecidableEq

/-- `EntrySummaryPayload`: an entry as events carry it. Content matches
belong to searches and are left out. -/
structure EntrySummaryPayload where
  id : EntryId
  location : Location
  name : String
  kind : EntryKind
  size : Option Nat
  modifiedAt : Option Timestamp
  createdAt : Option Timestamp
  hidden : Bool
  readOnly : Bool
  extension : Option String
  mimeType : Option String
  iconKey : Option String
  metadataRevision : Nat
deriving DecidableEq

/-- `EntrySummary`; its conversion to a payload forgets the git
status. -/
structure EntrySummary extends EntrySummaryPayload where
  gitStatus : Option GitFileStatus
deriving DecidableEq

/-- `EntrySummaryPayload::from`. -/
abbrev EntrySummary.payload (entry : EntrySummary) : EntrySummaryPayload :=
  entry.toEntrySummaryPayload

-- ==== listings

/-- `SortDirectionDto`. -/
inductive SortDirection
  | ascending
  | descending
deriving DecidableEq

/-- `SortDescriptorDto`. -/
structure SortDescriptor where
  columnId : String
  direction : SortDirection
deriving DecidableEq

structure ViewOptions where
  showHidden : Bool
  foldersFirst : Bool
  showGitStatus : Bool
  sort : List SortDescriptor
deriving DecidableEq

def compareEntry (lowercase : String → String) (left right : EntrySummary)
    (columnId : String) : Ordering :=
  if columnId = "core.extension" then compare left.extension right.extension
  else if columnId = "core.size" then compare left.size right.size
  else if columnId = "core.modified" then compare left.modifiedAt right.modifiedAt
  else compare (lowercase left.name) (lowercase right.name)

/-- The first sort descriptor that tells two entries apart, then the
name. -/
def compareBySort (lowercase : String → String) (left right : EntrySummary) :
    List SortDescriptor → Ordering
  | [] => compare left.name right.name
  | descriptor :: rest =>
    match compareEntry lowercase left right descriptor.columnId with
    | .eq => compareBySort lowercase left right rest
    | ordering =>
      match descriptor.direction with
      | .ascending => ordering
      | .descending => ordering.swap

/-- The comparison of `sort_entries`. -/
def compareEntries (lowercase : String → String) (view : ViewOptions)
    (left right : EntrySummary) : Ordering :=
  if view.foldersFirst then
    match compare (decide (right.kind = .directory)) (decide (left.kind = .directory)) with
    | .eq => compareBySort lowercase left right view.sort
    | folderOrder => folderOrder
  else compareBySort lowercase left right view.sort

def sortEntries (lowercase : String → String) (view : ViewOptions)
    (entries : List EntrySummary) : List EntrySummary :=
  entries.insertionSort fun left right =>
    compareEntries lowercase view left right ≠ .gt

/-- The filtered, sorted listing of what the provider enumerated. -/
def arrange (lowercase : String → String) (view : ViewOptions)
    (entries : List EntrySummary) : List EntrySummary :=
  sortEntries lowercase view
    (if view.showHidden then entries else entries.filter fun entry => !entry.hidden)

/-- `aggregate_totals`: the bytes, a `u64`, and the number of the entries
that are no directories. -/
def aggregateTotals (entries : List EntrySummary) : Nat × Nat :=
  let files := entries.filter fun entry => entry.kind ≠ .directory
  (files.foldl (fun size entry => size + entry.size.getD 0) 0 % UInt64.size, files.length)

-- ==== snapshots

/-- `DirectorySnapshot`. The pane is the one modelled and the loading
state of a stored snapshot is always `Loaded`: both are left out. -/
structure DirectorySnapshot where
  requestId : RequestId
  revision : Nat
  location : Location
  writable : Bool
  entries : List EntrySummary
  totalKnownEntries : Option Nat
  totalKnownSize : Option Nat
  totalKnownFileCount : Option Nat
  hasMore : Bool
  continuationToken : Option Nat
deriving DecidableEq

inductive ProviderChange
  | changed
  | resetRequired
deriving DecidableEq

/-- `DirectoryDeltaPayload`. -/
inductive DirectoryDelta
  | entriesAdded (revision : Nat) (entries : List EntrySummaryPayload)
  | entriesUpdated (revision : Nat) (entries : List EntrySummaryPayload)
  | entriesRemoved (revision : Nat) (entryIds : List EntryId)
  | reset (snapshot : DirectorySnapshot)

/-- `delta_revision`. -/
def DirectoryDelta.revision : DirectoryDelta → Nat
  | .entriesAdded revision _ | .entriesUpdated revision _
  | .entriesRemoved revision _ => revision
  | .reset snapshot => snapshot.revision

def DirectoryDelta.addedIds : DirectoryDelta → List EntryId
  | .entriesAdded _ entries => entries.map EntrySummaryPayload.id
  | _ => []

def DirectoryDelta.removedIds : DirectoryDelta → List EntryId
  | .entriesRemoved _ entryIds => entryIds
  | _ => []

-- ==== differences

/-- The entries of `current` that `previous` has no entry for. -/
def addedEntries (previous current : List EntrySummary) : List EntrySummary :=
  current.filter fun entry => previous.all fun old => old.id ≠ entry.id

/-- The entries of `current` that `previous` has in another form; of
several entries with one identifier the last counts. -/
def updatedEntries (previous current : List EntrySummary) : List EntrySummary :=
  current.filter fun entry =>
    match previous.reverse.find? (fun old => old.id = entry.id) with
    | some old => decide (old ≠ entry)
    | none => false

/-- The identifiers of `previous` that `current` has no entry for. -/
def removedEntries (previous current : List EntrySummary) : List EntryId :=
  (previous.filter fun entry => current.all fun new => new.id ≠ entry.id).map fun entry => entry.id

/-- `diff_entries`: up to three deltas, numbered from `revision`. -/
def diffEntries (previous current : List EntrySummary) (revision : Nat) : List DirectoryDelta :=
  let added := (addedEntries previous current).map EntrySummary.payload
  let updated := (updatedEntries previous current).map EntrySummary.payload
  let removed := removedEntries previous current
  let afterAdded := if added = [] then revision else revision + 1
  let afterUpdated := if updated = [] then afterAdded else afterAdded + 1
  (if added = [] then [] else [.entriesAdded revision added])
    ++ (if updated = [] then [] else [.entriesUpdated afterAdded updated])
    ++ (if removed = [] then [] else [.entriesRemoved afterUpdated removed])

def deltasForChange (change : ProviderChange) (previous snapshot : DirectorySnapshot)
    (entries : List EntrySummary) (revision : Nat) : List DirectoryDelta :=
  match change with
  | .resetRequired => [.reset snapshot]
  | .changed => diffEntries previous.entries entries revision

/-- The revision of the pane once `deltas` are published. -/
def finalRevision (revision : Nat) (deltas : List DirectoryDelta) : Nat :=
  match deltas.getLast? with
  | some delta => delta.revision
  | none => revision

-- ==== the client

/-- The insertion-ordered map from identifiers to entries that
`applyDelta` builds, as its values. -/
def byId (entries : List EntrySummaryPayload) : List EntrySummaryPayload :=
  Keyed.upserts EntrySummaryPayload.id entries []

/-- What `applyDelta` makes of added or updated entries. It takes the
map's values in the order of the entries it had and then the rest, which
is the map's own order. -/
def setEntries (entries changes : List EntrySummaryPayload) : List EntrySummaryPayload :=
  Keyed.upserts EntrySummaryPayload.id changes (byId entries)

/-- What `applyDelta` makes of removed identifiers. -/
def deleteEntries (entries : List EntrySummaryPayload) (entryIds : List EntryId) :
    List EntrySummaryPayload :=
  (byId entries).filter fun entry => entry.id ∉ entryIds

/-- A client's view of a directory (`PaneDirectoryView`): its entries
and the revision they are at. -/
structure PaneDirectoryView where
  entries : List EntrySummaryPayload
  revision : Option Nat

/-- The client's side of one pane: `pages` is the view that page loads
build up (`paneViews` of `navigation.ts`) and `shown` the one deltas are
applied to (`directories` of `app-shell.ts`). `refetching` says that it
has asked for a fresh listing. `known` is a ghost: the identifiers it
was sent in pages or as additions. -/
structure Client where
  pages : PaneDirectoryView
  shown : PaneDirectoryView
  refetching : Bool
  known : List EntryId

/-- Show the result of a delta. -/
def Client.display (client : Client) (revision : Nat)
    (entries : List EntrySummaryPayload) : Client :=
  { client with shown := { entries := entries, revision := some revision } }

/-- `applyDelta`: the next delta is applied, a reset always, and after a
gap the client asks for a fresh listing. -/
def Client.applyDelta (client : Client) (delta : DirectoryDelta) : Client :=
  match client.shown.revision with
  | none => { client with refetching := true }
  | some revision =>
    if delta.revision ≤ revision then client
    else match delta with
      | .reset snapshot =>
        { client.display snapshot.revision (snapshot.entries.map EntrySummary.payload)
          with refetching := false, known := snapshot.entries.map fun e => e.id }
      | .entriesAdded next entries =>
        if next ≠ revision + 1 then { client with refetching := true }
        else { client.display next (setEntries client.shown.entries entries)
          with known := client.known ++ entries.map EntrySummaryPayload.id }
      | .entriesUpdated next entries =>
        if next ≠ revision + 1 then { client with refetching := true }
        else client.display next (setEntries client.shown.entries entries)
      | .entriesRemoved next entryIds =>
        if next ≠ revision + 1 then { client with refetching := true }
        else client.display next (deleteEntries client.shown.entries entryIds)

end FileManager.Directory
