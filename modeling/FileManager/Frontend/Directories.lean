/-
The directories of the application's state (`reducers.ts`): one session
for each pane, its entries by their identifiers, replaced by snapshots
and changed by deltas.

Of a workspace state only `directories` is modelled; the other reducers
of `reducers.ts` leave it alone. A record is the list of its pairs, with
every key once. A delta comes as the server sends it, with the snapshot
of a reset naming its pane.
-/
import FileManager.Directory.Model

namespace FileManager.Frontend

open Directory (EntrySummaryPayload RequestId)
open Keyed (get put keep)

abbrev PaneId := Nat

-- ==== entries

abbrev EntriesById := List (EntryId × EntrySummaryPayload)

/-- One turn of the loops of `normalizeEntries` and `upsertEntries`. -/
def insertEntry (normalized : List EntryId × EntriesById) (entry : EntrySummaryPayload) :
    List EntryId × EntriesById :=
  (if get normalized.2 entry.id = none then normalized.1 ++ [entry.id] else normalized.1,
    put normalized.2 entry.id entry)

def normalizeEntries (entries : List EntrySummaryPayload) : List EntryId × EntriesById :=
  entries.foldl insertEntry ([], [])

-- ==== directories

/-- `DirectorySnapshot`, as far as the reducers read it. -/
structure DirectorySnapshot where
  paneId : PaneId
  requestId : RequestId
  revision : Nat
  writable : Bool
  entries : List EntrySummaryPayload

structure DirectoryState where
  paneId : PaneId
  sessionId : RequestId
  requestId : RequestId
  revision : Nat
  writable : Bool
  entryIds : List EntryId
  entriesById : EntriesById

/-- The entries, in the order of their identifiers. -/
def DirectoryState.entries (directory : DirectoryState) : List EntrySummaryPayload :=
  directory.entryIds.filterMap (get directory.entriesById)

/-- `WorkspaceState['directories']`. -/
abbrev Directories := List (RequestId × DirectoryState)

def directoryFromSnapshot (snapshot : DirectorySnapshot) : DirectoryState where
  paneId := snapshot.paneId
  sessionId := snapshot.requestId
  requestId := snapshot.requestId
  revision := snapshot.revision
  writable := snapshot.writable
  entryIds := (normalizeEntries snapshot.entries).1
  entriesById := (normalizeEntries snapshot.entries).2

def replaceDirectorySession (directories : Directories) (snapshot : DirectorySnapshot) :
    Directories :=
  put (directories.filter fun pair => pair.2.paneId ≠ snapshot.paneId) snapshot.requestId
    (directoryFromSnapshot snapshot)

def upsertEntries (directory : DirectoryState) (entries : List EntrySummaryPayload)
    (revision : Nat) : DirectoryState :=
  let normalized := entries.foldl insertEntry (directory.entryIds, directory.entriesById)
  { directory with
    revision := revision, entryIds := normalized.1, entriesById := normalized.2 }

def removeEntries (directory : DirectoryState) (entryIdsToRemove : List EntryId)
    (revision : Nat) : DirectoryState :=
  { directory with
    revision := revision
    entryIds := directory.entryIds.filter fun id => id ∉ entryIdsToRemove
    entriesById := keep directory.entriesById fun id => id ∉ entryIdsToRemove }

-- ==== deltas

inductive DirectoryDelta
  | reset (snapshot : DirectorySnapshot)
  | entriesAdded (revision : Nat) (entries : List EntrySummaryPayload)
  | entriesUpdated (revision : Nat) (entries : List EntrySummaryPayload)
  | entriesRemoved (revision : Nat) (entryIds : List EntryId)

/-- A delta of the server, as it arrives. -/
def DirectoryDelta.ofPayload (paneId : PaneId) : Directory.DirectoryDelta → DirectoryDelta
  | .reset snapshot => .reset {
      paneId := paneId
      requestId := snapshot.requestId
      revision := snapshot.revision
      writable := snapshot.writable
      entries := snapshot.entries.map Directory.EntrySummary.payload }
  | .entriesAdded revision entries => .entriesAdded revision entries
  | .entriesUpdated revision entries => .entriesUpdated revision entries
  | .entriesRemoved revision entryIds => .entriesRemoved revision entryIds

def findPane (directories : Directories) (paneId : PaneId) : Option DirectoryState :=
  (directories.find? fun pair => pair.2.paneId = paneId).map Prod.snd

def applyDirectoryDelta (directories : Directories) (paneId : PaneId) (delta : DirectoryDelta) :
    Directories :=
  match delta with
  | .reset snapshot => replaceDirectorySession directories snapshot
  | .entriesAdded revision entries | .entriesUpdated revision entries =>
    match findPane directories paneId with
    | none => directories
    | some directory =>
      put directories directory.sessionId (upsertEntries directory entries revision)
  | .entriesRemoved revision entryIds =>
    match findPane directories paneId with
    | none => directories
    | some directory =>
      put directories directory.sessionId (removeEntries directory entryIds revision)

/-- `directorySnapshotPatch` and `directoryDeltaPatch`. -/
inductive Patch
  | snapshot (snapshot : DirectorySnapshot)
  | delta (paneId : PaneId) (delta : DirectoryDelta)

def applyPatch (directories : Directories) : Patch → Directories
  | .snapshot snapshot => replaceDirectorySession directories snapshot
  | .delta paneId delta => applyDirectoryDelta directories paneId delta

end FileManager.Frontend
