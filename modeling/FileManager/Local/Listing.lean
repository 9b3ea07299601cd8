/-
The listings of the provider of local files (`fm-vfs-local`: `list`,
`summarize_entry`, `stable_entry_id`), on a Unix system.

# The file system

A directory that is opened gives its entries one after the other, in an
order of its own, and may fail before any of them. The name of an entry
is bytes; its metadata and its type are asked for by calls that may fail.
The cancellation token only makes a call fail and is left out.

# Identifiers

`Uuid::new_v5` is the parameter `newV5`, from the text that is hashed to
the identifier.
-/
import FileManager.Directory.Paging
import FileManager.Local.Commit
import FileManager.Remote.Polled

namespace FileManager.Local

open Archives.Reading (toNativePath)
open Directory (DirectoryPage EntrySummary)
open Locations (Segment)
open Remote (invalid)

-- ==== the file system

/-- `std::fs::Metadata`, as far as an entry reads it. -/
structure Metadata where
  dev : Nat
  ino : Nat
  len : Nat
  modified : Option Timestamp
  created : Option Timestamp
  readOnly : Bool

/-- `std::fs::FileType`. -/
inductive FileType
  | file
  | directory
  | symlink

/-- `tokio::fs::DirEntry`, with what `symlink_metadata` and `file_type`
return for it, and whether it has a `Contents` directory. -/
structure DirEntry where
  name : Segment
  metadata : Except IoError Metadata
  fileType : Except IoError FileType
  contents : Bool

/-- What an opened directory gives: entries, or failures. -/
abbrev ReadDir := List (Except IoError DirEntry)

structure FileSystem where
  readDir : Path → Except IoError ReadDir
  /-- `target_os = "macos"`. -/
  macos : Bool

-- ==== an entry

def stableEntryId (newV5 : String → EntryId) (metadata : Metadata) : EntryId :=
  newV5 ("local:" ++ toString metadata.dev ++ ":" ++ toString metadata.ino)

def isHidden (name : List Char) : Bool := name.head? = some '.'

def isMacosAppBundle (fs : FileSystem) (name : List Char) (entry : DirEntry) : Bool :=
  fs.macos && ".app".toList.isSuffixOf (name.map Char.toLower) && entry.contents

def entryKind (fs : FileSystem) (name : List Char) (entry : DirEntry) : FileType → EntryKind
  | .symlink => .symlink
  | .directory => if isMacosAppBundle fs name entry then .file else .directory
  | .file => .file

variable (isUuid : List Char → Bool) (newV5 : String → EntryId) (fs : FileSystem)

def summarizeEntry (entry : DirEntry) (parent : Locations.Location) :
    Except VfsError EntrySummary :=
  match Text.ofUtf8 entry.name with
  | none => .error (invalid parent.uri)
  | some name =>
    match parent.join isUuid name with
    | .error _ => .error (invalid parent.uri)
    | .ok location => do
      let metadata ← entry.metadata.mapError (mapIoError location.uri)
      let fileType ← entry.fileType.mapError (mapIoError location.uri)
      let kind := entryKind fs name entry fileType
      return {
        id := stableEntryId newV5 metadata
        location := Remote.Polled.located location
        name := String.ofList name
        kind := kind
        size := if kind = .file then some metadata.len else none
        modifiedAt := metadata.modified
        createdAt := metadata.created
        hidden := isHidden name
        readOnly := metadata.readOnly
        extension := Remote.Polled.extensionOf name
        mimeType := none
        iconKey := none
        metadataRevision := 0
        gitStatus := none }

-- ==== a page

/-- `str::parse::<usize>`. -/
def parseUsize (text : List Char) : Option Nat :=
  let digits := if text.head? = some '+' then text.tail else text
  if digits ≠ [] ∧ digits.all Char.isDigit then some (Nat.ofDigitChars 10 digits 0) else none

def decodeToken (token : Option String) (location : Locations.Location) : Except VfsError Nat :=
  match token with
  | none => .ok 0
  | some value =>
    match parseUsize value.toList with
    | some offset => .ok offset
    | none => .error (invalid location.uri)

def emptyPage : DirectoryPage where
  entries := []
  continuationToken := none
  hasMore := false

/-- The loop that passes over the entries before the page; `none` where
there are not so many. -/
def skipEntries (uri : List Char) : Nat → ReadDir → Except VfsError (Option ReadDir)
  | 0, directory => .ok (some directory)
  | _ + 1, [] => .ok none
  | _ + 1, .error error :: _ => .error (mapIoError uri error)
  | n + 1, .ok _ :: rest => skipEntries uri n rest

/-- The loop that reads the entries of the page. -/
def takeEntries (location : Locations.Location) :
    Nat → ReadDir → Except VfsError (List EntrySummary × ReadDir)
  | 0, directory => .ok ([], directory)
  | _ + 1, [] => .ok ([], [])
  | _ + 1, .error error :: _ => .error (mapIoError location.uri error)
  | n + 1, .ok entry :: rest => do
    let summary ← summarizeEntry isUuid newV5 fs entry location
    let (entries, rest) ← takeEntries location n rest
    return (summary :: entries, rest)

/-- Whether there is a further entry. -/
def hasNext (uri : List Char) : ReadDir → Except VfsError Bool
  | [] => .ok false
  | .error error :: _ => .error (mapIoError uri error)
  | .ok _ :: _ => .ok true

def list (location : Locations.Location) (pageSize : Nat) (token : Option String) :
    Except VfsError DirectoryPage := do
  if pageSize = 0 then throw (invalid location.uri)
  match toNativePath location with
  | none => throw (invalid location.uri)
  | some path =>
    let offset ← decodeToken token location
    let directory ← (fs.readDir path).mapError (mapIoError location.uri)
    match ← skipEntries location.uri offset directory with
    | none => return emptyPage
    | some rest =>
      let (entries, rest) ← takeEntries isUuid newV5 fs location pageSize rest
      let hasMore ← hasNext location.uri rest
      return {
        entries := entries
        continuationToken := if hasMore then some (toString (offset + entries.length)) else none
        hasMore := hasMore }

end FileManager.Local
