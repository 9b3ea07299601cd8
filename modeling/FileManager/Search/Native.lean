/-
The walk of a native search over its roots (`fm-search`: `scan_file` of
`scanner.rs`, and the loop of `run_search_native` in `engine.rs`).

What the walker yields and what the system answers about a file are
given with the file. Flushes are left out, they decide nothing here.
-/
import FileManager.Search.Engine

namespace FileManager.Search.Native

open Vfs (EntrySummary Token)

-- ==== one file

def maxScanBytes : Nat := 10 * 1024 * 1024

/-- `FileScanError`. -/
inductive FileScanError
  | binaryFile
  | fileTooLarge (size : Nat)
  | io
  | cancelled
deriving DecidableEq

/-- What `search_content` comes to within `MAX_SCAN_DURATION`. -/
inductive ContentSearch
  | elapsed
  | failed
  | found (matches_ : List ContentMatchSummary)
deriving DecidableEq

/-- A `DirEntry`, and what the system says of it; `none` is an error. -/
structure DirEntry where
  isFile : Bool
  /-- The name, where it is UTF-8. -/
  fileName : Option String
  /-- `build_entry_summary`. -/
  summary : Option EntrySummary
  length : Option Nat
  /-- The first chunk of the file. -/
  sniff : Option Vfs.Bytes
  search : ContentSearch
deriving DecidableEq

/-- `looks_like_binary`: the byte order marks of UTF-16 and UTF-32 are
exempt. -/
def looksLikeBinary (sample : Vfs.Bytes) : Bool :=
  if [[0xff, 0xfe, 0, 0], [0, 0, 0xfe, 0xff], [0xff, 0xfe], [0xfe, 0xff]].any
      (List.isPrefixOf · sample) then false
  else sample.contains 0

def scanFile (file : DirEntry) : Except FileScanError (List ContentMatchSummary) :=
  match file.length with
  | none => .error .io
  | some length =>
    if length > maxScanBytes then .error (.fileTooLarge length)
    else
      match file.sniff with
      | none => .error .io
      | some sniff =>
        if sniff = [] then .ok []
        else if looksLikeBinary sniff then .error .binaryFile
        else
          match file.search with
          | .elapsed => .error .cancelled
          | .failed => .error .io
          | .found matches_ => .ok matches_

-- ==== the walk

/-- `SearchOptions`, as far as the loop reads them. -/
structure SearchOptions where
  /-- `matches_name` with the query, unless that is empty. -/
  filenameQuery : Option (String → Bool)
  hasContentQuery : Bool

/-- What the walker yields; `none` is an error. -/
abbrev Item := Option DirEntry

/-- The variables of `run_search_native`. -/
structure Walk where
  found : List Found := []
  warningsCount : Nat := 0
  /-- The search has cancelled its token itself. -/
  cancelled : Bool := false
  look : Nat := 0
  /-- The items that have been taken up; no step reads it. -/
  visited : List Item := []
deriving DecidableEq

def Walk.isCancelled (token : Token) (walk : Walk) : Bool :=
  walk.cancelled || token.isCancelled walk.look

/-- A file passes the check of its name. -/
def SearchOptions.accepts (options : SearchOptions) (file : DirEntry) : Bool :=
  match options.filenameQuery with
  | none => true
  | some accepts => file.fileName.any accepts

/-- The body of the loop, and whether it breaks out of the roots. -/
def Walk.meet (options : SearchOptions) (walk : Walk) : Item → Bool × Walk
  | none => (false, { walk with warningsCount := walk.warningsCount + 1 })
  | some file =>
    if !file.isFile || !options.accepts file then (false, walk)
    else
      match file.summary with
      | none => (false, walk)
      | some summary =>
        if options.hasContentQuery then
          match scanFile file with
          | .ok matches_ =>
            (false, if matches_ = [] then walk
              else { walk with found := walk.found ++ [⟨summary, some matches_⟩] })
          | .error .cancelled => (true, { walk with cancelled := true })
          | .error _ => (false, walk)
        else (false, { walk with found := walk.found ++ [⟨summary, none⟩] })

/-- The loops over the roots and over what the walker yields there. -/
def Walk.run (options : SearchOptions) (token : Token) : List Item → Walk → Walk
  | [], walk => walk
  | item :: rest, walk =>
    if walk.isCancelled token then { walk with look := walk.look + 1 }
    else
      match { walk with look := walk.look + 1, visited := walk.visited ++ [item] }.meet options item with
      | (true, walk) => walk
      | (false, walk) => Walk.run options token rest walk

/-- `run_search_native`: the walk, and the state it announces. -/
def runSearchNative (options : SearchOptions) (token : Token) (roots : List (List Item)) :
    Walk × OperationStatePayload :=
  let walk := Walk.run options token roots.flatten {}
  (walk, if walk.isCancelled token then .cancelled else .completed)

end FileManager.Search.Native
