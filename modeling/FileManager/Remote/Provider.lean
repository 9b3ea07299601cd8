/-
What the providers of remote files share (`fm-vfs`: `ListOptions`,
`DirectoryPage`, `EntrySummary`, the cancellation token), as far as the
modelled calls read it.
-/
import FileManager.Domain
import FileManager.Locations.Model

namespace FileManager.Remote

/-- An error names a location by its text. -/
def textOf (uri : List Char) : Location where
  providerId := ""
  uri := { authority := String.ofList uri, segments := [] }

def invalid (uri : List Char) : VfsError := .invalidLocation (textOf uri)

/-- `CancellationToken`: one made on the spot, or that of the caller. -/
inductive Token
  | new
  | caller

/-- `ListOptions`; a continuation token that is no number has no
offset. -/
structure ListOptions where
  pageSize : Nat
  offset : Option Nat

/-- `ListOptions::default`. -/
def ListOptions.standard : ListOptions where
  pageSize := 256
  offset := some 0

/-- `EntrySummary`. -/
structure Summary where
  location : Locations.Location
  name : List Char
  kind : EntryKind
  size : Option Nat
deriving DecidableEq

structure DirectoryPage where
  entries : List Summary
  totalKnownEntries : Nat
  hasMore : Bool
  continuationToken : Option Nat
deriving DecidableEq

/-- A page from the offset on. -/
def DirectoryPage.from (entries : List Summary) (offset total : Nat) : DirectoryPage where
  entries := entries
  totalKnownEntries := total
  hasMore := offset + entries.length < total
  continuationToken :=
    if offset + entries.length < total then some (offset + entries.length) else none

end FileManager.Remote
