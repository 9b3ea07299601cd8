/-
The shared vocabulary of the model (`fm-domain`, `fm-vfs`): entry
identifiers, locations, entry references and provider failures, as far
as the modelled functions read them.

A `Location` is a provider and a URI. The URI is kept as its parts, the
authority text and the decoded path segments: everything modelled here
compares locations, joins a name, or takes a parent, which act on the
parts. Timestamps and generated identifiers are natural numbers.
-/
import Mathlib.Data.List.Basic

namespace FileManager

/-- `DateTime<Utc>`, in milliseconds. -/
abbrev Timestamp := Nat

/-- `EntryId`: an opaque identifier, equal only to itself. -/
abbrev EntryId := Nat

/-- The parts of a location's URI: authority (or connection id, or outer
archive) and decoded path segments. -/
structure Uri where
  authority : String
  segments : List String
deriving DecidableEq

/-- `Location`: the owning provider and the URI. -/
structure Location where
  providerId : String
  uri : Uri
deriving DecidableEq

/-- `EntryRef`: a lightweight reference to an entry. -/
structure EntryRef where
  id : EntryId
  location : Location
deriving DecidableEq

inductive EntryKind
  | file
  | directory
  | symlink
deriving DecidableEq

/-- `VfsError`: the provider-neutral failures. -/
inductive VfsError
  | notFound (location : Location)
  | permissionDenied (location : Location)
  | locked (location : Location)
  | alreadyExists (location : Location)
  | emptyName
  | invalidNameCharacters
  | reservedName
  | pathTraversalName
  | notADirectory (location : Location)
  | isADirectory (location : Location)
  | unsupportedCapability (capability : String)
  | unsafeArchiveEntry
  | archiveResourceLimit (kind : String)
  | credentialRequired
  | invalidCredential
  | cancelled
  | io (message : String)
  | invalidLocation (location : Location)
  | unknownProvider (providerId : String)
deriving DecidableEq

end FileManager
