/-
The preview of a multi-rename (`frontend`, `multi-rename-rules.ts`:
`proposeRenames`, `canApplyRenamePlan`; `create-directory-dialog.ts`:
`validateDirectoryName`) and the renames that applying it asks for
(`multi-rename-dialog.ts`, `app-dialogs.ts`).

How a rule set makes a name (`proposeName`: masks, search and replace,
counters, dates) is a parameter: every function from the entry and its
position. So is `toLocaleLowerCase`, which the dialog compares names by;
it depends on the locale.
-/
import FileManager.Domain

namespace FileManager.Renames

-- ==== the names

/-- What `trimEnd` takes for white space. -/
def isSpace (c : Char) : Bool :=
  c.toNat ∈ [0x09, 0x0A, 0x0B, 0x0C, 0x0D, 0x20, 0xA0, 0x1680, 0x2028, 0x2029, 0x202F,
    0x205F, 0x3000, 0xFEFF]
  || (0x2000 ≤ c.toNat && c.toNat ≤ 0x200A)

/-- The part of a name that Windows may have reserved. No letter outside
ASCII has one of these words' letters for its upper case. -/
def reservedStem (name : String) : List Char :=
  let stem := name.toList.takeWhile (· ≠ '.')
  ((stem.reverse.dropWhile isSpace).reverse).map Char.toUpper

/-- The test of `validateDirectoryName` for reserved names. -/
def isReserved (name : String) : Bool :=
  let digits := ['1', '2', '3', '4', '5', '6', '7', '8', '9']
  let stem := reservedStem name
  [['C', 'O', 'N'], ['P', 'R', 'N'], ['A', 'U', 'X'], ['N', 'U', 'L']].contains stem
    || digits.any fun d => stem = ['C', 'O', 'M', d] ∨ stem = ['L', 'P', 'T', d]

/-- `validateDirectoryName`: why the dialog refuses a name. -/
def validateDirectoryName (name : String) : Option String :=
  if name = "" then some "Enter a folder name."
  else if name = "." ∨ name = ".." ∨ '/' ∈ name.toList ∨ '\\' ∈ name.toList then
    some "Use a single folder name."
  else if Char.ofNat 0 ∈ name.toList
      ∨ name.toList.any (· ∈ ['<', '>', ':', '"', '|', '?', '*']) then
    some "The name contains invalid characters."
  else if isReserved name then some "That name is reserved by Windows."
  else none

-- ==== the proposals

structure RenameTarget where
  id : EntryId
  name : String
deriving DecidableEq

inductive RenameCollisionKind
  | plan
  | existing

structure RenameProposal where
  id : EntryId
  oldName : String
  newName : String
  changed : Bool
  invalidNameReason : Option String
  collision : Option RenameCollisionKind

section Proposals

variable (fold : String → String) (proposeName : RenameTarget → Nat → String)

/-- The proposed names, from position `index` on. -/
def newNames : Nat → List RenameTarget → List String
  | _, [] => []
  | index, entry :: rest => proposeName entry index :: newNames (index + 1) rest

/-- The collision of a proposed name, given all of them and the names
that stay. -/
def collisionOf (names existing : List String) (name : String) : Option RenameCollisionKind :=
  if 1 < (names.map fold).count (fold name) then some .plan
  else if fold name ∈ existing.map fold then some .existing
  else none

/-- The proposals for entries with their names. -/
def proposalsFor (names existing : List String) :
    List RenameTarget → List String → List RenameProposal
  | entry :: rest, name :: more =>
    { id := entry.id
      oldName := entry.name
      newName := name
      changed := decide (name ≠ entry.name)
      invalidNameReason := validateDirectoryName name
      collision := collisionOf fold names existing name }
      :: proposalsFor names existing rest more
  | _, _ => []

def proposeRenames (entries : List RenameTarget) (existing : List String) : List RenameProposal :=
  let names := newNames proposeName 0 entries
  proposalsFor fold names existing entries names

end Proposals

def canApplyRenamePlan (proposals : List RenameProposal) : Bool :=
  let changed := proposals.filter (·.changed)
  !changed.isEmpty && changed.all fun proposal =>
      decide (proposal.invalidNameReason = none ∧ proposal.collision = none)

-- ==== the request

/-- One source and destination of the request, as names in the
directory. -/
structure Rename where
  source : String
  destination : String

/-- The renames that applying a plan asks for: those of the proposals that
change something, for the entry with the proposal's id. -/
def requestOf (entries : List RenameTarget) (proposals : List RenameProposal) : List Rename :=
  (proposals.filter (·.changed)).filterMap fun proposal =>
    (entries.find? fun entry => entry.id = proposal.id).map fun entry =>
      { source := entry.name, destination := proposal.newName }

end FileManager.Renames
