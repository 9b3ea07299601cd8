/-
Files as the transfer executors see them: locations (`fm-domain`,
`location.rs`; `fm-operations`, `safety.rs`; `copy_name`) and the nodes
that providers keep at them (`fm-vfs`).

One store holds the nodes of every provider and connection. Names are
case-sensitive, as everywhere but on Windows. A symbolic link is kept
with the place it resolves to, and only `resolve_symlink` and
`open_read` follow it: no path here runs through a link.
-/
import FileManager.Domain
import FileManager.Lib.Forest
import Mathlib.Data.List.Induction

namespace FileManager

-- ==== locations

/-- `LocationError`, as far as the functions below raise it. -/
inductive LocationError
  | nullByte
  | emptySegment
  | reservedWindowsName (name : String)
  | invalidName (name : String)
deriving DecidableEq

def LocationError.message : LocationError → String
  | .nullByte => "location contains a null byte"
  | .emptySegment => "location contains an empty path segment"
  | .reservedWindowsName name => "`" ++ name ++ "` is a reserved Windows device name"
  | .invalidName name => "`" ++ name ++ "` is not a single safe path name"

/-- `reject_windows_device_name`, the test. -/
def isWindowsDeviceName (name : String) : Bool :=
  let trimmed := (name.toList.reverse.dropWhile fun c => c = ' ' ∨ c = '.').reverse
  let stem := (trimmed.takeWhile (· ≠ '.')).map Char.toUpper
  let digits := ['1', '2', '3', '4', '5', '6', '7', '8', '9']
  [['C', 'O', 'N'], ['P', 'R', 'N'], ['A', 'U', 'X'], ['N', 'U', 'L'],
      ['C', 'L', 'O', 'C', 'K', '$']].contains stem
    || digits.any (fun d => stem = ['C', 'O', 'M', d] ∨ stem = ['L', 'P', 'T', d])

def validateName (name : String) : Except LocationError Unit :=
  if name = "" then .error .emptySegment
  else if name = "." ∨ name = ".." ∨ '/' ∈ name.toList ∨ '\\' ∈ name.toList then
    .error (.invalidName name)
  else if Char.ofNat 0 ∈ name.toList then .error .nullByte
  else if isWindowsDeviceName name then .error (.reservedWindowsName name)
  else .ok ()

namespace Location

/-- `Location::parent`. -/
def parent (location : Location) : Option Location :=
  if location.uri.segments = [] then none
  else some { location with
    uri := { location.uri with segments := location.uri.segments.dropLast } }

/-- `Location::name`. -/
def name (location : Location) : Except LocationError String :=
  match location.uri.segments.getLast? with
  | some name => .ok name
  | none => .error (.invalidName "filesystem root has no name")

/-- `Location::join`. -/
def join (location : Location) (name : String) : Except LocationError Location :=
  match validateName name with
  | .error error => .error error
  | .ok () => .ok { location with
      uri := { location.uri with segments := location.uri.segments ++ [name] } }

/-- `Path::starts_with`, on the paths of two locations. -/
def startsWith (location base : Location) : Bool :=
  location.providerId = base.providerId && location.uri.authority = base.uri.authority
    && base.uri.segments.isPrefixOf location.uri.segments

end Location

/-- Put a location below `base` to the same place below `base'`; others
stay. -/
def Location.rebase (base base' location : Location) : Location :=
  if location.startsWith base then
    { location with uri :=
        { base'.uri with segments := base'.uri.segments
            ++ location.uri.segments.drop base.uri.segments.length } }
  else location

/-- `SafetyError`, as far as `validate_paths` raises it. -/
inductive SafetyError
  | sameEntry
  | destinationInsideSource
  | incomparableLocations
deriving DecidableEq

def SafetyError.message : SafetyError → String
  | .sameEntry => "source and destination are the same entry"
  | .destinationInsideSource => "destination is inside source"
  | .incomparableLocations => "locations use different providers or invalid local paths"

def validatePaths (source destination : Location) : Except SafetyError Unit :=
  if source.providerId ≠ destination.providerId then .error .incomparableLocations
  else if source = destination then .error .sameEntry
  else if destination.startsWith source then .error .destinationInsideSource
  else .ok ()

/-- `copy_name`: the suffix goes before the extension, where there is
one. -/
def copyName (name : String) (suffix : Nat) : String :=
  let mark := " (copy " ++ toString suffix ++ ")"
  let extension := (name.toList.reverse.takeWhile (· ≠ '.')).reverse
  -- up to the last dot, which is not the first character
  let stem := name.toList.take (name.length - extension.length - 1)
  if stem = [] then name ++ mark
  else String.ofList stem ++ mark ++ "." ++ String.ofList extension

-- ==== nodes

abbrev Bytes := List UInt8

/-- What a provider keeps at a location. -/
inductive Node
  | file (content : Bytes)
  | directory
  | symlink (target : Location)
deriving DecidableEq

def Node.kind : Node → EntryKind
  | .file _ => .file
  | .directory => .directory
  | .symlink _ => .symlink

/-- The size a provider reports: that of files. -/
def Node.size : Node → Option Nat
  | .file content => some content.length
  | .directory | .symlink _ => none

/-- The nodes of every provider. -/
abbrev Files := List (Location × Node)

/-- The entries of a directory, as `list` enumerates them. -/
def childrenOf (files : Files) (directory : Location) : Files :=
  files.filter fun entry => entry.1.parent = some directory

/-- The regular files among the selected locations. -/
def contentsOf (files : Files) (p : Location → Bool) : List (Location × Bytes) :=
  files.filterMap fun entry =>
    if p entry.1 then
      match Keyed.get files entry.1 with
      | some (.file content) => some (entry.1, content)
      | _ => none
    else none

theorem mem_contentsOf {files : Files} {p : Location → Bool} {l : Location}
    {content : Bytes} (h : (l, content) ∈ contentsOf files p) :
    p l = true ∧ Keyed.get files l = some (.file content) := by
  obtain ⟨entry, -, heq⟩ := List.mem_filterMap.mp h
  split at heq
  case isFalse => cases heq
  case isTrue hp =>
    split at heq
    case h_1 content' hget => cases heq; exact ⟨hp, hget⟩
    case h_2 => cases heq

/-- The files before an operation: one node at a location, each in a
directory. -/
structure FileTree where
  nodes : Files
  distinct : (nodes.map Prod.fst).Nodup
  closed : Forest.Closed Location.parent (Keyed.get nodes) Node.directory

/-- Every listed node hangs in a directory. -/
def hangTogether (nodes : Files) : Bool :=
  nodes.all fun entry => match entry.1.parent with
    | none => true
    | some parent => Keyed.get nodes parent = some Node.directory

/-- A tree from a list of nodes that has been checked. -/
def FileTree.ofNodes (nodes : Files) (distinct : (nodes.map Prod.fst).Nodup)
    (hangs : hangTogether nodes = true) : FileTree where
  nodes := nodes
  distinct := distinct
  closed := by
    intro l hl parent hparent
    obtain ⟨node, hnode⟩ := Option.ne_none_iff_exists'.mp hl
    have hentry := List.all_eq_true.mp hangs _ ((Keyed.mem_iff_get distinct).mpr hnode)
    rw [hparent] at hentry
    exact of_decide_eq_true hentry

theorem under_of_startsWith {location base : Location} (h : location.startsWith base = true) :
    Forest.Under Location.parent base location := by
  unfold Location.startsWith at h
  simp only [Bool.and_eq_true, decide_eq_true_eq, List.isPrefixOf_iff_prefix] at h
  obtain ⟨⟨hprovider, hauthority⟩, suffix, hsuffix⟩ := h
  induction suffix using List.reverseRecOn generalizing location with
  | nil =>
    have heq : location = base := by
      rw [List.append_nil] at hsuffix
      obtain ⟨provider, authority, segments⟩ := location
      obtain ⟨provider', authority', segments'⟩ := base
      simp_all
    rw [heq]
    exact .self
  | append_singleton rest last ih =>
    let up : Location := { location with
      uri := { location.uri with segments := location.uri.segments.dropLast } }
    have hparent : location.parent = some up := by
      unfold Location.parent
      rw [if_neg]
      rw [← hsuffix]
      simp
    refine .up hparent (ih hprovider hauthority ?_)
    show _ = location.uri.segments.dropLast
    rw [← hsuffix, ← List.append_assoc, List.dropLast_concat]

end FileManager
