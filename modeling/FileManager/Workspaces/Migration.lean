/-
Stored workspaces as JSON (`fm-application`, `workspace/migration.rs`
and `parse_and_migrate` of `workspace/persistent.rs`): the migrations of
old versions, and the reading of a file.

What belongs to other crates is a parameter (`Json`): the text and the
derived `Deserialize` of `serde_json`, the dates of `chrono`, and
`Uuid::parse_str`, which a converted native path is checked with. An
object is its fields, each key once.

A migration rejects a value that is no object. It panics on a tab that
cannot hold the key it is indexed with.
-/
import FileManager.Workspaces.Model
import FileManager.Locations.Model
import FileManager.Lib.Keyed

namespace FileManager.Workspaces

-- ==== values

/-- `serde_json::Value`; `number` is a number that is no `u64`. -/
inductive Value
  | null
  | bool (value : Bool)
  | natural (value : Nat)
  | number (value : Rat)
  | string (text : String)
  | array (items : List Value)
  | object (fields : List (String × Value))

abbrev Fields := List (String × Value)

/-- `Value::get` with a key. -/
def Value.get (key : String) : Value → Option Value
  | .object fields => Keyed.get fields key
  | _ => none

def Value.asU64 : Value → Option Nat
  | .natural value => some value
  | _ => none

def Value.asStr : Value → Option String
  | .string text => some text
  | _ => none

def Value.asArray : Value → Option (List Value)
  | .array items => some items
  | _ => none

/-- Why a file is not read. -/
inductive Unread
  | rejected
  | panicked

abbrev Migrated (α : Type) := Except Unread α

-- ==== changes

/-- `entry(key).or_insert(value)`. -/
def orInsert (key : String) (value : Value) (fields : Fields) : Fields :=
  match Keyed.get fields key with
  | some _ => fields
  | none => Keyed.put fields key value

/-- A field, where there is one, changed in place. -/
def changeField (key : String) (change : Value → Migrated Value)
    (fields : Fields) : Migrated Fields :=
  match Keyed.get fields key with
  | none => .ok fields
  | some value => do
    let value ← change value
    return Keyed.put fields key value

/-- `as_object_mut`: the fields of an object, and nothing of another
value. -/
def changeObject (change : Fields → Migrated Fields) : Value → Migrated Value
  | .object fields => do
    let fields ← change fields
    return .object fields
  | value => .ok value

/-- `as_array_mut`: every item of an array, and nothing of another
value. -/
def changeItems (change : Value → Migrated Value) : Value → Migrated Value
  | .array items => do
    let items ← items.mapM change
    return .array items
  | value => .ok value

/-- `&mut value[key]`: null becomes an object, an object gets the key,
and any other value panics. -/
def changeIndexed (key : String) (change : Value → Value) :
    Value → Migrated Value
  | .null => .ok (.object [(key, change .null)])
  | .object fields =>
    let value := (Keyed.get fields key).getD .null
    .ok (.object (Keyed.put fields key (change value)))
  | _ => .error .panicked

-- ==== migrations

def defaultDirectoryViewConfiguration : Value :=
  .object [("sort", .array []), ("columns", .array []),
    ("show_hidden", .bool false), ("folders_first", .bool false),
    ("quick_filter", .null)]

/-- The view that a pane's new tabs take over: that of its first tab. -/
def defaultViewOf (pane : Value) : Value :=
  ((((pane.get "tabs").bind Value.asArray).bind List.head?).bind
    (Value.get "view")).getD defaultDirectoryViewConfiguration

/-- `migrate_v0_to_v1` on a tab. -/
def migrateTabV0 : Value → Migrated Value :=
  changeObject fun tab =>
    .ok (orInsert "pinned" (.bool false) (orInsert "title_override" .null tab))

/-- `migrate_v0_to_v1` on a pane. -/
def migratePaneV0 (pane : Value) : Migrated Value :=
  changeObject (fun fields =>
    changeField "tabs" (changeItems migrateTabV0)
      (orInsert "default_view" (defaultViewOf pane) (orInsert "title" .null fields))) pane

/-- `migrate_v0_to_v1`, at a time. -/
def migrateV0ToV1 (now : String) : Value → Migrated Value
  | .object fields => do
    let fields := Keyed.put fields "schema_version" (.natural 1)
    let fields := orInsert "created_at" (.string now) fields
    let fields := orInsert "updated_at" (.string now) fields
    let fields := orInsert "revision" (.natural 1) fields
    let fields := orInsert "operation_centre"
      (.object [("visible", .bool false), ("height", .natural 0)]) fields
    let fields ← changeField "panes" (changeItems migratePaneV0) fields
    return .object fields
  | _ => .error .rejected

/-- Every location of a tab: its own, and those of its history. -/
def changeTabLocations (change : Value → Value) (tab : Value) :
    Migrated Value := do
  let stack := changeItems fun location => .ok (change location)
  let tab ← changeIndexed "location" change tab
  changeObject (changeField "history" (changeObject fun history => do
    let history ← changeField "back" stack history
    changeField "forward" stack history)) tab

/-- A migration that sets the version and changes the locations. -/
def migrateLocations (version : Nat) (change : Value → Value) :
    Value → Migrated Value
  | .object fields => do
    let fields := Keyed.put fields "schema_version" (.natural version)
    let fields ← changeField "panes" (changeItems (changeObject
      (changeField "tabs" (changeItems (changeTabLocations change))))) fields
    return .object fields
  | _ => .error .rejected

def normalizeLocalLocation : Value → Value
  | .object fields =>
    let isFileUri := ((Keyed.get fields "uri").bind Value.asStr).any
      fun uri => uri.toList.take 5 = "file:".toList
    let usesObsoleteAlias := (Keyed.get fields "provider_id").bind Value.asStr = some "file"
    if isFileUri ∧ usesObsoleteAlias then
      .object (Keyed.put fields "provider_id" (.string "local"))
    else .object fields
  | value => value

def migrateV1ToV2 : Value → Migrated Value := migrateLocations 2 normalizeLocalLocation

/-- The path that a `file:` URI of a raw native path goes on with. -/
def rawNativePath (uri : String) : Option (List Char) :=
  let path := uri.toList.drop 7
  if uri.toList.take 7 = "file://".toList ∧ path ≠ []
    ∧ path.head? ≠ some '/' then some path
  else none

def repairNativePathLocation (isUuid : List Char → Bool) : Value → Value
  | .object fields =>
    match ((Keyed.get fields "uri").bind Value.asStr).bind rawNativePath with
    | none => .object fields
    | some path =>
      match Locations.Location.fromNativePath isUuid (Text.utf8 path) with
      | .ok repaired => .object (Keyed.put fields "uri"
          (.string (String.ofList repaired.uri)))
      | .error _ => .object fields
  | value => value

def migrateV2ToV3 (isUuid : List Char → Bool) : Value → Migrated Value :=
  migrateLocations 3 (repairNativePathLocation isUuid)

-- ==== files

/-- The other crates, as the repository uses them. `layoutLimit` is how
deep a layout may nest before `serde_json` stops reading. -/
structure Json where
  Bytes : Type
  fromSlice : Bytes → Option Value
  toVec : Workspace → Bytes
  fromValue : Value → Option Workspace
  toRfc3339 : Nat → String
  isUuid : List Char → Bool
  layoutLimit : Nat

variable (json : Json)

/-- The migration from one version to the next. -/
def migrateFrom (now version : Nat) (value : Value) : Migrated Value :=
  match version with
  | 0 => migrateV0ToV1 (json.toRfc3339 now) value
  | 1 => migrateV1ToV2 value
  | 2 => migrateV2ToV3 json.isUuid value
  | _ => .error .rejected

/-- The loop of `migrate_workspace_json`, with so many rounds to go. -/
def migrateRounds (now : Nat) : Nat → Nat → Value → Migrated Value
  | 0, _, value => .ok value
  | rounds + 1, version, value => do
    let value ← migrateFrom json now version value
    migrateRounds now rounds (version + 1) value

def Value.schemaVersion (value : Value) : Nat :=
  ((value.get "schema_version").bind Value.asU64).getD 0

def migrateWorkspaceJson (now : Nat) (value : Value) : Migrated Value :=
  let version := value.schemaVersion
  if version > currentSchemaVersion then .error .rejected
  else migrateRounds json now (currentSchemaVersion - version) version value

/-- What another crate refuses is rejected. -/
def orReject {α : Type} : Option α → Migrated α
  | some a => .ok a
  | none => .error .rejected

def parseAndMigrate (now : Nat) (bytes : json.Bytes) : Migrated Workspace := do
  let value ← orReject (json.fromSlice bytes)
  let migrated ← migrateWorkspaceJson json now value
  orReject (json.fromValue migrated)

-- ==== what is relied on

/-- How deep a layout nests. -/
def WorkspaceLayout.depth : WorkspaceLayout → Nat
  | .pane _ => 1
  | .split _ _ first second => max first.depth second.depth + 1

/-- `serde_json` reads back what it wrote: the workspace, whatever its
time stamps and its revision, a `u64`. -/
def Json.ReadsBack (workspace : Workspace) : Prop :=
  ∀ createdAt updatedAt revision, revision < 2 ^ 64 →
    let written : Workspace := { workspace with
      createdAt := createdAt, updatedAt := updatedAt, revision := revision }
    ∃ value, json.fromSlice (json.toVec written) = some value ∧ json.fromValue value = some written

/-- A workspace is read with the version that its JSON says. -/
def Json.Versioned : Prop :=
  ∀ value workspace, json.fromValue value = some workspace →
    workspace.schemaVersion = value.schemaVersion

/-- What the service relies on: a layout is read that does not nest
deeper than the limit, and a valid workspace with such a layout is read
back. -/
structure Json.Lawful : Prop where
  version : json.Versioned
  depth : ∀ now bytes workspace, parseAndMigrate json now bytes = .ok workspace →
    workspace.layout.depth ≤ json.layoutLimit
  reads_back : ∀ workspace, workspace.validate = .ok () →
    workspace.layout.depth ≤ json.layoutLimit → json.ReadsBack workspace

end FileManager.Workspaces
