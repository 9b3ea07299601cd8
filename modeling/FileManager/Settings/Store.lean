/-
The settings file (`fm-settings`, `lib.rs`): its migration, `load` and
`save`.

The text of JSON belongs to `serde_json` and is a parameter. An
assignment to `value["key"]` of a value that is neither null nor an
object panics. System calls may fail; which of them do is said beside
each call.
-/
import FileManager.Settings.Model

namespace FileManager.Settings

open Workspaces (Value Migrated changeIndexed orReject)

abbrev Bytes := List UInt8

/-- `serde_json`: `from_slice` to a value, and `to_vec_pretty`. -/
structure SerdeJson where
  fromSlice : Bytes → Option Value
  toVecPretty : Value → Bytes

-- ==== migration

/-- `Value::is_array`. -/
def isArray : Value → Bool
  | .array _ => true
  | _ => false

/-- The plugin among the enabled ones, at the end if it is not there. -/
def withCatppuccin : Value → Value
  | .array items =>
    if items.any fun plugin => plugin.asStr = some catppuccinIconThemePlugin then .array items
    else .array (items ++ [.string catppuccinIconThemePlugin])
  | value => value

/-- The part of `migrate` for the legacy icon theme. -/
def renameIconTheme (value : Value) : Migrated Value := do
  let value ← changeIndexed "iconTheme" (fun _ => .string catppuccinIconThemePlugin) value
  let value ←
    if (value.get "enabledPlugins").any isArray then .ok value
    else changeIndexed "enabledPlugins" (fun _ => .array []) value
  changeIndexed "enabledPlugins" withCatppuccin value

def versionOf (value : Value) : Nat := ((value.get "schemaVersion").bind Value.asU64).getD 1

/-- The start of `migrate`: old versions get the current one. -/
def raiseVersion (value : Value) : Migrated Value :=
  if versionOf value = 1 ∨ versionOf value = 2 then
    changeIndexed "schemaVersion" (fun _ => .natural currentSchemaVersion.toNat) value
  else if versionOf value ≠ currentSchemaVersion.toNat then .error .rejected
  else .ok value

/-- `from_value`; no other value than an object gets there. -/
def fromValue : Value → Migrated Settings
  | .object fields => orReject (decode fields)
  | _ => .error .rejected

/-- The legacy icon theme, where it is used, by its plugin. -/
def upgradeIconTheme (value : Value) : Migrated Value :=
  if (value.get "iconTheme").bind Value.asStr = some legacyCatppuccinIconTheme then
    renameIconTheme value
  else .ok value

/-- `migrate` of a parsed value. -/
def migrateValue (value : Value) : Migrated Settings := do
  let value ← raiseVersion value
  let value ← upgradeIconTheme value
  fromValue value

variable (json : SerdeJson)

def migrate (bytes : Bytes) : Migrated Settings := do
  let value ← orReject (json.fromSlice bytes)
  migrateValue value

-- ==== store

/-- `SettingsError`, as far as `load` and `save` raise it. -/
inductive SettingsError
  | io (message : String)

structure LoadOutcome where
  settings : Settings
  warning : Option String

/-- The configuration directory: the settings, the temporary file of a
save, and the backups by their time. -/
structure Directory where
  settings : Option Bytes
  temporary : Option Bytes
  backups : List (Nat × Bytes)

/-- The system calls of one `load` that fail, its time, and how the
directory is shown. -/
structure LoadEnv where
  readFails : Bool
  createDirFails : Option String
  renameFails : Option String
  unixTimestamp : Nat
  directory : String

/-- Where a file that cannot be read goes. -/
def backupPath (env : LoadEnv) : String :=
  env.directory ++ "/settings.json.corrupt-" ++ toString env.unixTimestamp

/-- The settings of a file that is read and understood; a panic is
handed on. -/
def readSettings (env : LoadEnv) (bytes : Bytes) : Option (Option Settings) :=
  if env.readFails then some none
  else
    match migrate json bytes with
    | .ok settings => some (some settings)
    | .error .rejected => some none
    | .error .panicked => none

/-- The file is put aside, and the defaults are used. -/
def recover (env : LoadEnv) (dir : Directory) (bytes : Bytes) :
    Except SettingsError LoadOutcome × Directory :=
  match env.createDirFails, env.renameFails with
  | some message, _ => (.error (.io message), dir)
  | none, some message => (.error (.io message), dir)
  | none, none =>
    (.ok { settings := standard
           warning := some ("Settings could not be read. Defaults were loaded and the original "
             ++ "was backed up to " ++ backupPath env ++ ".") },
      { dir with settings := none
                 backups := Keyed.put dir.backups env.unixTimestamp bytes })

/-- `SettingsStore::load`; nothing if it panics. -/
def load (env : LoadEnv) (dir : Directory) :
    Option (Except SettingsError LoadOutcome × Directory) :=
  match dir.settings with
  | none => some (.ok { settings := standard, warning := none }, dir)
  | some bytes =>
    match readSettings json env bytes with
    | none => none
    | some (some settings) => some (.ok { settings := settings, warning := none }, dir)
    | some none => some (recover env dir bytes)

/-- The system calls of one `save` that fail, and how much is written
before. -/
structure SaveEnv where
  createDirFails : Option String
  createFails : Option String
  writeFails : Option (String × Nat)
  syncFails : Option String
  renameFails : Option String

/-- No system call fails. -/
def SaveEnv.smooth : SaveEnv := ⟨none, none, none, none, none⟩

/-- The bytes that `save` writes. -/
def savedBytes (settings : Settings) : Bytes :=
  json.toVecPretty (.object { settings with schemaVersion := currentSchemaVersion }.encode)

/-- `SettingsStore::save`. -/
def save (env : SaveEnv) (settings : Settings) (dir : Directory) :
    Except SettingsError Unit × Directory :=
  let bytes := savedBytes json settings
  match env.createDirFails, env.createFails, env.writeFails, env.syncFails, env.renameFails with
  | some message, _, _, _, _ => (.error (.io message), dir)
  | none, some message, _, _, _ => (.error (.io message), dir)
  | none, none, some (message, written), _, _ =>
    (.error (.io message), { dir with temporary := some (bytes.take written) })
  | none, none, none, some message, _ =>
    (.error (.io message), { dir with temporary := some bytes })
  | none, none, none, none, some message =>
    (.error (.io message), { dir with temporary := some bytes })
  | none, none, none, none, none =>
    (.ok (), { dir with settings := some bytes, temporary := none })

end FileManager.Settings
