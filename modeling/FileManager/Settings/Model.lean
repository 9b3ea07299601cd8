/-
The settings (`fm-settings`, `lib.rs`) and their JSON: what the derived
`Serialize` writes and the derived `Deserialize` reads.

A codec is how one type is written and read; it carries the fact that
what it writes it reads back. `serde` reads more than it writes: an
enumeration also as an object with one null field, a struct also as an
array of its fields.

A `BTreeMap` is its entries, in the order of the keys, as an object is.
-/
import FileManager.Workspaces.Migration

namespace FileManager

open Workspaces (Value Fields)

namespace Settings

-- ==== codecs

/-- How a type is written and read. -/
structure Codec (α : Type) where
  encode : α → Value
  decode : Value → Option α
  decode_encode : ∀ a, decode (encode a) = some a

namespace Codec

variable {α β : Type}

def string : Codec String where
  encode := .string
  decode := Value.asStr
  decode_encode _ := rfl

def bool : Codec Bool where
  encode := .bool
  decode
    | .bool value => some value
    | _ => none
  decode_encode _ := rfl

def value : Codec Value where
  encode := id
  decode := some
  decode_encode _ := rfl

def u16 : Codec UInt16 where
  encode n := .natural n.toNat
  decode
    | .natural n => if n < 2 ^ 16 then some (UInt16.ofNat n) else none
    | _ => none
  decode_encode n := by
    have hn := n.toNat_lt
    simp [hn]

def u32 : Codec UInt32 where
  encode n := .natural n.toNat
  decode
    | .natural n => if n < 2 ^ 32 then some (UInt32.ofNat n) else none
    | _ => none
  decode_encode n := by
    have hn := n.toNat_lt
    simp [hn]

def variant (name : α → String) (all : List α) (text : String) : Option α :=
  all.find? fun a => name a = text

def enum (name : α → String) (all : List α)
    (complete : ∀ a, variant name all (name a) = some a) : Codec α where
  encode a := .string (name a)
  decode
    | .string text => variant name all text
    | .object [(text, .null)] => variant name all text
    | _ => none
  decode_encode := complete

def option (codec : Codec α) (solid : ∀ a, codec.encode a ≠ .null) : Codec (Option α) where
  encode
    | none => .null
    | some a => codec.encode a
  decode
    | .null => some none
    | value => (codec.decode value).map some
  decode_encode a := by
    cases a with
    | none => rfl
    | some a =>
      have hsolid := solid a
      have hread := codec.decode_encode a
      split
      case h_1 heq => exact absurd heq hsolid
      case h_2 => rw [hread]; rfl

theorem mapM_encode (codec : Codec α) (items : List α) :
    (items.map codec.encode).mapM codec.decode = some items := by
  induction items with
  | nil => rfl
  | cons a rest ih => simp [codec.decode_encode, ih]

def list (codec : Codec α) : Codec (List α) where
  encode items := .array (items.map codec.encode)
  decode
    | .array items => items.mapM codec.decode
    | _ => none
  decode_encode := codec.mapM_encode

def entry (codec : Codec α) (pair : String × Value) : Option (String × α) :=
  (codec.decode pair.2).map fun a => (pair.1, a)

theorem mapM_entry (codec : Codec α) (entries : List (String × α)) :
    (entries.map fun pair => (pair.1, codec.encode pair.2)).mapM codec.entry = some entries := by
  induction entries with
  | nil => rfl
  | cons pair rest ih => simp [entry, codec.decode_encode, ih]

def map (codec : Codec α) : Codec (List (String × α)) where
  encode entries := .object (entries.map fun pair => (pair.1, codec.encode pair.2))
  decode
    | .object fields => fields.mapM codec.entry
    | _ => none
  decode_encode := codec.mapM_entry

/-- A struct of two fields, both needed. -/
def struct (first second : String) (distinct : first ≠ second) (a : Codec α) (b : Codec β) :
    Codec (α × β) where
  encode pair := .object [(first, a.encode pair.1), (second, b.encode pair.2)]
  decode
    | .object fields => do
      let x ← a.decode (← Keyed.get fields first)
      let y ← b.decode (← Keyed.get fields second)
      return (x, y)
    | .array [x, y] => do
      let x ← a.decode x
      let y ← b.decode y
      return (x, y)
    | _ => none
  decode_encode pair := by
    simp [Keyed.get, distinct, a.decode_encode, b.decode_encode]

/-- A type with the fields of another. -/
def via (codec : Codec α) (make : α → β) (fields : β → α) (whole : ∀ b, make (fields b) = b) :
    Codec β where
  encode b := codec.encode (fields b)
  decode value := (codec.decode value).map make
  decode_encode b := by simp [codec.decode_encode, whole]

end Codec

-- ==== types

inductive Language
  | en
  | nl
deriving DecidableEq

inductive Theme
  | auto
  | light
  | dark
deriving DecidableEq

inductive DateFormat
  | short
  | medium
  | iso
deriving DecidableEq

inductive SizeFormat
  | binary
  | decimal
  | bytes
deriving DecidableEq

inductive ConflictPolicy
  | ask
  | overwrite
  | keepBoth
  | skip
deriving DecidableEq

inductive DefaultPaneLayout
  | dual
  | single
deriving DecidableEq

structure FavouriteLocation where
  label : String
  location : Locations.Location

namespace Codec

def language : Codec Language :=
  enum (fun
      | .en => "en"
      | .nl => "nl")
    [.en, .nl] fun a => by cases a <;> decide

def theme : Codec Theme :=
  enum (fun
      | .auto => "auto"
      | .light => "light"
      | .dark => "dark")
    [.auto, .light, .dark] fun a => by cases a <;> decide

def dateFormat : Codec DateFormat :=
  enum (fun
      | .short => "short"
      | .medium => "medium"
      | .iso => "iso")
    [.short, .medium, .iso] fun a => by cases a <;> decide

def sizeFormat : Codec SizeFormat :=
  enum (fun
      | .binary => "binary"
      | .decimal => "decimal"
      | .bytes => "bytes")
    [.binary, .decimal, .bytes] fun a => by cases a <;> decide

def conflictPolicy : Codec ConflictPolicy :=
  enum (fun
      | .ask => "ask"
      | .overwrite => "overwrite"
      | .keepBoth => "keepBoth"
      | .skip => "skip")
    [.ask, .overwrite, .keepBoth, .skip] fun a => by cases a <;> decide

def defaultPaneLayout : Codec DefaultPaneLayout :=
  enum (fun
      | .dual => "dual"
      | .single => "single")
    [.dual, .single] fun a => by cases a <;> decide

def location : Codec Locations.Location :=
  (struct "provider_id" "uri" (by decide) string string).via
    (fun pair => { providerId := pair.1, uri := pair.2.toList })
    (fun location => (location.providerId, String.ofList location.uri))
    fun location => by simp

def command : Codec (Option String) := string.option fun _ h => by cases h

def favouriteLocation : Codec FavouriteLocation :=
  (struct "label" "location" (by decide) string location).via
    (fun pair => { label := pair.1, location := pair.2 })
    (fun favourite => (favourite.label, favourite.location))
    fun _ => rfl

end Codec

def currentSchemaVersion : UInt32 := 4

def genericIconTheme : String := "generic"

def legacyCatppuccinIconTheme : String := "catppuccin"

def catppuccinIconThemePlugin : String := "catppuccin.icons"

end Settings

open Settings in
/-- `Settings`; the defaults are those of `Settings::default`. -/
structure Settings where
  schemaVersion : UInt32 := currentSchemaVersion
  theme : Theme := .auto
  language : Language := .en
  fontSize : UInt16 := 13
  rowHeight : UInt16 := 20
  dateFormat : DateFormat := .medium
  sizeFormat : SizeFormat := .binary
  showHiddenFiles : Bool := false
  confirmPermanentDelete : Bool := true
  defaultConflictPolicy : Settings.ConflictPolicy := .ask
  operationConcurrency : UInt16 := 2
  defaultPaneLayout : DefaultPaneLayout := .dual
  defaultColumns : List String := ["core.name", "core.size", "core.modified"]
  columnWidths : List (String × UInt32) := []
  keybindings : List (String × String) := []
  enabledPlugins : List String := []
  pluginSettings : List (String × Value) := []
  terminalCommand : Option String := none
  editorCommand : Option String := none
  defaultStartLocations : List String := []
  favouriteLocations : List FavouriteLocation := []
  recentLocationsByWorkspace : List (String × List Locations.Location) := []
  iconTheme : String := genericIconTheme

namespace Settings

/-- `Settings::default`. -/
def standard : Settings := {}

-- ==== JSON

/-- A field under its key, or the default. -/
def field {α : Type} (codec : Codec α) (key : String) (default : α) (fields : Fields) : Option α :=
  match Keyed.get fields key with
  | none => some default
  | some value => codec.decode value

/-- The derived `Serialize`. -/
def encode (s : Settings) : Fields :=
  [("schemaVersion", Codec.u32.encode s.schemaVersion), ("theme", Codec.theme.encode s.theme),
    ("language", Codec.language.encode s.language),
    ("fontSize", Codec.u16.encode s.fontSize),
    ("rowHeight", Codec.u16.encode s.rowHeight),
    ("dateFormat", Codec.dateFormat.encode s.dateFormat),
    ("sizeFormat", Codec.sizeFormat.encode s.sizeFormat),
    ("showHiddenFiles", Codec.bool.encode s.showHiddenFiles),
    ("confirmPermanentDelete", Codec.bool.encode s.confirmPermanentDelete),
    ("defaultConflictPolicy", Codec.conflictPolicy.encode s.defaultConflictPolicy),
    ("operationConcurrency", Codec.u16.encode s.operationConcurrency),
    ("defaultPaneLayout", Codec.defaultPaneLayout.encode s.defaultPaneLayout),
    ("defaultColumns", Codec.string.list.encode s.defaultColumns),
    ("columnWidths", Codec.u32.map.encode s.columnWidths),
    ("keybindings", Codec.string.map.encode s.keybindings),
    ("enabledPlugins", Codec.string.list.encode s.enabledPlugins),
    ("pluginSettings", Codec.value.map.encode s.pluginSettings),
    ("terminalCommand", Codec.command.encode s.terminalCommand),
    ("editorCommand", Codec.command.encode s.editorCommand),
    ("defaultStartLocations", Codec.string.list.encode s.defaultStartLocations),
    ("favouriteLocations", Codec.favouriteLocation.list.encode s.favouriteLocations),
    ("recentLocationsByWorkspace",
      Codec.location.list.map.encode s.recentLocationsByWorkspace),
    ("iconTheme", Codec.string.encode s.iconTheme)]

/-- The derived `Deserialize`, of an object: absent fields have their
defaults, and other fields are passed over. -/
def decode (fields : Fields) : Option Settings := do
  let schemaVersion ← field .u32 "schemaVersion" standard.schemaVersion fields
  let theme ← field .theme "theme" standard.theme fields
  let language ← field .language "language" standard.language fields
  let fontSize ← field .u16 "fontSize" standard.fontSize fields
  let rowHeight ← field .u16 "rowHeight" standard.rowHeight fields
  let dateFormat ← field .dateFormat "dateFormat" standard.dateFormat fields
  let sizeFormat ← field .sizeFormat "sizeFormat" standard.sizeFormat fields
  let showHiddenFiles ← field .bool "showHiddenFiles" standard.showHiddenFiles fields
  let confirmPermanentDelete ←
    field .bool "confirmPermanentDelete" standard.confirmPermanentDelete fields
  let defaultConflictPolicy ←
    field .conflictPolicy "defaultConflictPolicy" standard.defaultConflictPolicy fields
  let operationConcurrency ←
    field .u16 "operationConcurrency" standard.operationConcurrency fields
  let defaultPaneLayout ←
    field .defaultPaneLayout "defaultPaneLayout" standard.defaultPaneLayout fields
  let defaultColumns ← field (.list .string) "defaultColumns" standard.defaultColumns fields
  let columnWidths ← field (.map .u32) "columnWidths" standard.columnWidths fields
  let keybindings ← field (.map .string) "keybindings" standard.keybindings fields
  let enabledPlugins ← field (.list .string) "enabledPlugins" standard.enabledPlugins fields
  let pluginSettings ← field (.map .value) "pluginSettings" standard.pluginSettings fields
  let terminalCommand ← field .command "terminalCommand" standard.terminalCommand fields
  let editorCommand ← field .command "editorCommand" standard.editorCommand fields
  let defaultStartLocations ←
    field (.list .string) "defaultStartLocations" standard.defaultStartLocations fields
  let favouriteLocations ←
    field (.list .favouriteLocation) "favouriteLocations" standard.favouriteLocations fields
  let recentLocationsByWorkspace ← field (.map (.list .location)) "recentLocationsByWorkspace"
    standard.recentLocationsByWorkspace fields
  let iconTheme ← field .string "iconTheme" standard.iconTheme fields
  return { schemaVersion, theme, language, fontSize, rowHeight, dateFormat, sizeFormat,
           showHiddenFiles, confirmPermanentDelete, defaultConflictPolicy, operationConcurrency,
           defaultPaneLayout, defaultColumns, columnWidths, keybindings, enabledPlugins,
           pluginSettings, terminalCommand, editorCommand, defaultStartLocations,
           favouriteLocations, recentLocationsByWorkspace, iconTheme }

end Settings

end FileManager
