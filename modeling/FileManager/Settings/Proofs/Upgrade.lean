/-
What `load` makes of a settings file: of every file (`load_returns_iff`),
of every object of a known version, and of what `save` has written.

# The argument

An object describes settings: each field that is there has a value that
can be read, and the others their defaults (`Describes`). `migrate`
changes at most three fields, so what it reads is what was described, up
to the version and the legacy icon theme (`upgraded`). What `save` writes
describes what was saved, so reading it back is a case of this.
-/
import FileManager.Settings.Store
import FileManager.Lib.Fallible

namespace FileManager.Settings

open Workspaces (Value Fields changeIndexed orReject)
open Text (utf8)
open Keyed (get_put)
open Keyed Option Codec

variable {json : SerdeJson} {fields fields' : Fields} {s : Settings} {key theme : String} {α : Type}
  {codec : Codec α} {default a : α} {value : Value} {plugins : List String} {items : List Value}
  {dir : Directory} {bytes : Bytes}

-- ==== descriptions

/-- The value under a key, or the default. -/
def Shows {α : Type} (codec : Codec α) (key : String) (default : α) (fields : Fields) (a : α) :
    Prop :=
  (get fields key = none ∧ a = default)
    ∨ ∃ value, get fields key = some value ∧ codec.decode value = some a

theorem field_eq_some_iff :
    field codec key default fields = some a ↔ Shows codec key default fields a := by
  unfold field Shows
  cases hget : get fields key with
  | none => simp [eq_comm]
  | some value => simp

theorem Shows.of_get (h : Shows codec key default fields a)
    (hget : get fields' key = get fields key) : Shows codec key default fields' a := by
  unfold Shows at h ⊢
  rw [hget]
  exact h

theorem shows_put (h : codec.decode value = some a) :
    Shows codec key default (put fields key value) a := by
  refine .inr ⟨value, ?_, h⟩
  rw [get_put, if_pos rfl]

/-- The object describes the settings. -/
structure Describes (fields : Fields) (s : Settings) : Prop where
  schemaVersion : Shows .u32 "schemaVersion" standard.schemaVersion fields s.schemaVersion
  theme : Shows .theme "theme" standard.theme fields s.theme
  language : Shows .language "language" standard.language fields s.language
  fontSize : Shows .u16 "fontSize" standard.fontSize fields s.fontSize
  rowHeight : Shows .u16 "rowHeight" standard.rowHeight fields s.rowHeight
  dateFormat : Shows .dateFormat "dateFormat" standard.dateFormat fields s.dateFormat
  sizeFormat : Shows .sizeFormat "sizeFormat" standard.sizeFormat fields s.sizeFormat
  showHiddenFiles :
    Shows .bool "showHiddenFiles" standard.showHiddenFiles fields s.showHiddenFiles
  confirmPermanentDelete : Shows .bool "confirmPermanentDelete" standard.confirmPermanentDelete
    fields s.confirmPermanentDelete
  defaultConflictPolicy : Shows .conflictPolicy "defaultConflictPolicy"
    standard.defaultConflictPolicy fields s.defaultConflictPolicy
  operationConcurrency : Shows .u16 "operationConcurrency" standard.operationConcurrency fields
    s.operationConcurrency
  defaultPaneLayout : Shows .defaultPaneLayout "defaultPaneLayout" standard.defaultPaneLayout
    fields s.defaultPaneLayout
  defaultColumns :
    Shows (.list .string) "defaultColumns" standard.defaultColumns fields s.defaultColumns
  columnWidths : Shows (.map .u32) "columnWidths" standard.columnWidths fields s.columnWidths
  keybindings : Shows (.map .string) "keybindings" standard.keybindings fields s.keybindings
  enabledPlugins :
    Shows (.list .string) "enabledPlugins" standard.enabledPlugins fields s.enabledPlugins
  pluginSettings :
    Shows (.map .value) "pluginSettings" standard.pluginSettings fields s.pluginSettings
  terminalCommand :
    Shows .command "terminalCommand" standard.terminalCommand fields s.terminalCommand
  editorCommand : Shows .command "editorCommand" standard.editorCommand fields s.editorCommand
  defaultStartLocations : Shows (.list .string) "defaultStartLocations"
    standard.defaultStartLocations fields s.defaultStartLocations
  favouriteLocations : Shows (.list .favouriteLocation) "favouriteLocations"
    standard.favouriteLocations fields s.favouriteLocations
  recentLocationsByWorkspace : Shows (.map (.list .location)) "recentLocationsByWorkspace"
    standard.recentLocationsByWorkspace fields s.recentLocationsByWorkspace
  iconTheme : Shows .string "iconTheme" standard.iconTheme fields s.iconTheme

/-- An object is decoded as the settings that it describes. -/
theorem decode_of_describes (h : Describes fields s) : decode fields = some s := by
  simp only [decode, field_eq_some_iff.2 h.schemaVersion, field_eq_some_iff.2 h.theme,
    field_eq_some_iff.2 h.language, field_eq_some_iff.2 h.fontSize, field_eq_some_iff.2 h.rowHeight,
    field_eq_some_iff.2 h.dateFormat, field_eq_some_iff.2 h.sizeFormat,
    field_eq_some_iff.2 h.showHiddenFiles, field_eq_some_iff.2 h.confirmPermanentDelete,
    field_eq_some_iff.2 h.defaultConflictPolicy, field_eq_some_iff.2 h.operationConcurrency,
    field_eq_some_iff.2 h.defaultPaneLayout, field_eq_some_iff.2 h.defaultColumns,
    field_eq_some_iff.2 h.columnWidths, field_eq_some_iff.2 h.keybindings,
    field_eq_some_iff.2 h.enabledPlugins, field_eq_some_iff.2 h.pluginSettings,
    field_eq_some_iff.2 h.terminalCommand, field_eq_some_iff.2 h.editorCommand,
    field_eq_some_iff.2 h.defaultStartLocations, field_eq_some_iff.2 h.favouriteLocations,
    field_eq_some_iff.2 h.recentLocationsByWorkspace, field_eq_some_iff.2 h.iconTheme]
  rfl

theorem shows_encoded (codec : Codec α) (h : get fields key = some (codec.encode a)) :
    Shows codec key default fields a :=
  .inr ⟨_, h, codec.decode_encode a⟩

/-- What is saved of settings describes them. -/
theorem describes_encode (s : Settings) : Describes s.encode s where
  schemaVersion := shows_encoded _ rfl
  theme := shows_encoded _ rfl
  language := shows_encoded _ rfl
  fontSize := shows_encoded _ rfl
  rowHeight := shows_encoded _ rfl
  dateFormat := shows_encoded _ rfl
  sizeFormat := shows_encoded _ rfl
  showHiddenFiles := shows_encoded _ rfl
  confirmPermanentDelete := shows_encoded _ rfl
  defaultConflictPolicy := shows_encoded _ rfl
  operationConcurrency := shows_encoded _ rfl
  defaultPaneLayout := shows_encoded _ rfl
  defaultColumns := shows_encoded _ rfl
  columnWidths := shows_encoded _ rfl
  keybindings := shows_encoded _ rfl
  enabledPlugins := shows_encoded _ rfl
  pluginSettings := shows_encoded _ rfl
  terminalCommand := shows_encoded _ rfl
  editorCommand := shows_encoded _ rfl
  defaultStartLocations := shows_encoded _ rfl
  favouriteLocations := shows_encoded _ rfl
  recentLocationsByWorkspace := shows_encoded _ rfl
  iconTheme := shows_encoded _ rfl

/-- The fields that a migration may change. -/
def migratedKeys : List String := ["schemaVersion", "enabledPlugins", "iconTheme"]

/-- A migration keeps what the object describes under the other keys. -/
theorem Describes.migrated (h : Describes fields s) {version : UInt32}
    (hget : ∀ key, key ∉ migratedKeys → get fields' key = get fields key)
    (hversion : Shows .u32 "schemaVersion" standard.schemaVersion fields' version)
    (hplugins : Shows (.list .string) "enabledPlugins" standard.enabledPlugins fields' plugins)
    (htheme : Shows .string "iconTheme" standard.iconTheme fields' theme) :
    Describes fields'
      { s with schemaVersion := version, enabledPlugins := plugins, iconTheme := theme } where
  schemaVersion := hversion
  enabledPlugins := hplugins
  iconTheme := htheme
  theme := h.theme.of_get (hget _ (by decide))
  language := h.language.of_get (hget _ (by decide))
  fontSize := h.fontSize.of_get (hget _ (by decide))
  rowHeight := h.rowHeight.of_get (hget _ (by decide))
  dateFormat := h.dateFormat.of_get (hget _ (by decide))
  sizeFormat := h.sizeFormat.of_get (hget _ (by decide))
  showHiddenFiles := h.showHiddenFiles.of_get (hget _ (by decide))
  confirmPermanentDelete := h.confirmPermanentDelete.of_get (hget _ (by decide))
  defaultConflictPolicy := h.defaultConflictPolicy.of_get (hget _ (by decide))
  operationConcurrency := h.operationConcurrency.of_get (hget _ (by decide))
  defaultPaneLayout := h.defaultPaneLayout.of_get (hget _ (by decide))
  defaultColumns := h.defaultColumns.of_get (hget _ (by decide))
  columnWidths := h.columnWidths.of_get (hget _ (by decide))
  keybindings := h.keybindings.of_get (hget _ (by decide))
  pluginSettings := h.pluginSettings.of_get (hget _ (by decide))
  terminalCommand := h.terminalCommand.of_get (hget _ (by decide))
  editorCommand := h.editorCommand.of_get (hget _ (by decide))
  defaultStartLocations := h.defaultStartLocations.of_get (hget _ (by decide))
  favouriteLocations := h.favouriteLocations.of_get (hget _ (by decide))
  recentLocationsByWorkspace := h.recentLocationsByWorkspace.of_get (hget _ (by decide))

-- ==== migrations

/-- The settings as they are read: with the current version, and the
legacy icon theme by its plugin. -/
def upgraded (s : Settings) : Settings :=
  if s.iconTheme = legacyCatppuccinIconTheme then
    { s with
      schemaVersion := currentSchemaVersion
      iconTheme := catppuccinIconThemePlugin
      enabledPlugins :=
        if catppuccinIconThemePlugin ∈ s.enabledPlugins then s.enabledPlugins
        else s.enabledPlugins ++ [catppuccinIconThemePlugin] }
  else { s with schemaVersion := currentSchemaVersion }

theorem exists_items (h : (list .string).decode value = some plugins) :
    ∃ items, value = .array items ∧ items.mapM Value.asStr = some plugins := by
  cases value with
  | array items => exact ⟨items, rfl, h⟩
  | _ => cases h

theorem any_plugin_iff (h : items.mapM Value.asStr = some plugins) (name : String) :
    (items.any fun plugin => plugin.asStr = some name) = true ↔ name ∈ plugins := by
  induction items generalizing plugins with
  | nil =>
    cases h
    simp
  | cons first rest ih =>
    rw [List.mapM_cons] at h
    obtain ⟨text, hfirst, h⟩ := bind_eq_some_iff.1 h
    obtain ⟨texts, hrest, h⟩ := bind_eq_some_iff.1 h
    obtain rfl := some.inj h
    rw [List.any_cons, Bool.or_eq_true, ih hrest, List.mem_cons, hfirst]
    simp [eq_comm]

theorem mapM_snoc (h : items.mapM Value.asStr = some plugins) (name : String) :
    (items ++ [Value.string name]).mapM Value.asStr = some (plugins ++ [name]) := by
  rw [List.mapM_append, h]
  rfl

/-- The plugin is added once. -/
theorem decode_withCatppuccin (h : (list .string).decode value = some plugins) :
    (list .string).decode (withCatppuccin value)
      = some (if catppuccinIconThemePlugin ∈ plugins then plugins
          else plugins ++ [catppuccinIconThemePlugin]) := by
  obtain ⟨items, rfl, hitems⟩ := exists_items h
  have hany := any_plugin_iff hitems catppuccinIconThemePlugin
  simp only [withCatppuccin]
  by_cases hmem : catppuccinIconThemePlugin ∈ plugins
  · rw [if_pos hmem, if_pos (hany.2 hmem)]
    exact hitems
  · rw [if_neg hmem, if_neg (mt hany.1 hmem)]
    exact mapM_snoc hitems _

theorem raiseVersion_object (hversion : versionOf (.object fields) = 1
      ∨ versionOf (.object fields) = 2 ∨ versionOf (.object fields) = 4) :
    ∃ fields', raiseVersion (.object fields) = .ok (.object fields')
      ∧ (∀ key, key ≠ "schemaVersion" → get fields' key = get fields key)
      ∧ Shows .u32 "schemaVersion" standard.schemaVersion fields' currentSchemaVersion := by
  by_cases hold : versionOf (.object fields) = 1 ∨ versionOf (.object fields) = 2
  · refine ⟨put fields "schemaVersion" (.natural currentSchemaVersion.toNat), ?_, ?_, ?_⟩
    · rw [raiseVersion, if_pos hold]
      rfl
    · intro key hkey
      rw [get_put, if_neg hkey]
    · exact shows_put (u32.decode_encode currentSchemaVersion)
  · have hnew : versionOf (.object fields) = 4 := by
      rcases hversion with h | h | h
      · exact absurd (.inl h) hold
      · exact absurd (.inr h) hold
      · exact h
    refine ⟨fields, ?_, fun _ _ => rfl, .inr ?_⟩
    · have hcurrent : versionOf (.object fields) = currentSchemaVersion.toNat := hnew
      rw [raiseVersion, if_neg hold, if_neg (not_not.2 hcurrent)]
    · cases hget : get fields "schemaVersion" with
      | none => simp [versionOf, Value.get, hget] at hnew
      | some value =>
        refine ⟨value, rfl, ?_⟩
        cases value with
        | natural n =>
          have hn : n = 4 := by simpa [versionOf, Value.get, hget, Value.asU64] using hnew
          subst hn
          rfl
        | _ => simp [versionOf, Value.get, hget, Value.asU64] at hnew

theorem renameIconTheme_object
    (hplugins : Shows (.list .string) "enabledPlugins" standard.enabledPlugins fields plugins) :
    ∃ fields', renameIconTheme (.object fields) = .ok (.object fields')
      ∧ (∀ key, key ≠ "enabledPlugins" → key ≠ "iconTheme" →
          get fields' key = get fields key)
      ∧ Shows (.list .string) "enabledPlugins" standard.enabledPlugins fields'
          (if catppuccinIconThemePlugin ∈ plugins then plugins
            else plugins ++ [catppuccinIconThemePlugin])
      ∧ Shows .string "iconTheme" standard.iconTheme fields' catppuccinIconThemePlugin := by
  -- the fields once the plugins are an array, and that array
  let named := put fields "iconTheme" (.string catppuccinIconThemePlugin)
  have hnamed : get named "enabledPlugins" = get fields "enabledPlugins" := by
    rw [get_put, if_neg (by decide)]
  obtain ⟨listed, value, hrename, hothers, hget, hdecode⟩ : ∃ listed value,
      renameIconTheme (.object fields)
        = .ok (.object (put listed "enabledPlugins" (withCatppuccin value)))
      ∧ (∀ key, key ≠ "enabledPlugins" → get listed key = get named key)
      ∧ get listed "enabledPlugins" = some value
      ∧ (list .string).decode value = some plugins := by
    rcases hplugins with ⟨hnone, rfl⟩ | ⟨value, hvalue, hdecode⟩
    · have hget : get (put named "enabledPlugins" (.array [])) "enabledPlugins"
          = some (.array []) := by rw [get_put, if_pos rfl]
      refine ⟨put named "enabledPlugins" (.array []), .array [], ?_, ?_, hget, rfl⟩
      · simp only [renameIconTheme, changeIndexed, bind, Except.bind, Value.get, hnamed, hnone,
          any_none, Bool.false_eq_true, if_false, named, hget, getD_some]
      · intro key hkey
        rw [get_put, if_neg hkey]
    · obtain ⟨items, rfl, -⟩ := exists_items hdecode
      have hget := hnamed.trans hvalue
      refine ⟨named, .array items, ?_, fun _ _ => rfl, hget, hdecode⟩
      simp only [renameIconTheme, changeIndexed, bind, Except.bind, Value.get, hget,
        any_some, isArray, if_true, named, getD_some]
  refine ⟨_, hrename, ?_, shows_put (decode_withCatppuccin hdecode), ?_⟩
  · intro key hkey htheme
    rw [get_put, if_neg hkey, hothers key hkey, get_put, if_neg htheme]
  · refine .inr ⟨.string catppuccinIconThemePlugin, ?_, rfl⟩
    rw [get_put, if_neg (by decide), hothers _ (by decide), get_put, if_pos rfl]

theorem asStr_iff (h : Shows .string "iconTheme" standard.iconTheme fields theme) :
    (Value.get "iconTheme" (.object fields)).bind Value.asStr = some legacyCatppuccinIconTheme
      ↔ theme = legacyCatppuccinIconTheme := by
  rcases h with ⟨hnone, rfl⟩ | ⟨value, hvalue, hdecode⟩
  · simp only [Value.get, hnone]
    decide
  · have hread : value.asStr = some theme := hdecode
    simp [Value.get, hvalue, hread]

/-- A described object of a version that is migrated is read as its
settings, upgraded. -/
theorem migrateValue_object (h : Describes fields s)
    (hversion : versionOf (.object fields) = 1 ∨ versionOf (.object fields) = 2
      ∨ versionOf (.object fields) = 4) :
    migrateValue (.object fields) = .ok (upgraded s) := by
  obtain ⟨raised, hraised, hget, hshows⟩ := raiseVersion_object hversion
  have hother : ∀ key, key ∉ migratedKeys → get raised key = get fields key := by
    intro key hkey
    refine hget key ?_
    rintro rfl
    exact hkey (by decide)
  have hplugins := h.enabledPlugins.of_get (hget "enabledPlugins" (by decide))
  have htheme := h.iconTheme.of_get (hget "iconTheme" (by decide))
  simp only [migrateValue, hraised, upgradeIconTheme, bind, Except.bind]
  by_cases hlegacy : s.iconTheme = legacyCatppuccinIconTheme
  · obtain ⟨renamed, hrenamed, hsame, hplugins', htheme'⟩ := renameIconTheme_object hplugins
    have hversion' := hshows.of_get (hsame "schemaVersion" (by decide) (by decide))
    have hdescribes := h.migrated (fun key hkey => by
      have hne : key ≠ "enabledPlugins" ∧ key ≠ "iconTheme" := by
        constructor
        · rintro rfl
          exact hkey (by decide)
        · rintro rfl
          exact hkey (by decide)
      exact (hsame key hne.1 hne.2).trans (hother key hkey)) hversion' hplugins' htheme'
    rw [if_pos ((asStr_iff htheme).2 hlegacy), hrenamed]
    simp only [fromValue, decode_of_describes hdescribes, orReject, upgraded, if_pos hlegacy]
  · have hdescribes := h.migrated hother hshows hplugins htheme
    rw [if_neg (mt (asStr_iff htheme).1 hlegacy)]
    simp only [fromValue, decode_of_describes hdescribes, orReject, upgraded, if_neg hlegacy]

-- ==== panics

/-- Null and objects can be indexed with a key. -/
inductive Indexable : Value → Prop
  | null : Indexable .null
  | object (fields : Fields) : Indexable (.object fields)

theorem fromValue_ne_panicked (value : Value) : fromValue value ≠ .error .panicked := by
  cases value with
  | object fields =>
    cases hread : decode fields with
    | none | some s => simp [fromValue, hread, orReject]
  | _ => simp [fromValue]

theorem upgradeIconTheme_ok (fields : Fields) :
    ∃ fields', upgradeIconTheme (.object fields) = .ok (.object fields') := by
  unfold upgradeIconTheme renameIconTheme
  simp only [changeIndexed, bind, Except.bind]
  split
  case isTrue =>
    split <;> exact ⟨_, rfl⟩
  case isFalse => exact ⟨_, rfl⟩

theorem ne_panicked_of_raised (h : raiseVersion value = .ok (.object fields)) :
    migrateValue value ≠ .error .panicked := by
  obtain ⟨fields', hupgraded⟩ := upgradeIconTheme_ok fields
  simp only [migrateValue, h, hupgraded, bind, Except.bind]
  exact fromValue_ne_panicked _

/-- Indexing with a key is what panics. -/
theorem migrateValue_panics_iff (value : Value) :
    migrateValue value = .error .panicked ↔ ¬ Indexable value := by
  constructor
  · rintro h (_ | ⟨fields⟩)
    · exact ne_panicked_of_raised rfl h
    · cases hraised : raiseVersion (.object fields) with
      | ok value =>
        have hobject : ∃ fields', value = .object fields' := by
          unfold raiseVersion at hraised
          split at hraised
          case isTrue => exact ⟨_, (Except.ok.inj hraised).symm⟩
          case isFalse =>
            obtain ⟨-, hraised⟩ := Fallible.passed hraised nofun
            exact ⟨_, (Except.ok.inj hraised).symm⟩
        obtain ⟨fields', rfl⟩ := hobject
        exact ne_panicked_of_raised hraised h
      | error unread =>
        have hrejected : unread = .rejected := by
          unfold raiseVersion at hraised
          obtain ⟨-, hraised⟩ := Fallible.passed hraised nofun
          split at hraised
          case isTrue => exact (Except.error.inj hraised).symm
          case isFalse => cases hraised
        subst hrejected
        simp only [migrateValue, hraised, bind, Except.bind] at h
        cases h
  · intro h
    cases value with
    | null => exact absurd .null h
    | object fields => exact absurd (.object fields) h
    | _ => rfl

-- ==== files

/-- No system call of a `load` fails. -/
def LoadEnv.Smooth (env : LoadEnv) : Prop :=
  env.readFails = false ∧ env.createDirFails = none ∧ env.renameFails = none

variable {env : LoadEnv}

theorem load_of_migrate_ok (henv : env.Smooth) (hdir : dir.settings = some bytes)
    (h : migrate json bytes = .ok s) :
    load json env dir = some (.ok { settings := s, warning := none }, dir) := by
  simp only [load, hdir, readSettings, henv.1, h]
  rfl

theorem load_of_migrate_rejected (henv : env.Smooth) (hdir : dir.settings = some bytes)
    (h : migrate json bytes = .error .rejected) :
    load json env dir = some (recover env dir bytes) := by
  simp only [load, hdir, readSettings, henv.1, h]
  rfl

theorem load_of_migrate_panicked (henv : env.Smooth) (hdir : dir.settings = some bytes)
    (h : migrate json bytes = .error .panicked) : load json env dir = none := by
  simp only [load, hdir, readSettings, henv.1, h]
  rfl

theorem recover_ok (dir : Directory) (bytes : Bytes) (henv : env.Smooth) :
    ∃ outcome dir', recover env dir bytes = (.ok outcome, dir') ∧ outcome.warning ≠ none := by
  obtain ⟨-, hcreate, hrename⟩ := henv
  rw [recover, hcreate, hrename]
  exact ⟨_, _, rfl, by simp⟩

/-- A load returns unless the file has JSON that cannot be indexed. -/
theorem load_returns_iff (henv : env.Smooth) (hdir : dir.settings = some bytes) :
    (∃ outcome dir', load json env dir = some (.ok outcome, dir'))
      ↔ ∀ value, json.fromSlice bytes = some value → Indexable value := by
  cases hparse : json.fromSlice bytes with
  | none =>
    have hmigrate : migrate json bytes = .error .rejected := by rw [migrate, hparse]; rfl
    obtain ⟨outcome, dir', hrecover, -⟩ := recover_ok dir bytes henv
    rw [load_of_migrate_rejected henv hdir hmigrate, hrecover]
    simp
  | some value =>
    have hmigrate : migrate json bytes = migrateValue value := by rw [migrate, hparse]; rfl
    have hpanics := migrateValue_panics_iff value
    rw [← hmigrate] at hpanics
    have hvalue : (∀ other, some value = some other → Indexable other) ↔ Indexable value := by
      simp
    rw [hvalue]
    cases hresult : migrate json bytes with
    | ok settings =>
      rw [load_of_migrate_ok henv hdir hresult]
      rw [hresult] at hpanics
      simpa using hpanics
    | error unread =>
      cases unread with
      | rejected =>
        obtain ⟨outcome, dir', hrecover, -⟩ := recover_ok dir bytes henv
        rw [load_of_migrate_rejected henv hdir hresult, hrecover]
        rw [hresult] at hpanics
        simpa using hpanics
      | panicked =>
        rw [load_of_migrate_panicked henv hdir hresult]
        rw [hresult] at hpanics
        simpa using hpanics

/-- There is no migration from version 3. -/
theorem migrateValue_three (h : versionOf (.object fields) = 3) :
    migrateValue (.object fields) = .error .rejected := by
  have hold : ¬ (versionOf (.object fields) = 1 ∨ versionOf (.object fields) = 2) := by omega
  have hnew : versionOf (.object fields) ≠ currentSchemaVersion.toNat := by
    rw [h]
    decide
  simp only [migrateValue, raiseVersion, if_neg hold, if_pos hnew, bind, Except.bind]

/-- The version is absent, or one from 1 to the current one. -/
def KnownVersion (fields : Fields) : Prop :=
  get fields "schemaVersion" = none
    ∨ ∃ n, get fields "schemaVersion" = some (.natural n) ∧ 1 ≤ n
      ∧ n ≤ currentSchemaVersion.toNat

/-- An object of a known version is loaded whole, but for version 3. -/
theorem load_object_iff (henv : env.Smooth) (hdir : dir.settings = some bytes)
    (hparse : json.fromSlice bytes = some (.object fields)) (hknown : KnownVersion fields)
    (h : Describes fields s) :
    load json env dir = some (.ok { settings := upgraded s, warning := none }, dir)
      ↔ get fields "schemaVersion" ≠ some (.natural 3) := by
  have hmigrate : migrate json bytes = migrateValue (.object fields) := by
    rw [migrate, hparse]
    rfl
  have htaken : get fields "schemaVersion" ≠ some (.natural 3) →
      versionOf (.object fields) = 1 ∨ versionOf (.object fields) = 2
        ∨ versionOf (.object fields) = 4 := by
    intro hthree
    rcases hknown with hnone | ⟨n, hn, hlow, hhigh⟩
    · exact .inl (by simp [versionOf, Value.get, hnone])
    · have hversion : versionOf (.object fields) = n := by
        simp [versionOf, Value.get, hn, Value.asU64]
      have hne : n ≠ 3 := by
        rintro rfl
        exact hthree hn
      have hfour : n ≤ 4 := hhigh
      omega
  constructor
  · intro hload hthree
    have hversion : versionOf (.object fields) = 3 := by
      simp [versionOf, Value.get, hthree, Value.asU64]
    have hrejected := hmigrate.trans (migrateValue_three hversion)
    obtain ⟨outcome, dir', hrecover, hwarning⟩ := recover_ok dir bytes henv
    rw [load_of_migrate_rejected henv hdir hrejected, hrecover] at hload
    cases hload
    exact hwarning rfl
  · intro hthree
    exact load_of_migrate_ok henv hdir (hmigrate.trans (migrateValue_object h (htaken hthree)))

/-- `serde_json` reads back the object that it wrote, whatever the order
of its fields. -/
def ReadsBack (json : SerdeJson) (fields : Fields) : Prop :=
  ∃ fields', json.fromSlice (json.toVecPretty (.object fields)) = some (.object fields')
    ∧ ∀ key, get fields' key = get fields key

theorem upgraded_eq_iff (hversion : s.schemaVersion = currentSchemaVersion) :
    upgraded s = s ↔ s.iconTheme ≠ legacyCatppuccinIconTheme := by
  constructor
  · intro h hlegacy
    have hplugin : (upgraded s).iconTheme = catppuccinIconThemePlugin := by
      rw [upgraded, if_pos hlegacy]
    rw [h, hlegacy] at hplugin
    exact absurd hplugin (by decide)
  · intro h
    rw [upgraded, if_neg h, ← hversion]

/-- What was saved is loaded again, but for the icon theme's old name. -/
theorem load_save_iff (henv : env.Smooth)
    (hback : ReadsBack json ({ s with schemaVersion := currentSchemaVersion } : Settings).encode) :
    load json env (save json .smooth s dir).2
        = some (.ok { settings := { s with schemaVersion := currentSchemaVersion },
                      warning := none }, (save json .smooth s dir).2)
      ↔ s.iconTheme ≠ legacyCatppuccinIconTheme := by
  obtain ⟨fields', hparse, hget⟩ := hback
  have hwritten := describes_encode { s with schemaVersion := currentSchemaVersion }
  have hdescribes := hwritten.migrated (fun key _ => hget key) (hwritten.schemaVersion.of_get
    (hget _)) (hwritten.enabledPlugins.of_get (hget _)) (hwritten.iconTheme.of_get (hget _))
  have hversion : get fields' "schemaVersion"
      = some (.natural currentSchemaVersion.toNat) := hget _
  have hdir : (save json .smooth s dir).2.settings = some (savedBytes json s) := rfl
  have hload := (load_object_iff henv hdir hparse
    (.inr ⟨_, hversion, by decide, le_refl _⟩) hdescribes).2 (by
      rw [hversion]
      simp [currentSchemaVersion])
  have hsame := upgraded_eq_iff (s := { s with schemaVersion := currentSchemaVersion }) rfl
  rw [hload]
  refine Iff.trans ?_ hsame
  simp

/-- Every file that is not JSON of another kind is loaded, every object
of a known version but 3 is read as it describes, and what is saved
without the legacy icon theme comes back. -/
theorem settings_survive_iff (json : SerdeJson) {env : LoadEnv} (henv : env.Smooth) :
    (∀ (dir : Directory) (bytes : Bytes), dir.settings = some bytes →
      ((∃ outcome dir', load json env dir = some (.ok outcome, dir'))
        ↔ ∀ value, json.fromSlice bytes = some value → Indexable value))
    ∧ (∀ (dir : Directory) (bytes : Bytes) (fields : Fields) (s : Settings),
      dir.settings = some bytes → json.fromSlice bytes = some (.object fields) →
      KnownVersion fields → Describes fields s →
      (load json env dir = some (.ok { settings := upgraded s, warning := none }, dir)
        ↔ get fields "schemaVersion" ≠ some (.natural 3)))
    ∧ ∀ (dir : Directory) (s : Settings),
      ReadsBack json ({ s with schemaVersion := currentSchemaVersion } : Settings).encode →
      (load json env (save json .smooth s dir).2
          = some (.ok { settings := { s with schemaVersion := currentSchemaVersion },
                        warning := none }, (save json .smooth s dir).2)
        ↔ s.iconTheme ≠ legacyCatppuccinIconTheme) := by
  refine ⟨fun dir bytes hdir => load_returns_iff henv hdir, ?_, ?_⟩
  · intro dir bytes fields s hdir hparse hknown h
    exact load_object_iff henv hdir hparse hknown h
  · intro dir s hback
    exact load_save_iff henv hback

-- Three files: settings of version 2, of version 3, and an array.

def darkFields (version : Nat) : Fields :=
  [("schemaVersion", .natural version), ("theme", .string "dark")]

def darkText (version : Char) : List Char :=
  '\x7b' :: '"' :: ("schemaVersion\": ".toList ++ version :: ", \"theme\": \"dark\"\x7d".toList)

/-- What `save` writes of the defaults. -/
def standardText : List Char :=
  '\x7b' :: '\n' :: ("  \"schemaVersion\": 4,\n  \"theme\": \"auto\",\n".toList
    ++ "  \"language\": \"en\",\n  \"fontSize\": 13,\n  \"rowHeight\": 20,\n".toList
    ++ "  \"dateFormat\": \"medium\",\n  \"sizeFormat\": \"binary\",\n".toList
    ++ "  \"showHiddenFiles\": false,\n  \"confirmPermanentDelete\": true,\n".toList
    ++ "  \"defaultConflictPolicy\": \"ask\",\n  \"operationConcurrency\": 2,\n".toList
    ++ "  \"defaultPaneLayout\": \"dual\",\n  \"defaultColumns\": [\n".toList
    ++ "    \"core.name\",\n    \"core.size\",\n    \"core.modified\"\n  ],\n".toList
    ++ "  \"columnWidths\": \x7b\x7d,\n  \"keybindings\": \x7b\x7d,\n".toList
    ++ "  \"enabledPlugins\": [],\n  \"pluginSettings\": \x7b\x7d,\n".toList
    ++ "  \"terminalCommand\": null,\n  \"editorCommand\": null,\n".toList
    ++ "  \"defaultStartLocations\": [],\n  \"favouriteLocations\": [],\n".toList
    ++ "  \"recentLocationsByWorkspace\": \x7b\x7d,\n  \"iconTheme\": \"generic\"\n\x7d".toList)

def arrayText : List Char := ['[', ']']

/-- `serde_json` on these texts. -/
def readText (bytes : Bytes) : Option Value :=
  if bytes = utf8 (darkText '2') then some (.object (darkFields 2))
  else if bytes = utf8 (darkText '3') then some (.object (darkFields 3))
  else if bytes = utf8 arrayText then some (.array [])
  else if bytes = utf8 standardText then some (.object standard.encode)
  else none

def someJson : SerdeJson where
  fromSlice := readText
  toVecPretty _ := utf8 standardText

def calm : LoadEnv where
  readFails := false
  createDirFails := none
  renameFails := none
  unixTimestamp := 1
  directory := "fm"

def holding (text : List Char) : Directory where
  settings := some (utf8 text)
  temporary := none
  backups := []

theorem dark_described (version : Nat) (hversion : version < 2 ^ 32) :
    Describes (darkFields version)
      { standard with schemaVersion := UInt32.ofNat version, theme := .dark } where
  schemaVersion := .inr ⟨.natural version, rfl, if_pos hversion⟩
  theme := .inr ⟨.string "dark", rfl, rfl⟩
  language := .inl ⟨rfl, rfl⟩
  fontSize := .inl ⟨rfl, rfl⟩
  rowHeight := .inl ⟨rfl, rfl⟩
  dateFormat := .inl ⟨rfl, rfl⟩
  sizeFormat := .inl ⟨rfl, rfl⟩
  showHiddenFiles := .inl ⟨rfl, rfl⟩
  confirmPermanentDelete := .inl ⟨rfl, rfl⟩
  defaultConflictPolicy := .inl ⟨rfl, rfl⟩
  operationConcurrency := .inl ⟨rfl, rfl⟩
  defaultPaneLayout := .inl ⟨rfl, rfl⟩
  defaultColumns := .inl ⟨rfl, rfl⟩
  columnWidths := .inl ⟨rfl, rfl⟩
  keybindings := .inl ⟨rfl, rfl⟩
  enabledPlugins := .inl ⟨rfl, rfl⟩
  pluginSettings := .inl ⟨rfl, rfl⟩
  terminalCommand := .inl ⟨rfl, rfl⟩
  editorCommand := .inl ⟨rfl, rfl⟩
  defaultStartLocations := .inl ⟨rfl, rfl⟩
  favouriteLocations := .inl ⟨rfl, rfl⟩
  recentLocationsByWorkspace := .inl ⟨rfl, rfl⟩
  iconTheme := .inl ⟨rfl, rfl⟩

theorem readText_two : readText (utf8 (darkText '2')) = some (.object (darkFields 2)) := by
  rw [readText, if_pos rfl]

theorem readText_three : readText (utf8 (darkText '3')) = some (.object (darkFields 3)) := by
  have htwo : utf8 (darkText '3') ≠ utf8 (darkText '2') := by decide +kernel
  rw [readText, if_neg htwo, if_pos rfl]

theorem readText_array : readText (utf8 arrayText) = some (.array []) := by
  have htwo : utf8 arrayText ≠ utf8 (darkText '2') := by decide +kernel
  have hthree : utf8 arrayText ≠ utf8 (darkText '3') := by decide +kernel
  rw [readText, if_neg htwo, if_neg hthree, if_pos rfl]

theorem readText_standard : readText (utf8 standardText) = some (.object standard.encode) := by
  have htwo : utf8 standardText ≠ utf8 (darkText '2') := by decide +kernel
  have hthree : utf8 standardText ≠ utf8 (darkText '3') := by decide +kernel
  have harray : utf8 standardText ≠ utf8 arrayText := by decide +kernel
  rw [readText, if_neg htwo, if_neg hthree, if_neg harray, if_pos rfl]

theorem readsBack_standard : ReadsBack someJson standard.encode := by
  refine ⟨standard.encode, ?_, fun _ => rfl⟩
  simp only [someJson, readText_standard]

theorem second_version_survives :
    load someJson calm (holding (darkText '2'))
        = some (.ok { settings := { standard with theme := .dark }, warning := none },
          holding (darkText '2'))
      ∧ load someJson calm (save someJson .smooth standard (holding arrayText)).2
        = some (.ok { settings := standard, warning := none },
          (save someJson .smooth standard (holding arrayText)).2) := by
  have hsurvive := settings_survive_iff someJson (show calm.Smooth from ⟨rfl, rfl, rfl⟩)
  constructor
  · have hload := (hsurvive.2.1 (holding (darkText '2')) _ _ _ rfl readText_two
      (.inr ⟨2, rfl, by decide, by decide⟩) (dark_described 2 (by decide))).2 (by
        intro h
        cases h)
    exact hload
  · exact (hsurvive.2.2 (holding arrayText) standard readsBack_standard).2 (by decide)

/-- A file of version 3 is put aside and its theme is lost; an array
makes `load` panic. -/
theorem third_version_lost_and_array_panics :
    (Describes (darkFields 3) { standard with schemaVersion := 3, theme := .dark }
      ∧ KnownVersion (darkFields 3)
      ∧ ∃ warning, load someJson calm (holding (darkText '3'))
        = some (.ok { settings := standard, warning := some warning },
          { settings := none, temporary := none, backups := [(1, Text.utf8 (darkText '3'))] }))
    ∧ load someJson calm (holding arrayText) = none := by
  have hcalm : calm.Smooth := ⟨rfl, rfl, rfl⟩
  refine ⟨⟨dark_described 3 (by decide), .inr ⟨3, rfl, by decide, by decide⟩, ?_⟩, ?_⟩
  · have hrejected : migrate someJson (Text.utf8 (darkText '3')) = .error .rejected := by
      simp only [migrate, someJson, readText_three]
      rfl
    exact ⟨_, load_of_migrate_rejected hcalm rfl hrejected⟩
  · have hpanicked : migrate someJson (Text.utf8 arrayText) = .error .panicked := by
      simp only [migrate, someJson, readText_array]
      rfl
    exact load_of_migrate_panicked hcalm rfl hpanicked

end FileManager.Settings
