/-
The calls that change the settings (`fm-application`:
`ApplicationService::update_settings`, `PluginManager::set_plugin_enabled`),
any number of them at the same time.

They share the settings in memory behind a lock, the settings file, and
the name of the temporary file that `SettingsStore::save` goes through,
which is the same for the whole process. One step is one system call, or
what is done between taking the lock and giving it back or saving.
-/
import FileManager.Settings.Store
import FileManager.Lib.Machine

namespace FileManager.Settings

open Function (update)

variable {ι : Type}

-- ==== disk

/-- The files of the directory, by number, and what the two names refer
to. -/
structure Disk where
  contents : Nat → Bytes
  fresh : Nat
  temporary : Option Nat
  settings : Option Nat

namespace Disk

variable {disk : Disk}

/-- The bytes of the settings file. -/
def file (disk : Disk) : Option Bytes := disk.settings.map disk.contents

/-- `File::create` of the temporary: an existing one is truncated. -/
def create (disk : Disk) : Nat × Disk :=
  match disk.temporary with
  | some n => (n, { disk with contents := update disk.contents n [] })
  | none =>
    (disk.fresh,
      { disk with contents := update disk.contents disk.fresh []
                  fresh := disk.fresh + 1
                  temporary := some disk.fresh })

theorem create_of_some {n : Nat} (h : disk.temporary = some n) :
    disk.create = (n, { disk with contents := update disk.contents n [] }) := by
  simp only [create, h]

theorem create_of_none (h : disk.temporary = none) :
    disk.create = (disk.fresh,
      { disk with contents := update disk.contents disk.fresh []
                  fresh := disk.fresh + 1
                  temporary := some disk.fresh }) := by
  simp only [create, h]

/-- Bytes with others over them from an offset on; a gap is filled with
zeros. -/
def overwrite (content : Bytes) (offset : Nat) (data : Bytes) : Bytes :=
  (content ++ List.replicate (offset - content.length) 0).take offset ++ data
    ++ content.drop (offset + data.length)

def write (disk : Disk) (n offset : Nat) (data : Bytes) : Disk :=
  { disk with
    contents := update disk.contents n (overwrite (disk.contents n) offset data) }

/-- `rename` of the temporary to the settings file. -/
def rename (disk : Disk) : Option Disk :=
  match disk.temporary with
  | some n => some { disk with settings := some n, temporary := none }
  | none => none

end Disk

-- ==== calls

inductive Call
  /-- The settings are those of `settings_from_dto`. -/
  | updateSettings (settings : Settings)
  | setPluginEnabled (pluginId : String) (enabled : Bool)

/-- What a call does to the settings in memory. -/
def Call.apply : Call → Settings → Settings
  | .updateSettings settings, _ => settings
  | .setPluginEnabled pluginId enabled, s =>
    let others := s.enabledPlugins.filter (· ≠ pluginId)
    { s with enabledPlugins :=
        if enabled then (others ++ [pluginId]).mergeSort (· ≤ ·) else others }

def Call.reenables : Call → Option String
  | .setPluginEnabled pluginId true => some pluginId
  | _ => none

/-- `ApplicationError`, as far as the calls raise it. -/
inductive CallError
  | internal
  | notFound
deriving DecidableEq

/-- How far a call has come. -/
inductive Phase
  | called
  /-- The plugin is there; the lock is next. -/
  | discovered
  /-- The lock is held and the settings in memory are changed. -/
  | changed
  /-- The temporary is open, and so much of it written. -/
  | created (file offset : Nat)
  | written (file : Nat)
  | synced
  /-- The settings file is replaced. -/
  | saved
  | returned (result : Except CallError Unit)
deriving DecidableEq

/-- The steps of a call. -/
inductive Act
  | discover (found : Bool)
  | lock
  | create (fails : Bool)
  /-- So many more bytes, all that are left at most. -/
  | write (count : Nat) (fails : Bool)
  | sync (fails : Bool)
  | rename (fails : Bool)
  | assign
  | publish
deriving DecidableEq

structure Action (ι : Type) where
  call : ι
  act : Act

structure Shared (ι : Type) where
  memory : Settings
  holder : Option ι
  disk : Disk
  /-- `PluginRuntime`: the plugins that it has disabled. -/
  disabled : List String
  events : List (String × Bool)
  phases : ι → Phase

/-- Before the first call. -/
def Shared.initial (memory : Settings) (disk : Disk) (disabled : List String) : Shared ι where
  memory := memory
  holder := none
  disk := disk
  disabled := disabled
  events := []
  phases _ := .called

/-- The settings that a call saves. -/
def Shared.saving (s : Shared ι) : Call → Settings
  | .updateSettings settings => settings
  | .setPluginEnabled _ _ => s.memory

section Steps

variable (json : SerdeJson) (calls : ι → Call)

/-- The bytes that a call writes. -/
def Shared.bytes (s : Shared ι) (i : ι) : Bytes := savedBytes json (s.saving (calls i))

/-- The next of them, so many at most. -/
def Shared.chunk (s : Shared ι) (i : ι) (offset count : Nat) : Bytes :=
  ((s.bytes json calls i).drop offset).take count

/-- How far the call is once so many of them are written. -/
def Shared.afterWrite (s : Shared ι) (i : ι) (file offset : Nat) : Phase :=
  if offset < (s.bytes json calls i).length then .created file offset else .written file

variable [DecidableEq ι]

def Shared.enter (s : Shared ι) (i : ι) (phase : Phase) : Shared ι :=
  { s with phases := update s.phases i phase }

/-- The call returns; a lock it has goes with it. -/
def Shared.return (s : Shared ι) (i : ι) (result : Except CallError Unit) : Shared ι :=
  { s with holder := if s.holder = some i then none else s.holder }.enter i (.returned result)

/-- The system calls of `save`. -/
def saveStep (i : ι) (s : Shared ι) : Act → Phase → Option (Shared ι)
  | .create false, .called | .create false, .changed =>
    some ({ s with disk := s.disk.create.2 }.enter i (.created s.disk.create.1 0))
  | .write count false, .created file offset =>
    let data := s.chunk json calls i offset count
    some ({ s with disk := s.disk.write file offset data }.enter i
      (s.afterWrite json calls i file (offset + data.length)))
  | .sync false, .written _ => some (s.enter i .synced)
  | .rename false, .synced =>
    match s.disk.rename with
    | some disk => some ({ s with disk := disk }.enter i .saved)
    | none => some (s.return i (.error .internal))
  | .create true, .called | .create true, .changed | .write _ true, .created _ _
  | .sync true, .written _ | .rename true, .synced => some (s.return i (.error .internal))
  | _, _ => none

/-- One step of `update_settings`. -/
def updateSettings (i : ι) (settings : Settings) (s : Shared ι) (act : Act) : Option (Shared ι) :=
  match act, s.phases i with
  | .assign, .saved =>
    if s.holder = none then some ({ s with memory := settings }.return i (.ok ())) else none
  | act, phase => saveStep json calls i s act phase

/-- One step of `set_plugin_enabled`. -/
def setPluginEnabled (i : ι) (pluginId : String) (enabled : Bool) (s : Shared ι) (act : Act) :
    Option (Shared ι) :=
  match act, s.phases i with
  | .discover false, .called => some (s.return i (.error .notFound))
  | .discover true, .called => some (s.enter i .discovered)
  | .lock, .discovered =>
    if s.holder = none then
      some ({ s with memory := (calls i).apply s.memory
                     holder := some i
                     disabled := if enabled then s.disabled.filter (· ≠ pluginId)
                                 else s.disabled }.enter i .changed)
    else none
  | .publish, .saved =>
    some ({ s with events := s.events ++ [(pluginId, enabled)] }.return i (.ok ()))
  | _, .called => none
  | act, phase => saveStep json calls i s act phase

def shareStep (a : Action ι) (s : Shared ι) : Option (Shared ι) :=
  match calls a.call with
  | .updateSettings settings => updateSettings json calls a.call settings s a.act
  | .setPluginEnabled pluginId enabled =>
    setPluginEnabled json calls a.call pluginId enabled s a.act

end Steps

end FileManager.Settings
