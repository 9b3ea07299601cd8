/-
What is relied on of the other crates can be met (`plainJson_lawful`): a
file is its JSON value, with the fields that `serde` derives for the
records of `workspace.rs`, and with numbers for identifiers and dates.
A layout is read as far down as the limit goes.
-/
import FileManager.Workspaces.Proofs.Valid

namespace FileManager.Workspaces

open Option Workspace Value Nat List

-- ==== codecs

/-- A way to write values of a type that reads them back. -/
structure Codec (α : Type) where
  write : α → Value
  read : Value → Option α
  reads_back : ∀ a, read (write a) = some a

attribute [simp] Codec.reads_back

def Value.field {α : Type} (value : Value) (key : String) (read : Value → Option α) : Option α :=
  (value.get key).bind read

variable {α : Type}

@[simp] theorem field_head (key : String) (value : Value) (rest : Fields)
    (read : Value → Option α) :
    (object ((key, value) :: rest)).field key read = read value := by
  show (((((key, value) :: rest).find? fun pair => pair.1 = key).map Prod.snd).bind read)
    = read value
  rw [find?_cons_of_pos (by simp)]
  rfl

@[simp] theorem field_tail {key other : String} (h : key ≠ other)
    (value : Value) (rest : Fields) (read : Value → Option α) :
    (object ((key, value) :: rest)).field other read
      = (object rest).field other read := by
  show (((((key, value) :: rest).find? fun pair => pair.1 = other).map Prod.snd).bind read) = _
  rw [find?_cons_of_neg (by simpa using h)]
  rfl

def natCodec : Codec Nat where
  write := .natural
  read := asU64
  reads_back := fun _ => rfl

theorem asStr_string (value : String) : asStr (.string value) = some value := rfl

def stringCodec : Codec String where
  write := .string
  read := asStr
  reads_back := asStr_string

def boolCodec : Codec Bool where
  write := .bool
  read := fun
    | .bool value => some value
    | _ => none
  reads_back value := by cases value <;> rfl

/-- An `Option<String>`. -/
def nullableCodec : Codec (Option String) where
  write := fun
    | some text => .string text
    | none => .null
  read := fun
    | .string text => some (some text)
    | .null => some none
    | _ => none
  reads_back := fun value => by cases value <;> rfl

/-- A variant without fields, under its name. -/
def variantCodec {α : Type} (name : α → String) (all : List α)
    (h : ∀ a, all.find? (fun b => name b = name a) = some a) : Codec α where
  write := fun a => .string (name a)
  read := fun value => value.asStr.bind fun text => all.find? fun b => name b = text
  reads_back := h

theorem mapM_reads_back (codec : Codec α) (l : List α) :
    (l.map codec.write).mapM codec.read = some l := by
  induction l with
  | nil => rfl
  | cons a rest ih =>
    rw [map_cons, mapM_cons, codec.reads_back, ih]
    rfl

def listCodec {α : Type} (codec : Codec α) : Codec (List α) where
  write := fun l => .array (l.map codec.write)
  read := fun value => value.asArray.bind fun items => items.mapM codec.read
  reads_back := mapM_reads_back codec

-- ==== records

def locationCodec : Codec TabLocation where
  write := fun location => .object
    [("provider_id", stringCodec.write location.providerId),
      ("uri", stringCodec.write location.uri)]
  read := fun value => do
    let providerId ← value.field "provider_id" stringCodec.read
    let uri ← value.field "uri" stringCodec.read
    return { providerId := providerId, uri := uri }
  reads_back := fun location => by simp

def directionCodec : Codec SortDirection :=
  variantCodec (fun | .ascending => "Ascending" | .descending => "Descending")
    [.ascending, .descending] (by intro a; cases a <;> rfl)

def sortCodec : Codec SortDescriptor where
  write := fun sort => .object
    [("column_id", stringCodec.write sort.columnId),
      ("direction", directionCodec.write sort.direction)]
  read := fun value => do
    let columnId ← value.field "column_id" stringCodec.read
    let direction ← value.field "direction" directionCodec.read
    return { columnId := columnId, direction := direction }
  reads_back := fun sort => by simp

def columnCodec : Codec ColumnConfiguration where
  write := fun column => .object
    [("column_id", stringCodec.write column.columnId), ("width", natCodec.write column.width),
      ("visible", boolCodec.write column.visible)]
  read := fun value => do
    let columnId ← value.field "column_id" stringCodec.read
    let width ← value.field "width" natCodec.read
    let visible ← value.field "visible" boolCodec.read
    return { columnId := columnId, width := width, visible := visible }
  reads_back := fun column => by simp

def viewModeCodec : Codec DirectoryViewMode :=
  variantCodec (fun | .table => "Table" | .grid => "Grid") [.table, .grid]
    (by intro a; cases a <;> rfl)

def iconSizeCodec : Codec IconSize :=
  variantCodec (fun | .small => "Small" | .medium => "Medium" | .large => "Large")
    [.small, .medium, .large] (by intro a; cases a <;> rfl)

def viewCodec : Codec DirectoryViewConfiguration where
  write := fun view => .object
    [("sort", (listCodec sortCodec).write view.sort),
      ("columns", (listCodec columnCodec).write view.columns),
      ("show_hidden", boolCodec.write view.showHidden),
      ("folders_first", boolCodec.write view.foldersFirst),
      ("quick_filter", nullableCodec.write view.quickFilter),
      ("view_mode", viewModeCodec.write view.viewMode),
      ("icon_size", iconSizeCodec.write view.iconSize)]
  read := fun value => do
    let sort ← value.field "sort" (listCodec sortCodec).read
    let columns ← value.field "columns" (listCodec columnCodec).read
    let showHidden ← value.field "show_hidden" boolCodec.read
    let foldersFirst ← value.field "folders_first" boolCodec.read
    let quickFilter ← value.field "quick_filter" nullableCodec.read
    let viewMode ← value.field "view_mode" viewModeCodec.read
    let iconSize ← value.field "icon_size" iconSizeCodec.read
    return { sort := sort, columns := columns, showHidden := showHidden,
             foldersFirst := foldersFirst, quickFilter := quickFilter,
             viewMode := viewMode, iconSize := iconSize }
  reads_back := fun view => by simp

def historyCodec : Codec NavigationHistory where
  write := fun history => .object
    [("back", (listCodec locationCodec).write history.back),
      ("forward", (listCodec locationCodec).write history.forward)]
  read := fun value => do
    let back ← value.field "back" (listCodec locationCodec).read
    let forward ← value.field "forward" (listCodec locationCodec).read
    return { back := back, forward := forward }
  reads_back := fun history => by simp

def tabCodec : Codec TabState where
  write := fun tab => .object
    [("id", natCodec.write tab.id), ("location", locationCodec.write tab.location),
      ("title_override", nullableCodec.write tab.titleOverride),
      ("history", historyCodec.write tab.history), ("view", viewCodec.write tab.view),
      ("pinned", boolCodec.write tab.pinned)]
  read := fun value => do
    let id ← value.field "id" natCodec.read
    let location ← value.field "location" locationCodec.read
    let titleOverride ← value.field "title_override" nullableCodec.read
    let history ← value.field "history" historyCodec.read
    let view ← value.field "view" viewCodec.read
    let pinned ← value.field "pinned" boolCodec.read
    return { id := id, location := location, titleOverride := titleOverride,
             history := history, view := view, pinned := pinned }
  reads_back := fun tab => by simp

def paneCodec : Codec PaneState where
  write := fun pane => .object
    [("id", natCodec.write pane.id), ("title", nullableCodec.write pane.title),
      ("tabs", (listCodec tabCodec).write pane.tabs),
      ("active_tab_id", natCodec.write pane.activeTabId),
      ("default_view", viewCodec.write pane.defaultView)]
  read := fun value => do
    let id ← value.field "id" natCodec.read
    let title ← value.field "title" nullableCodec.read
    let tabs ← value.field "tabs" (listCodec tabCodec).read
    let activeTabId ← value.field "active_tab_id" natCodec.read
    let defaultView ← value.field "default_view" viewCodec.read
    return { id := id, title := title, tabs := tabs, activeTabId := activeTabId,
             defaultView := defaultView }
  reads_back := fun pane => by simp

def operationCentreCodec : Codec OperationCentrePreferences where
  write := fun preferences => .object
    [("visible", boolCodec.write preferences.visible),
      ("height", natCodec.write preferences.height)]
  read := fun value => do
    let visible ← value.field "visible" boolCodec.read
    let height ← value.field "height" natCodec.read
    return { visible := visible, height := height }
  reads_back := fun preferences => by simp

-- ==== layouts

def axisCodec : Codec SplitAxis :=
  variantCodec (fun | .horizontal => "horizontal" | .vertical => "vertical")
    [.horizontal, .vertical] (by intro a; cases a <;> rfl)

/-- A ratio that is no finite number is written as null. -/
def SplitRatio.write : SplitRatio → Value
  | .finite value => .number value
  | .notFinite => .null

def SplitRatio.read : Value → Option SplitRatio
  | .number value => some (.finite value)
  | _ => none

def WorkspaceLayout.write : WorkspaceLayout → Value
  | .pane paneId => .object
      [("type", stringCodec.write "pane"), ("paneId", natCodec.write paneId)]
  | .split axis ratio first second => .object
      [("type", stringCodec.write "split"), ("axis", axisCodec.write axis),
        ("ratio", ratio.write), ("first", first.write), ("second", second.write)]

/-- So many levels of a layout are read. -/
def WorkspaceLayout.read : Nat → Value → Option WorkspaceLayout
  | 0, _ => none
  | levels + 1, value => do
    let variant ← value.field "type" stringCodec.read
    if variant = "pane" then
      let paneId ← value.field "paneId" natCodec.read
      return .pane paneId
    else
      let axis ← value.field "axis" axisCodec.read
      let ratio ← value.field "ratio" SplitRatio.read
      let first ← value.field "first" (WorkspaceLayout.read levels)
      let second ← value.field "second" (WorkspaceLayout.read levels)
      return .split axis ratio first second

variable {layout : WorkspaceLayout}

theorem WorkspaceLayout.read_write {levels : Nat} (hvalid : layout.errors = [])
    (h : layout.depth ≤ levels) : WorkspaceLayout.read levels layout.write = some layout := by
  induction layout generalizing levels with
  | pane paneId =>
    cases levels with
    | zero => cases h
    | succ levels => simp [WorkspaceLayout.read, WorkspaceLayout.write]
  | split axis ratio first second ih₁ ih₂ =>
    cases levels with
    | zero => cases h
    | succ levels =>
      simp only [WorkspaceLayout.errors, append_eq_nil_iff] at hvalid
      obtain ⟨⟨hratio, hfirst⟩, hsecond⟩ := hvalid
      have hdepth : max first.depth second.depth ≤ levels := le_of_succ_le_succ h
      have hread : SplitRatio.read ratio.write = some ratio := by
        cases ratio with
        | finite value => rfl
        | notFinite => simp [SplitRatio.inRange] at hratio
      simp [WorkspaceLayout.read, WorkspaceLayout.write, hread,
        ih₁ hfirst (le_trans (le_max_left _ _) hdepth),
        ih₂ hsecond (le_trans (le_max_right _ _) hdepth)]

theorem WorkspaceLayout.depth_of_read {levels : Nat} {value : Value}
    (h : WorkspaceLayout.read levels value = some layout) : layout.depth ≤ levels := by
  induction levels generalizing layout value with
  | zero => cases h
  | succ levels ih =>
    unfold WorkspaceLayout.read at h
    obtain ⟨variant, -, h⟩ := bind_eq_some_iff.mp h
    split at h
    case isTrue =>
      obtain ⟨paneId, -, h⟩ := bind_eq_some_iff.mp h
      cases h
      simp [WorkspaceLayout.depth]
    case isFalse =>
      obtain ⟨axis, -, h⟩ := bind_eq_some_iff.mp h
      obtain ⟨ratio, -, h⟩ := bind_eq_some_iff.mp h
      obtain ⟨first, hfirst, h⟩ := bind_eq_some_iff.mp h
      obtain ⟨second, hsecond, h⟩ := bind_eq_some_iff.mp h
      cases h
      obtain ⟨v₁, -, hfirst⟩ := bind_eq_some_iff.mp hfirst
      obtain ⟨v₂, -, hsecond⟩ := bind_eq_some_iff.mp hsecond
      have h₁ := ih hfirst
      have h₂ := ih hsecond
      exact succ_le_succ (Nat.max_le.mpr ⟨h₁, h₂⟩)

-- ==== workspaces

def Workspace.write (workspace : Workspace) : Value := .object
  [("schema_version", natCodec.write workspace.schemaVersion),
    ("id", natCodec.write workspace.id), ("name", stringCodec.write workspace.name),
    ("layout", workspace.layout.write),
    ("panes", (listCodec paneCodec).write workspace.panes),
    ("active_pane_id", natCodec.write workspace.activePaneId),
    ("operation_centre", operationCentreCodec.write workspace.operationCentre),
    ("created_at", natCodec.write workspace.createdAt),
    ("updated_at", natCodec.write workspace.updatedAt),
    ("revision", natCodec.write workspace.revision)]

def Workspace.read (levels : Nat) (value : Value) : Option Workspace := do
  let schemaVersion ← value.field "schema_version" natCodec.read
  let layout ← value.field "layout" (WorkspaceLayout.read levels)
  let id ← value.field "id" natCodec.read
  let name ← value.field "name" stringCodec.read
  let panes ← value.field "panes" (listCodec paneCodec).read
  let activePaneId ← value.field "active_pane_id" natCodec.read
  let operationCentre ← value.field "operation_centre" operationCentreCodec.read
  let createdAt ← value.field "created_at" natCodec.read
  let updatedAt ← value.field "updated_at" natCodec.read
  let revision ← value.field "revision" natCodec.read
  return { schemaVersion := schemaVersion, id := id, name := name, layout := layout,
           panes := panes, activePaneId := activePaneId,
           operationCentre := operationCentre, createdAt := createdAt,
           updatedAt := updatedAt, revision := revision }

variable {workspace : Workspace}

theorem Workspace.fields_of_read {levels : Nat} {value : Value}
    (h : read levels value = some workspace) :
    value.field "schema_version" natCodec.read = some workspace.schemaVersion
      ∧ value.field "layout" (WorkspaceLayout.read levels) = some workspace.layout := by
  obtain ⟨schemaVersion, hversion, h⟩ := bind_eq_some_iff.mp h
  obtain ⟨layout, hlayout, h⟩ := bind_eq_some_iff.mp h
  obtain ⟨id, -, h⟩ := bind_eq_some_iff.mp h
  obtain ⟨name, -, h⟩ := bind_eq_some_iff.mp h
  obtain ⟨panes, -, h⟩ := bind_eq_some_iff.mp h
  obtain ⟨activePaneId, -, h⟩ := bind_eq_some_iff.mp h
  obtain ⟨operationCentre, -, h⟩ := bind_eq_some_iff.mp h
  obtain ⟨createdAt, -, h⟩ := bind_eq_some_iff.mp h
  obtain ⟨updatedAt, -, h⟩ := bind_eq_some_iff.mp h
  obtain ⟨revision, -, h⟩ := bind_eq_some_iff.mp h
  cases h
  exact ⟨hversion, hlayout⟩

theorem Workspace.read_write {levels : Nat}
    (hvalid : workspace.layout.errors = []) (h : workspace.layout.depth ≤ levels) :
    read levels workspace.write = some workspace := by
  simp [read, Workspace.write, WorkspaceLayout.read_write hvalid h]

/-- Files that are their values. -/
def plainJson : Json where
  Bytes := Value
  fromSlice := some
  toVec := Workspace.write
  fromValue := read 126
  toRfc3339 := Nat.repr
  isUuid := fun _ => false
  layoutLimit := 126

theorem plainJson_versioned : plainJson.Versioned := by
  intro value workspace h
  have hversion := (fields_of_read h).1
  unfold Value.schemaVersion
  show _ = (value.field "schema_version" natCodec.read).getD 0
  rw [hversion]
  rfl

theorem plainJson_readsBack (hvalid : workspace.layout.errors = [])
    (hdepth : workspace.layout.depth ≤ 126) : plainJson.ReadsBack workspace := by
  intro createdAt updatedAt revision _ written
  exact ⟨written.write, rfl, @read_write written 126 hvalid hdepth⟩

theorem plainJson_lawful : plainJson.Lawful where
  version := plainJson_versioned
  depth := fun now bytes workspace h => by
    obtain ⟨value, -, h⟩ := Fallible.bind_eq_ok.mp h
    obtain ⟨migrated, -, h⟩ := Fallible.bind_eq_ok.mp h
    have hread : read 126 migrated = some workspace := by
      unfold orReject at h
      split at h
      · cases h
        assumption
      · cases h
    obtain ⟨layout, -, hlayout⟩ := bind_eq_some_iff.mp (fields_of_read hread).2
    exact WorkspaceLayout.depth_of_read hlayout
  reads_back := fun workspace hvalid hdepth =>
    plainJson_readsBack (validate_eq_ok.mp hvalid).layout.ratios hdepth

end FileManager.Workspaces
