/-
Workspaces (`fm-domain`, `workspace.rs` and `workspace_command.rs`): the
persisted record, its structural validation, and the commands that
mutate it (`fm-application`, `workspace/command.rs`).

Identifiers are numbers; the identifier `TabId::new()` draws is an
argument (`fresh`). A tab's location is opaque text here, as it is
stored: commands copy it and validation looks for the empty one. A split
ratio is an `f32`: a rational number, or no finite number.
-/
import Mathlib.Algebra.Ring.Nat
import Mathlib.Data.List.Basic

namespace FileManager.Workspaces

abbrev WorkspaceId := Nat
abbrev PaneId := Nat
abbrev TabId := Nat

-- ==== records

/-- A `Location` as a workspace stores it. -/
structure TabLocation where
  providerId : String
  uri : String
deriving DecidableEq

inductive SortDirection
  | ascending
  | descending
deriving DecidableEq

structure SortDescriptor where
  columnId : String
  direction : SortDirection
deriving DecidableEq

structure ColumnConfiguration where
  columnId : String
  width : Nat
  visible : Bool
deriving DecidableEq

inductive DirectoryViewMode
  | table
  | grid
deriving DecidableEq

inductive IconSize
  | small
  | medium
  | large
deriving DecidableEq

/-- `DirectoryViewConfiguration`; a `PersistedFilter` is its query. -/
structure DirectoryViewConfiguration where
  sort : List SortDescriptor
  columns : List ColumnConfiguration
  showHidden : Bool
  foldersFirst : Bool
  quickFilter : Option String
  viewMode : DirectoryViewMode
  iconSize : IconSize
deriving DecidableEq

/-- `NavigationHistory`, each stack with its oldest entry first. -/
structure NavigationHistory where
  back : List TabLocation
  forward : List TabLocation
deriving DecidableEq

structure TabState where
  id : TabId
  location : TabLocation
  titleOverride : Option String
  history : NavigationHistory
  view : DirectoryViewConfiguration
  pinned : Bool
deriving DecidableEq

structure PaneState where
  id : PaneId
  title : Option String
  tabs : List TabState
  activeTabId : TabId
  defaultView : DirectoryViewConfiguration
deriving DecidableEq

inductive SplitAxis
  | horizontal
  | vertical
deriving DecidableEq

/-- A split ratio, an `f32`. -/
inductive SplitRatio
  | finite (value : Rat)
  | notFinite
deriving DecidableEq

inductive WorkspaceLayout
  | pane (paneId : PaneId)
  | split (axis : SplitAxis) (ratio : SplitRatio) (first second : WorkspaceLayout)
deriving DecidableEq

structure OperationCentrePreferences where
  visible : Bool
  height : Nat
deriving DecidableEq

structure Workspace where
  schemaVersion : Nat
  id : WorkspaceId
  name : String
  layout : WorkspaceLayout
  panes : List PaneState
  activePaneId : PaneId
  operationCentre : OperationCentrePreferences
  createdAt : Nat
  updatedAt : Nat
  revision : Nat
deriving DecidableEq

-- ==== validation

/-- `WorkspaceValidationError`. -/
inductive ValidationError
  | duplicatePaneId (paneId : PaneId)
  | duplicateTabId (paneId : PaneId) (tabId : TabId)
  | noPanes
  | emptyPane (paneId : PaneId)
  | activePaneNotFound (paneId : PaneId)
  | activeTabNotFound (paneId : PaneId) (tabId : TabId)
  | layoutReferencesUnknownPane (paneId : PaneId)
  | paneMissingFromLayout (paneId : PaneId)
  | paneDuplicatedInLayout (paneId : PaneId)
  | invalidSplitRatio (ratio : SplitRatio)
  | invalidLocation (tabId : TabId)
  | navigationHistoryExceedsBound (tabId : TabId) (len : Nat)
  | duplicateColumnId (paneId : PaneId) (tabId : Option TabId) (columnId : String)
  | unsupportedSchemaVersion (schemaVersion : Nat)
deriving DecidableEq

/-- `CURRENT_WORKSPACE_SCHEMA_VERSION`. -/
def currentSchemaVersion : Nat := 3

def maxNavigationHistoryLen : Nat := 100

/-- `SPLIT_RATIO_RANGE` (`0.1..=0.9`, as `f32` rounds the bounds)
contains the ratio. -/
def SplitRatio.inRange : SplitRatio → Bool
  | .finite value =>
    decide (mkRat 13421773 134217728 ≤ value ∧ value ≤ mkRat 15099494 16777216)
  | .notFinite => false

/-- `push_duplicate_column_errors`. -/
def duplicateColumnErrors (paneId : PaneId) (tabId : Option TabId) :
    List String → List ColumnConfiguration → List ValidationError
  | _, [] => []
  | seen, column :: rest =>
    (if column.columnId ∈ seen then [.duplicateColumnId paneId tabId column.columnId] else [])
      ++ duplicateColumnErrors paneId tabId (column.columnId :: seen) rest

/-- The checks of one tab, apart from its identifier. -/
def tabErrors (paneId : PaneId) (tab : TabState) : List ValidationError :=
  let historyLen := tab.history.back.length + tab.history.forward.length
  (if tab.location.providerId = "" ∨ tab.location.uri = ""
    then [.invalidLocation tab.id] else [])
    ++ (if historyLen > maxNavigationHistoryLen
      then [.navigationHistoryExceedsBound tab.id historyLen] else [])
    ++ duplicateColumnErrors paneId (some tab.id) [] tab.view.columns

/-- The loop over a pane's tabs. -/
def tabsErrors (paneId : PaneId) :
    List TabId → List TabState → List ValidationError
  | _, [] => []
  | seen, tab :: rest =>
    (if tab.id ∈ seen then [.duplicateTabId paneId tab.id] else [])
      ++ tabErrors paneId tab ++ tabsErrors paneId (tab.id :: seen) rest

/-- The loop over the panes. -/
def panesErrors : List PaneId → List PaneState → List ValidationError
  | _, [] => []
  | seen, pane :: rest =>
    (if pane.id ∈ seen then [.duplicatePaneId pane.id] else [])
      ++ (if pane.tabs = [] then [.emptyPane pane.id] else [])
      ++ tabsErrors pane.id [] pane.tabs
      ++ (if pane.tabs.any (fun tab => tab.id = pane.activeTabId) then []
        else [.activeTabNotFound pane.id pane.activeTabId])
      ++ duplicateColumnErrors pane.id none [] pane.defaultView.columns
      ++ panesErrors (pane.id :: seen) rest

/-- `collect_layout_pane_ids`, the panes. -/
def WorkspaceLayout.paneIds : WorkspaceLayout → List PaneId
  | .pane paneId => [paneId]
  | .split _ _ first second => first.paneIds ++ second.paneIds

/-- `collect_layout_pane_ids`, the errors. -/
def WorkspaceLayout.errors : WorkspaceLayout → List ValidationError
  | .pane _ => []
  | .split _ ratio first second =>
    (if ratio.inRange then [] else [.invalidSplitRatio ratio]) ++ first.errors ++ second.errors

/-- A pane appears exactly once in the layout. -/
def placementErrors (layoutPaneIds : List PaneId) (pane : PaneState) : List ValidationError :=
  match layoutPaneIds.count pane.id with
  | 0 => [.paneMissingFromLayout pane.id]
  | 1 => []
  | _ => [.paneDuplicatedInLayout pane.id]

/-- The layout's panes that do not exist, each reported once. -/
def unknownPaneErrors (panes : List PaneState) :
    List PaneId → List PaneId → List ValidationError
  | _, [] => []
  | reported, paneId :: rest =>
    if panes.any (fun pane => pane.id = paneId) ∨ paneId ∈ reported then
      unknownPaneErrors panes reported rest
    else .layoutReferencesUnknownPane paneId :: unknownPaneErrors panes (paneId :: reported) rest

/-- `Workspace::validate`: the errors, none for a valid workspace. -/
def Workspace.validationErrors (workspace : Workspace) : List ValidationError :=
  (if workspace.schemaVersion > currentSchemaVersion
    then [.unsupportedSchemaVersion workspace.schemaVersion] else [])
    ++ (if workspace.panes = [] then [.noPanes] else [])
    ++ panesErrors [] workspace.panes
    ++ (if workspace.panes.any (fun pane => pane.id = workspace.activePaneId)
      then [] else [.activePaneNotFound workspace.activePaneId])
    ++ workspace.layout.errors
    ++ workspace.panes.flatMap (placementErrors workspace.layout.paneIds)
    ++ unknownPaneErrors workspace.panes [] workspace.layout.paneIds

-- ==== errors

/-- `WorkspaceError`; the backup of a corrupt file is left out. -/
inductive WorkspaceError
  | notFound (id : WorkspaceId)
  | revisionConflict (id : WorkspaceId) (expected : Option Nat) (actual : Nat)
  | invalid (errors : List ValidationError)
  | corrupt (id : WorkspaceId)
  | io (message : String)
  | paneNotFound (workspaceId : WorkspaceId) (paneId : PaneId)
  | tabNotFound (workspaceId : WorkspaceId) (paneId : PaneId) (tabId : TabId)
  | invalidCommand (message : String)
  | duplicateName (name : String)
deriving DecidableEq

/-- `Workspace::validate` as the service calls it. -/
def Workspace.validate (workspace : Workspace) : Except WorkspaceError Unit :=
  if workspace.validationErrors = [] then .ok ()
  else .error (.invalid workspace.validationErrors)

-- ==== commands

inductive NavigationMode
  | push
  | back
  | forward
  | refresh

inductive QuickFilterPatch
  | clear
  | set (query : String)

structure DirectoryViewPatch where
  sort : Option (List SortDescriptor) := none
  columns : Option (List ColumnConfiguration) := none
  showHidden : Option Bool := none
  foldersFirst : Option Bool := none
  quickFilter : Option QuickFilterPatch := none
  viewMode : Option DirectoryViewMode := none
  iconSize : Option IconSize := none

/-- What a `WorkspaceCommand` asks for. -/
inductive Mutation
  | renameWorkspace (name : String)
  | setActivePane (paneId : PaneId)
  | addTab (paneId : PaneId) (location : TabLocation)
  | closeTab (paneId : PaneId) (tabId : TabId)
  | activateTab (paneId : PaneId) (tabId : TabId)
  | navigateTab (paneId : PaneId) (tabId : TabId)
      (location : Option TabLocation) (mode : NavigationMode)
  | updateView (paneId : PaneId) (tabId : TabId) (patch : DirectoryViewPatch)
  | updateLayout (layout : WorkspaceLayout)

/-- `WorkspaceCommand`: every variant carries the workspace and the
revision the caller last observed. -/
structure WorkspaceCommand where
  workspaceId : WorkspaceId
  expectedRevision : Nat
  mutation : Mutation

-- ==== finding and changing

def findPane (workspace : Workspace) (paneId : PaneId) : Except WorkspaceError PaneState :=
  match workspace.panes.find? (fun pane => pane.id = paneId) with
  | some pane => .ok pane
  | none => .error (.paneNotFound workspace.id paneId)

def findTab (pane : PaneState) (workspaceId : WorkspaceId) (tabId : TabId) :
    Except WorkspaceError TabState :=
  match pane.tabs.find? (fun tab => tab.id = tabId) with
  | some tab => .ok tab
  | none => .error (.tabNotFound workspaceId pane.id tabId)

/-- Change the first element that `p` selects, or fail with `missing`. -/
def modifyFirst {α : Type} (p : α → Bool) (missing : WorkspaceError)
    (change : α → Except WorkspaceError α) : List α → Except WorkspaceError (List α)
  | [] => .error missing
  | x :: rest =>
    if p x then
      match change x with
      | .ok x' => .ok (x' :: rest)
      | .error error => .error error
    else
      match modifyFirst p missing change rest with
      | .ok rest' => .ok (x :: rest')
      | .error error => .error error

/-- `find_pane_mut`, and a change of what it finds. -/
def modifyPane (workspace : Workspace) (paneId : PaneId)
    (change : PaneState → Except WorkspaceError PaneState) : Except WorkspaceError Workspace :=
  match modifyFirst (fun pane => pane.id = paneId)
      (.paneNotFound workspace.id paneId) change workspace.panes with
  | .ok panes => .ok { workspace with panes := panes }
  | .error error => .error error

/-- `find_tab_mut`, and a change of what it finds. -/
def modifyTab (workspace : Workspace) (paneId : PaneId) (tabId : TabId)
    (change : TabState → Except WorkspaceError TabState) : Except WorkspaceError Workspace :=
  modifyPane workspace paneId fun pane =>
    match modifyFirst (fun tab => tab.id = tabId)
        (.tabNotFound workspace.id paneId tabId) change pane.tabs with
    | .ok tabs => .ok { pane with tabs := tabs }
    | .error error => .error error

-- ==== mutations

def defaultDirectoryView : DirectoryViewConfiguration where
  sort := [{ columnId := "core.name", direction := .ascending }]
  columns :=
    [{ columnId := "core.name", width := 360, visible := true },
      { columnId := "core.size", width := 100, visible := true },
      { columnId := "core.modified", width := 170, visible := true }]
  showHidden := false
  foldersFirst := true
  quickFilter := none
  viewMode := .table
  iconSize := .medium

def buildTab (fresh : TabId) (location : TabLocation) : TabState where
  id := fresh
  location := location
  titleOverride := none
  history := { back := [], forward := [] }
  view := defaultDirectoryView
  pinned := false

/-- `close_tab`, on the pane. -/
def closeTab (workspaceId : WorkspaceId) (fresh : TabId) (home : TabLocation)
    (tabId : TabId) (pane : PaneState) : Except WorkspaceError PaneState :=
  match pane.tabs.findIdx? (fun tab => tab.id = tabId) with
  | none => .error (.tabNotFound workspaceId pane.id tabId)
  | some position =>
    let tabs := pane.tabs.eraseIdx position
    if tabs = [] then
      let replacement := { buildTab fresh home with view := pane.defaultView }
      .ok { pane with tabs := [replacement], activeTabId := replacement.id }
    else if pane.activeTabId = tabId then
      .ok { pane with
        tabs := tabs
        activeTabId := match tabs[position - 1]? with
          | some tab => tab.id
          | none => pane.activeTabId }
    else .ok { pane with tabs := tabs }

def pushHistoryEntry (stack : List TabLocation) (location : TabLocation) : List TabLocation :=
  if stack.getLast? = some location then stack else stack ++ [location]

/-- One round of `enforce_history_bound`: the oldest entry goes. -/
def dropOldest (history : NavigationHistory) : NavigationHistory :=
  match history.back with
  | _ :: back => { history with back := back }
  | [] => { history with forward := history.forward.drop 1 }

/-- `enforce_history_bound`: each round drops one entry. -/
def enforceHistoryBound (history : NavigationHistory) : NavigationHistory :=
  Nat.repeat dropOldest (history.back.length + history.forward.length - maxNavigationHistoryLen)
    history

def navigate (location : Option TabLocation) (mode : NavigationMode)
    (tab : TabState) : Except WorkspaceError TabState :=
  match mode with
  | .push =>
    match location with
    | none =>
      .error (.invalidCommand "push navigation requires an explicit location")
    | some location =>
      let back := if tab.location = location then tab.history.back
        else pushHistoryEntry tab.history.back tab.location
      .ok { tab with
        location := location
        history := enforceHistoryBound { back := back, forward := [] } }
  | .back =>
    match tab.history.back.getLast? with
    | none => .ok tab
    | some target =>
      .ok { tab with
        location := target
        history := enforceHistoryBound {
          back := tab.history.back.dropLast
          forward := pushHistoryEntry tab.history.forward tab.location } }
  | .forward =>
    match tab.history.forward.getLast? with
    | none => .ok tab
    | some target =>
      .ok { tab with
        location := target
        history := enforceHistoryBound {
          back := pushHistoryEntry tab.history.back tab.location
          forward := tab.history.forward.dropLast } }
  | .refresh =>
    match location with
    | none =>
      .error (.invalidCommand "refresh navigation requires an explicit location")
    | some location => .ok { tab with location := location }

def applyViewPatch (patch : DirectoryViewPatch)
    (view : DirectoryViewConfiguration) : DirectoryViewConfiguration where
  sort := patch.sort.getD view.sort
  columns := patch.columns.getD view.columns
  showHidden := patch.showHidden.getD view.showHidden
  foldersFirst := patch.foldersFirst.getD view.foldersFirst
  quickFilter := match patch.quickFilter with
    | none => view.quickFilter
    | some .clear => none
    | some (.set query) => some query
  viewMode := patch.viewMode.getD view.viewMode
  iconSize := patch.iconSize.getD view.iconSize

/-- `char::is_whitespace`. -/
def isWhitespace (c : Char) : Bool :=
  let n := c.toNat
  (9 ≤ n ∧ n ≤ 13) ∨ n = 32 ∨ n = 133 ∨ n = 160 ∨ n = 5760
    ∨ (8192 ≤ n ∧ n ≤ 8202) ∨ n = 8232 ∨ n = 8233 ∨ n = 8239 ∨ n = 8287
    ∨ n = 12288

/-- `str::trim`, as characters. -/
def trim (s : String) : List Char :=
  (((s.toList.dropWhile isWhitespace).reverse).dropWhile isWhitespace).reverse

/-- The mutation of a command, before validation. -/
def mutate (fresh : TabId) (home : TabLocation) (workspace : Workspace) :
    Mutation → Except WorkspaceError Workspace
  | .renameWorkspace name =>
    if trim name = [] then
      .error (.invalidCommand "workspace name must not be empty")
    else .ok { workspace with name := name }
  | .setActivePane paneId =>
    match findPane workspace paneId with
    | .ok _ => .ok { workspace with activePaneId := paneId }
    | .error error => .error error
  | .addTab paneId location =>
    modifyPane workspace paneId fun pane =>
      .ok { pane with
        tabs := pane.tabs ++ [{ buildTab fresh location with view := pane.defaultView }]
        activeTabId := fresh }
  | .closeTab paneId tabId =>
    modifyPane workspace paneId (closeTab workspace.id fresh home tabId)
  | .activateTab paneId tabId =>
    modifyPane { workspace with activePaneId := paneId } paneId fun pane =>
      if pane.tabs.any (fun tab => tab.id = tabId) then
        .ok { pane with activeTabId := tabId }
      else .error (.tabNotFound workspace.id paneId tabId)
  | .navigateTab paneId tabId location mode =>
    modifyTab workspace paneId tabId (navigate location mode)
  | .updateView paneId tabId patch =>
    modifyTab workspace paneId tabId fun tab =>
      .ok { tab with view := applyViewPatch patch tab.view }
  | .updateLayout layout => .ok { workspace with layout := layout }

/-- `command::apply`: the mutation, then every structural invariant. -/
def applyMutation (fresh : TabId) (home : TabLocation) (workspace : Workspace)
    (mutation : Mutation) : Except WorkspaceError Workspace :=
  match mutate fresh home workspace mutation with
  | .error error => .error error
  | .ok workspace' =>
    match workspace'.validate with
    | .error error => .error error
    | .ok () => .ok workspace'

end FileManager.Workspaces
