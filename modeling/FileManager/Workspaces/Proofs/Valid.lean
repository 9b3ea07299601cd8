/-
What `Workspace::validate` checks, as a property of the workspace: no
error is found exactly where the workspace is well formed.
-/
import FileManager.Workspaces.Sequential

namespace FileManager.Workspaces

open List

variable {paneId : PaneId} {layoutPaneIds ids : List PaneId}

-- ==== validity

/-- A location with a provider and a URI. -/
def TabLocation.Filled (location : TabLocation) : Prop :=
  location.providerId ≠ "" ∧ location.uri ≠ ""

def columnIds (columns : List ColumnConfiguration) : List String :=
  columns.map ColumnConfiguration.columnId

structure TabState.WellFormed (tab : TabState) : Prop where
  location : tab.location.Filled
  history : tab.history.back.length + tab.history.forward.length ≤ maxNavigationHistoryLen
  columns : (columnIds tab.view.columns).Nodup

structure PaneState.WellFormed (pane : PaneState) : Prop where
  nonempty : pane.tabs ≠ []
  ids : (pane.tabs.map TabState.id).Nodup
  tabs : ∀ tab ∈ pane.tabs, tab.WellFormed
  active : pane.activeTabId ∈ pane.tabs.map TabState.id
  columns : (columnIds pane.defaultView.columns).Nodup

/-- Every pane once, and every ratio in its range. -/
structure Arranges (layout : WorkspaceLayout) (paneIds : List PaneId) : Prop where
  ratios : layout.errors = []
  panes : layout.paneIds.Perm paneIds

structure Workspace.WellFormed (workspace : Workspace) : Prop where
  schema : workspace.schemaVersion ≤ currentSchemaVersion
  nonempty : workspace.panes ≠ []
  ids : (workspace.panes.map PaneState.id).Nodup
  panes : ∀ pane ∈ workspace.panes, pane.WellFormed
  active : workspace.activePaneId ∈ workspace.panes.map PaneState.id
  layout : Arranges workspace.layout (workspace.panes.map PaneState.id)

-- ==== the checks

/-- A loop that reports the keys it has seen, and what is wrong with an
element: it reports nothing where the keys differ and the elements are
right. -/
theorem seen_loop {α κ ε : Type} {key : α → κ} {ok : α → Prop} {errors : List κ → List α → List ε}
    (hnil : ∀ seen, errors seen [] = [])
    (hcons : ∀ seen x rest, errors seen (x :: rest) = [] ↔ key x ∉ seen ∧ ok x
      ∧ errors (key x :: seen) rest = [])
    {seen : List κ} {xs : List α} :
    errors seen xs = [] ↔ (xs.map key).Nodup ∧ (∀ k ∈ xs.map key, k ∉ seen) ∧ ∀ x ∈ xs, ok x := by
  induction xs generalizing seen with
  | nil => simp [hnil]
  | cons x rest ih =>
    rw [hcons, ih, map_cons, nodup_cons, forall_mem_cons, forall_mem_cons]
    simp only [mem_cons, not_or]
    constructor
    · intro hboth
      obtain ⟨hseen, hx, hnodup, hrest, hok⟩ := hboth
      refine ⟨⟨fun hmem => (hrest _ hmem).1 rfl, hnodup⟩, ⟨hseen, ?_⟩, hx, hok⟩
      exact fun k hk => (hrest k hk).2
    · intro hboth
      obtain ⟨⟨hfresh, hnodup⟩, ⟨hseen, hrest⟩, hx, hok⟩ := hboth
      refine ⟨hseen, hx, hnodup, fun k hk => ⟨?_, hrest k hk⟩, hok⟩
      intro heq
      subst heq
      exact hfresh hk

theorem duplicateColumnErrors_eq_nil {tabId : Option TabId} {columns : List ColumnConfiguration} :
    duplicateColumnErrors paneId tabId [] columns = [] ↔ (columnIds columns).Nodup := by
  have hloop := @seen_loop _ _ _ ColumnConfiguration.columnId (fun _ => True)
    (duplicateColumnErrors paneId tabId) (fun _ => rfl)
    (fun seen column rest => by simp [duplicateColumnErrors]) [] columns
  simpa [columnIds] using hloop

theorem tabErrors_eq_nil {tab : TabState} : tabErrors paneId tab = [] ↔ tab.WellFormed := by
  unfold tabErrors
  simp only [append_eq_nil_iff, ite_eq_right_iff, cons_ne_nil, imp_false,
    not_or, Nat.not_lt, gt_iff_lt, duplicateColumnErrors_eq_nil]
  constructor
  · intro hboth
    obtain ⟨⟨hlocation, hhistory⟩, hcolumns⟩ := hboth
    exact ⟨hlocation, hhistory, hcolumns⟩
  · intro hboth
    obtain ⟨hlocation, hhistory, hcolumns⟩ := hboth
    exact ⟨⟨hlocation, hhistory⟩, hcolumns⟩

theorem tabsErrors_eq_nil {tabs : List TabState} :
    tabsErrors paneId [] tabs = []
      ↔ (tabs.map TabState.id).Nodup ∧ ∀ tab ∈ tabs, tab.WellFormed := by
  have hloop := @seen_loop _ _ _ TabState.id TabState.WellFormed (tabsErrors paneId) (fun _ => rfl)
    (fun seen tab rest => by simp [tabsErrors, tabErrors_eq_nil]) [] tabs
  simpa using hloop

variable {pane : PaneState}

theorem paneErrors_eq_nil :
    ((if pane.tabs = [] then [ValidationError.emptyPane pane.id] else []) = []
        ∧ tabsErrors pane.id [] pane.tabs = []
        ∧ (if pane.tabs.any (fun tab => tab.id = pane.activeTabId) then []
          else [ValidationError.activeTabNotFound pane.id pane.activeTabId]) = []
        ∧ duplicateColumnErrors pane.id none [] pane.defaultView.columns = [])
      ↔ pane.WellFormed := by
  rw [tabsErrors_eq_nil, duplicateColumnErrors_eq_nil]
  constructor
  · intro hboth
    obtain ⟨hempty, ⟨hids, htabs⟩, hactive, hcolumns⟩ := hboth
    exact ⟨by simpa using hempty, hids, htabs, by simpa using hactive, hcolumns⟩
  · intro hboth
    obtain ⟨hempty, hids, htabs, hactive, hcolumns⟩ := hboth
    exact ⟨by simpa using hempty, ⟨hids, htabs⟩, by simpa using hactive, hcolumns⟩

variable {panes : List PaneState}

theorem panesErrors_eq_nil :
    panesErrors [] panes = []
      ↔ (panes.map PaneState.id).Nodup ∧ ∀ pane ∈ panes, pane.WellFormed := by
  have hcons : ∀ seen pane rest, panesErrors seen (pane :: rest) = []
      ↔ pane.id ∉ seen ∧ pane.WellFormed ∧ panesErrors (pane.id :: seen) rest = [] := by
    intro seen pane rest
    rw [← paneErrors_eq_nil]
    simp only [panesErrors, append_eq_nil_iff, and_assoc]
    simp only [ite_eq_right_iff, cons_ne_nil, imp_false]
  have hloop := @seen_loop _ _ _ PaneState.id PaneState.WellFormed panesErrors
    (fun _ => rfl) hcons [] panes
  simpa using hloop

-- ==== the layout

theorem placementErrors_eq_nil :
    placementErrors layoutPaneIds pane = [] ↔ layoutPaneIds.count pane.id = 1 := by
  unfold placementErrors
  split
  case h_1 h => simp [h]
  case h_2 h => simp [h]
  case h_3 h0 h1 => simpa using h1

theorem unknownPaneErrors_eq_nil {reported : List PaneId} :
    unknownPaneErrors panes reported ids = []
      ↔ ∀ id ∈ ids, id ∈ panes.map PaneState.id ∨ id ∈ reported := by
  induction ids generalizing reported with
  | nil => simp [unknownPaneErrors]
  | cons id rest ih =>
    have hany : panes.any (fun pane => pane.id = id) = true ↔ id ∈ panes.map PaneState.id := by simp
    unfold unknownPaneErrors
    rw [forall_mem_cons]
    split
    case isTrue hknown =>
      rw [hany] at hknown
      rw [ih]
      exact ⟨fun hrest => ⟨hknown, hrest⟩, fun hall => hall.2⟩
    case isFalse hunknown =>
      rw [hany] at hunknown
      refine ⟨fun hcons => ?_, fun hall => absurd hall.1 hunknown⟩
      cases hcons

theorem perm_of_counts (hids : ids.Nodup) :
    ((∀ id ∈ ids, layoutPaneIds.count id = 1) ∧ ∀ id ∈ layoutPaneIds, id ∈ ids)
      ↔ layoutPaneIds.Perm ids := by
  constructor
  · intro hboth
    obtain ⟨hcount, hknown⟩ := hboth
    rw [perm_iff_count]
    intro id
    by_cases hid : id ∈ ids
    · rw [hcount id hid, count_eq_one_of_mem hids hid]
    · rw [count_eq_zero_of_not_mem hid, count_eq_zero_of_not_mem fun hmem => hid (hknown id hmem)]
  · intro hperm
    refine ⟨fun id hid => ?_, fun id hmem => hperm.mem_iff.mp hmem⟩
    rw [hperm.count_eq, count_eq_one_of_mem hids hid]

-- ==== the workspace

theorem validationErrors_eq_nil {w : Workspace} : w.validationErrors = [] ↔ w.WellFormed := by
  unfold Workspace.validationErrors
  simp only [append_eq_nil_iff, panesErrors_eq_nil, flatMap_eq_nil_iff, placementErrors_eq_nil]
  rw [unknownPaneErrors_eq_nil]
  constructor
  · intro hboth
    obtain ⟨⟨⟨⟨⟨⟨hschema, hempty⟩, hids, hpanes⟩, hactive⟩, hratios⟩, hcounts⟩, hknown⟩ := hboth
    refine ⟨by simpa using hschema, by simpa using hempty, hids, hpanes,
      by simpa using hactive, hratios, (perm_of_counts hids).mp ⟨?_, ?_⟩⟩
    · rw [forall_mem_map]
      exact hcounts
    · simpa using hknown
  · intro hboth
    obtain ⟨hschema, hempty, hids, hpanes, hactive, hratios, hperm⟩ := hboth
    obtain ⟨hcounts, hknown⟩ := (perm_of_counts hids).mpr hperm
    rw [forall_mem_map] at hcounts
    exact ⟨⟨⟨⟨⟨⟨by simpa using hschema, by simpa using hempty⟩, hids, hpanes⟩,
      by simpa using hactive⟩, hratios⟩, hcounts⟩, by simpa using hknown⟩

theorem validate_eq_ok {w : Workspace} : w.validate = .ok () ↔ w.WellFormed := by
  rw [← validationErrors_eq_nil]
  unfold Workspace.validate
  split
  case isTrue h => simp [h]
  case isFalse h => simp [h]

end FileManager.Workspaces
