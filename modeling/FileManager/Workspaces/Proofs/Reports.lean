/-
What `Workspace::validate` reports: an error for every condition that a
workspace breaks.

# The layout

That the leaves are the panes, each once, is three loops that count.
They count correctly where the pane ids differ. Two panes of one id are
one to the loops, so a leaf of that id answers for both: the repeated id
is then all that is reported.
-/
import FileManager.Workspaces.Proofs.Valid

namespace FileManager.Workspaces

open List
open Workspace (validationErrors)

variable {paneId : PaneId} {ids : List PaneId}

-- ==== conditions

def WorkspaceLayout.ratios : WorkspaceLayout → List SplitRatio
  | .pane _ => []
  | .split _ ratio first second => ratio :: (first.ratios ++ second.ratios)

/-- An error that the loops over the leaves report. -/
def ValidationError.ofPlacement : ValidationError → Prop
  | .paneMissingFromLayout _ | .paneDuplicatedInLayout _
  | .layoutReferencesUnknownPane _ => True
  | _ => False

/-- What is wrong with a tab is among the errors. -/
structure TabState.Reports (tab : TabState) (paneId : PaneId)
    (errors : List ValidationError) : Prop where
  location : ¬tab.location.Filled → .invalidLocation tab.id ∈ errors
  history : ∀ len, tab.history.back.length + tab.history.forward.length = len →
    maxNavigationHistoryLen < len → .navigationHistoryExceedsBound tab.id len ∈ errors
  columns : ∀ columnId, 1 < (columnIds tab.view.columns).count columnId →
    .duplicateColumnId paneId (some tab.id) columnId ∈ errors

/-- What is wrong with a pane is among the errors. -/
structure PaneState.Reports (pane : PaneState) (errors : List ValidationError) : Prop where
  nonempty : pane.tabs = [] → .emptyPane pane.id ∈ errors
  ids : ∀ tabId, 1 < (pane.tabs.map TabState.id).count tabId →
    .duplicateTabId pane.id tabId ∈ errors
  tabs : ∀ tab ∈ pane.tabs, tab.Reports pane.id errors
  active : pane.activeTabId ∉ pane.tabs.map TabState.id →
    .activeTabNotFound pane.id pane.activeTabId ∈ errors
  columns : ∀ columnId, 1 < (columnIds pane.defaultView.columns).count columnId →
    .duplicateColumnId pane.id none columnId ∈ errors

/-- What is wrong with a workspace is among the errors. -/
structure Workspace.Reports (w : Workspace) (errors : List ValidationError) : Prop where
  schema : currentSchemaVersion < w.schemaVersion →
    .unsupportedSchemaVersion w.schemaVersion ∈ errors
  nonempty : w.panes = [] → .noPanes ∈ errors
  ids : ∀ paneId, 1 < (w.panes.map PaneState.id).count paneId →
    .duplicatePaneId paneId ∈ errors
  panes : ∀ pane ∈ w.panes, pane.Reports errors
  active : w.activePaneId ∉ w.panes.map PaneState.id →
    .activePaneNotFound w.activePaneId ∈ errors
  ratios : ∀ ratio ∈ w.layout.ratios, ratio.inRange = false →
    .invalidSplitRatio ratio ∈ errors
  leaves : (w.panes.map PaneState.id).Nodup →
    ¬w.layout.paneIds.Perm (w.panes.map PaneState.id) →
    ∃ error ∈ errors, error.ofPlacement

-- ==== loops

section Loop

variable {α κ ε : Type} {key : α → κ} {report : κ → ε} {part : α → List ε}
  {errors : List κ → List α → List ε} {xs : List α} {k : κ}

/-- A round of a loop over elements with keys: a key seen before is
reported, and the element's own errors and the later ones are kept. -/
structure Round (key : α → κ) (report : κ → ε) (part : α → List ε)
    (errors : List κ → List α → List ε) : Prop where
  seen : ∀ seen x rest, key x ∈ seen → report (key x) ∈ errors seen (x :: rest)
  own : ∀ seen x rest, part x ⊆ errors seen (x :: rest)
  later : ∀ seen x rest, errors (key x :: seen) rest ⊆ errors seen (x :: rest)

theorem Round.report_mem [DecidableEq κ] (hround : Round key report part errors)
    {seen : List κ} (hk : 1 < seen.count k + (xs.map key).count k)
    (hmem : k ∈ xs.map key) : report k ∈ errors seen xs := by
  induction xs generalizing seen with
  | nil => cases hmem
  | cons x rest ih =>
    by_cases hhere : key x = k ∧ k ∈ seen
    · obtain ⟨hkey, hseen⟩ := hhere
      subst hkey
      exact hround.seen seen x rest hseen
    · -- this round is not the second of the key: a later one is
      refine hround.later seen x rest (ih ?_ ?_)
      · rw [map_cons, count_cons] at hk
        rw [count_cons]
        omega
      · rw [map_cons, mem_cons] at hmem
        cases hmem with
        | inr hrest => exact hrest
        | inl hkey =>
          have hseen : k ∉ seen := fun hseen => hhere ⟨hkey.symm, hseen⟩
          rw [map_cons, count_cons, count_eq_zero_of_not_mem hseen] at hk
          refine count_pos_iff.mp ?_
          split at hk <;> omega

theorem Round.report_of_count [DecidableEq κ] (hround : Round key report part errors)
    (hk : 1 < (xs.map key).count k) : report k ∈ errors [] xs := by
  refine hround.report_mem (by simpa using hk) (count_pos_iff.mp ?_)
  omega

theorem Round.part_subset (hround : Round key report part errors) {x : α}
    (hx : x ∈ xs) (seen : List κ) : part x ⊆ errors seen xs := by
  induction xs generalizing seen with
  | nil => cases hx
  | cons y rest ih =>
    rw [mem_cons] at hx
    cases hx with
    | inl hxy =>
      subst hxy
      exact hround.own seen x rest
    | inr hrest => exact List.Subset.trans (ih hrest _) (hround.later seen y rest)

end Loop

theorem columns_round {tabId : Option TabId} :
    Round ColumnConfiguration.columnId (.duplicateColumnId paneId tabId) (fun _ => [])
      (duplicateColumnErrors paneId tabId) where
  seen seen column rest h := by simp [duplicateColumnErrors, h]
  own seen column rest := nil_subset _
  later seen column rest := subset_append_right _ _

theorem tabs_round :
    Round TabState.id (.duplicateTabId paneId) (tabErrors paneId) (tabsErrors paneId) where
  seen seen tab rest h := by simp [tabsErrors, h]
  own seen tab rest := List.Subset.trans (subset_append_right _ _) (subset_append_left _ _)
  later seen tab rest := subset_append_right _ _

def paneErrors (pane : PaneState) : List ValidationError :=
  (if pane.tabs = [] then [.emptyPane pane.id] else []) ++ tabsErrors pane.id [] pane.tabs
    ++ (if pane.tabs.any (fun tab => tab.id = pane.activeTabId) then []
      else [.activeTabNotFound pane.id pane.activeTabId])
    ++ duplicateColumnErrors pane.id none [] pane.defaultView.columns

theorem panesErrors_cons (seen : List PaneId) (pane : PaneState) (rest : List PaneState) :
    panesErrors seen (pane :: rest) = (if pane.id ∈ seen then [.duplicatePaneId pane.id] else [])
        ++ paneErrors pane ++ panesErrors (pane.id :: seen) rest := by
  simp [panesErrors, paneErrors]

theorem panes_round :
    Round PaneState.id .duplicatePaneId paneErrors panesErrors where
  seen seen pane rest h := by simp [panesErrors, h]
  own seen pane rest := by
    rw [panesErrors_cons]
    exact List.Subset.trans (subset_append_right _ _) (subset_append_left _ _)
  later seen pane rest := by
    rw [panesErrors_cons]
    exact subset_append_right _ _

-- ==== tabs and panes

variable {errors : List ValidationError}

theorem tab_reports {tab : TabState}
    (h : tabErrors paneId tab ⊆ errors) : tab.Reports paneId errors where
  location hlocation := by
    refine h ?_
    have hempty : tab.location.providerId = "" ∨ tab.location.uri = "" := by
      by_contra hfilled
      exact hlocation (not_or.mp hfilled)
    simp [tabErrors, hempty]
  history len hlen hbound := by
    subst hlen
    refine h ?_
    simp [tabErrors, hbound]
  columns columnId hcount := by
    refine h (mem_append_right _ ?_)
    exact columns_round.report_of_count hcount

variable {pane : PaneState}

theorem pane_reports (h : paneErrors pane ⊆ errors) : pane.Reports errors where
  nonempty hempty := h (by simp [paneErrors, hempty])
  ids tabId hcount := by
    have hmem := (@tabs_round pane.id).report_of_count hcount
    exact h (by simp [paneErrors, hmem])
  tabs tab htab := by
    refine tab_reports fun error herror => h ?_
    have hmem := (@tabs_round pane.id).part_subset htab [] herror
    simp [paneErrors, hmem]
  active hactive := by
    refine h ?_
    have hany : pane.tabs.any (fun tab => tab.id = pane.activeTabId) = false := by
      simpa using hactive
    simp [paneErrors, hany]
  columns columnId hcount := h (mem_append_right _ (columns_round.report_of_count hcount))

-- ==== the layout

variable {layout : WorkspaceLayout}

theorem ratio_reported {ratio : SplitRatio} (h : ratio ∈ layout.ratios)
    (hrange : ratio.inRange = false) : .invalidSplitRatio ratio ∈ layout.errors := by
  induction layout with
  | pane paneId => cases h
  | split axis here first second ihFirst ihSecond =>
    rw [WorkspaceLayout.ratios, mem_cons, mem_append] at h
    rw [WorkspaceLayout.errors, mem_append, mem_append]
    obtain rfl | hfirst | hsecond := h
    · exact .inl (.inl (by simp [hrange]))
    · exact .inl (.inr (ihFirst hfirst))
    · exact .inr (ihSecond hsecond)

theorem ratios_in_range (h : layout.errors = []) :
    ∀ ratio ∈ layout.ratios, ratio.inRange = true := by
  intro ratio hratio
  by_contra hrange
  rw [Bool.not_eq_true] at hrange
  have hmem := ratio_reported hratio hrange
  simp [h] at hmem

variable {error : ValidationError}

theorem unknownPaneErrors_ofPlacement {panes : List PaneState} {reported : List PaneId}
    (h : error ∈ unknownPaneErrors panes reported ids) : error.ofPlacement := by
  induction ids generalizing reported with
  | nil => cases h
  | cons id rest ih =>
    rw [unknownPaneErrors] at h
    split at h
    · exact ih h
    · rw [mem_cons] at h
      cases h with
      | inl heq =>
        subst heq
        trivial
      | inr hrest => exact ih hrest

theorem placementErrors_ofPlacement (h : error ∈ placementErrors ids pane) : error.ofPlacement := by
  unfold placementErrors at h
  split at h
  · rw [mem_singleton] at h
    subst h
    trivial
  · cases h
  · rw [mem_singleton] at h
    subst h
    trivial

theorem leaves_reported {w : Workspace} (hids : (w.panes.map PaneState.id).Nodup)
    (hperm : ¬w.layout.paneIds.Perm (w.panes.map PaneState.id)) :
    ∃ error ∈ w.panes.flatMap (placementErrors w.layout.paneIds)
      ++ unknownPaneErrors w.panes [] w.layout.paneIds, error.ofPlacement := by
  by_contra hnone
  refine hperm ((perm_of_counts hids).mp ⟨?_, ?_⟩)
  · rw [forall_mem_map]
    intro pane hpane
    rw [← placementErrors_eq_nil, eq_nil_iff_forall_not_mem]
    intro error herror
    refine hnone ⟨error, mem_append_left _ ?_, placementErrors_ofPlacement herror⟩
    exact mem_flatMap.mpr ⟨pane, hpane, herror⟩
  · have hnil : unknownPaneErrors w.panes [] w.layout.paneIds = [] := by
      rw [eq_nil_iff_forall_not_mem]
      intro error herror
      exact hnone ⟨error, mem_append_right _ herror, unknownPaneErrors_ofPlacement herror⟩
    simpa using unknownPaneErrors_eq_nil.mp hnil

-- ==== the workspace

theorem validationErrors_reports (w : Workspace) : w.Reports w.validationErrors where
  schema h := by simp [validationErrors, h]
  nonempty h := by simp [validationErrors, h]
  ids paneId hcount := by
    have hmem := panes_round.report_of_count hcount
    simp [validationErrors, hmem]
  panes pane hpane := by
    refine pane_reports fun error herror => ?_
    have hmem := panes_round.part_subset hpane [] herror
    simp [validationErrors, hmem]
  active h := by
    have hany : w.panes.any (fun pane => pane.id = w.activePaneId) = false := by simpa using h
    simp [validationErrors, hany]
  ratios ratio hratio hrange := by
    have hmem := ratio_reported hratio hrange
    simp [validationErrors, hmem]
  leaves hids hperm := by
    obtain ⟨error, hmem, hplacement⟩ := leaves_reported hids hperm
    refine ⟨error, ?_, hplacement⟩
    rw [mem_append] at hmem
    simp only [validationErrors, mem_append]
    tauto

/-- Validation accepts the well-formed workspaces, and reports whatever
is wrong with another. -/
theorem validate_exact (w : Workspace) :
    (w.validate = .ok () ↔
        w.WellFormed ∧ ∀ ratio ∈ w.layout.ratios, ratio.inRange = true)
      ∧ (w.validate = .ok ()
        ∨ ∃ errors, w.validate = .error (.invalid errors) ∧ w.Reports errors) := by
  refine ⟨?_, ?_⟩
  · rw [validate_eq_ok]
    exact ⟨fun h => ⟨h, ratios_in_range h.layout.ratios⟩, And.left⟩
  · by_cases hnil : w.validationErrors = []
    · exact .inl (if_pos hnil)
    · exact .inr ⟨_, if_neg hnil, validationErrors_reports w⟩

-- ==== the samples

/-- Two panes of one id, and one leaf. -/
def twinPanes : Workspace where
  schemaVersion := 3
  id := 1
  name := "Twins"
  layout := .pane 1
  panes := List.replicate 2
    { id := 1, title := none, tabs := [buildTab 7 ⟨"local", "file:///"⟩],
      activeTabId := 7, defaultView := defaultDirectoryView }
  activePaneId := 1
  operationCentre := { visible := true, height := 1 }
  createdAt := 0
  updatedAt := 0
  revision := 0

/-- The leaves are not the panes, and no error is about them. -/
theorem twin_panes_mask_the_layout :
    ¬∀ w : Workspace, ∀ errors, w.validate = .error (.invalid errors) →
      ¬w.layout.paneIds.Perm (w.panes.map PaneState.id) →
      ∃ error ∈ errors, error.ofPlacement := by
  intro hclaim
  have hone := hclaim twinPanes [.duplicatePaneId 1] (by decide) (by decide)
  simp [ValidationError.ofPlacement] at hone

end FileManager.Workspaces
