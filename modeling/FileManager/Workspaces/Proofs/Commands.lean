/-
What a command's mutation leaves behind: the pane and the tab its event
reads back are there, so that an applied command always has its event.
-/
import FileManager.Workspaces.Service

namespace FileManager.Workspaces

variable {fresh : TabId} {home : TabLocation} {w w' : Workspace} {paneId : PaneId}
  {mutation : Mutation}

-- ==== the changed element

theorem modifyFirst_find? {α : Type} {p : α → Bool} {missing : WorkspaceError}
    {change : α → Except WorkspaceError α} {l l' : List α}
    (hkeep : ∀ x x', p x = true → change x = .ok x' → p x' = true)
    (h : modifyFirst p missing change l = .ok l') :
    ∃ x x', change x = .ok x' ∧ l'.find? p = some x' := by
  induction l generalizing l' with
  | nil => cases h
  | cons y rest ih =>
    unfold modifyFirst at h
    split at h
    case isTrue hy =>
      cases hc : change y with
      | error error => rw [hc] at h; cases h
      | ok y' =>
        rw [hc] at h
        cases h
        exact ⟨y, y', hc, List.find?_cons_of_pos (hkeep y y' hy hc)⟩
    case isFalse hy =>
      cases hrest : modifyFirst p missing change rest with
      | error error => rw [hrest] at h; cases h
      | ok rest' =>
        rw [hrest] at h
        cases h
        obtain ⟨x, x', hx, hfind⟩ := ih hrest
        refine ⟨x, x', hx, ?_⟩
        rw [List.find?_cons_of_neg hy]
        exact hfind

theorem findPane_modifyPane {change : PaneState → Except WorkspaceError PaneState}
    (existing : Workspace) (now : Nat)
    (hkeep : ∀ pane pane', change pane = .ok pane' → pane'.id = pane.id)
    (h : modifyPane w paneId change = .ok w') :
    ∃ pane pane', change pane = .ok pane'
      ∧ findPane (stamp w' existing now) paneId = .ok pane' := by
  unfold modifyPane at h
  split at h
  case h_2 => cases h
  case h_1 panes hpanes =>
    cases h
    obtain ⟨pane, pane', hchange, hfind⟩ := modifyFirst_find?
      (fun x x' hx hc => by simpa [hkeep x x' hc] using hx) hpanes
    refine ⟨pane, pane', hchange, ?_⟩
    unfold findPane
    rw [show (stamp { w with panes := panes } existing now).panes = panes from rfl, hfind]

theorem readTab_modifyTab {tabId : TabId}
    {change : TabState → Except WorkspaceError TabState} (existing : Workspace) (now : Nat)
    (hkeep : ∀ tab tab', change tab = .ok tab' → tab'.id = tab.id)
    (h : modifyTab w paneId tabId change = .ok w') :
    ∃ tab, readTab (stamp w' existing now) paneId (fun _ => tabId) = .ok tab := by
  unfold modifyTab at h
  obtain ⟨pane, pane', hchange, hfind⟩ := findPane_modifyPane existing now (fun pane pane' hc => by
      split at hc
      case h_2 => cases hc
      case h_1 => cases hc; rfl) h
  split at hchange
  case h_2 => cases hchange
  case h_1 tabs htabs =>
    cases hchange
    obtain ⟨tab, tab', -, hfindTab⟩ := modifyFirst_find?
      (fun x x' hx hc => by simpa [hkeep x x' hc] using hx) htabs
    refine ⟨tab', ?_⟩
    unfold readTab
    rw [hfind]
    show findTab { pane with tabs := tabs } _ tabId = _
    unfold findTab
    rw [show ({ pane with tabs := tabs } : PaneState).tabs = tabs from rfl, hfindTab]

theorem navigate_id {location : Option TabLocation} {mode : NavigationMode} {tab tab' : TabState}
    (h : navigate location mode tab = .ok tab') : tab'.id = tab.id := by
  unfold navigate at h
  split at h
  case h_1 | h_4 =>
    split at h
    case h_1 => cases h
    case h_2 => cases h; rfl
  case h_2 | h_3 =>
    split at h
    case h_1 => cases h; rfl
    case h_2 => cases h; rfl

-- ==== the event

theorem mutate_of_applyMutation
    (h : applyMutation fresh home w mutation = .ok w') : mutate fresh home w mutation = .ok w' := by
  unfold applyMutation at h
  split at h
  case h_1 => cases h
  case h_2 w₁ hm =>
    split at h
    case h_1 => cases h
    case h_2 => cases h; exact hm

theorem commandEvent_ok (existing : Workspace) (now : Nat)
    (h : applyMutation fresh home w mutation = .ok w') :
    ∃ event, commandEvent mutation (stamp w' existing now) = .ok event := by
  have hm := mutate_of_applyMutation h
  cases mutation with
  | addTab paneId location =>
    obtain ⟨pane, pane', hchange, hfind⟩ := findPane_modifyPane existing now
      (fun pane pane' hc => by cases hc; rfl) hm
    cases hchange
    have htab : ∃ tab, readTab (stamp w' existing now) paneId PaneState.activeTabId = .ok tab := by
      unfold readTab
      rw [hfind]
      unfold findTab
      cases hold : pane.tabs.find? (fun tab => tab.id = fresh) with
      | some tab => exact ⟨tab, by simp [List.find?_append, hold]⟩
      | none => exact ⟨_, by simp [List.find?_append, hold, buildTab]; rfl⟩
    obtain ⟨tab, htab⟩ := htab
    exact ⟨_, by simp only [commandEvent, htab]; rfl⟩
  | navigateTab paneId tabId location mode =>
    obtain ⟨tab, htab⟩ := readTab_modifyTab existing now (fun _ _ => navigate_id) hm
    exact ⟨_, by simp only [commandEvent, htab]; rfl⟩
  | updateView paneId tabId patch =>
    obtain ⟨tab, htab⟩ := readTab_modifyTab existing now (fun tab tab' hc => by cases hc; rfl) hm
    exact ⟨_, by simp only [commandEvent, htab]; rfl⟩
  | _ => exact ⟨_, rfl⟩

end FileManager.Workspaces
