/-
Commands keep a workspace well formed. A mutation of a well-formed
workspace is well formed again unless the command brought something
wrong with it, and it touches only what the command addresses.

Validation looks at a tab's location and not at its history, which Back
and Forward turn into locations. What keeps those in order is an
invariant of the workspaces that commands can reach (`HistoryFilled`):
history is made of former locations.
-/
import FileManager.Workspaces.Proofs.Valid
import FileManager.Workspaces.Proofs.Commands
import FileManager.Locations.Proofs.Paths

namespace FileManager.Workspaces

open List NavigationHistory

variable {isUuid : List Char → Bool} {fresh tabId : TabId} {home : TabLocation} {α : Type}
  {l after before : List α} {p : α → Bool} {w w' : Workspace} {paneId : PaneId}
  {error missing : WorkspaceError} {pane pane' : PaneState} {tab tab' : TabState}
  {workspaceId : WorkspaceId} {mode : NavigationMode} {mutation : Mutation} {x x' : α}

-- ==== the changed one

variable {change : α → Except WorkspaceError α}

theorem modifyFirst_eq_ok {l' : List α} (h : modifyFirst p missing change l = .ok l') :
    ∃ before x after x', l = before ++ x :: after ∧ p x = true
      ∧ change x = .ok x' ∧ l' = before ++ x' :: after := by
  induction l generalizing l' with
  | nil => cases h
  | cons y rest ih =>
    unfold modifyFirst at h
    split at h
    case isTrue hy =>
      split at h
      case h_1 y' hc =>
        cases h
        exact ⟨[], y, rest, y', rfl, hy, hc, rfl⟩
      case h_2 => cases h
    case isFalse =>
      split at h
      case h_1 rest' hrest =>
        cases h
        obtain ⟨before, x, after, x', rfl, hx, hc, rfl⟩ := ih hrest
        exact ⟨y :: before, x, after, x', rfl, hx, hc, rfl⟩
      case h_2 => cases h

theorem modifyFirst_eq_error (h : modifyFirst p missing change l = .error error) :
    error = missing ∨ ∃ x, change x = .error error := by
  induction l with
  | nil =>
    cases h
    exact .inl rfl
  | cons y rest ih =>
    unfold modifyFirst at h
    split at h
    case isTrue hy =>
      split at h
      case h_1 => cases h
      case h_2 hc =>
        cases h
        exact .inr ⟨y, hc⟩
    case isFalse =>
      split at h
      case h_1 => cases h
      case h_2 hrest =>
        cases h
        exact ih hrest

variable {change : PaneState → Except WorkspaceError PaneState}

theorem modifyPane_eq_ok (h : modifyPane w paneId change = .ok w') :
    ∃ before pane after pane', w.panes = before ++ pane :: after ∧ pane.id = paneId
      ∧ change pane = .ok pane' ∧ w' = { w with panes := before ++ pane' :: after } := by
  unfold modifyPane at h
  split at h
  case h_2 => cases h
  case h_1 panes hpanes =>
    cases h
    obtain ⟨before, pane, after, pane', hsplit, hid, hchange, rfl⟩ := modifyFirst_eq_ok hpanes
    exact ⟨before, pane, after, pane', hsplit, of_decide_eq_true hid, hchange, rfl⟩

theorem modifyTab_eq_ok {change : TabState → Except WorkspaceError TabState}
    (h : modifyTab w paneId tabId change = .ok w') :
    ∃ before pane after first tab second tab', w.panes = before ++ pane :: after ∧ pane.id = paneId
        ∧ pane.tabs = first ++ tab :: second ∧ tab.id = tabId ∧ change tab = .ok tab'
        ∧ w' = { w with
          panes := before ++ { pane with tabs := first ++ tab' :: second } :: after } := by
  obtain ⟨before, pane, after, pane', hsplit, hid, hchange, rfl⟩ := modifyPane_eq_ok h
  split at hchange
  case h_2 => cases hchange
  case h_1 tabs htabs =>
    cases hchange
    obtain ⟨first, tab, second, tab', htab, htabId, hc, rfl⟩ := modifyFirst_eq_ok htabs
    exact ⟨before, pane, after, first, tab, second, tab', hsplit, hid, htab,
      of_decide_eq_true htabId, hc, rfl⟩

theorem modifyPane_eq_error (h : modifyPane w paneId change = .error error) :
    error = .paneNotFound w.id paneId ∨ ∃ pane, change pane = .error error := by
  unfold modifyPane at h
  split at h
  case h_1 => cases h
  case h_2 herror =>
    cases h
    exact modifyFirst_eq_error herror

-- ==== kept validity

theorem mem_middle (h : l = before ++ x :: after) : x ∈ l := by
  rw [h]
  exact mem_append_right _ mem_cons_self

theorem forall_mem_replaced {P : α → Prop} (h : ∀ y ∈ l, P y)
    (hsplit : l = before ++ x :: after) (hx : P x') : ∀ y ∈ before ++ x' :: after, P y := by
  subst hsplit
  intro y hy
  rcases mem_append.mp hy with hy | hy
  · exact h y (mem_append_left _ hy)
  · rcases mem_cons.mp hy with rfl | hy
    · exact hx
    · exact h y (mem_append_right _ (mem_cons_of_mem _ hy))

theorem Workspace.WellFormed.replacePane (h : w.WellFormed)
    {before after : List PaneState} (hsplit : w.panes = before ++ pane :: after)
    (hid : pane'.id = pane.id) (hpane : pane'.WellFormed) :
    Workspace.WellFormed { w with panes := before ++ pane' :: after } := by
  have hids : (before ++ pane' :: after).map PaneState.id = w.panes.map PaneState.id := by
    rw [hsplit]
    simp [hid]
  have hlayout := h.layout
  have hactive := h.active
  rw [← hids] at hlayout hactive
  refine { schema := h.schema, nonempty := ?_, ids := ?_
           panes := forall_mem_replaced h.panes hsplit hpane
           active := hactive, layout := hlayout }
  · exact append_ne_nil_of_right_ne_nil _ (cons_ne_nil _ _)
  · show ((before ++ pane' :: after).map PaneState.id).Nodup
    rw [hids]
    exact h.ids

theorem Workspace.WellFormed.setActive (h : w.WellFormed)
    (hmem : paneId ∈ w.panes.map PaneState.id) :
    Workspace.WellFormed { w with activePaneId := paneId } :=
  { h with active := hmem }

theorem PaneState.WellFormed.replaceTab (h : pane.WellFormed)
    {first second : List TabState} (hsplit : pane.tabs = first ++ tab :: second)
    (hid : tab'.id = tab.id) (htab : tab'.WellFormed) :
    PaneState.WellFormed { pane with tabs := first ++ tab' :: second } := by
  have hids : (first ++ tab' :: second).map TabState.id = pane.tabs.map TabState.id := by
    rw [hsplit]
    simp [hid]
  have hactive := h.active
  rw [← hids] at hactive
  refine { nonempty := ?_, ids := ?_, tabs := forall_mem_replaced h.tabs hsplit htab
           active := hactive, columns := h.columns }
  · exact append_ne_nil_of_right_ne_nil _ (cons_ne_nil _ _)
  · show ((first ++ tab' :: second).map TabState.id).Nodup
    rw [hids]
    exact h.ids

variable {location : TabLocation}

theorem buildTab_wellFormed (hlocation : location.Filled)
    {view : DirectoryViewConfiguration} (hview : (columnIds view.columns).Nodup) (fresh : TabId) :
    TabState.WellFormed { buildTab fresh location with view := view } :=
  { location := hlocation, history := Nat.zero_le _, columns := hview }

theorem PaneState.WellFormed.addTab (h : pane.WellFormed) (hlocation : location.Filled)
    (hfresh : fresh ∉ pane.tabs.map TabState.id) :
    PaneState.WellFormed { pane with
      tabs := pane.tabs ++ [{ buildTab fresh location with view := pane.defaultView }]
      activeTabId := fresh } := by
  refine { nonempty := ?_, ids := ?_, tabs := ?_, active := ?_, columns := h.columns }
  · exact append_ne_nil_of_right_ne_nil _ (cons_ne_nil _ _)
  · show (List.map TabState.id (pane.tabs ++ [_])).Nodup
    rw [map_append]
    refine List.Nodup.append h.ids (nodup_singleton _) ?_
    intro id hid hnew
    rw [mem_singleton.mp hnew] at hid
    exact hfresh hid
  · intro tab hmem
    rcases mem_append.mp hmem with hmem | hmem
    · exact h.tabs tab hmem
    · rw [mem_singleton.mp hmem]
      exact buildTab_wellFormed hlocation h.columns fresh
  · show fresh ∈ List.map TabState.id (pane.tabs ++ [_])
    rw [map_append]
    exact mem_append_right _ (mem_singleton_self _)

theorem takeover_mem {tabs : List TabState} {position : Nat} {fallback : TabId}
    (hne : tabs ≠ []) (hposition : position ≤ tabs.length) :
    (match tabs[position - 1]? with
      | some tab => tab.id
      | none => fallback) ∈ tabs.map TabState.id := by
  have hpos : 0 < tabs.length := length_pos_iff.mpr hne
  have hlt : position - 1 < tabs.length := by omega
  rw [List.getElem?_eq_getElem hlt]
  exact mem_map_of_mem (getElem_mem hlt)

theorem closeTab_cases (h : closeTab workspaceId fresh home tabId pane = .ok pane') :
    ∃ first closed second, pane.tabs = first ++ closed :: second ∧ closed.id = tabId
      ∧ ((first ++ second = [] ∧ pane' = { pane with
            tabs := [{ buildTab fresh home with view := pane.defaultView }]
            activeTabId := fresh })
        ∨ first ++ second ≠ []
          ∧ ∃ active, pane' = { pane with tabs := first ++ second, activeTabId := active }
            ∧ (active ∈ (first ++ second).map TabState.id
              ∨ active = pane.activeTabId ∧ pane.activeTabId ≠ tabId)) := by
  unfold closeTab at h
  split at h
  case h_1 => cases h
  case h_2 position hposition =>
    obtain ⟨hlt, htab, -⟩ := List.findIdx?_eq_some_iff_getElem.mp hposition
    have hsplit : pane.tabs = pane.tabs.take position
        ++ pane.tabs.get ⟨position, hlt⟩ :: pane.tabs.drop (position + 1) := by
      rw [get_eq_getElem, ← drop_eq_getElem_cons hlt, take_append_drop]
    have herase := eraseIdx_eq_take_drop_succ pane.tabs position
    have hle : position ≤ (pane.tabs.eraseIdx position).length := by
      rw [length_eraseIdx_of_lt hlt]
      omega
    refine ⟨_, _, _, hsplit, of_decide_eq_true htab, ?_⟩
    rw [← herase]
    simp only at h
    split at h
    case isTrue hempty =>
      cases h
      exact .inl ⟨hempty, rfl⟩
    case isFalse hne =>
      split at h
      case isTrue =>
        cases h
        exact .inr ⟨hne, _, rfl, .inl (takeover_mem hne hle)⟩
      case isFalse hother =>
        cases h
        exact .inr ⟨hne, _, rfl, .inr ⟨rfl, hother⟩⟩

theorem closeTab_id (h : closeTab workspaceId fresh home tabId pane = .ok pane') :
    pane'.id = pane.id := by
  obtain ⟨first, closed, second, -, -, hcases⟩ := closeTab_cases h
  rcases hcases with ⟨-, rfl⟩ | ⟨-, active, rfl, -⟩ <;> rfl

theorem PaneState.WellFormed.closeTab (h : pane.WellFormed) (hhome : home.Filled)
    (hclose : Workspaces.closeTab workspaceId fresh home tabId pane = .ok pane') :
    pane'.WellFormed := by
  obtain ⟨first, closed, second, hsplit, hclosed, hcases⟩ := closeTab_cases hclose
  have hsub : (first ++ second).Sublist pane.tabs := by
    rw [hsplit]
    exact List.Sublist.append_left (sublist_cons_self _ _) first
  have hids := h.ids.sublist (hsub.map TabState.id)
  have htabs : ∀ tab ∈ first ++ second, tab.WellFormed :=
    fun tab hmem => h.tabs tab (hsub.subset hmem)
  rcases hcases with ⟨-, rfl⟩ | ⟨hne, active, rfl, hactive⟩
  · exact { nonempty := List.cons_ne_nil _ _
            ids := List.nodup_singleton _
            tabs := by
              intro tab hmem
              rw [mem_singleton.mp hmem]
              exact buildTab_wellFormed hhome h.columns fresh
            active := mem_singleton_self _
            columns := h.columns }
  · refine { nonempty := hne, ids := hids, tabs := htabs, active := ?_
             columns := h.columns }
    rcases hactive with hmem | ⟨rfl, hother⟩
    · exact hmem
    · -- the active tab is not the one that goes
      have hmem := h.active
      rw [hsplit] at hmem
      simp only [map_append, map_cons, mem_append, mem_cons] at hmem
      simp only [map_append, mem_append]
      rcases hmem with hmem | hmem | hmem
      · exact .inl hmem
      · exact absurd (hmem.trans hclosed) hother
      · exact .inr hmem

-- ==== history

def NavigationHistory.entries (history : NavigationHistory) : List TabLocation :=
  history.back ++ history.forward

def TabState.HistoryFilled (tab : TabState) : Prop :=
  ∀ location ∈ tab.history.entries, location.Filled

theorem dropOldest_entries (history : NavigationHistory) :
    (dropOldest history).entries = history.entries.drop 1 := by
  unfold dropOldest entries
  split
  case h_1 oldest back hback => rw [hback]; rfl
  case h_2 hback => rw [hback]; rfl

theorem repeat_dropOldest_entries (n : Nat) (history : NavigationHistory) :
    (Nat.repeat dropOldest n history).entries = history.entries.drop n := by
  induction n with
  | zero => rfl
  | succ n ih =>
    show (dropOldest (Nat.repeat dropOldest n history)).entries = _
    rw [dropOldest_entries, ih, drop_drop]

theorem enforceHistoryBound_entries (history : NavigationHistory) :
    (enforceHistoryBound history).entries
      = history.entries.drop (history.entries.length - maxNavigationHistoryLen) := by
  unfold enforceHistoryBound
  rw [repeat_dropOldest_entries]
  simp [entries]

theorem enforceHistoryBound_length (history : NavigationHistory) :
    (enforceHistoryBound history).back.length
      + (enforceHistoryBound history).forward.length ≤ maxNavigationHistoryLen := by
  have hlength := congrArg List.length (enforceHistoryBound_entries history)
  rw [length_drop, entries, length_append] at hlength
  omega

theorem mem_enforceHistoryBound {history : NavigationHistory}
    (h : location ∈ (enforceHistoryBound history).entries) : location ∈ history.entries := by
  rw [enforceHistoryBound_entries] at h
  exact mem_of_mem_drop h

theorem mem_pushHistoryEntry {stack : List TabLocation} {location other : TabLocation}
    (h : other ∈ pushHistoryEntry stack location) : other ∈ stack ∨ other = location := by
  unfold pushHistoryEntry at h
  split at h
  case isTrue => exact .inl h
  case isFalse =>
    rcases mem_append.mp h with h | h
    · exact .inl h
    · exact .inr (mem_singleton.mp h)

/-- Where a navigation goes that needs a location: to the one given. -/
def NavigationPayload (location : Option TabLocation) (mode : NavigationMode) :
    Option TabLocation :=
  match mode with
  | .push | .refresh => location
  | .back | .forward => none

variable {location : Option TabLocation}

theorem navigate_spec (h : navigate location mode tab = .ok tab') :
    (∃ target history, tab' = { tab with location := target, history := history }
      ∧ (target = tab.location ∨ target ∈ tab.history.entries
        ∨ NavigationPayload location mode = some target)
      ∧ (∀ entry ∈ history.entries, entry ∈ tab.history.entries ∨ entry = tab.location)
      ∧ (history = tab.history
        ∨ history.back.length + history.forward.length ≤ maxNavigationHistoryLen)) := by
  unfold navigate at h
  cases mode with
  | push =>
    simp only at h
    split at h
    case h_1 => cases h
    case h_2 given =>
      cases h
      refine ⟨_, _, rfl, .inr (Or.inr rfl), ?_, .inr (enforceHistoryBound_length _)⟩
      intro entry hentry
      have hmem := mem_enforceHistoryBound hentry
      unfold entries at hmem
      rw [append_nil] at hmem
      simp only at hmem
      split at hmem
      case isTrue => exact .inl (mem_append_left _ hmem)
      case isFalse =>
        rcases mem_pushHistoryEntry hmem with hmem | rfl
        · exact .inl (mem_append_left _ hmem)
        · exact .inr rfl
  | back =>
    simp only at h
    split at h
    case h_1 =>
      cases h
      exact ⟨_, _, rfl, .inl rfl, fun entry hentry => .inl hentry, .inl rfl⟩
    case h_2 target htarget =>
      cases h
      refine ⟨_, _, rfl, .inr (Or.inl ?_), ?_, .inr (enforceHistoryBound_length _)⟩
      · exact mem_append_left _ (mem_of_getLast? htarget)
      · intro entry hentry
        rcases mem_append.mp (mem_enforceHistoryBound hentry) with hmem | hmem
        · exact .inl (mem_append_left _ ((dropLast_sublist _).subset hmem))
        · rcases mem_pushHistoryEntry hmem with hmem | rfl
          · exact .inl (mem_append_right _ hmem)
          · exact .inr rfl
  | forward =>
    simp only at h
    split at h
    case h_1 =>
      cases h
      exact ⟨_, _, rfl, .inl rfl, fun entry hentry => .inl hentry, .inl rfl⟩
    case h_2 target htarget =>
      cases h
      refine ⟨_, _, rfl, .inr (Or.inl ?_), ?_, .inr (enforceHistoryBound_length _)⟩
      · exact mem_append_right _ (mem_of_getLast? htarget)
      · intro entry hentry
        rcases mem_append.mp (mem_enforceHistoryBound hentry) with hmem | hmem
        · rcases mem_pushHistoryEntry hmem with hmem | rfl
          · exact .inl (mem_append_left _ hmem)
          · exact .inr rfl
        · exact .inl (mem_append_right _ ((dropLast_sublist _).subset hmem))
  | refresh =>
    simp only at h
    split at h
    case h_1 => cases h
    case h_2 given =>
      cases h
      exact ⟨given, tab.history, rfl, .inr (Or.inr rfl),
        fun entry hentry => .inl hentry, .inl rfl⟩

-- ==== commands

/-- The command itself brings something invalid: an empty location,
columns that repeat, or a layout that does not arrange the panes. -/
def PayloadInvalid (w : Workspace) : Mutation → Prop
  | .addTab _ location => ¬ location.Filled
  | .navigateTab _ _ location mode =>
    ∃ target, NavigationPayload location mode = some target ∧ ¬ target.Filled
  | .updateView _ _ patch =>
    ∃ columns, patch.columns = some columns ∧ ¬ (columnIds columns).Nodup
  | .updateLayout layout => ¬ Arranges layout (w.panes.map PaneState.id)
  | .renameWorkspace _ | .setActivePane _ | .closeTab _ _ | .activateTab _ _ => False

/-- No tab has the identifier. -/
def Unused (fresh : TabId) (w : Workspace) : Prop :=
  ∀ pane ∈ w.panes, fresh ∉ pane.tabs.map TabState.id

def Workspace.HistoriesFilled (w : Workspace) : Prop :=
  ∀ pane ∈ w.panes, ∀ tab ∈ pane.tabs, tab.HistoryFilled

theorem navigate_wellFormed (h : tab.WellFormed) (hfilled : tab.HistoryFilled)
    (hpayload : ∀ target, NavigationPayload location mode = some target → target.Filled)
    (hnav : navigate location mode tab = .ok tab') : tab'.WellFormed := by
  obtain ⟨target, history, rfl, htarget, -, hbound⟩ := navigate_spec hnav
  refine { location := ?_, history := ?_, columns := h.columns }
  · rcases htarget with rfl | hmem | hgiven
    · exact h.location
    · exact hfilled target hmem
    · exact hpayload target hgiven
  · rcases hbound with rfl | hbound
    · exact h.history
    · exact hbound

theorem navigate_historyFilled (h : tab.WellFormed) (hfilled : tab.HistoryFilled)
    (hnav : navigate location mode tab = .ok tab') : tab'.HistoryFilled := by
  obtain ⟨target, history, rfl, -, hentries, -⟩ := navigate_spec hnav
  intro entry hentry
  rcases hentries entry hentry with hmem | rfl
  · exact hfilled entry hmem
  · exact h.location

theorem updateView_wellFormed {patch : DirectoryViewPatch} (h : tab.WellFormed)
    (hpayload : ∀ columns, patch.columns = some columns → (columnIds columns).Nodup) :
    TabState.WellFormed { tab with view := applyViewPatch patch tab.view } := by
  refine { location := h.location, history := h.history, columns := ?_ }
  show (columnIds (patch.columns.getD tab.view.columns)).Nodup
  cases hcolumns : patch.columns with
  | none => exact h.columns
  | some columns => exact hpayload columns hcolumns

/-- What a mutation does where it succeeds. -/
inductive Effect (fresh : TabId) (home : TabLocation) (w : Workspace) :
    Mutation → Workspace → Prop
  | rename (name : String) :
      Effect fresh home w (.renameWorkspace name) { w with name := name }
  | setActive (paneId : PaneId) (hmem : paneId ∈ w.panes.map PaneState.id) :
      Effect fresh home w (.setActivePane paneId) { w with activePaneId := paneId }
  | addTab (location : TabLocation) {before after : List PaneState} {pane : PaneState}
      (hsplit : w.panes = before ++ pane :: after) :
      Effect fresh home w (.addTab pane.id location) { w with
        panes := before ++ { pane with
          tabs := pane.tabs ++ [{ buildTab fresh location with view := pane.defaultView }]
          activeTabId := fresh } :: after }
  | closeTab (tabId : TabId) {before after : List PaneState} {pane pane' : PaneState}
      (hsplit : w.panes = before ++ pane :: after)
      (hclose : closeTab w.id fresh home tabId pane = .ok pane') :
      Effect fresh home w (.closeTab pane.id tabId) { w with panes := before ++ pane' :: after }
  | activateTab (tabId : TabId) {before after : List PaneState} {pane : PaneState}
      (hsplit : w.panes = before ++ pane :: after)
      (hmem : tabId ∈ pane.tabs.map TabState.id) :
      Effect fresh home w (.activateTab pane.id tabId) { w with
        activePaneId := pane.id
        panes := before ++ { pane with activeTabId := tabId } :: after }
  | navigateTab (location : Option TabLocation) (mode : NavigationMode)
      {before after : List PaneState} {pane : PaneState}
      {first second : List TabState} {tab tab' : TabState}
      (hsplit : w.panes = before ++ pane :: after)
      (htabs : pane.tabs = first ++ tab :: second)
      (hnav : navigate location mode tab = .ok tab') :
      Effect fresh home w (.navigateTab pane.id tab.id location mode) { w with
        panes := before ++ { pane with tabs := first ++ tab' :: second } :: after }
  | updateView (patch : DirectoryViewPatch) {before after : List PaneState}
      {pane : PaneState} {first second : List TabState} {tab : TabState}
      (hsplit : w.panes = before ++ pane :: after)
      (htabs : pane.tabs = first ++ tab :: second) :
      Effect fresh home w (.updateView pane.id tab.id patch) { w with
        panes := before ++ { pane with
          tabs := first ++ { tab with view := applyViewPatch patch tab.view } :: second }
          :: after }
  | updateLayout (layout : WorkspaceLayout) :
      Effect fresh home w (.updateLayout layout) { w with layout := layout }

theorem effect_of_mutate
    (h : mutate fresh home w mutation = .ok w') : Effect fresh home w mutation w' := by
  cases mutation with
  | renameWorkspace name =>
    simp only [mutate] at h
    obtain ⟨-, h⟩ := Fallible.passed h nofun
    cases h
    exact .rename name
  | setActivePane paneId =>
    simp only [mutate, findPane] at h
    split at h
    case h_2 => cases h
    case h_1 pane hfind =>
      cases h
      refine .setActive paneId ?_
      split at hfind
      case h_2 => cases hfind
      case h_1 found hsome =>
        refine mem_map.mpr ⟨found, mem_of_find?_eq_some hsome, ?_⟩
        simpa using List.find?_some hsome
  | addTab paneId location =>
    obtain ⟨before, pane, after, pane', hsplit, rfl, hchange, rfl⟩ := modifyPane_eq_ok h
    cases hchange
    exact .addTab location hsplit
  | closeTab paneId tabId =>
    obtain ⟨before, pane, after, pane', hsplit, rfl, hchange, rfl⟩ := modifyPane_eq_ok h
    exact .closeTab tabId hsplit hchange
  | activateTab paneId tabId =>
    obtain ⟨before, pane, after, pane', hsplit, rfl, hchange, rfl⟩ := modifyPane_eq_ok h
    split at hchange
    case isFalse => cases hchange
    case isTrue hany =>
      cases hchange
      exact .activateTab tabId hsplit (by simpa using hany)
  | navigateTab paneId tabId location mode =>
    obtain ⟨before, pane, after, first, tab, second, tab', hsplit, rfl, htabs, rfl, hnav,
      rfl⟩ := modifyTab_eq_ok h
    exact .navigateTab location mode hsplit htabs hnav
  | updateView paneId tabId patch =>
    obtain ⟨before, pane, after, first, tab, second, tab', hsplit, rfl, htabs, rfl, hview,
      rfl⟩ := modifyTab_eq_ok h
    cases hview
    exact .updateView patch hsplit htabs
  | updateLayout layout =>
    cases h
    exact .updateLayout layout

theorem Effect.wellFormed (he : Effect fresh home w mutation w') (h : w.WellFormed)
    (hfilled : w.HistoriesFilled) (hunused : Unused fresh w) (hhome : home.Filled)
    (hpayload : ¬ PayloadInvalid w mutation) : w'.WellFormed := by
  cases he with
  | rename name => exact { h with }
  | setActive paneId hmem => exact h.setActive hmem
  | @addTab location before after pane hsplit =>
    have hpane := mem_middle hsplit
    have hlocation : location.Filled := Classical.not_not.mp hpayload
    exact h.replacePane hsplit rfl ((h.panes pane hpane).addTab hlocation (hunused pane hpane))
  | @closeTab tabId before after pane pane' hsplit hclose =>
    exact h.replacePane hsplit (closeTab_id hclose)
      ((h.panes pane (mem_middle hsplit)).closeTab hhome hclose)
  | @activateTab tabId before after pane hsplit hmem =>
    have hpane := mem_middle hsplit
    refine (h.setActive (mem_map_of_mem hpane)).replacePane hsplit rfl ?_
    exact { h.panes pane hpane with active := hmem }
  | @navigateTab location mode before after pane first second tab tab' hsplit htabs hnav =>
    have hpane := mem_middle hsplit
    have htab := mem_middle htabs
    have hvalid := h.panes pane hpane
    refine h.replacePane hsplit rfl (hvalid.replaceTab htabs (navigate_id hnav) ?_)
    refine navigate_wellFormed (hvalid.tabs tab htab) (hfilled pane hpane tab htab) ?_ hnav
    intro target htarget
    by_contra hempty
    exact hpayload ⟨target, htarget, hempty⟩
  | @updateView patch before after pane first second tab hsplit htabs =>
    have hvalid := h.panes pane (mem_middle hsplit)
    refine h.replacePane hsplit rfl (hvalid.replaceTab htabs rfl ?_)
    refine updateView_wellFormed (hvalid.tabs tab (mem_middle htabs)) ?_
    intro columns hcolumns
    by_contra hrepeated
    exact hpayload ⟨columns, hcolumns, hrepeated⟩
  | updateLayout layout => exact { h with layout := Classical.not_not.mp hpayload }

theorem buildTab_historyFilled (fresh : TabId) (location : TabLocation)
    (view : DirectoryViewConfiguration) :
    TabState.HistoryFilled { buildTab fresh location with view := view } := by
  intro entry hentry
  cases hentry

theorem Effect.historiesFilled (he : Effect fresh home w mutation w') (h : w.WellFormed)
    (hfilled : w.HistoriesFilled) : w'.HistoriesFilled := by
  cases he with
  | @addTab location before after pane hsplit =>
    refine forall_mem_replaced hfilled hsplit fun tab hmem => ?_
    rcases mem_append.mp hmem with hmem | hmem
    · exact hfilled pane (mem_middle hsplit) tab hmem
    · rw [mem_singleton.mp hmem]
      exact buildTab_historyFilled fresh location pane.defaultView
  | @closeTab tabId before after pane pane' hsplit hclose =>
    refine forall_mem_replaced hfilled hsplit fun tab hmem => ?_
    obtain ⟨first, closed, second, htabs, -, hcases⟩ := closeTab_cases hclose
    rcases hcases with ⟨-, rfl⟩ | ⟨-, active, rfl, -⟩
    · rw [mem_singleton.mp hmem]
      exact buildTab_historyFilled fresh home pane.defaultView
    · refine hfilled pane (mem_middle hsplit) tab ?_
      rw [htabs]
      exact (List.Sublist.append_left (sublist_cons_self _ _) first).subset hmem
  | @activateTab tabId before after pane hsplit hmem =>
    exact forall_mem_replaced hfilled hsplit (hfilled pane (mem_middle hsplit))
  | @navigateTab location mode before after pane first second tab tab' hsplit htabs hnav =>
    have hpane := hfilled pane (mem_middle hsplit)
    have hvalid := (h.panes pane (mem_middle hsplit)).tabs tab (mem_middle htabs)
    exact forall_mem_replaced hfilled hsplit (forall_mem_replaced hpane htabs
      (navigate_historyFilled hvalid (hpane tab (mem_middle htabs)) hnav))
  | @updateView patch before after pane first second tab hsplit htabs =>
    have hpane := hfilled pane (mem_middle hsplit)
    exact forall_mem_replaced hfilled hsplit
      (forall_mem_replaced hpane htabs (hpane tab (mem_middle htabs)))
  | _ => exact hfilled

-- ==== frames

/-- The elements with the key are changed so, and no other is. -/
def OnlyAt {α : Type} (key : α → Nat) (k : Nat) (change : α → α → Prop) (l l' : List α) : Prop :=
  List.Forall₂ (fun x x' => if key x = k then change x x' else x' = x) l l'

theorem onlyAt_replaced {key : α → Nat} {change : α → α → Prop}
    (hnodup : (l.map key).Nodup) (hsplit : l = before ++ x :: after) (hchange : change x x') :
    OnlyAt key (key x) change l (before ++ x' :: after) := by
  subst hsplit
  rw [map_append, map_cons] at hnodup
  obtain ⟨-, hafter, hdisjoint⟩ := nodup_append.mp hnodup
  have hnext := (nodup_cons.mp hafter).1
  refine rel_append (forall₂_same.mpr fun y hy => ?_)
    (List.Forall₂.cons ?_ (forall₂_same.mpr fun y hy => ?_))
  · rw [if_neg]
    exact hdisjoint (key y) (mem_map_of_mem hy) (key x) mem_cons_self
  · rw [if_pos rfl]
    exact hchange
  · rw [if_neg]
    intro heq
    exact hnext (heq ▸ mem_map_of_mem hy)

/-- A pane keeps everything but its tabs and the active one, and its
other tabs. -/
def KeepsOtherTabs (tabIds : List TabId) (pane pane' : PaneState) : Prop :=
  pane' = { pane with tabs := pane'.tabs, activeTabId := pane'.activeTabId }
    ∧ pane'.tabs.filter (fun tab => tab.id ∉ tabIds) = pane.tabs.filter (fun tab => tab.id ∉ tabIds)

/-- What a command leaves alone. -/
def Frame (fresh : TabId) (w w' : Workspace) : Mutation → Prop
  | .renameWorkspace name => w' = { w with name := name }
  | .setActivePane paneId => w' = { w with activePaneId := paneId }
  | .updateLayout layout => w' = { w with layout := layout }
  | .addTab paneId _ => ∃ panes, w' = { w with panes := panes }
      ∧ OnlyAt PaneState.id paneId (KeepsOtherTabs [fresh]) w.panes panes
  | .closeTab paneId tabId => ∃ panes, w' = { w with panes := panes }
      ∧ OnlyAt PaneState.id paneId (KeepsOtherTabs [tabId, fresh]) w.panes panes
  | .activateTab paneId tabId =>
    ∃ panes, w' = { w with panes := panes, activePaneId := paneId } ∧ OnlyAt PaneState.id paneId
        (fun pane pane' => pane' = { pane with activeTabId := tabId }) w.panes panes
  | .navigateTab paneId tabId _ _ => ∃ panes, w' = { w with panes := panes }
      ∧ OnlyAt PaneState.id paneId (fun pane pane' => pane' = { pane with tabs := pane'.tabs }
          ∧ OnlyAt TabState.id tabId (fun tab tab' =>
              tab' = { tab with location := tab'.location, history := tab'.history })
            pane.tabs pane'.tabs) w.panes panes
  | .updateView paneId tabId _ => ∃ panes, w' = { w with panes := panes }
      ∧ OnlyAt PaneState.id paneId (fun pane pane' => pane' = { pane with tabs := pane'.tabs }
          ∧ OnlyAt TabState.id tabId (fun tab tab' => tab' = { tab with view := tab'.view })
            pane.tabs pane'.tabs) w.panes panes

theorem closeTab_keeps (h : closeTab workspaceId fresh home tabId pane = .ok pane') :
    KeepsOtherTabs [tabId, fresh] pane pane' := by
  obtain ⟨first, closed, second, hsplit, hclosed, hcases⟩ := closeTab_cases h
  have hout : pane.tabs.filter (fun tab => tab.id ∉ [tabId, fresh])
      = (first ++ second).filter (fun tab => tab.id ∉ [tabId, fresh]) := by
    rw [hsplit, filter_append, filter_append, filter_cons_of_neg]
    simp [hclosed]
  unfold KeepsOtherTabs
  rw [hout]
  rcases hcases with ⟨hempty, rfl⟩ | ⟨-, active, rfl, -⟩
  · refine ⟨rfl, ?_⟩
    rw [hempty]
    simp [buildTab]
  · exact ⟨rfl, rfl⟩

theorem Effect.frame (he : Effect fresh home w mutation w') (h : w.WellFormed) :
    Frame fresh w w' mutation := by
  cases he with
  | @addTab location before after pane hsplit =>
    refine ⟨_, rfl, onlyAt_replaced h.ids hsplit ⟨rfl, ?_⟩⟩
    simp [filter_append, buildTab]
  | @closeTab tabId before after pane pane' hsplit hclose =>
    exact ⟨_, rfl, onlyAt_replaced h.ids hsplit (closeTab_keeps hclose)⟩
  | @activateTab tabId before after pane hsplit hmem =>
    exact ⟨_, rfl, onlyAt_replaced h.ids hsplit rfl⟩
  | @navigateTab location mode before after pane first second tab tab' hsplit htabs hnav =>
    have hids := (h.panes pane (mem_middle hsplit)).ids
    obtain ⟨target, history, rfl, -⟩ := navigate_spec hnav
    exact ⟨_, rfl, onlyAt_replaced h.ids hsplit ⟨rfl, onlyAt_replaced hids htabs rfl⟩⟩
  | @updateView patch before after pane first second tab hsplit htabs =>
    have hids := (h.panes pane (mem_middle hsplit)).ids
    exact ⟨_, rfl, onlyAt_replaced h.ids hsplit ⟨rfl, onlyAt_replaced hids htabs rfl⟩⟩
  | _ => rfl

-- ==== errors

theorem closeTab_error (h : closeTab workspaceId fresh home tabId pane = .error error) :
    error = .tabNotFound workspaceId pane.id tabId := by
  unfold closeTab at h
  split at h
  case h_1 =>
    cases h
    rfl
  case h_2 =>
    simp only at h
    obtain ⟨-, h⟩ := Fallible.passed h nofun
    split at h <;> cases h

theorem navigate_error (h : navigate location mode tab = .error error) :
    ∃ message, error = .invalidCommand message := by
  unfold navigate at h
  split at h
  case h_1 | h_4 =>
    split at h
    case h_1 =>
      cases h
      exact ⟨_, rfl⟩
    case h_2 => cases h
  case h_2 | h_3 =>
    split at h <;> cases h

theorem mutate_ne_invalid {errors : List ValidationError} :
    mutate fresh home w mutation ≠ .error (.invalid errors) := by
  intro h
  cases mutation with
  | renameWorkspace name =>
    simp only [mutate] at h
    split at h <;> cases h
  | setActivePane paneId =>
    simp only [mutate, findPane] at h
    split at h
    case h_1 => cases h
    case h_2 herror =>
      split at herror
      case h_1 => cases herror
      case h_2 =>
        cases herror
        cases h
  | addTab paneId location =>
    rcases modifyPane_eq_error h with herror | ⟨pane, herror⟩ <;> cases herror
  | closeTab paneId tabId =>
    rcases modifyPane_eq_error h with herror | ⟨pane, herror⟩
    · cases herror
    · cases closeTab_error herror
  | activateTab paneId tabId =>
    rcases modifyPane_eq_error h with herror | ⟨pane, herror⟩
    · cases herror
    · split at herror <;> cases herror
  | navigateTab paneId tabId location mode =>
    rcases modifyPane_eq_error h with herror | ⟨pane, herror⟩
    · cases herror
    · split at herror
      case h_1 => cases herror
      case h_2 hfirst =>
        cases herror
        rcases modifyFirst_eq_error hfirst with herror | ⟨tab, herror⟩
        · cases herror
        · obtain ⟨message, hmessage⟩ := navigate_error herror
          cases hmessage
  | updateView paneId tabId patch =>
    rcases modifyPane_eq_error h with herror | ⟨pane, herror⟩
    · cases herror
    · split at herror
      case h_1 => cases herror
      case h_2 hfirst =>
        cases herror
        rcases modifyFirst_eq_error hfirst with herror | ⟨tab, herror⟩ <;> cases herror
  | updateLayout layout => cases h

end FileManager.Workspaces
