/-
The workspaces that commands make of the default one: they are valid,
a command on them is rejected as invalid only for what it brings, and it
changes only what it addresses.
-/
import FileManager.Workspaces.Proofs.Invariant

namespace FileManager.Workspaces

open List Locations

variable {isUuid : List Char → Bool} {mutation : Mutation} {home : TabLocation} {w : Workspace}
  {fresh : TabId}

/-- The default workspace and what applied commands make of it; every
command draws an identifier that no tab has. -/
inductive Reachable (isUuid : List Char → Bool) : Workspace → Prop
  | default (home : List UInt8) (secondary : Option (List UInt8)) (ids : NewIds)
      (now : Nat) : Reachable isUuid (defaultWorkspace isUuid home secondary ids now)
  | apply {w w' : Workspace} {fresh : TabId} {home : List UInt8} {mutation : Mutation}
      (hw : Reachable isUuid w) (hunused : Unused fresh w)
      (happly : applyMutation fresh (locationFor isUuid home) w mutation = .ok w') :
      Reachable isUuid w'

-- ==== the default

theorem locationFor_filled (home : List UInt8) : (locationFor isUuid home).Filled := by
  unfold locationFor
  split
  case h_2 => exact ⟨by decide, by decide⟩
  case h_1 location hlocation =>
    obtain ⟨place, rfl⟩ : ∃ place, location = Place.location place :=
      ⟨_, (fromNativePath_eq_ok.mp hlocation).2.2⟩
    constructor
    · show place.scheme.provider ≠ ""
      cases place.scheme <;> decide
    · show String.ofList place.render ≠ ""
      intro hempty
      have hnil : place.render = [] := by
        have htext := congrArg String.toList hempty
        rw [String.toList_ofList] at htext
        exact htext
      exact append_ne_nil_of_right_ne_nil _ (cons_ne_nil _ _) hnil

theorem defaultColumns_nodup : (columnIds defaultDirectoryView.columns).Nodup := by
  decide

theorem defaultPane_wellFormed (paneId : PaneId) (tabId : TabId)
    {location : TabLocation} (h : location.Filled) :
    (defaultPane paneId tabId location).WellFormed :=
  { nonempty := List.cons_ne_nil _ _
    ids := List.nodup_singleton _
    tabs := by
      intro tab hmem
      rw [mem_singleton.mp hmem]
      exact buildTab_wellFormed h defaultColumns_nodup tabId
    active := mem_singleton_self _
    columns := defaultColumns_nodup }

theorem defaultWorkspace_wellFormed (home : List UInt8) (secondary : Option (List UInt8))
    (ids : NewIds) (now : Nat) : (defaultWorkspace isUuid home secondary ids now).WellFormed :=
  { schema := Nat.le_refl _
    nonempty := cons_ne_nil _ _
    ids := by
      show [ids.leftPane, ids.rightPane].Nodup
      simp [ids.panes_differ]
    panes := by
      intro pane hmem
      simp only [defaultWorkspace, mem_cons, not_mem_nil, or_false] at hmem
      rcases hmem with rfl | rfl
      · exact defaultPane_wellFormed _ _ (locationFor_filled home)
      · exact defaultPane_wellFormed _ _ (locationFor_filled _)
    active := mem_cons_self
    layout := { ratios := by
                  show (if SplitRatio.inRange (.finite (mkRat 1 2)) then [] else _) ++ [] ++ [] = []
                  rw [if_pos (by decide)]
                  rfl
                panes := List.Perm.refl _ } }

theorem defaultWorkspace_historiesFilled (home : List UInt8)
    (secondary : Option (List UInt8)) (ids : NewIds) (now : Nat) :
    (defaultWorkspace isUuid home secondary ids now).HistoriesFilled := by
  intro pane hpane tab htab
  simp only [defaultWorkspace, mem_cons, not_mem_nil, or_false] at hpane
  rcases hpane with rfl | rfl
  all_goals
    rw [mem_singleton.mp htab]
    exact buildTab_historyFilled _ _ defaultDirectoryView

-- ==== commands

theorem wellFormed_of_applyMutation {w' : Workspace}
    (h : applyMutation fresh home w mutation = .ok w') : w'.WellFormed := by
  unfold applyMutation at h
  split at h
  case h_1 => cases h
  case h_2 =>
    split at h
    case h_1 => cases h
    case h_2 hvalid =>
      cases h
      exact validate_eq_ok.mp hvalid

theorem payloadInvalid_of_applyMutation {errors : List ValidationError} (hw : w.WellFormed)
    (hfilled : w.HistoriesFilled) (hunused : Unused fresh w) (hhome : home.Filled)
    (h : applyMutation fresh home w mutation = .error (.invalid errors)) :
    PayloadInvalid w mutation := by
  unfold applyMutation at h
  split at h
  case h_1 error herror =>
    cases h
    exact absurd herror mutate_ne_invalid
  case h_2 w' hm =>
    by_contra hpayload
    have hw' := (effect_of_mutate hm).wellFormed hw hfilled hunused hhome hpayload
    rw [validate_eq_ok.mpr hw'] at h
    cases h

theorem Reachable.invariant (h : Reachable isUuid w) : w.WellFormed ∧ w.HistoriesFilled := by
  induction h with
  | default home secondary ids now =>
    exact ⟨defaultWorkspace_wellFormed home secondary ids now,
      defaultWorkspace_historiesFilled home secondary ids now⟩
  | apply hw hunused happly ih =>
    have heffect := effect_of_mutate (mutate_of_applyMutation happly)
    exact ⟨wellFormed_of_applyMutation happly, heffect.historiesFilled ih.1 ih.2⟩

/-- Commands keep a workspace valid, and within bounds. -/
theorem commands_keep_workspace_valid {w : Workspace} (h : Reachable isUuid w) :
    w.validate = .ok ()
      ∧ ∀ (fresh : TabId) (home : List UInt8) (mutation : Mutation), Unused fresh w →
        (∀ errors, applyMutation fresh (locationFor isUuid home) w mutation
            = .error (.invalid errors) → PayloadInvalid w mutation)
        ∧ ∀ w', applyMutation fresh (locationFor isUuid home) w mutation = .ok w' →
          w'.validate = .ok () ∧ Frame fresh w w' mutation := by
  obtain ⟨hw, hfilled⟩ := h.invariant
  refine ⟨validate_eq_ok.mpr hw, fun fresh home mutation hunused => ⟨?_, ?_⟩⟩
  · intro errors herror
    exact payloadInvalid_of_applyMutation hw hfilled hunused (locationFor_filled home)
      herror
  · intro w' happly
    refine ⟨validate_eq_ok.mpr (wellFormed_of_applyMutation happly), ?_⟩
    exact (effect_of_mutate (mutate_of_applyMutation happly)).frame hw

-- ==== the samples

/-- The identifiers of a sample workspace. -/
def sampleIds : NewIds where
  workspace := 0
  leftPane := 1
  leftTab := 10
  rightPane := 2
  rightTab := 20
  panes_differ := by decide

/-- The default workspace of a user. -/
def sampleDefault : Workspace :=
  defaultWorkspace isHyphenatedUuid (Text.utf8 "/home/erik".toList) none
    sampleIds 0

theorem commands_keep_workspace_valid_closing :
    ∃ w', applyMutation 30 (locationFor isHyphenatedUuid
          (Text.utf8 "/home/erik".toList)) sampleDefault (.closeTab 1 10) = .ok w'
      ∧ w'.validate = .ok () ∧ Frame 30 sampleDefault w' (.closeTab 1 10) := by
  have hreachable : Reachable isHyphenatedUuid sampleDefault := .default _ _ _ _
  have hunused : Unused 30 sampleDefault := by
    unfold Unused
    decide +kernel
  have hsome : ∃ w', applyMutation 30 (locationFor isHyphenatedUuid
      (Text.utf8 "/home/erik".toList)) sampleDefault (.closeTab 1 10) = .ok w' := by
    cases happly : applyMutation 30 (locationFor isHyphenatedUuid
        (Text.utf8 "/home/erik".toList)) sampleDefault (.closeTab 1 10) with
    | ok w' => exact ⟨w', rfl⟩
    | error error =>
      have hok : (applyMutation 30 (locationFor isHyphenatedUuid
        (Text.utf8 "/home/erik".toList)) sampleDefault (.closeTab 1 10)).isOk = true := by
        decide +kernel
      rw [happly] at hok
      cases hok
  obtain ⟨w', happly⟩ := hsome
  obtain ⟨-, hcommands⟩ := commands_keep_workspace_valid hreachable
  exact ⟨w', happly, (hcommands 30 _ _ hunused).2 w' happly⟩

/-- Activating a tab of the other pane changes the workspace's active
pane, which is neither of the two that the command addresses. -/
theorem activating_tab_changes_active_pane :
    Reachable isHyphenatedUuid sampleDefault
      ∧ ∃ w', applyMutation 30 (locationFor isHyphenatedUuid
            (Text.utf8 "/home/erik".toList)) sampleDefault (.activateTab 2 20) = .ok w'
        ∧ sampleDefault.activePaneId = 1 ∧ w'.activePaneId = 2
        ∧ ¬ ∃ panes, w' = { sampleDefault with panes := panes } := by
  refine ⟨.default _ _ _ _, { sampleDefault with activePaneId := 2 }, ?_, ?_, rfl, ?_⟩
  · decide +kernel
  · decide +kernel
  · intro hfound
    obtain ⟨panes, heq⟩ := hfound
    have hactive : 2 = sampleDefault.activePaneId :=
      congrArg Workspace.activePaneId heq
    exact absurd hactive (by decide +kernel)

end FileManager.Workspaces
