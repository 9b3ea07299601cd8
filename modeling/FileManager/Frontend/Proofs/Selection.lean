/-
What an extension of the selection covers.

# The argument

An extension gives the rows from the anchor to the cursor and, of the
frozen base, the entries that it sees. Along a run the entries of the
base that an action takes out of the selection, and none puts back, are
kept in `lost`: every entry of the base is selected or lost (`Kept`), so
an extension that sees none of the lost ones brings nothing back. One
that sees such an entry does, because no action takes it off the base.
-/
import FileManager.Frontend.Selection
import FileManager.Lib.Machine
import Mathlib.Data.List.Nodup

namespace FileManager.Frontend

open Machine (Run Free)
open List Option SelectionAction

variable {ε : Type} [DecidableEq ε]

-- ==== vocabulary

def SelectionAction.extends : SelectionAction ε → Bool
  | .extendRange _ | .extendRangeTo _ => true
  | _ => false

/-- An action, and the entries that are visible when it is taken. -/
structure Gesture (ε : Type) where
  action : SelectionAction ε
  visible : List ε
  once : visible.Nodup

/-- The entries from the anchor to the cursor, once an extension is done.
The row that the cursor came from stands in for an anchor that is not
visible. -/
def covered (before after : SelectionState ε) (visible : List ε) : List ε :=
  let anchor := (after.anchorEntryId.bind fun id => visible.idxOf? id).getD
    (cursorIndex before visible)
  match after.cursorEntryId.bind fun id => visible.idxOf? id with
  | some cursor => slice visible (min anchor cursor) (max anchor cursor + 1)
  | none => []

/-- A run of extensions: what was selected as it began, and what the last
of them covers. -/
structure Extending (ε : Type) where
  start : List ε
  covered : List ε
deriving DecidableEq

/-- A pane's selection, the run of extensions it is in, and the frozen
entries that were taken out of the selection and not put back. -/
structure Selecting (ε : Type) where
  selection : SelectionState ε
  extending : Option (Extending ε)
  lost : List ε
deriving DecidableEq

open Selecting

def Selecting.initial : Selecting ε := ⟨emptySelection, none, []⟩

/-- What was selected immediately before the run of extensions that an
extension goes on with, or begins. -/
def Selecting.start (s : Selecting ε) : List ε :=
  match s.extending with
  | some extending => extending.start
  | none => s.selection.selectedEntryIds

/-- The extension has a row to go to. -/
def SelectionAction.HasRow (visible : List ε) : SelectionAction ε → Prop
  | .extendRange _ => visible ≠ []
  | .extendRangeTo entryId => entryId ∈ visible
  | _ => True

instance (visible : List ε) (action : SelectionAction ε) : Decidable (action.HasRow visible) := by
  cases action <;> unfold HasRow <;> infer_instance

/-- The actions that leave the frozen base as it is. -/
def SelectionAction.keepsBase (visible : List ε) : SelectionAction ε → Bool
  | .moveCursor _ | .moveCursorTo _ => decide (visible = [])
  | .positionCursor _ | .selectOnly _ | .toggle _ | .toggleAndAdvance .. | .clear | .prune _ => false
  | .setCursor _ | .typeaheadPending _ | .extendRange _ | .extendRangeTo _ | .selectAll | .invert
  | .selectByMask _ | .deselectByMask _ | .restore _ => true

/-- The selected entries that such an action takes out; an extension
those that it does not see. -/
def SelectionAction.takes (selected visible : List ε) : SelectionAction ε → List ε
  | .selectAll => selected.filter fun id => decide (id ∉ visible)
  | .invert => selected
  | .deselectByMask matching => selected.filter fun id => decide (id ∈ matching)
  | .restore entryIds => selected.filter fun id => decide (¬ (id ∈ entryIds ∧ id ∈ visible))
  | .extendRange _ | .extendRangeTo _ => selected.filter fun id => decide (id ∉ visible)
  | _ => []

/-- The entries that it puts in. -/
def SelectionAction.puts (selected visible : List ε) : SelectionAction ε → List ε
  | .selectAll => visible
  | .invert => visible.filter fun id => decide (id ∉ selected)
  | .selectByMask matching => visible.filter fun id => decide (id ∈ matching)
  | .restore entryIds => visible.filter fun id => decide (id ∈ entryIds)
  | _ => []

/-- The lost entries after an action. -/
def Selecting.lostAfter (s : Selecting ε) (a : Gesture ε) : List ε :=
  if a.action.keepsBase a.visible = false then []
  else if a.action.HasRow a.visible then
    s.lost.filter (fun id =>
        decide (id ∉ a.action.puts s.selection.selectedEntryIds a.visible))
      ++ (a.action.takes s.selection.selectedEntryIds a.visible).filter fun id =>
        decide (id ∈ s.selection.baseSelectedEntryIds.getD [])
  else s.lost

def Selecting.step (a : Gesture ε) (s : Selecting ε) : Option (Selecting ε) :=
  let selection := reduceSelection s.selection a.action a.visible
  some
    { selection
      extending :=
        if a.action.extends then some ⟨s.start, covered s.selection selection a.visible⟩
        else none
      lost := s.lostAfter a }

/-- An extension that has a row to go to sees no lost entry, those apart
that its run began with; one that has none goes on with a run only while
the rows that the run covered are between anchor and cursor. -/
def Spares (s : Selecting ε) (a : Gesture ε) : Prop :=
  a.action.extends = true →
    (a.action.HasRow a.visible → ∀ id ∈ s.lost, id ∈ a.visible → id ∈ s.start)
    ∧ (¬ a.action.HasRow a.visible → ∀ extending, s.extending = some extending →
      ∀ id ∈ extending.covered, id ∈ covered s.selection s.selection a.visible)

-- ==== rows

variable {id : ε} {ids : List ε}

omit [DecidableEq ε] in
theorem mem_slice {start stop : Nat} :
    id ∈ slice ids start stop ↔ ∃ row, start ≤ row ∧ row < stop ∧ ids[row]? = some id := by
  simp only [slice, mem_iff_getElem?, getElem?_drop, getElem?_take]
  constructor
  · rintro ⟨row, hrow⟩
    split at hrow
    case isTrue hstop => exact ⟨start + row, by omega, hstop, hrow⟩
    case isFalse => cases hrow
  · rintro ⟨row, hstart, hstop, hrow⟩
    refine ⟨row - start, ?_⟩
    rw [show start + (row - start) = row by omega, if_pos hstop]
    exact hrow

omit [DecidableEq ε] in
theorem mem_slice_of_le {start stop start' stop' : Nat} (h : id ∈ slice ids start stop)
    (hstart : start' ≤ start) (hstop : stop ≤ stop') : id ∈ slice ids start' stop' := by
  obtain ⟨row, hlow, hhigh, hrow⟩ := mem_slice.1 h
  exact mem_slice.2 ⟨row, by omega, by omega, hrow⟩

omit [DecidableEq ε] in
theorem mem_departedRange {anchor next : Nat} {clampedAtBoundary : Bool}
    (h : id ∈ departedRange ids anchor next clampedAtBoundary) :
    id ∈ slice ids (min anchor next) (max anchor next + 1) := by
  unfold departedRange at h
  split at h
  case isTrue hdown =>
    refine mem_slice_of_le h (by omega) ?_
    cases clampedAtBoundary with
    | true => simp only [if_true]; omega
    | false => simp only [Bool.false_eq_true, if_false]; omega
  case isFalse =>
    split at h
    case isTrue hup =>
      refine mem_slice_of_le h ?_ (by omega)
      cases clampedAtBoundary with
      | true => simp only [if_true]; omega
      | false => simp only [Bool.false_eq_true, if_false]; omega
    case isFalse => exact mem_slice_of_le h (by omega) (by omega)

variable {visible : List ε}

theorem mem_merged {base : Option (List ε)} {range : List ε} (h : id ∈ merged base visible range) :
    id ∈ range ∨ ∃ frozen, base = some frozen ∧ id ∈ frozen ∧ id ∈ visible := by
  cases base with
  | none => exact .inl h
  | some frozen =>
    simp only [merged, mem_filter, decide_eq_true_eq] at h
    obtain ⟨hvisible, hfrozen | hrange⟩ := h
    · exact .inr ⟨frozen, rfl, hfrozen, hvisible⟩
    · exact .inl hrange

theorem idxOf?_row (honce : visible.Nodup) {row : Nat} (hrow : row < visible.length) :
    visible.idxOf? visible[row] = some row := by
  refine idxOf?_eq_some_iff.2 ⟨hrow, rfl, fun j hj heq => ?_⟩
  have hsame := (Nodup.getElem_inj_iff honce).1 heq
  omega

omit [DecidableEq ε] in
theorem clampedIndex_lt (hrow : visible ≠ []) (index : Int) :
    ∃ row, clampedIndex index visible = some row ∧ row < visible.length := by
  have hlength := length_pos_of_ne_nil hrow
  refine ⟨_, if_neg (by omega), ?_⟩
  omega

-- ==== one extension

theorem covered_of_extension {state : SelectionState ε} {action : SelectionAction ε}
    (honce : visible.Nodup) (hextends : action.extends = true) (hrow : action.HasRow visible)
    (hid : id ∈ (reduceSelection state action visible).selectedEntryIds) :
    id ∈ covered state (reduceSelection state action visible) visible
      ∨ ∃ base, state.baseSelectedEntryIds = some base ∧ id ∈ base ∧ id ∈ visible := by
  cases action with
  | extendRange offset =>
    have hne : visible ≠ [] := hrow
    have hlength : visible.length ≠ 0 := fun h => hne (eq_nil_of_length_eq_zero h)
    obtain ⟨next, hnext, hlt⟩ := clampedIndex_lt hne (cursorIndex state visible + offset)
    simp only [reduceSelection, extendRange, if_neg hlength, hnext, getD_some] at hid ⊢
    refine (mem_merged hid).imp_left fun hrange => ?_
    have hcursor : (visible[next]?.bind fun id => visible.idxOf? id) = some next := by
      rw [getElem?_eq_getElem hlt]
      exact idxOf?_row honce hlt
    simp only [covered, hcursor]
    exact mem_departedRange hrange
  | extendRangeTo entryId =>
    have hmem : entryId ∈ visible := hrow
    obtain ⟨target, htarget⟩ := isSome_iff_exists.1 (isSome_idxOf?.2 hmem)
    simp only [reduceSelection, extendRangeTo, htarget] at hid ⊢
    refine (mem_merged hid).imp_left fun hrange => ?_
    simp only [covered, bind_some, htarget]
    -- An anchor that is not visible leaves the target alone.
    cases hanchor : visible.idxOf? ((state.anchorEntryId <|> state.cursorEntryId).getD entryId) with
    | none =>
      rw [hanchor, getD_none] at hrange
      refine mem_slice_of_le hrange ?_ ?_ <;> omega
    | some anchor =>
      rw [hanchor] at hrange
      exact hrange
  | _ => cases hextends

variable {state : SelectionState ε} {action : SelectionAction ε}

/-- An extension without a row to go to does nothing. -/
theorem extension_without_row (hextends : action.extends = true) (hrow : ¬ action.HasRow visible) :
    reduceSelection state action visible = state := by
  cases action with
  | extendRange offset =>
    obtain rfl := Classical.not_not.1 hrow
    rfl
  | extendRangeTo entryId =>
    have hnone : visible.idxOf? entryId = none := idxOf?_eq_none_iff.2 hrow
    simp only [reduceSelection, extendRangeTo, hnone]
  | _ => cases hextends

/-- The frozen entries that an extension sees are selected by it. -/
theorem extension_selects {base : List ε} (hextends : action.extends = true)
    (hrow : action.HasRow visible) (hbase : state.baseSelectedEntryIds = some base)
    (hid : id ∈ base) (hsee : id ∈ visible) :
    id ∈ (reduceSelection state action visible).selectedEntryIds := by
  cases action with
  | extendRange offset =>
    have hlength : visible.length ≠ 0 := fun h => hrow (eq_nil_of_length_eq_zero h)
    simp only [reduceSelection, extendRange, if_neg hlength, hbase, merged, mem_filter]
    exact ⟨hsee, decide_eq_true (.inl hid)⟩
  | extendRangeTo entryId =>
    obtain ⟨target, htarget⟩ := isSome_iff_exists.1 (isSome_idxOf?.2 hrow)
    simp only [reduceSelection, extendRangeTo, htarget, hbase, merged, mem_filter]
    exact ⟨hsee, decide_eq_true (.inl hid)⟩
  | _ => cases hextends

-- ==== the base

theorem base_kept (hkeeps : action.keepsBase visible = true) :
    (reduceSelection state action visible).baseSelectedEntryIds = state.baseSelectedEntryIds := by
  cases action with
  | moveCursor offset =>
    obtain rfl := of_decide_eq_true hkeeps
    rfl
  | moveCursorTo edge =>
    obtain rfl := of_decide_eq_true hkeeps
    cases edge <;> rfl
  | extendRange offset =>
    show (extendRange state offset visible).baseSelectedEntryIds = _
    unfold extendRange
    split <;> rfl
  | extendRangeTo entryId =>
    show (extendRangeTo state entryId visible).baseSelectedEntryIds = _
    unfold extendRangeTo
    split <;> rfl
  | selectByMask | deselectByMask =>
    simp only [reduceSelection]
    split <;> rfl
  | setCursor | typeaheadPending | selectAll | invert | restore => rfl
  | _ => cases hkeeps

theorem placeCursor_frozen {entryId : ε} {base : List ε}
    (h : (placeCursor state entryId visible).baseSelectedEntryIds = some base) :
    (placeCursor state entryId visible).selectedEntryIds = base := by
  unfold placeCursor at h ⊢
  split at h
  case isTrue hmany => rw [if_pos hmany]; exact some.inj h
  case isFalse => cases h

/-- A base that an action freezes is what is selected then. -/
theorem base_frozen {base : List ε} (hkeeps : action.keepsBase visible = false)
    (hbase : (reduceSelection state action visible).baseSelectedEntryIds = some base) :
    (reduceSelection state action visible).selectedEntryIds = base := by
  cases action with
  | moveCursor offset =>
    obtain ⟨row, hrow, hlt⟩ := clampedIndex_lt (of_decide_eq_false hkeeps)
      (cursorIndex state visible + offset)
    simp only [reduceSelection, hrow, bind_some, getElem?_eq_getElem hlt] at hbase ⊢
    exact placeCursor_frozen hbase
  | moveCursorTo edge =>
    have hrows : visible ≠ [] := of_decide_eq_false hkeeps
    cases edge with
    | first =>
      simp only [reduceSelection, head?_eq_some_head hrows] at hbase ⊢
      exact placeCursor_frozen hbase
    | last =>
      simp only [reduceSelection, getLast?_eq_some_getLast hrows] at hbase ⊢
      exact placeCursor_frozen hbase
  | positionCursor => exact placeCursor_frozen hbase
  | selectOnly | toggle | toggleAndAdvance | clear | prune => cases hbase
  | _ => cases hkeeps

/-- Of the other actions that keep the base: what they put in is
selected, and so is what they do not take out. -/
theorem selected_after (hkeeps : action.keepsBase visible = true) (hextends : action.extends = false)
    (h : id ∈ action.puts state.selectedEntryIds visible ∨ (id ∈ state.selectedEntryIds
      ∧ id ∉ action.takes state.selectedEntryIds visible)) :
    id ∈ (reduceSelection state action visible).selectedEntryIds := by
  cases action with
  | extendRange | extendRangeTo => cases hextends
  | moveCursor offset =>
    obtain rfl := of_decide_eq_true hkeeps
    exact (h.resolve_left not_mem_nil).1
  | moveCursorTo edge =>
    obtain rfl := of_decide_eq_true hkeeps
    cases edge <;> exact (h.resolve_left not_mem_nil).1
  | setCursor | typeaheadPending => exact (h.resolve_left not_mem_nil).1
  | selectAll | invert | restore =>
    simp only [puts, takes, reduceSelection, mem_filter,
      decide_eq_true_eq] at h ⊢
    tauto
  | selectByMask | deselectByMask =>
    simp only [puts, takes, mem_filter, decide_eq_true_eq] at h
    simp only [reduceSelection]
    split
    case isTrue hempty => simp_all
    case isFalse =>
      simp only [visibleFirst, mem_append, mem_filter, decide_eq_true_eq]
      tauto
  | _ => cases hkeeps

-- ==== runs

/-- The frozen entries are selected or lost, and an extending run began
with them or has lost them. -/
structure Kept (s : Selecting ε) : Prop where
  selected : ∀ base, s.selection.baseSelectedEntryIds = some base →
    ∀ id ∈ base, id ∈ s.selection.selectedEntryIds ∨ id ∈ s.lost
  began : ∀ base, s.selection.baseSelectedEntryIds = some base →
    ∀ id ∈ base, id ∈ s.start ∨ id ∈ s.lost
  lost : ∀ id ∈ s.lost, id ∈ s.selection.baseSelectedEntryIds.getD []

omit [DecidableEq ε] in
theorem extends_keepsBase (h : action.extends = true) : action.keepsBase visible = true := by
  cases action <;> first | rfl | cases h

omit [DecidableEq ε] in
theorem hasRow_of_not_extends (h : action.extends = false) : action.HasRow visible := by
  cases action <;> trivial

theorem puts_of_extends (h : action.extends = true) (selected : List ε) :
    action.puts selected visible = [] := by
  cases action <;> cases h <;> rfl

theorem takes_of_extends (h : action.extends = true) (selected : List ε) :
    action.takes selected visible = selected.filter fun id => decide (id ∉ visible) := by
  cases action <;> cases h <;> rfl

variable {s s' : Selecting ε} {a : Gesture ε}

theorem mem_lostAfter (hkeeps : a.action.keepsBase a.visible = true) :
    id ∈ s.lostAfter a ↔ if a.action.HasRow a.visible then
      (id ∈ s.lost ∧ id ∉ a.action.puts s.selection.selectedEntryIds a.visible)
        ∨ (id ∈ a.action.takes s.selection.selectedEntryIds a.visible
          ∧ id ∈ s.selection.baseSelectedEntryIds.getD [])
      else id ∈ s.lost := by
  unfold lostAfter
  rw [if_neg (by simp [hkeeps])]
  split <;> simp [mem_append, mem_filter]

theorem lost_of_extends (hextends : a.action.extends = true) (h : id ∈ s.lost) :
    id ∈ s.lostAfter a := by
  rw [mem_lostAfter (extends_keepsBase hextends), puts_of_extends hextends]
  split
  · exact .inl ⟨h, not_mem_nil⟩
  · exact h

omit [DecidableEq ε] in
theorem Kept.initial : Kept (initial : Selecting ε) where
  selected := by
    intro base hbase
    cases hbase
  began := by
    intro base hbase
    cases hbase
  lost := by
    intro id hid
    cases hid

theorem Kept.step (h : Kept s) (hstep : step a s = some s') : Kept s' := by
  obtain rfl := some.inj hstep
  cases hkeeps : a.action.keepsBase a.visible with
  | false =>
    have hextends : a.action.extends = false := by
      cases hextends : a.action.extends with
      | false => rfl
      | true => exact (extends_keepsBase hextends).symm.trans hkeeps
    have hlost : s.lostAfter a = [] := if_pos hkeeps
    refine ⟨fun base hbase id hid => .inl ?_, fun base hbase id hid => .inl ?_, ?_⟩
    · exact base_frozen hkeeps hbase ▸ hid
    · simp only [start, hextends]
      exact base_frozen hkeeps hbase ▸ hid
    · rw [hlost]
      exact nofun
  | true =>
    have hlost : ∀ id ∈ s.lostAfter a, id ∈ s.selection.baseSelectedEntryIds.getD [] := by
      intro id hid
      rw [mem_lostAfter hkeeps] at hid
      split at hid
      · exact hid.elim (fun hid => h.lost id hid.1) (·.2)
      · exact h.lost id hid
    have hselected : ∀ base, s.selection.baseSelectedEntryIds = some base → ∀ id ∈ base,
        id ∈ (reduceSelection s.selection a.action a.visible).selectedEntryIds
          ∨ id ∈ s.lostAfter a := by
      intro base hbase id hid
      have hmem : id ∈ s.selection.baseSelectedEntryIds.getD [] := by
        rw [hbase]
        exact hid
      rw [mem_lostAfter hkeeps]
      split
      case isFalse hrow =>
        cases hextends : a.action.extends with
        | false => exact absurd (hasRow_of_not_extends hextends) hrow
        | true =>
          rw [extension_without_row hextends hrow]
          exact h.selected base hbase id hid
      case isTrue hrow =>
        cases hextends : a.action.extends with
        | false =>
          by_cases hputs : id ∈ a.action.puts s.selection.selectedEntryIds a.visible
          · exact .inl (selected_after hkeeps hextends (.inl hputs))
          rcases h.selected base hbase id hid with hwas | hlost
          · by_cases htakes : id ∈ a.action.takes s.selection.selectedEntryIds a.visible
            · exact .inr (.inr ⟨htakes, hmem⟩)
            · exact .inl (selected_after hkeeps hextends (.inr ⟨hwas, htakes⟩))
          · exact .inr (.inl ⟨hlost, hputs⟩)
        | true =>
          by_cases hsee : id ∈ a.visible
          · exact .inl (extension_selects hextends hrow hbase hid hsee)
          rcases h.selected base hbase id hid with hwas | hlost
          · rw [takes_of_extends hextends]
            exact .inr (.inr ⟨mem_filter.2 ⟨hwas, decide_eq_true hsee⟩, hmem⟩)
          · rw [puts_of_extends hextends]
            exact .inr (.inl ⟨hlost, not_mem_nil⟩)
    have hbase : (reduceSelection s.selection a.action a.visible).baseSelectedEntryIds
        = s.selection.baseSelectedEntryIds :=
      base_kept hkeeps
    refine ⟨fun base hb => hselected base (hbase ▸ hb), fun base hb id hid => ?_, ?_⟩
    · cases hextends : a.action.extends with
      | false =>
        simp only [start]
        exact hselected base (hbase ▸ hb) id hid
      | true =>
        simp only [start]
        exact (h.began base (hbase ▸ hb) id hid).imp_right (lost_of_extends hextends)
    · rw [hbase]
      exact hlost

theorem kept_run {ok : Selecting ε → Gesture ε → Prop} {acts : List (Gesture ε)}
    (hrun : Run step ok .initial acts s) : Kept s :=
  hrun.invariant Kept.initial fun _ _ hstep h => h.step hstep

/-- The selection while it is extended. -/
def Bounded (s : Selecting ε) : Prop :=
  ∀ extending, s.extending = some extending →
    ∀ id ∈ s.selection.selectedEntryIds, id ∈ extending.covered ∨ id ∈ extending.start

theorem Bounded.step (h : Bounded s) (hkept : Kept s) (hok : Spares s a)
    (hstep : step a s = some s') : Bounded s' := by
  obtain rfl := some.inj hstep
  intro extending hextending id hid
  cases hextends : a.action.extends with
  | false =>
    simp only [hextends] at hextending
    cases hextending
  | true =>
    simp only [hextends, if_true, some.injEq] at hextending
    subst hextending
    obtain ⟨hrow, hnone⟩ := hok hextends
    by_cases hhas : a.action.HasRow a.visible
    · rcases covered_of_extension a.once hextends hhas hid with hcovered | ⟨base, hbase, hmem, hsee⟩
      · exact .inl hcovered
      · rcases hkept.began base hbase id hmem with hstart | hlost
        · exact .inr hstart
        · exact .inr (hrow hhas id hlost hsee)
    · rw [extension_without_row hextends hhas] at hid ⊢
      unfold start
      cases hs : s.extending with
      | none => exact .inr hid
      | some extending => exact (h extending hs id hid).imp_left (hnone hhas extending hs id)

/-- In every run whose extensions see no lost entry, an extension leaves
what it covers and what was selected before the extensions it is one of.
An extension that sees one selects it again. -/
theorem extensions_resurrect_nothing {acts : List (Gesture ε)} :
    (Run step Spares .initial acts s → ∀ extending, s.extending = some extending →
      ∀ id ∈ s.selection.selectedEntryIds, id ∈ extending.covered ∨ id ∈ extending.start)
    ∧ (Run step Free .initial acts s → ∀ a : Gesture ε, a.action.extends = true →
      a.action.HasRow a.visible → ∀ id ∈ s.lost, id ∈ a.visible →
        id ∈ (reduceSelection s.selection a.action a.visible).selectedEntryIds) := by
  constructor
  · intro hrun
    have hboth : Kept s ∧ Bounded s := by
      refine hrun.invariant (P := fun s => Kept s ∧ Bounded s)
        ⟨Kept.initial, fun _ h => by cases h⟩ fun a hok hstep h => ?_
      exact ⟨h.1.step hstep, h.2.step h.1 hok hstep⟩
    exact hboth.2
  · intro hrun a hextends hrow id hlost hsee
    have hmem := (kept_run hrun).lost id hlost
    cases hbase : s.selection.baseSelectedEntryIds with
    | none =>
      simp [hbase] at hmem
    | some base =>
      rw [hbase] at hmem
      exact extension_selects hextends hrow hbase hmem hsee

-- Two entries marked, the cursor moved on, and an extension.

def rows (action : SelectionAction Nat) : Gesture Nat := ⟨action, [1, 2, 3, 4], by decide⟩

def marking : List (Gesture Nat) := [rows (.toggle 1), rows (.toggle 2), rows (.moveCursor 1)]

theorem marked_extension_covers :
    ∃ s : Selecting Nat, s.extending = some ⟨[1, 2], [3, 4]⟩
      ∧ s.selection.selectedEntryIds = [1, 2, 3]
      ∧ ∀ id ∈ s.selection.selectedEntryIds, id ∈ [3, 4] ∨ id ∈ [1, 2] := by
  have hmarked : Run step Spares .initial marking
      ⟨⟨[1, 2], some 3, some 3, some [1, 2]⟩, none, []⟩ := by
    refine ((Run.start.snoc (rows (.toggle 1)) nofun rfl).snoc (rows (.toggle 2)) nofun rfl).snoc
      (rows (.moveCursor 1)) nofun ?_
    decide
  have hextended : Run step Spares .initial (marking ++ [rows (.extendRange 1)])
      ⟨⟨[1, 2, 3], some 4, some 3, some [1, 2]⟩, some ⟨[1, 2], [3, 4]⟩, []⟩ := by
    refine hmarked.snoc (rows (.extendRange 1)) (fun _ => ⟨fun _ id hid => ?_, fun h => ?_⟩)
      (by decide)
    · cases hid
    · exact absurd (by exact nofun) h
  exact ⟨_, rfl, rfl, extensions_resurrect_nothing.1 hextended _ rfl⟩

/-- The first of the two is taken out again by its mask before the
extension, which brings it back. -/
theorem deselected_entry_back :
    ∃ s : Selecting Nat,
      Run step Free .initial
        (marking ++ [rows (.deselectByMask [1]), rows (.extendRange 1)]) s
      ∧ s.extending = some ⟨[2], [3, 4]⟩ ∧ s.selection.selectedEntryIds = [1, 2, 3] :=
  Run.exists_of_run (by decide +kernel)

end FileManager.Frontend
