/-
The selection of a pane (`frontend`, `selection.ts`): which entries are
selected, where the cursor is, and what a range is extended from.

A set made of an array has the elements in the order in which they come
first. An index that is not found is no index here; the places where the
source goes on with `-1` say so.
-/
import Mathlib.Data.List.Basic

namespace FileManager.Frontend

-- ==== the types

structure SelectionState (ε : Type) where
  selectedEntryIds : List ε
  cursorEntryId : Option ε
  anchorEntryId : Option ε
  baseSelectedEntryIds : Option (List ε)
deriving DecidableEq

def emptySelection {ε : Type} : SelectionState ε where
  selectedEntryIds := []
  cursorEntryId := none
  anchorEntryId := none
  baseSelectedEntryIds := none

inductive Edge
  | first
  | last

inductive SelectionAction (ε : Type)
  | moveCursor (offset : Int)
  | moveCursorTo (edge : Edge)
  | setCursor (entryId : ε)
  | positionCursor (entryId : ε)
  | selectOnly (entryId : ε)
  | typeaheadPending (typed : String)
  | toggle (entryId : ε)
  | toggleAndAdvance (entryId : ε) (offset : Int)
  | extendRange (offset : Int)
  | extendRangeTo (entryId : ε)
  | selectAll
  | invert
  | selectByMask (matchingEntryIds : List ε)
  | deselectByMask (matchingEntryIds : List ε)
  | clear
  | prune (removedEntryIds : List ε)
  | restore (entryIds : List ε)

-- ==== indices

variable {ε : Type} [DecidableEq ε]

/-- `Array.prototype.slice`, of indices that are not negative. -/
def slice (ids : List ε) (start stop : Nat) : List ε := (ids.take stop).drop start

def clampedIndex (index : Int) (entryIds : List ε) : Option Nat :=
  if entryIds.length = 0 then none
  else some (max 0 (min index (entryIds.length - 1))).toNat

def cursorIndex (state : SelectionState ε) (entryIds : List ε) : Nat :=
  (state.cursorEntryId.bind fun id => entryIds.idxOf? id).getD 0

-- ==== transitions

/-- Put the cursor on an entry: a selection of several visible entries is
kept, and frozen as the base of what is extended next. -/
def placeCursor (state : SelectionState ε) (entryId : ε) (orderedEntryIds : List ε) :
    SelectionState ε :=
  if 1 < state.selectedEntryIds.length
      ∧ ∀ selectedId ∈ state.selectedEntryIds, selectedId ∈ orderedEntryIds then
    { state with
      cursorEntryId := some entryId
      anchorEntryId := some entryId
      baseSelectedEntryIds := some state.selectedEntryIds }
  else
    { selectedEntryIds := []
      cursorEntryId := some entryId
      anchorEntryId := some entryId
      baseSelectedEntryIds := none }

/-- The set of the selected entries with one put in or taken out. -/
def toggled (selectedEntryIds : List ε) (entryId : ε) : List ε :=
  let selected := selectedEntryIds.eraseDups
  if entryId ∈ selected then selected.filter fun id => id ≠ entryId
  else selected ++ [entryId]

/-- The range of `extendRange`, from the anchor to the row that the
cursor departs from. -/
def departedRange (orderedEntryIds : List ε) (anchor next : Nat) (clampedAtBoundary : Bool) :
    List ε :=
  if anchor < next then
    slice orderedEntryIds anchor (if clampedAtBoundary then next + 1 else next)
  else if next < anchor then
    slice orderedEntryIds (if clampedAtBoundary then next else next + 1) (anchor + 1)
  else slice orderedEntryIds anchor (anchor + 1)

/-- A range together with the frozen base. -/
def merged (base : Option (List ε)) (orderedEntryIds rangeIds : List ε) : List ε :=
  match base with
  | some base => orderedEntryIds.filter fun id => decide (id ∈ base ∨ id ∈ rangeIds)
  | none => rangeIds

def extendRange (state : SelectionState ε) (offset : Int) (orderedEntryIds : List ε) :
    SelectionState ε :=
  if orderedEntryIds.length = 0 then state
  else
    let currentIndex := cursorIndex state orderedEntryIds
    let requestedIndex := (currentIndex : Int) + offset
    let nextIndex := (clampedIndex requestedIndex orderedEntryIds).getD currentIndex
    let clampedAtBoundary := decide (requestedIndex ≠ nextIndex)
    let anchorEntryId :=
      (state.anchorEntryId <|> state.cursorEntryId) <|> orderedEntryIds[currentIndex]?
    let resolvedAnchorIndex :=
      (anchorEntryId.bind fun id => orderedEntryIds.idxOf? id).getD currentIndex
    let rangeIds := departedRange orderedEntryIds resolvedAnchorIndex nextIndex clampedAtBoundary
    { selectedEntryIds := merged state.baseSelectedEntryIds orderedEntryIds rangeIds
      cursorEntryId := orderedEntryIds[nextIndex]?
      anchorEntryId
      baseSelectedEntryIds := state.baseSelectedEntryIds }

def extendRangeTo (state : SelectionState ε) (entryId : ε) (orderedEntryIds : List ε) :
    SelectionState ε :=
  match orderedEntryIds.idxOf? entryId with
  | none => state
  | some targetIndex =>
    let anchorEntryId := (state.anchorEntryId <|> state.cursorEntryId).getD entryId
    let anchorIndex := (orderedEntryIds.idxOf? anchorEntryId).getD targetIndex
    let rangeIds := slice orderedEntryIds (min anchorIndex targetIndex)
      (max anchorIndex targetIndex + 1)
    { selectedEntryIds := merged state.baseSelectedEntryIds orderedEntryIds rangeIds
      cursorEntryId := some entryId
      anchorEntryId := some anchorEntryId
      baseSelectedEntryIds := state.baseSelectedEntryIds }

/-- The visible entries of a list in their order, then the hidden ones. -/
def visibleFirst (orderedEntryIds chosen hidden : List ε) : List ε :=
  orderedEntryIds.filter (fun entryId => decide (entryId ∈ chosen))
    ++ hidden.filter fun entryId => decide (entryId ∉ orderedEntryIds)

def reduceSelection (state : SelectionState ε) (action : SelectionAction ε)
    (orderedEntryIds : List ε) : SelectionState ε :=
  match action with
  | .moveCursor offset =>
    let index := clampedIndex (cursorIndex state orderedEntryIds + offset) orderedEntryIds
    match index.bind fun index => orderedEntryIds[index]? with
    | some entryId => placeCursor state entryId orderedEntryIds
    | none => state
  | .moveCursorTo edge =>
    let found := match edge with
      | .first => orderedEntryIds.head?
      | .last => orderedEntryIds.getLast?
    match found with
    | some entryId => placeCursor state entryId orderedEntryIds
    | none => state
  | .setCursor entryId => { state with cursorEntryId := some entryId }
  | .positionCursor entryId => placeCursor state entryId orderedEntryIds
  | .selectOnly entryId =>
    { selectedEntryIds := [entryId]
      cursorEntryId := some entryId
      anchorEntryId := some entryId
      baseSelectedEntryIds := none }
  | .typeaheadPending _ => state
  | .toggle entryId =>
    { selectedEntryIds := toggled state.selectedEntryIds entryId
      cursorEntryId := some entryId
      anchorEntryId := some entryId
      baseSelectedEntryIds := none }
  | .toggleAndAdvance entryId offset =>
    let nextIndex := clampedIndex ((orderedEntryIds.idxOf? entryId).getD 0 + offset) orderedEntryIds
    let nextCursorEntryId := (nextIndex.bind fun index => orderedEntryIds[index]?).getD entryId
    { selectedEntryIds := toggled state.selectedEntryIds entryId
      cursorEntryId := some nextCursorEntryId
      anchorEntryId := some nextCursorEntryId
      baseSelectedEntryIds := none }
  | .extendRange offset => extendRange state offset orderedEntryIds
  | .extendRangeTo entryId => extendRangeTo state entryId orderedEntryIds
  | .selectAll => { state with selectedEntryIds := orderedEntryIds }
  | .invert =>
    { state with selectedEntryIds :=
        orderedEntryIds.filter fun entryId => decide (entryId ∉ state.selectedEntryIds) }
  | .selectByMask matchingEntryIds =>
    if matchingEntryIds.length = 0 then state
    else
      let chosen := state.selectedEntryIds ++ matchingEntryIds
      { state with
        selectedEntryIds := visibleFirst orderedEntryIds chosen state.selectedEntryIds }
  | .deselectByMask matchingEntryIds =>
    if matchingEntryIds.length = 0 then state
    else
      let remaining := state.selectedEntryIds.filter fun entryId =>
        decide (entryId ∉ matchingEntryIds)
      { state with selectedEntryIds := visibleFirst orderedEntryIds remaining remaining }
  | .clear =>
    { selectedEntryIds := []
      cursorEntryId := state.cursorEntryId
      anchorEntryId := none
      baseSelectedEntryIds := none }
  | .restore entryIds =>
    { state with selectedEntryIds :=
        entryIds.filter fun entryId => decide (entryId ∈ orderedEntryIds) }
  | .prune removedEntryIds =>
    { selectedEntryIds := state.selectedEntryIds.filter fun entryId =>
        decide (entryId ∉ removedEntryIds)
      cursorEntryId := state.cursorEntryId.filter fun entryId =>
        decide (entryId ∉ removedEntryIds)
      anchorEntryId := state.anchorEntryId.filter fun entryId =>
        decide (entryId ∉ removedEntryIds)
      baseSelectedEntryIds := none }

end FileManager.Frontend
