/-
The order of a listing: the comparison of `sort_entries` is a total
preorder, and where names are different no two entries compare as equal.
So a listing does not depend on the order in which the provider
enumerates the directory.
-/
import FileManager.Directory.Model

namespace FileManager.Directory

open Std

variable {lowercase : String → String} {view : ViewOptions} {left right : EntrySummary}

-- ==== the comparisons

instance (columnId : String) :
    TransCmp fun left right => compareEntry lowercase left right columnId := by
  by_cases hextension : columnId = "core.extension"
  · simp only [compareEntry, if_pos hextension]
    exact inferInstanceAs (TransCmp (compareOn fun entry : EntrySummary => entry.extension))
  by_cases hsize : columnId = "core.size"
  · simp only [compareEntry, if_neg hextension, if_pos hsize]
    exact inferInstanceAs (TransCmp (compareOn fun entry : EntrySummary => entry.size))
  by_cases hmodified : columnId = "core.modified"
  · simp only [compareEntry, if_neg hextension, if_neg hsize, if_pos hmodified]
    exact inferInstanceAs (TransCmp (compareOn fun entry : EntrySummary => entry.modifiedAt))
  · simp only [compareEntry, if_neg hextension, if_neg hsize, if_neg hmodified]
    exact inferInstanceAs (TransCmp (compareOn fun entry : EntrySummary => lowercase entry.name))

def compareColumn (lowercase : String → String) (descriptor : SortDescriptor)
    (left right : EntrySummary) : Ordering :=
  match descriptor.direction with
  | .ascending => compareEntry lowercase left right descriptor.columnId
  | .descending => (compareEntry lowercase left right descriptor.columnId).swap

instance (descriptor : SortDescriptor) : TransCmp (compareColumn lowercase descriptor) := by
  unfold compareColumn
  cases descriptor.direction with
  | ascending => infer_instance
  | descending =>
    have hswap : (fun left right =>
        (compareEntry lowercase left right descriptor.columnId).swap)
        = fun left right => compareEntry lowercase right left descriptor.columnId := by
      funext left right
      exact (@OrientedCmp.eq_swap _
        (fun left right => compareEntry lowercase left right descriptor.columnId) _ _ _).symm
    simp only [hswap]
    exact @TransCmp.opposite _
      (fun left right => compareEntry lowercase left right descriptor.columnId) _

theorem compareBySort_cons (descriptor : SortDescriptor) (rest : List SortDescriptor)
    (left right : EntrySummary) :
    compareBySort lowercase left right (descriptor :: rest)
      = (compareColumn lowercase descriptor left right).then
        (compareBySort lowercase left right rest) := by
  rw [compareBySort, compareColumn]
  cases compareEntry lowercase left right descriptor.columnId <;> cases descriptor.direction <;> rfl

instance transCmp_compareBySort (sort : List SortDescriptor) :
    TransCmp fun left right => compareBySort lowercase left right sort := by
  induction sort with
  | nil => exact inferInstanceAs (TransCmp (compareOn fun entry : EntrySummary => entry.name))
  | cons descriptor rest ih =>
    have hcons : (fun left right => compareBySort lowercase left right (descriptor :: rest))
        = compareLex (compareColumn lowercase descriptor)
          (fun left right => compareBySort lowercase left right rest) := by
      funext left right
      exact compareBySort_cons descriptor rest left right
    rw [hcons]
    infer_instance

/-- Directories first. -/
def compareFolders (left right : EntrySummary) : Ordering :=
  compare (decide (right.kind = .directory)) (decide (left.kind = .directory))

instance : TransCmp compareFolders :=
  @TransCmp.opposite _ (compareOn fun entry : EntrySummary => decide (entry.kind = .directory)) _

theorem compareEntries_foldersFirst (h : view.foldersFirst = true) :
    compareEntries lowercase view = compareLex compareFolders
      (fun left right => compareBySort lowercase left right view.sort) := by
  funext left right
  rw [compareEntries, if_pos h]
  unfold compareLex compareFolders
  cases compare (decide (right.kind = .directory)) (decide (left.kind = .directory)) <;> rfl

theorem compareEntries_mixed (h : ¬ view.foldersFirst = true) :
    compareEntries lowercase view
      = fun left right => compareBySort lowercase left right view.sort := by
  funext left right
  rw [compareEntries, if_neg h]

instance transCmp_compareEntries : TransCmp (compareEntries lowercase view) := by
  by_cases hfirst : view.foldersFirst = true
  · rw [compareEntries_foldersFirst hfirst]
    infer_instance
  · rw [compareEntries_mixed hfirst]
    infer_instance

theorem name_eq_of_compareBySort {sort : List SortDescriptor}
    (h : compareBySort lowercase left right sort = .eq) : left.name = right.name := by
  induction sort with
  | nil => exact LawfulEqOrd.eq_of_compare h
  | cons descriptor rest ih =>
    rw [compareBySort_cons, Ordering.then_eq_eq] at h
    exact ih h.2

theorem name_eq_of_compareEntries (h : compareEntries lowercase view left right = .eq) :
    left.name = right.name := by
  by_cases hfirst : view.foldersFirst = true
  · rw [compareEntries_foldersFirst hfirst, compareLex, Ordering.then_eq_eq] at h
    exact name_eq_of_compareBySort h.2
  · rw [compareEntries_mixed hfirst] at h
    exact name_eq_of_compareBySort h

-- ==== the listing

/-- The relation that `sort_entries` sorts by. -/
def NotAfter (lowercase : String → String) (view : ViewOptions)
    (left right : EntrySummary) : Prop :=
  compareEntries lowercase view left right ≠ .gt

theorem notAfter_iff :
    NotAfter lowercase view left right
      ↔ (compareEntries lowercase view left right).isLE = true := by
  unfold NotAfter
  cases compareEntries lowercase view left right <;> simp

instance : IsTrans EntrySummary (NotAfter lowercase view) where
  trans _ _ _ h h' :=
    notAfter_iff.mpr (TransCmp.isLE_trans (notAfter_iff.mp h) (notAfter_iff.mp h'))

instance : Std.Total (NotAfter lowercase view) where
  total left right := by
    unfold NotAfter
    rw [@OrientedCmp.eq_swap _ (compareEntries lowercase view) _ left right]
    cases compareEntries lowercase view right left <;> simp

instance : DecidableRel (NotAfter lowercase view) := fun _ _ => inferInstanceAs (Decidable (_ ≠ _))

theorem arrange_perm {first second : List EntrySummary} (hperm : first.Perm second)
    (hnames : (first.map fun entry => entry.name).Nodup) :
    arrange lowercase view first = arrange lowercase view second := by
  let kept (entries : List EntrySummary) :=
    if view.showHidden then entries else entries.filter fun entry => !entry.hidden
  have hkept : (kept first).Perm (kept second) := by
    simp only [kept]
    split
    case isTrue => exact hperm
    case isFalse => exact hperm.filter _
  have hsub : (kept first).Sublist first := by
    simp only [kept]
    split
    case isTrue => exact .refl _
    case isFalse => exact List.filter_sublist
  have hsorted (entries : List EntrySummary) :=
    List.pairwise_insertionSort (NotAfter lowercase view) entries
  have hsort (entries : List EntrySummary) :=
    List.perm_insertionSort (NotAfter lowercase view) entries
  refine List.Perm.eq_of_pairwise ?_ (hsorted (kept first)) (hsorted (kept second))
    ((hsort _).trans (hkept.trans (hsort _).symm))
  intro left right hleft hright hle hge
  -- neither comes after the other, so they have one name
  have hname : left.name = right.name := by
    refine @name_eq_of_compareEntries lowercase view _ _ ?_
    rw [notAfter_iff] at hle hge
    exact OrientedCmp.isLE_antisymm hle hge
  have hin : ∀ {entry}, entry ∈ List.insertionSort (NotAfter lowercase view) (kept first) →
      entry ∈ first := fun hmem => hsub.subset ((hsort _).mem_iff.mp hmem)
  refine Keyed.functional_of_nodup hnames left (hin hleft) right (hin ?_) hname
  exact ((hsort _).trans (hkept.trans (hsort _).symm)).mem_iff.mpr hright

end FileManager.Directory
