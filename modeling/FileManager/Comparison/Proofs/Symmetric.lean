/-
A comparison with its sides exchanged.

# The argument

What decides a row reads both sides in the same way, but for the order
of two timestamps (`timestampDirection_swap`): so the rows that a
directory pair adds, and the pairs it adds to the stack, are those of
the exchanged pair, exchanged (`rowsOf_swap`, `childrenOf_swap`). Two
traversals that start from exchanged roots therefore stay exchanged turn
by turn (`Mirrors.turn`), and end together.
-/
import FileManager.Comparison.Proofs.Turns

namespace FileManager.Comparison

open Vfs (EntrySummary Token)
open List Int
open Traversal (loop)

variable {env : Env} {options : ComparisonOptions} {t t' : Traversal}

-- ==== exchanged

/-- The status seen from the other side. -/
def ComparisonStatus.swap : ComparisonStatus → ComparisonStatus
  | .onlyLeft => .onlyRight
  | .onlyRight => .onlyLeft
  | .newer => .older
  | .older => .newer
  | .differentSize => .differentSize
  | .identical => .identical
  | .typeMismatch => .typeMismatch

def ComparisonEntry.swap (entry : ComparisonEntry) : ComparisonEntry where
  relativePath := entry.relativePath
  left := entry.right
  right := entry.left
  status := entry.status.swap

def PendingDir.swap (dir : PendingDir) : PendingDir where
  relativePath := dir.relativePath
  left := dir.right
  right := dir.left

def SyncMode.swap : SyncMode → SyncMode
  | .mirrorLeftToRight => .mirrorRightToLeft
  | .mirrorRightToLeft => .mirrorLeftToRight
  | .twoWayUpdate => .twoWayUpdate

def SyncAction.swap : SyncAction → SyncAction
  | .copyLeftToRight => .copyRightToLeft
  | .copyRightToLeft => .copyLeftToRight
  | .deleteLeft => .deleteRight
  | .deleteRight => .deleteLeft
  | .skip => .skip

def SyncPlanItem.swap (item : SyncPlanItem) : SyncPlanItem where
  relativePath := item.relativePath
  status := item.status.swap
  action := item.action.swap
  left := item.right
  right := item.left

-- ==== classification

theorem numSeconds_neg (nanoseconds : Int) : numSeconds (-nanoseconds) = -numSeconds nanoseconds :=
  Int.neg_tdiv nanoseconds 1000000000

theorem timestampDirection_swap (left right : ComparisonEntrySide) :
    timestampDirection right left = (timestampDirection left right).map ComparisonStatus.swap := by
  unfold timestampDirection
  cases left.modifiedAt with
  | none => cases right.modifiedAt <;> rfl
  | some leftTime =>
    cases right.modifiedAt with
    | none => rfl
    | some rightTime =>
      simp only
      have habs : (numSeconds (rightTime - leftTime)).natAbs
          = (numSeconds (leftTime - rightTime)).natAbs := by
        rw [← Int.neg_sub, numSeconds_neg, natAbs_neg]
      rw [habs]
      split
      case isTrue => rfl
      case isFalse hfar =>
        -- times that are far apart differ
        have hne : leftTime ≠ rightTime := by
          intro heq
          rw [heq, Int.sub_self] at hfar
          exact hfar (by decide)
        rcases lt_or_gt_of_ne hne with hlt | hgt
        · rw [if_pos hlt, if_neg (not_lt.mpr (le_of_lt hlt))]
          rfl
        · rw [if_neg (not_lt.mpr (le_of_lt hgt)), if_pos hgt]
          rfl

theorem classifyBySizeAndTimestamp_swap (left right : ComparisonEntrySide) :
    classifyBySizeAndTimestamp right left = (classifyBySizeAndTimestamp left right).swap := by
  unfold classifyBySizeAndTimestamp
  rw [timestampDirection_swap]
  cases timestampDirection left right with
  | some direction => rfl
  | none =>
    simp only [Option.map_none, ne_comm (a := right.size)]
    split <;> rfl

theorem classify_swap (left right : ComparisonEntrySide) (criteria : ComparisonCriteria) :
    classify right left criteria = (classify left right criteria).swap := by
  unfold classify
  by_cases hkind : left.kind = right.kind
  · rw [if_neg (not_not_intro hkind), if_neg (not_not_intro hkind.symm), hkind]
    split
    case isTrue => rfl
    case isFalse =>
      cases criteria with
      | nameOnly => rfl
      | sizeAndTimestamp => exact classifyBySizeAndTimestamp_swap left right
      | contentHash =>
        simp only [classifyByContentHash]
        cases left.contentHash with
        | none =>
          cases right.contentHash <;> exact classifyBySizeAndTimestamp_swap left right
        | some leftHash =>
          cases right.contentHash with
          | none => exact classifyBySizeAndTimestamp_swap left right
          | some rightHash =>
            simp only [eq_comm (a := rightHash), timestampDirection_swap left right]
            split
            case isTrue => rfl
            case isFalse => cases timestampDirection left right <;> rfl
  · rw [if_pos hkind, if_pos (Ne.symm hkind)]
    rfl

-- ==== directory pairs

theorem rowWith_swap (criteria : ComparisonCriteria) (relativePath : String)
    (hashes : Option String × Option String) (left right : Option EntrySummary) :
    rowWith criteria relativePath hashes.swap right left
      = (rowWith criteria relativePath hashes left right).map ComparisonEntry.swap := by
  cases left with
  | none => cases right <;> rfl
  | some left =>
    cases right with
    | none => rfl
    | some right =>
      simp only [rowWith]
      by_cases hdirs : left.kind = .directory ∧ right.kind = .directory
      · rw [if_pos hdirs, if_pos hdirs.symm]
        rfl
      · have hhashed : Hashed criteria right left ↔ Hashed criteria left right :=
          and_congr_right' and_comm
        rw [if_neg hdirs, if_neg (mt And.symm hdirs)]
        simp only [hhashed]
        split <;> simp only [Option.map_some, ComparisonEntry.swap, Prod.fst_swap, Prod.snd_swap,
          classify_swap (sideFrom left _)]

theorem digestsOf_swap (left right : Option EntrySummary) :
    digestsOf env right left = (digestsOf env left right).swap := by
  cases left <;> cases right <;> rfl

theorem childWith_swap (relativePath : String) (left right : Option EntrySummary) :
    childWith relativePath right left
      = (childWith relativePath left right).map PendingDir.swap := by
  cases left with
  | none => cases right <;> rfl
  | some left =>
    cases right with
    | none => rfl
    | some right =>
      simp only [childWith, and_comm (a := right.kind = .directory)]
      split <;> rfl

theorem namesOf_swap (left right : List (String × EntrySummary)) :
    namesOf right left = namesOf left right := by
  have hsorted : ∀ names : List String,
      (names.mergeSort fun a b => a ≤ b).Pairwise fun a b => decide (a ≤ b) = true :=
    pairwise_mergeSort (by simpa using fun a b c => String.le_trans)
      (by simpa using String.le_total)
  refine List.Perm.eq_of_pairwise ?_ (hsorted _) (hsorted _) ?_
  · intro a b _ _ hab hba
    exact String.le_antisymm (of_decide_eq_true hab) (of_decide_eq_true hba)
  · refine (mergeSort_perm _ _).trans (List.Perm.trans ?_ (mergeSort_perm _ _).symm)
    exact perm_append_comm.dedup

theorem mapsOf_swap (dir : PendingDir) :
    mapsOf env options dir.swap = (mapsOf env options dir).map Prod.swap := by
  unfold mapsOf PendingDir.swap
  cases env.providers.listing dir.left <;> cases env.providers.listing dir.right <;> rfl

theorem rowsOf_swap (dir : PendingDir) :
    rowsOf env options dir.swap = (rowsOf env options dir).map ComparisonEntry.swap := by
  unfold rowsOf
  rw [mapsOf_swap]
  cases mapsOf env options dir with
  | none => rfl
  | some maps =>
    simp only [Option.map_some, Prod.fst_swap, Prod.snd_swap, namesOf_swap maps.1, map_filterMap]
    refine congrArg (List.filterMap · _) (funext fun name => ?_)
    unfold rowAt
    rw [digestsOf_swap]
    exact rowWith_swap ..

theorem childrenOf_swap (dir : PendingDir) :
    childrenOf env options dir.swap = (childrenOf env options dir).map PendingDir.swap := by
  unfold childrenOf
  rw [mapsOf_swap]
  cases mapsOf env options dir with
  | none => rfl
  | some maps =>
    simp only [Option.map_some, Prod.fst_swap, Prod.snd_swap, namesOf_swap maps.1,
      map_reverse, map_filterMap]
    exact congrArg _ (congrArg (List.filterMap · _) (funext fun name => childWith_swap ..))

-- ==== traversals

/-- A traversal is where another one is, with the sides exchanged. -/
structure Mirrors (t t' : Traversal) : Prop where
  stack : t'.stack = t.stack.map PendingDir.swap
  visited : t'.visited = t.visited.map Prod.swap
  recorded : t'.recorded = t.recorded.map ComparisonEntry.swap

theorem Mirrors.turn (hidle : env.token = .idle) (h : Mirrors t t') :
    (t.turn env options = .leave t ∧ t'.turn env options = .leave t')
      ∨ ∃ next next', t.turn env options = .next next ∧ t'.turn env options = .next next'
        ∧ Mirrors next next' := by
  unfold Traversal.turn
  rw [h.stack, hidle]
  cases t.stack with
  | nil => exact .inl ⟨rfl, rfl⟩
  | cons dir stack =>
    simp only [map_cons, Token.isCancelled_idle, Bool.false_eq_true, if_false]
    have hseen : (dir.swap.left, dir.swap.right) ∈ t'.visited
        ↔ (dir.left, dir.right) ∈ t.visited := by
      rw [h.visited]
      exact mem_map_of_injective Prod.swap_injective (a := (dir.left, dir.right))
    by_cases hvisited : (dir.left, dir.right) ∈ t.visited
    · rw [if_pos hvisited, if_pos (hseen.mpr hvisited)]
      exact .inr ⟨_, _, rfl, rfl, rfl, h.visited, h.recorded⟩
    · rw [if_neg hvisited, if_neg (mt hseen.mp hvisited)]
      refine .inr ⟨_, _, rfl, rfl, ?_⟩
      obtain ⟨hrecorded, hstack, hmarked⟩ := compareDir_idle options hidle dir
        { t with stack := stack, visited := (dir.left, dir.right) :: t.visited, look := t.look + 1 }
      obtain ⟨hrecorded', hstack', hmarked'⟩ := compareDir_idle options hidle dir.swap { t' with
          stack := stack.map PendingDir.swap
          visited := (dir.swap.left, dir.swap.right) :: t'.visited
          look := t'.look + 1 }
      refine ⟨?_, ?_, ?_⟩
      · rw [hstack, hstack', childrenOf_swap, map_append]
      · rw [hmarked, hmarked', h.visited]
        rfl
      · rw [hrecorded, hrecorded', rowsOf_swap, map_append]
        exact congrArg (· ++ _) h.recorded

theorem Mirrors.loop (hidle : env.token = .idle) (h : Mirrors t t') (fuel : Nat) :
    (loop env options fuel t').map Traversal.recorded
      = (loop env options fuel t).map (·.recorded.map ComparisonEntry.swap) := by
  induction fuel generalizing t t' with
  | zero => rfl
  | succ fuel ih =>
    unfold loop
    rcases @Mirrors.turn env options t t' hidle h with
      ⟨hturn, hturn'⟩ | ⟨next, next', hturn, hturn', hnext⟩
    · rw [hturn, hturn']
      exact congrArg some h.recorded
    · rw [hturn, hturn']
      exact ih hnext

-- ==== plans

theorem defaultAction_swap (status : ComparisonStatus) (mode : SyncMode) :
    defaultAction status.swap mode.swap = (defaultAction status mode).swap := by
  cases mode <;> cases status <;> rfl

theorem generateSyncPlan_swap (entries : List ComparisonEntry) (mode : SyncMode) :
    generateSyncPlan (entries.map ComparisonEntry.swap) mode.swap
      = (generateSyncPlan entries mode).map SyncPlanItem.swap := by
  unfold generateSyncPlan
  rw [filter_map, map_map, map_map]
  have hkept : ((fun entry : ComparisonEntry => decide (entry.status ≠ .identical))
      ∘ ComparisonEntry.swap) = fun entry => decide (entry.status ≠ .identical) := by
    funext entry
    refine decide_eq_decide.mpr (not_congr ?_)
    show entry.status.swap = .identical ↔ entry.status = .identical
    cases entry.status <;> decide
  rw [hkept]
  refine congrArg (List.map · _) (funext fun entry => ?_)
  simp only [Function.comp, SyncPlanItem.swap, ComparisonEntry.swap, defaultAction_swap]

-- ==== comparisons

/-- Exchanged roots give the exchanged rows, with the same fuel, and the
exchanged rows in the exchanged mode the exchanged plan. -/
theorem comparison_symmetric (env : Env) (options : ComparisonOptions)
    (leftRoot rightRoot : Location) (fuel : Nat) :
    (runComparison env.idle options rightRoot leftRoot fuel).map (·.store.entries)
        = (runComparison env.idle options leftRoot rightRoot fuel).map
          (·.store.entries.map ComparisonEntry.swap)
      ∧ ∀ entries mode, generateSyncPlan (entries.map ComparisonEntry.swap) mode.swap
        = (generateSyncPlan entries mode).map SyncPlanItem.swap := by
  have hflushed : ∀ t : Traversal, (t.flush true).store.entries = t.recorded := by
    intro t
    rw [← (flush_spec true t).1]
    unfold Traversal.recorded Traversal.flush
    simp
  have hstart : Mirrors (.start leftRoot rightRoot) (.start rightRoot leftRoot) := ⟨rfl, rfl, rfl⟩
  refine ⟨?_, generateSyncPlan_swap⟩
  unfold runComparison
  simp only [Option.map_map, Function.comp_def, hflushed]
  exact @Mirrors.loop env.idle options _ _ rfl hstart fuel

end FileManager.Comparison
