/-
Hidden entries. Each side's map leaves out what is hidden on that side,
so a path that is hidden on one side only is compared as if the other
side alone had it. A hidden path has no entry exactly where the sides
agree on what is hidden.
-/
import FileManager.Comparison.Proofs.Exact
import FileManager.Comparison.Proofs.Visits

namespace FileManager.Comparison

open Vfs (Token)

def Tree.HiddenAt (tree : Tree) (path : List String) : Prop :=
  ∃ attributes, tree.get path = some attributes ∧ attributes.hidden = true

/-- Neither the comparison nor any plan made of it speaks of a path that
is hidden on a side. -/
def LeavesHiddenOut (left right : Tree) (entries : List ComparisonEntry) : Prop :=
  (∀ path, left.HiddenAt path ∨ right.HiddenAt path →
      ∀ row ∈ entries, row.relativePath ≠ pathText path)
    ∧ ∀ mode, ∀ item ∈ generateSyncPlan entries mode,
      ∀ path, left.HiddenAt path ∨ right.HiddenAt path → item.relativePath ≠ pathText path

/-- What both sides have, in directories that both show, is hidden on
both or on neither. -/
def HiddenAlike (left right : Tree) : Prop :=
  ∀ path name l r, Through left right false path →
    left.get (path ++ [name]) = some l → right.get (path ++ [name]) = some r →
    l.hidden = r.hidden

variable {path : List String}

theorem Tree.HiddenAt.shown {tree : Tree} (h : tree.HiddenAt path) :
    tree.shown false path = none := by
  obtain ⟨attributes, hget, hhidden⟩ := h
  unfold Tree.shown
  rw [hget]
  simp [hhidden]

theorem Tree.shown_of_not_hidden {tree : Tree} {attributes : Attributes}
    (hget : tree.get path = some attributes) (hhidden : attributes.hidden = false) :
    tree.shown false path = some attributes := by
  unfold Tree.shown
  rw [hget]
  simp [hhidden]

theorem HiddenAlike.not_compared {left right : Tree} (h : HiddenAlike left right)
    (hhidden : left.HiddenAt path ∨ right.HiddenAt path) : ¬ Compared left right false path := by
  intro hcompared
  obtain ⟨above, name, rfl⟩ := exists_concat_of_compared hcompared
  obtain ⟨hthrough, hshown⟩ := compared_concat_iff.mp hcompared
  rcases hhidden with hhidden | hhidden
  · rcases hshown with hleft | hright
    · exact hleft hhidden.shown
    · obtain ⟨r, hr⟩ := Option.ne_none_iff_exists'.mp hright
      obtain ⟨l, hl, hlhidden⟩ := hhidden
      obtain ⟨hget, hrshown⟩ := Option.filter_eq_some_iff.mp hr
      rw [← h above name l r hthrough hl hget, hlhidden] at hrshown
      cases hrshown
  · rcases hshown with hleft | hright
    · obtain ⟨l, hl⟩ := Option.ne_none_iff_exists'.mp hleft
      obtain ⟨r, hr, hrhidden⟩ := hhidden
      obtain ⟨hget, hlshown⟩ := Option.filter_eq_some_iff.mp hl
      rw [h above name l r hthrough hget hr, hrhidden] at hlshown
      cases hlshown
    · exact hright hhidden.shown

theorem exists_row_of_item {entries : List ComparisonEntry} {mode : SyncMode}
    {item : SyncPlanItem} (h : item ∈ generateSyncPlan entries mode) :
    ∃ row ∈ entries, row.relativePath = item.relativePath := by
  unfold generateSyncPlan at h
  obtain ⟨row, hrow, rfl⟩ := List.mem_map.mp h
  exact ⟨row, (List.mem_filter.mp hrow).1, rfl⟩

section Runs

variable {env : Env} {options : ComparisonOptions} {leftRoot rightRoot : Location}
  {left right : Tree} (hleft : Presents env.providers leftRoot left)
  (hright : Presents env.providers rightRoot right)

include hleft hright

theorem compared_of_run {fuel : Nat} {t : Traversal}
    (hrun : runComparison env options leftRoot rightRoot fuel = some t)
    {row : ComparisonEntry} (hrow : row ∈ t.store.entries) :
    ∃ path, Compared left right options.showHidden path ∧ row.relativePath = pathText path := by
  have hleft' : Presents env.idle.providers leftRoot left := hleft
  have hright' : Presents env.idle.providers rightRoot right := hright
  obtain ⟨fuel', t', hrun'⟩ : ∃ fuel t,
      runComparison env.idle options leftRoot rightRoot fuel = some t :=
    finishes hleft' hright' rfl
  rw [entries_eq_rows hrun] at hrow
  obtain ⟨visit, hvisit, hrow⟩ := List.mem_filterMap.mp hrow
  -- the undisturbed comparison makes the same visit
  obtain ⟨row', hrow'⟩ := exists_rowWith options.criteria visit.relativePath
    (pairHashes env.idle visit.look visit.left visit.right) (some_of_rowWith hrow)
  have hmem : row' ∈ t'.store.entries := by
    rw [entries_eq_rows hrun']
    exact List.mem_filterMap.mpr ⟨visit, (visits_of_run hrun' fuel).subset hvisit, hrow'⟩
  obtain ⟨path, hpath, hof⟩ := (mem_entries_iff hleft' hright' rfl hrun' row').mp hmem
  refine ⟨path, hpath, ?_⟩
  rw [relativePath_rowWith hrow, ← relativePath_rowWith hrow', relativePath_rowWith hof]

end Runs

/-- A comparison without hidden entries leaves them out as a whole,
whenever it is cancelled, exactly where the sides agree on what is
hidden. -/
theorem leaves_hidden_out_iff (env : Env) (options : ComparisonOptions)
    (leftRoot rightRoot : Location) (left right : Tree)
    (hleft : Presents env.providers leftRoot left)
    (hright : Presents env.providers rightRoot right) (hshown : options.showHidden = false) :
    (∀ (token : Token) (fuel : Nat) (t : Traversal),
        runComparison { env with token := token } options leftRoot rightRoot fuel = some t →
        LeavesHiddenOut left right t.store.entries)
      ↔ HiddenAlike left right := by
  constructor
  · intro hleaves path name l r hthrough hl hr
    have hleft' : Presents env.idle.providers leftRoot left := hleft
    have hright' : Presents env.idle.providers rightRoot right := hright
    obtain ⟨fuel, t, hrun⟩ : ∃ fuel t,
        runComparison env.idle options leftRoot rightRoot fuel = some t :=
      finishes hleft' hright' rfl
    have hout := (hleaves .idle fuel t hrun).1 (path ++ [name])
    -- a path of which the comparison speaks is hidden on neither side
    have hboth : Compared left right options.showHidden (path ++ [name]) →
        ¬ (left.HiddenAt (path ++ [name]) ∨ right.HiddenAt (path ++ [name])) := by
      intro hcompared hhidden
      obtain ⟨row, hrow, htext⟩ := exists_rowOf env.idle leftRoot rightRoot hcompared
      refine hout hhidden row ?_ htext
      exact (mem_entries_iff hleft' hright' rfl hrun row).mpr ⟨_, hcompared, hrow⟩
    rw [hshown] at hboth
    rw [compared_concat_iff] at hboth
    cases hlhidden : l.hidden with
    | false =>
      have hshows := left.shown_of_not_hidden hl hlhidden
      cases hrhidden : r.hidden with
      | false => rfl
      | true =>
        exact absurd (Or.inr ⟨r, hr, hrhidden⟩) (hboth ⟨hthrough, Or.inl (by rw [hshows]; simp)⟩)
    | true =>
      cases hrhidden : r.hidden with
      | false =>
        have hshows := right.shown_of_not_hidden hr hrhidden
        exact absurd (Or.inl ⟨l, hl, hlhidden⟩) (hboth ⟨hthrough, Or.inr (by rw [hshows]; simp)⟩)
      | true => rfl
  · intro halike token fuel t hrun
    have hleft' : Presents { env with token := token }.providers leftRoot left := hleft
    have hright' : Presents { env with token := token }.providers rightRoot right := hright
    have hrows : ∀ path, left.HiddenAt path ∨ right.HiddenAt path →
        ∀ row ∈ t.store.entries, row.relativePath ≠ pathText path := by
      intro path hhidden row hrow htext
      obtain ⟨path', hcompared, htext'⟩ := compared_of_run hleft' hright' hrun hrow
      have hnamed : Named path := by
        rcases hhidden with ⟨attributes, hget, -⟩ | ⟨attributes, hget, -⟩
        · exact left.named_of_get (by rw [hget]; simp)
        · exact right.named_of_get (by rw [hget]; simp)
      have hpath : path' = path :=
        pathText_injective (named_of_compared hcompared) hnamed (htext'.symm.trans htext)
      rw [hpath, hshown] at hcompared
      exact halike.not_compared hhidden hcompared
    refine ⟨hrows, fun mode item hitem path hhidden => ?_⟩
    obtain ⟨row, hrow, htext⟩ := exists_row_of_item hitem
    rw [← htext]
    exact hrows path hhidden row hrow

/-- In the sample trees nothing is hidden. -/
theorem leaves_hidden_out_folders :
    HiddenAlike fullTree emptiedTree
      ∧ ∃ fuel t, runComparison folders ⟨.contentHash, false⟩ leftFolder rightFolder fuel = some t
        ∧ LeavesHiddenOut fullTree emptiedTree t.store.entries := by
  have hfull : ∀ node ∈ fullTree.nodes, node.2.hidden = false := by decide
  have hemptied : ∀ node ∈ emptiedTree.nodes, node.2.hidden = false := by decide
  have halike : HiddenAlike fullTree emptiedTree := by
    intro path name l r _ hl hr
    have hleft := hfull _ ((Keyed.mem_iff_get fullTree.distinct).mpr hl)
    have hright := hemptied _ ((Keyed.mem_iff_get emptiedTree.distinct).mpr hr)
    exact hleft.trans hright.symm
  have hleft : Presents folders.providers leftFolder fullTree := presents_left _ _ _
  have hright : Presents folders.providers rightFolder emptiedTree := presents_right _ _ _
  obtain ⟨fuel, t, hrun⟩ : ∃ fuel t,
      runComparison folders ⟨.contentHash, false⟩ leftFolder rightFolder fuel = some t :=
    finishes hleft hright rfl
  exact ⟨halike, fuel, t, hrun, (leaves_hidden_out_iff folders ⟨.contentHash, false⟩ leftFolder
    rightFolder fullTree emptiedTree hleft hright rfl).mpr halike .idle fuel t hrun⟩

/-- A file that is hidden on the left only. -/
def hiddenTree : Tree := fileTree { plainFile with hidden := true }

def visibleTree : Tree := fileTree plainFile

def unevenFolders : Env := plainEnv hiddenTree visibleTree

/-- A file that is hidden on the left only is compared as one that only
the right has, and a mirror plan would delete it there. -/
theorem hidden_file_deleted :
    ∃ fuel t, runComparison unevenFolders ⟨.contentHash, false⟩ leftFolder rightFolder fuel = some t
      ∧ hiddenTree.HiddenAt ["f"]
      ∧ (∃ row ∈ t.store.entries, row.relativePath = pathText ["f"] ∧ row.status = .onlyRight)
      ∧ ∃ item ∈ generateSyncPlan t.store.entries .mirrorLeftToRight,
        item.relativePath = pathText ["f"] ∧ item.action = .deleteRight := by
  have hleft : Presents unevenFolders.providers leftFolder hiddenTree := presents_left _ _ _
  have hright : Presents unevenFolders.providers rightFolder visibleTree := presents_right _ _ _
  obtain ⟨fuel, t, hrun⟩ : ∃ fuel t,
      runComparison unevenFolders ⟨.contentHash, false⟩ leftFolder rightFolder fuel = some t :=
    finishes hleft hright rfl
  have hcompared : Compared hiddenTree visibleTree false ([] ++ ["f"]) :=
    compared_concat_iff.mpr ⟨.nil _ _ _, Or.inr (by decide)⟩
  obtain ⟨row, hrow, htext⟩ : ∃ row, rowOf unevenFolders ⟨.contentHash, false⟩ leftFolder
      rightFolder hiddenTree visibleTree ["f"] = some row ∧ row.status = .onlyRight :=
    ⟨_, rfl, rfl⟩
  have hmem : row ∈ t.store.entries :=
    (mem_entries_iff hleft hright rfl hrun row).mpr ⟨_, hcompared, hrow⟩
  have hpath : row.relativePath = pathText ["f"] := relativePath_rowWith hrow
  refine ⟨fuel, t, hrun, ⟨_, rfl, rfl⟩, ⟨row, hmem, hpath, htext⟩, ?_⟩
  refine ⟨_, List.mem_map.mpr ⟨row, List.mem_filter.mpr ⟨hmem, ?_⟩, rfl⟩, hpath, ?_⟩
  · rw [htext]
    rfl
  · rw [htext]
    rfl

end FileManager.Comparison
