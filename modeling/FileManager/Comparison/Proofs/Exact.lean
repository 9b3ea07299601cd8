/-
A comparison that is not disturbed records exactly the paths that are
in a directory on both sides, each of them once.

# The argument

Below presented trees, the directory pair at a path of directories has
one row for each name on either side, and adds the directory pairs of the
names that are directories on both. So the pairs that can be reached are
those of the paths of directories (`reaches_iff`), different paths have
different pairs, and the worklist goes through each of them once.

# Texts

`relative_join` writes a path of accepted names so that
`resolve_relative` and `relative_parent` read it back, and no two paths
have one text.
-/
import FileManager.Comparison.Proofs.Inhabitation
import FileManager.Comparison.Proofs.Turns
import FileManager.Transfers.Proofs.Destinations

namespace FileManager.Comparison

open Vfs (EntrySummary Providers)
open List Keyed Comparison.Tree Worklist Location

variable {entries : List EntrySummary}

section Texts

variable {path path' : List String} {name : String}

/-- Every name of the path is one that `join` accepts. -/
def Named (path : List String) : Prop := ∀ name ∈ path, validateName name = .ok ()

theorem Named.of_append {more : List String} (h : Named (path ++ more)) : Named path :=
  fun name hname => h name (mem_append_left _ hname)

theorem Named.last (h : Named (path ++ [name])) : validateName name = .ok () :=
  h name (by simp)

theorem ne_empty_of_validateName (h : validateName name = .ok ()) : name ≠ "" :=
  ((validateName_iff name).mp h).1

theorem slash_not_mem_of_validateName (h : validateName name = .ok ()) : '/' ∉ name.toList :=
  ((validateName_iff name).mp h).2.2.2.1

-- ==== texts

theorem pathText_concat (path : List String) (name : String) :
    pathText (path ++ [name]) = relativeJoin (pathText path) name := by
  unfold pathText
  rw [foldl_append]
  rfl

theorem pathText_eq_empty_iff (h : Named path) :
    pathText path = "" ↔ path = [] := by
  induction path using List.reverseRecOn with
  | nil => exact ⟨fun _ => rfl, fun _ => rfl⟩
  | append_singleton path name ih =>
    rw [pathText_concat]
    unfold relativeJoin
    split
    case isTrue => simp [ne_empty_of_validateName h.last]
    case isFalse => simp

theorem pathText_eq_intercalate (h : Named path) :
    pathText path = "/".intercalate path := by
  induction path using List.reverseRecOn with
  | nil => rfl
  | append_singleton path name ih =>
    rw [pathText_concat, ih h.of_append]
    unfold relativeJoin
    by_cases hne : path = []
    · rw [hne]
      simp
    · have htext : "/".intercalate path ≠ "" := by
        rw [← ih h.of_append, Ne, pathText_eq_empty_iff h.of_append]
        exact hne
      rw [if_neg htext, String.intercalate_append_of_ne_nil hne (by simp),
        String.intercalate_singleton]

theorem split_pathText (h : Named path) (hne : path ≠ []) : split '/' (pathText path) = path := by
  unfold split
  rw [pathText_eq_intercalate h, String.toList_intercalate]
  show (List.splitOn '/' (['/'].intercalate (path.map String.toList))).map String.ofList = path
  rw [splitOn_intercalate]
  · rw [map_map]
    exact (map_congr_left fun name _ => String.ofList_toList).trans (map_id path)
  · intro chars hchars
    obtain ⟨name, hname, rfl⟩ := mem_map.mp hchars
    exact slash_not_mem_of_validateName (h name hname)
  · simpa using hne

theorem pathText_injective (h : Named path) (h' : Named path')
    (heq : pathText path = pathText path') : path = path' := by
  by_cases hne : path = []
  · have hempty : pathText path' = "" := by
      rw [← heq, hne]
      rfl
    rw [hne, (pathText_eq_empty_iff h').mp hempty]
  · have hne' : path' ≠ [] := by
      intro hpath'
      rw [hpath'] at heq
      exact hne ((pathText_eq_empty_iff h).mp heq)
    rw [← split_pathText h hne, heq, split_pathText h' hne']

-- ==== descending

theorem descend_injective {root : Location}
    (h : root.descend path = root.descend path') : path = path' := by
  unfold descend at h
  simpa using h

end Texts

-- ==== maps

theorem get_foldl_put (hnodup : (entries.map (·.name)).Nodup) (index : List (String × EntrySummary))
    (name : String) :
    Keyed.get (entries.foldl (fun index entry => put index entry.name entry) index) name
      = (entries.find? fun entry => entry.name = name).or (Keyed.get index name) := by
  induction entries generalizing index with
  | nil => rfl
  | cons entry rest ih =>
    rw [map_cons, nodup_cons] at hnodup
    rw [foldl_cons, ih hnodup.2, get_put, List.find?_cons]
    by_cases hname : entry.name = name
    · have hrest : (rest.find? fun other => other.name = name) = none := by
        rw [List.find?_eq_none]
        intro other hother
        rw [decide_eq_true_eq]
        intro heq
        exact hnodup.1 (hname ▸ heq ▸ mem_map_of_mem hother)
      simp [hname, hrest]
    · simp [hname, Ne.symm hname]

theorem get_indexByName (hnodup : (entries.map (·.name)).Nodup) (showHidden : Bool) (name : String)
    (entry : EntrySummary) :
    Keyed.get (indexByName entries showHidden) name = some entry
      ↔ entry ∈ entries ∧ entry.name = name ∧ (showHidden || !entry.hidden) = true := by
  have hsub : ((entries.filter fun entry => showHidden || !entry.hidden).map (·.name)).Nodup :=
    hnodup.sublist (filter_sublist.map _)
  unfold indexByName
  rw [get_foldl_put hsub, show Keyed.get ([] : List (String × EntrySummary)) name = none from rfl,
    Option.or_none, find?_eq_some_iff hsub, mem_filter]
  exact ⟨fun h => ⟨h.1.1, h.2, h.1.2⟩, fun h => ⟨⟨h.1, h.2.2⟩, h.2.1⟩⟩

theorem mem_namesOf {left right : List (String × EntrySummary)} {name : String} :
    name ∈ namesOf left right ↔ Keyed.get left name ≠ none ∨ Keyed.get right name ≠ none := by
  unfold namesOf
  rw [(mergeSort_perm _ _).mem_iff, mem_dedup, mem_append]
  exact or_congr mem_keys_iff mem_keys_iff

theorem nodup_namesOf (left right : List (String × EntrySummary)) : (namesOf left right).Nodup :=
  (mergeSort_perm _ _).nodup_iff.mpr (nodup_dedup _)

-- ==== trees

section Trees

variable {tree : Tree} {showHidden : Bool} {path : List String}

theorem Tree.named_of_get (h : tree.get path ≠ none) : Named path := by
  intro name hname
  obtain ⟨node, hnode, rfl⟩ := mem_map.mp (mem_keys_iff.mpr h)
  exact tree.named node hnode name hname

theorem Tree.get_of_shown {attributes : Attributes}
    (h : tree.shown showHidden path = some attributes) : tree.get path = some attributes :=
  (Option.filter_eq_some_iff.mp h).1

theorem Tree.get_ne_none_of_shown
    (h : tree.shown showHidden path ≠ none) : tree.get path ≠ none := by
  obtain ⟨attributes, hattributes⟩ := Option.ne_none_iff_exists'.mp h
  rw [tree.get_of_shown hattributes]
  simp

theorem Tree.isDir_of_shownDir (h : tree.ShownDir showHidden path) : tree.IsDir path := by
  rcases h with h | ⟨attributes, hshown, hkind⟩
  · exact .inl h
  · exact .inr ⟨attributes, tree.get_of_shown hshown, hkind⟩

/-- The entry at a path, as a listing shows it. -/
def Tree.entryAt (tree : Tree) (root : Location) (showHidden : Bool) (path : List String) :
    Option EntrySummary :=
  (tree.shown showHidden path).map (·.summary root path)

theorem name_summary (attributes : Attributes) (root : Location) (path : List String)
    (name : String) : (attributes.summary root (path ++ [name])).name = name := by
  unfold Attributes.summary
  simp

theorem Presents.get_indexByName {providers : Providers} {root : Location}
    (h : Presents providers root tree) (hdir : tree.IsDir path) :
    ∃ entries, providers.listing (root.descend path) = some entries
      ∧ ∀ name, Keyed.get (indexByName entries showHidden) name
        = tree.entryAt root showHidden (path ++ [name]) := by
  obtain ⟨entries, hlisting, hnodup, hmem⟩ := h path hdir
  refine ⟨entries, hlisting, fun name => ?_⟩
  ext entry
  rw [Comparison.get_indexByName hnodup, hmem]
  unfold entryAt shown
  rw [Option.map_eq_some_iff]
  constructor
  · intro hentry
    obtain ⟨⟨name', attributes, hget, rfl⟩, hname, hshown⟩ := hentry
    rw [name_summary] at hname
    subst hname
    exact ⟨attributes, Option.filter_eq_some_iff.mpr ⟨hget, hshown⟩, rfl⟩
  · intro hentry
    obtain ⟨attributes, hshown, rfl⟩ := hentry
    obtain ⟨hget, hhidden⟩ := Option.filter_eq_some_iff.mp hshown
    exact ⟨⟨name, attributes, hget, rfl⟩, name_summary .., hhidden⟩

end Trees

-- ==== directory pairs

section Pairs

variable {env : Env} {options : ComparisonOptions} {leftRoot rightRoot : Location}
  {left right : Tree} {path : List String} {showHidden : Bool} {name : String} {dir : PendingDir}
  {t : Traversal} {fuel : Nat}

/-- The directory pair at a path. -/
def dirAt (leftRoot rightRoot : Location) (path : List String) : PendingDir where
  relativePath := pathText path
  left := leftRoot.descend path
  right := rightRoot.descend path

/-- The path leads through directories on both sides. -/
def Through (left right : Tree) (showHidden : Bool) (path : List String) : Prop :=
  ∀ above, above <+: path → left.ShownDir showHidden above ∧ right.ShownDir showHidden above

def rowOf (env : Env) (options : ComparisonOptions) (leftRoot rightRoot : Location)
    (left right : Tree) (path : List String) : Option ComparisonEntry :=
  rowWith options.criteria (pathText path)
    (digestsOf env (left.entryAt leftRoot options.showHidden path)
      (right.entryAt rightRoot options.showHidden path))
    (left.entryAt leftRoot options.showHidden path)
    (right.entryAt rightRoot options.showHidden path)

theorem Through.nil (left right : Tree) (showHidden : Bool) : Through left right showHidden [] := by
  intro above habove
  exact ⟨.inl (prefix_nil.mp habove), .inl (prefix_nil.mp habove)⟩

theorem Through.concat (h : Through left right showHidden path)
    (hleft : left.ShownDir showHidden (path ++ [name]))
    (hright : right.ShownDir showHidden (path ++ [name])) :
    Through left right showHidden (path ++ [name]) := by
  intro above habove
  rcases prefix_concat_iff.mp habove with rfl | habove
  · exact ⟨hleft, hright⟩
  · exact h above habove

theorem Through.of_concat (h : Through left right showHidden (path ++ [name])) :
    Through left right showHidden path :=
  fun above habove => h above (habove.trans (prefix_append _ _))

theorem compared_concat_iff :
    Compared left right showHidden (path ++ [name]) ↔ Through left right showHidden path
        ∧ (left.shown showHidden (path ++ [name]) ≠ none
          ∨ right.shown showHidden (path ++ [name]) ≠ none) := by
  refine and_congr_left fun _ => ⟨fun h above habove => ?_, fun h above habove hne => ?_⟩
  · refine h above (habove.trans (prefix_append _ _)) fun heq => ?_
    have hlength := habove.length_le
    rw [heq, length_append, length_singleton] at hlength
    omega
  · rcases prefix_concat_iff.mp habove with heq | habove
    · exact absurd heq hne
    · exact h above habove

theorem exists_concat_of_compared
    (h : Compared left right showHidden path) : ∃ above name, path = above ++ [name] := by
  cases path using List.reverseRecOn with
  | nil =>
    rcases h.2 with hshown | hshown
    · exact absurd left.rooted (left.get_ne_none_of_shown hshown)
    · exact absurd right.rooted (right.get_ne_none_of_shown hshown)
  | append_singleton above name _ => exact ⟨above, name, rfl⟩

variable (hleft : Presents env.providers leftRoot left)
  (hright : Presents env.providers rightRoot right)

include hleft hright

theorem mapsOf_dirAt (h : Through left right options.showHidden path) :
    ∃ leftByName rightByName,
      mapsOf env options (dirAt leftRoot rightRoot path) = some (leftByName, rightByName)
        ∧ (∀ name, Keyed.get leftByName name
          = left.entryAt leftRoot options.showHidden (path ++ [name]))
        ∧ ∀ name, Keyed.get rightByName name
          = right.entryAt rightRoot options.showHidden (path ++ [name]) := by
  obtain ⟨hleftDir, hrightDir⟩ := h path (prefix_refl _)
  obtain ⟨leftEntries, hleftListing, hleftGet⟩ :=
    hleft.get_indexByName (left.isDir_of_shownDir hleftDir)
  obtain ⟨rightEntries, hrightListing, hrightGet⟩ :=
    hright.get_indexByName (right.isDir_of_shownDir hrightDir)
  refine ⟨_, _, ?_, hleftGet, hrightGet⟩
  unfold mapsOf dirAt
  simp only [hleftListing, hrightListing]

theorem rowsOf_dirAt (h : Through left right options.showHidden path) :
    ∃ names : List String, names.Nodup
      ∧ (∀ name, name ∈ names ↔ Compared left right options.showHidden (path ++ [name]))
      ∧ rowsOf env options (dirAt leftRoot rightRoot path) = names.filterMap fun name =>
          rowOf env options leftRoot rightRoot left right (path ++ [name]) := by
  obtain ⟨leftByName, rightByName, hmaps, hleftGet, hrightGet⟩ := mapsOf_dirAt hleft hright h
  refine ⟨namesOf leftByName rightByName, nodup_namesOf _ _, fun name => ?_, ?_⟩
  · rw [mem_namesOf, hleftGet, hrightGet, compared_concat_iff]
    unfold entryAt
    simp [h]
  · unfold rowsOf
    rw [hmaps]
    simp only
    refine filterMap_congr fun name _ => ?_
    unfold rowAt rowOf
    rw [hleftGet, hrightGet, pathText_concat]
    rfl

theorem mem_childrenOf_dirAt (h : Through left right options.showHidden path) :
    dir ∈ childrenOf env options (dirAt leftRoot rightRoot path)
      ↔ ∃ name, Through left right options.showHidden (path ++ [name])
        ∧ dir = dirAt leftRoot rightRoot (path ++ [name]) := by
  obtain ⟨leftByName, rightByName, hmaps, hleftGet, hrightGet⟩ := mapsOf_dirAt hleft hright h
  unfold childrenOf
  rw [hmaps]
  simp only
  rw [mem_reverse, mem_filterMap]
  constructor
  · intro hdir
    obtain ⟨name, -, hchild⟩ := hdir
    refine ⟨name, ?_⟩
    unfold childAt at hchild
    rw [hleftGet, hrightGet] at hchild
    unfold entryAt at hchild
    cases hl : left.shown options.showHidden (path ++ [name]) with
    | none =>
      rw [hl] at hchild
      cases hchild
    | some l =>
      cases hr : right.shown options.showHidden (path ++ [name]) with
      | none =>
        rw [hl, hr] at hchild
        cases hchild
      | some r =>
        rw [hl, hr] at hchild
        simp only [Option.map_some, childWith] at hchild
        split at hchild
        case isFalse => cases hchild
        case isTrue hdirs =>
          injection hchild with hchild
          refine ⟨h.concat (Or.inr ⟨l, hl, hdirs.1⟩) (Or.inr ⟨r, hr, hdirs.2⟩), ?_⟩
          rw [← hchild]
          unfold dirAt
          rw [pathText_concat]
          rfl
  · intro hdir
    obtain ⟨name, hthrough, rfl⟩ := hdir
    obtain ⟨hleftDir, hrightDir⟩ := hthrough (path ++ [name]) (prefix_refl _)
    obtain ⟨l, hl, hlkind⟩ := hleftDir.resolve_left (by simp)
    obtain ⟨r, hr, hrkind⟩ := hrightDir.resolve_left (by simp)
    refine ⟨name, ?_, ?_⟩
    · rw [mem_namesOf, hleftGet]
      unfold entryAt
      simp [hl]
    · unfold childAt
      rw [hleftGet, hrightGet]
      unfold entryAt
      rw [hl, hr]
      simp only [Option.map_some, childWith]
      rw [if_pos ⟨hlkind, hrkind⟩]
      unfold dirAt
      rw [pathText_concat]
      rfl

theorem reaches_iff :
    Reaches (childrenOf env options) [dirAt leftRoot rightRoot []] dir
      ↔ ∃ path, Through left right options.showHidden path
        ∧ dir = dirAt leftRoot rightRoot path := by
  constructor
  · intro h
    induction h with
    | root hroot => exact ⟨[], .nil _ _ _, mem_singleton.mp hroot⟩
    | child _ hchild ih =>
      obtain ⟨path, hthrough, rfl⟩ := ih
      obtain ⟨name, hnext, heq⟩ := (mem_childrenOf_dirAt hleft hright hthrough).mp hchild
      exact ⟨path ++ [name], hnext, heq⟩
  · intro h
    obtain ⟨path, hthrough, rfl⟩ := h
    induction path using List.reverseRecOn with
    | nil => exact .root (mem_singleton.mpr rfl)
    | append_singleton path name ih =>
      refine .child (ih hthrough.of_concat) ?_
      exact (mem_childrenOf_dirAt hleft hright hthrough.of_concat).mpr ⟨name, hthrough, rfl⟩

omit hleft hright in
theorem dirAt_injective {path' : List String}
    (h : (dirAt leftRoot rightRoot path).key = (dirAt leftRoot rightRoot path').key) :
    path = path' :=
  descend_injective (congrArg Prod.fst h)

theorem key_injective (dir dir' : PendingDir)
    (h : Reaches (childrenOf env options) [dirAt leftRoot rightRoot []] dir)
    (h' : Reaches (childrenOf env options) [dirAt leftRoot rightRoot []] dir')
    (hkey : dir.key = dir'.key) : dir = dir' := by
  obtain ⟨path, -, rfl⟩ := (reaches_iff hleft hright).mp h
  obtain ⟨path', -, rfl⟩ := (reaches_iff hleft hright).mp h'
  rw [dirAt_injective hkey]

omit hleft hright in
theorem simulates_start : Simulates env options (.start leftRoot rightRoot)
    ⟨[dirAt leftRoot rightRoot []], []⟩ := by
  have hstart : dirAt leftRoot rightRoot [] = ⟨"", leftRoot, rightRoot⟩ := by
    unfold dirAt
    rw [descend_nil, descend_nil]
    rfl
  rw [hstart]
  exact .start leftRoot rightRoot

theorem entries_eq (hidle : env.token = .idle)
    (hrun : runComparison env options leftRoot rightRoot fuel = some t) :
    ∃ dirs : List PendingDir, dirs.Nodup
      ∧ (∀ dir, dir ∈ dirs ↔ ∃ path, Through left right options.showHidden path
        ∧ dir = dirAt leftRoot rightRoot path)
      ∧ t.store.entries = dirs.flatMap (rowsOf env options) := by
  unfold runComparison at hrun
  obtain ⟨last, hloop, rfl⟩ := Option.map_eq_some_iff.mp hrun
  obtain ⟨turns, hempty, hsim⟩ := simulates_start.of_loop hidle hloop
  have hinv := (Inv.start PendingDir.key (childrenOf env options)
    [dirAt leftRoot rightRoot []]).run turns
  refine ⟨_, hinv.nodup.of_map _, fun dir => ?_, ?_⟩
  · rw [hinv.mem_done_iff hempty (key_injective hleft hright), reaches_iff hleft hright]
  · have hflushed := (flush_spec true last).1
    rw [hsim.recorded] at hflushed
    rw [← hflushed]
    unfold Traversal.recorded Traversal.flush
    simp

theorem finishes (hidle : env.token = .idle) :
    ∃ fuel t, runComparison env options leftRoot rightRoot fuel = some t := by
  have hinv := Inv.start PendingDir.key (childrenOf env options)
    [dirAt leftRoot rightRoot []]
  -- there are no more directory pairs than entries on the left, and the root
  have hkeys : ∀ dir, Reaches (childrenOf env options) [dirAt leftRoot rightRoot []] dir →
      dir.key ∈ ([] :: left.nodes.map Prod.fst).map fun path =>
        (dirAt leftRoot rightRoot path).key := by
    intro dir hreaches
    obtain ⟨path, hthrough, rfl⟩ := (reaches_iff hleft hright).mp hreaches
    refine mem_map.mpr ⟨path, ?_, rfl⟩
    rcases (hthrough path (prefix_refl _)).1 with hpath | ⟨attributes, hshown, -⟩
    · rw [hpath]
      exact mem_cons_self
    · refine mem_cons_of_mem _ (mem_keys_iff.mpr ?_)
      have hget := left.get_of_shown hshown
      unfold Tree.get at hget
      rw [hget]
      simp
  obtain ⟨turns, hturns⟩ := hinv.finishes _ hkeys
  obtain ⟨fuel, t, hloop⟩ := simulates_start.finishes hidle hturns
  refine ⟨fuel, t.flush true, ?_⟩
  unfold runComparison
  rw [hloop]
  rfl

omit hleft hright in
theorem exists_rowOf (env : Env) (leftRoot rightRoot : Location)
    (h : Compared left right options.showHidden path) :
    ∃ row, rowOf env options leftRoot rightRoot left right path = some row
      ∧ row.relativePath = pathText path := by
  have hside : left.entryAt leftRoot options.showHidden path ≠ none
      ∨ right.entryAt rightRoot options.showHidden path ≠ none := by
    unfold entryAt
    simpa using h.2
  obtain ⟨row, hrow⟩ := exists_rowWith options.criteria (pathText path)
    (digestsOf env (left.entryAt leftRoot options.showHidden path)
      (right.entryAt rightRoot options.showHidden path)) hside
  exact ⟨row, hrow, relativePath_rowWith hrow⟩

omit hleft hright in
theorem named_of_compared (h : Compared left right options.showHidden path) : Named path := by
  rcases h.2 with hshown | hshown
  · exact left.named_of_get (left.get_ne_none_of_shown hshown)
  · exact right.named_of_get (right.get_ne_none_of_shown hshown)

theorem mem_entries_iff (hidle : env.token = .idle)
    (hrun : runComparison env options leftRoot rightRoot fuel = some t) (row : ComparisonEntry) :
    row ∈ t.store.entries ↔ ∃ path, Compared left right options.showHidden path
      ∧ rowOf env options leftRoot rightRoot left right path = some row := by
  obtain ⟨dirs, -, hdirs, heq⟩ := entries_eq hleft hright hidle hrun
  rw [heq, mem_flatMap]
  constructor
  · intro hrow
    obtain ⟨dir, hdir, hrow⟩ := hrow
    obtain ⟨path, hthrough, rfl⟩ := (hdirs dir).mp hdir
    obtain ⟨names, -, hnames, hrows⟩ := rowsOf_dirAt hleft hright hthrough
    rw [hrows] at hrow
    obtain ⟨name, hname, hrow⟩ := mem_filterMap.mp hrow
    exact ⟨path ++ [name], (hnames name).mp hname, hrow⟩
  · intro hrow
    obtain ⟨path, hcompared, hrow⟩ := hrow
    obtain ⟨above, name, rfl⟩ := exists_concat_of_compared hcompared
    have hthrough := (compared_concat_iff.mp hcompared).1
    obtain ⟨names, -, hnames, hrows⟩ := rowsOf_dirAt hleft hright hthrough
    refine ⟨_, (hdirs _).mpr ⟨above, hthrough, rfl⟩, ?_⟩
    rw [hrows]
    exact mem_filterMap.mpr ⟨name, (hnames name).mpr hcompared, hrow⟩

theorem nodup_relativePaths (hidle : env.token = .idle)
    (hrun : runComparison env options leftRoot rightRoot fuel = some t) :
    (t.store.entries.map ComparisonEntry.relativePath).Nodup := by
  obtain ⟨dirs, hnodup, hdirs, heq⟩ := entries_eq hleft hright hidle hrun
  rw [heq, map_flatMap, nodup_flatMap]
  -- the texts of a directory pair are those of the names in it
  have htexts : ∀ path, Through left right options.showHidden path →
      ∃ names : List String, names.Nodup ∧ (∀ name ∈ names, Named (path ++ [name]))
        ∧ (rowsOf env options (dirAt leftRoot rightRoot path)).map ComparisonEntry.relativePath
          = names.map fun name => pathText (path ++ [name]) := by
    intro path hthrough
    obtain ⟨names, hnames, hmem, hrows⟩ := rowsOf_dirAt hleft hright hthrough
    refine ⟨names, hnames, fun name hname => named_of_compared ((hmem name).mp hname), ?_⟩
    rw [hrows, map_filterMap, ← filterMap_eq_map]
    refine filterMap_congr fun name hname => ?_
    obtain ⟨row, hrow, htext⟩ := exists_rowOf env leftRoot rightRoot ((hmem name).mp hname)
    rw [hrow, Option.map_some, htext]
    rfl
  constructor
  · intro dir hdir
    obtain ⟨path, hthrough, rfl⟩ := (hdirs dir).mp hdir
    obtain ⟨names, hnames, hnamed, hmap⟩ := htexts path hthrough
    rw [hmap]
    refine List.Nodup.map_on ?_ hnames
    intro name hname name' hname' htext
    have hsame := pathText_injective (hnamed name hname) (hnamed name' hname') htext
    simpa using hsame
  · refine hnodup.imp_of_mem ?_
    intro dir dir' hdir hdir' hne
    refine disjoint_left.mpr ?_
    intro text htext htext'
    obtain ⟨path, hthrough, rfl⟩ := (hdirs dir).mp hdir
    obtain ⟨path', hthrough', rfl⟩ := (hdirs dir').mp hdir'
    obtain ⟨names, -, hnamed, hmap⟩ := htexts path hthrough
    obtain ⟨names', -, hnamed', hmap'⟩ := htexts path' hthrough'
    simp only [hmap] at htext
    simp only [hmap'] at htext'
    obtain ⟨name, hname, rfl⟩ := mem_map.mp htext
    obtain ⟨name', hname', heq'⟩ := mem_map.mp htext'
    have hsame := pathText_injective (hnamed' name' hname') (hnamed name hname) heq'
    exact hne (by rw [append_inj_left' hsame rfl])

end Pairs

-- ==== exactness

/-- The side of an entry in a pair: where both are files, and content is
compared, it has a digest. -/
def sideOf (env : Env) (criteria : ComparisonCriteria) (root : Location) (path : List String)
    (mine other : Attributes) : ComparisonEntrySide :=
  sideFrom (mine.summary root path)
    (if criteria = .contentHash ∧ mine.kind = .file ∧ other.kind = .file then
      digestOf env (mine.summary root path)
    else none)

/-- The status a path should have, by what is there on the two sides. -/
def statusAt (env : Env) (criteria : ComparisonCriteria) (leftRoot rightRoot : Location)
    (path : List String) : Option Attributes → Option Attributes → Option ComparisonStatus
  | some _, none => some .onlyLeft
  | none, some _ => some .onlyRight
  | some left, some right =>
    if left.kind ≠ right.kind then some .typeMismatch
    else if left.kind = .directory then some .identical
    else some (classify (sideOf env criteria leftRoot path left right)
      (sideOf env criteria rightRoot path right left) criteria)
  | none, none => none

theorem status_rowOf {env : Env} {options : ComparisonOptions} {leftRoot rightRoot : Location}
    {left right : Tree} {path : List String} {row : ComparisonEntry}
    (h : rowOf env options leftRoot rightRoot left right path = some row) :
    some row.status = statusAt env options.criteria leftRoot rightRoot path
      (left.shown options.showHidden path) (right.shown options.showHidden path) := by
  unfold rowOf entryAt at h
  cases hl : left.shown options.showHidden path with
  | none =>
    cases hr : right.shown options.showHidden path with
    | none =>
      rw [hl, hr] at h
      cases h
    | some r =>
      rw [hl, hr] at h
      injection h with h
      rw [← h]
      rfl
  | some l =>
    cases hr : right.shown options.showHidden path with
    | none =>
      rw [hl, hr] at h
      injection h with h
      rw [← h]
      rfl
    | some r =>
      rw [hl, hr] at h
      simp only [Option.map_some, rowWith] at h
      simp only [statusAt]
      by_cases hdirs : l.kind = .directory ∧ r.kind = .directory
      · rw [if_pos (show (l.summary leftRoot path).kind = .directory
            ∧ (r.summary rightRoot path).kind = .directory from hdirs)] at h
        injection h with h
        rw [← h, if_neg (by simp [hdirs.1, hdirs.2]), if_pos hdirs.1]
      · rw [if_neg (show ¬ ((l.summary leftRoot path).kind = .directory
            ∧ (r.summary rightRoot path).kind = .directory) from hdirs)] at h
        injection h with h
        rw [← h]
        -- a digest is given to both sides or to none
        have hdigests : (if Hashed options.criteria (l.summary leftRoot path)
                (r.summary rightRoot path) then
              digestsOf env (some (l.summary leftRoot path)) (some (r.summary rightRoot path))
            else (none, none))
            = ((sideOf env options.criteria leftRoot path l r).contentHash,
              (sideOf env options.criteria rightRoot path r l).contentHash) := by
          by_cases hhashed : Hashed options.criteria (l.summary leftRoot path)
              (r.summary rightRoot path)
          · have hboth : options.criteria = .contentHash ∧ l.kind = .file
                ∧ r.kind = .file := hhashed
            rw [if_pos hhashed]
            unfold sideOf
            rw [if_pos hboth, if_pos ⟨hboth.1, hboth.2.2, hboth.2.1⟩]
            rfl
          · have hboth : ¬ (options.criteria = .contentHash ∧ l.kind = .file
                ∧ r.kind = .file) := hhashed
            rw [if_neg hhashed]
            unfold sideOf
            rw [if_neg hboth, if_neg (fun h => hboth ⟨h.1, h.2.2, h.2.1⟩)]
            rfl
        simp only [hdigests]
        show some (classify (sideOf env options.criteria leftRoot path l r)
          (sideOf env options.criteria rightRoot path r l) options.criteria) = _
        by_cases hkinds : l.kind = r.kind
        · have hfile : l.kind ≠ .directory := fun heq => hdirs ⟨heq, hkinds ▸ heq⟩
          rw [if_neg (not_not.mpr hkinds), if_neg hfile]
        · have hsides : (sideOf env options.criteria leftRoot path l r).kind
              ≠ (sideOf env options.criteria rightRoot path r l).kind := hkinds
          unfold classify
          rw [if_pos hkinds, if_pos hsides]

/-- An undisturbed comparison of presented trees stores one entry for
each path in a directory on both sides, with the status it should have.
-/
theorem comparison_exact (env : Env) (options : ComparisonOptions)
    (leftRoot rightRoot : Location) (left right : Tree) (hidle : env.token = .idle)
    (hleft : Presents env.providers leftRoot left)
    (hright : Presents env.providers rightRoot right) (hshown : options.showHidden = true) :
    (∃ fuel t, runComparison env options leftRoot rightRoot fuel = some t)
      ∧ ∀ fuel t, runComparison env options leftRoot rightRoot fuel = some t →
        (∀ path, Compared left right true path →
          ∃ row, t.store.entries.filter (fun row => row.relativePath = pathText path) = [row]
            ∧ some row.status = statusAt env options.criteria leftRoot rightRoot path
              (left.get path) (right.get path))
        ∧ ∀ row ∈ t.store.entries, ∃ path, Compared left right true path
          ∧ row.relativePath = pathText path := by
  refine ⟨finishes hleft hright hidle, fun fuel t hrun => ⟨fun path hpath => ?_, ?_⟩⟩
  · rw [← hshown] at hpath
    obtain ⟨row, hrow, htext⟩ := exists_rowOf env leftRoot rightRoot hpath
    have hmem := (mem_entries_iff hleft hright hidle hrun row).mpr ⟨path, hpath, hrow⟩
    refine ⟨row, ?_, ?_⟩
    · rw [← htext]
      exact having_eq_singleton (nodup_relativePaths hleft hright hidle hrun) hmem
    · have hall : ∀ tree : Tree, tree.shown options.showHidden path = tree.get path := by
        intro tree
        unfold shown
        rw [hshown]
        cases tree.get path <;> rfl
      rw [status_rowOf hrow, hall, hall]
  · intro row hmem
    obtain ⟨path, hpath, hrow⟩ := (mem_entries_iff hleft hright hidle hrun row).mp hmem
    refine ⟨path, ?_, relativePath_rowWith hrow⟩
    rw [← hshown]
    exact hpath

/-- A directory `d` with a file `x`, and one without. -/
def fullTree : Tree :=
  .ofNodes [(["d"], plainDirectory), (["d", "x"], plainFile)] (by decide) (by decide)

def emptiedTree : Tree := .ofNodes [(["d"], plainDirectory)] (by decide) (by decide)

/-- The two trees, undisturbed. -/
def folders : Env := plainEnv fullTree emptiedTree

theorem comparison_exact_folders :
    ∃ fuel t row, runComparison folders ⟨.contentHash, true⟩ leftFolder rightFolder fuel = some t
      ∧ t.store.entries.filter (fun row => row.relativePath = pathText ["d", "x"]) = [row]
      ∧ row.status = .onlyLeft := by
  obtain ⟨⟨fuel, t, hrun⟩, hexact⟩ := comparison_exact folders ⟨.contentHash, true⟩ leftFolder
    rightFolder fullTree emptiedTree rfl (presents_left _ _ _) (presents_right _ _ _) rfl
  have hthrough : Through fullTree emptiedTree true ([] ++ ["d"]) :=
    (Through.nil _ _ _).concat (Or.inr ⟨plainDirectory, rfl, rfl⟩)
      (Or.inr ⟨plainDirectory, rfl, rfl⟩)
  have hcompared : Compared fullTree emptiedTree true (([] ++ ["d"]) ++ ["x"]) :=
    compared_concat_iff.mpr ⟨hthrough, Or.inl (by decide)⟩
  obtain ⟨row, hrow, hstatus⟩ := (hexact fuel t hrun).1 _ hcompared
  refine ⟨fuel, t, row, hrun, hrow, ?_⟩
  injection hstatus

end FileManager.Comparison
