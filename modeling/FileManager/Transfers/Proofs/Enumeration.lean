/-
What copy planning enumerates (`CopyExecutor::plan`): with links copied
as links, every entry of the source tree once, a directory before all
that is below it, and each for the place below the root's destination
that its path leads to; with links followed, it comes to an end whatever
they point to.

# The argument

A turn of the planning loop takes one entry off the stack and puts the
children of a directory on it, whatever pages they come in. Without
links that are followed this is a traversal of the tree
(`Forest.Before`), and the destinations on the stack go along with the
paths.

A followed link puts the children of its target on the stack, so the
traversal may come to an entry again. But a directory is followed only if
its identifier has not been seen, and there are as many of these as
entries. So every turn leaves less to do (`effort`).
-/
import FileManager.Lib.Traversal
import FileManager.Transfers.Proofs.Destinations
import FileManager.Transfers.Proofs.Plans
import Mathlib.Data.Finset.Card

namespace FileManager

open Forest (Under Acyclic Children)
open List
open Forest (size sum_size_lt)

-- ==== the locations

variable {l parent : Location}

theorem Location.length_parent (h : l.parent = some parent) :
    parent.uri.segments.length < l.uri.segments.length := by
  unfold Location.parent at h
  split at h
  case isTrue => cases h
  case isFalse hne =>
    cases h
    show l.uri.segments.dropLast.length < _
    have : 0 < l.uri.segments.length := length_pos_of_ne_nil hne
    rw [length_dropLast]
    omega

open Location

theorem Location.of_parent (h : l.parent = some parent) :
    l.providerId = parent.providerId ∧ l.uri.authority = parent.uri.authority := by
  unfold Location.parent at h
  split at h
  case isTrue => cases h
  case isFalse =>
    injection h with h
    rw [← h]
    exact ⟨rfl, rfl⟩

theorem Location.eq_descend_of_parent {name : String} (h : l.parent = some parent)
    (hname : l.name = .ok name) : l = parent.descend [name] := by
  obtain ⟨provider, authority, segments⟩ := l
  unfold Location.parent at h
  unfold Location.name at hname
  split at h
  case isTrue => cases h
  case isFalse hne =>
    injection h with h
    subst h
    split at hname
    case h_2 => cases hname
    case h_1 last hlast =>
      injection hname with hname
      subst hname
      unfold descend
      rw [dropLast_append_getLast? last hlast]

theorem Location.length_le_of_under {base : Location} (h : Under Location.parent base l) :
    base.uri.segments.length ≤ l.uri.segments.length := by
  induction h with
  | self => exact le_rfl
  | up hparent _ ih =>
    have := length_parent hparent
    omega

theorem Location.acyclic : Acyclic Location.parent := by
  intro l parent hparent hunder
  have := length_parent hparent
  have := length_le_of_under hunder
  omega

namespace Transfers

open Fallible CopyExecutor
open Scheduler (ExecutionError OperationPlan PlanItem)

variable {tree : FileTree} {env : Env} {summary : EntrySummary}

-- ==== the children

/-- Something stands at the location. -/
def There (tree : FileTree) (l : Location) : Prop := Keyed.get tree.nodes l ≠ none

theorem perm_list (env : Env) (files : Files) (directory : Location) :
    ((list env files directory).reverse.flatten).Perm
      ((childrenOf files directory).map fun entry => summarize env entry.1 entry.2) := by
  have hperm := (reverse_perm (list env files directory)).flatten
  unfold list at hperm ⊢
  rwa [flatten_paginate] at hperm

theorem eq_or_child (hstands : Stands tree.nodes summary) {l : Location}
    (hunder : Under Location.parent summary.location l) (hl : Keyed.get tree.nodes l ≠ none) :
    summary.location = l ∨ (summary.kind = .directory
      ∧ ∃ c, c.parent = some summary.location ∧ Keyed.get tree.nodes c ≠ none
        ∧ Under Location.parent c l) := by
  by_cases heq : summary.location = l
  · exact .inl heq
  · obtain ⟨node, hnode, hkind⟩ := hstands
    obtain ⟨hdirectory, hchild⟩ := hunder.exists_child tree.closed heq hl
    rw [hnode] at hdirectory
    injection hdirectory with hdirectory
    refine .inr ⟨?_, hchild⟩
    rw [hkind, hdirectory]
    rfl

theorem children_list (hstands : Stands tree.nodes summary) {entries : List EntrySummary}
    (hentries : entries.Perm ((childrenOf tree.nodes summary.location).map
      fun entry => summarize env entry.1 entry.2)) :
    Children Location.parent (There tree) summary.location (entries.map EntrySummary.location) := by
  have hperm : (entries.map EntrySummary.location).Perm
      ((childrenOf tree.nodes summary.location).map Prod.fst) := by
    have := hentries.map EntrySummary.location
    rwa [map_map] at this
  have hmem : ∀ l, l ∈ entries.map EntrySummary.location
      ↔ There tree l ∧ l.parent = some summary.location := by
    intro l
    rw [hperm.mem_iff, mem_map]
    constructor
    · rintro ⟨⟨k, node⟩, hentry, rfl⟩
      obtain ⟨hnode, hparent⟩ := mem_filter.mp hentry
      refine ⟨?_, of_decide_eq_true hparent⟩
      unfold There
      rw [(Keyed.mem_iff_get tree.distinct).mp hnode]
      exact Option.some_ne_none _
    · rintro ⟨hthere, hparent⟩
      obtain ⟨node, hnode⟩ := Option.ne_none_iff_exists'.mp hthere
      exact ⟨(l, node), mem_filter.mpr
        ⟨(Keyed.mem_iff_get tree.distinct).mpr hnode, decide_eq_true hparent⟩, rfl⟩
  refine ⟨fun c hc => ((hmem c).mp hc).2, fun c hc => ((hmem c).mp hc).1, ?_, ?_⟩
  · exact hperm.nodup_iff.mpr (List.Sublist.nodup (List.Sublist.map _ filter_sublist) tree.distinct)
  · intro k hk hunder
    rcases eq_or_child hstands hunder hk with heq | ⟨-, c, hc, hthere, hck⟩
    · exact .inl heq.symm
    · exact .inr ⟨c, (hmem c).mpr ⟨hthere, hc⟩, hck⟩

theorem children_leaf (hstands : Stands tree.nodes summary) (hkind : summary.kind ≠ .directory) :
    Children Location.parent (There tree) summary.location [] := by
  refine ⟨by simp, by simp, nodup_nil, fun k hk hunder => .inl ?_⟩
  rcases eq_or_child hstands hunder hk with heq | ⟨hdirectory, -⟩
  · exact heq.symm
  · exact absurd hdirectory hkind

theorem stands_of_list {directory : Location}
    (h : summary ∈ (list env tree.nodes directory).reverse.flatten) :
    Stands tree.nodes summary ∧ summary.id = env.identify summary.location
      ∧ summary.location.parent = some directory ∧ summary.location.name = .ok summary.name := by
  obtain ⟨⟨l, node⟩, hentry, rfl⟩ := mem_map.mp ((perm_list env tree.nodes directory).mem_iff.mp h)
  obtain ⟨hnode, hparent⟩ := mem_filter.mp hentry
  have hparent' : l.parent = some directory := of_decide_eq_true hparent
  refine ⟨⟨node, (Keyed.mem_iff_get tree.distinct).mp hnode, rfl⟩, rfl, hparent', ?_⟩
  obtain ⟨name, hname⟩ := name_of_parent hparent'
  show l.name = .ok (l.uri.segments.getLast?.getD "")
  unfold Location.name at hname ⊢
  cases hlast : l.uri.segments.getLast? with
  | none => rw [hlast] at hname; cases hname
  | some last => rfl

-- ==== the turns

namespace CopyExecutor

variable {copy : CopyExecutor} {source root : Location} {round fuel : Nat}
  {summary target : EntrySummary} {path : List String} {followed followed' : List EntryId}
  {files : Files} {rest : List (EntrySummary × List String)} {st' st : Planning}
  {children : List EntrySummary} {r : Except ExecutionError Planning}

/-- What is copied for an entry: the entry itself, or what a link that is
followed points to. -/
inductive Picks (copy : CopyExecutor) (env : Env) (files : Files)
    (summary : EntrySummary) (followed : List EntryId) :
    EntrySummary → List EntryId → Prop
  | itself {followed' : List EntryId}
      (kept : copy.symlinkPolicy = .copyLink ∨ summary.kind ≠ .symlink)
      (known : followed' = followed ∨ followed' = summary.id :: followed) :
      Picks copy env files summary followed summary followed'
  | file {target : EntrySummary} (link : copy.symlinkPolicy = .copyTarget)
      (resolved : resolveSymlink env files summary.location = .ok target)
      (kind : target.kind ≠ .directory) :
      Picks copy env files summary followed target followed
  | directory {target : EntrySummary} (link : copy.symlinkPolicy = .copyTarget)
      (resolved : resolveSymlink env files summary.location = .ok target)
      (new : target.id ∉ followed) :
      Picks copy env files summary followed target (target.id :: followed)

theorem picks_of_follow
    (h : copy.follow env files round summary followed = .ok (some (target, followed'))) :
    Picks copy env files summary followed target followed' := by
  unfold follow at h
  split at h
  case isFalse hlink =>
    have hkept : copy.symlinkPolicy = .copyLink ∨ summary.kind ≠ .symlink := by
      cases hpolicy : copy.symlinkPolicy with
      | copyLink => exact .inl rfl
      | copyTarget => exact .inr fun hkind => hlink ⟨hkind, hpolicy⟩
    split at h
    case isTrue => cases h; exact .itself hkept (.inr rfl)
    case isFalse => cases h; exact .itself hkept (.inl rfl)
  case isTrue hlink =>
    split at h
    case h_1 => cases h
    case h_2 found hask =>
      have hresolved := (Env.ask_eq_ok.mp hask).2
      split at h
      case isFalse hkind => cases h; exact .file hlink.2 hresolved hkind
      case isTrue hkind =>
        obtain ⟨hnew, h⟩ := passed h nofun
        cases h; exact .directory hlink.2 hresolved hnew

/-- A turn of the planning loop, from the stack below the entry that is
taken off. -/
inductive Turn (copy : CopyExecutor) (env : Env) (files : Files) (source root : Location)
    (round : Nat) (summary : EntrySummary) (path : List String)
    (rest : List (EntrySummary × List String)) (st st' : Planning) : Prop
  | passed (stack : st'.stack = aimed root rest) (items : st'.items = st.items)
      (planned : st'.planned = st.planned) (followed : st'.followed = st.followed)
      (link : copy.symlinkPolicy = .copyTarget)
  | taken (target : EntrySummary) (followed' : List EntryId) (children : List EntrySummary)
      (picks : Picks copy env files summary st.followed target followed')
      (below : below env files round target = some children)
      (stack : st'.stack = aimed root
        (children.map (fun child => (child, path ++ [child.name])) ++ rest))
      (items : st'.items = st.items
        ++ [{ entry := summary.entry, bytes := target.size.getD 0 }])
      (planned : st'.planned = Keyed.put st.planned summary.location
        { kind := target.kind
          destination := root.descend path
          source := target.entry
          isRoot := decide (summary.location = source) })
      (followed : st'.followed = followed')

theorem visit_turn (hstack : st.stack = aimed root rest)
    (h : copy.visit env files source round summary (root.descend path) st = .ok st') :
    Turn copy env files source root round summary path rest st st' := by
  unfold visit at h
  obtain ⟨-, h⟩ := passed h nofun
  split at h
  case h_1 => cases h
  case h_2 hfollow =>
    cases h
    refine .passed hstack rfl rfl rfl ?_
    unfold follow at hfollow
    split at hfollow
    case isTrue hlink => exact hlink.2
    case isFalse => split at hfollow <;> cases hfollow
  case h_3 target followed' hfollow =>
    have hpicks := picks_of_follow hfollow
    simp only [planEntry] at h
    split at h
    case isFalse hkind =>
      cases h
      exact .taken target followed' [] hpicks (if_neg hkind) hstack rfl rfl rfl
    case isTrue hkind =>
      rw [hstack] at h
      rcases pushPages_below hkind rest with ⟨children, hbelow, hpush⟩ | ⟨-, e, hpush⟩
      · rw [hpush] at h
        cases h
        exact .taken target followed' children hpicks hbelow rfl rfl rfl rfl
      · simp [hpush] at h

theorem Turn.of_rest {stack : List (EntrySummary × Location)}
    (h : Turn copy env files source root round summary path rest { st with stack := stack } st') :
    Turn copy env files source root round summary path rest st st' := by
  cases h with
  | passed hstack hitems hplanned hfollowed hlink =>
    exact .passed hstack hitems hplanned hfollowed hlink
  | taken target followed' children hpicks hbelow hstack hitems hplanned hfollowed =>
    exact .taken target followed' children hpicks hbelow hstack hitems hplanned hfollowed

theorem children_below (hstands : Stands tree.nodes target)
    (h : below env tree.nodes round target = some children) :
    Children Location.parent (There tree) target.location (children.map EntrySummary.location)
      ∧ ∀ child ∈ children, Stands tree.nodes child ∧ child.id = env.identify child.location
        ∧ child.location = target.location.descend [child.name] := by
  unfold below at h
  split at h
  case isFalse hkind =>
    cases h
    exact ⟨children_leaf hstands hkind, by simp⟩
  case isTrue hkind =>
    simp only at h
    split at h
    case isFalse => cases h
    case isTrue =>
      cases h
      refine ⟨children_list hstands (perm_list env tree.nodes _), fun child hchild => ?_⟩
      obtain ⟨hthere, hid, hparent, hname⟩ := stands_of_list hchild
      exact ⟨hthere, hid, eq_descend_of_parent hparent hname⟩

-- ==== every entry once

/-- The locations of the items, in order. -/
def placesOf (items : List PlanItem) : List Location := items.map (·.entry.location)

/-- What the planning loop keeps where links are copied as links, with
the paths of what is on the stack. -/
structure Walks (tree : FileTree) (source root : Location) (st : Planning)
    (stack : List (EntrySummary × List String)) : Prop where
  aims : st.stack = aimed root stack
  stands : ∀ p ∈ stack, Stands tree.nodes p.1 ∧ p.1.location = source.descend p.2
  before : Forest.Before Location.parent (There tree) [source] (placesOf st.items)
    (stack.map (·.1.location))
  placed : ∀ l ∈ placesOf st.items, ∃ path, l = source.descend path
    ∧ (Keyed.get st.planned l).map PlannedCopyEntry.destination = some (root.descend path)

theorem Walks.start (hstands : Stands tree.nodes summary) (root : Location) :
    Walks tree summary.location root (planningFrom summary root) [(summary, [])] where
  aims := aimed_root root summary
  stands := by
    intro p hp
    rw [mem_singleton.mp hp]
    exact ⟨hstands, (descend_nil _).symm⟩
  before := by
    refine Forest.Before.start (pairwise_singleton _ _) ?_
    intro l hl
    obtain ⟨node, hnode, -⟩ := hstands
    rw [mem_singleton.mp hl]
    unfold There
    rw [hnode]
    exact Option.some_ne_none _
  placed := fun _ hl => by cases hl

theorem Picks.eq_of_copyLink (hpolicy : copy.symlinkPolicy = .copyLink)
    (h : Picks copy env files summary followed target followed') : target = summary := by
  cases h with
  | itself => rfl
  | file hlink | directory hlink => rw [hpolicy] at hlink; cases hlink

theorem Walks.turn (hpolicy : copy.symlinkPolicy = .copyLink)
    (h : Walks tree source root st ((summary, path) :: rest))
    (hturn : Turn copy env tree.nodes source root round summary path rest st st') :
    ∃ stack, Walks tree source root st' stack := by
  obtain ⟨hstands, hpath⟩ := h.stands (summary, path) mem_cons_self
  cases hturn with
  | passed _ _ _ _ hlink => rw [hpolicy] at hlink; cases hlink
  | taken target followed' children hpicks hbelow hstack hitems hplanned hfollowed =>
    obtain rfl := hpicks.eq_of_copyLink hpolicy
    obtain ⟨hchildren, hchild⟩ := children_below hstands hbelow
    have hplaces : placesOf st'.items = placesOf st.items ++ [target.location] := by
      unfold placesOf
      rw [hitems, map_append]
      rfl
    -- what is visited now has not been visited before
    have hnew : target.location ∉ placesOf st.items := fun hmem =>
      h.before.ahead target.location (by simp) _ hmem .self
    refine ⟨_, hstack, ?_, ?_, ?_⟩
    · intro p hp
      rcases mem_append.mp hp with hp | hp
      · obtain ⟨child, hmem, rfl⟩ := mem_map.mp hp
        obtain ⟨hthere, -, hlocation⟩ := hchild child hmem
        refine ⟨hthere, ?_⟩
        show child.location = source.descend (path ++ [child.name])
        rw [hlocation, hpath]
        simp [descend]
      · exact h.stands p (mem_cons_of_mem _ hp)
    · have hvisit := h.before.visit Location.acyclic hchildren
      rw [hplaces, map_append, map_map]
      exact hvisit
    · intro l hl
      rw [hplanned, Keyed.get_put]
      rw [hplaces] at hl
      rcases mem_append.mp hl with hl | hl
      · have hother : l ≠ target.location := fun heq => hnew (heq ▸ hl)
        rw [if_neg hother]
        exact h.placed l hl
      · rw [mem_singleton.mp hl, if_pos rfl]
        exact ⟨path, hpath, rfl⟩

/-- What a plan is to be: every entry of the source tree, each once, a
directory before what is below it, and each for the place that its path
leads to below the root's destination. -/
structure Enumerates (tree : FileTree) (source root : Location) (items : List PlanItem)
    (planned : List (Location × PlannedCopyEntry)) : Prop where
  all : ∀ l, l ∈ placesOf items ↔ There tree l ∧ Under Location.parent source l
  once : (placesOf items).Nodup
  ordered : (placesOf items).Pairwise fun earlier later =>
    ¬ Under Location.parent later earlier
  placed : ∀ l ∈ placesOf items, ∃ path, l = source.descend path
    ∧ (Keyed.get planned l).map PlannedCopyEntry.destination = some (root.descend path)

theorem Walks.enumerates (h : Walks tree source root st []) :
    Enumerates tree source root st.items st.planned where
  all := by
    intro l
    rw [h.before.finish.2 l]
    simp
  once := h.before.finish.1
  ordered := h.before.ordered
  placed := h.placed

theorem planLoop_enumerates (hpolicy : copy.symlinkPolicy = .copyLink)
    (hstands : Stands tree.nodes summary)
    (h : copy.planLoop env tree.nodes summary.location fuel (planningFrom summary root)
      = some (.ok st)) :
    Enumerates tree summary.location root st.items st.planned := by
  obtain ⟨⟨stack, hwalks⟩, hempty⟩ := planLoop_invariant
    (I := fun st => ∃ stack, Walks tree summary.location root st stack)
    (by
      intro st st' round top destination rest hwalks hstack hvisit
      obtain ⟨stack, hwalks⟩ := hwalks
      have haims := hwalks.aims
      rw [hstack] at haims
      cases stack with
      | nil => cases haims
      | cons next others =>
        obtain ⟨entry, path⟩ := next
        injection haims with htop haims
        injection htop with hentry hdestination
        subst hentry hdestination
        exact hwalks.turn hpolicy (visit_turn haims hvisit).of_rest)
    ⟨_, Walks.start hstands root⟩ h
  have haims := hwalks.aims
  rw [hempty] at haims
  cases stack with
  | nil => exact hwalks.enumerates
  | cons => cases haims

-- ==== coming to an end

/-- The identifiers of the entries that have not been followed. -/
def unfollowed (env : Env) (tree : FileTree) (followed : List EntryId) : Finset EntryId :=
  (tree.nodes.map fun entry => env.identify entry.1).toFinset \ followed.toFinset

/-- How much there is to be copied below the stack. -/
noncomputable def waiting (tree : FileTree) (stack : List (EntrySummary × List String)) : Nat :=
  (stack.map fun p =>
    size Location.parent (tree.nodes.map Prod.fst) p.1.location).sum

/-- What is left to do: a directory that may be followed is worth more
than everything below the stack. -/
noncomputable def effort (env : Env) (tree : FileTree) (followed : List EntryId)
    (stack : List (EntrySummary × List String)) : Nat :=
  (unfollowed env tree followed).card * (tree.nodes.length + 1) + waiting tree stack

theorem Stands.mem (h : Stands tree.nodes summary) :
    summary.location ∈ tree.nodes.map Prod.fst := by
  obtain ⟨node, hnode, -⟩ := h
  exact mem_map.mpr ⟨_, (Keyed.mem_iff_get tree.distinct).mpr hnode, rfl⟩

theorem size_le_nodes (l : Location) :
    size Location.parent (tree.nodes.map Prod.fst) l ≤ tree.nodes.length := by
  have := @Forest.size_le _ Location.parent l (tree.nodes.map Prod.fst)
  rwa [length_map] at this

theorem waiting_children (hstands : Stands tree.nodes target)
    (h : below env tree.nodes round target = some children) (path : List String)
    (rest : List (EntrySummary × List String)) :
    waiting tree (children.map (fun child => (child, path ++ [child.name])) ++ rest)
      < size Location.parent (tree.nodes.map Prod.fst) target.location
        + waiting tree rest := by
  have hchildren := (children_below hstands h).1
  have hlt := sum_size_lt Location.acyclic (hchildren.apart Location.acyclic)
    hchildren.hang hstands.mem
  unfold waiting
  rw [map_append, sum_append, map_map]
  rw [map_map] at hlt
  exact Nat.add_lt_add_right hlt _

theorem unfollowed_cons_le (followed : List EntryId) (id : EntryId) :
    (unfollowed env tree (id :: followed)).card ≤ (unfollowed env tree followed).card := by
  refine Finset.card_le_card ?_
  unfold unfollowed
  refine Finset.sdiff_subset_sdiff (le_refl _) ?_
  rw [toFinset_cons]
  exact Finset.subset_insert _ _

theorem unfollowed_cons_lt (hstands : Stands tree.nodes target)
    (hid : target.id = env.identify target.location) (hnew : target.id ∉ followed) :
    (unfollowed env tree (target.id :: followed)).card < (unfollowed env tree followed).card := by
  refine Finset.card_lt_card ?_
  have hmem : target.id ∈ unfollowed env tree followed := by
    unfold unfollowed
    rw [Finset.mem_sdiff, mem_toFinset, mem_toFinset]
    obtain ⟨entry, hentry, hlocation⟩ := mem_map.mp hstands.mem
    refine ⟨mem_map.mpr ⟨entry, hentry, ?_⟩, hnew⟩
    rw [hlocation, hid]
  refine Finset.ssubset_iff_subset_ne.mpr ⟨?_, ?_⟩
  · unfold unfollowed
    refine Finset.sdiff_subset_sdiff (le_refl _) ?_
    rw [toFinset_cons]
    exact Finset.subset_insert _ _
  · intro heq
    rw [← heq] at hmem
    unfold unfollowed at hmem
    rw [Finset.mem_sdiff, mem_toFinset, mem_toFinset] at hmem
    exact hmem.2 mem_cons_self

theorem stands_of_resolve {l : Location} (h : resolveSymlink env tree.nodes l = .ok target) :
    Stands tree.nodes target ∧ target.id = env.identify target.location := by
  unfold resolveSymlink at h
  split at h
  case h_1 place _ =>
    split at h
    case h_1 => cases h
    case h_2 => cases h
    case h_3 node _ hnode => injection h with h; subst h; exact ⟨⟨_, hnode, rfl⟩, rfl⟩
  case h_2 node _ hnode => injection h with h; subst h; exact ⟨⟨_, hnode, rfl⟩, rfl⟩
  case h_3 => cases h

theorem Turn.effort_lt (hstands : ∀ p ∈ (summary, path) :: rest, Stands tree.nodes p.1)
    (h : Turn copy env tree.nodes source root round summary path rest st st') :
    ∃ stack, st'.stack = aimed root stack ∧ (∀ p ∈ stack, Stands tree.nodes p.1)
      ∧ effort env tree st'.followed stack
        < effort env tree st.followed ((summary, path) :: rest) := by
  have htop : Stands tree.nodes summary := hstands (summary, path) mem_cons_self
  have hrest : ∀ p ∈ rest, Stands tree.nodes p.1 := fun p hp => hstands p (mem_cons_of_mem _ hp)
  have hwaiting : waiting tree ((summary, path) :: rest)
      = size Location.parent (tree.nodes.map Prod.fst) summary.location
        + waiting tree rest := rfl
  have hpos : 0 < size Location.parent (tree.nodes.map Prod.fst) summary.location := by
    have := sum_size_lt Location.acyclic .nil (by simp) htop.mem
    simpa using this
  cases h with
  | passed hstack _ _ hfollowed _ =>
    refine ⟨rest, hstack, hrest, ?_⟩
    unfold effort
    rw [hfollowed, hwaiting]
    omega
  | taken target followed' children hpicks hbelow hstack hitems hplanned hfollowed =>
    have htarget : Stands tree.nodes target := by
      cases hpicks with
      | itself => exact htop
      | file _ hresolved | directory _ hresolved => exact (stands_of_resolve hresolved).1
    refine ⟨_, hstack, ?_, ?_⟩
    · intro p hp
      rcases mem_append.mp hp with hp | hp
      · obtain ⟨child, hmem, rfl⟩ := mem_map.mp hp
        exact ((children_below htarget hbelow).2 child hmem).1
      · exact hrest p hp
    · have hless := waiting_children htarget hbelow path rest
      have hle := @size_le_nodes tree target.location
      unfold effort
      rw [hfollowed, hwaiting]
      cases hpicks with
      | itself _ hknown =>
        have hcard : (unfollowed env tree followed').card
            ≤ (unfollowed env tree st.followed).card := by
          rcases hknown with rfl | rfl
          · exact le_rfl
          · exact unfollowed_cons_le _ _
        have := Nat.mul_le_mul_right (tree.nodes.length + 1) hcard
        omega
      | file _ _ hkind =>
        -- nothing is below a file
        unfold CopyExecutor.below at hbelow
        rw [if_neg hkind] at hbelow
        cases hbelow
        rw [map_nil, nil_append]
        omega
      | directory _ hresolved hnew =>
        have hcard := unfollowed_cons_lt htarget (stands_of_resolve hresolved).2 hnew
        have := Nat.mul_le_mul_right (tree.nodes.length + 1) hcard
        rw [Nat.succ_mul] at this
        omega

theorem planLoop_returns (fuel : Nat) {stack : List (EntrySummary × List String)}
    (haims : st.stack = aimed root stack) (hstands : ∀ p ∈ stack, Stands tree.nodes p.1)
    (hfuel : effort env tree st.followed stack ≤ fuel) :
    ∃ r, copy.planLoop env tree.nodes source fuel st = some r := by
  induction fuel generalizing st stack with
  | zero =>
    cases stack with
    | nil =>
      unfold planLoop
      rw [haims]
      exact ⟨_, rfl⟩
    | cons top rest =>
      have hpos : 0 < waiting tree (top :: rest) := by
        have := sum_size_lt Location.acyclic .nil (by simp) (hstands top mem_cons_self).mem
        exact Nat.lt_of_lt_of_le (by simpa using this) (Nat.le_add_right _ _)
      unfold effort at hfuel
      omega
  | succ fuel ih =>
    unfold planLoop
    rw [haims]
    cases stack with
    | nil => exact ⟨_, rfl⟩
    | cons top rest =>
      obtain ⟨summary, path⟩ := top
      simp only [aimed, map_cons]
      split
      case h_1 e _ => exact ⟨.error e, rfl⟩
      case h_2 st' hvisit =>
        obtain ⟨stack', haims', hstands', hless⟩ :=
          (visit_turn rfl hvisit).of_rest.effort_lt hstands
        exact ih haims' hstands' (by omega)

-- ==== going through

theorem planLoop_ok {I : Planning → Prop}
    (hvisit : ∀ {st : Planning} {round : Nat} {summary : EntrySummary} {destination : Location}
      {rest : List (EntrySummary × Location)}, I st → st.stack = (summary, destination) :: rest →
      ∃ st', copy.visit env files source round summary destination { st with stack := rest }
      = .ok st' ∧ I st')
    (h : I st) (hloop : copy.planLoop env files source fuel st = some r) : ∃ st', r = .ok st' := by
  induction fuel generalizing st with
  | zero =>
    unfold planLoop at hloop
    split at hloop
    case h_1 => injection hloop with hloop; exact ⟨st, hloop.symm⟩
    case h_2 => cases hloop
    case h_3 hzero => cases hzero
  | succ fuel ih =>
    unfold planLoop at hloop
    split at hloop
    case h_1 => injection hloop with hloop; exact ⟨st, hloop.symm⟩
    case h_2 hzero => cases hzero
    case h_3 summary destination rest fuel' hstack hfuel =>
      cases hfuel
      obtain ⟨st', hround, h'⟩ := hvisit h hstack
      rw [hround] at hloop
      exact ih h' hloop

/-- Providers build the locations of what they list with
`Location::join`. -/
def Named (tree : FileTree) (source : Location) : Prop :=
  ∀ l, There tree l → Under Location.parent source l → l ≠ source →
    ∃ parent name, join parent name = .ok l

theorem Walks.visit_ok (hpolicy : copy.symlinkPolicy = .copyLink) (henv : env.Undisturbed)
    (hnamed : Named tree source) (h : Walks tree source root st ((summary, path) :: rest)) :
    ∃ st', copy.visit env tree.nodes source round summary (root.descend path)
      { st with stack := aimed root rest } = .ok st' := by
  have hstands := (h.stands (summary, path) mem_cons_self).1
  have hbelow : Under Location.parent source summary.location := by
    obtain ⟨-, r, hr, hunder⟩ := h.before.below summary.location (.inr (by simp))
    rwa [mem_singleton.mp hr] at hunder
  have hfollow : copy.follow env tree.nodes round summary st.followed
      = .ok (some (summary, st.followed)) := by
    unfold follow
    rw [hpolicy]
    simp
  unfold CopyExecutor.visit
  rw [henv.continues, hfollow]
  simp only [planEntry, Bool.false_eq_true, if_false]
  by_cases hkind : summary.kind = .directory
  · rw [if_pos hkind]
    rcases pushPages_below hkind rest with ⟨children, -, hpush⟩ | ⟨hnone, -⟩
    · rw [hpush]
      exact ⟨_, rfl⟩
    · -- what it lists has names
      unfold CopyExecutor.below at hnone
      rw [if_pos hkind] at hnone
      simp only at hnone
      rw [if_pos] at hnone
      · cases hnone
      · refine ⟨fun page _ => henv.answers _, fun child hchild => ?_⟩
        have hmem : child ∈ (list env tree.nodes summary.location).reverse.flatten := by
          rw [mem_flatten] at hchild ⊢
          obtain ⟨page, hpage, hin⟩ := hchild
          exact ⟨page, mem_reverse.mpr hpage, hin⟩
        obtain ⟨hchildStands, -, hparent, hname⟩ := stands_of_list hmem
        have hunder := hbelow.trans (.of_parent hparent)
        have hne : child.location ≠ source := by
          intro heq
          rw [heq] at hparent
          exact Location.acyclic _ _ hparent hbelow
        obtain ⟨node, hnode, -⟩ := hchildStands
        obtain ⟨parent, name, hjoin⟩ := hnamed child.location
          (by unfold There; rw [hnode]; exact Option.some_ne_none _) hunder hne
        have := name_of_join hjoin
        rw [hname] at this
        injection this with this
        rw [this]
        exact validateName_of_join hjoin
  · rw [if_neg hkind]
    exact ⟨_, rfl⟩

theorem Walks.planLoop_ok (hpolicy : copy.symlinkPolicy = .copyLink) (henv : env.Undisturbed)
    (hnamed : Named tree summary.location) (hstands : Stands tree.nodes summary)
    (h : copy.planLoop env tree.nodes summary.location fuel (planningFrom summary root) = some r) :
    ∃ st, r = .ok st := by
  refine CopyExecutor.planLoop_ok
    (I := fun st => ∃ stack, Walks tree summary.location root st stack) ?_
    ⟨_, Walks.start hstands root⟩ h
  intro st round top destination rest hwalks hstack
  obtain ⟨stack, hwalks⟩ := hwalks
  have haims := hwalks.aims
  rw [hstack] at haims
  cases stack with
  | nil => cases haims
  | cons next others =>
    obtain ⟨entry, path⟩ := next
    injection haims with htop haims
    injection htop with hentry hdestination
    subst hentry hdestination haims
    obtain ⟨st', hvisit⟩ := hwalks.visit_ok hpolicy henv hnamed
    exact ⟨st', hvisit, hwalks.turn hpolicy (visit_turn rfl hvisit).of_rest⟩

-- ==== the plan

/-- Turns enough for a plan of anything in the tree. -/
def turns (tree : FileTree) : Nat := tree.nodes.length * (tree.nodes.length + 2)

theorem effort_le_turns (summary : EntrySummary) :
    effort env tree [] [(summary, [])] ≤ turns tree := by
  have hcard : (unfollowed env tree []).card ≤ tree.nodes.length := by
    unfold unfollowed
    refine (Finset.card_le_card Finset.sdiff_subset).trans ?_
    refine (toFinset_card_le _).trans ?_
    rw [length_map]
  have hsize := @size_le_nodes tree summary.location
  have hmul := Nat.mul_le_mul_right (tree.nodes.length + 1) hcard
  unfold effort waiting turns
  rw [map_singleton, sum_singleton]
  have : tree.nodes.length * (tree.nodes.length + 2)
      = tree.nodes.length * (tree.nodes.length + 1) + tree.nodes.length :=
    Nat.mul_succ _ _
  show (unfollowed env tree []).card * (tree.nodes.length + 1)
    + size Location.parent (tree.nodes.map Prod.fst) summary.location ≤ _
  omega

theorem planLoop_comes_to_end (hstands : Stands tree.nodes summary) (hfuel : turns tree ≤ fuel) :
    ∃ r, copy.planLoop env tree.nodes source fuel (planningFrom summary root) = some r := by
  refine planLoop_returns fuel (aimed_root root summary) ?_ ((effort_le_turns summary).trans hfuel)
  intro p hp
  rw [mem_singleton.mp hp]
  exact hstands

theorem length_le_of_once {items : List PlanItem} (hthere : ∀ l ∈ placesOf items, There tree l)
    (honce : (placesOf items).Nodup) : items.length ≤ tree.nodes.length := by
  have hsub : placesOf items ⊆ tree.nodes.map Prod.fst := fun l hl =>
    Keyed.mem_keys_iff.mpr (hthere l hl)
  have := (honce.subperm hsub).length_le
  unfold placesOf at this
  rwa [length_map, length_map] at this

/-- Where links are copied as links, a plan is the source tree's, and
there is one if nothing goes wrong, the copy has a place outside the
source, and the names may be joined. Planning always comes to an end
(but for more items than a `Vec` holds). -/
theorem plan_enumerates_tree {operation : Operation} {w : World}
    (hsource : copy.sourceOf operation = pure source) (hfiles : w.disk.files = tree.nodes) :
    (copy.symlinkPolicy = .copyLink →
      (∀ fuel plan w', Yields (copy.plan env operation fuel) w (.ok plan) w' →
        ∃ summary root, inspect env tree.nodes source = .ok summary
          ∧ copy.destinationDirectory.join (w.cells.rootName.getD summary.name) = .ok root
          ∧ Enumerates tree source root plan.items w'.cells.planned)
      ∧ (∀ summary root, env.Undisturbed → tree.nodes.length ≤ Word.max →
        inspect env tree.nodes source = .ok summary →
        copy.destinationDirectory.join (w.cells.rootName.getD summary.name) = .ok root →
        (source.providerId = root.providerId → validatePaths source root = .ok ()) →
        Named tree source →
        ∀ fuel, turns tree ≤ fuel →
          ∃ plan w', Yields (copy.plan env operation fuel) w (.ok plan) w'))
    ∧ ∀ fuel, turns tree ≤ fuel → Returns (copy.plan env operation fuel) w
        ∨ ∃ summary root st, inspect env tree.nodes source = .ok summary
          ∧ copy.destinationDirectory.join (w.cells.rootName.getD summary.name) = .ok root
          ∧ copy.planLoop env tree.nodes source fuel (planningFrom summary root)
            = some (.ok st)
          ∧ Word.max < st.items.length := by
  refine ⟨fun hpolicy => ⟨?_, ?_⟩, ?_⟩
  · intro fuel plan w' h
    obtain ⟨summary, root, st, hmakes, hitems, rfl⟩ := (yields_plan_iff hsource).mp h
    have hinspect := (Env.ask_eq_ok.mp hmakes.asked).2
    have hwalked := hmakes.walked
    rw [hfiles] at hinspect hwalked
    obtain ⟨rfl, hstands⟩ := inspect_eq_ok hinspect
    refine ⟨summary, root, hinspect, hmakes.joined, ?_⟩
    rw [hitems]
    exact planLoop_enumerates hpolicy hstands hwalked
  · intro summary root henv hfits hinspect hjoin hcheck hnamed fuel hfuel
    obtain ⟨rfl, hstands⟩ := inspect_eq_ok hinspect
    obtain ⟨r, hr⟩ := @planLoop_comes_to_end _ _ _ _ root _ _ hstands hfuel
    obtain ⟨st, rfl⟩ := Walks.planLoop_ok hpolicy henv hnamed hstands hr
    have henumerates := planLoop_enumerates hpolicy hstands hr
    have hlength := length_le_of_once (fun l hl => ((henumerates.all l).mp hl).1)
      henumerates.once
    refine ⟨OperationPlan.new st.items (hlength.trans hfits), planWritten w st,
      (yields_plan_iff hsource).mpr ⟨summary, root, st, ⟨?_, hjoin, hcheck, ?_⟩, rfl, rfl⟩⟩
    · rw [henv.ask, hfiles]
      exact hinspect
    · rw [hfiles]
      exact hr
  · intro fuel hfuel
    by_cases hfits : ∃ summary root st, inspect env tree.nodes source = .ok summary
        ∧ copy.destinationDirectory.join (w.cells.rootName.getD summary.name) = .ok root
        ∧ copy.planLoop env tree.nodes source fuel (planningFrom summary root) = some (.ok st)
        ∧ Word.max < st.items.length
    · exact .inr hfits
    · refine .inl (returns_plan hsource ?_)
      intro summary root hasked hjoin
      rw [hfiles] at hasked ⊢
      have hinspect := (Env.ask_eq_ok.mp hasked).2
      obtain ⟨-, hstands⟩ := inspect_eq_ok hinspect
      obtain ⟨r, hr⟩ := planLoop_comes_to_end hstands hfuel
      refine ⟨r, hr, fun st hst => ?_⟩
      subst hst
      by_contra hmore
      exact hfits ⟨summary, root, st, hinspect, hjoin, hr, by omega⟩

/-- The names of a tree's entries may be joined. -/
def namesAllowed (tree : FileTree) : Bool :=
  tree.nodes.all fun entry => match entry.1.uri.segments.getLast? with
    | some name => validateName name = .ok ()
    | none => true

theorem named_of_namesAllowed (h : namesAllowed tree = true) (source : Location) :
    Named tree source := by
  intro l hthere hunder hne
  obtain ⟨node, hnode⟩ := Option.ne_none_iff_exists'.mp hthere
  have hmem := (Keyed.mem_iff_get tree.distinct).mpr hnode
  have hentry := all_eq_true.mp h _ hmem
  rcases hunder.eq_or_parent with heq | ⟨parent, hparent, -⟩
  · exact absurd heq hne
  · obtain ⟨name, hname⟩ := name_of_parent hparent
    refine ⟨parent, name, ?_⟩
    have hvalid : validateName name = .ok () := by
      unfold Location.name at hname
      cases hlast : l.uri.segments.getLast? with
      | none => rw [hlast] at hname; cases hname
      | some last =>
        rw [hlast] at hname
        injection hname with hname
        simp only [hlast, decide_eq_true_eq] at hentry
        rw [← hname]
        exact hentry
    obtain ⟨l', hjoin⟩ := join_of_validateName parent hvalid
    rw [hjoin, eq_descend_of_parent (parent_of_join hjoin) (name_of_join hjoin),
      eq_descend_of_parent hparent hname]

/-- The copy of `/src/d` into `/dst`. -/
def treeCopy (policy : SymlinkPolicy) : CopyExecutor where
  destinationDirectory := localPath ["dst"]
  symlinkPolicy := policy
  sourceOverride := some (localPath ["src", "d"])
  continueOnError := true
  transfer := sampleMove.transfer

/-- `/src/d`, with a link in it to itself. -/
def loopTree : FileTree :=
  .ofNodes
    [(localPath [], .directory), (localPath ["src"], .directory),
      (localPath ["src", "d"], .directory),
      (localPath ["src", "d", "up"], .symlink (localPath ["src", "d"])),
      (localPath ["dst"], .directory)]
    (by decide +kernel) (by decide +kernel)

/-- The directory and its file are planned, each once; and a directory
with a link to itself, which is followed, is planned too. -/
theorem plan_enumerates_sample :
    (∃ plan w', Yields ((treeCopy .copyLink).plan .quiet sampleOperation (turns sampleTree))
        (idleOn sampleTree) (.ok plan) w'
      ∧ Enumerates sampleTree (localPath ["src", "d"]) (localPath ["dst", "d"]) plan.items
        w'.cells.planned)
    ∧ Returns ((treeCopy .copyTarget).plan .quiet sampleOperation (turns loopTree))
        (idleOn loopTree) := by
  constructor
  · obtain ⟨hplanned, hreturned⟩ := (@plan_enumerates_tree _ _ (treeCopy .copyLink)
      _ _ (idleOn sampleTree) rfl rfl).1 rfl
    have hinspect : inspect .quiet sampleTree.nodes (localPath ["src", "d"])
        = .ok (summarize .quiet (localPath ["src", "d"]) .directory) := by decide +kernel
    have hjoin : (localPath ["dst"]).join "d" = .ok (localPath ["dst", "d"]) := by
      decide +kernel
    obtain ⟨plan, w', h⟩ := hreturned _ _ ⟨fun _ => rfl, fun _ => rfl⟩ (by decide)
      hinspect hjoin (fun _ => by decide +kernel)
      (named_of_namesAllowed (by decide +kernel) _) _ (Nat.le_refl _)
    obtain ⟨summary, root, hinspect', hjoin', henumerates⟩ := hplanned _ _ _ h
    obtain rfl : summarize .quiet (localPath ["src", "d"]) .directory = summary := by
      rw [hinspect] at hinspect'
      injection hinspect'
    obtain rfl : localPath ["dst", "d"] = root := by
      have heq := hjoin.symm.trans hjoin'
      injection heq
    exact ⟨plan, w', h, henumerates⟩
  · rcases (@plan_enumerates_tree _ _ (treeCopy .copyTarget) _ _ (idleOn loopTree)
      rfl rfl).2 _ (Nat.le_refl _) with hreturns | ⟨summary, root, st, hinspect, hjoin, hloop, hmore⟩
    · exact hreturns
    · exfalso
      obtain rfl : summarize .quiet (localPath ["src", "d"]) .directory = summary := by
        have hfound : inspect .quiet loopTree.nodes (localPath ["src", "d"])
            = .ok (summarize .quiet (localPath ["src", "d"]) .directory) := by decide +kernel
        have heq := hfound.symm.trans hinspect
        injection heq
      obtain rfl : localPath ["dst", "d"] = root := by
        have hfound : (localPath ["dst"]).join "d" = .ok (localPath ["dst", "d"]) := by
          decide +kernel
        have heq := hfound.symm.trans hjoin
        injection heq
      have hcount : ((treeCopy .copyTarget).planLoop .quiet loopTree.nodes
          (localPath ["src", "d"]) (turns loopTree)
          (planningFrom (summarize .quiet (localPath ["src", "d"]) .directory)
            (localPath ["dst", "d"]))).map (fun r => r.toOption.map (·.items.length))
          = some (some 1) := by decide +kernel
      rw [hloop] at hcount
      injection hcount with hcount
      injection hcount with hcount
      have hlength : st.items.length = 1 := hcount
      rw [hlength] at hmore
      exact absurd hmore (by decide)

end CopyExecutor

end Transfers

end FileManager
