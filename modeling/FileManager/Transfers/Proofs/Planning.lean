/-
The plan of a copy covers its source: every regular file of the source
tree is planned as a file, from its own location, and is an item.

# The argument

The stack is the frontier of the walk. At every round each file of the
tree is planned already, or lies below an entry of the stack
(`Covers.covered`). An entry that is taken off is a directory whose
children go onto the stack, one of them on the way down to the file; or
it is the file; or nothing is below it. Following a link only adds
entries to both.
-/
import FileManager.Transfers.Proofs.Execute

namespace FileManager.Transfers

open Fallible Keeps List
open Forest (Under)
open Scheduler (ExecutionError OperationPlan PlanItem)
open Location (parent)
open Keyed (get_put)

-- ==== pages

theorem flatten_paginate {α : Type} (sizes : List Nat) (entries : List α) :
    (paginate sizes entries).flatten = entries := by
  induction sizes generalizing entries with
  | nil => simp [paginate]
  | cons size sizes ih =>
    unfold paginate
    rw [flatten_cons, ih, take_append_drop]

theorem mem_list {env : Env} {files : Files} {directory : Location} {summary : EntrySummary} :
    (∃ page ∈ list env files directory, summary ∈ page) ↔ ∃ entry ∈ childrenOf files directory,
          summarize env entry.1 entry.2 = summary := by
  rw [← mem_map]
  unfold list
  rw [← mem_flatten, flatten_paginate]

namespace CopyExecutor

variable {env : Env} {round fuel : Nat} {destination root l rootDestination : Location}
  {stack stack' : List (EntrySummary × Location)} {copy : CopyExecutor} {tree : FileTree}
  {summary : EntrySummary} {content : Bytes} {files : Files} {entry : PlannedCopyEntry}
  {items : List PlanItem} {item : PlanItem} {st st' : Planning} {w w' : World}
  {operation : Operation} {result : OperationPlan}

theorem mem_pushPage {entries : List EntrySummary}
    (h : pushPage destination entries stack = .ok stack') :
    (∀ p ∈ stack, p ∈ stack') ∧ (∀ child ∈ entries, ∃ d, (child, d) ∈ stack')
      ∧ ∀ p ∈ stack', p ∈ stack ∨ p.1 ∈ entries := by
  induction entries generalizing stack with
  | nil =>
    cases h
    exact ⟨fun _ hp => hp, by simp, fun _ hp => .inl hp⟩
  | cons child rest ih =>
    unfold pushPage at h
    split at h
    case h_1 => cases h
    case h_2 childDestination _ =>
      obtain ⟨hkept, hpushed, honly⟩ := ih h
      refine ⟨fun p hp => hkept p (mem_cons_of_mem _ hp), ?_, ?_⟩
      · intro c hc
        rcases mem_cons.mp hc with rfl | hc
        · exact ⟨childDestination, hkept _ mem_cons_self⟩
        · exact hpushed c hc
      · intro p hp
        rcases honly p hp with hp | hp
        · rcases mem_cons.mp hp with rfl | hp
          · exact .inr mem_cons_self
          · exact .inl hp
        · exact .inr (mem_cons_of_mem _ hp)

theorem mem_pushPages {page : Nat} {pages : List (List EntrySummary)}
    (h : pushPages env round destination page pages stack = .ok stack') :
    (∀ p ∈ stack, p ∈ stack')
      ∧ (∀ child, (∃ entries ∈ pages, child ∈ entries) → ∃ d, (child, d) ∈ stack')
      ∧ ∀ p ∈ stack', p ∈ stack ∨ ∃ entries ∈ pages, p.1 ∈ entries := by
  induction pages generalizing page stack with
  | nil =>
    cases h
    exact ⟨fun _ hp => hp, by simp, fun _ hp => .inl hp⟩
  | cons entries rest ih =>
    unfold pushPages at h
    split at h
    case h_1 => cases h
    case h_2 =>
      split at h
      case h_1 => cases h
      case h_2 stack₁ hpage =>
        obtain ⟨hkept, hpushed, honly⟩ := mem_pushPage hpage
        obtain ⟨hkept', hpushed', honly'⟩ := ih h
        refine ⟨fun p hp => hkept' p (hkept p hp), ?_, ?_⟩
        · intro child hfound
          obtain ⟨entries', hentries, hchild⟩ := hfound
          rcases mem_cons.mp hentries with rfl | hentries
          · obtain ⟨d, hd⟩ := hpushed child (mem_reverse.mpr hchild)
            exact ⟨d, hkept' _ hd⟩
          · exact hpushed' child ⟨entries', hentries, hchild⟩
        · intro p hp
          rcases honly' p hp with hp | ⟨entries', hentries, hp⟩
          · rcases honly p hp with hp | hp
            · exact .inl hp
            · exact .inr ⟨entries, mem_cons_self, mem_reverse.mp hp⟩
          · exact .inr ⟨entries', mem_cons_of_mem _ hentries, hp⟩

-- ==== the frontier

/-- The summary is of an entry that is there. -/
def Stands (files : Files) (summary : EntrySummary) : Prop :=
  ∃ node, Keyed.get files summary.location = some node ∧ summary.kind = node.kind

/-- The file is planned from its own location, and is an item. -/
structure PlansFile (planned : List (Location × PlannedCopyEntry))
    (items : List PlanItem) (l : Location) : Prop where
  entry : ∃ entry, Keyed.get planned l = some entry ∧ entry.kind = .file ∧ entry.source.location = l
  item : ∃ item ∈ items, item.entry.location = l

/-- What the planning loop keeps. -/
structure Covers (tree : FileTree) (root : Location) (st : Planning) : Prop where
  stands : ∀ p ∈ st.stack, Stands tree.nodes p.1
  present : ∀ l, Keyed.get st.planned l ≠ none → Keyed.get tree.nodes l ≠ none
  listed : ∀ item ∈ st.items, Keyed.get st.planned item.entry.location ≠ none
  marked : ∀ l entry, Keyed.get st.planned l = some entry →
    entry.isRoot = decide (l = root)
  covered : ∀ l content, Under parent root l →
    Keyed.get tree.nodes l = some (.file content) →
    PlansFile st.planned st.items l ∨ ∃ p ∈ st.stack, Under parent p.1.location l

theorem eq_of_under (hstands : Stands tree.nodes summary) (hkind : summary.kind ≠ .directory)
    (hunder : Under parent summary.location l)
    (hl : Keyed.get tree.nodes l = some (.file content)) :
    summary.location = l ∧ summary.kind = .file := by
  obtain ⟨node, hnode, hnodeKind⟩ := hstands
  by_cases heq : summary.location = l
  · refine ⟨heq, ?_⟩
    rw [heq, hl] at hnode
    injection hnode with hnode
    rw [hnodeKind, ← hnode]
    rfl
  · obtain ⟨hdirectory, -⟩ := hunder.exists_child tree.closed heq (by rw [hl]; exact nofun)
    rw [hnode] at hdirectory
    injection hdirectory with hdirectory
    rw [hnodeKind, hdirectory] at hkind
    exact absurd rfl hkind

theorem exists_child_of_directory (hstands : Stands tree.nodes summary)
    (hkind : summary.kind = .directory) (hunder : Under parent summary.location l)
    (hl : Keyed.get tree.nodes l = some (.file content)) :
    ∃ c, c.parent = some summary.location ∧ Keyed.get tree.nodes c ≠ none ∧ Under parent c l := by
  have hne : summary.location ≠ l := by
    intro heq
    obtain ⟨node, hnode, hnodeKind⟩ := hstands
    rw [heq, hl] at hnode
    injection hnode with hnode
    rw [hnodeKind, ← hnode] at hkind
    cases hkind
  exact (hunder.exists_child tree.closed hne (by rw [hl]; exact nofun)).2

theorem follow_eq_ok {followed : List EntryId} {result : Option (EntrySummary × List EntryId)}
    (h : copy.follow env files round summary followed = .ok result) :
    summary.kind = .symlink ∨ ∃ followed', result = some (summary, followed') := by
  unfold follow at h
  split at h
  case isTrue hlink => exact .inl hlink.1
  case isFalse =>
    split at h
    case isTrue => injection h with h; exact .inr ⟨_, h.symm⟩
    case isFalse => injection h with h; exact .inr ⟨_, h.symm⟩

-- ==== one round

theorem PlansFile.put {planned : List (Location × PlannedCopyEntry)}
    {k : Location} (h : PlansFile planned items l)
    (hsame : l = k → entry.kind = .file ∧ entry.source.location = l) :
    PlansFile (Keyed.put planned k entry) (items ++ [item]) l := by
  obtain ⟨⟨old, hold, hkind, hsource⟩, ⟨item', hitem, hlocation⟩⟩ := h
  refine ⟨?_, item', mem_append_left _ hitem, hlocation⟩
  by_cases hlk : l = k
  · refine ⟨entry, ?_, hsame hlk⟩
    rw [get_put, if_pos hlk]
  · refine ⟨old, ?_, hkind, hsource⟩
    rw [get_put, if_neg hlk]
    exact hold

theorem PlansFile.new {planned : List (Location × PlannedCopyEntry)}
    (hentry : entry.kind = .file ∧ entry.source.location = l) (hitem : item.entry.location = l) :
    PlansFile (Keyed.put planned l entry) (items ++ [item]) l := by
  refine ⟨⟨entry, ?_, hentry⟩, item, mem_append_right _ ?_, hitem⟩
  · rw [get_put, if_pos rfl]
  · exact mem_singleton.mpr rfl

section Round

variable {st : Planning} {summary source : EntrySummary} {rest : List (EntrySummary × Location)}

theorem Covers.skip (h : Covers tree root st) (hstack : st.stack = (summary, destination) :: rest)
    (hlink : summary.kind = .symlink) : Covers tree root { st with stack := rest } := by
  refine ⟨?_, h.present, h.listed, h.marked, ?_⟩
  · intro p hp
    exact h.stands p (by rw [hstack]; exact mem_cons_of_mem _ hp)
  · intro l content hunder hl
    rcases h.covered l content hunder hl with hplans | ⟨p, hp, hpl⟩
    · exact .inl hplans
    · rw [hstack] at hp
      rcases mem_cons.mp hp with rfl | hp
      · have hstands := h.stands (summary, destination) (by rw [hstack]; exact mem_cons_self)
        obtain ⟨-, hfile⟩ := eq_of_under hstands (by rw [hlink]; decide) hpl hl
        simp [hlink] at hfile
      · exact .inr ⟨p, hp, hpl⟩

/-- The entry taken off the stack, as it is planned. -/
def plannedRound (root : Location) (st : Planning) (summary source : EntrySummary)
    (destination : Location) (rest : List (EntrySummary × Location)) : Planning :=
  planEntry root summary.entry source destination { st with stack := rest }

theorem Covers.planned (h : Covers tree root st)
    (hstack : st.stack = (summary, destination) :: rest)
    (hsource : summary.kind = .symlink ∨ source = summary) (st' : Planning)
    (hst' : st' = plannedRound root st summary source destination rest) :
    (∀ l, Keyed.get st'.planned l ≠ none → Keyed.get tree.nodes l ≠ none)
    ∧ (∀ item ∈ st'.items, Keyed.get st'.planned item.entry.location ≠ none)
    ∧ (∀ l entry, Keyed.get st'.planned l = some entry → entry.isRoot = decide (l = root))
    ∧ ∀ l content, Under parent root l → Keyed.get tree.nodes l = some (.file content) →
        PlansFile st'.planned st'.items l ∨ (∃ p ∈ rest, Under parent p.1.location l)
          ∨ (source = summary ∧ summary.kind = .directory ∧ Under parent summary.location l) := by
  have hstands : Stands tree.nodes summary :=
    h.stands (summary, destination) (by rw [hstack]; exact mem_cons_self)
  have hplanned : st'.planned = Keyed.put st.planned summary.location
      { kind := source.kind, destination := destination
        source := source.entry, isRoot := decide (summary.location = root) } := by
    rw [hst']
    rfl
  have hitems : st'.items = st.items
      ++ [{ entry := summary.entry, bytes := source.size.getD 0 }] := by
    rw [hst']
    rfl
  -- the entry of a file is planned as the file
  have hfile : ∀ l content, Keyed.get tree.nodes l = some (.file content) →
      l = summary.location → source.kind = .file ∧ source.location = l := by
    intro l content hl heq
    subst heq
    obtain ⟨node, hnode, hkind⟩ := hstands
    rw [hl] at hnode
    injection hnode with hnode
    have hsummary : summary.kind = .file := by rw [hkind, ← hnode]; rfl
    rcases hsource with hlink | rfl
    · simp [hsummary] at hlink
    · exact ⟨hsummary, rfl⟩
  rw [hplanned, hitems]
  refine ⟨?_, ?_, ?_, ?_⟩
  · intro l hl
    rw [get_put] at hl
    split at hl
    case isTrue hkey =>
      obtain ⟨node, hnode, -⟩ := hstands
      rw [hkey, hnode]
      exact Option.some_ne_none node
    case isFalse => exact h.present l hl
  · intro item hitem
    rw [get_put]
    split
    case isTrue => exact Option.some_ne_none _
    case isFalse hne =>
      rcases mem_append.mp hitem with hitem | hitem
      · exact h.listed item hitem
      · rw [mem_singleton] at hitem
        subst hitem
        exact absurd rfl hne
  · intro l entry hl
    rw [get_put] at hl
    split at hl
    case isTrue hkey => injection hl with hl; subst hl; rw [hkey]
    case isFalse => exact h.marked l entry hl
  · intro l content hunder hl
    rcases h.covered l content hunder hl with hplans | ⟨p, hp, hpl⟩
    · exact .inl (hplans.put fun hkey => hfile l content hl hkey)
    · rw [hstack] at hp
      rcases mem_cons.mp hp with rfl | hp
      · by_cases hdirectory : summary.kind = .directory
        · refine .inr (.inr ⟨hsource.resolve_left ?_, hdirectory, hpl⟩)
          rw [hdirectory]
          intro hnot
          cases hnot
        · -- the file itself
          obtain ⟨hlocation, -⟩ := eq_of_under hstands hdirectory hpl hl
          subst hlocation
          exact .inl (.new (hfile _ content hl rfl) rfl)
      · exact .inr (.inl ⟨p, hp, hpl⟩)

theorem Covers.visit (h : Covers tree root st)
    (hstack : st.stack = (summary, destination) :: rest) {st' : Planning}
    (hvisit : copy.visit env tree.nodes root round summary destination
      { st with stack := rest } = .ok st') : Covers tree root st' := by
  unfold CopyExecutor.visit at hvisit
  obtain ⟨-, hvisit⟩ := passed hvisit nofun
  split at hvisit
  case h_1 => cases hvisit
  case h_2 hfollow =>
    cases hvisit
    rcases follow_eq_ok hfollow with hlink | ⟨followed, hnone⟩
    · exact h.skip hstack hlink
    · cases hnone
  case h_3 source followed hfollow =>
    have hsource : summary.kind = .symlink ∨ source = summary := by
      rcases follow_eq_ok hfollow with hlink | ⟨followed', hsome⟩
      · exact .inl hlink
      · injection hsome with hsome
        exact .inr (congrArg Prod.fst hsome)
    obtain ⟨hpresent, hitems, hmarked, hcovered⟩ := h.planned hstack hsource _ rfl
    have hrest : ∀ p ∈ rest, Stands tree.nodes p.1 := by
      intro p hp
      exact h.stands p (by rw [hstack]; exact mem_cons_of_mem _ hp)
    simp only at hvisit
    split at hvisit
    case isFalse hkind =>
      cases hvisit
      refine ⟨hrest, hpresent, hitems, hmarked, fun l content hunder hl => ?_⟩
      rcases hcovered l content hunder hl with hplans | hp | ⟨heq, hdirectory, -⟩
      · exact .inl hplans
      · exact .inr hp
      · rw [heq] at hkind
        exact absurd hdirectory hkind
    case isTrue hkind =>
      split at hvisit
      case h_1 => cases hvisit
      case h_2 stack hpush =>
        cases hvisit
        obtain ⟨hkept, hpushed, honly⟩ := mem_pushPages hpush
        refine ⟨?_, hpresent, hitems, hmarked, fun l content hunder hl => ?_⟩
        · intro p hp
          rcases honly p hp with hp | hp
          · exact hrest p hp
          · obtain ⟨entry, hentry, heq⟩ := mem_list.mp hp
            rw [← heq]
            exact ⟨entry.2, (Keyed.mem_iff_get tree.distinct).mp (mem_of_mem_filter hentry), rfl⟩
        · rcases hcovered l content hunder hl with
            hplans | ⟨p, hp, hpl⟩ | ⟨heq, hdirectory, hunder'⟩
          · exact .inl hplans
          · exact .inr ⟨p, hkept p hp, hpl⟩
          · -- the child on the way down has been pushed
            obtain ⟨c, hc, hthere, hcl⟩ := exists_child_of_directory
              (h.stands (summary, destination)
                (by rw [hstack]; exact mem_cons_self)) hdirectory hunder' hl
            obtain ⟨node, hnode⟩ := Option.ne_none_iff_exists'.mp hthere
            have hmem : (c, node) ∈ childrenOf tree.nodes source.location := by
              refine mem_filter.mpr ⟨(Keyed.mem_iff_get tree.distinct).mpr hnode, ?_⟩
              rw [heq]
              exact decide_eq_true hc
            obtain ⟨d, hd⟩ := hpushed (summarize env c node) (mem_list.mpr ⟨(c, node), hmem, rfl⟩)
            exact .inr ⟨_, hd, hcl⟩

end Round

-- ==== the loop

theorem planLoop_invariant {I : Planning → Prop}
    (hvisit : ∀ {st st' : Planning} {round : Nat} {summary : EntrySummary}
      {destination : Location} {rest : List (EntrySummary × Location)},
      I st → st.stack = (summary, destination) :: rest →
      copy.visit env files root round summary destination { st with stack := rest }
        = .ok st' → I st') (h : I st)
    (hloop : copy.planLoop env files root fuel st = some (.ok st')) :
    I st' ∧ st'.stack = [] := by
  induction fuel generalizing st with
  | zero =>
    unfold CopyExecutor.planLoop at hloop
    split at hloop
    case h_1 hstack =>
      injection hloop with hloop
      cases hloop
      exact ⟨h, hstack⟩
    case h_2 => cases hloop
    case h_3 hzero => cases hzero
  | succ fuel ih =>
    unfold CopyExecutor.planLoop at hloop
    split at hloop
    case h_1 hstack =>
      injection hloop with hloop
      cases hloop
      exact ⟨h, hstack⟩
    case h_2 hzero => cases hzero
    case h_3 summary destination rest fuel' hstack hfuel =>
      cases hfuel
      split at hloop
      case h_1 => cases hloop
      case h_2 st₁ hround => exact ih (hvisit h hstack hround) hloop

theorem Covers.planLoop (h : Covers tree root st)
    (hloop : copy.planLoop env tree.nodes root fuel st = some (.ok st')) :
    Covers tree root st' ∧ st'.stack = [] :=
  planLoop_invariant (I := Covers tree root) (fun h hstack hround => h.visit hstack hround) h hloop

variable {source : EntrySummary}

theorem covers_start (hstands : Stands tree.nodes source) :
    Covers tree source.location { stack := [(source, rootDestination)], items := []
                                  planned := [], directories := [], followed := [] } := by
  refine ⟨?_, ?_, by simp, ?_, ?_⟩
  · intro p hp
    rw [mem_singleton] at hp
    rw [hp]
    exact hstands
  · intro l hl
    exact absurd rfl hl
  · intro l entry hl
    cases hl
  · intro l content hunder _
    exact .inr ⟨_, mem_singleton.mpr rfl, hunder⟩

-- ==== the plan

structure PlansTree (tree : FileTree) (root : Location)
    (planned : List (Location × PlannedCopyEntry)) (items : List PlanItem) :
    Prop where
  present : ∀ l, Keyed.get planned l ≠ none → Keyed.get tree.nodes l ≠ none
  listed : ∀ item ∈ items, Keyed.get planned item.entry.location ≠ none
  marked : ∀ l entry, Keyed.get planned l = some entry →
    entry.isRoot = decide (l = root)
  files : ∀ l content, Under parent root l →
    Keyed.get tree.nodes l = some (.file content) → PlansFile planned items l

theorem Covers.plansTree (h : Covers tree root st)
    (hstack : st.stack = []) : PlansTree tree root st.planned st.items := by
  refine ⟨h.present, h.listed, h.marked, fun l content hunder hl => ?_⟩
  rcases h.covered l content hunder hl with hplans | ⟨p, hp, -⟩
  · exact hplans
  · simp [hstack] at hp

/-- What planning leaves alone. -/
structure SameFiles (w w' : World) : Prop where
  disk : w'.disk = w.disk
  completed : w'.cells.completedRootDestination = w.cells.completedRootDestination

theorem SameFiles.refl (w : World) : SameFiles w w := ⟨rfl, rfl⟩

theorem SameFiles.trans (w₁ w₂ w₃ : World) (h : SameFiles w₁ w₂)
    (h' : SameFiles w₂ w₃) : SameFiles w₁ w₃ :=
  ⟨h'.disk.trans h.disk, h'.completed.trans h.completed⟩

/-- A call that leaves the files alone. -/
abbrev Plans {α : Type} (p : Exec α) : Prop := Keeps SameFiles (fun _ => True) p

theorem plans_of_reads {α : Type} {p : Exec α} (h : Reads p) : Plans p := by
  intro w r w' hy
  obtain ⟨rfl, -⟩ := h w r w' hy
  exact ⟨SameFiles.refl _, fun _ _ => trivial⟩

theorem yields_runPlanning {r : Except ExecutionError Planning}
    (h : Yields (copy.runPlanning env fuel source rootDestination) w r w') :
    w' = w ∧ copy.planLoop env w.disk.files source.location fuel
      { stack := [(source, rootDestination)], items := [], planned := []
        directories := [], followed := [] } = some r := by
  have hrun : (copy.runPlanning env fuel source rootDestination) w = some (r, w') := h
  unfold runPlanning at hrun
  obtain ⟨result, hloop, heq⟩ := Option.map_eq_some_iff.mp hrun
  injection heq with hr hw
  subst hr hw
  exact ⟨rfl, hloop⟩

theorem reads_sourceOf : Reads (copy.sourceOf operation) := by
  unfold sourceOf
  split
  case h_1 => exact reads_pure
  case h_2 => exact reads_pure
  case h_3 => exact reads_throw trivial

theorem plans_plan : Plans (copy.plan env operation fuel) := by
  unfold plan
  refine bind SameFiles.trans (plans_of_reads reads_sourceOf) fun source => ?_
  refine bind SameFiles.trans (plans_of_reads reads_consult) fun summary => ?_
  refine bind SameFiles.trans (reads SameFiles.refl fun _ _ _ => trivial) fun cells => ?_
  refine bind SameFiles.trans (plans_of_reads reads_orFail) fun destination => ?_
  refine bind SameFiles.trans (onlyIf SameFiles.refl (plans_of_reads reads_orFail)) fun _ => ?_
  refine bind SameFiles.trans ?_ fun st => ?_
  · intro w r w' h
    obtain ⟨rfl, -⟩ := yields_runPlanning h
    exact ⟨SameFiles.refl _, fun _ _ => trivial⟩
  refine bind SameFiles.trans (writes fun w => ⟨rfl, rfl⟩) fun _ => ?_
  split
  case isTrue => exact pure SameFiles.refl
  case isFalse => exact stuck

theorem inspect_eq_ok {location : Location} (h : inspect env files location = .ok summary) :
    summary.location = location ∧ Stands files summary := by
  unfold inspect at h
  split at h
  case h_1 node hnode => injection h with h; subst h; exact ⟨rfl, node, hnode, rfl⟩
  case h_2 => cases h

/-- The planning loop's initial state. -/
def planningFrom (summary : EntrySummary) (rootDestination : Location) : Planning where
  stack := [(summary, rootDestination)]
  items := []
  planned := []
  directories := []
  followed := []

variable {source : Location}

theorem plan_eq_ok (hsource : copy.sourceOverride = some source)
    (h : Yields (copy.plan env operation fuel) w (.ok result) w') :
    ∃ summary rootDestination st, inspect env w.disk.files source = .ok summary
      ∧ copy.destinationDirectory.join (w.cells.rootName.getD summary.name) = .ok rootDestination
      ∧ copy.planLoop env w.disk.files source fuel
          (planningFrom summary rootDestination) = some (.ok st)
      ∧ w' = { w with cells := w.cells.setPlan st.planned st.directories }
      ∧ result.items = st.items := by
  unfold plan at h
  obtain ⟨source', w₁, hsourceOf, h⟩ := yields_bind_ok.mp h
  obtain ⟨summary, w₂, hinspect, h⟩ := yields_bind_ok.mp h
  obtain ⟨cells, w₃, hcells, h⟩ := yields_bind_ok.mp h
  obtain ⟨rootDestination, w₄, hjoin, h⟩ := yields_bind_ok.mp h
  obtain ⟨_, w₅, hpaths, h⟩ := yields_bind_ok.mp h
  obtain ⟨st, w₆, hplanning, h⟩ := yields_bind_ok.mp h
  obtain ⟨_, w₇, hset, h⟩ := yields_bind_ok.mp h
  -- up to the loop nothing is written
  unfold sourceOf at hsourceOf
  rw [hsource] at hsourceOf
  obtain ⟨heq, rfl⟩ := yields_pure.mp hsourceOf
  cases heq
  obtain ⟨hsummary, rfl⟩ := yields_consult_ok hinspect
  obtain ⟨heq, rfl⟩ := yields_reads.mp hcells
  cases heq
  obtain ⟨rfl, ⟨_, hroot, heq⟩ | ⟨_, -, heq⟩⟩ := yields_orFail hjoin
  case inr => cases heq
  cases heq
  have hw₅ : w₅ = w₄ := by
    rcases yields_onlyIf.mp hpaths with ⟨-, hpaths⟩ | ⟨-, -, hw₅⟩
    · exact (yields_orFail hpaths).1
    · exact hw₅
  subst hw₅
  obtain ⟨rfl, hloop⟩ := yields_runPlanning hplanning
  rw [(inspect_eq_ok hsummary).1] at hloop
  obtain ⟨-, rfl⟩ := yields_writes.mp hset
  split at h
  case isFalse => exact absurd h not_yields_stuck
  case isTrue fits =>
    obtain ⟨hresult, rfl⟩ := yields_pure.mp h
    cases hresult
    exact ⟨summary, _, st, hsummary, hroot, hloop, rfl, rfl⟩

theorem plan_ok (hsource : copy.sourceOverride = some source) (hfiles : w.disk.files = tree.nodes)
    (h : Yields (copy.plan env operation fuel) w (.ok result) w') :
    PlansTree tree source w'.cells.planned result.items := by
  obtain ⟨summary, rootDestination, st, hsummary, -, hloop, rfl, hitems⟩ := plan_eq_ok hsource h
  rw [hfiles] at hsummary hloop
  obtain ⟨hlocation, hstands⟩ := inspect_eq_ok hsummary
  have hstart : Covers tree source (planningFrom summary rootDestination) :=
    hlocation ▸ covers_start hstands
  obtain ⟨hcovers, hstack⟩ := hstart.planLoop hloop
  rw [hitems]
  exact hcovers.plansTree hstack

end CopyExecutor

-- ==== the move's plan

namespace MoveExecutor

open CopyExecutor

variable {move : MoveExecutor} {env : Env} {operation : Operation} {fuel : Nat}

theorem plans_onSameFilesystem : Plans (move.onSameFilesystem env) := by
  unfold onSameFilesystem
  split
  case isTrue => exact plans_of_reads reads_consult
  case isFalse => exact plans_of_reads reads_pure

theorem plans_plan : Plans (move.plan env operation fuel) := by
  unfold plan
  refine bind SameFiles.trans (plans_of_reads reads_orFail) fun name => ?_
  refine bind SameFiles.trans (plans_of_reads reads_orFail) fun destination => ?_
  refine bind SameFiles.trans (plans_of_reads reads_orFail) fun _ => ?_
  refine bind SameFiles.trans plans_onSameFilesystem fun sameFilesystem => ?_
  refine bind SameFiles.trans (writes fun w => ⟨rfl, rfl⟩) fun _ => ?_
  split
  case isTrue => exact pure SameFiles.refl
  case isFalse => exact CopyExecutor.plans_plan

theorem plan_ok {tree : FileTree} {w w' : World} {result : OperationPlan}
    (hfiles : w.disk.files = tree.nodes)
    (h : Yields (move.plan env operation fuel) w (.ok result) w') (hfallback : w'.fallback = true) :
    PlansTree tree move.source w'.cells.planned result.items := by
  unfold plan at h
  obtain ⟨name, w₁, hname, h⟩ := yields_bind_ok.mp h
  obtain ⟨destination, w₂, hjoin, h⟩ := yields_bind_ok.mp h
  obtain ⟨_, w₃, hpaths, h⟩ := yields_bind_ok.mp h
  obtain ⟨sameFilesystem, w₄, hsame, h⟩ := yields_bind_ok.mp h
  obtain ⟨_, w₅, hset, h⟩ := yields_bind_ok.mp h
  have hw₃ : w₃ = w := by
    rw [← (reads_orFail _ _ _ hpaths).1, ← (reads_orFail _ _ _ hjoin).1,
      ← (reads_orFail _ _ _ hname).1]
  have hdisk₄ : w₄.disk = w.disk := by rw [(plans_onSameFilesystem _ _ _ hsame).1.disk, hw₃]
  obtain ⟨-, hw₅⟩ := yields_writes.mp hset
  have hfiles₅ : w₅.disk.files = tree.nodes := by
    rw [hw₅]
    show w₄.disk.files = _
    rw [hdisk₄]
    exact hfiles
  split at h
  case isTrue hrename =>
    -- a renamed source is not a fallback
    obtain ⟨-, rfl⟩ := yields_pure.mp h
    rw [hw₅] at hfallback
    simp [hrename] at hfallback
  case isFalse => exact CopyExecutor.plan_ok rfl hfiles₅ h

end MoveExecutor

end FileManager.Transfers
