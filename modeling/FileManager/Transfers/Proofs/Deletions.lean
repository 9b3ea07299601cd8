/-
What permanent deletion plans (`DeleteExecutor::plan`), and that
executing it removes nothing but empty directories and what is none.

# The argument

A directory that is taken off the planning stack goes back, marked, under
its children, and is listed when it is taken off again: a traversal of
the trees, each key after all that is below it (`Forest.After`). The
sources still to come are the lowest entries of that stack, so one
invariant covers all of them.
-/
import FileManager.Transfers.Delete
import FileManager.Transfers.Proofs.Enumeration

namespace FileManager.Transfers

open Fallible CopyExecutor Location List
open Forest (Under Apart After size sum_size_lt)
open Scheduler (ExecutionError ExecutionOutcome OperationPlan PlanItem)

variable {tree : FileTree} {readOnly : Location → Bool} {env : Env} {delete : DeleteExecutor}
  {sources rest : List Location}

/-- An entry of the sources' trees. -/
def Below (tree : FileTree) (sources : List Location) (l : Location) : Prop :=
  There tree l ∧ ∃ source ∈ sources, Under parent source l

/-- What the plan of a deletion is to be: every entry of the sources'
trees, each once, and each after all that is below it. -/
structure Deletes (tree : FileTree) (sources : List Location) (items : List PlanItem) :
    Prop where
  all : ∀ l, l ∈ placesOf items ↔ Below tree sources l
  once : (placesOf items).Nodup
  ordered : (placesOf items).Pairwise fun earlier later =>
    ¬ Under parent earlier later

namespace DeleteExecutor

variable {round fuel : Nat} {summary : EntrySummary} {visited : Bool} {st st' : Deletion}
  {stack stack' : List (EntrySummary × Bool)}

-- ==== rounds

theorem pushPage_eq (entries : List EntrySummary) (stack : List (EntrySummary × Bool)) :
    pushPage entries stack = entries.map (fun child => (child, false)) ++ stack := by
  unfold pushPage
  rw [foldl_reverse]
  induction entries with
  | nil => rfl
  | cons child rest ih => rw [foldr_cons, ih]; rfl

variable {pages : List (List EntrySummary)}

theorem pushPages_ok {page : Nat} (h : pushPages env round page pages stack = .ok stack') :
    stack' = pages.reverse.flatten.map (fun child => (child, false)) ++ stack := by
  induction pages generalizing page stack with
  | nil => injection h with h; rw [← h]; rfl
  | cons entries pages ih =>
    unfold pushPages at h
    split at h
    case h_1 => cases h
    case h_2 =>
      rw [ih h, pushPage_eq]
      simp

theorem pushPages_undisturbed (henv : env.Undisturbed) {page : Nat} :
    ∃ stack', pushPages env round page pages stack = .ok stack' := by
  induction pages generalizing page stack with
  | nil => exact ⟨stack, rfl⟩
  | cons entries pages ih =>
    unfold pushPages
    rw [henv.answers]
    exact ih

/-- A round that goes on puts the children of a directory on the stack,
over the directory, or lists the entry. -/
inductive Round (delete : DeleteExecutor) (readOnly : Location → Bool) (env : Env)
    (files : Files) (summary : EntrySummary) (visited : Bool) (st : Deletion) :
    Deletion → Prop
  | descended (kind : summary.kind = .directory) (unmarked : visited = false) :
      Round delete readOnly env files summary visited st { st with
        stack := (list env files summary.location).reverse.flatten.map
          (fun child => (child, false)) ++ (summary, true) :: st.stack }
  | listed (writable : delete.overrideReadOnly = true ∨ readOnly summary.location = false)
      (last : visited = false → summary.kind ≠ .directory) :
      Round delete readOnly env files summary visited st { st with
        items := st.items ++ [{ entry := summary.entry, bytes := summary.size.getD 0 }] }

variable {files : Files}

theorem round_of_visit (h : delete.visit readOnly env files round summary visited st = .ok st') :
    Round delete readOnly env files summary visited st st' := by
  unfold visit at h
  obtain ⟨-, h⟩ := passed h nofun
  obtain ⟨hwritable, h⟩ := passed h nofun
  split at h
  case isTrue hdirectory =>
    split at h
    case h_1 => cases h
    case h_2 hpush =>
      injection h with h
      rw [← h, pushPages_ok hpush]
      exact .descended hdirectory.1 hdirectory.2
  case isFalse hlast =>
    injection h with h
    rw [← h]
    refine .listed ?_ fun hunmarked hkind => hlast ⟨hkind, hunmarked⟩
    rw [Bool.and_eq_true, not_and_or] at hwritable
    rcases hwritable with hwritable | hoverride
    · exact .inr (Bool.eq_false_iff.mpr hwritable)
    · rw [Bool.not_eq_true, Bool.not_eq_false'] at hoverride
      exact .inl hoverride

theorem Round.stands (h : Round delete readOnly env tree.nodes summary visited
      { st with stack := stack } st')
    (hstands : ∀ entry ∈ (summary, visited) :: stack, Stands tree.nodes entry.1) :
    ∀ entry ∈ st'.stack, Stands tree.nodes entry.1 := by
  have hrest : ∀ entry ∈ stack, Stands tree.nodes entry.1 := fun entry hentry =>
    hstands entry (mem_cons_of_mem _ hentry)
  intro entry hentry
  cases h with
  | descended =>
    rcases mem_append.mp hentry with hentry | hentry
    · obtain ⟨child, hchild, rfl⟩ := mem_map.mp hentry
      exact (stands_of_list hchild).1
    · rcases mem_cons.mp hentry with rfl | hentry
      · exact hstands (summary, visited) mem_cons_self
      · exact hrest entry hentry
  | listed => exact hrest entry hentry

theorem visit_undisturbed (henv : env.Undisturbed)
    (hwritable : delete.overrideReadOnly = true ∨ readOnly summary.location = false) :
    ∃ st', delete.visit readOnly env files round summary visited st = .ok st' := by
  have hpass : (readOnly summary.location && !delete.overrideReadOnly) = false := by
    rcases hwritable with hoverride | hwritable
    · rw [hoverride, Bool.not_true, Bool.and_false]
    · rw [hwritable, Bool.false_and]
  unfold visit
  rw [henv.continues, if_neg Bool.false_ne_true, hpass, if_neg Bool.false_ne_true]
  split
  case isTrue =>
    obtain ⟨stack', hpush⟩ := pushPages_undisturbed henv
    rw [hpush]
    exact ⟨_, rfl⟩
  case isFalse => exact ⟨_, rfl⟩

-- ==== the stack

/-- The keys of the stack, with their marks. -/
def marks (stack : List (EntrySummary × Bool)) : List (Location × Bool) :=
  stack.map fun entry => (entry.1.location, entry.2)

/-- What the planning keeps: the stack, over the sources still to come,
is that of a traversal, and all that is listed may be deleted. -/
structure Sweeps (delete : DeleteExecutor) (readOnly : Location → Bool) (tree : FileTree)
    (sources rest : List Location) (st : Deletion) : Prop where
  stands : ∀ entry ∈ st.stack, Stands tree.nodes entry.1
  after : After parent (There tree) sources (placesOf st.items)
    (marks st.stack ++ rest.map fun source => (source, false))
  writable : delete.overrideReadOnly = true ∨ ∀ l ∈ placesOf st.items, readOnly l = false

theorem placesOf_concat (items : List PlanItem) (summary : EntrySummary) (bytes : Nat) :
    placesOf (items ++ [{ entry := summary.entry, bytes := bytes }])
      = placesOf items ++ [summary.location] := by
  unfold placesOf
  rw [map_append]
  rfl

theorem Sweeps.step
    (h : Sweeps delete readOnly tree sources rest { st with stack := (summary, visited) :: stack })
    (hround : Round delete readOnly env tree.nodes summary visited
      { st with stack := stack } st') :
    Sweeps delete readOnly tree sources rest st' := by
  have hstands := h.stands (summary, visited) mem_cons_self
  have hafter : After parent (There tree) sources (placesOf st.items)
      ((summary.location, visited) :: (marks stack ++ rest.map fun source => (source, false))) :=
    h.after
  have hkept := hround.stands h.stands
  cases hround with
  | descended hkind hunmarked =>
    subst hunmarked
    refine ⟨hkept, ?_, h.writable⟩
    have hdescend := hafter.descend acyclic
      (children_list hstands (perm_list env tree.nodes summary.location))
    unfold marks at hdescend ⊢
    rw [map_append, map_cons, map_map, append_assoc]
    rw [map_map] at hdescend
    exact hdescend
  | listed hwritable hlast =>
    refine ⟨hkept, ?_, ?_⟩
    · rw [placesOf_concat]
      refine hafter.visit fun hunmarked k hk hunder => ?_
      rcases (children_leaf hstands (hlast hunmarked)).below k hk hunder with heq | ⟨_, hc, -⟩
      · exact heq
      · cases hc
    · rcases h.writable with hoverride | hall
      · exact .inl hoverride
      · refine hwritable.imp_right fun hnew l hl => ?_
        rw [placesOf_concat] at hl
        rcases mem_append.mp hl with hl | hl
        · exact hall l hl
        · rw [mem_singleton.mp hl]
          exact hnew

theorem Sweeps.planLoop (h : Sweeps delete readOnly tree sources rest st)
    (hloop : delete.planLoop readOnly env tree.nodes fuel st = some (.ok st')) :
    Sweeps delete readOnly tree sources rest st' ∧ st'.stack = [] := by
  induction fuel generalizing st with
  | zero =>
    unfold DeleteExecutor.planLoop at hloop
    split at hloop
    case h_1 hempty =>
      injection hloop with hloop
      injection hloop with hloop
      exact ⟨hloop ▸ h, hloop ▸ hempty⟩
    case h_2 => cases hloop
    case h_3 heq => cases heq
  | succ fuel ih =>
    unfold DeleteExecutor.planLoop at hloop
    split at hloop
    case h_1 hempty =>
      injection hloop with hloop
      injection hloop with hloop
      exact ⟨hloop ▸ h, hloop ▸ hempty⟩
    case h_2 heq => cases heq
    case h_3 summary visited stack fuel' hstack heq =>
      cases heq
      split at hloop
      case h_1 => cases hloop
      case h_2 st₁ hvisit =>
        refine ih (Sweeps.step ?_ (round_of_visit hvisit)) hloop
        rw [← hstack]
        exact h

-- ==== the sources

variable {items items' : List PlanItem}

theorem planSource_ok {source : Location}
    (h : delete.planSource readOnly env tree.nodes fuel source items = some (.ok items')) :
    source.providerId ∈ delete.providers
      ∧ ∃ root st, root.location = source ∧ Stands tree.nodes root
        ∧ delete.planLoop readOnly env tree.nodes fuel
          { stack := [(root, false)], items := items } = some (.ok st)
        ∧ items' = st.items := by
  unfold planSource at h
  obtain ⟨hknown, h⟩ := passed h nofun
  refine ⟨not_not.mp hknown, ?_⟩
  split at h
  case h_1 => cases h
  case h_2 root hask =>
    obtain ⟨hlocation, hstands⟩ := inspect_eq_ok (Env.ask_eq_ok.mp hask).2
    obtain ⟨result, hloop, hmap⟩ := Option.map_eq_some_iff.mp h
    cases result with
    | error e => cases hmap
    | ok st =>
      injection hmap with hmap
      exact ⟨root, st, hlocation, hstands, hloop, hmap.symm⟩

variable {envs : Nat → Env}

theorem there_of_planSources {i : Nat}
    (h : delete.planSources readOnly envs tree.nodes fuel i sources items = some (.ok items')) :
    ∀ source ∈ sources, There tree source ∧ source.providerId ∈ delete.providers := by
  induction sources generalizing i items with
  | nil => simp
  | cons source rest ih =>
    unfold planSources at h
    split at h
    case h_1 => cases h
    case h_2 => cases h
    case h_3 items₁ hsource =>
      obtain ⟨hknown, root, -, rfl, ⟨node, hnode, -⟩, -, -⟩ := planSource_ok hsource
      intro l hl
      rcases mem_cons.mp hl with rfl | hl
      · exact ⟨by unfold There; rw [hnode]; exact nofun, hknown⟩
      · exact ih h l hl

theorem planSources_sweeps {i : Nat}
    (hafter : After parent (There tree) sources (placesOf items) (rest.map fun source => (source,
      false)))
    (hwritable : delete.overrideReadOnly = true ∨ ∀ l ∈ placesOf items, readOnly l = false)
    (h : delete.planSources readOnly envs tree.nodes fuel i rest items = some (.ok items')) :
    After parent (There tree) sources (placesOf items') []
      ∧ (delete.overrideReadOnly = true ∨ ∀ l ∈ placesOf items', readOnly l = false) := by
  induction rest generalizing i items with
  | nil =>
    injection h with h
    injection h with h
    exact h ▸ ⟨hafter, hwritable⟩
  | cons source rest ih =>
    unfold planSources at h
    split at h
    case h_1 => cases h
    case h_2 => cases h
    case h_3 items₁ hsource =>
      obtain ⟨-, root, st, rfl, hstands, hloop, rfl⟩ := planSource_ok hsource
      have hstart : Sweeps delete readOnly tree sources rest
          { stack := [(root, false)], items := items } :=
        ⟨fun entry hentry => mem_singleton.mp hentry ▸ hstands, hafter, hwritable⟩
      obtain ⟨hsweeps, hempty⟩ := hstart.planLoop hloop
      refine ih ?_ hsweeps.writable h
      have hend := hsweeps.after
      rw [hempty] at hend
      exact hend

theorem planSources_deletes (hapart : sources.Pairwise (Apart parent)) {items : List PlanItem}
    (h : delete.planSources readOnly envs tree.nodes fuel 0 sources [] = some (.ok items)) :
    Deletes tree sources items
      ∧ (delete.overrideReadOnly = true ∨ ∀ l, Below tree sources l → readOnly l = false) := by
  obtain ⟨hafter, hwritable⟩ := planSources_sweeps (i := 0)
    (After.start hapart fun source hsource => (there_of_planSources h source hsource).1)
    (.inr (by simp [placesOf])) h
  have hall : ∀ l, l ∈ placesOf items ↔ Below tree sources l := hafter.finish.2
  refine ⟨⟨hall, hafter.finish.1, hafter.ordered⟩, ?_⟩
  exact hwritable.imp_right fun hlisted l hl => hlisted l ((hall l).mpr hl)

-- ==== the end

/-- What an entry of the stack still costs: two rounds for all that is
below it, or the last one. -/
noncomputable def weight (tree : FileTree) (entry : EntrySummary × Bool) : Nat :=
  if entry.2 then 1
  else 2 * size parent (tree.nodes.map Prod.fst) entry.1.location

/-- What the whole stack costs. -/
noncomputable def cost (tree : FileTree) (stack : List (EntrySummary × Bool)) : Nat :=
  (stack.map (weight tree)).sum

theorem weight_pos (hstands : Stands tree.nodes summary) : 0 < weight tree (summary, visited) := by
  unfold weight
  cases visited with
  | true => exact Nat.one_pos
  | false =>
    obtain ⟨node, hnode, -⟩ := hstands
    have hmem : summary.location ∈ tree.nodes.map Prod.fst :=
      Keyed.mem_keys_iff.mpr (by rw [hnode]; exact nofun)
    have := sum_size_lt acyclic .nil (by simp) hmem
    simp only [map_nil, sum_nil] at this
    simp only [Bool.false_eq_true, if_false]
    omega

theorem cost_unmarked (entries : List EntrySummary) :
    cost tree (entries.map fun child => (child, false))
      = 2 * ((entries.map EntrySummary.location).map
        (size parent (tree.nodes.map Prod.fst))).sum := by
  unfold cost
  induction entries with
  | nil => rfl
  | cons child rest ih =>
    simp only [map_cons, sum_cons] at ih ⊢
    rw [ih, Nat.mul_add]
    rfl

theorem Round.cost_lt (hstands : Stands tree.nodes summary)
    (h : Round delete readOnly env tree.nodes summary visited { st with stack := stack } st') :
    cost tree st'.stack < cost tree ((summary, visited) :: stack) := by
  have hcons : cost tree ((summary, visited) :: stack)
      = weight tree (summary, visited) + cost tree stack := by
    unfold cost
    rw [map_cons, sum_cons]
  cases h with
  | descended hkind hunmarked =>
    subst hunmarked
    have hchildren := children_list hstands (perm_list env tree.nodes summary.location)
    have hmem : summary.location ∈ tree.nodes.map Prod.fst := by
      obtain ⟨node, hnode, -⟩ := hstands
      exact Keyed.mem_keys_iff.mpr (by rw [hnode]; exact nofun)
    have hlt := sum_size_lt acyclic (hchildren.apart acyclic) hchildren.hang hmem
    have hsplit : cost tree ((list env tree.nodes summary.location).reverse.flatten.map
          (fun child => (child, false)) ++ (summary, true) :: stack)
        = cost tree ((list env tree.nodes summary.location).reverse.flatten.map
          fun child => (child, false)) + (1 + cost tree stack) := by
      unfold cost
      rw [map_append, sum_append, map_cons, sum_cons]
      rfl
    have hweight : weight tree (summary, false)
        = 2 * size parent (tree.nodes.map Prod.fst) summary.location := rfl
    show cost tree (_ ++ (summary, true) :: stack) < _
    rw [hsplit, cost_unmarked, hcons, hweight]
    omega
  | listed =>
    have := @weight_pos _ _ visited hstands
    show cost tree stack < _
    omega

theorem planLoop_ends (hstands : ∀ entry ∈ st.stack, Stands tree.nodes entry.1)
    (hfuel : cost tree st.stack ≤ fuel) :
    ∃ r, delete.planLoop readOnly env tree.nodes fuel st = some r := by
  induction fuel generalizing st with
  | zero =>
    cases hstack : st.stack with
    | nil => exact ⟨.ok st, by unfold planLoop; rw [hstack]⟩
    | cons entry stack =>
      have := @weight_pos _ _ entry.2 (hstands entry (by simp [hstack]))
      rw [hstack] at hfuel
      unfold cost at hfuel
      rw [map_cons, sum_cons] at hfuel
      have : 0 < weight tree entry := this
      omega
  | succ fuel ih =>
    cases hstack : st.stack with
    | nil => exact ⟨.ok st, by unfold planLoop; rw [hstack]⟩
    | cons entry stack =>
      obtain ⟨summary, visited⟩ := entry
      have htop := hstands (summary, visited) (by simp [hstack])
      unfold planLoop
      rw [hstack]
      simp only
      cases hvisit : delete.visit readOnly env tree.nodes fuel summary visited
          { st with stack := stack } with
      | error e => exact ⟨.error e, rfl⟩
      | ok st' =>
        have hround := round_of_visit hvisit
        have hlt : cost tree st'.stack < cost tree ((summary, visited) :: stack) :=
          hround.cost_lt htop
        rw [hstack] at hstands hfuel
        exact ih (hround.stands hstands) (by omega)

theorem planSources_ends (hfuel : 2 * tree.nodes.length ≤ fuel) {i : Nat} {items : List PlanItem} :
    ∃ r, delete.planSources readOnly envs tree.nodes fuel i sources items = some r := by
  have hsource : ∀ {env : Env} {source : Location} {items : List PlanItem},
      ∃ r, delete.planSource readOnly env tree.nodes fuel source items = some r := by
    intro env source items
    unfold planSource
    split
    case isTrue => exact ⟨_, rfl⟩
    case isFalse =>
      split
      case h_1 => exact ⟨_, rfl⟩
      case h_2 root hask =>
        obtain ⟨-, hstands⟩ := inspect_eq_ok (Env.ask_eq_ok.mp hask).2
        have hcost : cost tree [(root, false)] ≤ fuel := by
          have hle := @Forest.size_le _ parent root.location (tree.nodes.map Prod.fst)
          rw [length_map] at hle
          calc cost tree [(root, false)]
              = 2 * size parent (tree.nodes.map Prod.fst) root.location := rfl
            _ ≤ fuel := by omega
        obtain ⟨r, hr⟩ := @planLoop_ends _ _ _ _ _
          { stack := [(root, false)], items := items }
          (fun entry hentry => mem_singleton.mp hentry ▸ hstands) hcost
        exact ⟨_, by rw [hr]; rfl⟩
  induction sources generalizing i items with
  | nil => exact ⟨_, rfl⟩
  | cons source rest ih =>
    unfold planSources
    obtain ⟨r, hr⟩ := hsource
    rw [hr]
    cases r with
    | error e => exact ⟨_, rfl⟩
    | ok items' => exact ih

theorem Sweeps.planLoop_ok (henv : env.Undisturbed)
    (hmay : delete.overrideReadOnly = true ∨ ∀ l, Below tree sources l → readOnly l = false)
    (h : Sweeps delete readOnly tree sources rest st) {r : Except ExecutionError Deletion}
    (hloop : delete.planLoop readOnly env tree.nodes fuel st = some r) : ∃ st', r = .ok st' := by
  induction fuel generalizing st with
  | zero =>
    unfold DeleteExecutor.planLoop at hloop
    split at hloop
    case h_1 => injection hloop with hloop; exact ⟨st, hloop.symm⟩
    case h_2 => cases hloop
    case h_3 heq => cases heq
  | succ fuel ih =>
    unfold DeleteExecutor.planLoop at hloop
    split at hloop
    case h_1 => injection hloop with hloop; exact ⟨st, hloop.symm⟩
    case h_2 heq => cases heq
    case h_3 summary visited stack fuel' hstack heq =>
      cases heq
      have hbelow : Below tree sources summary.location :=
        h.after.below summary.location (.inr (by simp [marks, hstack]))
      obtain ⟨st₁, hvisit⟩ := visit_undisturbed henv
        (hmay.imp_right fun hwritable => hwritable _ hbelow)
      rw [hvisit] at hloop
      refine ih (Sweeps.step ?_ (round_of_visit hvisit)) hloop
      rw [← hstack]
      exact h

theorem planSources_ok (henvs : ∀ i, (envs i).Undisturbed)
    (hknown : ∀ source ∈ rest, source.providerId ∈ delete.providers)
    (hthere : ∀ source ∈ rest, There tree source)
    (hmay : delete.overrideReadOnly = true ∨ ∀ l, Below tree sources l → readOnly l = false)
    {i : Nat} {items : List PlanItem}
    (hafter : After parent (There tree) sources (placesOf items) (rest.map fun source => (source,
      false)))
    (hwritable : delete.overrideReadOnly = true ∨ ∀ l ∈ placesOf items, readOnly l = false)
    {r : Except ExecutionError (List PlanItem)}
    (h : delete.planSources readOnly envs tree.nodes fuel i rest items = some r) :
    ∃ items', r = .ok items' := by
  induction rest generalizing i items with
  | nil => injection h with h; exact ⟨items, h.symm⟩
  | cons source rest ih =>
    obtain ⟨node, hnode⟩ := Option.ne_none_iff_exists'.mp (hthere source mem_cons_self)
    have hinspect : (envs i).ask .inspectRoot (inspect (envs i) tree.nodes source)
        = .ok (summarize (envs i) source node) := by
      rw [(henvs i).ask]
      unfold inspect
      rw [hnode]
    have hstart : Sweeps delete readOnly tree sources rest
        { stack := [(summarize (envs i) source node, false)], items := items } :=
      ⟨fun entry hentry => mem_singleton.mp hentry ▸ ⟨node, hnode, rfl⟩, hafter, hwritable⟩
    unfold planSources planSource at h
    rw [if_neg (not_not.mpr (hknown source mem_cons_self)), hinspect] at h
    cases hloop : delete.planLoop readOnly (envs i) tree.nodes fuel
        { stack := [(summarize (envs i) source node, false)], items := items } with
    | none => simp only [hloop, Option.map_none] at h; cases h
    | some result =>
      obtain ⟨st, rfl⟩ := hstart.planLoop_ok (henvs i) hmay hloop
      simp only [hloop, Option.map_some] at h
      obtain ⟨hsweeps, hempty⟩ := hstart.planLoop hloop
      have hend := hsweeps.after
      rw [hempty] at hend
      exact ih (fun s hs => hknown s (mem_cons_of_mem _ hs))
        (fun s hs => hthere s (mem_cons_of_mem _ hs)) hend hsweeps.writable h

-- ==== the removals

/-- What is left once the listed places have been cleared. -/
def Cleared (tree : FileTree) (done : List Location) (files : Files) : Prop :=
  ∀ l, Keyed.get files l = if l ∈ done then none else Keyed.get tree.nodes l

theorem provider_of_under {l base : Location} (h : Under parent base l) :
    l.providerId = base.providerId := by
  induction h with
  | self => rfl
  | up hparent _ ih => rw [(of_parent hparent).1, ih]

variable {items done after : List PlanItem} {item : PlanItem} {w : DeleteWorld}

theorem emptied_of_deletes (h : Deletes tree sources items) (hitems : items = done ++ item :: after)
    (hcleared : Cleared tree (placesOf done) files) :
    childrenOf files item.entry.location = [] := by
  have hplaces : placesOf items = placesOf done ++ item.entry.location :: placesOf after := by
    unfold placesOf
    rw [hitems, map_append, map_cons]
  unfold childrenOf
  rw [filter_eq_nil_iff]
  intro child hchild hparent
  have hparent' : child.1.parent = some item.entry.location := of_decide_eq_true hparent
  have hstands := Keyed.mem_keys_iff.mp (mem_map_of_mem (f := Prod.fst) hchild)
  rw [hcleared] at hstands
  by_cases hdone : child.1 ∈ placesOf done
  · rw [if_pos hdone] at hstands
    exact hstands rfl
  · rw [if_neg hdone] at hstands
    have hunder : Under parent item.entry.location child.1 := .of_parent hparent'
    obtain ⟨-, source, hsource, habove⟩ := (h.all item.entry.location).mp (by rw [hplaces]; simp)
    have hlisted := (h.all child.1).mpr ⟨hstands, source, hsource, habove.trans hunder⟩
    have hordered := h.ordered
    rw [hplaces] at hlisted hordered
    rcases mem_append.mp hlisted with hmem | hmem
    · exact hdone hmem
    · rcases mem_cons.mp hmem with heq | hmem
      · exact acyclic _ _ hparent' (heq ▸ .self)
      · exact (pairwise_cons.mp (pairwise_append.mp hordered).2.1).1 child.1 hmem
          hunder

theorem execute_emptied (hknown : item.entry.location.providerId ∈ delete.providers)
    (hfault : env.fault .removeSource = none)
    (hstands : Keyed.get w.disk.files item.entry.location ≠ none)
    (hempty : childrenOf w.disk.files item.entry.location = []) :
    Yields (delete.execute env item) w (.ok .completed)
      { disk := takeAway (fun l => decide (l = item.entry.location)) w.disk
        deleted := (w.deleted + 1) % 2 ^ 64 } := by
  have hremoval : removalOf w.disk.files item.entry.location false
      = .ok fun l => decide (l = item.entry.location) := by
    obtain ⟨node, hnode⟩ := Option.ne_none_iff_exists'.mp hstands
    unfold removalOf
    rw [hnode]
    cases node with
    | directory => rw [if_neg Bool.false_ne_true, if_pos hempty]
    | file content => rfl
    | symlink target => rfl
  have hremoved : Yields (removeEntry env item.entry.location) w (.ok (.ok ()))
      { w with disk := takeAway (fun l => decide (l = item.entry.location)) w.disk } := by
    show removeEntry env item.entry.location w = _
    unfold removeEntry
    rw [hremoval, hfault]
  unfold execute
  rw [if_neg (not_not.mpr hknown), yields_bind_of hremoved]
  exact yields_writes_bind.mpr (yields_pure.mpr ⟨rfl, rfl⟩)

theorem executeAll_clears (h : Deletes tree sources items)
    (hknown : ∀ source ∈ sources, source.providerId ∈ delete.providers)
    {envs : PlanItem → Env} (henvs : ∀ item ∈ items, (envs item).fault .removeSource = none)
    {before : List PlanItem} (hitems : items = done ++ (before ++ after))
    (hcleared : Cleared tree (placesOf done) w.disk.files) :
    ∃ w', Yields (delete.executeAll envs before) w
        (.ok (before.map fun _ => ExecutionOutcome.completed)) w'
      ∧ Cleared tree (placesOf (done ++ before)) w'.disk.files := by
  induction before generalizing done w with
  | nil =>
    refine ⟨w, yields_pure.mpr ⟨rfl, rfl⟩, ?_⟩
    rw [append_nil]
    exact hcleared
  | cons item rest ih =>
    have hitem : item ∈ items := by rw [hitems]; simp
    have hsplit : items = done ++ item :: (rest ++ after) := by rw [hitems]; rfl
    obtain ⟨hthere, source, hsource, habove⟩ := (h.all item.entry.location).mp
      (mem_map_of_mem (f := fun item : PlanItem => item.entry.location) hitem)
    have hnew : item.entry.location ∉ placesOf done := by
      have honce := h.once
      unfold placesOf at honce ⊢
      rw [hsplit, map_append, map_cons] at honce
      intro hmem
      exact (nodup_append.mp honce).2.2 _ hmem _ mem_cons_self rfl
    have hstands : Keyed.get w.disk.files item.entry.location ≠ none := by
      rw [hcleared, if_neg hnew]
      exact hthere
    have hexecute := execute_emptied (w := w)
      (by rw [provider_of_under habove]; exact hknown source hsource)
      (henvs item hitem) hstands (emptied_of_deletes h hsplit hcleared)
    have hnext : Cleared tree (placesOf (done ++ [item]))
        (takeAway (fun l => decide (l = item.entry.location)) w.disk).files := by
      intro l
      show Keyed.get (Keyed.keep w.disk.files fun l => !decide (l = item.entry.location)) l = _
      rw [Keyed.get_keep, hcleared]
      by_cases hl : l = item.entry.location <;> simp [placesOf, hl]
    obtain ⟨w', hrest, hleft⟩ := ih
      (w := { disk := takeAway (fun l => decide (l = item.entry.location)) w.disk
              deleted := (w.deleted + 1) % 2 ^ 64 })
      (by rw [hitems]; simp) hnext
    refine ⟨w', ?_, ?_⟩
    · unfold DeleteExecutor.executeAll
      rw [yields_bind_of hexecute, yields_bind_of hrest]
      exact yields_pure.mpr ⟨rfl, rfl⟩
    · rw [append_assoc] at hleft
      exact hleft

-- ==== the plan

variable {operation : Operation} {r : Except ExecutionError OperationPlan} {w' : DeleteWorld}

/-- The items that are executed in order, up to any of them, are removed
and nothing else is; and if the next is a directory it has been
emptied. -/
def RemovesInOrder (delete : DeleteExecutor) (tree : FileTree) (items : List PlanItem)
    (w : DeleteWorld) : Prop :=
  ∀ envs : PlanItem → Env, (∀ item ∈ items, (envs item).fault .removeSource = none) →
    ∀ before after, items = before ++ after →
      ∃ w', Yields (delete.executeAll envs before) w
          (.ok (before.map fun _ => ExecutionOutcome.completed)) w'
        ∧ Cleared tree (placesOf before) w'.disk.files
        ∧ ∀ item ∈ after.head?, childrenOf w'.disk.files item.entry.location = []

theorem removesInOrder_of_deletes (h : Deletes tree sources items)
    (hknown : ∀ source ∈ sources, source.providerId ∈ delete.providers)
    (hfiles : w.disk.files = tree.nodes) : RemovesInOrder delete tree items w := by
  intro envs henvs before after hitems
  have hstart : Cleared tree (placesOf []) w.disk.files := by
    intro l
    rw [hfiles, if_neg (by simp [placesOf])]
  obtain ⟨w', hyields, hcleared⟩ := executeAll_clears h hknown henvs hitems hstart
  refine ⟨w', hyields, hcleared, fun item hitem => ?_⟩
  obtain ⟨rest, rfl⟩ := List.head?_eq_some_iff.mp hitem
  exact emptied_of_deletes h hitems hcleared

theorem yields_plan (hsources : operation.sources.map EntryRef.location = sources)
    (hfiles : w.disk.files = tree.nodes) :
    Yields (delete.plan readOnly envs operation fuel) w r w'
      ↔ w' = w ∧ match delete.planSources readOnly envs tree.nodes fuel 0 sources [] with
        | none => False
        | some (.error e) => r = .error e
        | some (.ok items) =>
          ∃ fits : items.length ≤ Word.max, r = .ok (OperationPlan.new items fits) := by
  show delete.plan readOnly envs operation fuel w = some (r, w') ↔ _
  unfold plan
  rw [hsources, hfiles]
  cases delete.planSources readOnly envs tree.nodes fuel 0 sources [] with
  | none => simp
  | some result =>
    cases result with
    | error e => simp [eq_comm, and_comm]
    | ok items =>
      by_cases fits : items.length ≤ Word.max
      · simp [fits, eq_comm, and_comm]
      · simp [fits]

/-- Planning a deletion removes nothing, comes to an end (but for more
items than a `Vec` holds), and fails, without the override, if an entry
is read-only; what it returns lists every entry once, each after all
that is below it. -/
theorem deletion_empties_first (hsources : operation.sources.map EntryRef.location = sources)
    (hapart : sources.Pairwise (Apart parent)) (hfiles : w.disk.files = tree.nodes) :
    (∀ envs fuel r w', Yields (delete.plan readOnly envs operation fuel) w r w' →
      w' = w
      ∧ (delete.overrideReadOnly = false → (∃ l, Below tree sources l ∧ readOnly l = true) →
        ∃ e, r = .error e)
      ∧ ∀ plan, r = .ok plan →
        Deletes tree sources plan.items ∧ RemovesInOrder delete tree plan.items w')
    ∧ ∀ envs fuel, 2 * tree.nodes.length ≤ fuel →
      ((∃ r, Yields (delete.plan readOnly envs operation fuel) w r w)
        ∨ Word.max < tree.nodes.length)
      ∧ ((∀ i, (envs i).Undisturbed) → tree.nodes.length ≤ Word.max →
        (∀ source ∈ sources, There tree source ∧ source.providerId ∈ delete.providers) →
        (delete.overrideReadOnly = true ∨ ∀ l, Below tree sources l → readOnly l = false) →
        ∃ plan, Yields (delete.plan readOnly envs operation fuel) w (.ok plan) w) := by
  constructor
  · intro envs fuel r w' h
    obtain ⟨rfl, hreturns⟩ := (yields_plan hsources hfiles).mp h
    split at hreturns
    case h_1 => cases hreturns
    case h_2 e _ =>
      subst hreturns
      exact ⟨rfl, fun _ _ => ⟨e, rfl⟩, fun plan heq => by cases heq⟩
    case h_3 items hplanned =>
      obtain ⟨fits, rfl⟩ := hreturns
      obtain ⟨hdeletes, hmay⟩ := planSources_deletes hapart hplanned
      refine ⟨rfl, ?_, ?_⟩
      · rintro hoverride ⟨l, hl, hreadOnly⟩
        rcases hmay with htrue | hwritable
        · simp [hoverride] at htrue
        · rw [hwritable l hl] at hreadOnly
          cases hreadOnly
      · rintro plan heq
        cases heq
        exact ⟨hdeletes, removesInOrder_of_deletes hdeletes
          (fun source hsource => (there_of_planSources hplanned source hsource).2) hfiles⟩
  · intro envs fuel hfuel
    obtain ⟨result, hplanned⟩ := @planSources_ends _ readOnly delete _ _
      envs hfuel 0 []
    have hfits : ∀ items, result = .ok items → items.length ≤ tree.nodes.length := by
      rintro items rfl
      obtain ⟨hdeletes, -⟩ := planSources_deletes hapart hplanned
      exact length_le_of_once (fun l hl => ((hdeletes.all l).mp hl).1) hdeletes.once
    simp only [yields_plan hsources hfiles, hplanned, true_and]
    constructor
    · by_cases hmax : Word.max < tree.nodes.length
      · exact .inr hmax
      · refine .inl ?_
        cases result with
        | error e => exact ⟨_, rfl⟩
        | ok items => exact ⟨_, (hfits items rfl).trans (Nat.not_lt.mp hmax), rfl⟩
    · intro henvs hmax hready hmay
      have hstart : After parent (There tree) sources (placesOf [])
          (sources.map fun source => (source, false)) :=
        After.start hapart fun source hs => (hready source hs).1
      obtain ⟨items, rfl⟩ := planSources_ok henvs (fun source hs => (hready source hs).2)
        (fun source hs => (hready source hs).1) hmay hstart (.inr (by simp [placesOf])) hplanned
      exact ⟨_, (hfits items rfl).trans hmax, rfl⟩

-- ==== a sample deletion

/-- A directory with a link out of it, and a file beside it. -/
def linkedTree : FileTree :=
  .ofNodes
    [(localPath [], .directory), (localPath ["d"], .directory),
      (localPath ["d", "link"], .symlink (localPath ["kept"])),
      (localPath ["d", "sub"], .directory), (localPath ["d", "sub", "f"], .file [1]),
      (localPath ["g"], .file [2]), (localPath ["kept"], .directory),
      (localPath ["kept", "h"], .file [3])]
    (by decide +kernel) (by decide +kernel)

def sampleDelete : DeleteExecutor where
  providers := ["local"]
  overrideReadOnly := false

def sampleDeletion : Operation :=
  (Scheduler.startOperation
    { id := 1
      kind := .delete
      sources := [{ id := 0, location := localPath ["d"] }, { id := 1, location := localPath ["g"] }]
      destination := none
      conflictPolicy := .ask } 0).operation

/-- The directory and the file are deleted, from listings of one entry a
page, and what the link leads to stays. -/
theorem deletion_empties_linked_tree :
    ∃ plan w', Yields (sampleDelete.plan (fun _ => false)
        (fun _ => { Env.quiet with pages := fun _ => [1] }) sampleDeletion 16)
        { disk := (idleOn linkedTree).disk, deleted := 0 } (.ok plan)
        { disk := (idleOn linkedTree).disk, deleted := 0 }
      ∧ placesOf plan.items = [localPath ["d", "sub", "f"], localPath ["d", "sub"],
        localPath ["d", "link"], localPath ["d"], localPath ["g"]]
      ∧ Yields (sampleDelete.executeAll (fun _ => .quiet) plan.items)
        { disk := (idleOn linkedTree).disk, deleted := 0 }
        (.ok (plan.items.map fun _ => ExecutionOutcome.completed)) w'
      ∧ Cleared linkedTree (placesOf plan.items) w'.disk.files := by
  obtain ⟨plan, w, hplan, hplaces⟩ := Yields.exists_of_run
    (P := fun (plan : OperationPlan) (_ : DeleteWorld) => placesOf plan.items
      = [localPath ["d", "sub", "f"], localPath ["d", "sub"], localPath ["d", "link"],
        localPath ["d"], localPath ["g"]])
    (show ((sampleDelete.plan (fun _ => false)
        (fun _ => { Env.quiet with pages := fun _ => [1] }) sampleDeletion 16).run.run
        { disk := (idleOn linkedTree).disk, deleted := 0 }).any _ = true from by decide +kernel)
  have hsafe := @deletion_empties_first _ (fun _ => false) sampleDelete _
    { disk := (idleOn linkedTree).disk, deleted := 0 } sampleDeletion rfl
    (List.pairwise_pair.mpr (Forest.apart_of_siblings acyclic (p := localPath []) rfl rfl
      (by decide))) rfl
  obtain ⟨rfl, -, hreturned⟩ := hsafe.1 _ _ _ _ hplan
  obtain ⟨w', hyields, hcleared, -⟩ := (hreturned plan rfl).2 (fun _ => .quiet)
    (fun _ _ => rfl) plan.items [] (by simp)
  exact ⟨plan, w', hplan, hplaces, hyields, hcleared⟩

end DeleteExecutor

end FileManager.Transfers
