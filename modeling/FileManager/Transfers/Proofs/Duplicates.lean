/-
The names `DuplicateExecutor::plan` finds for its sources: places where
nothing is, and different ones for different sources.

# The argument

The search takes the first duplicate's name that is free, so which one
depends on the source alone (`FirstFree`). The name says which duplicate
of which name it is, and it goes into the source's own directory: two
sources get one place exactly if they are one location.

The search ends at the first free name, and at the last number a `u32`
holds it stays. So all sources get their places exactly if each of them
has a free name below that, and can be copied at all.
-/
import FileManager.Transfers.Proofs.DuplicateNames
import FileManager.Transfers.Proofs.Enumeration

namespace FileManager.Transfers

open Fallible CopyExecutor List Member Location Nat Word
open Scheduler (OperationPlan PlanItem)

variable {tree : FileTree} {env : Env} {operation : Operation} {fuel index start count : Nat}
  {directory source root : Location} {name found : String} {w w' : World} {copy : CopyExecutor}
  {plan : OperationPlan} {envs : Nat → Env} {copies : List CopyExecutor} {sources : List Location}
  {items : List PlanItem}

-- ==== the search

/-- A duplicate's place that may be taken. -/
def Free (tree : FileTree) (directory : Location) (name : String) (index : Nat) : Prop :=
  ∃ root, directory.join (duplicateName name index) = .ok root ∧ ¬ There tree root

/-- A duplicate's place where something is. -/
def Occupied (tree : FileTree) (directory : Location) (name : String) (index : Nat) : Prop :=
  ∃ root, directory.join (duplicateName name index) = .ok root ∧ There tree root

/-- The first duplicate, from `start` on, whose place is free. -/
structure FirstFree (tree : FileTree) (directory : Location) (name : String)
    (start index : Nat) : Prop where
  from_start : start ≤ index
  counted : index ≤ 2 ^ 32 - 1
  free : Free tree directory name index
  before : ∀ j, start ≤ j → j < index → Occupied tree directory name j

theorem Free.not_occupied (h : Free tree directory name index) :
    ¬ Occupied tree directory name index := by
  rintro ⟨root, hjoin, hthere⟩
  obtain ⟨root', hjoin', hnot⟩ := h
  rw [hjoin] at hjoin'
  injection hjoin' with hjoin'
  exact hnot (hjoin' ▸ hthere)

theorem FirstFree.unique {i j : Nat} (hi : FirstFree tree directory name start i)
    (hj : FirstFree tree directory name start j) : i = j := by
  rcases lt_trichotomy i j with hlt | heq | hgt
  · exact absurd (hj.before i hi.from_start hlt) hi.free.not_occupied
  · exact heq
  · exact absurd (hi.before j hj.from_start hgt) hj.free.not_occupied

theorem free_or_occupied (h : Free tree directory name index) (j : Nat) :
    Free tree directory name j ∨ Occupied tree directory name j := by
  obtain ⟨root, hjoin, -⟩ := h
  have hvalid := (validateName_duplicateName name j).mpr
    ((validateName_duplicateName name index).mp (validateName_of_join hjoin))
  obtain ⟨root', hjoin'⟩ := join_of_validateName directory hvalid
  by_cases hthere : There tree root'
  · exact .inr ⟨root', hjoin', hthere⟩
  · exact .inl ⟨root', hjoin', hthere⟩

theorem exists_firstFree (hstart : start ≤ index) (hindex : index ≤ 2 ^ 32 - 1)
    (h : Free tree directory name index) : ∃ k, FirstFree tree directory name start k := by
  induction hgap : index - start generalizing start with
  | zero =>
    have : start = index := by omega
    subst this
    exact ⟨start, le_rfl, hindex, h, fun j _ _ => by omega⟩
  | succ gap ih =>
    rcases free_or_occupied h start with hfree | hoccupied
    · exact ⟨start, le_rfl, by omega, hfree, fun j _ _ => by omega⟩
    · obtain ⟨k, hfrom, hcounted, hfree, hbefore⟩ := @ih (start + 1) (by omega) (by omega)
      refine ⟨k, by omega, hcounted, hfree, fun j hj hjk => ?_⟩
      by_cases heq : j = start
      · exact heq ▸ hoccupied
      · exact hbefore j (by omega) hjk

theorem probe_answers (henv : env.Undisturbed) :
    (There tree root ∧ ∃ summary,
      env.ask (.probe index) (inspect env tree.nodes root) = .ok summary) ∨ (¬ There tree root
      ∧ env.ask (.probe index) (inspect env tree.nodes root) = .error (.notFound root)) := by
  rw [henv.ask]
  unfold inspect There
  cases Keyed.get tree.nodes root with
  | none => exact .inr ⟨by simp, rfl⟩
  | some node => exact .inl ⟨by simp, _, rfl⟩

/-- The number tried next: a `u32` stays at its greatest. -/
@[irreducible] def nextIndex (index : Nat) : Nat := min (index + 1) (2 ^ 32 - 1)

theorem nextIndex_of_lt (h : index < 2 ^ 32 - 1) : nextIndex index = index + 1 := by
  unfold nextIndex
  omega

theorem nextIndex_le (index : Nat) : nextIndex index ≤ 2 ^ 32 - 1 := by
  unfold nextIndex
  omega

def afterProbe (env : Env) (directory : Location) (name : String) (fuel index : Nat) :
    Except VfsError EntrySummary → Exec String
  | .error (.notFound _) => pure (duplicateName name index)
  | .ok _ => duplicateFrom env directory name fuel (nextIndex index)
  | .error error => throw (.provider error)

theorem duplicateFrom_succ (index : Nat) :
    duplicateFrom env directory name (fuel + 1) index
      = (orFail LocationError.message (directory.join (duplicateName name index)) >>= fun root =>
          (reads fun w => .ok (env.ask (.probe index) (inspect env w.disk.files root)))
            >>= afterProbe env directory name fuel index) := by
  have hrest : afterProbe env directory name fuel index = fun found => match found with
      | .error (.notFound _) => pure (duplicateName name index)
      | .ok _ => duplicateFrom env directory name fuel (min (index + 1) (2 ^ 32 - 1))
      | .error error => throw (.provider error) := by
    funext found
    unfold afterProbe nextIndex
    rfl
  rw [hrest]
  rfl

theorem yields_duplicateFrom_succ (henv : env.Undisturbed) (hfiles : w.disk.files = tree.nodes) :
    Yields (duplicateFrom env directory name (fuel + 1) index) w (.ok found) w'
      ↔ (Free tree directory name index ∧ found = duplicateName name index ∧ w' = w)
        ∨ (Occupied tree directory name index
          ∧ Yields (duplicateFrom env directory name fuel (nextIndex index)) w (.ok found) w') := by
  rw [duplicateFrom_succ]
  cases hjoin : directory.join (duplicateName name index) with
  | error e =>
    constructor
    · intro h
      obtain ⟨_, _, hfail, -⟩ := yields_bind_ok.mp h
      cases (hfail.unique (orFail_error rfl w)).1
    · intro h
      rcases h with ⟨⟨root, hok, -⟩, -⟩ | ⟨⟨root, hok, -⟩, -⟩
      · rw [hjoin] at hok; cases hok
      · rw [hjoin] at hok; cases hok
  | ok root =>
    have hread : ∀ answer, env.ask (.probe index) (inspect env tree.nodes root) = answer →
        Yields (reads fun w => .ok (env.ask (.probe index)
          (inspect env w.disk.files root)) : Exec _) w (.ok answer) w := by
      intro answer hanswer
      refine yields_reads.mpr ⟨?_, rfl⟩
      rw [hfiles, hanswer]
    rw [yields_bind_of (orFail_ok rfl w)]
    rcases probe_answers henv with
      ⟨hthere, summary, hanswer⟩ | ⟨hfree, hanswer⟩
    · have hoccupied : Occupied tree directory name index := ⟨root, hjoin, hthere⟩
      rw [yields_bind_of (hread _ hanswer)]
      constructor
      · exact fun h => .inr ⟨hoccupied, h⟩
      · intro h
        rcases h with ⟨hfree, -⟩ | ⟨-, h⟩
        · exact absurd hoccupied hfree.not_occupied
        · exact h
    · have hfree' : Free tree directory name index := ⟨root, hjoin, hfree⟩
      rw [yields_bind_of (hread _ hanswer)]
      show Yields (pure (duplicateName name index)) w (.ok found) w' ↔ _
      rw [yields_pure]
      constructor
      · rintro ⟨heq, hw⟩
        injection heq with heq
        exact .inl ⟨hfree', heq, hw⟩
      · intro h
        rcases h with ⟨-, rfl, rfl⟩ | ⟨hoccupied, -⟩
        · exact ⟨rfl, rfl⟩
        · exact absurd hoccupied hfree'.not_occupied

theorem firstFree_of_yields (henv : env.Undisturbed) (hfiles : w.disk.files = tree.nodes)
    (hstart : start ≤ 2 ^ 32 - 1)
    (h : Yields (duplicateFrom env directory name fuel start) w (.ok found) w') :
    w' = w ∧ ∃ index, FirstFree tree directory name start index
      ∧ found = duplicateName name index := by
  induction fuel generalizing start with
  | zero => exact absurd h not_yields_stuck
  | succ fuel ih =>
    rcases (yields_duplicateFrom_succ henv hfiles).mp h with
      ⟨hfree, rfl, rfl⟩ | ⟨hoccupied, hnext⟩
    · exact ⟨rfl, start, ⟨le_rfl, hstart, hfree, fun j hj hlt => by omega⟩, rfl⟩
    · obtain ⟨rfl, index, hfirst, rfl⟩ := ih (nextIndex_le start) hnext
      refine ⟨rfl, index, ?_, rfl⟩
      have hne : index ≠ start := fun heq => (heq ▸ hfirst.free).not_occupied hoccupied
      have hfrom := hfirst.from_start
      by_cases hlast : start < 2 ^ 32 - 1
      · rw [nextIndex_of_lt hlast] at hfirst hfrom
        refine ⟨by omega, hfirst.counted, hfirst.free, fun j hj hlt => ?_⟩
        by_cases heq : j = start
        · exact heq ▸ hoccupied
        · exact hfirst.before j (by omega) hlt
      · -- at the greatest number nothing changes any more
        have hcounted := hfirst.counted
        have : nextIndex start = start := by
          unfold nextIndex
          omega
        rw [this] at hfrom
        exact absurd (by omega) hne

theorem yields_of_firstFree (henv : env.Undisturbed) (hfiles : w.disk.files = tree.nodes)
    (h : FirstFree tree directory name start index) (hfuel : index - start < fuel) :
    Yields (duplicateFrom env directory name fuel start) w (.ok (duplicateName name index)) w := by
  induction fuel generalizing start with
  | zero => exact absurd hfuel (not_lt_zero _)
  | succ fuel ih =>
    rw [yields_duplicateFrom_succ henv hfiles]
    have hfrom := h.from_start
    by_cases heq : start = index
    · subst heq
      exact .inl ⟨h.free, rfl, rfl⟩
    · have hcounted := h.counted
      have hlt : start < 2 ^ 32 - 1 := by omega
      refine .inr ⟨h.before start le_rfl (by omega), ?_⟩
      rw [nextIndex_of_lt hlt]
      exact ih ⟨by omega, hcounted, h.free, fun j hj => h.before j (by omega)⟩ (by omega)

-- ==== the copies

theorem walk_mono (henv : env.Undisturbed) {files : Files} {more : Nat}
    {stack : List (EntrySummary × List String)} {followed : List EntryId}
    {entries : List (Location × List String)}
    (h : copy.walk env files fuel stack followed = some entries) (hle : fuel ≤ more) :
    copy.walk env files more stack followed = some entries := by
  induction fuel generalizing more stack followed entries with
  | zero =>
    cases stack with
    | nil => unfold walk at h ⊢; exact h
    | cons top rest => unfold walk at h; cases h
  | succ fuel ih =>
    cases stack with
    | nil => unfold walk at h ⊢; exact h
    | cons top rest =>
      obtain ⟨summary, path⟩ := top
      obtain ⟨more, rfl⟩ : ∃ m, more = m + 1 := ⟨more - 1, by omega⟩
      -- no turn depends on how many are left
      have hfollow : copy.follow env files more summary followed
          = copy.follow env files fuel summary followed := by
        unfold follow
        simp only [henv.ask]
      have hbelow : ∀ target, below env files more target = below env files fuel target := by
        intro target
        unfold below
        simp only [henv.answers]
      unfold walk at h ⊢
      rw [henv.continues] at h ⊢
      rw [hfollow]
      simp only [hbelow, Bool.false_eq_true, if_false] at h ⊢
      cases hnext : copy.follow env files fuel summary followed with
      | error e => rw [hnext] at h; cases h
      | ok next =>
        rw [hnext] at h
        cases next with
        | none => exact ih h (by omega)
        | some picked =>
          obtain ⟨target, followed'⟩ := picked
          simp only at h ⊢
          cases hchildren : below env files fuel target with
          | none => rw [hchildren] at h; cases h
          | some children =>
            rw [hchildren] at h
            obtain ⟨rest', hrest, rfl⟩ := Option.map_eq_some_iff.mp h
            exact congrArg (Option.map _) (ih hrest (by omega))

/-- The source is there, and its tree is walked to the end: so many
entries are found. -/
def Walked (env : Env) (tree : FileTree) (copy : CopyExecutor) (count : Nat) : Prop :=
  ∃ source summary fuel entries, copy.sourceOverride = some source
    ∧ inspect env tree.nodes source = .ok summary
    ∧ copy.walk env tree.nodes fuel [(summary, [])] [] = some entries
    ∧ entries.length = count

theorem walked_of_plan (hsource : copy.sourceOverride = some source)
    (hfiles : w.disk.files = tree.nodes)
    (h : Yields (copy.plan env operation fuel) w (.ok plan) w') :
    Walked env tree copy plan.items.length ∧ w'.disk = w.disk
      ∧ w'.cells.rootName = w.cells.rootName ∧ w'.fallback = w.fallback := by
  have hsourceOf : copy.sourceOf operation = pure source := by
    unfold sourceOf
    rw [hsource]
  obtain ⟨summary, root, st, hmakes, hitems, rfl⟩ := (yields_plan_iff hsourceOf).mp h
  refine ⟨?_, rfl, rfl, rfl⟩
  have hwalked := hmakes.walked
  rw [hfiles] at hwalked
  obtain ⟨entries, hwalk, hlocations, -⟩ :=
    planLoop_walk fuel [(summary, [])] (aimed_root root summary) hwalked
  refine ⟨source, summary, fuel, entries, hsource, ?_, hwalk, ?_⟩
  · rw [← hfiles]
    exact (Env.ask_eq_ok.mp hmakes.asked).2
  · have := congrArg List.length hlocations
    rw [hitems]
    simpa [planningFrom] using this.symm

theorem validatePaths_of_free (hparent : source.parent = some directory)
    (hthere : There tree source) (hjoin : directory.join name = .ok root)
    (hfree : ¬ There tree root) : validatePaths source root = .ok () := by
  have hne : source ≠ root := fun heq => hfree (heq ▸ hthere)
  have hprovider : source.providerId = root.providerId := by
    rw [(of_parent hparent).1, (of_parent (parent_of_join hjoin)).1]
  unfold validatePaths
  rw [if_neg (fun h => h hprovider), if_neg hne, if_neg]
  intro hstarts
  -- both are children of one directory
  rcases (under_of_startsWith hstarts).eq_or_parent with heq | ⟨m, hm, hunder⟩
  · exact hne heq.symm
  · rw [parent_of_join hjoin] at hm
    cases hm
    exact acyclic _ _ hparent hunder

theorem plan_of_walked (henv : env.Undisturbed) (hsource : copy.sourceOverride = some source)
    (hparent : source.parent = some copy.destinationDirectory)
    (hfiles : w.disk.files = tree.nodes) (hname : w.cells.rootName = some found)
    (hjoin : copy.destinationDirectory.join found = .ok root) (hfree : ¬ There tree root)
    (hwalked : Walked env tree copy count) (hfits : count ≤ max) :
    ∃ enough, ∀ fuel, enough ≤ fuel →
      ∃ plan w', Yields (copy.plan env operation fuel) w (.ok plan) w'
        ∧ plan.items.length = count := by
  obtain ⟨source', summary, turns', entries, hsource', hinspect, hwalk, hcount⟩ := hwalked
  rw [hsource] at hsource'
  injection hsource' with hsource'
  subst hsource'
  obtain ⟨rfl, hstands⟩ := inspect_eq_ok hinspect
  have hsourceOf : copy.sourceOf operation = pure summary.location := by
    unfold sourceOf
    rw [hsource]
  refine ⟨max turns' (turns tree), fun fuel hfuel => ?_⟩
  obtain ⟨r, hr⟩ := planLoop_comes_to_end hstands
    ((le_max_right turns' (turns tree)).trans hfuel)
  have hwalk' := walk_mono henv hwalk ((le_max_left turns' (turns tree)).trans hfuel)
  have hfollows := planLoop_walk fuel [(summary, [])] (aimed_root root summary) hr
  cases r with
  | error e =>
    have hnone : copy.walk env tree.nodes fuel [(summary, [])] [] = none := hfollows
    rw [hwalk'] at hnone
    cases hnone
  | ok st =>
    obtain ⟨entries', hentries, hlocations, -⟩ := hfollows
    have hsame : entries = entries' := by
      have heq := hwalk'.symm.trans hentries
      injection heq
    have hlength : st.items.length = count := by
      have := congrArg List.length hlocations
      rw [← hcount, hsame]
      simpa [planningFrom] using this
    have hthere : There tree summary.location := by
      obtain ⟨node, hnode, -⟩ := hstands
      unfold There
      rw [hnode]
      exact Option.some_ne_none _
    refine ⟨OperationPlan.new st.items (hlength ▸ hfits), planWritten w st,
      (yields_plan_iff hsourceOf).mpr ⟨summary, root, st, ⟨?_, ?_, ?_, ?_⟩, rfl, rfl⟩, hlength⟩
    · rw [henv.ask, hfiles]
      exact hinspect
    · rw [hname]
      exact hjoin
    · exact fun _ => validatePaths_of_free hparent hthere hjoin hfree
    · rw [hfiles]
      exact hr

-- ==== one duplicate

/-- A member that is asked to duplicate a source goes into the source's
own directory. -/
structure Duplicates (copy : CopyExecutor) (source : Location) : Prop where
  origin : copy.sourceOverride = some source
  place : source.parent = some copy.destinationDirectory

/-- The place the search finds for a source. -/
def Chosen (tree : FileTree) (source root : Location) : Prop :=
  ∃ directory name index, source.parent = some directory ∧ source.name = .ok name
    ∧ FirstFree tree directory name 1 index
    ∧ directory.join (duplicateName name index) = .ok root

theorem chosen_biUnique : Relator.BiUnique (Chosen tree) := by
  constructor
  · -- the place tells the directory and the name
    rintro source source' root ⟨directory, name, index, hparent, hname, hfirst, hjoin⟩
      ⟨directory', name', index', hparent', hname', hfirst', hjoin'⟩
    have hdirectory := (parent_of_join hjoin).symm.trans (parent_of_join hjoin')
    injection hdirectory with hdirectory
    have hroot := (name_of_join hjoin).symm.trans (name_of_join hjoin')
    injection hroot with hroot
    obtain ⟨hsame, -⟩ := duplicateName_injective hfirst.from_start hfirst'.from_start hroot
    rw [eq_descend_of_parent hparent hname,
      eq_descend_of_parent hparent' hname', hdirectory, hsame]
  · rintro source root root' ⟨directory, name, index, hparent, hname, hfirst, hjoin⟩
      ⟨directory', name', index', hparent', hname', hfirst', hjoin'⟩
    rw [hparent] at hparent'
    injection hparent' with hparent'
    subst hparent'
    rw [hname] at hname'
    injection hname' with hname'
    subst hname'
    rw [hfirst.unique hfirst'] at hjoin
    rw [hjoin] at hjoin'
    injection hjoin'

theorem Chosen.free (h : Chosen tree source root) : ¬ There tree root := by
  obtain ⟨directory, name, index, -, -, hfirst, hjoin⟩ := h
  obtain ⟨root', hjoin', hnot⟩ := hfirst.free
  rw [hjoin] at hjoin'
  injection hjoin' with hjoin'
  exact hjoin' ▸ hnot

/-- Some duplicate's place that a `u32` can count to is free. -/
def HasFreeName (tree : FileTree) (source : Location) : Prop :=
  ∃ directory name index, source.parent = some directory ∧ source.name = .ok name
    ∧ 1 ≤ index ∧ index ≤ 2 ^ 32 - 1 ∧ Free tree directory name index

theorem hasFreeName_iff : HasFreeName tree source ↔ ∃ root, Chosen tree source root := by
  constructor
  · rintro ⟨directory, name, index, hparent, hname, hone, hcounted, hfree⟩
    obtain ⟨k, hfirst⟩ := exists_firstFree hone hcounted hfree
    obtain ⟨root, hjoin, -⟩ := hfirst.free
    exact ⟨root, directory, name, k, hparent, hname, hfirst, hjoin⟩
  · rintro ⟨root, directory, name, index, hparent, hname, hfirst, -⟩
    exact ⟨directory, name, index, hparent, hname, hfirst.from_start, hfirst.counted, hfirst.free⟩

/-- The root's place that planning has written down for a member. -/
def assignedRoot (copy : CopyExecutor) (seat : Seat) : Option Location :=
  seat.cells.rootName.bind fun name => (copy.destinationDirectory.join name).toOption

/-- What a member's seat is after its planning. -/
def seatOf (w : World) : Seat := { cells := w.cells, fallback := w.fallback }

theorem chosen_of_planDuplicate (henv : env.Undisturbed) (hcopy : Duplicates copy source)
    (h : Yields (planDuplicate copy env operation fuel) (idleOn tree) (.ok plan) w) :
    (∃ root, Chosen tree source root ∧ assignedRoot copy (seatOf w) = some root)
      ∧ Walked env tree copy plan.items.length ∧ w.disk = (idleOn tree).disk := by
  unfold planDuplicate duplicateSource at h
  rw [hcopy.origin, yields_bind_of (yields_pure.mpr ⟨rfl, rfl⟩)] at h
  obtain ⟨name, w₁, hname, h⟩ := yields_bind_ok.mp h
  obtain ⟨rfl, ⟨_, hsourceName, heq⟩ | ⟨_, -, heq⟩⟩ := yields_orFail hname
  case inr => cases heq
  cases heq
  obtain ⟨found, w₂, hfound, h⟩ := yields_bind_ok.mp h
  obtain ⟨rfl, index, hfirst, rfl⟩ := firstFree_of_yields henv rfl (by decide) hfound
  obtain ⟨_, w₃, hset, h⟩ := yields_bind_ok.mp h
  obtain ⟨-, rfl⟩ := yields_writes.mp hset
  obtain ⟨hwalked, hdisk, hrootName, -⟩ := walked_of_plan hcopy.origin rfl h
  obtain ⟨root, hjoin, -⟩ := hfirst.free
  refine ⟨⟨root, ⟨_, _, index, hcopy.place, hsourceName, hfirst, hjoin⟩, ?_⟩, hwalked, hdisk⟩
  unfold assignedRoot seatOf
  rw [hrootName]
  show (copy.destinationDirectory.join (duplicateName _ index)).toOption = some root
  rw [hjoin]
  rfl

theorem planDuplicate_of_walked (henv : env.Undisturbed) (hcopy : Duplicates copy source)
    (hfree : HasFreeName tree source) (hwalked : Walked env tree copy count)
    (hfits : count ≤ max) :
    ∃ enough, ∀ fuel, enough ≤ fuel → ∃ plan w,
      Yields (planDuplicate copy env operation fuel) (idleOn tree) (.ok plan) w
        ∧ plan.items.length = count := by
  obtain ⟨root, hchosen⟩ := hasFreeName_iff.mp hfree
  obtain ⟨directory, name, index, hparent, hname, hfirst, hjoin⟩ := hchosen
  have hdirectory : directory = copy.destinationDirectory := by
    have heq := hparent.symm.trans hcopy.place
    injection heq
  subst hdirectory
  have hnot : ¬ There tree root := Chosen.free ⟨_, name, index, hparent, hname, hfirst, hjoin⟩
  let named : World := { idleOn tree with
    cells := { rootName := some (duplicateName name index) } }
  obtain ⟨enough, henough⟩ := plan_of_walked (w := named) henv
    hcopy.origin hparent rfl rfl hjoin hnot hwalked hfits
  refine ⟨max enough (index + 1), fun fuel hfuel => ?_⟩
  obtain ⟨plan, w, hplan, hlength⟩ := henough fuel (by omega)
  refine ⟨plan, w, ?_, hlength⟩
  have hset : Yields (setCells fun cells =>
      { cells with rootName := some (duplicateName name index) }) (idleOn tree)
      (.ok ⟨⟩) named :=
    yields_writes.mpr ⟨rfl, rfl⟩
  unfold planDuplicate duplicateSource
  rw [hcopy.origin, yields_bind_of (yields_pure.mpr ⟨rfl, rfl⟩),
    yields_bind_of (orFail_ok hname (idleOn tree)),
    yields_bind_of (yields_of_firstFree henv rfl hfirst (by omega)), yields_bind_of hset]
  exact hplan

-- ==== all duplicates

/-- Every member, from member `i` on, plans in its own environment: the
items of all, and what the seats are then. -/
inductive PlansAll (envs : Nat → Env) (operation : Operation) (fuel : Nat) (tree : FileTree) :
    Nat → List CopyExecutor → List PlanItem → List Seat → Prop
  | nil {i : Nat} : PlansAll envs operation fuel tree i [] [] []
  | cons {i : Nat} {copy : CopyExecutor} {rest : List CopyExecutor} {plan : OperationPlan}
      {w : World} {items : List PlanItem} {seats : List Seat}
      (plans : Yields (planDuplicate copy (envs i) operation fuel) (idleOn tree)
        (.ok plan) w)
      (disk : w.disk = (idleOn tree).disk)
      (others : PlansAll envs operation fuel tree (i + 1) rest items seats) :
      PlansAll envs operation fuel tree i (copy :: rest) (plan.items ++ items) (seatOf w :: seats)

theorem yields_planMember {i : Nat} {g g' : GroupWorld} (hdisk : g.disk = (idleOn tree).disk)
    (hseat : g.seats[i]? = some {}) :
    Yields (Group.planMember env operation fuel i (.duplicate copy)) g (.ok items) g'
      ↔ ∃ plan w, Yields (planDuplicate copy env operation fuel) (idleOn tree)
          (.ok plan) w ∧ items = plan.items ∧ g' = g.after i w := by
  have hat : g.at {} = idleOn tree := by
    unfold GroupWorld.at idleOn
    rw [hdisk]
    rfl
  unfold Group.planMember
  constructor
  · intro h
    obtain ⟨result, g₁, hcaught, h⟩ := yields_bind_ok.mp h
    obtain ⟨r, heq, hcall⟩ := yields_caught.mp hcaught
    cases heq
    obtain ⟨seat, w, hget, hplan, rfl⟩ := yields_onSeat.mp hcall
    rw [hseat] at hget
    cases hget
    rw [hat] at hplan
    split at h
    case h_1 plan =>
      obtain ⟨heq, rfl⟩ := yields_pure.mp h
      injection heq with heq
      exact ⟨plan, w, hplan, heq, rfl⟩
    case h_2 => cases (yields_throw.mp h).1
    case h_3 => cases (yields_throw.mp h).1
  · rintro ⟨plan, w, hplan, rfl, rfl⟩
    have hcall : Yields (onSeat i ((duplicate copy).plan env operation fuel)) g
        (.ok plan) (g.after i w) := by
      refine yields_onSeat.mpr ⟨{}, w, hseat, ?_, rfl⟩
      rw [hat]
      exact hplan
    rw [yields_caught_bind hcall]
    exact yields_pure.mpr ⟨rfl, rfl⟩

theorem yields_planMembers (henvs : ∀ i, (envs i).Undisturbed)
    (hcopies : List.Forall₂ Duplicates copies sources) {i : Nat} {g g' : GroupWorld}
    (hdisk : g.disk = (idleOn tree).disk) (hseats : g.seats.drop i = copies.map fun _ => {}) :
    Yields (Group.planMembers envs operation fuel i (copies.map .duplicate)) g (.ok items) g'
      ↔ ∃ seats, PlansAll envs operation fuel tree i copies items seats
          ∧ g' = { g with seats := g.seats.take i ++ seats } := by
  induction hcopies generalizing i g g' items with
  | nil =>
    have hall : g.seats.take i = g.seats := by
      have := take_append_drop i g.seats
      rw [hseats] at this
      simpa using this
    show Yields (pure []) g (.ok items) g' ↔ _
    rw [yields_pure]
    constructor
    · rintro ⟨heq, rfl⟩
      cases heq
      refine ⟨[], .nil, ?_⟩
      rw [append_nil, hall]
    · rintro ⟨seats, hplans, rfl⟩
      cases hplans
      rw [append_nil, hall]
      exact ⟨rfl, rfl⟩
  | @cons copy source rest others hcopy _ ih =>
    have hseat : g.seats[i]? = some {} := by
      have := congrArg (fun l => l[0]?) hseats
      simpa using this
    obtain ⟨hlt, -⟩ := List.getElem?_eq_some_iff.mp hseat
    -- what the first member leaves to the others
    have hafter : ∀ w : World, w.disk = (idleOn tree).disk →
        (g.after i w).disk = (idleOn tree).disk
          ∧ (g.after i w).seats.drop (i + 1) = rest.map (fun _ => {})
          ∧ (g.after i w).seats.take (i + 1) = g.seats.take i ++ [seatOf w] := by
      intro w hw
      refine ⟨hw, ?_, ?_⟩
      · show (g.seats.set i _).drop (i + 1) = _
        rw [drop_set_of_lt (lt_succ_self i), ← tail_drop, hseats]
        rfl
      · show (g.seats.set i (seatOf w)).take (i + 1) = _
        rw [take_add_one, List.getElem?_set_self hlt, take_set_of_le (le_refl i)]
        rfl
    rw [map_cons]
    unfold Group.planMembers
    constructor
    · intro h
      obtain ⟨first, g₁, hfirst, h⟩ := yields_bind_ok.mp h
      obtain ⟨plan, w, hplan, rfl, rfl⟩ := (yields_planMember hdisk hseat).mp hfirst
      have hw := (chosen_of_planDuplicate (henvs i) hcopy hplan).2.2
      obtain ⟨hdisk', hdrop, htake⟩ := hafter w hw
      obtain ⟨more, g₂, hmore, h⟩ := yields_bind_ok.mp h
      obtain ⟨seats, hplans, rfl⟩ := (ih hdisk' hdrop).mp hmore
      obtain ⟨heq, rfl⟩ := yields_pure.mp h
      cases heq
      refine ⟨_, .cons hplan hw hplans, ?_⟩
      rw [htake, append_assoc]
      unfold GroupWorld.after
      rw [hw, ← hdisk]
      rfl
    · rintro ⟨seats, hplans, rfl⟩
      cases hplans with
      | @cons _ _ _ plan w items' seats' hplan hw hothers =>
        obtain ⟨hdisk', hdrop, htake⟩ := hafter w hw
        rw [yields_bind_of ((yields_planMember hdisk hseat).mpr ⟨plan, w, hplan, rfl, rfl⟩),
          yields_bind_of ((ih hdisk' hdrop).mpr ⟨seats', hothers, rfl⟩)]
        refine yields_pure.mpr ⟨rfl, ?_⟩
        rw [htake, append_assoc]
        unfold GroupWorld.after
        rw [hw, ← hdisk]
        rfl

/-- The sources' trees are walked to their ends: so many entries are
found, one after the other. -/
inductive WalkedAll (envs : Nat → Env) (tree : FileTree) :
    Nat → List CopyExecutor → Nat → Prop
  | nil {i : Nat} : WalkedAll envs tree i [] 0
  | cons {i count counts : Nat} {copy : CopyExecutor} {rest : List CopyExecutor}
      (walked : Walked (envs i) tree copy count) (others : WalkedAll envs tree (i + 1) rest counts) :
      WalkedAll envs tree i (copy :: rest) (count + counts)

theorem chosen_of_plansAll (henvs : ∀ i, (envs i).Undisturbed)
    (hcopies : List.Forall₂ Duplicates copies sources) {i : Nat} {seats : List Seat}
    (h : PlansAll envs operation fuel tree i copies items seats) :
    (∃ roots, List.Forall₂ (Chosen tree) sources roots
      ∧ List.zipWith assignedRoot copies seats = roots.map some)
    ∧ WalkedAll envs tree i copies items.length := by
  induction hcopies generalizing i items seats with
  | nil =>
    cases h
    exact ⟨⟨[], .nil, rfl⟩, .nil⟩
  | cons hcopy _ ih =>
    cases h with
    | cons hplan _ hothers =>
      obtain ⟨⟨root, hchosen, hassigned⟩, hwalked, -⟩ :=
        chosen_of_planDuplicate (henvs i) hcopy hplan
      obtain ⟨⟨roots, hroots, hzip⟩, hall⟩ := ih hothers
      refine ⟨⟨root :: roots, .cons hchosen hroots, ?_⟩, ?_⟩
      · rw [zipWith_cons_cons, hassigned, hzip]
        rfl
      · rw [length_append]
        exact .cons hwalked hall

theorem plansAll_of_walked (henvs : ∀ i, (envs i).Undisturbed)
    (hcopies : List.Forall₂ Duplicates copies sources) {i total : Nat}
    (hwalked : WalkedAll envs tree i copies total) (hfits : total ≤ max)
    (hfree : ∀ source ∈ sources, HasFreeName tree source) :
    ∃ enough, ∀ fuel, enough ≤ fuel → ∃ items seats,
      PlansAll envs operation fuel tree i copies items seats ∧ items.length = total := by
  induction hcopies generalizing i total with
  | nil =>
    cases hwalked
    exact ⟨0, fun fuel _ => ⟨[], [], .nil, rfl⟩⟩
  | @cons copy source rest others hcopy _ ih =>
    cases hwalked with
    | @cons _ count counts _ _ hone hothers =>
      obtain ⟨enough, hfirst⟩ := planDuplicate_of_walked (henvs i)
        hcopy (hfree source mem_cons_self) hone (by omega)
      obtain ⟨enough', hrest⟩ := ih hothers (by omega)
        fun s hs => hfree s (mem_cons_of_mem _ hs)
      refine ⟨max enough enough', fun fuel hfuel => ?_⟩
      obtain ⟨plan, w, hplan, hlength⟩ := hfirst fuel (by omega)
      obtain ⟨items, seats, hplans, hlengths⟩ := hrest fuel (by omega)
      have hw := (chosen_of_planDuplicate (henvs i) hcopy hplan).2.2
      refine ⟨_, _, .cons hplan hw hplans, ?_⟩
      rw [length_append, hlength, hlengths]

/-- Every source has been assigned a place of its own, where nothing
was. -/
structure AssignsFresh (copies : List CopyExecutor) (tree : FileTree) (g : GroupWorld)
    (roots : List Location) : Prop where
  assigned : List.zipWith assignedRoot copies g.seats = roots.map some
  complete : roots.length = copies.length
  fresh : ∀ root ∈ roots, ¬ There tree root
  apart : roots.Nodup

/-- Every source gets a place of its own exactly if no location is given
twice, every source has a free name, and the sources can be copied; and
a name is that of one duplicate only. -/
theorem duplicates_fresh_iff (henvs : ∀ i, (envs i).Undisturbed)
    (hcopies : List.Forall₂ Duplicates copies sources) :
    ((∃ fuel plan g roots, Yields ((Group.duplicate copies).plan envs operation fuel)
        ((Group.duplicate copies).fresh tree.nodes) (.ok plan) g
        ∧ AssignsFresh copies tree g roots)
      ↔ sources.Nodup ∧ (∀ source ∈ sources, HasFreeName tree source)
        ∧ ∃ total ≤ max, WalkedAll envs tree 0 copies total)
    ∧ ∀ name i j, 1 ≤ i → 1 ≤ j → duplicateName name i = duplicateName name j → i = j := by
  have hseats : ((Group.duplicate copies).fresh tree.nodes).seats.drop 0
      = copies.map fun _ => {} := by
    show ((copies.map duplicate).map fun _ => ({} : Seat)) = _
    rw [List.map_map]
    rfl
  have hmembers := fun fuel items g => @yields_planMembers _ operation fuel _
    _ _ items henvs hcopies 0
    ((Group.duplicate copies).fresh tree.nodes) g rfl hseats
  refine ⟨⟨?_, ?_⟩, fun name i j hi hj h => (duplicateName_injective hi hj h).2⟩
  · rintro ⟨fuel, plan, g, roots, hplan, hfresh⟩
    unfold Group.plan at hplan
    obtain ⟨items, g₁, hitems, hrest⟩ := yields_bind_ok.mp hplan
    obtain ⟨seats, hplans, rfl⟩ := (hmembers fuel items g₁).mp hitems
    obtain ⟨⟨roots', hchosen, hzip⟩, hwalked⟩ := chosen_of_plansAll henvs hcopies hplans
    split at hrest
    case isFalse => exact absurd hrest not_yields_stuck
    case isTrue fits =>
      obtain ⟨-, rfl⟩ := yields_pure.mp hrest
      have hsame : roots = roots' := by
        have := hfresh.assigned.symm.trans hzip
        exact List.map_injective_iff.mpr (Option.some_injective _) this
      subst hsame
      refine ⟨(List.rel_nodup chosen_biUnique hchosen).mpr hfresh.apart, ?_,
        items.length, fits, hwalked⟩
      intro source hsource
      obtain ⟨root, -, hroot⟩ := paired_left hchosen hsource
      exact hasFreeName_iff.mpr ⟨root, hroot⟩
  · rintro ⟨hnodup, hfree, total, hfits, hwalked⟩
    obtain ⟨enough, henough⟩ := plansAll_of_walked henvs hcopies hwalked hfits hfree
    obtain ⟨items, seats, hplans, hlength⟩ := henough enough (le_refl _)
    obtain ⟨⟨roots, hchosen, hzip⟩, -⟩ := chosen_of_plansAll henvs hcopies hplans
    have hitems := (hmembers enough items _).mpr ⟨seats, hplans, rfl⟩
    have fits : items.length ≤ max := hlength ▸ hfits
    refine ⟨enough, OperationPlan.new items fits,
      { (Group.duplicate copies).fresh tree.nodes with seats := seats }, roots, ?_,
      hzip, ?_, ?_, (List.rel_nodup chosen_biUnique hchosen).mp hnodup⟩
    · unfold Group.plan
      show Yields (Group.planMembers envs operation enough 0 (copies.map .duplicate) >>= _) _ _ _
      rw [yields_bind_of hitems, dif_pos fits]
      exact yields_pure.mpr ⟨rfl, rfl⟩
    · rw [← hchosen.length_eq, hcopies.length_eq]
    · intro root hroot
      obtain ⟨source, -, hsource⟩ := paired_right hchosen hroot
      exact hsource.free

-- ==== sample duplicates

/-- The duplicate of a source beside it. -/
def duplicateOf (source directory : Location) : CopyExecutor where
  destinationDirectory := directory
  symlinkPolicy := .copyLink
  sourceOverride := some source
  continueOnError := true
  transfer := sampleMove.transfer

/-- `/a` and `/a copy`, with nothing else. -/
def twinTree : FileTree :=
  .ofNodes
    [(localPath [], .directory), (localPath ["a"], .file [1]), (localPath ["a copy"], .file [2])]
    (by decide +kernel) (by decide +kernel)

/-- A file and another that has the name of its first duplicate get
places of their own. -/
theorem duplicates_fresh_twins :
    ∃ fuel plan g roots, Yields
        ((Group.duplicate [duplicateOf (localPath ["a"]) (localPath []),
          duplicateOf (localPath ["a copy"]) (localPath [])]).plan (fun _ => .quiet)
          sampleOperation fuel)
        ((Group.duplicate [duplicateOf (localPath ["a"]) (localPath []),
          duplicateOf (localPath ["a copy"]) (localPath [])]).fresh twinTree.nodes)
        (.ok plan) g
      ∧ AssignsFresh [duplicateOf (localPath ["a"]) (localPath []),
          duplicateOf (localPath ["a copy"]) (localPath [])] twinTree g roots := by
  have hwalked : ∀ name content, Keyed.get twinTree.nodes (localPath [name])
      = some (.file content) → Walked .quiet twinTree
        (duplicateOf (localPath [name]) (localPath [])) 1 := by
    intro name content hget
    refine ⟨localPath [name], summarize .quiet (localPath [name]) (.file content), 1,
      [(localPath [name], [])], rfl, ?_, rfl, rfl⟩
    unfold inspect
    rw [hget]
  have hfree : ∀ name index, Keyed.get twinTree.nodes (localPath [duplicateName name index])
      = none → validateName (duplicateName name index) = .ok () →
      Free twinTree (localPath []) name index := by
    intro name index hget hvalid
    refine ⟨localPath [duplicateName name index], ?_, fun hthere => hthere hget⟩
    unfold join
    rw [hvalid]
    rfl
  refine (duplicates_fresh_iff (fun _ => ⟨fun _ => rfl, fun _ => rfl⟩)
    (.cons ⟨rfl, rfl⟩ (.cons ⟨rfl, rfl⟩ .nil))).1.mpr ⟨by decide +kernel, ?_, 2, by decide, ?_⟩
  · intro source hsource
    rcases List.mem_cons.mp hsource with rfl | hsource
    · exact ⟨localPath [], "a", 2, rfl, rfl, by decide, by decide,
        hfree "a" 2 (by decide +kernel) (by decide +kernel)⟩
    · rw [List.mem_singleton.mp hsource]
      exact ⟨localPath [], "a copy", 1, rfl, rfl, by decide, by decide,
        hfree "a copy" 1 (by decide +kernel) (by decide +kernel)⟩
  · show WalkedAll (fun _ => .quiet) twinTree 0 _ (1 + (1 + 0))
    exact .cons (hwalked "a" [1] (by decide +kernel))
      (.cons (hwalked "a copy" [2] (by decide +kernel)) .nil)

/-- A file that is given twice is assigned one place twice. -/
theorem repeated_source_shares_place :
    ∃ plan g, Yields
        ((Group.duplicate [duplicateOf (localPath ["a"]) (localPath []),
          duplicateOf (localPath ["a"]) (localPath [])]).plan (fun _ => .quiet)
          sampleOperation 5)
        ((Group.duplicate [duplicateOf (localPath ["a"]) (localPath []),
          duplicateOf (localPath ["a"]) (localPath [])]).fresh twinTree.nodes) (.ok plan) g
      ∧ List.zipWith assignedRoot [duplicateOf (localPath ["a"]) (localPath []),
          duplicateOf (localPath ["a"]) (localPath [])] g.seats
        = [some (localPath ["a copy 2"]), some (localPath ["a copy 2"])] :=
  Yields.exists_of_run (by decide +kernel)

end FileManager.Transfers
