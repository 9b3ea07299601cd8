/-
A copy-then-delete move loses nothing, as long as it takes its source
as a whole.

# The defect

`finish` removes the source when the root has been transferred. An item
below the root that was skipped has not been, and goes with it
(`skipped_file_is_removed`). `Undivided` is the condition under which
nothing is lost.

# The argument

At every state of a move that copies, each file that stands in the source
has its bytes committed, or is planned from its own location and has not
completed (`Copying.kept`). When `finish` runs, every item of the plan
has an outcome; if the root's is completed then no item below it was
skipped, so that all have completed and all bytes that go are committed.
-/
import FileManager.Transfers.Proofs.Planning
import FileManager.Transfers.Job
import FileManager.Operations.Proofs.Results

namespace FileManager.Transfers

open Fallible Machine CopyExecutor Keyed
open Scheduler (Ending ExecutionError ExecutionOutcome OperationPlan PlanItem Request Work
  outcomeOf startOperation)
open Scheduler (step_of_apply plan_step settled_step)
open List (mem_append_left append_nil mem_append mem_map mem_singleton)
open PlannedCopyEntry (subject)

variable {gone : Location → Bool} {s' s : State} {d : Disk}

-- ==== the condition

/-- An item below the root has been skipped. -/
def SkippedBelow (move : MoveExecutor) (job : Scheduler.State) : Prop :=
  ∃ outcome ∈ job.settled, outcome.2 = .skipped ∧ outcome.1.item.entry.location ≠ move.source

instance (move : MoveExecutor) (job : Scheduler.State) : Decidable (SkippedBelow move job) :=
  inferInstanceAs (Decidable (∃ outcome ∈ job.settled,
    outcome.2 = .skipped ∧ outcome.1.item.entry.location ≠ move.source))

/-- The planned entry that the `execute` call in flight is for, and what
it is going to do about its destination. -/
def branchOf (s : State) (env : Env) : Option (PlannedCopyEntry × Disposition) := do
  let (work, resolution) ← s.job.runner.inProgress
  let planned ← get s.world.cells.planned work.item.entry.location
  let disposition ←
    (examine env s.job.operation.conflictPolicy resolution planned.source.location
      planned.destination s.world.disk.files).toOption
  pure (planned, disposition)

/-- The branch does not part the source: what is below the root is
skipped only where the root is not transferred, and no entry of the plan
is removed. -/
def BranchUndivided (move : MoveExecutor) (s : State) :
    Option (PlannedCopyEntry × Disposition) → Prop
  | none => True
  | some (planned, .skip) =>
    planned.isRoot = false → s.world.cells.completedRootDestination = none
  | some (planned, disposition) =>
    (planned.isRoot = true → ¬ SkippedBelow move s.job)
      ∧ (disposition = .overwrite → planned.kind = .symlink →
        get s.world.cells.planned planned.destination = none)

instance (move : MoveExecutor) (s : State) :
    ∀ branch, Decidable (BranchUndivided move s branch)
  | none => inferInstanceAs (Decidable True)
  | some (_, .skip) => inferInstanceAs (Decidable (_ → _))
  | some (_, .free) | some (_, .overwrite) | some (_, .renameNew) =>
    inferInstanceAs (Decidable (_ ∧ _))

/-- The condition on the steps of a move: on its `execute` calls, in the
state they are made in. -/
def Undivided (move : MoveExecutor) (s : State) : Action → Prop
  | .execute env _ => BranchUndivided move s (branchOf s env)
  | _ => True

instance (move : MoveExecutor) (s : State) : ∀ a, Decidable (Undivided move s a)
  | .execute env _ => inferInstanceAs (Decidable (BranchUndivided move s (branchOf s env)))
  | .job _ | .plan _ _ | .finish _ | .cleanup _ => inferInstanceAs (Decidable True)

-- ==== the log

/-- Every file that is taken away below `source` has been committed
before. -/
def Backed (source : Location) (log : List Transfer) : Prop :=
  ∀ before l content after, log = before ++ .removed l content :: after →
    l.startsWith source = true → ∃ d, .committed d content ∈ before

theorem Backed.append {source : Location} {log new : List Transfer} (h : Backed source log)
    (hnew : ∀ l content, .removed l content ∈ new → l.startsWith source = true →
      ∃ d, .committed d content ∈ log) : Backed source (log ++ new) := by
  intro before l content after heq hl
  rcases List.append_eq_append_iff.mp heq with ⟨middle, hbefore, hnew'⟩ | ⟨middle, hlog, hrest⟩
  · -- it is one of the new entries
    obtain ⟨d, hd⟩ := hnew l content (by rw [hnew']; simp) hl
    exact ⟨d, by rw [hbefore]; exact mem_append_left _ hd⟩
  · cases middle with
    | nil =>
      rw [append_nil] at hlog
      rw [List.nil_append] at hrest
      obtain ⟨d, hd⟩ := hnew l content (by rw [← hrest]; exact List.mem_cons_self) hl
      exact ⟨d, hlog ▸ hd⟩
    | cons first middle =>
      injection hrest with hfirst hmiddle
      subst hfirst
      exact h before l content middle hlog hl

theorem mem_log_takeAway {t : Transfer} :
    t ∈ (takeAway gone d).log ↔ t ∈ d.log
      ∨ ∃ file ∈ contentsOf d.files gone, .removed file.1 file.2 = t := by
  unfold takeAway
  rw [mem_append, mem_map]

theorem get_takeAway {l : Location} {node : Node}
    (h : get (takeAway gone d).files l = some node) : get d.files l = some node := by
  unfold takeAway at h
  rw [get_keep] at h
  split at h
  case isTrue => exact h
  case isFalse => cases h

-- ==== the invariant

/-- What holds of a move that copies, once it has a plan. -/
structure Copying (move : MoveExecutor) (settled : List (Work × Ending))
    (items : List PlanItem) (w : World) : Prop where
  unwarned : ∀ outcome ∈ settled, outcome.2 ≠ .warned
  listed : ∀ item ∈ items, get w.cells.planned item.entry.location ≠ none
  marked : ∀ l entry, get w.cells.planned l = some entry →
    entry.isRoot = decide (l = move.source)
  kept : ∀ l content, l.startsWith move.source = true →
    get w.disk.files l = some (.file content) →
    (∃ d, .committed d content ∈ w.disk.log) ∨ (PlansFile w.cells.planned items l
        ∧ ∀ outcome ∈ settled, outcome.2 = .completed →
          outcome.1.item.entry.location ≠ l)
  recorded : w.cells.completedRootDestination ≠ none →
    ∃ outcome ∈ settled, outcome.2 = .completed ∧ outcome.1.item.entry.location = move.source
  undivided : w.cells.completedRootDestination ≠ none →
    ∀ outcome ∈ settled, outcome.2 = .skipped →
      outcome.1.item.entry.location = move.source
  present : w.cells.completedRootDestination = none →
    ∀ l, get w.cells.planned l ≠ none → get w.disk.files l ≠ none
  backed : Backed move.source w.disk.log

/-- The invariant of a move: before there is a plan nothing has been
done. -/
structure Lossless (move : MoveExecutor) (tree : FileTree) (s : State) : Prop where
  untouched : s.job.plan = none → s.world.disk.files = tree.nodes
    ∧ s.world.disk.log = [] ∧ s.world.cells.completedRootDestination = none
  copying : s.world.fallback = true → ∀ plan, s.job.plan = some plan →
    s.job.runner.warns = false ∧ Copying move s.job.settled plan.items s.world

section Steps

variable {move : MoveExecutor} {settled : List (Work × Ending)} {items : List PlanItem}
  {w w' : World} {l : Location} {work : Work}

theorem plansFile_of_subject
    (hsubject : ∀ l, (get w'.cells.planned l).map subject = (get w.cells.planned l).map subject)
    (h : PlansFile w.cells.planned items l) : PlansFile w'.cells.planned items l := by
  obtain ⟨⟨entry, hentry, hkind, hsource⟩, hitem⟩ := h
  refine ⟨?_, hitem⟩
  have hmap := hsubject l
  rw [hentry, Option.map_some, Option.map_eq_some_iff] at hmap
  obtain ⟨entry', hentry', hsub⟩ := hmap
  refine ⟨entry', hentry', ?_, ?_⟩
  · rw [show entry'.kind = entry.kind from congrArg Prod.fst hsub]
    exact hkind
  · rw [show entry'.source = entry.source from congrArg (fun p => p.2.1) hsub]
    exact hsource

theorem get_planned_ne_none
    (hsubject : ∀ l, (get w'.cells.planned l).map subject = (get w.cells.planned l).map subject)
    : get w'.cells.planned l ≠ none ↔ get w.cells.planned l ≠ none := by
  have hmap := hsubject l
  rw [not_iff_not, ← Option.map_eq_none_iff (f := subject), hmap, Option.map_eq_none_iff]

/-- Taking entries away that are committed, or not of the source, and
not planned as long as the root is to come. -/
theorem Copying.takeAway (h : Copying move settled items w) {gone : Location → Bool}
    (hcommitted : ∀ l content, gone l = true → l.startsWith move.source = true →
      get w.disk.files l = some (.file content) → ∃ d, .committed d content ∈ w.disk.log)
    (hpresent : w.cells.completedRootDestination = none →
      ∀ l, gone l = true → get w.cells.planned l = none) :
    Copying move settled items { w with disk := Transfers.takeAway gone w.disk } := by
  refine ⟨h.unwarned, h.listed, h.marked, ?_, h.recorded, h.undivided, ?_, ?_⟩
  · intro l content hl hget
    rcases h.kept l content hl (get_takeAway hget) with ⟨d, hd⟩ | hplans
    · exact .inl ⟨d, mem_log_takeAway.mpr (.inl hd)⟩
    · exact .inr hplans
  · intro hnone l hl
    show get (keep w.disk.files fun l => !gone l) l ≠ none
    rw [get_keep, if_pos]
    · exact h.present hnone l hl
    · cases hgone : gone l with
      | false => rfl
      | true => exact absurd (hpresent hnone l hgone) hl
  · refine h.backed.append ?_
    intro l content hmem hl
    obtain ⟨file, hfile, heq⟩ := mem_map.mp hmem
    injection heq with hlocation hcontent
    obtain ⟨hgone, hget⟩ := mem_contentsOf hfile
    rw [hlocation, hcontent] at hget
    rw [hlocation] at hgone
    exact hcommitted l content hgone hl hget

theorem Copying.grows (h : Copying move settled items w) (hgrows : Grows w w') :
    Copying move settled items w' := by
  have hne {l : Location} := get_planned_ne_none hgrows.planned (l := l)
  refine ⟨h.unwarned, fun item hitem => hne.mpr (h.listed item hitem), ?_, ?_, ?_, ?_, ?_, ?_⟩
  · intro l entry' hentry'
    have hmap := hgrows.planned l
    rw [hentry', Option.map_some, eq_comm, Option.map_eq_some_iff] at hmap
    obtain ⟨entry, hentry, hsub⟩ := hmap
    rw [← show entry.isRoot = entry'.isRoot from congrArg (fun p => p.2.2) hsub]
    exact h.marked l entry hentry
  · intro l content hl hget
    rcases hgrows.disk.contents l content hget with hget | hcommitted
    · rcases h.kept l content hl hget with ⟨d, hd⟩ | ⟨hplans, hopen⟩
      · exact .inl ⟨d, hgrows.disk.mem_log hd⟩
      · exact .inr ⟨plansFile_of_subject hgrows.planned hplans, hopen⟩
    · exact .inl hcommitted
  · rw [hgrows.completed]
    exact h.recorded
  · rw [hgrows.completed]
    exact h.undivided
  · rw [hgrows.completed]
    intro hnone l hl
    exact hgrows.disk.present l (h.present hnone l (hne.mp hl))
  · obtain ⟨new, hnew, hcommitted⟩ := hgrows.disk.log
    rw [hnew]
    refine h.backed.append ?_
    intro l content hmem
    cases hcommitted _ hmem

-- ==== an execution

theorem Copying.skip (h : Copying move settled items w)
    (hskip : work.item.entry.location ≠ move.source → w.cells.completedRootDestination = none) :
    Copying move (settled ++ [(work, .skipped)]) items w := by
  refine ⟨?_, h.listed, h.marked, ?_, ?_, ?_, h.present, h.backed⟩
  · intro outcome hmem
    rcases mem_append.mp hmem with hmem | hmem
    · exact h.unwarned outcome hmem
    · rw [mem_singleton.mp hmem]
      exact nofun
  · intro l content hl hget
    rcases h.kept l content hl hget with hd | ⟨hplans, hopen⟩
    · exact .inl hd
    · refine .inr ⟨hplans, fun outcome hmem hcompleted => ?_⟩
      rcases mem_append.mp hmem with hmem | hmem
      · exact hopen outcome hmem hcompleted
      · rw [mem_singleton.mp hmem] at hcompleted
        cases hcompleted
  · intro hcompleted
    obtain ⟨outcome, hmem, hroot⟩ := h.recorded hcompleted
    exact ⟨outcome, mem_append_left _ hmem, hroot⟩
  · intro hcompleted outcome hmem hskipped
    rcases mem_append.mp hmem with hmem | hmem
    · exact h.undivided hcompleted outcome hmem hskipped
    · rw [mem_singleton.mp hmem]
      by_contra hbelow
      exact hcompleted (hskip hbelow)

theorem Copying.clears (h : Copying move settled items w) {planned : PlannedCopyEntry}
    {disposition : Disposition}
    (hunplanned : disposition = .overwrite → planned.kind = .symlink →
      get w.cells.planned planned.destination = none)
    (hclears : Clears planned disposition w w') : Copying move settled items w' := by
  cases hclears with
  | nothing => exact h
  | link hkind hoverwrite hgone =>
    have hnone := hunplanned hoverwrite hkind
    refine h.takeAway ?_ ?_
    · intro l content hl hsource hget
      rw [hgone l hl] at hsource hget
      rcases h.kept _ content hsource hget with hd | ⟨hplans, -⟩
      · exact hd
      · obtain ⟨entry, hentry, -⟩ := hplans.entry
        simp [hnone] at hentry
    · intro _ l hl
      rw [hgone l hl]
      exact hnone

theorem Copying.complete {w₁ : World} (h : Copying move settled items w₁)
    {recorded : Option Location}
    (hcommitted : ∀ content, PlansFile w₁.cells.planned items work.item.entry.location →
      get w₁.disk.files work.item.entry.location = some (.file content) →
      ∃ d, .committed d content ∈ w₁.disk.log)
    (hrecorded : recorded = w₁.cells.completedRootDestination
      ∨ (recorded ≠ none ∧ work.item.entry.location = move.source
        ∧ ∀ outcome ∈ settled, outcome.2 = .skipped →
          outcome.1.item.entry.location = move.source)) :
    Copying move (settled ++ [(work, .completed)]) items
      { w₁ with cells := { w₁.cells with completedRootDestination := recorded } } := by
  have hskips : (∀ outcome ∈ settled, outcome.2 = .skipped →
        outcome.1.item.entry.location = move.source) →
      ∀ outcome ∈ settled ++ [(work, .completed)], outcome.2 = .skipped →
        outcome.1.item.entry.location = move.source := by
    intro hall outcome hmem hskipped
    rcases mem_append.mp hmem with hmem | hmem
    · exact hall outcome hmem hskipped
    · rw [mem_singleton.mp hmem] at hskipped
      cases hskipped
  refine ⟨?_, h.listed, h.marked, ?_, ?_, ?_, ?_, h.backed⟩
  · intro outcome hmem
    rcases mem_append.mp hmem with hmem | hmem
    · exact h.unwarned outcome hmem
    · rw [mem_singleton.mp hmem]
      exact nofun
  · intro l content hl hget
    rcases h.kept l content hl hget with hd | ⟨hplans, hopen⟩
    · exact .inl hd
    · by_cases hwork : work.item.entry.location = l
      · subst hwork
        exact .inl (hcommitted content hplans hget)
      · refine .inr ⟨hplans, fun outcome hmem hcompleted => ?_⟩
        rcases mem_append.mp hmem with hmem | hmem
        · exact hopen outcome hmem hcompleted
        · rw [mem_singleton.mp hmem]
          exact hwork
  · intro hne
    rcases hrecorded with heq | ⟨-, hroot, -⟩
    · obtain ⟨outcome, hmem, hroot⟩ := h.recorded (heq ▸ hne)
      exact ⟨outcome, mem_append_left _ hmem, hroot⟩
    · exact ⟨(work, .completed), List.mem_append_right _ (mem_singleton.mpr rfl), rfl, hroot⟩
  · intro hne
    rcases hrecorded with heq | ⟨-, -, hall⟩
    · exact hskips (h.undivided (heq ▸ hne))
    · exact hskips hall
  · intro hnone
    rcases hrecorded with heq | ⟨hsome, -⟩
    · exact h.present (heq ▸ hnone)
    · exact absurd hnone hsome

end Steps

theorem clears_frame {planned : PlannedCopyEntry} {disposition : Disposition}
    {w w₀ : World} (h : Clears planned disposition w w₀) :
    w₀.cells = w.cells ∧ w₀.fallback = w.fallback ∧ ∀ l node, get w₀.disk.files l = some node →
        get w.disk.files l = some node := by
  cases h with
  | nothing => exact ⟨rfl, rfl, fun _ _ hl => hl⟩
  | link _ _ _ => exact ⟨rfl, rfl, fun _ _ hl => get_takeAway hl⟩

section Execution

variable {move : MoveExecutor} {items : List PlanItem} {s : State} {w' : World}
  {env : Env} {fuel : Nat} {work : Work} {resolution : Option ConflictResolution}
  {r : Except ExecutionError ExecutionOutcome}

theorem Copying.transferred {planned : PlannedCopyEntry} {disposition : Disposition}
    (h : Copying move s.job.settled items s.world)
    (hplanned : get s.world.cells.planned work.item.entry.location = some planned)
    (hroot : planned.isRoot = true → ¬ SkippedBelow move s.job)
    (hunplanned : disposition = .overwrite → planned.kind = .symlink →
      get s.world.cells.planned planned.destination = none)
    (htransferred : Transferred planned disposition s.world r w') :
    Copying move (s.job.settled ++ outcomeOf work r) items w'
      ∧ w'.fallback = s.world.fallback ∧ ∀ e, r = .error e → NotWarning e := by
  cases htransferred with
  | failed hclears hgrows herror =>
    refine ⟨?_, ?_, ?_⟩
    · show Copying move (s.job.settled ++ []) items w'
      rw [append_nil]
      exact (h.clears hunplanned hclears).grows hgrows
    · rw [hgrows.fallback, (clears_frame hclears).2.1]
    · intro e he
      injection he with he
      exact he ▸ herror
  | @completed w₀ w₁ w' recorded hclears hgrows hcommitted hrecorded hw' =>
    obtain ⟨hcells, hfallback, hfiles⟩ := clears_frame hclears
    refine ⟨?_, ?_, by intro e he; cases he⟩
    case refine_2 =>
      rw [hw']
      show w₁.fallback = _
      rw [hgrows.fallback, hfallback]
    rw [hw']
    refine ((h.clears hunplanned hclears).grows hgrows).complete ?_ ?_
    · -- the item's file has been read, and committed as it was read
      intro content hplans hget
      rcases hgrows.disk.contents _ content hget with hget₀ | hd
      case inr => exact hd
      have hget := hfiles _ _ hget₀
      obtain ⟨entry, hentry, hkind, hsource⟩ := hplans.entry
      have hmap := hgrows.planned work.item.entry.location
      rw [hcells, hentry, hplanned] at hmap
      injection hmap with hsub
      have hkind' : planned.kind = .file := by
        rw [← show entry.kind = planned.kind from congrArg Prod.fst hsub]
        exact hkind
      have hsource' : planned.source.location = work.item.entry.location := by
        rw [← show entry.source = planned.source from congrArg (fun p => p.2.1) hsub]
        exact hsource
      obtain ⟨content', hread, hd⟩ := hcommitted hkind'
      rw [hsource'] at hread
      unfold readFile at hread
      rw [hget] at hread
      injection hread with hread
      exact hread ▸ hd
    · rcases hrecorded with ⟨hisRoot, hsome⟩ | ⟨-, heq⟩
      · refine .inr ⟨hsome, ?_, ?_⟩
        · have hmarked := h.marked _ _ hplanned
          rw [hisRoot] at hmarked
          exact of_decide_eq_true hmarked.symm
        · intro outcome hmem hskipped
          by_contra hbelow
          exact hroot hisRoot ⟨outcome, hmem, hskipped, hbelow⟩
      · exact .inl heq

theorem Copying.execute (h : Copying move s.job.settled items s.world)
    (hprogress : s.job.runner.inProgress = some (work, resolution))
    (hok : Undivided move s (.execute env fuel))
    (hyields : Yields (move.copy.execute env s.job.operation work.item resolution fuel)
      s.world r w') :
    Copying move (s.job.settled ++ outcomeOf work r) items w'
      ∧ w'.fallback = s.world.fallback ∧ ∀ e, r = .error e → NotWarning e := by
  rcases execute_spec rfl hyields with
    ⟨rfl, e, rfl, herror⟩ | ⟨planned, disposition, hplanned, hexamine, hcases⟩
  · refine ⟨?_, rfl, ?_⟩
    · show Copying move (s.job.settled ++ []) items s.world
      rw [append_nil]
      exact h
    · intro e' he
      injection he with he
      exact he ▸ herror
  · have hbranch : branchOf s env = some (planned, disposition) := by
      simp [branchOf, hprogress, hplanned, hexamine, Except.toOption]
    have hok' : BranchUndivided move s (some (planned, disposition)) := hbranch ▸ hok
    rcases hcases with ⟨rfl, rfl, rfl⟩ | ⟨hskip, htransferred⟩
    · refine ⟨h.skip fun hbelow => hok' ?_, rfl, by intro e he; cases he⟩
      rw [h.marked _ _ hplanned]
      exact decide_eq_false hbelow
    · have hboth : (planned.isRoot = true → ¬ SkippedBelow move s.job)
          ∧ (disposition = .overwrite → planned.kind = .symlink →
            get s.world.cells.planned planned.destination = none) := by
        cases disposition with
        | skip => exact absurd rfl hskip
        | _ => exact hok'
      exact h.transferred hplanned hboth.1 hboth.2 htransferred

end Execution

-- ==== the end

namespace CopyExecutor

variable {copy : CopyExecutor} {env : Env} {w' w : World}

theorem reads_preserveDirectories (directories : List (EntryRef × Location)) :
    Reads (copy.preserveDirectories env directories) := by
  induction directories with
  | nil => exact reads_pure
  | cons directory rest ih =>
    unfold preserveDirectories
    refine Reads.bind (Keeps.onlyIf (fun _ => rfl) reads_consult) fun _ => ?_
    exact Reads.bind (Keeps.onlyIf (fun _ => rfl) reads_consult) fun _ => ih

theorem reads_finish : Reads (copy.finish env) := by
  unfold finish
  refine Reads.bind (Keeps.reads (fun _ => rfl) (by intro w e he; cases he)) fun cells => ?_
  exact reads_preserveDirectories _

/-- What cleaning up leaves alone. -/
structure Cleans (w w' : World) : Prop where
  files : w'.disk.files = w.disk.files
  log : w'.disk.log = w.disk.log
  planned : w'.cells.planned = w.cells.planned
  rootName : w'.cells.rootName = w.cells.rootName
  completed : w'.cells.completedRootDestination = w.cells.completedRootDestination
  fallback : w'.fallback = w.fallback

theorem Cleans.grows (h : Cleans w w') : Grows w w' :=
  ⟨grows_of_same h.files h.log, fun l => by rw [h.planned], h.completed, h.fallback⟩

theorem cleanupPartial_spec {r : Except ExecutionError PUnit}
    (h : Yields (cleanupPartial env) w r w') : Cleans w w' := by
  unfold cleanupPartial at h
  rw [yields_gets_bind] at h
  replace h := yields_writes_bind.mp h
  split at h
  case h_1 =>
    obtain ⟨-, rfl⟩ := yields_pure.mp h
    exact ⟨rfl, rfl, rfl, rfl, rfl, rfl⟩
  case h_2 temporary _ =>
    rcases yields_perform h with rfl | ⟨d, hd, rfl⟩
    · exact ⟨rfl, rfl, rfl, rfl, rfl, rfl⟩
    · cases hd
      exact ⟨rfl, rfl, rfl, rfl, rfl, rfl⟩

end CopyExecutor

namespace MoveExecutor

variable {move : MoveExecutor} {env : Env} {w w' : World} {resolution : Option ConflictResolution}
  {operation : Operation} {item : PlanItem} {fuel : Nat} {α : Type}

theorem finish_spec {r : Except ExecutionError PUnit} (h : Yields (move.finish env) w r w') :
    w' = w ∨ (w.cells.completedRootDestination ≠ none
      ∧ ∃ gone, w' = { w with disk := takeAway gone w.disk }) := by
  unfold finish at h
  rw [yields_gets_bind] at h
  split at h
  case isFalse => exact .inl (yields_pure.mp h).2
  case isTrue =>
    rcases yields_bind.mp h with ⟨_, w₂, hfinish, h⟩ | ⟨e, hfinish, -⟩
    case inr => exact .inl (reads_finish _ _ _ hfinish).1.symm
    obtain ⟨rfl, -⟩ := reads_finish _ _ _ hfinish
    split at h
    case isTrue => exact .inl (yields_pure.mp h).2
    case isFalse =>
      unfold removeSource at h
      rw [yields_gets_bind] at h
      split at h
      case h_1 => exact .inl (yields_pure.mp h).2
      case h_2 destination hdestination =>
        rcases yields_bind.mp h with ⟨_, w₄, hinspect, h⟩ | ⟨e, hinspect, -⟩
        case inr => exact .inl (reads_consult _ _ _ hinspect).1.symm
        obtain ⟨rfl, -⟩ := reads_consult _ _ _ hinspect
        rcases (yields_remove h).1 with rfl | ⟨gone, gone', -, -, hw'⟩
        · exact .inl rfl
        · exact .inr ⟨by rw [hdestination]; exact nofun, gone', hw'⟩

/-- A call that leaves `fallback` alone. -/
abbrev KeepsFallback {α : Type} (p : Exec α) : Prop :=
  Keeps (fun w w' : World => w'.fallback = w.fallback) (fun _ => True) p

theorem keepsFallback_bind {β : Type} {p : Exec α} {f : α → Exec β}
    (hp : KeepsFallback p) (hf : ∀ a, KeepsFallback (f a)) : KeepsFallback (p >>= f) :=
  Keeps.bind (fun _ _ _ h h' => h'.trans h) hp hf

theorem keepsFallback_of_reads {p : Exec α} (h : Reads p) : KeepsFallback p := by
  intro w r w' hy
  obtain ⟨rfl, -⟩ := h w r w' hy
  exact ⟨rfl, fun _ _ => trivial⟩

theorem keepsFallback_executeRename :
    KeepsFallback (move.executeRename env operation item resolution fuel) := by
  have hremove : ∀ call location recursive, KeepsFallback (remove env call location recursive) := by
    intro call location recursive w r w' h
    refine ⟨?_, fun _ _ => trivial⟩
    rcases (yields_remove h).1 with rfl | ⟨_, _, -, -, rfl⟩ <;> rfl
  have hperform : ∀ call effect, KeepsFallback (perform env call effect) := by
    intro call effect w r w' h
    refine ⟨?_, fun _ _ => trivial⟩
    rcases yields_perform h with rfl | ⟨_, -, rfl⟩ <;> rfl
  have hread : ∀ {α : Type} (g : World → Except ExecutionError α), KeepsFallback (reads g) := by
    intro α g w r w' h
    obtain ⟨-, rfl⟩ := yields_reads.mp h
    exact ⟨rfl, fun _ _ => trivial⟩
  have hpure : ∀ {α : Type} (a : α), KeepsFallback (pure a : Exec α) :=
    fun a => keepsFallback_of_reads reads_pure
  unfold executeRename
  refine keepsFallback_bind (keepsFallback_of_reads reads_orFail) fun name => ?_
  refine keepsFallback_bind (keepsFallback_of_reads reads_orFail) fun destination => ?_
  refine keepsFallback_bind (hread _) fun disposition => ?_
  split
  case isTrue => exact hpure _
  case isFalse =>
    refine keepsFallback_bind (hread _) fun recursive => ?_
    refine keepsFallback_bind ?_ fun destination' => ?_
    · cases disposition with
      | free | skip => exact hpure _
      | overwrite => exact keepsFallback_bind (hremove _ _ _) fun _ => hpure _
      | renameNew => exact keepsFallback_of_reads reads_nextCopyDestination
    · exact keepsFallback_bind (hperform _ _) fun _ => hpure _

theorem yields_execute {r : Except ExecutionError ExecutionOutcome}
    (h : Yields (move.execute env operation item resolution fuel) w r w') :
    (w.fallback = true ∧ Yields (move.copy.execute env operation item resolution fuel) w r w')
    ∨ (w.fallback = false ∧ w'.fallback = false) := by
  unfold execute at h
  rw [yields_gets_bind] at h
  split at h
  case isTrue hf => exact .inl ⟨hf, h⟩
  case isFalse hf =>
    have hfalse : w.fallback = false := by simpa using hf
    exact .inr ⟨hfalse, (keepsFallback_executeRename _ _ _ h).1.trans hfalse⟩

end MoveExecutor

-- ==== the steps

theorem answer_eq_some {α : Type} {call : Exec α}
    {returns : Except ExecutionError α → Scheduler.Action} (h : answer call returns s = some s') :
    ∃ result, Yields call s.world result s'.world
      ∧ Scheduler.apply false (returns result) s.job = some s'.job := by
  unfold answer at h
  split at h
  case h_1 => cases h
  case h_2 result world hcall =>
    split at h
    case h_1 => cases h
    case h_2 job hjob =>
      cases h
      exact ⟨result, hcall, hjob⟩

theorem job_step {move : MoveExecutor} {a : Action} (h : apply move a s = some s') :
    ∃ action, Scheduler.apply false action s.job = some s'.job := by
  cases a with
  | job action =>
    simp only [apply] at h
    obtain ⟨-, h⟩ := passed h nofun
    split at h
    case h_1 => cases h
    case h_2 job hjob => injection h with h; subst h; exact ⟨action, hjob⟩
  | execute env fuel =>
    simp only [apply] at h
    split at h
    case h_1 => cases h
    case h_2 =>
      obtain ⟨result, -, hjob⟩ := answer_eq_some h
      exact ⟨_, hjob⟩
  | _ =>
    obtain ⟨result, -, hjob⟩ := answer_eq_some h
    exact ⟨_, hjob⟩

theorem isReturn_eq_false {action : Scheduler.Action} (h : isReturn action = false) :
    action.isExecuteReturn = false ∧ action.isPlanReturn = false := by
  cases action with
  | planReturns _ | executeReturns _ | finishReturns _ | cleanupReturns _ => cases h
  | _ => exact ⟨rfl, rfl⟩

section Step

variable {move : MoveExecutor} {tree : FileTree} {s s' : State} {env : Env} {fuel : Nat}

theorem Lossless.of_quiet (h : Lossless move tree s)
    (hplan : s'.job.plan = s.job.plan) (hsettled : s.job.runner.warns = false →
      s'.job.settled = s.job.settled ∧ s'.job.runner.warns = false)
    (huntouched : s.job.plan = none →
      s'.world.disk.files = s.world.disk.files ∧ s'.world.disk.log = s.world.disk.log
        ∧ s'.world.cells.completedRootDestination = s.world.cells.completedRootDestination)
    (hfallback : s'.world.fallback = s.world.fallback) (hcopying : ∀ plan, s.job.plan = some plan →
      Copying move s.job.settled plan.items s.world →
      Copying move s.job.settled plan.items s'.world) : Lossless move tree s' := by
  constructor
  · intro hnone
    rw [hplan] at hnone
    obtain ⟨hfiles, hlog, hcompleted⟩ := huntouched hnone
    rw [hfiles, hlog, hcompleted]
    exact h.untouched hnone
  · intro hf plan hp
    rw [hfallback] at hf
    rw [hplan] at hp
    obtain ⟨hwarns, hc⟩ := h.copying hf plan hp
    obtain ⟨hsettled, hwarns'⟩ := hsettled hwarns
    rw [hsettled]
    exact ⟨hwarns', hcopying plan hp hc⟩

theorem Lossless.job {action : Scheduler.Action} (h : Lossless move tree s)
    (hlife : Scheduler.Lifecycle s.job)
    (hstep : apply move (.job action) s = some s') : Lossless move tree s' := by
  simp only [apply] at hstep
  obtain ⟨hreturn, hstep⟩ := passed hstep nofun
  obtain ⟨hexecute, hplan⟩ := isReturn_eq_false (by simpa using hreturn)
  split at hstep
  case h_1 => cases hstep
  case h_2 job hjob =>
    cases hstep
    have hs := step_of_apply hjob
    exact h.of_quiet (plan_step hlife hs hplan)
      (settled_step hlife hs hexecute) (fun _ => ⟨rfl, rfl, rfl⟩) rfl
      fun _ _ hc => hc

theorem Lossless.plan (h : Lossless move tree s) (hacc : Scheduler.Accounted s.job)
    (hstep : apply move (.plan env fuel) s = some s') : Lossless move tree s' := by
  obtain ⟨result, hyields, hjob⟩ := answer_eq_some hstep
  obtain ⟨hsame, -⟩ := MoveExecutor.plans_plan _ _ _ hyields
  have hrunner := Scheduler.runner_of_planReturns (step_of_apply hjob)
  have hnone := hacc.unannounced none (by rw [hrunner]; rfl)
  obtain ⟨hfiles, hlog, hcompleted⟩ := h.untouched hnone
  rcases result with error | plan
  · simp only [Scheduler.apply, hrunner, Option.some.injEq] at hjob
    constructor
    · intro _
      rw [hsame.disk, hsame.completed]
      exact ⟨hfiles, hlog, hcompleted⟩
    · intro _ plan hp
      rw [← hjob] at hp
      rw [show s.job.plan = some plan from hp] at hnone
      cases hnone
  · simp only [Scheduler.apply, hrunner, Option.some.injEq] at hjob
    constructor
    · intro hp
      simp [← hjob] at hp
    · intro hf plan' hp
      rw [← hjob] at hp
      cases hp
      have htree := MoveExecutor.plan_ok hfiles hyields hf
      have hsettled : s'.job.settled = [] := by
        rw [← hjob]
        show s.job.outcomes ++ [] = []
        rw [hacc.uncounted hnone]
        rfl
      refine ⟨by rw [← hjob]; rfl, ?_⟩
      rw [hsettled]
      refine ⟨by simp, htree.listed, htree.marked, ?_, ?_, ?_, ?_, ?_⟩
      · intro l content hl hget
        rw [hsame.disk, hfiles] at hget
        exact .inr ⟨htree.files l content (under_of_startsWith hl) hget, by simp⟩
      · rw [hsame.completed, hcompleted]
        exact fun hne => absurd rfl hne
      · rw [hsame.completed, hcompleted]
        exact fun hne => absurd rfl hne
      · intro _ l hl
        rw [hsame.disk, hfiles]
        exact htree.present l hl
      · rw [hsame.disk, hlog]
        intro before l content after heq
        simp at heq

theorem Lossless.execute (h : Lossless move tree s) (hlife : Scheduler.Lifecycle s.job)
    (hacc : Scheduler.Accounted s.job) (hok : Undivided move s (.execute env fuel))
    (hstep : apply move (.execute env fuel) s = some s') : Lossless move tree s' := by
  simp only [apply] at hstep
  split at hstep
  case h_1 => cases hstep
  case h_2 work resolution hprogress =>
    obtain ⟨result, hyields, hjob⟩ := answer_eq_some hstep
    have hplan := plan_step hlife (step_of_apply hjob) rfl
    -- there is a plan when an item is executed
    obtain ⟨plan, hp⟩ : ∃ plan, s.job.plan = some plan := by
      obtain ⟨rest, hrest⟩ := Scheduler.remaining_of_inProgress hprogress
      obtain ⟨plan, hp, -⟩ := hacc.remaining _ hrest
      exact ⟨plan, hp⟩
    constructor
    · intro hnone
      rw [hplan, hp] at hnone
      cases hnone
    · intro hf plan' hp'
      rcases MoveExecutor.yields_execute hyields with ⟨hcopies, hyields⟩ | ⟨-, hrenames⟩
      case inr => rw [hrenames] at hf; cases hf
      rw [hplan] at hp'
      obtain ⟨-, hc⟩ := h.copying hcopies plan' hp'
      obtain ⟨hc', -, herror⟩ := hc.execute hprogress hok hyields
      refine ⟨Scheduler.warns_executeReturns (fun entry message heq => herror _ heq) hjob, ?_⟩
      rw [Scheduler.settled_executeReturns hprogress hjob]
      exact hc'

variable {plan : OperationPlan}

theorem exists_outcome (hacc : Scheduler.Accounted s.job)
    (hrunner : s.job.runner = .finishing) (hplan : s.job.plan = some plan) {item : PlanItem}
    (hitem : item ∈ plan.items) : ∃ outcome ∈ s.job.settled, outcome.1.item = item := by
  obtain ⟨plan', hplan', hperm⟩ := hacc.remaining [] (by rw [hrunner]; rfl)
  rw [hplan] at hplan'
  injection hplan' with hplan'
  subst hplan'
  rw [← plan.work_map_item] at hitem
  obtain ⟨work, hwork, rfl⟩ := mem_map.mp hitem
  rw [append_nil] at hperm
  obtain ⟨outcome, houtcome, rfl⟩ := mem_map.mp (hperm.mem_iff.mpr hwork)
  exact ⟨outcome, mem_append_left _ houtcome, rfl⟩

theorem Copying.committed (h : Copying move s.job.settled plan.items s.world)
    (hacc : Scheduler.Accounted s.job) (hrunner : s.job.runner = .finishing)
    (hplan : s.job.plan = some plan) (hcompleted : s.world.cells.completedRootDestination ≠ none)
    {l : Location} {content : Bytes} (hl : l.startsWith move.source = true)
    (hget : get s.world.disk.files l = some (.file content)) :
    ∃ d, .committed d content ∈ s.world.disk.log := by
  rcases h.kept l content hl hget with hd | ⟨hplans, hopen⟩
  · exact hd
  · -- its item has ended, and neither warned nor completed
    obtain ⟨item, hitem, rfl⟩ := hplans.item
    obtain ⟨outcome, hmem, rfl⟩ := exists_outcome hacc hrunner hplan hitem
    cases hending : outcome.2 with
    | warned => exact absurd hending (h.unwarned outcome hmem)
    | completed => exact absurd rfl (hopen outcome hmem hending)
    | skipped =>
      -- so it is the root, which has completed
      have hroot := h.undivided hcompleted outcome hmem hending
      obtain ⟨outcome', hmem', hending', hroot'⟩ := h.recorded hcompleted
      exact absurd (hroot'.trans hroot.symm) (hopen outcome' hmem' hending')

theorem Lossless.finish (h : Lossless move tree s)
    (hlife : Scheduler.Lifecycle s.job) (hacc : Scheduler.Accounted s.job)
    (hstep : apply move (.finish env) s = some s') : Lossless move tree s' := by
  obtain ⟨result, hyields, hjob⟩ := answer_eq_some hstep
  have hs := step_of_apply hjob
  have hrunner := Scheduler.runner_of_finishReturns hs
  have hplanned : s.job.plan ≠ none := by
    obtain ⟨plan, hp, -⟩ := hacc.remaining [] (by rw [hrunner]; rfl)
    rw [hp]
    exact nofun
  have hspec := MoveExecutor.finish_spec hyields
  refine h.of_quiet (plan_step hlife hs rfl)
    (settled_step hlife hs rfl) (fun hnone => absurd hnone hplanned) ?_ ?_
  · rcases hspec with hw | ⟨-, gone, hw⟩ <;> rw [hw]
  · intro plan hp hc
    rcases hspec with hw | ⟨hcompleted, gone, hw⟩
    · rw [hw]
      exact hc
    · rw [hw]
      refine hc.takeAway ?_ fun hnone => absurd hnone hcompleted
      exact fun l content _ hl hget =>
        hc.committed hacc hrunner hp hcompleted hl hget

theorem Lossless.cleanup (h : Lossless move tree s) (hlife : Scheduler.Lifecycle s.job)
    (hstep : apply move (.cleanup env) s = some s') : Lossless move tree s' := by
  obtain ⟨result, hyields, hjob⟩ := answer_eq_some hstep
  have hs := step_of_apply hjob
  have hcleans := cleanupPartial_spec hyields
  exact h.of_quiet (plan_step hlife hs rfl) (settled_step hlife hs rfl)
    (fun _ => ⟨hcleans.files, hcleans.log, hcleans.completed⟩) hcleans.fallback
    fun _ _ hc => hc.grows hcleans.grows

theorem Lossless.step {a : Action} (h : Lossless move tree s) (hlife : Scheduler.Lifecycle s.job)
    (hacc : Scheduler.Accounted s.job) (hok : Undivided move s a)
    (hstep : apply move a s = some s') : Lossless move tree s' := by
  cases a with
  | job action => exact h.job hlife hstep
  | plan env fuel => exact h.plan hacc hstep
  | execute env fuel => exact h.execute hlife hacc hok hstep
  | finish env => exact h.finish hlife hacc hstep
  | cleanup env => exact h.cleanup hlife hstep

end Step

-- ==== the runs

section Run

variable {move : MoveExecutor} {tree : FileTree} {request : Request}
  {now : Timestamp} {acts : List Action} {s : State} {ok : State → Action → Prop}

theorem job_run (hrun : Run (apply move) ok (submitted tree request now) acts s) :
    ∃ actions, Run (Scheduler.apply false) Free (startOperation request now) actions s.job := by
  induction hrun with
  | start => exact ⟨[], .start⟩
  | snoc a _ _ hstep ih =>
    obtain ⟨actions, hjob⟩ := ih
    obtain ⟨action, hnext⟩ := job_step hstep
    exact ⟨_, hjob.snoc action trivial hnext⟩

theorem lossless_run
    (hrun : Run (apply move) (Undivided move) (submitted tree request now) acts s) :
    Lossless move tree s := by
  refine Run.invariant_trace (P := fun _ s => Lossless move tree s) ?_ ?_ hrun
  · exact ⟨fun _ => ⟨rfl, rfl, rfl⟩, by intro hf; cases hf⟩
  · intro acts s s' a hbefore hok hstep h
    obtain ⟨actions, hjob⟩ := job_run hbefore
    have hlife : Scheduler.Lifecycle s.job :=
      Scheduler.run_invariant (P := fun _ s => Scheduler.Lifecycle s) hjob
        (.start request now) fun hlife _ hs _ => hlife.step hs
    exact h.step hlife (Scheduler.accounted_run hjob) hok hstep

/-- In a run of a copy-then-delete move whose steps do not part its
source, every file that is removed was committed before, and every
skipped item is still there. -/
theorem move_loses_nothing
    (hrun : Run (apply move) (Undivided move) (submitted tree request now) acts s)
    (hcopies : s.world.fallback = true) :
    (∀ before l content after, s.world.disk.log = before ++ .removed l content :: after →
        l.startsWith move.source = true →
        ∃ destination, .committed destination content ∈ before)
    ∧ ∀ work, (work, .skipped) ∈ s.job.outcomes →
        work.item.entry.location ≠ move.source →
        get s.world.disk.files work.item.entry.location ≠ none := by
  have hlossless := lossless_run hrun
  obtain ⟨actions, hjob⟩ := job_run hrun
  have hacc := Scheduler.accounted_run hjob
  cases hp : s.job.plan with
  | none =>
    obtain ⟨-, hlog, -⟩ := hlossless.untouched hp
    constructor
    · intro before l content after heq
      rw [hlog] at heq
      simp at heq
    · intro work hmem
      rw [hacc.uncounted hp] at hmem
      cases hmem
  | some plan =>
    obtain ⟨-, hc⟩ := hlossless.copying hcopies plan hp
    refine ⟨hc.backed, fun work hmem hbelow => ?_⟩
    have hsettled : (work, Ending.skipped) ∈ s.job.settled := List.mem_append_left _ hmem
    -- with an item below it skipped, the root has not been recorded
    have hnone : s.world.cells.completedRootDestination = none := by
      by_contra hcompleted
      exact hbelow (hc.undivided hcompleted _ hsettled rfl)
    have hwork : work ∈ plan.work := (hacc.counted plan hp).subset (List.mem_map.mpr ⟨_, hmem, rfl⟩)
    have hitem : work.item ∈ plan.items := by
      rw [← plan.work_map_item]
      exact List.mem_map.mpr ⟨work, hwork, rfl⟩
    exact hc.present hnone _ (hc.listed _ hitem)

end Run

-- ==== sample moves

/-- A place on the local filesystem. -/
def localPath (segments : List String) : Location where
  providerId := "local"
  uri := { authority := "", segments := segments }

/-- The move of the directory `/src/d` into `/dst`, across volumes. -/
def sampleMove : MoveExecutor where
  source := localPath ["src", "d"]
  destinationDirectory := localPath ["dst"]
  symlinkPolicy := .copyLink
  forceFallback := true
  transfer := { serverSideCopy := true, serverSideMove := true, sameEndpoint := true }

def sampleMoveRequest (policy : ConflictPolicy) : Request where
  id := 1
  kind := .move
  sources := [{ id := 0, location := localPath ["src", "d"] }]
  destination := some (localPath ["dst"])
  conflictPolicy := policy

/-- `/src/d/f`, to be moved into an empty directory. -/
def sampleTree : FileTree :=
  .ofNodes
    [(localPath [], .directory), (localPath ["src"], .directory),
      (localPath ["src", "d"], .directory), (localPath ["src", "d", "f"], .file [1]),
      (localPath ["dst"], .directory)]
    (by decide +kernel) (by decide +kernel)

/-- `/src/d/f`, to be moved where there is a `d` with another `f`. -/
def sampleMerge : FileTree :=
  .ofNodes
    [(localPath [], .directory), (localPath ["src"], .directory),
      (localPath ["src", "d"], .directory), (localPath ["src", "d", "f"], .file [1]),
      (localPath ["dst"], .directory), (localPath ["dst", "d"], .directory),
      (localPath ["dst", "d", "f"], .file [2])]
    (by decide +kernel) (by decide +kernel)

def runnerSteps (count : Nat) : List Action := List.replicate count (.job .runner)

/-- From the queue to the first item. -/
def planScript : List Action := runnerSteps 3 ++ [.plan .quiet 5] ++ runnerSteps 2

/-- One item of the first pass that has an outcome, counted. -/
def itemScript : List Action :=
  runnerSteps 3 ++ [.execute .quiet 5] ++ runnerSteps 1
    ++ [.job (.recordItem none)] ++ runnerSteps 1

/-- From the end of the first pass, nothing deferred, to the end. -/
def endScript : List Action := runnerSteps 4 ++ [.finish .quiet] ++ runnerSteps 1

/-- A directory of one file moves into a free place, and it stays where
it is when both are skipped. -/
theorem move_loses_nothing_one_file :
    (∃ acts s, Run (apply sampleMove) (Undivided sampleMove)
        (submitted sampleTree (sampleMoveRequest .ask) 0) acts s
      ∧ s.job.operation.state = .completed
      ∧ s.world.disk.log = [.committed (localPath ["dst", "d", "f"]) [1],
        .removed (localPath ["src", "d", "f"]) [1]]
      ∧ ∀ before l content after, s.world.disk.log = before ++ .removed l content :: after →
        l.startsWith sampleMove.source = true →
        ∃ destination, .committed destination content ∈ before)
    ∧ ∃ acts s, Run (apply sampleMove) (Undivided sampleMove)
        (submitted sampleMerge (sampleMoveRequest .skip) 0) acts s
      ∧ s.job.operation.state = .completed
      ∧ s.job.outcomes.map Prod.snd = [.skipped, .skipped]
      ∧ ∀ work, (work, .skipped) ∈ s.job.outcomes →
        work.item.entry.location ≠ sampleMove.source →
        get s.world.disk.files work.item.entry.location ≠ none := by
  constructor
  · obtain ⟨s, hrun, hcopies, hstate, hlog⟩ := Run.exists_of_guardedRun
      (show (guardedRun (apply sampleMove) (Undivided sampleMove)
          (submitted sampleTree (sampleMoveRequest .ask) 0)
          (planScript ++ itemScript ++ itemScript ++ endScript)).any
        (fun s => decide (s.world.fallback = true ∧ s.job.operation.state = .completed
          ∧ s.world.disk.log = [.committed (localPath ["dst", "d", "f"]) [1],
            .removed (localPath ["src", "d", "f"]) [1]])) = true from by
        decide +kernel)
    exact ⟨_, s, hrun, hstate, hlog, (move_loses_nothing hrun hcopies).1⟩
  · obtain ⟨s, hrun, hcopies, hstate, houtcomes⟩ := Run.exists_of_guardedRun
      (show (guardedRun (apply sampleMove) (Undivided sampleMove)
          (submitted sampleMerge (sampleMoveRequest .skip) 0)
          (planScript ++ itemScript ++ itemScript ++ endScript)).any
        (fun s => decide (s.world.fallback = true ∧ s.job.operation.state = .completed
          ∧ s.job.outcomes.map Prod.snd = [.skipped, .skipped])) = true from by
        decide +kernel)
    exact ⟨_, s, hrun, hstate, houtcomes, (move_loses_nothing hrun hcopies).2⟩

/-- The first pass over the root and its file, both of which collide:
the root's conflict is answered with `Overwrite`. -/
def collideScript : List Action :=
  runnerSteps 3 ++ [.execute .quiet 5] ++ runnerSteps 4
    ++ [.job (.resolveConflict .overwrite false)]
    ++ runnerSteps 3 ++ [.execute .quiet 5] ++ runnerSteps 2

/-- The deferred pass: the root is merged, the file's conflict is
answered with `Skip`. -/
def deferredScript : List Action :=
  runnerSteps 7 ++ [.execute .quiet 5] ++ runnerSteps 5
    ++ [.job (.resolveConflict .skip false)] ++ runnerSteps 4
    ++ [.execute .quiet 5]

/-- A file that the user chose to skip is removed with the source, its
bytes committed nowhere. -/
theorem skipped_file_is_removed :
    ∃ acts s, Run (apply sampleMove) Free (submitted sampleMerge (sampleMoveRequest .ask) 0) acts s
      ∧ s.world.fallback = true
      ∧ s.job.operation.state = .completed
      ∧ s.world.disk.log = [.removed (localPath ["src", "d", "f"]) [1]]
      ∧ (∃ outcome ∈ s.job.outcomes, outcome.2 = .skipped
        ∧ outcome.1.item.entry.location = localPath ["src", "d", "f"])
      ∧ get s.world.disk.files (localPath ["src", "d", "f"]) = none := by
  refine ⟨planScript ++ collideScript ++ deferredScript ++ endScript, ?_⟩
  exact Run.exists_of_run (by decide +kernel)

end FileManager.Transfers
