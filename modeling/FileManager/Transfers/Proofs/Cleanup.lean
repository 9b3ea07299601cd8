/-
No temporary survives an operation that goes on after no error of a
staged file: the invariant of a group's job, its runs, and the run that
leaves a temporary behind.

Between two calls nothing is staged, or what is staged is in a slot and
the runner is on its way to `cleanup_partial`, which goes through all
the slots.
-/
import FileManager.Transfers.Proofs.Groups
import FileManager.Transfers.Proofs.Temporaries

namespace FileManager.Transfers

open Fallible Machine SameSlot Keeps
open Scheduler (ExecutionError ExecutionOutcome PlanItem Request step_of_apply)

variable {r : Except ExecutionError PUnit} {group : Group} {s s' : GroupState}
  {resolution : Option ConflictResolution} {work : Scheduler.Work} {env : Env} {i : Nat}

-- ==== planning and finishing

namespace CopyExecutor

variable {copy : CopyExecutor} {env : Env} {operation : Operation} {fuel : Nat}

theorem keepsSlot_plan : KeepsSlot (copy.plan env operation fuel) := by
  unfold plan
  refine bind trans (keepsSlot_of_reads reads_sourceOf) fun source => ?_
  refine bind trans (keepsSlot_of_reads reads_consult) fun summary => ?_
  refine bind trans keepsSlot_reads fun cells => ?_
  refine bind trans (keepsSlot_of_reads reads_orFail) fun rootDestination => ?_
  refine bind trans (onlyIf refl (keepsSlot_of_reads reads_orFail)) fun _ => ?_
  refine bind trans ?_ fun st => ?_
  · intro w r w' h
    obtain ⟨rfl, -⟩ := yields_runPlanning h
    exact ⟨.refl _, fun _ _ => trivial⟩
  refine bind trans (keepsSlot_setCells fun _ => rfl) fun _ => ?_
  split
  case isTrue => exact pure refl
  case isFalse => exact stuck

end CopyExecutor

namespace MoveExecutor

variable {move : MoveExecutor} {env : Env} {operation : Operation} {fuel : Nat}

theorem keepsSlot_plan : KeepsSlot (move.plan env operation fuel) := by
  unfold plan
  refine bind trans (keepsSlot_of_reads reads_orFail) fun name => ?_
  refine bind trans (keepsSlot_of_reads reads_orFail) fun destination => ?_
  refine bind trans (keepsSlot_of_reads reads_orFail) fun _ => ?_
  refine bind trans ?_ fun sameFilesystem => ?_
  · unfold onSameFilesystem
    split
    case isTrue => exact keepsSlot_of_reads reads_consult
    case isFalse => exact pure refl
  refine bind trans (writes fun w => ⟨rfl, rfl⟩) fun _ => ?_
  split
  case isTrue => exact pure refl
  case isFalse => exact CopyExecutor.keepsSlot_plan

theorem keepsSlot_executeRename {item : PlanItem} {resolution : Option ConflictResolution} :
    KeepsSlot (move.executeRename env operation item resolution fuel) := by
  unfold executeRename
  refine bind trans (keepsSlot_of_reads reads_orFail) fun name => ?_
  refine bind trans (keepsSlot_of_reads reads_orFail) fun destination => ?_
  refine bind trans keepsSlot_reads fun disposition => ?_
  split
  case isTrue => exact pure refl
  case isFalse =>
    refine bind trans keepsSlot_reads fun recursive => ?_
    refine bind trans ?_ fun destination' => ?_
    · cases disposition with
      | free | skip => exact pure refl
      | overwrite =>
        exact bind trans keepsSlot_remove fun _ => pure refl
      | renameNew =>
        exact keepsSlot_of_reads CopyExecutor.reads_nextCopyDestination
    · exact bind trans (keepsSlot_perform fun _ _ => staged_rename) fun _ => pure refl

theorem keepsSlot_finish : KeepsSlot (move.finish env) := by
  intro w r w' h
  refine ⟨?_, fun _ _ => trivial⟩
  rcases finish_spec h with rfl | ⟨-, gone, rfl⟩
  · exact .refl _
  · exact ⟨rfl, rfl⟩

end MoveExecutor

namespace Member

variable {member : Member} {env : Env} {operation : Operation} {fuel : Nat}

theorem reads_duplicateFrom {directory : Location} {name : String}
    (fuel index : Nat) : Reads (duplicateFrom env directory name fuel index) := by
  induction fuel generalizing index with
  | zero => exact stuck
  | succ fuel ih =>
    unfold duplicateFrom
    refine Reads.bind reads_orFail fun destination => ?_
    refine Reads.bind (reads (fun _ => rfl) (by intro w e he; cases he)) fun found => ?_
    split
    case h_1 => exact reads_pure
    case h_2 => exact ih _
    case h_3 => exact reads_throw trivial

theorem keepsSlot_plan : KeepsSlot (member.plan env operation fuel) := by
  cases member with
  | copy executor => exact CopyExecutor.keepsSlot_plan
  | move executor => exact MoveExecutor.keepsSlot_plan
  | duplicate executor =>
    show KeepsSlot (planDuplicate executor env operation fuel)
    unfold planDuplicate
    refine bind trans ?_ fun source => ?_
    · unfold duplicateSource
      split
      case h_1 => exact pure refl
      case h_2 => exact throw refl trivial
    refine bind trans (keepsSlot_of_reads reads_orFail) fun name => ?_
    refine bind trans (keepsSlot_of_reads (reads_duplicateFrom _ _)) fun rootName => ?_
    refine bind trans (keepsSlot_setCells fun _ => rfl) fun _ => ?_
    exact CopyExecutor.keepsSlot_plan

theorem keepsSlot_finish : KeepsSlot (member.finish env) := by
  cases member with
  | copy executor | duplicate executor =>
    exact keepsSlot_of_reads CopyExecutor.reads_finish
  | move executor => exact MoveExecutor.keepsSlot_finish

theorem tidy_execute (hdiscard : env.fault .discardCopy = none) {item : PlanItem}
    {resolution : Option ConflictResolution} {w w' : World}
    {r : Except ExecutionError ExecutionOutcome} (hnil : w.disk.staged = [])
    (h : Yields (member.execute env operation item resolution fuel) w r w') :
    Tidy (CopyExecutor.Warns r
      ∧ CopyExecutor.Mended member.copier env operation item resolution w) r w' := by
  cases member with
  | copy executor | duplicate executor =>
    exact CopyExecutor.tidy_execute hdiscard hnil h
  | move executor =>
    unfold execute MoveExecutor.execute at h
    rw [yields_gets_bind] at h
    split at h
    case isTrue => exact CopyExecutor.tidy_execute hdiscard hnil h
    case isFalse =>
      exact tidy_of_nil ((MoveExecutor.keepsSlot_executeRename _ _ _ h).1.staged.trans hnil)

end Member

-- ==== the cleanup

def GroupWorld.Slotted (g : GroupWorld) : Prop :=
  ∀ entry ∈ g.disk.staged, ∃ (i : Nat) (seat : Seat), g.seats[i]? = some seat
    ∧ seat.cells.temporary = some entry.1

open GroupWorld

theorem cleanupPartial_slot (hdiscard : env.fault .discardCopy = none) {w w' : World}
    (h : Yields (CopyExecutor.cleanupPartial env) w r w') :
    r = .ok ⟨⟩ ∧ (∀ entry ∈ w'.disk.staged, entry ∈ w.disk.staged
      ∧ w.cells.temporary ≠ some entry.1) := by
  unfold CopyExecutor.cleanupPartial at h
  rw [yields_gets_bind] at h
  replace h := yields_writes_bind.mp h
  cases htemporary : w.cells.temporary with
  | none =>
    rw [htemporary] at h
    obtain ⟨rfl, rfl⟩ := yields_pure.mp h
    exact ⟨rfl, fun entry hentry => ⟨hentry, nofun⟩⟩
  | some temporary =>
    rw [htemporary] at h
    obtain ⟨rfl, rfl⟩ := yields_perform_of_quiet hdiscard h rfl
    refine ⟨rfl, fun entry hentry => ?_⟩
    obtain ⟨hmem, hne⟩ := List.mem_filter.mp hentry
    refine ⟨hmem, fun heq => ?_⟩
    injection heq with heq
    simp [heq] at hne

theorem eachMember_cleanup {envs : Nat → Env} (hdiscard : ∀ i, (envs i).fault .discardCopy = none)
    {members : List Member} {g g' : GroupWorld}
    (h : Yields (Group.eachMember (fun j _ => CopyExecutor.cleanupPartial (envs j)) i members) g r
      g') :
    r = .ok ⟨⟩ ∧ g'.seats.length = g.seats.length ∧ ∀ entry ∈ g'.disk.staged, entry ∈ g.disk.staged
        ∧ ∀ j seat, i ≤ j → j < i + members.length → g.seats[j]? = some seat →
          seat.cells.temporary ≠ some entry.1 := by
  induction members generalizing i g with
  | nil =>
    obtain ⟨rfl, rfl⟩ := yields_pure.mp h
    refine ⟨rfl, rfl, fun entry hentry => ⟨hentry, fun j seat hle hlt => ?_⟩⟩
    simp only [List.length_nil] at hlt
    omega
  | cons member rest ih =>
    unfold Group.eachMember at h
    rcases yields_bind.mp h with ⟨_, g₁, hfirst, h⟩ | ⟨e, hfirst, -⟩
    case inr =>
      obtain ⟨seat, w, -, hcall, -⟩ := yields_onSeat.mp hfirst
      cases (cleanupPartial_slot (hdiscard i) hcall).1
    obtain ⟨seat, w, hseat, hcall, rfl⟩ := yields_onSeat.mp hfirst
    obtain ⟨-, hcleaned⟩ := cleanupPartial_slot (hdiscard i) hcall
    obtain ⟨hr, hlength, hrest⟩ := ih h
    refine ⟨hr, by rw [hlength, length_after], fun entry hentry => ?_⟩
    obtain ⟨hmem, hslots⟩ := hrest entry hentry
    obtain ⟨hbefore, hslot⟩ := hcleaned entry hmem
    refine ⟨hbefore, fun j seat' hle hlt hseat' => ?_⟩
    by_cases hj : j = i
    · subst hj
      rw [hseat] at hseat'
      injection hseat' with hseat'
      rw [← hseat']
      exact hslot
    · rw [List.length_cons] at hlt
      refine hslots j seat' (by omega) (by omega) ?_
      rw [after_ne (Ne.symm hj)]
      exact hseat'

-- ==== the invariant

/-- `discard_copy` succeeds. -/
def Discards : GroupAction → Prop
  | .execute env _ => env.fault .discardCopy = none
  | .cleanup envs => ∀ i, (envs i).fault .discardCopy = none
  | .job _ | .plan _ _ | .finish _ => True

/-- A nested file that is copied in the first pass, in a copy that goes
on after errors, does not fail once it is staged; a cancelled job cleans
up after any error. -/
def Unfailing (group : Group) (s : GroupState) : GroupAction → Prop
  | .execute env _ => s.job.cancellation = false →
      ∀ resolution work todo deferred, s.job.runner = .executing resolution work todo deferred →
        ∀ i member seat, group.owner s.world work.item.entry.location = some (i, member) →
          s.world.seats[i]? = some seat →
          CopyExecutor.Mended member.copier (env.heeding false) s.job.operation
            work.item resolution (s.world.at seat)
  | .job _ | .plan _ _ | .finish _ | .cleanup _ => True

/-- Nothing is staged, or it is about to be cleaned up. -/
structure Tracked (group : Group) (s : GroupState) : Prop where
  seats : s.world.seats.length = group.members.length
  staged : s.world.disk.staged = []
    ∨ (s.world.Slotted ∧ s.job.runner.cleansUp s.job.cancellation = true)

theorem Tracked.nil (h : Tracked group s)
    (hrunner : s.job.runner.cleansUp s.job.cancellation = false) : s.world.disk.staged = [] := by
  rcases h.staged with hnil | ⟨-, hcleans⟩
  · exact hnil
  · simp [hcleans] at hrunner

theorem nil_of_keepsSlot {α : Type} {n : Nat} {p : Exec α} (hp : KeepsSlot p) (g : GroupWorld)
    (r : Except ExecutionError α) (g' : GroupWorld) (h : g.disk.staged = [] ∧ g.seats.length = n)
    (hy : Yields (onSeat i p) g r g') : g'.disk.staged = [] ∧ g'.seats.length = n := by
  obtain ⟨seat, w, -, hcall, rfl⟩ := yields_onSeat.mp hy
  obtain ⟨hsame, -⟩ := hp _ _ _ hcall
  exact ⟨hsame.staged.trans h.1, by rw [length_after]; exact h.2⟩

theorem inProgress_not_cleansUp {runner : Scheduler.Runner} {cancelled : Bool}
    (h : runner.inProgress = some (work, resolution)) : runner.cleansUp cancelled = false := by
  cases runner with
  | executing _ _ _ _ | retrying _ _ _ => rfl
  | _ => cases h

theorem Tracked.execute {fuel : Nat} (h : Tracked group s)
    (hdiscards : Discards (.execute env fuel)) (hunfailing : Unfailing group s (.execute env fuel))
    {result : Except ExecutionError ExecutionOutcome}
    (hprogress : s.job.runner.inProgress = some (work, resolution))
    (hcall : Yields (group.execute (env.heeding s.job.cancellation) s.job.operation work.item
      resolution fuel) s.world result s'.world)
    (hjob : Scheduler.apply false (.executeReturns result) s.job = some s'.job) :
    Tracked group s' := by
  have hnil := h.nil (inProgress_not_cleansUp hprogress)
  rcases Group.yields_execute hcall with ⟨hw, -, -⟩ | ⟨hw, -⟩
    | ⟨i, member, howner, -, hseat⟩
  · rw [← hw] at hnil
    exact ⟨by rw [hw]; exact h.seats, .inl hnil⟩
  · rw [← hw] at hnil
    exact ⟨by rw [hw]; exact h.seats, .inl hnil⟩
  · obtain ⟨seat, w, hget, hmember, hw⟩ := yields_onSeat.mp hseat
    have htidy := Member.tidy_execute
      (show (env.heeding s.job.cancellation).fault .discardCopy = none from hdiscards)
      hnil hmember
    refine ⟨by rw [hw, length_after]; exact h.seats, ?_⟩
    rw [hw]
    by_cases hleft : w.disk.staged = []
    · exact .inl hleft
    · -- the result ends the job, or is a warning that a cancellation overtakes
      refine .inr ⟨?_, Scheduler.cleansUp_executeReturns hjob ?_⟩
      · intro entry hentry
        exact ⟨i, _, after_self hget, htidy.slotted entry hentry⟩
      · cases result with
        | ok outcome => exact absurd (htidy.settled trivial) hleft
        | error error =>
          refine ⟨error, rfl, ?_, ?_⟩
          · intro conflict hconflict
            subst hconflict
            exact hleft (htidy.settled trivial)
          · intro hfound
            obtain ⟨entry, message, rfl⟩ := hfound
            by_contra hopen
            simp only [not_or, Bool.not_eq_true, not_forall, not_not] at hopen
            obtain ⟨hcancelled, resolution', work', todo, deferred, hrunner⟩ := hopen
            rw [hrunner] at hprogress
            injection hprogress with hprogress
            injection hprogress with hwork hresolution
            subst hwork hresolution
            have hmended := hunfailing hcancelled _ _ _ _ hrunner i member seat howner hget
            rw [hcancelled] at htidy
            exact hleft (htidy.mended ⟨trivial, hmended⟩)

theorem Tracked.step {a : GroupAction} (h : Tracked group s) (hdiscards : Discards a)
    (hunfailing : Unfailing group s a) (hstep : Group.Steps group s a s') : Tracked group s' := by
  cases hstep with
  | job hreturn hworld hjob =>
    refine ⟨by rw [hworld]; exact h.seats, ?_⟩
    rw [hworld]
    rcases h.staged with hnil | ⟨hslotted, hcleans⟩
    · exact .inl hnil
    · refine .inr ⟨hslotted, Scheduler.cleansUp_step (step_of_apply hjob) ?_ hcleans⟩
      cases ‹Scheduler.Action› with
      | cleanupReturns _ => cases hreturn
      | _ => rfl
  | plan hcall hjob =>
    have hrunner := Scheduler.runner_of_planReturns (step_of_apply hjob)
    have hnil := h.nil (by rw [hrunner]; rfl)
    obtain ⟨hnil', hlength⟩ := Group.keeps_plan
      (P := fun g => g.disk.staged = [] ∧ g.seats.length = group.members.length)
      (fun j member _ => nil_of_keepsSlot Member.keepsSlot_plan)
      (fun _ _ hP => hP) ⟨hnil, h.seats⟩ hcall
    exact ⟨hlength, .inl hnil'⟩
  | execute hprogress hcall hjob =>
    exact h.execute hdiscards hunfailing hprogress hcall hjob
  | finish hcall hjob =>
    have hrunner := Scheduler.runner_of_finishReturns (step_of_apply hjob)
    have hnil := h.nil (by rw [hrunner]; rfl)
    obtain ⟨hnil', hlength⟩ := Group.keeps_eachMember
      (P := fun g => g.disk.staged = [] ∧ g.seats.length = group.members.length)
      (fun j member _ => nil_of_keepsSlot Member.keepsSlot_finish)
      ⟨hnil, h.seats⟩ hcall
    exact ⟨hlength, .inl hnil'⟩
  | cleanup hcall hjob =>
    obtain ⟨-, hlength, hcleaned⟩ := eachMember_cleanup hdiscards hcall
    refine ⟨hlength.trans h.seats, .inl ?_⟩
    rw [List.eq_nil_iff_forall_not_mem]
    intro entry hentry
    obtain ⟨hmem, hslots⟩ := hcleaned entry hentry
    rcases h.staged with hnil | ⟨hslotted, -⟩
    · simp [hnil] at hmem
    · obtain ⟨i, seat, hseat, hslot⟩ := hslotted entry hmem
      obtain ⟨hlt, -⟩ := List.getElem?_eq_some_iff.mp hseat
      refine hslots i seat (Nat.zero_le i) ?_ hseat hslot
      rw [Nat.zero_add, ← h.seats]
      exact hlt

-- ==== the runs

section Run

variable {tree : FileTree} {request : Request} {now : Timestamp} {acts : List GroupAction}

theorem tracked_run
    (hrun : Run group.apply (fun s a => Discards a ∧ Unfailing group s a)
      (group.submitted tree request now) acts s) : Tracked group s := by
  refine Run.invariant (P := Tracked group) ?_ ?_ hrun
  · exact ⟨by simp [Group.submitted], .inl rfl⟩
  · intro s s' a hok hstep h
    exact h.step hok.1 hok.2 (Group.steps_of_apply hstep)

/-- In a run in which no nested file of a copy that goes on after errors
fails once it is staged, no temporary is left when the operation is
terminal. -/
theorem no_temporary_survives
    (hrun : Run group.apply (fun s a => Discards a ∧ Unfailing group s a)
      (group.submitted tree request now) acts s)
    (hterminal : s.job.operation.state.isTerminal = true) :
    s.world.disk.staged = [] := by
  have hrunner := (Group.lifecycle_run hrun).done hterminal
  exact (tracked_run hrun).nil (by rw [hrunner]; rfl)

end Run

-- ==== sample runs

/-- The transfer of a file breaks off. -/
def brokenTransfer : Env :=
  { Env.quiet with
    fault := fun call =>
      if call = .transfer then some { error := .io "broken pipe", applied := false }
      else none }

/-- That many steps of the runner. -/
def groupSteps (count : Nat) : List GroupAction := List.replicate count (.job .runner)

/-- From the queue to the first item. -/
def groupPlanScript : List GroupAction :=
  groupSteps 3 ++ [.plan (fun _ => .quiet) 5] ++ groupSteps 2

/-- One item of the first pass, up to its result. -/
def groupItemScript (env : Env) : List GroupAction :=
  groupSteps 3 ++ [.execute env 5] ++ groupSteps 1

/-- The moves of `sampleMove`, as an operation. -/
def sampleMoveGroup : Group := .moveGroup [sampleMove]

theorem sampleMoveGroup_unfailing (s : GroupState) (a : GroupAction) :
    Unfailing sampleMoveGroup s a := by
  cases a with
  | execute env fuel =>
    intro _ resolution work todo deferred _ i member seat howner _ planned _ hgoes
    obtain ⟨hmem, -⟩ := Group.ownerFrom_eq_some howner
    have hmember : member = .move sampleMove := by simpa [sampleMoveGroup, Group.members] using hmem
    rw [hmember] at hgoes
    cases hgoes
  | _ => exact trivial

/-- A move of a directory of one file, whose transfer breaks off. -/
def brokenMoveScript : List GroupAction :=
  groupPlanScript ++ groupItemScript .quiet ++ [.job (.recordItem none)]
    ++ groupSteps 1 ++ groupItemScript brokenTransfer ++ groupSteps 1
    ++ [.cleanup fun _ => .quiet] ++ groupSteps 1

theorem brokenMoveScript_discards : ∀ a ∈ brokenMoveScript, Discards a := by
  simp [brokenMoveScript, groupPlanScript, groupItemScript, groupSteps, Discards,
    brokenTransfer, Env.quiet, or_imp, forall_and]

/-- A move whose transfer breaks off has failed, and left nothing of the
part that had been staged. -/
theorem no_temporary_survives_broken_move :
    ∃ acts s, Run sampleMoveGroup.apply (fun s a => Discards a ∧ Unfailing sampleMoveGroup s a)
        (sampleMoveGroup.submitted sampleTree (sampleMoveRequest .ask) 0) acts s
      ∧ s.job.operation.state = .failed
      ∧ s.world.disk.staged = [] := by
  obtain ⟨s, hfree, hstate⟩ : ∃ s, Run sampleMoveGroup.apply Free
      (sampleMoveGroup.submitted sampleTree (sampleMoveRequest .ask) 0)
      brokenMoveScript s ∧ s.job.operation.state = .failed :=
    Run.exists_of_run (by decide +kernel)
  have hrun : Run sampleMoveGroup.apply (fun s a => Discards a ∧ Unfailing sampleMoveGroup s a)
      (sampleMoveGroup.submitted sampleTree (sampleMoveRequest .ask) 0)
      brokenMoveScript s :=
    hfree.of_forall fun a ha s =>
      ⟨brokenMoveScript_discards a ha, sampleMoveGroup_unfailing s a⟩
  exact ⟨_, s, hrun, hstate, no_temporary_survives hrun (by rw [hstate]; rfl)⟩

/-- The copy of the directory `/src/d` into `/dst`, as an operation. -/
def sampleCopyGroup : Group :=
  .copyGroup [{ destinationDirectory := localPath ["dst"]
                symlinkPolicy := .copyLink
                sourceOverride := some (localPath ["src", "d"])
                continueOnError := true
                transfer := sampleMove.transfer }]

def sampleCopyRequest (policy : ConflictPolicy) : Request :=
  { sampleMoveRequest policy with kind := .copy }

/-- A copy of a directory of one file, whose transfer breaks off. -/
def brokenCopyScript : List GroupAction :=
  groupPlanScript ++ groupItemScript .quiet ++ [.job (.recordItem none)]
    ++ groupSteps 1 ++ groupItemScript brokenTransfer ++ groupSteps 1
    ++ [.job (.recordItem none)] ++ groupSteps 5 ++ [.finish fun _ => .quiet]
    ++ groupSteps 1

/-- A nested file whose transfer breaks off leaves its temporary behind:
the copy goes on, and completes with a warning. -/
theorem broken_copy_leaves_temporary :
    ∃ acts s, Run sampleCopyGroup.apply (fun _ a => Discards a)
        (sampleCopyGroup.submitted sampleTree (sampleCopyRequest .ask) 0) acts s
      ∧ s.job.operation.state = .completedWithWarnings
      ∧ s.world.disk.staged = [(localPath ["dst", ".fm-copy-0"], [])] := by
  obtain ⟨s, hfree, hend⟩ : ∃ s, Run sampleCopyGroup.apply Free
      (sampleCopyGroup.submitted sampleTree (sampleCopyRequest .ask) 0)
      brokenCopyScript s ∧ (s.job.operation.state = .completedWithWarnings
        ∧ s.world.disk.staged = [(localPath ["dst", ".fm-copy-0"], [])]) :=
    Run.exists_of_run (by decide +kernel)
  refine ⟨_, s, hfree.of_forall fun a ha s => ?_, hend⟩
  revert a
  simp [brokenCopyScript, groupPlanScript, groupItemScript, groupSteps, Discards,
    brokenTransfer, Env.quiet, or_imp, forall_and]

end FileManager.Transfers
