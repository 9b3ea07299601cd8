/-
What becomes of the temporaries that `copy_file` stages.

# The argument

An executor remembers one temporary, in a slot that every copied file
overwrites, and only `cleanup_partial` looks there. So nothing is left
behind as long as nothing is staged between two calls of `execute`: a
call that begins with nothing staged leaves at most the temporary in its
slot (`Slotted`), and none if it succeeds or raises a conflict. Any other
error ends the job, by way of `cleanup_partial`; a warning does not.
`Unbroken` says that a nested file does not fail between the staging and
the commit.
-/
import FileManager.Transfers.Proofs.Lossless

namespace FileManager.Transfers

open Fallible Machine Keeps
open Scheduler (ExecutionError ExecutionOutcome PlanItem)
open False (elim)

variable {temporary : Location} {w w' : World} {effect : Disk → Except VfsError Disk} {call : Call}
  {env : Env}

-- ==== the slot

/-- Nothing is staged but that temporary. -/
def StagesAtMost (temporary : Location) (w : World) : Prop :=
  ∀ entry ∈ w.disk.staged, entry.1 = temporary

def Slotted (w : World) : Prop := ∀ entry ∈ w.disk.staged, w.cells.temporary = some entry.1

theorem stagesAtMost_of_nil (h : w.disk.staged = []) : StagesAtMost temporary w := by
  intro entry hentry
  simp [h] at hentry

theorem slotted_of_nil (h : w.disk.staged = []) : Slotted w := by
  intro entry hentry
  simp [h] at hentry

theorem StagesAtMost.slotted (h : StagesAtMost temporary w)
    (hslot : w.cells.temporary = some temporary) : Slotted w := by
  intro entry hentry
  rw [hslot, h entry hentry]

theorem StagesAtMost.keep_eq_nil (h : StagesAtMost temporary w) :
    Keyed.keep w.disk.staged (· ≠ temporary) = [] := by
  unfold Keyed.keep
  rw [List.filter_eq_nil_iff]
  intro entry hentry
  simp [h entry hentry]

theorem StagesAtMost.stage {content : Bytes} (h : StagesAtMost temporary w) :
    StagesAtMost temporary { w with disk := stage temporary content w.disk } := by
  intro entry hentry
  rcases Keyed.mem_put hentry with rfl | hentry
  · rfl
  · exact h entry hentry

theorem StagesAtMost.eq_nil_of_get (h : StagesAtMost temporary w)
    (hget : Keyed.get w.disk.staged temporary = none) : w.disk.staged = [] := by
  cases hstaged : w.disk.staged with
  | nil => rfl
  | cons entry rest =>
    have hkey := h entry (by rw [hstaged]; exact List.mem_cons_self)
    rw [hstaged] at hget
    simp [Keyed.get, hkey] at hget

/-- The staged files and the slot are as before. -/
structure SameSlot (w w' : World) : Prop where
  staged : w'.disk.staged = w.disk.staged
  temporary : w'.cells.temporary = w.cells.temporary

open SameSlot

theorem SameSlot.refl (w : World) : SameSlot w w := ⟨rfl, rfl⟩

theorem SameSlot.trans (w₁ w₂ w₃ : World) (h : SameSlot w₁ w₂)
    (h' : SameSlot w₂ w₃) : SameSlot w₁ w₃ :=
  ⟨h'.staged.trans h.staged, h'.temporary.trans h.temporary⟩

/-- A call that stages nothing and leaves the slot alone. -/
abbrev KeepsSlot {α : Type} (p : Exec α) : Prop := Keeps SameSlot (fun _ => True) p

section Calls

variable {env : Env} {call : Call} {location source destination : Location} {d d' : Disk} {α : Type}

theorem keepsSlot_of_reads {p : Exec α} (h : Reads p) : KeepsSlot p := by
  intro w r w' hy
  obtain ⟨rfl, -⟩ := h w r w' hy
  exact ⟨.refl _, fun _ _ => trivial⟩

theorem keepsSlot_reads {g : World → Except ExecutionError α} : KeepsSlot (reads g) :=
  reads refl fun _ _ _ => trivial

theorem keepsSlot_perform {effect : Disk → Except VfsError Disk}
    (heffect : ∀ d d', effect d = .ok d' → d'.staged = d.staged) :
    KeepsSlot (perform env call effect) := by
  intro w r w' h
  refine ⟨?_, fun _ _ => trivial⟩
  rcases yields_perform h with rfl | ⟨d, hd, rfl⟩
  · exact .refl _
  · exact ⟨heffect _ _ hd, rfl⟩

theorem keepsSlot_remove {recursive : Bool} : KeepsSlot (remove env call location recursive) := by
  intro w r w' h
  refine ⟨?_, fun _ _ => trivial⟩
  rcases (CopyExecutor.yields_remove h).1 with rfl | ⟨_, _, -, -, rfl⟩
  · exact .refl _
  · exact ⟨rfl, rfl⟩

theorem keepsSlot_setCells {f : CopyCells → CopyCells}
    (hf : ∀ cells, (f cells).temporary = cells.temporary) : KeepsSlot (setCells f) :=
  writes fun w => ⟨rfl, hf w.cells⟩

theorem staged_createEntry {node : Node}
    (h : createEntry location node d = .ok d') : d'.staged = d.staged := by
  unfold createEntry at h
  split at h
  case h_3 => injection h with h; subst h; rfl
  all_goals cases h

theorem staged_copySymlink (h : copySymlink source destination d = .ok d') : d'.staged = d.staged := by
  unfold copySymlink at h
  split at h
  case h_1 => exact staged_createEntry h
  all_goals cases h

theorem staged_rename (h : rename source destination d = .ok d') : d'.staged = d.staged := by
  unfold rename at h
  split at h
  case h_4 => injection h with h; subst h; rfl
  all_goals cases h

end Calls

-- ==== one file

/-- The copy of a file does not fail between its staging and its commit:
what fails before has staged nothing, and the commit fails only for
collisions that are renamed around or raised as conflicts. -/
structure Unbroken (copy : CopyExecutor) (env : Env)
    (effective : Option ConflictResolution) (files : Files)
    (destination : Location) : Prop where
  staging : ∀ call ∈ [Call.serverSideCopy, Call.openWrite], ∀ fault,
    env.fault call = some fault → fault.applied = false
  transfer : env.fault .transfer = none
  cancelled : env.cancelled .transferred = false
  capabilities : copy.transfer.sameEndpoint = true →
    ∀ n, env.fault (.capabilities n) = none
  commit : ∀ n fault, env.fault (.commitCopy n) = some fault →
    (∃ l, fault.error = .alreadyExists l) ∧ (effective = none ∨ effective = some .renameNew)
  parent : checkParent files destination = .ok ()
  room : effective = some .overwrite →
    Keyed.get files destination ≠ some Node.directory
  free : effective = some .skip → Keyed.get files destination = none
  named : ∀ name, destination.name = .ok name → validateName name = .ok ()

/-- The results that do not end the job. -/
def Settles : Except ExecutionError ExecutionOutcome → Prop
  | .ok _ | .error (.conflict _) => True
  | .error _ => False

theorem yields_perform_of_quiet {d : Disk} {r : Except ExecutionError PUnit}
    (hfault : env.fault call = none) (h : Yields (perform env call effect) w r w')
    (heffect : effect w.disk = .ok d) : r = .ok ⟨⟩ ∧ w' = { w with disk := d } := by
  have hattempt : ∀ {a : Except ExecutionError (Except VfsError Unit)} {w₁ : World},
      Yields (attempt env call effect) w a w₁ →
        a = .ok (.ok ()) ∧ w₁ = { w with disk := d } := by
    intro a w₁ hy
    have hrun : (attempt env call effect) w = some (a, w₁) := hy
    unfold attempt at hrun
    rw [heffect, hfault] at hrun
    injection hrun with hrun
    injection hrun with ha hw
    exact ⟨ha.symm, hw.symm⟩
  unfold perform at h
  rcases yields_bind.mp h with ⟨a, w₁, ha, h⟩ | ⟨e, ha, -⟩
  · obtain ⟨heq, rfl⟩ := hattempt ha
    cases heq
    exact yields_pure.mp h
  · obtain ⟨heq, -⟩ := hattempt ha
    cases heq

/-- A writing call that answers with an error: its effect's own, or a
fault's, which may come after the effect. -/
inductive Refuses (env : Env) (call : Call) (effect : Disk → Except VfsError Disk)
    (w : World) : VfsError → World → Prop
  | own {error : VfsError} (hfault : env.fault call = none)
      (heffect : effect w.disk = .error error) : Refuses env call effect w error w
  | fault {fault : Fault} (hfault : env.fault call = some fault)
      (hidle : fault.applied = false ∨ ∃ error, effect w.disk = .error error) :
      Refuses env call effect w fault.error w
  | applied {fault : Fault} {d : Disk} (hfault : env.fault call = some fault)
      (happlied : fault.applied = true) (heffect : effect w.disk = .ok d) :
      Refuses env call effect w fault.error { w with disk := d }

theorem yields_attempt_error {error : VfsError}
    (h : Yields (attempt env call effect) w (.ok (.error error)) w') :
    Refuses env call effect w error w' := by
  have hrun : (attempt env call effect) w = some (.ok (.error error), w') := h
  unfold attempt at hrun
  split at hrun <;> injection hrun with hrun <;> injection hrun with hr hw
  case h_1 => cases hr
  case h_2 d fault heffect hfault =>
    injection hr with hr
    cases hr
    split at hw
    case isTrue happlied => subst hw; exact .applied hfault happlied heffect
    case isFalse happlied => subst hw; exact .fault hfault (.inl (by simpa using happlied))
  case h_3 own heffect hfault =>
    injection hr with hr
    injection hr with hr
    subst hr hw
    exact .own hfault heffect
  case h_4 own fault heffect hfault =>
    injection hr with hr
    injection hr with hr
    subst hr hw
    exact .fault hfault (.inr ⟨own, heffect⟩)

/-- What a call leaves staged: at most the temporary in its slot, and
nothing if it does not end the job, or `mends`. -/
structure Tidy (mends : Prop) (r : Except ExecutionError ExecutionOutcome)
    (w : World) : Prop where
  slotted : Slotted w
  settled : Settles r → w.disk.staged = []
  mended : mends → w.disk.staged = []

theorem tidy_of_nil {mends : Prop} {r : Except ExecutionError ExecutionOutcome}
    (h : w.disk.staged = []) : Tidy mends r w :=
  ⟨slotted_of_nil h, fun _ => h, fun _ => h⟩

namespace CopyExecutor

variable {copy : CopyExecutor} {env : Env}

inductive CommitRound (copy : CopyExecutor) (env : Env)
    (effective : Option ConflictResolution)
    (source temporary finalDestination parent : Location) (fuel suffix : Nat)
    (destination : Location) (w : World) :
    Except ExecutionError ExecutionOutcome → World → Prop
  | unable {fault : Fault} (hsame : copy.transfer.sameEndpoint = true)
      (hfault : env.fault (.capabilities suffix) = some fault) :
      CommitRound copy env effective source temporary finalDestination parent fuel
        suffix destination w (.error (.provider fault.error)) w
  | committed {d : Disk}
      (heffect : commitCopy temporary destination
        (decide (effective = some .overwrite)) w.disk = .ok d) :
      CommitRound copy env effective source temporary finalDestination parent fuel
        suffix destination w (.ok .completed)
        { w with disk := d, cells := { w.cells with temporary := none } }
  | unnamed {l : Location} {w₁ : World} {message : String}
      (hrenames : effective = some .renameNew)
      (hrefuses : Refuses env (.commitCopy suffix) (commitCopy temporary destination
        (decide (effective = some .overwrite))) w (.alreadyExists l) w₁)
      (hnames : ∀ name next, finalDestination.name = .ok name →
        parent.join (copyName name suffix) ≠ .ok next) :
      CommitRound copy env effective source temporary finalDestination parent fuel
        suffix destination w (.error (.failed message)) w₁
  | renamed {l next : Location} {name : String} {w₁ w' : World}
      {r : Except ExecutionError ExecutionOutcome}
      (hrenames : effective = some .renameNew)
      (hrefuses : Refuses env (.commitCopy suffix) (commitCopy temporary destination
        (decide (effective = some .overwrite))) w (.alreadyExists l) w₁)
      (hname : finalDestination.name = .ok name)
      (hjoin : parent.join (copyName name suffix) = .ok next)
      (hrest : Yields (copy.commitLoop env effective source temporary
        finalDestination parent fuel (suffix + 1) next) w₁ r w') :
      CommitRound copy env effective source temporary finalDestination parent fuel
        suffix destination w r w'
  | collided {l : Location} {w₁ w' : World}
      {r : Except ExecutionError ExecutionOutcome} (hasks : effective = none)
      (hrefuses : Refuses env (.commitCopy suffix) (commitCopy temporary destination
        (decide (effective = some .overwrite))) w (.alreadyExists l) w₁)
      (hrest : Yields (raiseConflict env source temporary destination) w₁ r w') :
      CommitRound copy env effective source temporary finalDestination parent fuel
        suffix destination w r w'
  | failed {error : VfsError} {w₁ : World}
      (hrefuses : Refuses env (.commitCopy suffix) (commitCopy temporary destination
        (decide (effective = some .overwrite))) w error w₁)
      (herror : ∀ l, error = .alreadyExists l →
        effective ≠ none ∧ effective ≠ some .renameNew) :
      CommitRound copy env effective source temporary finalDestination parent fuel
        suffix destination w (.error (.provider error)) w₁

variable {destination : Location} {effective : Option ConflictResolution} {fuel suffix : Nat}

theorem commitRound_of_yields
    {source temporary finalDestination parent : Location}
    {w w' : World} {r : Except ExecutionError ExecutionOutcome}
    (h : Yields (copy.commitLoop env effective source temporary finalDestination
      parent (fuel + 1) suffix destination) w r w') :
    CommitRound copy env effective source temporary finalDestination parent fuel
      suffix destination w r w' := by
  unfold commitLoop at h
  rw [yields_bind] at h
  rcases h with ⟨_, w₀, hcapabilities, h⟩ | ⟨e, hcapabilities, rfl⟩
  case inr =>
    rcases yields_onlyIf.mp hcapabilities with ⟨hsame, hcapabilities⟩ | ⟨-, hr, -⟩
    case inr => cases hr
    obtain ⟨heq, rfl⟩ := yields_reads.mp hcapabilities
    unfold Env.ask at heq
    cases hfault : env.fault (.capabilities suffix) with
    | none => rw [hfault] at heq; cases heq
    | some fault =>
      rw [hfault] at heq
      cases heq
      exact .unable hsame hfault
  have hw₀ : w₀ = w := by
    rcases yields_onlyIf.mp hcapabilities with ⟨-, hcapabilities⟩ | ⟨-, -, hw₀⟩
    · exact (yields_reads.mp hcapabilities).2
    · exact hw₀
  subst hw₀
  rw [yields_bind] at h
  rcases h with ⟨committed, w₁, hattempt, h⟩ | ⟨e, hattempt, -⟩
  case inr => rcases yields_attempt hattempt with ⟨heq, -⟩ | ⟨_, heq, -⟩ <;> cases heq
  rcases committed with error | _
  · have hrefuses := yields_attempt_error hattempt
    by_cases hexists : ∃ l, error = .alreadyExists l
    · obtain ⟨l, rfl⟩ := hexists
      cases effective with
      | none => exact .collided rfl hrefuses h
      | some resolution =>
        cases resolution with
        | renameNew =>
          simp only at h
          rw [yields_bind] at h
          rcases h with ⟨name, w₂, hname, h⟩ | ⟨e, hname, rfl⟩
          case inr =>
            obtain ⟨rfl, ⟨_, -, hr⟩ | ⟨e', hnone, hr⟩⟩ := yields_orFail hname
            · cases hr
            · cases hr
              exact .unnamed rfl hrefuses fun name _ hsome => by
                simp [hnone] at hsome
          obtain ⟨rfl, ⟨_, hsome, hr⟩ | ⟨_, -, hr⟩⟩ := yields_orFail hname
          case inr => cases hr
          cases hr
          rw [yields_bind] at h
          rcases h with ⟨next, w₃, hjoin, h⟩ | ⟨e, hjoin, rfl⟩
          case inr =>
            obtain ⟨rfl, ⟨_, -, hr⟩ | ⟨e', hnone, hr⟩⟩ := yields_orFail hjoin
            · cases hr
            · cases hr
              refine .unnamed rfl hrefuses fun name' _ hname' => ?_
              rw [hsome] at hname'
              injection hname' with hname'
              subst hname'
              rw [hnone]
              intro heq
              cases heq
          obtain ⟨rfl, ⟨_, hnext, hr⟩ | ⟨_, -, hr⟩⟩ := yields_orFail hjoin
          case inr => cases hr
          cases hr
          exact .renamed rfl hrefuses hsome hnext h
        | skip | overwrite =>
          obtain ⟨rfl, rfl⟩ := yields_throw.mp h
          refine .failed hrefuses fun _ _ => ⟨?_, ?_⟩ <;> intro heq <;> cases heq
    · have hr : r = .error (.provider error) ∧ w' = w₁ := by
        cases error with
        | alreadyExists l => exact absurd ⟨l, rfl⟩ hexists
        | _ => exact yields_throw.mp h
      obtain ⟨rfl, rfl⟩ := hr
      exact .failed hrefuses fun l hl => absurd ⟨l, hl⟩ hexists
  · rcases yields_attempt hattempt with ⟨-, d, heffect, rfl⟩ | ⟨_, heq, -⟩
    case inr => cases heq
    simp only at h
    replace h := yields_writes_bind.mp h
    obtain ⟨rfl, rfl⟩ := yields_pure.mp h
    exact .committed heffect

variable {temporary destination : Location} {overwrite : Bool} {error : VfsError} {w w₁ : World}

theorem refused_commit {call : Call}
    (h : Refuses env call (commitCopy temporary destination overwrite) w error w₁)
    (hstages : StagesAtMost temporary w) : w₁ = w ∨ (w₁.disk.staged = [] ∧ w₁.cells = w.cells) := by
  cases h with
  | own _ _ | fault _ _ => exact .inl rfl
  | applied _ _ heffect =>
    obtain ⟨content, -, rfl⟩ := commitCopy_eq_ok heffect
    exact .inr ⟨hstages.keep_eq_nil, rfl⟩

theorem stagesAtMost_of_refused {call : Call} (hstages : StagesAtMost temporary w)
    (h : Refuses env call (commitCopy temporary destination overwrite) w error w₁) :
    StagesAtMost temporary w₁ := by
  rcases refused_commit h hstages with rfl | ⟨hnil, -⟩
  · exact hstages
  · exact stagesAtMost_of_nil hnil

section Discarding

variable (hdiscard : env.fault .discardCopy = none)

include hdiscard

variable {r : Except ExecutionError ExecutionOutcome} {w w' : World}

theorem staged_raiseConflict {source temporary destination : Location}
    (hstages : StagesAtMost temporary w)
    (h : Yields (raiseConflict env source temporary destination) w r w') : w'.disk.staged = [] := by
  unfold raiseConflict at h
  rcases yields_bind.mp h with ⟨_, w₁, hperform, h⟩ | ⟨e, hperform, -⟩
  case inr => cases (yields_perform_of_quiet hdiscard hperform rfl).1
  obtain ⟨-, rfl⟩ := yields_perform_of_quiet hdiscard hperform rfl
  have hrest : KeepsSlot (do
      let losing ← consult env .inspectLosing (inspect env · source)
      let winning ← consult env .inspectWinning (inspect env · destination)
      if losing.kind ≠ winning.kind then throw kindMismatch
      else throw (conflictError env losing winning) : Exec ExecutionOutcome) := by
    refine bind trans (keepsSlot_of_reads reads_consult) fun losing => ?_
    refine bind trans (keepsSlot_of_reads reads_consult) fun winning => ?_
    split <;> exact throw refl trivial
  replace h := yields_writes_bind.mp h
  rw [(hrest _ _ _ h).1.staged]
  exact hstages.keep_eq_nil

variable {source temporary finalDestination parent : Location}
  {effective : Option ConflictResolution} {destination : Location} {fuel suffix : Nat}

/-- The commit loop leaves what it found staged, in its slot, or nothing;
and nothing where it gets to a result that does not end the job. -/
theorem commitLoop_slotted (hstages : StagesAtMost temporary w) (hslotted : Slotted w)
    (h : Yields (copy.commitLoop env effective source temporary finalDestination
      parent fuel suffix destination) w r w') :
    Slotted w' ∧ (Settles r → w'.disk.staged = []) := by
  induction fuel generalizing suffix destination w with
  | zero => exact absurd h not_yields_stuck
  | succ fuel ih =>
    have hrefused : ∀ {overwrite : Bool} {error : VfsError} {w₁ : World},
        Refuses env (.commitCopy suffix) (commitCopy temporary destination overwrite)
          w error w₁ → Slotted w₁ := by
      intro overwrite error w₁ hrefuses
      rcases refused_commit hrefuses hstages with rfl | ⟨hnil, -⟩
      · exact hslotted
      · exact slotted_of_nil hnil
    cases commitRound_of_yields h with
    | unable _ _ => exact ⟨hslotted, elim⟩
    | committed heffect =>
      obtain ⟨content, -, rfl⟩ := commitCopy_eq_ok heffect
      have hnil := hstages.keep_eq_nil
      exact ⟨slotted_of_nil hnil, fun _ => hnil⟩
    | renamed _ hrefuses _ _ hrest =>
      exact ih (stagesAtMost_of_refused hstages hrefuses) (hrefused hrefuses) hrest
    | collided _ hrefuses hrest =>
      have hnil := staged_raiseConflict hdiscard (stagesAtMost_of_refused hstages hrefuses) hrest
      exact ⟨slotted_of_nil hnil, fun _ => hnil⟩
    | unnamed _ hrefuses _ | failed hrefuses _ => exact ⟨hrefused hrefuses, elim⟩

theorem commitLoop_nil (hnil : w.disk.staged = [])
    (h : Yields (copy.commitLoop env effective source temporary finalDestination
      parent fuel suffix destination) w r w') : w'.disk.staged = [] := by
  induction fuel generalizing suffix destination w with
  | zero => exact absurd h not_yields_stuck
  | succ fuel ih =>
    have hstages : StagesAtMost temporary w := stagesAtMost_of_nil hnil
    have hrefused : ∀ {overwrite : Bool} {error : VfsError} {w₁ : World},
        Refuses env (.commitCopy suffix) (commitCopy temporary destination overwrite)
          w error w₁ → w₁.disk.staged = [] := by
      intro overwrite error w₁ hrefuses
      rcases refused_commit hrefuses hstages with rfl | ⟨hnil', -⟩
      · exact hnil
      · exact hnil'
    cases commitRound_of_yields h with
    | unable _ _ => exact hnil
    | committed heffect =>
      obtain ⟨content, -, rfl⟩ := commitCopy_eq_ok heffect
      exact hstages.keep_eq_nil
    | renamed _ hrefuses _ _ hrest => exact ih (hrefused hrefuses) hrest
    | collided _ hrefuses hrest =>
      exact staged_raiseConflict hdiscard (stagesAtMost_of_refused hstages hrefuses) hrest
    | unnamed _ hrefuses _ | failed hrefuses _ => exact hrefused hrefuses

theorem commitLoop_unbroken (hunbroken : Unbroken copy env effective w.disk.files finalDestination)
    (hparent : finalDestination.parent = some parent) (hthere : destination.parent = some parent)
    (htried : destination = finalDestination ∨ effective = some .renameNew)
    (hstages : StagesAtMost temporary w)
    (h : Yields (copy.commitLoop env effective source temporary finalDestination
      parent fuel suffix destination) w r w') : w'.disk.staged = [] := by
  induction fuel generalizing suffix destination w with
  | zero => exact absurd h not_yields_stuck
  | succ fuel ih =>
    cases commitRound_of_yields h with
    | unable hsame hfault =>
      rw [hunbroken.capabilities hsame] at hfault
      cases hfault
    | committed heffect =>
      obtain ⟨content, -, rfl⟩ := commitCopy_eq_ok heffect
      exact hstages.keep_eq_nil
    | unnamed _ _ hnames =>
      obtain ⟨name, hname⟩ := name_of_parent hparent
      obtain ⟨next, hnext⟩ := join_of_validateName parent
        (validateName_copyName suffix (hunbroken.named name hname))
      exact absurd hnext (hnames name next hname)
    | renamed hrenames hrefuses _ hjoin hrest =>
      have hstages₁ := stagesAtMost_of_refused hstages hrefuses
      rcases refused_commit hrefuses hstages with rfl | ⟨hnil, -⟩
      · exact ih hunbroken (parent_of_join hjoin) (.inr hrenames) hstages hrest
      · exact commitLoop_nil hdiscard hnil hrest
    | collided _ hrefuses hrest =>
      exact staged_raiseConflict hdiscard (stagesAtMost_of_refused hstages hrefuses) hrest
    | @failed error _ hrefuses herror =>
      -- a disturbed commit is a collision, so the refusal is its own
      cases hrefuses with
      | applied hfault _ _ | fault hfault _ =>
        obtain ⟨⟨l, hl⟩, heffective⟩ := hunbroken.commit _ _ hfault
        obtain ⟨hne, hne'⟩ := herror l hl
        rcases heffective with heq | heq
        · exact absurd heq hne
        · exact absurd heq hne'
      | own _ heffect =>
        have hcheck : checkParent w'.disk.files destination = .ok () := by
          have hfinal := hunbroken.parent
          unfold checkParent at hfinal ⊢
          rw [hparent] at hfinal
          rw [hthere]
          exact hfinal
        unfold commitCopy at heffect
        rw [hcheck] at heffect
        cases hget : Keyed.get w'.disk.staged temporary with
        | none => exact hstages.eq_nil_of_get hget
        | some content =>
          rw [hget] at heffect
          cases hdest : Keyed.get w'.disk.files destination with
          | none => rw [hdest] at heffect; cases heffect
          | some node =>
            rw [hdest] at heffect
            by_cases hover : effective = some .overwrite
            · rcases htried with rfl | hrenames
              · have hroom := hunbroken.room hover
                rw [hdest] at hroom
                rw [decide_eq_true hover] at heffect
                cases node with
                | directory => exact absurd rfl hroom
                | file _ | symlink _ => cases heffect
              · simp [hover] at hrenames
            · rw [decide_eq_false hover] at heffect
              have herr : error = .alreadyExists destination := by
                cases node <;> exact (Except.error.inj heffect).symm
              obtain ⟨hne, hne'⟩ := herror destination herr
              rcases htried with rfl | hrenames
              · have hskip : effective = some .skip := by
                  cases effective with
                  | none => exact absurd rfl hne
                  | some resolution =>
                    cases resolution with
                    | skip => rfl
                    | overwrite => exact absurd rfl hover
                    | renameNew => exact absurd rfl hne'
                rw [hunbroken.free hskip] at hdest
                cases hdest
              · exact absurd hrenames hne'

/-- What staging leaves: the temporary at most, the files and the slot as
they were, and nothing at all where it fails undisturbed. -/
structure Stages (temporary : Location) (undisturbed : Prop) (w : World)
    (r : Except ExecutionError PUnit) (w' : World) : Prop where
  stages : StagesAtMost temporary w'
  files : w'.disk.files = w.disk.files
  cells : w'.cells = w.cells
  failed : undisturbed → (∃ e, r = .error e) → w'.disk.staged = []
  provider : ∀ e, r = .error e → ∃ error, e = .provider error

variable {temporary : Location}

omit hdiscard in
theorem stages_perform {call : Call} {effect : Disk → Except VfsError Disk}
    {r : Except ExecutionError PUnit} (heffect : ∀ d, effect w.disk = .ok d →
      StagesAtMost temporary { w with disk := d } ∧ d.files = w.disk.files)
    (h : Yields (perform env call effect) w r w') (hnil : w.disk.staged = []) :
    Stages temporary (∀ fault, env.fault call = some fault → fault.applied = false) w r w' := by
  unfold perform at h
  rcases yields_bind.mp h with ⟨result, w₁, hattempt, h⟩ | ⟨e, hattempt, -⟩
  case inr => rcases yields_attempt hattempt with ⟨heq, -⟩ | ⟨_, heq, -⟩ <;> cases heq
  cases result with
  | ok _ =>
    obtain ⟨rfl, rfl⟩ := yields_pure.mp h
    rcases yields_attempt hattempt with ⟨-, d, hd, rfl⟩ | ⟨_, heq, -⟩
    case inr => cases heq
    obtain ⟨hstages, hfiles⟩ := heffect d hd
    exact ⟨hstages, hfiles, rfl, by rintro - ⟨e, ⟨⟩⟩, nofun⟩
  | error error =>
    obtain ⟨rfl, rfl⟩ := yields_throw.mp h
    cases yields_attempt_error hattempt with
    | own _ _ | fault _ _ =>
      exact ⟨stagesAtMost_of_nil hnil, rfl, rfl, fun _ _ => hnil, by rintro e ⟨⟩; exact ⟨_, rfl⟩⟩
    | applied hfault happlied hd =>
      obtain ⟨hstages, hfiles⟩ := heffect _ hd
      refine ⟨hstages, hfiles, rfl, fun hquiet _ => ?_, by rintro e ⟨⟩; exact ⟨_, rfl⟩⟩
      rw [hquiet _ hfault] at happlied
      cases happlied

omit hdiscard in
theorem stages_nil {undisturbed : Prop} {w : World} {r : Except ExecutionError PUnit}
    (hnil : w.disk.staged = []) (hprovider : ∀ e, r = .error e → ∃ error, e = .provider error) :
    Stages temporary undisturbed w r w :=
  ⟨stagesAtMost_of_nil hnil, rfl, rfl, fun _ _ => hnil, hprovider⟩

omit hdiscard in
theorem provider_of_consult {α : Type} {call : Call} {answer : Files → Except VfsError α}
    {e : ExecutionError} (h : Yields (consult env call answer) w (.error e) w') :
    ∃ error, e = .provider error := by
  obtain ⟨heq, -⟩ := yields_reads.mp h
  cases hask : env.ask call (answer w.disk.files) with
  | ok a => rw [hask] at heq; cases heq
  | error error =>
    rw [hask] at heq
    injection heq with heq
    exact ⟨error, heq⟩

variable {source temporary : Location}

omit hdiscard in
theorem stages_stream {r : Except ExecutionError PUnit}
    (h : Yields (stream env source temporary) w r w') (hnil : w.disk.staged = []) :
    Stages temporary (env.fault .transfer = none
        ∧ ∀ fault, env.fault .openWrite = some fault → fault.applied = false) w r w'
      ∧ ((∀ content, readFile w.disk.files source ≠ .ok content) → w'.disk.staged = []) := by
  unfold stream at h
  rw [yields_bind] at h
  rcases h with ⟨content, w₁, hread, h⟩ | ⟨e, hread, rfl⟩
  case inr =>
    obtain ⟨rfl, -⟩ := reads_consult _ _ _ hread
    refine ⟨stages_nil hnil ?_, fun _ => hnil⟩
    intro e' hfound
    obtain ⟨⟩ := hfound
    exact provider_of_consult hread
  obtain ⟨hcontent, rfl⟩ := yields_consult_ok hread
  refine ⟨?_, fun hunread => absurd hcontent (hunread content)⟩
  have hopening : ∀ d, openWrite temporary w₁.disk = .ok d →
      StagesAtMost temporary { w₁ with disk := d } ∧ d.files = w₁.disk.files := by
    intro d hd
    unfold openWrite at hd
    split at hd
    case h_3 =>
      cases hd
      exact ⟨(stagesAtMost_of_nil hnil).stage, rfl⟩
    all_goals cases hd
  rw [yields_bind] at h
  rcases h with ⟨_, w₂, hopen, h⟩ | ⟨e, hopen, rfl⟩
  case inr =>
    have hstages := stages_perform hopening hopen hnil
    refine ⟨hstages.stages, hstages.files, hstages.cells,
      fun hquiet _ => hstages.failed hquiet.2 ⟨e, rfl⟩, ?_⟩
    intro e' hfound
    obtain ⟨⟩ := hfound
    exact hstages.provider e rfl
  have hopened := stages_perform hopening hopen hnil
  cases hfault : env.fault .transfer with
  | none =>
    rw [hfault] at h
    obtain ⟨rfl, rfl⟩ := yields_perform_of_quiet hfault h rfl
    exact ⟨hopened.stages.stage, hopened.files, hopened.cells, by rintro - ⟨e, ⟨⟩⟩, nofun⟩
  | some fault =>
    rw [hfault] at h
    simp only at h
    replace h := yields_writes_bind.mp h
    obtain ⟨rfl, rfl⟩ := yields_throw.mp h
    exact ⟨hopened.stages.stage, hopened.files, hopened.cells,
      fun hquiet => absurd hquiet.1 nofun, by rintro e ⟨⟩; exact ⟨_, rfl⟩⟩

omit hdiscard in
theorem stages_serverSideCopy {r : Except ExecutionError PUnit}
    (h : Yields (onlyIf copy.transfer.serverSideCopy (perform env .serverSideCopy (serverSideCopy
      env.clones source temporary))) w r w')
    (hnil : w.disk.staged = []) :
    Stages temporary (∀ fault, env.fault .serverSideCopy = some fault →
        fault.applied = false) w r w' ∧ ((copy.transfer.serverSideCopy && env.clones) = false ∨
          (∀ content, readFile w.disk.files source ≠ .ok content) → w'.disk.staged = []) := by
  rcases yields_onlyIf.mp h with ⟨hserver, h⟩ | ⟨hserver, rfl, rfl⟩
  case inr => exact ⟨stages_nil hnil nofun, fun _ => hnil⟩
  have hclone : ∀ d, serverSideCopy env.clones source temporary w.disk = .ok d →
      StagesAtMost temporary { w with disk := d } ∧ d.files = w.disk.files := by
    intro d hd
    obtain ⟨content, -, rfl⟩ := serverSideCopy_eq_ok hd
    split
    case isTrue => exact ⟨(stagesAtMost_of_nil hnil).stage, rfl⟩
    case isFalse => exact ⟨stagesAtMost_of_nil hnil, rfl⟩
  refine ⟨stages_perform hclone h hnil, ?_⟩
  intro hnot
  rcases yields_perform h with rfl | ⟨d, hd, rfl⟩
  · exact hnil
  · obtain ⟨content, hread, rfl⟩ := serverSideCopy_eq_ok hd
    rcases hnot with hclones | hunread
    · rw [hserver, Bool.true_and] at hclones
      rw [if_neg (by rw [hclones]; exact Bool.false_ne_true)]
      exact hnil
    · exact absurd hread (hunread content)

/-- The file cannot be read, or its copy does not fail once staged. -/
def Mends (copy : CopyExecutor) (env : Env) (effective : Option ConflictResolution)
    (files : Files) (source destination : Location) : Prop :=
  (∃ content, readFile files source = .ok content) →
    Unbroken copy env effective files destination

theorem tidy_copyFile {policy : ConflictPolicy} {resolution : Option ConflictResolution}
    {fuel : Nat} {source destination : Location} (hnil : w.disk.staged = [])
    (h : Yields (copy.copyFile env policy resolution fuel source destination) w r w') :
    Tidy (Mends copy env (effectiveResolution policy resolution) w.disk.files source
      destination) r w' := by
  unfold copyFile at h
  rw [yields_bind] at h
  rcases h with ⟨parent, w₁, hparent, h⟩ | ⟨e, hparent, rfl⟩
  case inr =>
    obtain ⟨rfl, -⟩ := reads_destinationParent _ _ _ hparent
    exact tidy_of_nil hnil
  obtain ⟨hsome, rfl⟩ : destination.parent = some parent ∧ w₁ = w := by
    unfold destinationParent at hparent
    split at hparent
    case h_1 heq =>
      obtain ⟨hr, rfl⟩ := yields_pure.mp hparent
      injection hr with hr
      rw [heq, hr]
      exact ⟨rfl, rfl⟩
    case h_2 => cases (yields_throw.mp hparent).1
  rw [yields_bind] at h
  rcases h with ⟨temporary, w₂, hjoin, h⟩ | ⟨e, hjoin, rfl⟩
  case inr =>
    obtain ⟨rfl, -⟩ := reads_orFail _ _ _ hjoin
    exact tidy_of_nil hnil
  obtain ⟨rfl, -⟩ := reads_orFail _ _ _ hjoin
  replace h := yields_writes_bind.mp h
  -- before anything is staged the files are as they were
  have hunread : ∀ {files : Files}, (¬ ∃ content, readFile files source = .ok content) →
        ∀ content, readFile files source ≠ .ok content :=
    fun hnone content hread => hnone ⟨content, hread⟩
  rw [yields_bind] at h
  rcases h with ⟨_, w₄, hclone, h⟩ | ⟨e, hclone, rfl⟩
  case inr =>
    obtain ⟨hstages, hidle⟩ := stages_serverSideCopy hclone hnil
    obtain ⟨error, rfl⟩ := hstages.provider e rfl
    refine ⟨hstages.stages.slotted (by rw [hstages.cells]), elim, fun hmends => ?_⟩
    by_cases hread : ∃ content, readFile w₁.disk.files source = .ok content
    · exact hstages.failed ((hmends hread).staging _ (by simp)) ⟨_, rfl⟩
    · exact hidle (.inr (hunread hread))
  obtain ⟨hcloned, hidle⟩ := stages_serverSideCopy hclone hnil
  rw [yields_bind] at h
  rcases h with ⟨_, w₅, hstream, h⟩ | ⟨e, hstream, rfl⟩
  case inr =>
    rcases yields_onlyIf.mp hstream with ⟨hc, hstream⟩ | ⟨-, hr, -⟩
    case inr => cases hr
    obtain ⟨hstages, hidle'⟩ := stages_stream hstream (hidle (.inl (Bool.not_eq_eq_eq_not.mp hc)))
    obtain ⟨error, rfl⟩ := hstages.provider e rfl
    refine ⟨hstages.stages.slotted (by rw [hstages.cells, hcloned.cells]), elim, fun hmends => ?_⟩
    by_cases hread : ∃ content, readFile w₁.disk.files source = .ok content
    · have hunbroken := hmends hread
      exact hstages.failed ⟨hunbroken.transfer, hunbroken.staging _ (by simp)⟩ ⟨_, rfl⟩
    · refine hidle' ?_
      rw [hcloned.files]
      exact hunread hread
  -- by now the source has been read, and is staged
  have hstaged : StagesAtMost temporary w₅ ∧ w₅.disk.files = w₁.disk.files
      ∧ w₅.cells.temporary = some temporary
      ∧ ∃ content, readFile w₁.disk.files source = .ok content := by
    rcases yields_onlyIf.mp hstream with ⟨hc, hstream⟩ | ⟨hc, -, rfl⟩
    · obtain ⟨hstages, -⟩ := stages_stream hstream (hidle (.inl (Bool.not_eq_eq_eq_not.mp hc)))
      obtain ⟨content, hread, -⟩ := stream_ok hstream
      rw [hcloned.files] at hread
      exact ⟨hstages.stages, hstages.files.trans hcloned.files,
        by rw [hstages.cells, hcloned.cells], content, hread⟩
    · refine ⟨hcloned.stages, hcloned.files, by rw [hcloned.cells], ?_⟩
      have hserver : copy.transfer.serverSideCopy = true ∧ env.clones = true := by simpa using hc
      rcases yields_onlyIf.mp hclone with ⟨-, hclone⟩ | ⟨hno, -⟩
      · obtain ⟨d, hd, -⟩ := yields_perform_ok hclone
        obtain ⟨content, hread, -⟩ := serverSideCopy_eq_ok hd
        exact ⟨content, hread⟩
      · simp [hserver.1] at hno
  obtain ⟨hstages, hfiles, hslot, hread⟩ := hstaged
  rw [yields_bind] at h
  rcases h with ⟨_, w₆, hcheck, h⟩ | ⟨e, hcheck, rfl⟩
  case inr =>
    rcases yields_onlyIf.mp hcheck with ⟨hcancelled, hcheck⟩ | ⟨-, hr, -⟩
    case inr => cases hr
    obtain ⟨heq, rfl⟩ := yields_throw.mp hcheck
    cases heq
    refine ⟨hstages.slotted hslot, elim, fun hmends => ?_⟩
    rw [(hmends hread).cancelled] at hcancelled
    cases hcancelled
  have hw₆ : w₆ = w₅ := by
    rcases yields_onlyIf.mp hcheck with ⟨-, hcheck⟩ | ⟨-, -, hw⟩
    · cases (yields_throw.mp hcheck).1
    · exact hw
  subst hw₆
  obtain ⟨hslotted, hsettled⟩ := commitLoop_slotted hdiscard hstages (hstages.slotted hslot) h
  refine ⟨hslotted, hsettled, fun hmends => ?_⟩
  have hunbroken := hmends hread
  rw [← hfiles] at hunbroken
  exact commitLoop_unbroken hdiscard hunbroken hsome hsome (.inl rfl) hstages h

end Discarding

-- ==== one call

variable {w w' : World}

theorem probeFrom_ok {parent renamed : Location} {name : String}
    (h : Yields (probeFrom env parent name fuel suffix) w (.ok renamed) w') :
    ∃ n, parent.join (copyName name n) = .ok renamed := by
  induction fuel generalizing suffix w with
  | zero => exact absurd h not_yields_stuck
  | succ fuel ih =>
    unfold probeFrom at h
    obtain ⟨candidate, w₁, hjoin, h⟩ := yields_bind_ok.mp h
    obtain ⟨found, w₂, -, h⟩ := yields_bind_ok.mp h
    obtain ⟨-, ⟨_, hcandidate, hr⟩ | ⟨_, -, hr⟩⟩ := yields_orFail hjoin
    case inr => cases hr
    cases hr
    split at h
    case h_1 =>
      injection (yields_pure.mp h).1 with heq
      rw [heq]
      exact ⟨suffix, hcandidate⟩
    case h_2 => exact ih h
    case h_3 => cases (yields_throw.mp h).1

variable {fuel : Nat}

theorem nextCopyDestination_ok {original renamed : Location}
    (h : Yields (nextCopyDestination env fuel original) w (.ok renamed) w') :
    ∃ parent name n, original.parent = some parent
      ∧ parent.join (copyName name n) = .ok renamed := by
  unfold nextCopyDestination at h
  obtain ⟨parent, w₁, hparent, h⟩ := yields_bind_ok.mp h
  obtain ⟨name, w₂, -, h⟩ := yields_bind_ok.mp h
  obtain ⟨n, hn⟩ := probeFrom_ok h
  exact ⟨parent, name, n, (yields_destinationParent hparent).1, hn⟩

variable {files : Files}

theorem Mends.renamed {source original renamed : Location}
    (h : Mends copy env effective files source original) (hrenames : effective = some .renameNew)
    (hnext : Yields (nextCopyDestination env fuel original) w (.ok renamed) w') :
    Mends copy env effective files source renamed := by
  intro hread
  have hunbroken := h hread
  obtain ⟨parent, name, n, hparent, hjoin⟩ := nextCopyDestination_ok hnext
  refine { hunbroken with parent := ?_, room := ?_, free := ?_, named := ?_ }
  · have hcheck := hunbroken.parent
    unfold checkParent at hcheck ⊢
    rw [hparent] at hcheck
    rw [parent_of_join hjoin]
    exact hcheck
  · rw [hrenames]
    exact nofun
  · rw [hrenames]
    exact nofun
  · intro name' hname'
    rw [name_of_join hjoin] at hname'
    injection hname' with hname'
    subst hname'
    exact validateName_of_join hjoin

variable {planned : PlannedCopyEntry} {disposition : Disposition}

theorem keepsSlot_makeRoom : KeepsSlot (makeRoom env fuel planned disposition) := by
  cases disposition with
  | free | skip => exact pure refl
  | overwrite =>
    exact bind trans (onlyIf refl keepsSlot_remove) fun _ => pure refl
  | renameNew =>
    refine bind trans (keepsSlot_of_reads reads_nextCopyDestination) fun renamed => ?_
    exact bind trans (onlyIf refl (keepsSlot_setCells fun _ => rfl))
      fun _ => pure refl

variable {resolution : Option ConflictResolution} {policy : ConflictPolicy}

theorem effective_of_examine {source destination : Location}
    (h : examine env policy resolution source destination files = .ok .renameNew) :
    effectiveResolution policy resolution = some .renameNew := by
  unfold examine at h
  split at h
  case h_1 => cases h
  case h_2 =>
    split at h
    case h_1 => cases h
    case h_2 =>
      obtain ⟨-, h⟩ := passed h nofun
      split at h
      case h_4 heq => exact heq
      all_goals cases h

theorem Mends.makeRoom
    (h : Mends copy env (effectiveResolution policy resolution) files planned.source.location
      planned.destination)
    (hexamine : examine env policy resolution planned.source.location planned.destination files
      = .ok disposition)
    (hroom : Yields (CopyExecutor.makeRoom env fuel planned disposition) w (.ok destination) w') :
    Mends copy env (effectiveResolution policy resolution) files
      planned.source.location destination := by
  cases disposition with
  | free | skip =>
    injection (yields_pure.mp hroom).1 with heq
    rw [heq]
    exact h
  | overwrite =>
    obtain ⟨_, _, -, hpure⟩ := yields_bind_ok.mp hroom
    injection (yields_pure.mp hpure).1 with heq
    rw [heq]
    exact h
  | renameNew =>
    obtain ⟨renamed, _, hnext, hroom⟩ := yields_bind_ok.mp hroom
    obtain ⟨_, _, -, hpure⟩ := yields_bind_ok.mp hroom
    injection (yields_pure.mp hpure).1 with heq
    rw [heq]
    exact h.renamed (effective_of_examine hexamine) hnext

/-- The nested file an item stands for, in a copy that goes on after
errors, is copied without failing once it is staged. -/
def Mended (copy : CopyExecutor) (env : Env) (operation : Operation)
    (item : PlanItem) (resolution : Option ConflictResolution) (w : World) : Prop :=
  ∀ planned, Keyed.get w.cells.planned item.entry.location = some planned →
    copy.continueOnError = true → planned.isRoot = false → planned.kind = .file →
    Mends copy env (effectiveResolution operation.conflictPolicy resolution)
      w.disk.files planned.source.location planned.destination

def Warns : Except ExecutionError ExecutionOutcome → Prop
  | .error (.warning _ _) => True
  | _ => False

variable {r : Except ExecutionError ExecutionOutcome} {item : PlanItem} {p : Exec ExecutionOutcome}

theorem yields_softenError (h : Yields (copy.softenError env item planned p) w r w') :
    ∃ r', Yields p w r' w' ∧ (r = r' ∨ (copy.continueOnError = true ∧ planned.isRoot = false
        ∧ (Settles r → r = r'))) := by
  unfold softenError at h
  split at h
  case isTrue hsoft =>
    obtain ⟨r', hp, rfl⟩ := yields_tryCatch_throw.mp h
    refine ⟨r', hp, .inr ⟨hsoft.1, hsoft.2, ?_⟩⟩
    cases r' with
    | ok outcome => exact fun _ => rfl
    | error e => exact elim
  case isFalse => exact ⟨r, h, .inl rfl⟩

theorem tidy_of_keepsSlot {mends : Prop} (hp : KeepsSlot p) (hnil : w.disk.staged = [])
    (h : Yields (copy.softenError env item planned p) w r w') : Tidy mends r w' := by
  obtain ⟨r', hy, -⟩ := yields_softenError h
  exact tidy_of_nil ((hp _ _ _ hy).1.staged.trans hnil)

theorem not_warns (h : ∀ e, r = .error e → NotWarning e) : ¬ Warns r := by
  intro hwarns
  cases r with
  | ok outcome => exact hwarns
  | error e =>
    have he := h e rfl
    cases e with
    | warning _ _ => exact he
    | _ => exact hwarns

theorem tidy_transferEntry (hdiscard : env.fault .discardCopy = none)
    (hnil : w.disk.staged = [])
    (h : Yields (copy.transferEntry env policy resolution fuel item planned
      destination disposition) w r w') :
    Tidy (Warns r ∧ (copy.continueOnError = true → planned.isRoot = false →
      planned.kind = .file → Mends copy env (effectiveResolution policy resolution)
        w.disk.files planned.source.location destination)) r w' := by
  unfold transferEntry at h
  split at h
  case h_1 =>
    split at h
    case isTrue => exact tidy_of_nil ((yields_pure.mp h).2 ▸ hnil)
    case isFalse =>
      rcases yields_bind.mp h with ⟨_, w₁, hparent, h⟩ | ⟨e, hparent, rfl⟩
      case inr =>
        exact tidy_of_nil ((reads_destinationParent _ _ _ hparent).1 ▸ hnil)
      obtain ⟨rfl, -⟩ := reads_destinationParent _ _ _ hparent
      rcases yields_bind.mp h with ⟨_, w₂, hname, h⟩ | ⟨e, hname, rfl⟩
      case inr => exact tidy_of_nil ((reads_orFail _ _ _ hname).1 ▸ hnil)
      obtain ⟨rfl, -⟩ := reads_orFail _ _ _ hname
      refine tidy_of_keepsSlot ?_ hnil h
      exact bind trans (keepsSlot_perform fun _ _ => staged_createEntry)
        fun _ => pure refl
  case h_2 =>
    refine tidy_of_keepsSlot ?_ hnil h
    exact bind trans (keepsSlot_perform fun _ _ => staged_copySymlink)
      fun _ => pure refl
  case h_3 hkind =>
    obtain ⟨r', hcopy, hr⟩ := yields_softenError h
    have htidy := tidy_copyFile hdiscard hnil hcopy
    rcases hr with rfl | ⟨hgoes, hnested, hsettles⟩
    · refine ⟨htidy.slotted, htidy.settled, fun hwarns => ?_⟩
      exact absurd hwarns.1 (not_warns (adds_copyFile _ _ _ hcopy).2)
    · refine ⟨htidy.slotted, fun hs => htidy.settled (hsettles hs ▸ hs), fun hmends => ?_⟩
      exact htidy.mended (hmends.2 hgoes hnested hkind)

theorem tidy_execute (hdiscard : env.fault .discardCopy = none) {operation : Operation}
    (hnil : w.disk.staged = [])
    (h : Yields (copy.execute env operation item resolution fuel) w r w') :
    Tidy (Warns r ∧ Mended copy env operation item resolution w) r w' := by
  unfold execute at h
  rw [yields_gets_bind] at h
  cases hplanned : Keyed.get w.cells.planned item.entry.location with
  | none =>
    rw [hplanned] at h
    exact tidy_of_nil ((yields_throw.mp h).2 ▸ hnil)
  | some planned =>
    rw [hplanned] at h
    simp only at h
    rw [yields_bind] at h
    rcases h with ⟨disposition, w₂, hexamine, h⟩ | ⟨e, hexamine, rfl⟩
    case inr => exact tidy_of_nil ((yields_reads.mp hexamine).2 ▸ hnil)
    obtain ⟨hexamined, rfl⟩ := yields_reads.mp hexamine
    split at h
    case isTrue => exact tidy_of_nil ((yields_pure.mp h).2 ▸ hnil)
    case isFalse =>
      rw [yields_bind] at h
      rcases h with ⟨destination, w₃, hroom, h⟩ | ⟨e, hroom, rfl⟩
      case inr =>
        exact tidy_of_nil ((keepsSlot_makeRoom _ _ _ hroom).1.staged.trans hnil)
      have hnil₃ := (keepsSlot_makeRoom _ _ _ hroom).1.staged.trans hnil
      obtain ⟨-, -, hdisk⟩ := makeRoom_spec hroom
      -- the file's copy mends where it goes
      have hmends : Mended copy env operation item resolution w₂ →
          copy.continueOnError = true → planned.isRoot = false →
          planned.kind = .file → Mends copy env
            (effectiveResolution operation.conflictPolicy resolution) w₃.disk.files
            planned.source.location destination := by
        intro hmended hgoes hnested hkind
        rw [hdisk hkind]
        exact (hmended planned hplanned hgoes hnested hkind).makeRoom hexamined.symm hroom
      rw [yields_bind] at h
      rcases h with ⟨outcome, w₄, htransfer, h⟩ | ⟨e, htransfer, rfl⟩
      case inr =>
        have htidy := tidy_transferEntry hdiscard hnil₃ htransfer
        refine ⟨htidy.slotted, fun hs => htidy.settled ?_, fun hm => htidy.mended ?_⟩
        · cases e with
          | conflict _ => exact trivial
          | _ => exact hs
        · refine ⟨?_, hmends hm.2⟩
          cases e with
          | warning _ _ => exact trivial
          | _ => exact hm.1
      have htidy := tidy_transferEntry hdiscard hnil₃ htransfer
      have hnil₄ : w₄.disk.staged = [] := htidy.settled trivial
      rw [yields_bind] at h
      rcases h with ⟨_, w₅, hrecord, h⟩ | ⟨e, hrecord, rfl⟩
      case inr =>
        rcases yields_onlyIf.mp hrecord with ⟨-, hrecord⟩ | ⟨-, hr, -⟩
        · cases (yields_writes.mp hrecord).1
        · cases hr
      obtain ⟨rfl, rfl⟩ := yields_pure.mp h
      refine tidy_of_nil ?_
      rcases yields_onlyIf.mp hrecord with ⟨-, hrecord⟩ | ⟨-, -, hw₅⟩
      · rw [(yields_writes.mp hrecord).2]
        exact hnil₄
      · rw [hw₅]
        exact hnil₄

end CopyExecutor

end FileManager.Transfers
