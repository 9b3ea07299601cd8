/-
What the calls of a group do, in terms of its members' calls, and the
steps and runs of a group's job as steps and runs of the job.
-/
import FileManager.Transfers.Proofs.Lossless

namespace FileManager.Transfers

open Fallible Machine
open Scheduler (ExecutionError ExecutionOutcome OperationPlan PlanItem Request
  startOperation)

-- ==== calls of a member

variable {g g' : GroupWorld} {i : Nat} {w : World}

@[simp] theorem GroupWorld.at_disk (g : GroupWorld) (seat : Seat) : (g.at seat).disk = g.disk := rfl

@[simp] theorem GroupWorld.at_cells (g : GroupWorld) (seat : Seat) :
    (g.at seat).cells = seat.cells := rfl

@[simp] theorem GroupWorld.at_fallback (g : GroupWorld) (seat : Seat) :
    (g.at seat).fallback = seat.fallback := rfl

@[simp] theorem GroupWorld.after_disk (g : GroupWorld) (i : Nat) (w : World) :
    (g.after i w).disk = w.disk := rfl

@[simp] theorem GroupWorld.after_stale (g : GroupWorld) (i : Nat) (w : World) :
    (g.after i w).stale = g.stale := rfl

@[simp] theorem GroupWorld.length_after (g : GroupWorld) (i : Nat) (w : World) :
    (g.after i w).seats.length = g.seats.length :=
  List.length_set

theorem GroupWorld.after_self {seat : Seat} (h : g.seats[i]? = some seat) :
    (g.after i w).seats[i]? = some { cells := w.cells, fallback := w.fallback } := by
  obtain ⟨hlt, -⟩ := List.getElem?_eq_some_iff.mp h
  exact List.getElem?_set_self hlt

theorem GroupWorld.after_ne {j : Nat} (h : i ≠ j) : (g.after i w).seats[j]? = g.seats[j]? :=
  List.getElem?_set_ne h

theorem yields_onSeat {α : Type} {p : Exec α} {r : Except ExecutionError α} :
    Yields (onSeat i p) g r g' ↔ ∃ seat w, g.seats[i]? = some seat
      ∧ Yields p (g.at seat) r w ∧ g' = g.after i w := by
  unfold Yields
  show onSeat i p g = some (r, g') ↔ _
  unfold onSeat
  cases hseat : g.seats[i]? with
  | none => simp
  | some seat =>
    simp only [Option.some.injEq, exists_and_left, exists_eq_left']
    cases hp : p.run.run (g.at seat) with
    | none => simp
    | some result =>
      obtain ⟨r', w⟩ := result
      simp only [Option.some.injEq, Prod.mk.injEq]
      constructor
      · intro hboth
        obtain ⟨rfl, rfl⟩ := hboth
        exact ⟨w, ⟨rfl, rfl⟩, rfl⟩
      · intro hfound
        obtain ⟨w', ⟨rfl, rfl⟩, rfl⟩ := hfound
        exact ⟨rfl, rfl⟩

-- ==== calls of a group

namespace Group

variable {group : Group} {operation : Operation} {members : List Member} {P : GroupWorld → Prop}
  {s s' : GroupState} {a : GroupAction} {fuel i : Nat}

theorem yields_execute {env : Env} {item : PlanItem} {resolution : Option ConflictResolution}
    {r : Except ExecutionError ExecutionOutcome}
    (h : Yields (group.execute env operation item resolution fuel) g r g') :
    (g' = g ∧ item.entry.location ∈ g.stale ∧ r = .error (goneWarning item))
    ∨ (g' = g ∧ r = .error (.failed group.missing))
    ∨ ∃ i member, group.owner g item.entry.location = some (i, member)
        ∧ item.entry.location ∉ g.stale
        ∧ Yields (onSeat i (member.execute env operation item resolution fuel)) g r g' := by
  unfold execute at h
  rw [yields_gets_bind] at h
  split at h
  case isTrue hstale =>
    obtain ⟨rfl, rfl⟩ := yields_throw.mp h
    exact .inl ⟨rfl, hstale, rfl⟩
  case isFalse hfresh =>
    split at h
    case h_1 i member howner => exact .inr (.inr ⟨i, member, howner, hfresh, h⟩)
    case h_2 =>
      obtain ⟨rfl, rfl⟩ := yields_throw.mp h
      exact .inr (.inl ⟨rfl, rfl⟩)

theorem ownerFrom_eq_some {location : Location} {seats : List Seat} {j : Nat} {member : Member}
    (h : ownerFrom location seats i members = some (j, member)) :
    member ∈ members ∧ i ≤ j ∧ members[j - i]? = some member
      ∧ ∃ seat, seats[j]? = some seat ∧ member.knows location seat.cells = true := by
  induction members generalizing i with
  | nil => cases h
  | cons head rest ih =>
    unfold ownerFrom at h
    split at h
    case isTrue hknows =>
      injection h with h
      injection h with hj hmember
      subst hj hmember
      obtain ⟨seat, hseat, hk⟩ := (Option.any_eq_true _ _).mp hknows
      exact ⟨List.mem_cons_self, le_rfl, by simp, seat, hseat, hk⟩
    case isFalse =>
      obtain ⟨hmem, hle, hget, hseat⟩ := ih h
      refine ⟨List.mem_cons_of_mem _ hmem, by omega, ?_, hseat⟩
      rw [show j - i = (j - (i + 1)) + 1 by omega]
      exact hget

theorem keeps_eachMember {call : Nat → Member → Exec PUnit}
    {r : Except ExecutionError PUnit}
    (hcall : ∀ j member, member ∈ members → ∀ g r g', P g →
      Yields (onSeat j (call j member)) g r g' → P g')
    (hP : P g) (h : Yields (eachMember call i members) g r g') : P g' := by
  induction members generalizing i g with
  | nil => exact (yields_pure.mp h).2 ▸ hP
  | cons member rest ih =>
    unfold eachMember at h
    rcases yields_bind.mp h with ⟨_, g₁, hfirst, h⟩ | ⟨e, hfirst, -⟩
    · have hP₁ := hcall i member List.mem_cons_self _ _ _ hP hfirst
      exact ih (fun j m hm => hcall j m (List.mem_cons_of_mem _ hm)) hP₁ h
    · exact hcall i member List.mem_cons_self _ _ _ hP hfirst

theorem keeps_plan {envs : Nat → Env}
    {r : Except ExecutionError OperationPlan}
    (hplan : ∀ j member, member ∈ group.members → ∀ g r g', P g →
      Yields (onSeat j (member.plan (envs j) operation fuel)) g r g' → P g')
    (hstale : ∀ g source, P g → P { g with stale := source :: g.stale })
    (hP : P g) (h : Yields (group.plan envs operation fuel) g r g') : P g' := by
  have hmember : ∀ j member, member ∈ group.members → ∀ g r g', P g →
      Yields (planMember (envs j) operation fuel j member) g r g' → P g' := by
    intro j member hmem g r g' hP h
    unfold planMember at h
    rcases yields_bind.mp h with ⟨result, g₁, hcaught, h⟩ | ⟨e, hcaught, -⟩
    case inr => obtain ⟨_, heq, -⟩ := yields_caught.mp hcaught; cases heq
    obtain ⟨_, heq, hseat⟩ := yields_caught.mp hcaught
    have hP₁ := hplan j member hmem _ _ _ hP hseat
    split at h
    case h_1 => exact (yields_pure.mp h).2 ▸ hP₁
    case h_2 =>
      split at h
      case h_1 => exact (yields_throw.mp h).2 ▸ hP₁
      case h_2 => exact (yields_throw.mp h).2 ▸ hP₁
      case h_3 source _ =>
        replace h := yields_writes_bind.mp h
        exact (yields_pure.mp h).2 ▸ hstale _ source hP₁
    case h_3 => exact (yields_throw.mp h).2 ▸ hP₁
  have hmembers : ∀ members, (∀ member ∈ members, member ∈ group.members) →
      ∀ i g r g', P g → Yields (planMembers envs operation fuel i members) g r g' →
        P g' := by
    intro members
    induction members with
    | nil => intro _ i g r g' hP h; exact (yields_pure.mp h).2 ▸ hP
    | cons member rest ih =>
      intro hsub i g r g' hP h
      unfold planMembers at h
      rcases yields_bind.mp h with ⟨items, g₁, hfirst, h⟩ | ⟨e, hfirst, -⟩
      case inr => exact hmember i member (hsub _ List.mem_cons_self) _ _ _ hP hfirst
      have hP₁ := hmember i member (hsub _ List.mem_cons_self) _ _ _ hP hfirst
      rw [yields_bind] at h
      have hrest := ih fun m hm => hsub m (List.mem_cons_of_mem _ hm)
      rcases h with ⟨more, g₂, hmore, h⟩ | ⟨e, hmore, -⟩
      · exact (yields_pure.mp h).2 ▸ hrest _ _ _ _ hP₁ hmore
      · exact hrest _ _ _ _ hP₁ hmore
  unfold plan at h
  rcases yields_bind.mp h with ⟨items, g₁, hitems, h⟩ | ⟨e, hitems, -⟩
  · have hP₁ := hmembers _ (fun _ hm => hm) _ _ _ _ hP hitems
    split at h
    case isTrue => exact (yields_pure.mp h).2 ▸ hP₁
    case isFalse => exact absurd h not_yields_stuck
  · exact hmembers _ (fun _ hm => hm) _ _ _ _ hP hitems

-- ==== the steps

theorem answer_eq_some {α : Type} {call : GroupExec α}
    {returns : Except ExecutionError α → Scheduler.Action} (h : s.answer call returns = some s') :
    ∃ result, Yields call s.world result s'.world
      ∧ Scheduler.apply false (returns result) s.job = some s'.job := by
  unfold GroupState.answer at h
  split at h
  case h_1 => cases h
  case h_2 result world hcall =>
    split at h
    case h_1 => cases h
    case h_2 job hjob =>
      cases h
      exact ⟨result, hcall, hjob⟩

/-- Everything one action can do to a group's job. -/
inductive Steps (group : Group) (s : GroupState) : GroupAction → GroupState → Prop
  | job {action : Scheduler.Action} {s' : GroupState}
      (hreturn : isReturn action = false) (hworld : s'.world = s.world)
      (hjob : Scheduler.apply false action s.job = some s'.job) :
      Steps group s (.job action) s'
  | plan {envs : Nat → Env} {fuel : Nat} {s' : GroupState}
      {result : Except ExecutionError OperationPlan}
      (hcall : Yields (group.plan (fun i => (envs i).heeding s.job.cancellation)
        s.job.operation fuel) s.world result s'.world)
      (hjob : Scheduler.apply false (.planReturns result) s.job = some s'.job) :
      Steps group s (.plan envs fuel) s'
  | execute {env : Env} {fuel : Nat} {s' : GroupState} {work : Scheduler.Work}
      {resolution : Option ConflictResolution}
      {result : Except ExecutionError ExecutionOutcome}
      (hprogress : s.job.runner.inProgress = some (work, resolution))
      (hcall : Yields (group.execute (env.heeding s.job.cancellation) s.job.operation
        work.item resolution fuel) s.world result s'.world)
      (hjob : Scheduler.apply false (.executeReturns result) s.job = some s'.job) :
      Steps group s (.execute env fuel) s'
  | finish {envs : Nat → Env} {s' : GroupState} {result : Except ExecutionError Unit}
      (hcall : Yields (group.finish fun i => (envs i).heeding s.job.cancellation)
        s.world result s'.world)
      (hjob : Scheduler.apply false (.finishReturns result) s.job = some s'.job) :
      Steps group s (.finish envs) s'
  | cleanup {envs : Nat → Env} {s' : GroupState} {result : Except ExecutionError Unit}
      (hcall : Yields (group.cleanupPartial envs) s.world result s'.world)
      (hjob : Scheduler.apply false (.cleanupReturns result) s.job = some s'.job) :
      Steps group s (.cleanup envs) s'

theorem steps_of_apply (h : group.apply a s = some s') : Steps group s a s' := by
  cases a with
  | job action =>
    simp only [apply] at h
    obtain ⟨hreturn, h⟩ := passed h nofun
    split at h
    case h_1 => cases h
    case h_2 job hjob =>
      cases h
      exact .job (by simpa using hreturn) rfl hjob
  | plan envs fuel =>
    obtain ⟨result, hcall, hjob⟩ := answer_eq_some h
    exact .plan hcall hjob
  | execute env fuel =>
    simp only [apply] at h
    split at h
    case h_1 => cases h
    case h_2 work resolution hprogress =>
      obtain ⟨result, hcall, hjob⟩ := answer_eq_some h
      exact .execute hprogress hcall hjob
  | finish envs =>
    obtain ⟨result, hcall, hjob⟩ := answer_eq_some h
    exact .finish hcall hjob
  | cleanup envs =>
    obtain ⟨result, hcall, hjob⟩ := answer_eq_some h
    exact .cleanup hcall hjob

theorem Steps.job_apply (h : Steps group s a s') :
    ∃ action, Scheduler.apply false action s.job = some s'.job := by
  cases h with
  | job _ _ hjob | plan _ hjob | execute _ _ hjob | finish _ hjob | cleanup _ hjob =>
    exact ⟨_, hjob⟩

-- ==== the runs

section Run

variable {tree : FileTree} {request : Request} {now : Timestamp}
  {acts : List GroupAction} {ok : GroupState → GroupAction → Prop}

theorem job_run (hrun : Run group.apply ok (group.submitted tree request now) acts s) :
    ∃ actions, Run (Scheduler.apply false) Free (startOperation request now) actions s.job := by
  induction hrun with
  | start => exact ⟨[], .start⟩
  | snoc a _ _ hstep ih =>
    obtain ⟨actions, hjob⟩ := ih
    obtain ⟨action, hnext⟩ := (steps_of_apply hstep).job_apply
    exact ⟨_, hjob.snoc action trivial hnext⟩

theorem lifecycle_run (hrun : Run group.apply ok (group.submitted tree request now) acts s) :
    Scheduler.Lifecycle s.job := by
  obtain ⟨actions, hjob⟩ := job_run hrun
  exact Scheduler.run_invariant (P := fun _ s => Scheduler.Lifecycle s) hjob
    (.start request now) fun hlife _ hs _ => hlife.step hs

end Run

end Group

end FileManager.Transfers
