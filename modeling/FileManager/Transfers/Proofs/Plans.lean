/-
What a plan of `CopyExecutor` that is returned rests on, and that this
is enough for it to be returned (`yields_plan_iff`). A copy's plan
depends on nothing else of the executor, so copies of one source into
one directory, under one symlink policy, plan alike.
-/
import FileManager.Transfers.Proofs.Planning

namespace FileManager.Transfers

open Fallible
open Scheduler (ExecutionError OperationPlan)

variable {env : Env} {operation : Operation} {fuel : Nat} {α ε : Type} {a : α} {w : World}
  {message : ε → String} {result : Except ε α} {call : Call}

theorem plan_eq_of_items {plan plan' : OperationPlan} (h : plan.items = plan'.items) :
    plan = plan' := by
  obtain ⟨items, total, bytes, fits, htotal, hbytes⟩ := plan
  obtain ⟨items', total', bytes', fits', htotal', hbytes'⟩ := plan'
  have hitems : items = items' := h
  subst hitems htotal htotal' hbytes hbytes'
  rfl

/-- An executor that has not been called. -/
def idleOn (tree : FileTree) : World where
  disk := { files := tree.nodes, staged := [], log := [] }
  cells := {}
  fallback := false

-- ==== calls that answer

theorem orFail_ok (h : result = .ok a) (w : World) : Yields (orFail message result) w (.ok a) w := by
  rw [h]
  exact yields_pure.mpr ⟨rfl, rfl⟩

theorem orFail_error {e : ε} (h : result = .error e)
    (w : World) : Yields (orFail message result) w (.error (.failed (message e))) w := by
  rw [h]
  exact yields_throw.mpr ⟨rfl, rfl⟩

theorem consult_ok {answer : Files → Except VfsError α}
    (h : env.ask call (answer w.disk.files) = .ok a) :
    Yields (consult env call answer) w (.ok a) w := by
  refine yields_reads.mpr ⟨?_, rfl⟩
  rw [h]
  rfl

theorem Env.ask_eq_ok {answer : Except VfsError α} :
    env.ask call answer = .ok a ↔ env.fault call = none ∧ answer = .ok a := by
  unfold Env.ask
  cases env.fault call with
  | none => simp
  | some fault => simp

/-- Nothing goes wrong in the provider's calls, and nobody cancels. -/
structure Env.Undisturbed (env : Env) : Prop where
  answers : ∀ call, env.fault call = none
  continues : ∀ check, env.cancelled check = false

theorem Env.Undisturbed.ask (h : env.Undisturbed) (call : Call) (answer : Except VfsError α) :
    env.ask call answer = answer := by
  unfold Env.ask
  rw [h.answers call]

-- ==== calls that return

def Returns {α : Type} (p : Exec α) (w : World) : Prop := ∃ r w', Yields p w r w'

theorem Returns.bind {β : Type} {p : Exec α} {f : α → Exec β} (hp : Returns p w)
    (hf : ∀ a w', Yields p w (.ok a) w' → Returns (f a) w') : Returns (p >>= f) w := by
  obtain ⟨r, w₁, hr⟩ := hp
  cases r with
  | error e => exact ⟨.error e, w₁, yields_bind.mpr (.inr ⟨e, hr, rfl⟩)⟩
  | ok a =>
    obtain ⟨r', w', hr'⟩ := hf a w₁ hr
    exact ⟨r', w', (yields_bind_of hr).mpr hr'⟩

theorem returns_reads {g : World → Except ExecutionError α} : Returns (reads g) w :=
  ⟨_, w, yields_reads.mpr ⟨rfl, rfl⟩⟩

theorem returns_orFail : Returns (orFail message result) w := by
  cases result with
  | ok a => exact ⟨_, w, orFail_ok rfl w⟩
  | error e => exact ⟨_, w, orFail_error rfl w⟩

theorem returns_onlyIf {c : Bool} {p : Exec PUnit} (hp : Returns p w) : Returns (onlyIf c p) w := by
  cases c with
  | true => exact hp
  | false => exact ⟨_, w, yields_pure.mpr ⟨rfl, rfl⟩⟩

namespace CopyExecutor

variable {copy copy' : CopyExecutor} {summary : EntrySummary} {destination source root : Location}
  {st : Planning} {w w' : World} {files : Files}

-- ==== the spec

/-- What a plan that is returned rests on: the source's summary, the
root's destination, and how the planning loop ends. -/
structure Makes (copy : CopyExecutor) (env : Env) (fuel : Nat) (source : Location)
    (w : World) (summary : EntrySummary) (destination : Location) (st : Planning) :
    Prop where
  asked : env.ask .inspectRoot (inspect env w.disk.files source) = .ok summary
  joined : copy.destinationDirectory.join (w.cells.rootName.getD summary.name) = .ok destination
  checked : source.providerId = destination.providerId →
    validatePaths source destination = .ok ()
  walked : copy.planLoop env w.disk.files source fuel (planningFrom summary destination)
    = some (.ok st)

theorem Makes.location (h : copy.Makes env fuel source w summary destination st) :
    summary.location = source :=
  (inspect_eq_ok (Env.ask_eq_ok.mp h.asked).2).1

/-- The world after a plan. -/
def planWritten (w : World) (st : Planning) : World :=
  { w with cells := w.cells.setPlan st.planned st.directories }

theorem yields_runPlanning_ok :
    Yields (copy.runPlanning env fuel summary destination) w (.ok st) w'
      ↔ copy.planLoop env w.disk.files summary.location fuel
          (planningFrom summary destination) = some (.ok st) ∧ w' = w := by
  constructor
  · intro h
    obtain ⟨hw, hloop⟩ := yields_runPlanning h
    exact ⟨hloop, hw⟩
  · rintro ⟨hloop, rfl⟩
    show (copy.planLoop env w'.disk.files summary.location fuel
      (planningFrom summary destination)).map (fun result => (result, w')) = _
    rw [hloop]
    rfl

theorem yields_check_ok :
    Yields (onlyIf (source.providerId = destination.providerId)
        (orFail SafetyError.message (validatePaths source destination))) w (.ok ⟨⟩) w'
      ↔ (source.providerId = destination.providerId →
          validatePaths source destination = .ok ()) ∧ w' = w := by
  rw [yields_onlyIf, decide_eq_true_iff, decide_eq_false_iff_not]
  constructor
  · intro h
    rcases h with ⟨-, hcheck⟩ | ⟨hother, -, hw⟩
    · obtain ⟨hw, ⟨_, hvalid, -⟩ | ⟨_, -, heq⟩⟩ := yields_orFail hcheck
      · exact ⟨fun _ => hvalid, hw⟩
      · cases heq
    · exact ⟨fun hsame => absurd hsame hother, hw⟩
  · rintro ⟨hvalid, rfl⟩
    by_cases hsame : source.providerId = destination.providerId
    · exact .inl ⟨hsame, orFail_ok (hvalid hsame) w'⟩
    · exact .inr ⟨hsame, rfl, rfl⟩

theorem yields_plan_iff (hsource : copy.sourceOf operation = pure source) {plan : OperationPlan} :
    Yields (copy.plan env operation fuel) w (.ok plan) w'
      ↔ ∃ summary destination st, copy.Makes env fuel source w summary destination st
          ∧ plan.items = st.items ∧ w' = planWritten w st := by
  unfold CopyExecutor.plan
  rw [hsource, yields_bind_of (yields_pure.mpr ⟨rfl, rfl⟩)]
  constructor
  · intro h
    obtain ⟨summary, w₁, hasked, h⟩ := yields_bind_ok.mp h
    obtain ⟨cells, w₂, hcells, h⟩ := yields_bind_ok.mp h
    obtain ⟨destination, w₃, hjoin, h⟩ := yields_bind_ok.mp h
    obtain ⟨_, w₄, hcheck, h⟩ := yields_bind_ok.mp h
    obtain ⟨st, w₅, hplanning, h⟩ := yields_bind_ok.mp h
    obtain ⟨_, w₆, hset, h⟩ := yields_bind_ok.mp h
    obtain ⟨hask, rfl⟩ := yields_reads.mp hasked
    obtain ⟨heq, rfl⟩ := yields_reads.mp hcells
    cases heq
    obtain ⟨rfl, ⟨_, hroot, heq⟩ | ⟨_, -, heq⟩⟩ := yields_orFail hjoin
    case inr => cases heq
    cases heq
    obtain ⟨hvalid, rfl⟩ := yields_check_ok.mp hcheck
    obtain ⟨hloop, rfl⟩ := yields_runPlanning_ok.mp hplanning
    obtain ⟨-, rfl⟩ := yields_writes.mp hset
    have hfound : env.ask .inspectRoot (inspect env w₅.disk.files source) = .ok summary := by
      cases hanswer : env.ask .inspectRoot (inspect env w₅.disk.files source) with
      | ok found => rw [hanswer] at hask; injection hask with hask; rw [hask]
      | error error => rw [hanswer] at hask; cases hask
    rw [(inspect_eq_ok (Env.ask_eq_ok.mp hfound).2).1] at hloop
    split at h
    case isFalse => exact absurd h not_yields_stuck
    case isTrue fits =>
      obtain ⟨hplan, rfl⟩ := yields_pure.mp h
      cases hplan
      exact ⟨summary, _, st, ⟨hfound, hroot, hvalid, hloop⟩, rfl, rfl⟩
  · rintro ⟨summary, destination, st, hmakes, hitems, rfl⟩
    have hloop := hmakes.walked
    rw [← hmakes.location] at hloop
    have hcells : Yields (reads fun w => .ok w.cells : Exec CopyCells) w (.ok w.cells) w :=
      yields_reads.mpr ⟨rfl, rfl⟩
    have hset : Yields (setCells (CopyCells.setPlan st.planned st.directories)) w
        (.ok ⟨⟩) (planWritten w st) :=
      yields_writes.mpr ⟨rfl, rfl⟩
    rw [yields_bind_of (consult_ok hmakes.asked), yields_bind_of hcells,
      yields_bind_of (orFail_ok hmakes.joined w),
      yields_bind_of (yields_check_ok.mpr ⟨hmakes.checked, rfl⟩),
      yields_bind_of (yields_runPlanning_ok.mpr ⟨hloop, rfl⟩), yields_bind_of hset]
    have fits : st.items.length ≤ Word.max := by
      rw [← hitems]
      exact plan.fits
    rw [dif_pos fits]
    refine yields_pure.mpr ⟨?_, rfl⟩
    rw [@plan_eq_of_items _ (OperationPlan.new st.items fits) hitems]

theorem returns_plan (hsource : copy.sourceOf operation = pure source)
    (hloop : ∀ summary destination,
      env.ask .inspectRoot (inspect env w.disk.files source) = .ok summary →
      copy.destinationDirectory.join (w.cells.rootName.getD summary.name) = .ok destination →
      ∃ r, copy.planLoop env w.disk.files source fuel (planningFrom summary destination)
        = some r ∧ ∀ st, r = .ok st → st.items.length ≤ Word.max) :
    Returns (copy.plan env operation fuel) w := by
  unfold CopyExecutor.plan
  rw [hsource]
  refine .bind ⟨_, w, yields_pure.mpr ⟨rfl, rfl⟩⟩ fun source' w₁ hpure => ?_
  obtain ⟨heq, rfl⟩ := yields_pure.mp hpure
  injection heq with heq
  subst heq
  refine .bind returns_reads fun summary w₂ hasked => ?_
  obtain ⟨hask, rfl⟩ := yields_reads.mp hasked
  have hfound : env.ask .inspectRoot (inspect env w₂.disk.files source') = .ok summary := by
    cases hanswer : env.ask .inspectRoot (inspect env w₂.disk.files source') with
    | ok found => rw [hanswer] at hask; injection hask with hask; rw [hask]
    | error error => rw [hanswer] at hask; cases hask
  refine .bind returns_reads fun cells w₃ hcells => ?_
  obtain ⟨heq, rfl⟩ := yields_reads.mp hcells
  injection heq with heq
  subst heq
  refine .bind returns_orFail fun destination w₄ hjoin => ?_
  obtain ⟨rfl, ⟨_, hjoined, heq⟩ | ⟨_, -, heq⟩⟩ := yields_orFail hjoin
  case inr => cases heq
  injection heq with heq
  subst heq
  refine .bind (returns_onlyIf returns_orFail) fun _ w₅ hcheck => ?_
  obtain ⟨-, rfl⟩ := yields_check_ok.mp hcheck
  obtain ⟨r, hr, hfits⟩ := hloop summary _ hfound hjoined
  refine .bind ⟨r, w₅, ?_⟩ fun st w₆ hplanning => ?_
  · show (copy.planLoop env w₅.disk.files summary.location fuel
      (planningFrom summary destination)).map (fun result => (result, w₅)) = _
    rw [(inspect_eq_ok (Env.ask_eq_ok.mp hfound).2).1, hr]
    rfl
  obtain ⟨hended, rfl⟩ := yields_runPlanning_ok.mp hplanning
  rw [(inspect_eq_ok (Env.ask_eq_ok.mp hfound).2).1, hr] at hended
  injection hended with hended
  refine .bind ⟨_, _, yields_writes.mpr ⟨rfl, rfl⟩⟩ fun _ w₇ _ => ?_
  rw [dif_pos (hfits st hended)]
  exact ⟨_, _, yields_pure.mpr ⟨rfl, rfl⟩⟩

-- ==== equal copies

theorem visit_eq_of_policy (hpolicy : copy.symlinkPolicy = copy'.symlinkPolicy) {round : Nat} :
    copy.visit env files root round summary destination st
      = copy'.visit env files root round summary destination st := by
  unfold visit follow
  rw [hpolicy]

theorem planLoop_eq_of_policy (hpolicy : copy.symlinkPolicy = copy'.symlinkPolicy) :
    copy.planLoop env files root fuel st = copy'.planLoop env files root fuel st := by
  induction fuel generalizing st with
  | zero =>
    unfold planLoop
    cases st.stack with
    | nil => rfl
    | cons top rest => rfl
  | succ fuel ih =>
    unfold planLoop
    cases st.stack with
    | nil => rfl
    | cons top rest =>
      simp only [visit_eq_of_policy hpolicy]
      split
      · rfl
      · exact ih

theorem Makes.of_policy (h : copy.Makes env fuel source w summary destination st)
    (hdirectory : copy.destinationDirectory = copy'.destinationDirectory)
    (hpolicy : copy.symlinkPolicy = copy'.symlinkPolicy) :
    copy'.Makes env fuel source w summary destination st where
  asked := h.asked
  joined := hdirectory ▸ h.joined
  checked := h.checked
  walked := by
    rw [← planLoop_eq_of_policy hpolicy]
    exact h.walked

end CopyExecutor

end FileManager.Transfers
