/-
Progress accounting: what `completed_items` and `completed_bytes` count.

# The argument

At every position of `run_job` the plan splits in two: the items that
have been counted, each with how it ended (`outcomes`), and the items the
runner still has before it (`Runner.remaining`: the rest of the first
pass and what it deferred). A step moves at most one item from the second
list to the first.

The counters are the length of the first list and the bytes of its
completed items, as saturating additions leave them. The length fits,
because the plan's does; the bytes need not.
-/
import FileManager.Operations.Proofs.Gate
import Mathlib.Algebra.Order.BigOperators.Group.List
import Mathlib.Algebra.Order.Ring.Nat
import Mathlib.Data.List.Perm.Subperm

namespace FileManager.Scheduler

open Machine List Word Work PlanItem

variable {req : Bool} {s s' : State} {a : Action}

-- ==== the items of a plan

theorem OperationPlan.work_map_item (plan : OperationPlan) :
    plan.work.map item = plan.items := by
  unfold OperationPlan.work
  rw [map_map]
  exact zipIdx_map_fst 0 plan.items

theorem OperationPlan.work_map_index_nodup (plan : OperationPlan) :
    (plan.work.map index).Nodup := by
  unfold OperationPlan.work
  rw [map_map]
  have hindex : plan.items.zipIdx.map (index ∘ fun p =>
      { index := p.2, item := p.1 }) = plan.items.zipIdx.map Prod.snd := rfl
  rw [hindex, zipIdx_map_snd]
  exact nodup_range'

theorem OperationPlan.length_work (plan : OperationPlan) :
    plan.work.length = plan.items.length := by
  rw [← plan.work_map_item, length_map]

-- ==== what is still to do

/-- The items of deferred conflicts. -/
def worksOf (deferred : List Deferred) : List Work := deferred.map Deferred.work

@[simp] theorem worksOf_nil : worksOf [] = [] := rfl

@[simp] theorem worksOf_cons (head : Deferred) (rest : List Deferred) :
    worksOf (head :: rest) = head.work :: worksOf rest := rfl

@[simp] theorem worksOf_append (first second : List Deferred) :
    worksOf (first ++ second) = worksOf first ++ worksOf second :=
  map_append

def After.remaining : After → List Work
  | .item todo deferred => todo ++ worksOf deferred
  | .decision head rest | .retry head rest => worksOf (head :: rest)

/-- The items a planned job has not counted yet, while it works. -/
def Runner.remaining : Runner → Option (List Work)
  | .checkPlanned plan | .announcePlan plan | .awaitConfirmation plan
  | .checkConfirmed plan => some plan.work
  | .nextItem todo deferred | .checkCounted todo deferred =>
    some (todo ++ worksOf deferred)
  | .checkItem work todo deferred | .callItem work todo deferred
  | .executing _ work todo deferred | .checkExecuted _ work todo deferred
  | .recordWarning _ work todo deferred | .countItem _ work todo deferred
  | .fileConflict _ work todo deferred =>
    some (work :: (todo ++ worksOf deferred))
  | .storeConflict _ _ after | .announceConflict _ after =>
    some after.remaining
  | .nextDeferred deferred => some (worksOf deferred)
  | .needConflict head rest | .awaitDecision head rest
  | .awaitCancellation head rest | .takeDecision _ head rest
  | .leaveWaiting _ head rest | .checkRetry _ head rest
  | .retrying _ head rest | .countRetry _ head rest =>
    some (worksOf (head :: rest))
  | .awaitFinish | .checkFinish | .finishing | .complete => some []
  | _ => none

/-- The plan of a job that has not announced one: `some none` while it
has none. -/
def Runner.unannounced : Runner → Option (Option OperationPlan)
  | .acquire | .checkAcquired | .enterPlanning | .planning => some none
  | .checkPlanned plan | .announcePlan plan => some (some plan)
  | _ => none

theorem After.runner_remaining (after : After) : after.runner.remaining = some after.remaining := by
  cases after <;> rfl

theorem filed_perm (conflict : OperationConflict) (work : Work)
    (todo : List Work) (deferred : List Deferred) :
    (work :: (todo ++ worksOf deferred)).Perm
      (todo ++ worksOf (deferred ++ [{ work := work, conflict := conflict }])) := by
  rw [worksOf_append, ← append_assoc]
  exact (perm_append_singleton work (todo ++ worksOf deferred)).symm

theorem Moves.remaining {r r' : Runner} (h : Moves s a r r') :
    r'.remaining = none ∨ ∃ l l', r.remaining = some l ∧ r'.remaining = some l' ∧ l.Perm l' := by
  cases h with
  | @passExecuted result work todo deferred _ =>
    rcases result with error | outcome
    · cases error with
      | warning _ _ | conflict _ => exact .inr ⟨_, _, rfl, rfl, .refl _⟩
      | notImplemented | failed _ | provider _ => exact .inl rfl
    · exact .inr ⟨_, _, rfl, rfl, .refl _⟩
  | retried result =>
    rcases result with error | outcome
    · cases error with
      | conflict _ => exact .inr ⟨_, _, rfl, rfl, .refl _⟩
      | notImplemented | failed _ | provider _ | warning _ _ => exact .inl rfl
    · exact .inr ⟨_, _, rfl, rfl, .refl _⟩
  | fileFree _ | fileTaken _ => exact .inr ⟨_, _, rfl, rfl, filed_perm _ _ _ _⟩
  | passConfirmed _ =>
    refine .inr ⟨_, _, rfl, rfl, ?_⟩
    simp
  | acquire | passAcquired _ | planFailed _ | finishFailed _ | cancelled _ _
  | cleaned | cleanFailed _ | handlerCleanFailed _ | illegal _ _ _
  | handleCancelled _ | abandon _ | abandoned _ => exact .inl rfl
  | _ =>
    exact .inr ⟨_, _, rfl, rfl, .refl _⟩

theorem Moves.unannounced {r r' : Runner} {plan : Option OperationPlan}
    (h : Moves s a r r') (hr' : r'.unannounced = some plan) : r.unannounced = some plan := by
  cases h with
  | acquire | passAcquired _ | passPlanned _ => exact hr'
  | @passExecuted result _ _ _ _ | retried result =>
    rcases result with error | outcome
    · cases error <;> cases hr'
    · cases hr'
  | _ => cases hr'

-- ==== the account

/-- The bytes a counted item adds: those of a completed one. -/
def contribution (outcome : Work × Ending) : Nat :=
  if outcome.2 = .completed then outcome.1.item.bytes else 0

/-- The bytes of the items whose outcome was `Completed`. -/
def completedBytes (outcomes : List (Work × Ending)) : Nat := (outcomes.map contribution).sum

def OperationState.isThrough : OperationState → Bool
  | .completed | .completedWithWarnings => true
  | _ => false

/-- What the counters and the ghosts say of each other. -/
structure Accounted (s : State) : Prop where
  items : s.operation.progress.completedItems = min s.outcomes.length max
  bytes : s.operation.progress.completedBytes = min (completedBytes s.outcomes) max
  totals : (s.operation.progress.totalItems = none ∧ s.operation.progress.totalBytes = none)
    ∨ ∃ plan, s.plan = some plan ∧ s.operation.progress.totalItems = plan.totalItems
      ∧ s.operation.progress.totalBytes = plan.totalBytes
  unannounced : ∀ plan, s.runner.unannounced = some plan → s.plan = plan
  uncounted : s.plan = none → s.outcomes = []
  counted : ∀ plan, s.plan = some plan → (s.outcomes.map Prod.fst).Subperm plan.work
  remaining : ∀ rest, s.runner.remaining = some rest →
    ∃ plan, s.plan = some plan ∧ (s.outcomes.map Prod.fst ++ rest).Perm plan.work
  through : OperationState.isThrough s.operation.state = true →
    ∃ plan, s.plan = some plan ∧ (s.outcomes.map Prod.fst).Perm plan.work

/-- The cells and ghosts the account reads, apart from the runner and
the state. -/
structure SameAccount (s s' : State) : Prop where
  progress : s'.operation.progress = s.operation.progress
  plan : s'.plan = s.plan
  outcomes : s'.outcomes = s.outcomes

theorem Accounted.of_same (h : Accounted s) (hsame : SameAccount s s')
    (hunannounced : ∀ plan, s'.runner.unannounced = some plan → s.runner.unannounced = some plan)
    (hremaining : s'.runner.remaining = none
      ∨ ∃ l l', s.runner.remaining = some l ∧ s'.runner.remaining = some l' ∧ l.Perm l')
    (hthrough : OperationState.isThrough s'.operation.state = true →
      OperationState.isThrough s.operation.state = true ∨ s.runner.remaining = some []) :
    Accounted s' := by
  obtain ⟨hprogress, hplan, houtcomes⟩ := hsame
  constructor
  · rw [hprogress, houtcomes]
    exact h.items
  · rw [hprogress, houtcomes]
    exact h.bytes
  · rw [hprogress, hplan]
    exact h.totals
  · rw [hplan]
    exact fun plan hu => h.unannounced plan (hunannounced plan hu)
  · rw [hplan, houtcomes]
    exact h.uncounted
  · rw [hplan, houtcomes]
    exact h.counted
  · intro rest hrest
    rw [hplan, houtcomes]
    rcases hremaining with hnone | ⟨l, l', hl, hl', hperm⟩
    · simp [hnone] at hrest
    · obtain ⟨plan, hp, hall⟩ := h.remaining l hl
      have heq : l' = rest := by
        rw [hl'] at hrest
        injection hrest
      subst heq
      exact ⟨plan, hp, (hperm.append_left _).symm.trans hall⟩
  · intro ht
    rw [hplan, houtcomes]
    rcases hthrough ht with hwas | hnothing
    · exact h.through hwas
    · obtain ⟨plan, hp, hall⟩ := h.remaining [] hnothing
      rw [append_nil] at hall
      exact ⟨plan, hp, hall⟩

theorem Accounted.of_control (h : Accounted s) (hsame : SameAccount s s')
    (hrunner : s'.runner = s.runner)
    (hthrough : OperationState.isThrough s'.operation.state = true →
      OperationState.isThrough s.operation.state = true) : Accounted s' := by
  refine h.of_same hsame (by rw [hrunner]; exact fun _ => id) ?_ fun ht => .inl (hthrough ht)
  rw [hrunner]
  cases hrem : s.runner.remaining with
  | none => exact .inl rfl
  | some l => exact .inr ⟨l, l, rfl, rfl, .refl l⟩

theorem not_through_of_live (h : s.operation.state.isTerminal = false) :
    OperationState.isThrough s.operation.state = false := by
  cases hs : s.operation.state <;> rw [hs] at h <;> first | rfl | cases h

theorem Accounted.count {work : Work} {ending : Ending} {rest : List Work} (h : Accounted s)
    (hnext : s.runner.remaining = some (work :: rest))
    (hlive : s.operation.state.isTerminal = false)
    (hitems : s'.operation.progress.completedItems
      = satAdd s.operation.progress.completedItems 1)
    (hbytes : s'.operation.progress.completedBytes
      = satAdd s.operation.progress.completedBytes (contribution (work, ending)))
    (htotals : s'.operation.progress.totalItems = s.operation.progress.totalItems
      ∧ s'.operation.progress.totalBytes = s.operation.progress.totalBytes)
    (hstate : s'.operation.state = s.operation.state) (hplan : s'.plan = s.plan)
    (houtcomes : s'.outcomes = s.outcomes ++ [(work, ending)])
    (hrest : s'.runner.remaining = some rest) (hannounced : s'.runner.unannounced = none) :
    Accounted s' := by
  obtain ⟨plan, hp, hall⟩ := h.remaining _ hnext
  have hall' : (s'.outcomes.map Prod.fst ++ rest).Perm plan.work := by
    rw [houtcomes, map_append, append_assoc]
    exact hall
  constructor
  · rw [hitems, h.items, satAdd_min, houtcomes, length_append]
    rfl
  · rw [hbytes, h.bytes, satAdd_min, houtcomes]
    simp [completedBytes]
  · rw [htotals.1, htotals.2, hplan]
    exact h.totals
  · intro plan' hu
    simp [hannounced] at hu
  · intro hnone
    rw [hplan, hp] at hnone
    cases hnone
  · intro plan' hp'
    rw [hplan, hp] at hp'
    injection hp' with hp'
    subst hp'
    exact (sublist_append_left _ rest).subperm.trans hall'.subperm
  · intro rest' hrest'
    rw [hrest] at hrest'
    injection hrest' with heq
    subst heq
    exact ⟨plan, by rw [hplan, hp], hall'⟩
  · intro ht
    rw [hstate, not_through_of_live hlive] at ht
    cases ht

theorem Accounted.plan {plan : OperationPlan} (h : Accounted s) (hr : s.runner = .planning) :
    Accounted { s with runner := .checkPlanned plan, plan := some plan } := by
  have hnone := h.unannounced none (by rw [hr]; rfl)
  have hempty := h.uncounted hnone
  refine ⟨h.items, h.bytes, ?_, fun plan' hu => ?_, fun hc => ?_, fun _ _ => ?_,
    fun rest hrest => ?_, fun ht => ?_⟩
  · refine .inl (h.totals.resolve_right ?_)
    intro hfound
    obtain ⟨plan, hp, -⟩ := hfound
    simp [hnone] at hp
  · injection hu
  · cases hc
  · show (s.outcomes.map Prod.fst).Subperm _
    rw [hempty]
    exact nil_subperm
  · cases hrest
    refine ⟨plan, rfl, ?_⟩
    show (s.outcomes.map Prod.fst ++ plan.work).Perm plan.work
    rw [hempty]
    exact .refl _
  · obtain ⟨plan', hp, -⟩ := h.through ht
    simp [hnone] at hp

theorem Accounted.announce {plan : OperationPlan} {r : Runner}
    {operation : Operation} {events : List Event} (h : Accounted s)
    (hr : s.runner = .announcePlan plan)
    (hprogress : operation.progress = (announceTotals s plan).operation.progress)
    (hthrough : OperationState.isThrough operation.state = false)
    (hannounced : r.unannounced = none)
    (hremaining : r.remaining = none ∨ r.remaining = some plan.work) :
    Accounted { s with operation := operation, events := events, runner := r } := by
  have hplan := h.unannounced (some plan) (by rw [hr]; rfl)
  have hall := h.remaining plan.work (by rw [hr]; rfl)
  refine ⟨?_, ?_, .inr ⟨plan, hplan, ?_, ?_⟩, fun plan' hu => ?_, h.uncounted,
    h.counted, fun rest hrest => ?_, fun ht => ?_⟩
  · show operation.progress.completedItems = _
    rw [hprogress]
    exact h.items
  · show operation.progress.completedBytes = _
    rw [hprogress]
    exact h.bytes
  · show operation.progress.totalItems = _
    rw [hprogress]
    rfl
  · show operation.progress.totalBytes = _
    rw [hprogress]
    rfl
  · rw [show _ = none from hannounced] at hu
    cases hu
  · rcases hremaining with hnone | hsome
    · rw [show _ = none from hnone] at hrest
      cases hrest
    · rw [show _ = some plan.work from hsome] at hrest
      cases hrest
      exact hall
  · rw [show _ = false from hthrough] at ht
    cases ht

-- ==== the step lemma

theorem Enters.not_through {before after : Operation} {next : OperationState} {P : Prop}
    (h : Enters before next after) (hnext : OperationState.isThrough next = false) :
    OperationState.isThrough after.state = true → P := by
  intro ht
  rw [h.state, hnext] at ht
  cases ht

theorem announced_not_through (req : Bool) (plan : OperationPlan) :
    OperationState.isThrough (announced req plan).1 = false := by
  unfold announced
  cases req <;> rfl

theorem Accounted.step (h : Accounted s) (hlife : Lifecycle s)
    (hstep : Step req s a s') : Accounted s' := by
  cases hstep with
  | move hm =>
    exact h.of_same ⟨rfl, rfl, rfl⟩ (fun _ => hm.unannounced) hm.remaining .inl
  | planned plan hr => exact h.plan hr
  | enterPlanning hr henters =>
    refine h.of_same ⟨henters.progress, rfl, rfl⟩ (fun plan hu => ?_) (.inl rfl)
      (henters.not_through rfl)
    rw [hr]
    exact hu
  | @announcePlan plan operation hr henters =>
    refine h.announce hr henters.progress ?_ ?_ (.inr ?_)
    · rw [henters.state]
      exact announced_not_through req plan
    · unfold announced
      cases req <;> rfl
    · unfold announced
      cases req with
      | true => rfl
      | false => exact congrArg some (append_nil _)
  | @announcePlanIllegal plan error hr hillegal =>
    exact h.announce hr rfl (not_through_of_live (hlife.alive hr)) rfl (.inl rfl)
  | recordWarning hr =>
    refine h.of_same ⟨rfl, rfl, rfl⟩ (fun plan hu => by cases hu)
      (.inr ⟨_, _, by rw [hr]; rfl, rfl, .refl _⟩) .inl
  | recordItem emitted hr =>
    have hlive := hlife.alive hr
    cases emitted <;> exact h.count (by rw [hr]; rfl) hlive rfl rfl ⟨rfl, rfl⟩ rfl rfl rfl rfl rfl
  | @announceConflict conflict after operation hr henters =>
    refine h.of_same ⟨henters.progress, rfl, rfl⟩ (fun plan hu => ?_)
      (.inr ⟨_, _, by rw [hr]; rfl, after.runner_remaining, .refl _⟩)
      (henters.not_through rfl)
    cases after <;> cases hu
  | storeConflict hr | takeDecision hr | callRetry hr _ =>
    exact h.of_same ⟨rfl, rfl, rfl⟩ (fun plan hu => by cases hu)
      (.inr ⟨_, _, by rw [hr]; rfl, rfl, .refl _⟩) .inl
  | leaveWaiting hr henters =>
    exact h.of_same ⟨henters.progress, rfl, rfl⟩ (fun plan hu => by cases hu)
      (.inr ⟨_, _, by rw [hr]; rfl, rfl, .refl _⟩) (henters.not_through rfl)
  | countRetry hr =>
    exact h.count (by rw [hr]; rfl) (hlife.alive hr) rfl rfl
      ⟨rfl, rfl⟩ rfl rfl rfl rfl rfl
  | complete hr henters =>
    exact h.of_same ⟨henters.progress, rfl, rfl⟩ (fun plan hu => by cases hu)
      (.inl rfl) fun _ => .inr (by rw [hr]; rfl)
  | settleCancelled handler hr =>
    obtain ⟨operation, hstate, hprogress, heq⟩ := settleCancelled_eq s handler (hlife.alive hr)
    rw [heq]
    refine h.of_same ⟨hprogress, rfl, rfl⟩ (fun plan hu => by cases hu) (.inl rfl) fun ht => ?_
    rw [show _ = OperationState.cancelled from hstate] at ht
    cases ht
  | failJob error hr =>
    obtain ⟨operation, henters, heq⟩ := failJob_eq s error (hlife.alive hr)
    rw [heq]
    exact h.of_same ⟨henters.progress, rfl, rfl⟩ (fun plan hu => by cases hu)
      (.inl rfl) (henters.not_through rfl)
  | pause hcaller henters
  | resume hcaller henters | confirm hcaller henters | cancelTransition hcaller henters =>
    exact h.of_control ⟨henters.progress, rfl, rfl⟩ rfl (henters.not_through rfl)
  | republish hcaller =>
    unfold republishPendingConflict
    split <;> exact h.of_control ⟨rfl, rfl, rfl⟩ rfl id
  | pauseToken _ | resumeToken _ | resolveConflict _ _ _ _ | cancel _
  | cancelToken _ | cancelIgnored _ _ | tick _ =>
    exact h.of_control ⟨rfl, rfl, rfl⟩ rfl id

theorem accounted_run {ok : State → Action → Prop} {request : Request} {now : Timestamp}
    {acts : List Action} (hrun : Run (apply req) ok (startOperation request now) acts s) :
    Accounted s := by
  refine run_invariant (P := fun _ s => Accounted s) hrun ?_ ?_
  · refine ⟨rfl, rfl, .inl ⟨rfl, rfl⟩, fun plan hu => ?_, fun _ => rfl, ?_, ?_, ?_⟩
    · injection hu
    · intro plan hp
      cases hp
    · intro rest hrest
      cases hrest
    · intro ht
      cases ht
  · intro acts s s' a hlife _ hstep h
    exact h.step hlife hstep

-- ==== the results

theorem Accounted.length_outcomes_le (h : Accounted s) : s.outcomes.length ≤ max := by
  cases hp : s.plan with
  | none => simp [h.uncounted hp]
  | some plan =>
    have hlen := (h.counted plan hp).length_le
    rw [length_map, plan.length_work] at hlen
    exact hlen.trans plan.fits

theorem completedBytes_le {outcomes : List (Work × Ending)} {plan : OperationPlan}
    (h : (outcomes.map Prod.fst).Subperm plan.work) :
    completedBytes outcomes ≤ (plan.items.map bytes).sum := by
  have hpoint : completedBytes outcomes
      ≤ ((outcomes.map Prod.fst).map fun w => w.item.bytes).sum := by
    rw [map_map]
    refine sum_le_sum fun o _ => ?_
    unfold contribution
    split
    case isTrue => exact le_rfl
    case isFalse => exact Nat.zero_le _
  have hplan : (plan.work.map fun w => w.item.bytes) = plan.items.map bytes := by
    rw [← plan.work_map_item, map_map]
    rfl
  obtain ⟨l, hperm, hsub⟩ := h
  calc completedBytes outcomes
      ≤ ((outcomes.map Prod.fst).map fun w => w.item.bytes).sum := hpoint
    _ = (l.map fun w => w.item.bytes).sum := (hperm.map _).sum_eq.symm
    _ ≤ (plan.work.map fun w => w.item.bytes).sum :=
        (hsub.map _).sum_le_sum fun _ _ => Nat.zero_le _
    _ = (plan.items.map bytes).sum := by rw [hplan]

/-- What the progress of an operation says of its plan. -/
structure ProgressAccounts (s : State) : Prop where
  /-- Every increment of `completed_items` is for an item, -/
  items : s.operation.progress.completedItems = s.outcomes.length
  /-- for a different one each time, -/
  once : (s.outcomes.map fun o => o.1.index).Nodup
  /-- and for one of the plan. -/
  planned : ∀ o ∈ s.outcomes, ∃ plan, s.plan = some plan ∧ o.1 ∈ plan.work
  itemsTotal : ∀ total, s.operation.progress.totalItems = some total →
    s.operation.progress.completedItems ≤ total
  /-- An operation that got through has counted every item. -/
  through : OperationState.isThrough s.operation.state = true →
    ∃ plan, s.plan = some plan ∧ (s.outcomes.map Prod.fst).Perm plan.work
      ∧ s.operation.progress.completedItems = plan.items.length
  bytes : s.operation.progress.completedBytes = min (completedBytes s.outcomes) max
  bytesTotal : ∀ total, s.operation.progress.totalBytes = some total →
    s.operation.progress.completedBytes ≤ total

theorem Accounted.progressAccounts (h : Accounted s) : ProgressAccounts s := by
  have hitems : s.operation.progress.completedItems = s.outcomes.length := by
    rw [h.items]
    exact min_eq_left h.length_outcomes_le
  refine ⟨hitems, ?_, fun o ho => ?_, fun total htotal => ?_, fun ht => ?_,
    h.bytes, fun total htotal => ?_⟩
  · cases hp : s.plan with
    | none => simp [h.uncounted hp]
    | some plan =>
      obtain ⟨l, hperm, hsub⟩ := h.counted plan hp
      have hindex := hperm.map index
      rw [map_map] at hindex
      exact hindex.nodup_iff.mp (plan.work_map_index_nodup.sublist (hsub.map index))
  · cases hp : s.plan with
    | none =>
      rw [h.uncounted hp] at ho
      cases ho
    | some plan =>
      exact ⟨plan, rfl, (h.counted plan hp).subset (mem_map_of_mem ho)⟩
  · rcases h.totals with ⟨hnone, -⟩ | ⟨plan, hp, heq, -⟩
    · simp [hnone] at htotal
    · rw [heq, plan.totalItems_eq] at htotal
      injection htotal with htotal
      have hlen := (h.counted plan hp).length_le
      rw [length_map, plan.length_work] at hlen
      omega
  · obtain ⟨plan, hp, hall⟩ := h.through ht
    refine ⟨plan, hp, hall, ?_⟩
    have hlen := hall.length_eq
    rw [length_map, plan.length_work] at hlen
    omega
  · rcases h.totals with ⟨-, hnone⟩ | ⟨plan, hp, -, heq⟩
    · simp [hnone] at htotal
    · rw [heq, plan.totalBytes_eq] at htotal
      have hsum := checkedSum_eq htotal
      have hle := completedBytes_le (h.counted plan hp)
      rw [h.bytes]
      omega

/-- In every run each counted item is another one of the plan, and the
completed items and bytes are those of the counted ones and never exceed
the totals. -/
theorem progress_accounts {request : Request} {now : Timestamp}
    {acts : List Action}
    (hrun : Run (apply req) Free (startOperation request now) acts s) :
    ProgressAccounts s :=
  (accounted_run hrun).progressAccounts

/-- A copy of two files, the first asked about and then skipped. -/
theorem progress_accounts_completed :
    ∃ acts s, Run (apply false) Free (startOperation sampleRequest 0) acts s
      ∧ s.operation.state = .completed
      ∧ s.operation.progress.completedItems = 2
      ∧ s.operation.progress.completedBytes = 4 ∧ ProgressAccounts s := by
  obtain ⟨s, hrun, hstate, hitems, hbytes⟩ := Run.exists_of_run
    (show (run (apply false) (startOperation sampleRequest 0) (planScript (samplePlan 3 4)
        ++ executeScript (.error (.conflict (sampleConflict 1)))
        ++ [.runner, .runner, .runner] ++ itemScript .completed
        ++ [.runner, .runner, .runner, .resolveConflict .skip false, .runner,
          .runner, .runner, .runner, .executeReturns (.ok .skipped), .runner,
          .runner, .runner, .runner, .finishReturns (.ok ()), .runner])).any
      (fun s => decide (s.operation.state = .completed ∧ s.operation.progress.completedItems = 2
        ∧ s.operation.progress.completedBytes = 4)) = true from by decide)
  exact ⟨_, s, hrun, hstate, hitems, hbytes, progress_accounts hrun⟩

/-- Two completed files of `2 ^ 63` bytes each: `completed_bytes` stops
one short of their sum. -/
theorem completed_bytes_saturate :
    ∃ s, Run (apply false) Free (startOperation sampleRequest 0)
        (planScript (samplePlan (2 ^ 63) (2 ^ 63)) ++ itemScript .completed
          ++ itemScript .completed ++ finishScript) s
      ∧ s.operation.state = .completed
      ∧ s.outcomes.map Prod.snd = [.completed, .completed]
      ∧ s.operation.progress.completedBytes + 1 = completedBytes s.outcomes :=
  Run.exists_of_run (by decide)

end FileManager.Scheduler
