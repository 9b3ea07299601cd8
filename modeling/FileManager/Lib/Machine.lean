/-
Labelled machines: a partial step function over actions, its runs, and
the one induction every safety argument of the development goes
through.

# Runs and the condition on their steps

`Run step ok s₀ acts s` says that the actions `acts`, taken in order from
`s₀`, are all enabled, that each of them meets `ok` in the state it is
taken in, and that they end in `s`. `Free` is the condition that excludes
nothing. The action list is kept so that a property may speak of what has
happened.

# The executable spine

`run` and `guardedRun` compute the same thing from an action list, so
that a concrete run is exhibited by evaluation (`Run.of_guardedRun`).

# Machines that answer

A call takes a state, where it returns, to an answer and a next state.
Two machines that are in step, call by call, answer every sequence of
calls alike (`Simulation.answers_related`).
-/
import Mathlib.Data.List.Forall2

namespace Machine

universe u v

variable {σ : Type u} {α : Type v} {step : α → σ → Option σ} {ok ok' Q : σ → α → Prop} {s₀ s s' : σ}
  {acts before after : List α} {P : σ → Prop} {a : α} {check : σ → α → Bool}

-- ==== runs

/-- The actions `acts` lead from `s₀` to `s`, each of them enabled and
meeting `ok` where it is taken. -/
inductive Run (step : α → σ → Option σ) (ok : σ → α → Prop) (s₀ : σ) :
    List α → σ → Prop
  | start : Run step ok s₀ [] s₀
  | snoc {acts : List α} {s s' : σ} (a : α) :
      Run step ok s₀ acts s → ok s a → step a s = some s' →
      Run step ok s₀ (acts ++ [a]) s'

/-- The condition that excludes no step. -/
def Free (_ : σ) (_ : α) : Prop := True

instance (s : σ) (a : α) : Decidable (Free s a) := inferInstanceAs (Decidable True)

/-- The invariant rule, for properties that read the actions taken so
far: what holds at the start and survives every step that meets the
condition, from a state that the run has reached, holds at the end of
every run. -/
theorem Run.invariant_trace {P : List α → σ → Prop} (hinit : P [] s₀)
    (hstep : ∀ {acts : List α} {s s' : σ} (a : α), Run step ok s₀ acts s → ok s a →
      step a s = some s' → P acts s → P (acts ++ [a]) s')
    (hrun : Run step ok s₀ acts s) : P acts s := by
  induction hrun with
  | start => exact hinit
  | snoc a hbefore hok hs ih => exact hstep a hbefore hok hs ih

/-- The invariant rule for properties of the state alone. -/
theorem Run.invariant (hinit : P s₀)
    (hstep : ∀ {s s' : σ} (a : α), ok s a → step a s = some s' → P s → P s')
    (hrun : Run step ok s₀ acts s) : P s :=
  Run.invariant_trace (P := fun _ s => P s) hinit (fun a _ hok hs hp => hstep a hok hs hp) hrun

/-- A run may be read under any weaker condition. -/
theorem Run.mono (hok : ∀ s a, ok s a → ok' s a)
    (hrun : Run step ok s₀ acts s) : Run step ok' s₀ acts s := by
  induction hrun with
  | start => exact .start
  | snoc a _ h hs ih => exact .snoc a ih (hok _ _ h) hs

/-- A run whose actions meet the condition wherever they are taken. -/
theorem Run.of_forall (hrun : Run step ok s₀ acts s)
    (hok : ∀ a ∈ acts, ∀ s, ok' s a) : Run step ok' s₀ acts s := by
  induction hrun with
  | start => exact .start
  | snoc a _ _ hs ih =>
    refine .snoc a (ih fun b hb => hok b (List.mem_append_left _ hb)) ?_ hs
    exact hok a (by simp) _

/-- Each action of a run was taken at the end of the run before it. -/
theorem Run.split (hrun : Run step ok s₀ (before ++ a :: after) s) :
    ∃ s₁ s₂, Run step ok s₀ before s₁ ∧ ok s₁ a ∧ step a s₁ = some s₂
      ∧ Run step ok s₀ (before ++ [a]) s₂ := by
  generalize hacts : before ++ a :: after = acts at hrun
  induction hrun generalizing after with
  | start => simp at hacts
  | @snoc acts s s' b hbefore hok hs ih =>
    rcases List.eq_nil_or_concat after with rfl | ⟨rest, last, rfl⟩
    · obtain ⟨rfl, hb⟩ := List.append_inj' hacts rfl
      obtain rfl : a = b := by simpa using hb
      exact ⟨s, s', hbefore, hok, hs, hbefore.snoc a hok hs⟩
    · rw [List.concat_eq_append, ← List.cons_append, ← List.append_assoc] at hacts
      obtain ⟨rfl, -⟩ := List.append_inj' hacts rfl
      exact ih rfl

-- ==== what has happened

/-- Some action of `acts` was taken in a state in which `Q` held of
both. -/
def Happened (step : α → σ → Option σ) (ok : σ → α → Prop) (s₀ : σ)
    (acts : List α) (Q : σ → α → Prop) : Prop :=
  ∃ before a after s, acts = before ++ a :: after ∧ Run step ok s₀ before s ∧ Q s a

/-- What has happened stays so. -/
theorem Happened.concat (h : Happened step ok s₀ acts Q)
    (a : α) : Happened step ok s₀ (acts ++ [a]) Q := by
  obtain ⟨before, b, after, s, rfl, hrun, hq⟩ := h
  exact ⟨before, b, after ++ [a], s, by simp, hrun, hq⟩

/-- What an action is taken in has happened once it is taken. -/
theorem Run.happened (hrun : Run step ok s₀ acts s) (hq : Q s a) :
    Happened step ok s₀ (acts ++ [a]) Q :=
  ⟨acts, a, [], s, rfl, hrun, hq⟩

-- ==== the executable spine

/-- Take a list of actions in order, failing on the first that is
disabled or misses the condition. -/
def guardedRun (step : α → σ → Option σ) (ok : σ → α → Prop)
    [∀ s a, Decidable (ok s a)] (s : σ) : List α → Option σ
  | [] => some s
  | a :: rest =>
    if ok s a then
      match step a s with
      | some s' => guardedRun step ok s' rest
      | none => none
    else none

/-- Take a list of actions in order, failing on the first disabled
one. -/
def run (step : α → σ → Option σ) (s : σ) : List α → Option σ
  | [] => some s
  | a :: rest =>
    match step a s with
    | some s' => run step s' rest
    | none => none

theorem Run.extend_guardedRun [∀ s a, Decidable (ok s a)] :
    ∀ {rest acts : List α} {s s' : σ}, Run step ok s₀ acts s → guardedRun step ok s rest = some s' →
      Run step ok s₀ (acts ++ rest) s' := by
  intro rest
  induction rest with
  | nil =>
    intro acts s s' hrun h
    simp only [guardedRun, Option.some.injEq] at h
    simpa [← h] using hrun
  | cons a rest ih =>
    intro acts s s' hrun h
    unfold guardedRun at h
    split at h
    case isFalse => cases h
    case isTrue hok =>
      cases hs : step a s with
      | none => simp [hs] at h
      | some s₁ =>
        have hnext := ih (hrun.snoc a hok hs) (by simpa [hs] using h)
        simpa using hnext

/-- An evaluated guarded run is a run. -/
theorem Run.of_guardedRun [∀ s a, Decidable (ok s a)]
    (h : guardedRun step ok s₀ acts = some s') : Run step ok s₀ acts s' := by
  simpa using Run.extend_guardedRun .start h

theorem run_eq_guardedRun (s : σ) (acts : List α) :
    run step s acts = guardedRun step Free s acts := by
  induction acts generalizing s with
  | nil => rfl
  | cons a rest ih =>
    unfold run guardedRun
    rw [if_pos (show Free s a from trivial)]
    cases hs : step a s with
    | none => rfl
    | some s₁ => exact ih s₁

/-- An evaluated run is a free run. -/
theorem Run.of_run (h : run step s₀ acts = some s') : Run step Free s₀ acts s' :=
  Run.of_guardedRun (by rw [← run_eq_guardedRun]; exact h)

theorem run_append (s : σ) (acts rest : List α) :
    run step s (acts ++ rest) = (run step s acts).bind fun s' => run step s' rest := by
  induction acts generalizing s with
  | nil => rfl
  | cons a acts ih =>
    simp only [List.cons_append, run]
    cases step a s with
    | none => rfl
    | some s₁ => exact ih s₁

/-- A run evaluates to its end. -/
theorem Run.run_eq (hrun : Run step ok s₀ acts s) : run step s₀ acts = some s := by
  induction hrun with
  | start => rfl
  | snoc a _ _ hs ih =>
    rw [run_append, ih]
    simp [run, hs]

/-- A run has one end. -/
theorem Run.unique (hrun : Run step ok s₀ acts s) (hrun' : Run step ok' s₀ acts s') :
    s = s' := Option.some.inj (hrun.run_eq.symm.trans hrun'.run_eq)

/-- What has happened by the end has happened before it, or is the last
step. -/
theorem Happened.of_concat (h : Happened step ok s₀ (acts ++ [a]) Q)
    (hrun : Run step ok s₀ acts s) : Happened step ok s₀ acts Q ∨ Q s a := by
  obtain ⟨before, b, after, s₁, hacts, hbefore, hq⟩ := h
  rcases List.eq_nil_or_concat after with rfl | ⟨rest, last, rfl⟩
  · obtain ⟨rfl, hb⟩ := List.append_inj' hacts rfl
    obtain rfl : a = b := by simpa using hb
    exact .inr (hrun.unique hbefore ▸ hq)
  · rw [List.concat_eq_append, ← List.cons_append, ← List.append_assoc] at hacts
    obtain ⟨rfl, -⟩ := List.append_inj' hacts rfl
    exact .inl ⟨before, b, rest, s₁, rfl, hbefore, hq⟩

/-- A check of every step of an evaluated run. -/
def everyStep (step : α → σ → Option σ) (check : σ → α → Bool) (s : σ) : List α → Bool
  | [] => true
  | a :: rest => check s a &&
      match step a s with
      | some s' => everyStep step check s' rest
      | none => true

theorem check_of_everyStep (hall : everyStep step check s₀ (before ++ a :: after) = true)
    (hrun : run step s₀ before = some s) : check s a = true := by
  induction before generalizing s₀ with
  | nil =>
    simp only [run, Option.some.injEq] at hrun
    subst hrun
    exact (Bool.and_eq_true_iff.1 hall).1
  | cons b before ih =>
    unfold run at hrun
    cases hs : step b s₀ with
    | none => simp [hs] at hrun
    | some s₁ =>
      have hrest := (Bool.and_eq_true_iff.1 hall).2
      rw [hs] at hrun hrest
      exact ih hrest hrun

/-- What every step is checked not to be has not happened. -/
theorem not_happened_of_everyStep (hall : everyStep step check s₀ acts = true)
    (hcheck : ∀ s a, check s a = true → ¬ Q s a) : ¬ Happened step ok s₀ acts Q := by
  rintro ⟨before, a, after, s, rfl, hrun, hq⟩
  exact hcheck s a (check_of_everyStep hall hrun.run_eq) hq

/-- A property decided at the end of an evaluated guarded run is one a
run reaches. -/
theorem Run.exists_of_guardedRun [∀ s a, Decidable (ok s a)] [DecidablePred P]
    (h : (guardedRun step ok s₀ acts).any (fun s => decide (P s)) = true) :
    ∃ s, Run step ok s₀ acts s ∧ P s := by
  cases hg : guardedRun step ok s₀ acts with
  | none => rw [hg] at h; cases h
  | some s =>
    rw [hg] at h
    exact ⟨s, Run.of_guardedRun hg, of_decide_eq_true h⟩

/-- A property decided at the end of an evaluated run is one a free run
reaches. -/
theorem Run.exists_of_run [DecidablePred P]
    (h : (run step s₀ acts).any (fun s => decide (P s)) = true) :
    ∃ s, Run step Free s₀ acts s ∧ P s :=
  Run.exists_of_guardedRun (by rw [← run_eq_guardedRun]; exact h)

end Machine

namespace Simulation

universe u v w x y

variable {κ : Type u} {σ : Type v} {τ : Type w} {α : Type x} {β : Type y}

/-- The answers to a sequence of calls. -/
def answers (step : κ → σ → Option (α × σ)) : σ → List κ → Option (List α)
  | _, [] => some []
  | s, call :: rest =>
    (step call s).bind fun answer =>
      (answers step answer.2 rest).map fun later => answer.1 :: later

/-- Related machines answer every sequence of calls, and alike. -/
theorem answers_related {step : κ → σ → Option (α × σ)} {step' : κ → τ → Option (β × τ)}
    {R : σ → τ → Prop} {Q : α → β → Prop} {ok : κ → Prop}
    (hstep : ∀ call s t, ok call → R s t →
      ∃ a s' b t', step call s = some (a, s') ∧ step' call t = some (b, t') ∧ R s' t' ∧ Q a b)
    {s : σ} {t : τ} (h : R s t) (calls : List κ) (hcalls : ∀ call ∈ calls, ok call) :
    ∃ as bs, answers step s calls = some as ∧ answers step' t calls = some bs
      ∧ List.Forall₂ Q as bs := by
  induction calls generalizing s t with
  | nil => exact ⟨[], [], rfl, rfl, .nil⟩
  | cons call rest ih =>
    obtain ⟨hcall, hrest⟩ := List.forall_mem_cons.mp hcalls
    obtain ⟨a, s', b, t', ha, hb, hnext, hab⟩ := hstep call s t hcall h
    obtain ⟨as, bs, has, hbs, hall⟩ := ih hnext hrest
    refine ⟨a :: as, b :: bs, ?_, ?_, .cons hab hall⟩
    · rw [answers, ha, Option.bind_some, has]
      rfl
    · rw [answers, hb, Option.bind_some, hbs]
      rfl

end Simulation
