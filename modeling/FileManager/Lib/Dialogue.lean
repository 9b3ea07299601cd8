/-
Programs that ask questions and go on with the answers.

A program is a tree: it ends with a result, or asks and has a subtree
for every answer. Who answers is not part of it. Run against an
answerer with a state of its own, a program has one result; without one,
it has the questions that it may come to ask (`Asks`).

Programs that may fail are `Attempt`s: a failure ends them.
-/
import Mathlib.Data.List.Basic

namespace Dialogue

variable {Q : Type} {A : Q → Type} {ε α β σ : Type}

inductive Talk (Q : Type) (A : Q → Type) (α : Type)
  | done (result : α)
  | ask (question : Q) (next : A question → Talk Q A α)

namespace Talk

protected def bind : Talk Q A α → (α → Talk Q A β) → Talk Q A β
  | .done result, f => f result
  | .ask question next, f => .ask question fun answer => (next answer).bind f

instance : Monad (Talk Q A) where
  pure := .done
  bind := Talk.bind

/-- One question. -/
def perform (question : Q) : Talk Q A (A question) := .ask question .done

/-- The result, the answers given by `answer`. -/
def run (answer : (question : Q) → σ → A question × σ) : Talk Q A α → σ → α × σ
  | .done result, s => (result, s)
  | .ask question next, s => (next (answer question s).1).run answer (answer question s).2

/-- The question may come, whatever was answered before. -/
inductive Asks : Talk Q A α → Q → Prop
  | now (question : Q) (next : A question → Talk Q A α) : Asks (.ask question next) question
  | later {question asked : Q} {next : A question → Talk Q A α} (answer : A question)
      (h : Asks (next answer) asked) : Asks (.ask question next) asked

variable (answer : (question : Q) → σ → A question × σ)

theorem run_bind (x : Talk Q A α) (f : α → Talk Q A β) (s : σ) :
    run answer (x >>= f) s = run answer (f (run answer x s).1) (run answer x s).2 := by
  induction x generalizing s with
  | done result => rfl
  | ask question next ih => exact ih _ _

theorem not_asks_pure {a : α} {asked : Q} : ¬ Asks (pure a : Talk Q A α) asked := by
  intro h
  cases h

/-- What no question of a program changes is as before at its end. -/
theorem run_keeps {τ : Type} (view : σ → τ) (x : Talk Q A α)
    (h : ∀ asked, Asks x asked → ∀ s, view (answer asked s).2 = view s) (s : σ) :
    view (run answer x s).2 = view s := by
  induction x generalizing s with
  | done result => rfl
  | ask question next ih =>
    have hnext := ih (answer question s).1 (fun asked hasked => h asked (.later _ hasked))
      (answer question s).2
    exact hnext.trans (h question (.now _ _) s)

/-- A question comes in a state with a property. -/
def Visits (P : Q → σ → Prop) : Talk Q A α → σ → Prop
  | .done _, _ => False
  | .ask question next, s =>
    P question s ∨ Visits P (next (answer question s).1) (answer question s).2

/-- Whether it comes can be computed. -/
def decidableVisits (P : Q → σ → Prop) [∀ question s, Decidable (P question s)] :
    (x : Talk Q A α) → (s : σ) → Decidable (Visits answer P x s)
  | .done _, _ => .isFalse id
  | .ask question next, s =>
    have := decidableVisits P (next (answer question s).1) (answer question s).2
    inferInstanceAs (Decidable (P question s ∨ Visits answer P _ _))

instance (P : Q → σ → Prop) [∀ question s, Decidable (P question s)] (x : Talk Q A α) (s : σ) :
    Decidable (Visits answer P x s) := decidableVisits answer P x s

theorem visits_bind (P : Q → σ → Prop) (x : Talk Q A α) (f : α → Talk Q A β) (s : σ) :
    Visits answer P (x >>= f) s
      ↔ Visits answer P x s ∨ Visits answer P (f (run answer x s).1) (run answer x s).2 := by
  induction x generalizing s with
  | done result => exact (or_iff_right id).symm
  | ask question next ih => exact (or_congr_right (ih _ _)).trans or_assoc.symm

variable {x : Talk Q A α}

/-- What no question of a program changes is as before whenever one
comes. -/
theorem Visits.keeps {τ : Type} (view : σ → τ) {P : Q → σ → Prop} {s : σ}
    (hvisits : Visits answer P x s)
    (h : ∀ asked, Asks x asked → ∀ s, view (answer asked s).2 = view s) :
    ∃ asked s', Asks x asked ∧ P asked s' ∧ view s' = view s := by
  induction x generalizing s with
  | done result => exact hvisits.elim
  | ask question next ih =>
    rcases hvisits with hnow | hlater
    · exact ⟨question, s, .now _ _, hnow, rfl⟩
    · obtain ⟨asked, s', hasks, hasked, hview⟩ :=
        ih _ hlater fun asked hasks => h asked (.later _ hasks)
      exact ⟨asked, s', .later _ hasks, hasked, hview.trans (h question (.now _ _) s)⟩

theorem Asks.of_perform {question asked : Q} (h : Asks (perform question : Talk Q A _) asked) :
    asked = question := by
  cases h with
  | now => rfl
  | later _ h => cases h

theorem Asks.of_bind {f : α → Talk Q A β} {asked : Q}
    (h : Asks (x >>= f) asked) : Asks x asked ∨ ∃ a, Asks (f a) asked := by
  induction x with
  | done result => exact .inr ⟨result, h⟩
  | ask question next ih =>
    cases h with
    | now => exact .inl (.now _ _)
    | later answer h =>
      rcases ih answer h with h | h
      · exact .inl (.later answer h)
      · exact .inr h

end Talk

-- ==== attempts

/-- A program that may fail. -/
abbrev Attempt (Q : Type) (A : Q → Type) (ε α : Type) := ExceptT ε (Talk Q A) α

namespace Attempt

/-- The outcome of an attempt, to go on from either way. -/
def caught (x : Attempt Q A ε α) : Attempt Q A ε (Except ε α) := ExceptT.lift (ExceptT.run x)

/-- The result of an attempt, the answers given by `answer`. -/
def run (answer : (question : Q) → σ → A question × σ) (x : Attempt Q A ε α) (s : σ) :
    Except ε α × σ :=
  Talk.run answer (ExceptT.run x) s

/-- The question may come. -/
def Asks (x : Attempt Q A ε α) (asked : Q) : Prop := Talk.Asks (ExceptT.run x) asked

variable (answer : (question : Q) → σ → A question × σ)

@[simp] theorem run_pure (a : α) (s : σ) :
    run answer (pure a : Attempt Q A ε α) s = (.ok a, s) := rfl

@[simp] theorem run_throw (e : ε) (s : σ) :
    run answer (throw e : Attempt Q A ε α) s = (.error e, s) := rfl

variable {f : α → Attempt Q A ε β} {x : Attempt Q A ε α} {s s' : σ} {a : α}

theorem run_bind_ok (h : run answer x s = (.ok a, s')) :
    run answer (x >>= f) s = run answer (f a) s' := by
  simp only [run] at h ⊢
  rw [ExceptT.run_bind, Talk.run_bind, h]

variable {e : ε}

theorem run_bind_error (h : run answer x s = (.error e, s')) :
    run answer (x >>= f) s = (.error e, s') := by
  simp only [run] at h ⊢
  rw [ExceptT.run_bind, Talk.run_bind, h]
  rfl

/-- An attempt that succeeds goes through both parts. -/
theorem of_run_bind_ok {b : β} (h : run answer (x >>= f) s = (.ok b, s')) :
    ∃ a s₁, run answer x s = (.ok a, s₁) ∧ run answer (f a) s₁ = (.ok b, s') := by
  cases hx : run answer x s with
  | mk result s₁ =>
    cases result with
    | ok a => exact ⟨a, s₁, rfl, (run_bind_ok answer hx).symm.trans h⟩
    | error e =>
      rw [run_bind_error answer hx] at h
      cases h

/-- An attempt that fails does so in one of its parts. -/
theorem of_run_bind_error (h : run answer (x >>= f) s = (.error e, s')) :
    run answer x s = (.error e, s')
      ∨ ∃ a s₁, run answer x s = (.ok a, s₁) ∧ run answer (f a) s₁ = (.error e, s') := by
  cases hx : run answer x s with
  | mk result s₁ =>
    cases result with
    | ok a => exact .inr ⟨a, s₁, rfl, (run_bind_ok answer hx).symm.trans h⟩
    | error other =>
      rw [run_bind_error answer hx] at h
      cases h
      exact .inl rfl

variable {next : Attempt Q A ε α} {condition : Prop}

/-- A check that throws, or what comes after it. -/
theorem of_run_guard_error [Decidable condition] {e e' : ε}
    (h : run answer (do
      if condition then throw e
      next) s = (.error e', s')) : e = e' ∨ run answer next s = (.error e', s') := by
  simp only at h
  split at h
  case isTrue =>
    rcases of_run_bind_error answer h with h | ⟨_, s₁, hthrow, -⟩
    · cases h
      exact .inl rfl
    · cases hthrow
  case isFalse => exact .inr h

/-- A computed step. -/
@[simp] theorem run_mk_pure (result : Except ε α) (s : σ) :
    run answer (ExceptT.mk (pure result) : Attempt Q A ε α) s = (result, s) := rfl

variable {τ : Type}

theorem run_keeps (view : σ → τ) (x : Attempt Q A ε α)
    (h : ∀ asked, Asks x asked → ∀ s, view (answer asked s).2 = view s) (s : σ) :
    view (run answer x s).2 = view s :=
  Talk.run_keeps answer view _ h s

/-- The same, of an attempt in two parts, the second with a result of
the first. -/
theorem run_bind_keeps {view : σ → τ} {x : Attempt Q A ε α} {f : α → Attempt Q A ε β}
    {s : σ} (hx : view (run answer x s).2 = view s)
    (hf : ∀ a s', run answer x s = (.ok a, s') → view (run answer (f a) s').2 = view s') :
    view (run answer (x >>= f) s).2 = view s := by
  cases hrun : run answer x s with
  | mk result s' =>
    rw [hrun] at hx
    cases result with
    | ok a =>
      rw [run_bind_ok answer hrun]
      exact (hf a s' hrun).trans hx
    | error e =>
      rw [run_bind_error answer hrun]
      exact hx

theorem run_lift (x : Talk Q A α) (s : σ) :
    run answer (ExceptT.lift x : Attempt Q A ε α) s
      = (.ok (Talk.run answer x s).1, (Talk.run answer x s).2) :=
  Talk.run_bind answer _ _ s

@[simp] theorem run_caught (x : Attempt Q A ε α) (s : σ) :
    run answer (caught x) s = (.ok (run answer x s).1, (run answer x s).2) := by
  simp only [run, caught, ExceptT.run_lift]
  exact Talk.run_bind answer _ _ s

/-- A question comes in a state with a property. -/
def Visits (P : Q → σ → Prop) (x : Attempt Q A ε α) (s : σ) : Prop :=
  Talk.Visits answer P (ExceptT.run x) s

variable {P : Q → σ → Prop}

instance [∀ question s, Decidable (P question s)] (x : Attempt Q A ε α) (s : σ) :
    Decidable (Visits answer P x s) :=
  inferInstanceAs (Decidable (Talk.Visits answer P (ExceptT.run x) s))

theorem visits_bind_ok (h : run answer x s = (.ok a, s')) :
    Visits answer P (x >>= f) s ↔ Visits answer P x s ∨ Visits answer P (f a) s' := by
  simp only [run] at h
  rw [Visits, ExceptT.run_bind, Talk.visits_bind, h]
  rfl

theorem visits_bind_error (h : run answer x s = (.error e, s')) :
    Visits answer P (x >>= f) s ↔ Visits answer P x s := by
  simp only [run] at h
  rw [Visits, ExceptT.run_bind, Talk.visits_bind, h]
  exact or_iff_left id

@[simp] theorem visits_lift_perform (question : Q) (s : σ) :
    Visits answer P (ExceptT.lift (Talk.perform question) : Attempt Q A ε (A question)) s
      ↔ P question s := or_iff_left id

@[simp] theorem run_lift_perform (question : Q) (s : σ) :
    run answer (ExceptT.lift (Talk.perform question) : Attempt Q A ε (A question)) s
      = (.ok (answer question s).1, (answer question s).2) := rfl

theorem visits_caught (x : Attempt Q A ε α) (s : σ) :
    Visits answer P (caught x) s ↔ Visits answer P x s := by
  rw [Visits, caught, ExceptT.run_lift]
  exact (Talk.visits_bind answer P _ _ s).trans (or_iff_left id)

theorem Visits.keeps (view : σ → τ) {s : σ} (hvisits : Visits answer P x s)
    (h : ∀ asked, Asks x asked → ∀ s, view (answer asked s).2 = view s) :
    ∃ asked s', Asks x asked ∧ P asked s' ∧ view s' = view s :=
  Talk.Visits.keeps answer view hvisits h

variable {asked : Q}

theorem not_asks_pure : ¬ Asks (pure a : Attempt Q A ε α) asked := Talk.not_asks_pure

theorem not_asks_throw : ¬ Asks (throw e : Attempt Q A ε α) asked := Talk.not_asks_pure

theorem Asks.of_bind (h : Asks (x >>= f) asked) : Asks x asked ∨ ∃ a, Asks (f a) asked := by
  rw [Asks, ExceptT.run_bind] at h
  rcases Talk.Asks.of_bind h with h | ⟨result, h⟩
  · exact .inl h
  · cases result with
    | ok a => exact .inr ⟨a, h⟩
    | error e => exact absurd h Talk.not_asks_pure

/-- What comes after a computed step has its result. -/
theorem Asks.of_mk_bind {result : Except ε α}
    (h : Asks (ExceptT.mk (pure result) >>= f) asked) : ∃ a, result = .ok a ∧ Asks (f a) asked := by
  cases result with
  | ok a => exact ⟨a, rfl, h⟩
  | error e => exact absurd h Talk.not_asks_pure

/-- A check in between that throws asks nothing. -/
theorem Asks.of_guard [Decidable condition]
    (h : Asks (do
      if condition then throw e
      next) asked) : Asks next asked := by
  simp only at h
  split at h
  case isTrue =>
    rcases h.of_bind with h | ⟨_, h⟩
    · exact absurd h not_asks_throw
    · exact h
  case isFalse => exact h

theorem Asks.of_lift {x : Talk Q A α}
    (h : Asks (ExceptT.lift x : Attempt Q A ε α) asked) : Talk.Asks x asked := by
  rcases Talk.Asks.of_bind h with h | ⟨a, h⟩
  · exact h
  · exact absurd h Talk.not_asks_pure

theorem Asks.of_caught (h : Asks (caught x) asked) :
    Asks x asked := Asks.of_lift h

end Attempt

end Dialogue
