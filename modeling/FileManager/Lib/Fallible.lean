/-
Programs over a state that may fail, or not return: each of them takes
a state and, where it returns, leaves a result and a state. A failure
keeps what was written before it.

`Yields` is what one call does; a bind is taken apart by `yields_bind`.
`Keeps` is the rule for whole programs: a reflexive and transitive
relation between the states before and after that every primitive call
respects is respected by whatever is built from them.
-/
import Mathlib.Data.List.Forall2

namespace Fallible

open Option

universe u

variable {ε σ α β : Type u}

abbrev Prog (ε σ α : Type u) := ExceptT ε (StateT σ Option) α

/-- The call returns with that result and leaves that state. -/
def Yields (p : Prog ε σ α) (s : σ) (r : Except ε α) (s' : σ) : Prop := p.run.run s = some (r, s')

variable {p : Prog ε σ α} {f : α → Prog ε σ β} {s s' : σ}

variable {g : α → Except ε β}

/-- An `Except` bind that succeeds goes through both parts. -/
theorem bind_eq_ok {x : Except ε α} {b : β} : (x >>= g) = .ok b ↔ ∃ a, x = .ok a ∧ g a = .ok b := by
  cases x with
  | error e =>
    refine ⟨fun h => ?_, fun ⟨a, ha, _⟩ => ?_⟩
    · cases h
    · cases ha
  | ok a =>
    refine ⟨fun h => ⟨a, rfl, h⟩, fun ⟨a', ha, h⟩ => ?_⟩
    cases ha
    exact h

/-- A guard that would have come to something else was passed. -/
theorem passed {γ : Type u} {c : Prop} [Decidable c] {x y z : γ} (h : (if c then x else y) = z)
    (hne : x ≠ z) : ¬ c ∧ y = z := by
  split at h
  case isTrue => exact absurd h hne
  case isFalse hnot => exact ⟨hnot, h⟩

variable {a : α}

/-- What is asked of an error is true of a result. -/
theorem of_ok {P : ε → Prop} : ∀ e, (.ok a : Except ε α) = .error e → P e := by
  intro e h
  cases h

variable {l : List α} {m : List β}

/-- A `mapM` that goes through pairs the lists up. -/
theorem forall₂_of_mapM (h : l.mapM g = .ok m) : List.Forall₂ (fun a b => g a = .ok b) l m := by
  induction l generalizing m with
  | nil => cases h; exact .nil
  | cons a rest ih =>
    rw [List.mapM_cons] at h
    obtain ⟨b, hb, h⟩ := bind_eq_ok.mp h
    obtain ⟨m', hm', h⟩ := bind_eq_ok.mp h
    cases h
    exact .cons hb (ih hm')

variable {R : α → β → Prop}

theorem paired_right (h : List.Forall₂ R l m) {b : β} (hb : b ∈ m) : ∃ a ∈ l, R a b := by
  induction h with
  | nil => cases hb
  | @cons a b' rest m' hfirst hrest ih =>
    rcases List.mem_cons.1 hb with rfl | hb
    · exact ⟨a, by simp, hfirst⟩
    · obtain ⟨x, hx, hxb⟩ := ih hb
      exact ⟨x, by simp [hx], hxb⟩

theorem paired_left (h : List.Forall₂ R l m) (ha : a ∈ l) : ∃ b ∈ m, R a b :=
  paired_right h.flip ha

/-- A `mapM` goes through if every call does. -/
theorem exists_mapM_ok (h : ∀ a ∈ l, ∃ b, g a = .ok b) : ∃ m, l.mapM g = .ok m := by
  induction l with
  | nil => exact ⟨[], rfl⟩
  | cons a rest ih =>
    obtain ⟨b, hb⟩ := h a (by simp)
    obtain ⟨m, hm⟩ := ih fun x hx => h x (by simp [hx])
    refine ⟨b :: m, ?_⟩
    rw [List.mapM_cons]
    exact bind_eq_ok.2 ⟨b, hb, bind_eq_ok.2 ⟨m, hm, rfl⟩⟩

/-- A call returns once. -/
theorem Yields.unique {r r' : Except ε α} {s₁ s₂ : σ} (h : Yields p s r s₁)
    (h' : Yields p s r' s₂) : r = r' ∧ s₁ = s₂ := by
  unfold Yields at h h'
  rw [h] at h'
  injection h' with h'
  injection h' with hr hs
  exact ⟨hr, hs⟩

-- ==== calls

/-- Read the state, or fail. -/
def reads (f : σ → Except ε α) : Prog ε σ α := fun s => some (f s, s)

def writes (f : σ → σ) : Prog ε σ PUnit := fun s => some (.ok ⟨⟩, f s)

/-- Not return. -/
def stuck : Prog ε σ α := fun _ => none

/-- Run the call only where the condition holds. -/
def onlyIf (c : Bool) (p : Prog ε σ PUnit) : Prog ε σ PUnit :=
  if c then p else pure ⟨⟩

/-- Take the call's error as an answer. -/
def caught (p : Prog ε σ α) : Prog ε σ (Except ε α) := fun s =>
  (p.run.run s).map fun t => (.ok t.1, t.2)

variable {r : Except ε α}

theorem yields_pure : Yields (pure a : Prog ε σ α) s r s' ↔ r = .ok a ∧ s' = s := by
  unfold Yields
  show some (Except.ok a, s) = some (r, s') ↔ _
  rw [some.injEq, Prod.mk.injEq]
  exact and_congr eq_comm eq_comm

theorem yields_throw {e : ε} : Yields (throw e : Prog ε σ α) s r s' ↔ r = .error e ∧ s' = s := by
  unfold Yields
  show some (Except.error e, s) = some (r, s') ↔ _
  rw [some.injEq, Prod.mk.injEq]
  exact and_congr eq_comm eq_comm

variable {g : σ → Except ε α}

theorem yields_reads : Yields (reads g) s r s' ↔ r = g s ∧ s' = s := by
  unfold Yields
  show some (g s, s) = some (r, s') ↔ _
  rw [some.injEq, Prod.mk.injEq]
  exact and_congr eq_comm eq_comm

theorem yields_writes {g : σ → σ} {r : Except ε PUnit} :
    Yields (writes g) s r s' ↔ r = .ok ⟨⟩ ∧ s' = g s := by
  unfold Yields
  show some (Except.ok PUnit.unit, g s) = some (r, s') ↔ _
  rw [some.injEq, Prod.mk.injEq]
  exact and_congr eq_comm eq_comm

theorem not_yields_stuck : ¬ Yields stuck s r s' := by
  intro h
  have hnone : (none : Option (Except ε α × σ)) = some (r, s') := h
  cases hnone

theorem yields_onlyIf {c : Bool} {p : Prog ε σ PUnit} {r : Except ε PUnit} :
    Yields (onlyIf c p) s r s'
      ↔ (c = true ∧ Yields p s r s') ∨ (c = false ∧ r = .ok ⟨⟩ ∧ s' = s) := by
  unfold onlyIf
  cases c with
  | true => simp
  | false => simp [yields_pure]

theorem yields_caught {r : Except ε (Except ε α)} :
    Yields (caught p) s r s' ↔ ∃ r', r = .ok r' ∧ Yields p s r' s' := by
  unfold Yields
  show (p.run.run s).map (fun t => (Except.ok t.1, t.2)) = some (r, s') ↔ _
  rw [map_eq_some_iff]
  constructor
  · intro hfound
    obtain ⟨⟨r', s₁⟩, hp, heq⟩ := hfound
    injection heq with hr hs
    subst hs
    exact ⟨r', hr.symm, hp⟩
  · intro hfound
    obtain ⟨r', rfl, hp⟩ := hfound
    exact ⟨(r', s'), hp, rfl⟩

/-- An error that is replaced by another. -/
theorem yields_tryCatch_throw {g : ε → ε} :
    Yields (tryCatch p fun e => throw (g e)) s r s'
      ↔ ∃ r', Yields p s r' s' ∧ r = r'.mapError g := by
  have hrun : (tryCatch p fun e => throw (g e)).run.run s
      = (p.run.run s).bind fun t => some (t.1.mapError g, t.2) := by
    show (p.run.run s).bind _ = _
    congr 1
    funext t
    obtain ⟨r, s₁⟩ := t
    cases r <;> rfl
  unfold Yields
  rw [hrun, bind_eq_some_iff]
  constructor
  · intro hfound
    obtain ⟨⟨r', s₁⟩, hp, heq⟩ := hfound
    injection heq with heq
    injection heq with hr hs
    subst hs
    exact ⟨r', hp, hr.symm⟩
  · intro hfound
    obtain ⟨r', hp, rfl⟩ := hfound
    exact ⟨(r', s'), hp, rfl⟩

variable {r : Except ε β}

/-- A bind goes through its first part, or fails in it. -/
theorem yields_bind :
    Yields (p >>= f) s r s' ↔ (∃ a s₁, Yields p s (.ok a) s₁ ∧ Yields (f a) s₁ r s')
        ∨ ∃ e, Yields p s (.error e) s' ∧ r = .error e := by
  have hrun : (p >>= f).run.run s = (p.run.run s).bind fun t => match t.1 with
          | .ok a => (f a).run.run t.2
          | .error e => some (.error e, t.2) := by
    show (p.run.run s).bind _ = _
    congr 1
    funext t
    obtain ⟨r, s₁⟩ := t
    cases r <;> rfl
  unfold Yields
  rw [hrun, bind_eq_some_iff]
  constructor
  · intro hfound
    obtain ⟨⟨r₁, s₁⟩, hp, h⟩ := hfound
    cases r₁ with
    | ok a => exact .inl ⟨a, s₁, hp, h⟩
    | error e =>
      injection h with h
      injection h with hr hs
      subst hs
      exact .inr ⟨e, hp, hr.symm⟩
  · intro hcase
    rcases hcase with ⟨a, s₁, hp, h⟩ | ⟨e, hp, rfl⟩
    · exact ⟨(.ok a, s₁), hp, h⟩
    · exact ⟨(.error e, s'), hp, rfl⟩

/-- A bind that succeeds goes through both parts. -/
theorem yields_bind_ok {b : β} :
    Yields (p >>= f) s (.ok b) s' ↔ ∃ a s₁, Yields p s (.ok a) s₁ ∧ Yields (f a) s₁ (.ok b) s' := by
  rw [yields_bind]
  constructor
  · intro hcase
    rcases hcase with h | ⟨e, -, h⟩
    · exact h
    · cases h
  · exact .inl

/-- A bind goes on where its first part ends. -/
theorem yields_bind_of {s₁ : σ} (hp : Yields p s (.ok a) s₁) :
    Yields (p >>= f) s r s' ↔ Yields (f a) s₁ r s' := by
  rw [yields_bind]
  constructor
  · intro hcase
    rcases hcase with ⟨b, s₂, hp', h⟩ | ⟨e, hp', -⟩
    · obtain ⟨heq, rfl⟩ := hp'.unique hp
      cases heq
      exact h
    · cases (hp'.unique hp).1
  · intro h
    exact .inl ⟨a, s₁, hp, h⟩

/-- What is caught, in front of a call. -/
theorem yields_caught_bind {f : Except ε α → Prog ε σ β} {r₁ : Except ε α} {s₁ : σ}
    (hp : Yields p s r₁ s₁) : Yields (caught p >>= f) s r s' ↔ Yields (f r₁) s₁ r s' :=
  yields_bind_of (yields_caught.mpr ⟨r₁, rfl, hp⟩)

/-- A read in front of a call: it answers, or the whole fails. -/
theorem yields_reads_bind :
    Yields (reads g >>= f) s r s' ↔ (∃ a, g s = .ok a ∧ Yields (f a) s r s')
        ∨ ∃ e, g s = .error e ∧ r = .error e ∧ s' = s := by
  rw [yields_bind]
  constructor
  · intro hcase
    rcases hcase with ⟨a, s₁, hread, h⟩ | ⟨e, hread, rfl⟩
    · obtain ⟨ha, rfl⟩ := yields_reads.mp hread
      exact .inl ⟨a, ha.symm, h⟩
    · obtain ⟨he, rfl⟩ := yields_reads.mp hread
      exact .inr ⟨e, he.symm, rfl, rfl⟩
  · intro hcase
    rcases hcase with ⟨a, ha, h⟩ | ⟨e, he, rfl, rfl⟩
    · exact .inl ⟨a, s, yields_reads.mpr ⟨ha.symm, rfl⟩, h⟩
    · exact .inr ⟨e, yields_reads.mpr ⟨he.symm, rfl⟩, rfl⟩

/-- A read that does not fail, in front of a call. -/
theorem yields_gets_bind {g : σ → α} :
    Yields (reads (fun s => .ok (g s)) >>= f) s r s' ↔ Yields (f (g s)) s r s' :=
  yields_bind_of (yields_reads.mpr ⟨rfl, rfl⟩)

/-- A write in front of a call. -/
theorem yields_writes_bind {g : σ → σ} {f : PUnit → Prog ε σ β} :
    Yields (writes g >>= f) s r s' ↔ Yields (f ⟨⟩) (g s) r s' :=
  yields_bind_of (yields_writes.mpr ⟨rfl, rfl⟩)

/-- A call that is evaluated to return well. -/
theorem Yields.exists_of_run {P : α → σ → Prop} [∀ a s', Decidable (P a s')]
    (h : (p.run.run s).any (fun t => t.1.toOption.any fun a => decide (P a t.2)) = true) :
    ∃ a s', Yields p s (.ok a) s' ∧ P a s' := by
  obtain ⟨⟨r, s'⟩, hrun, hr⟩ := (any_eq_true _ _).mp h
  cases r with
  | error e => cases hr
  | ok a => exact ⟨a, s', hrun, of_decide_eq_true hr⟩

-- ==== whole programs

/-- Whatever the call returns, the states before and after are related,
and it fails only with errors of that kind. -/
def Keeps (R : σ → σ → Prop) (E : ε → Prop) (p : Prog ε σ α) : Prop :=
  ∀ s r s', Yields p s r s' → R s s' ∧ ∀ e, r = .error e → E e

variable {R : σ → σ → Prop} {E : ε → Prop} (hrefl : ∀ s, R s s)
  (htrans : ∀ s₁ s₂ s₃, R s₁ s₂ → R s₂ s₃ → R s₁ s₃)

include hrefl in
theorem Keeps.pure : Keeps R E (pure a : Prog ε σ α) := by
  intro s r s' h
  obtain ⟨rfl, rfl⟩ := yields_pure.mp h
  exact ⟨hrefl _, by intro e he; cases he⟩

include hrefl in
theorem Keeps.throw {e : ε} (he : E e) : Keeps R E (throw e : Prog ε σ α) := by
  intro s r s' h
  obtain ⟨rfl, rfl⟩ := yields_throw.mp h
  exact ⟨hrefl _, by rintro e' ⟨⟩; exact he⟩

include hrefl in
theorem Keeps.reads (hg : ∀ s e, g s = .error e → E e) : Keeps R E (reads g) := by
  intro s r s' h
  obtain ⟨rfl, rfl⟩ := yields_reads.mp h
  exact ⟨hrefl _, hg _⟩

theorem Keeps.writes {g : σ → σ} (h : ∀ s, R s (g s)) : Keeps R E (writes g : Prog ε σ PUnit) := by
  intro s r s' hy
  obtain ⟨rfl, rfl⟩ := yields_writes.mp hy
  exact ⟨h s, by intro e he; cases he⟩

theorem Keeps.stuck : Keeps R E (stuck : Prog ε σ α) := fun _ _ _ h => absurd h not_yields_stuck

include hrefl in
theorem Keeps.onlyIf {c : Bool} {p : Prog ε σ PUnit} (hp : Keeps R E p) :
    Keeps R E (onlyIf c p) := by
  unfold Fallible.onlyIf
  split
  case isTrue => exact hp
  case isFalse => exact Keeps.pure hrefl

include htrans in
theorem Keeps.bind (hp : Keeps R E p) (hf : ∀ a, Keeps R E (f a)) : Keeps R E (p >>= f) := by
  intro s r s' h
  rcases yields_bind.mp h with ⟨a, s₁, h₁, h₂⟩ | ⟨e, h₁, rfl⟩
  · obtain ⟨hR, hE⟩ := hf a _ _ _ h₂
    exact ⟨htrans _ _ _ (hp _ _ _ h₁).1 hR, hE⟩
  · obtain ⟨hR, hE⟩ := hp _ _ _ h₁
    exact ⟨hR, by rintro e' ⟨⟩; exact hE e rfl⟩

end Fallible
