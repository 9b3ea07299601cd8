/-
Reference counts: a table that has, for every key somebody holds, the
number of its holders, and lets go of a key with the last of them.

`Counts` relates a table to a list of holders, in any order and each as
often as it holds its key; `acquire` and `release` are the two
operations of such a table. That a count is never taken below one is a
consequence: who releases is one of the holders.
-/
import Mathlib.Data.List.Count
import Mathlib.Data.List.Perm.Basic

namespace RefCount

open List

universe u v

variable {κ : Type u} {α : Type v} [DecidableEq κ] {counts : κ → Option Nat}
  {holders holders' : List κ} {k : κ} {f : α → Option κ} {l : List α} {n i : Nat} {a b : α}

-- ==== operations

/-- One more holder of a key. -/
def acquire (counts : κ → Option Nat) (k : κ) : κ → Option Nat :=
  Function.update counts k (some ((counts k).getD 0 + 1))

/-- One holder of a key less. -/
def release (counts : κ → Option Nat) (k : κ) : κ → Option Nat :=
  match counts k with
  | none => counts
  | some n => Function.update counts k (if n - 1 = 0 then none else some (n - 1))

/-- The number of holders, where there are any. -/
def shared (n : Nat) : Option Nat := if n = 0 then none else some n

/-- The table has the counts of `holders`. -/
def Counts (counts : κ → Option Nat) (holders : List κ) : Prop :=
  ∀ k, counts k = shared (holders.count k)

-- ==== the counts

theorem counts_nil : Counts (fun _ : κ => none) [] := fun _ => rfl

theorem getD_shared (n : Nat) : (shared n).getD 0 = n := by
  unfold shared
  split
  case isTrue h => exact h.symm
  case isFalse => rfl

theorem shared_eq_some {m : Nat} : shared n = some m ↔ n = m ∧ 0 < n := by
  unfold shared
  split
  case isTrue h => simp [h]
  case isFalse h => simp [Nat.pos_of_ne_zero h]

/-- The order of the holders does not matter. -/
theorem Counts.perm (h : Counts counts holders) (hperm : holders.Perm holders') :
    Counts counts holders' := by
  intro k
  rw [h k, hperm.count_eq]

theorem Counts.getD (h : Counts counts holders) (k : κ) : (counts k).getD 0 = holders.count k := by
  rw [h k, getD_shared]

/-- A count is the number of holders, and never zero. -/
theorem Counts.eq_some (h : Counts counts holders) (hn : counts k = some n) :
    n = holders.count k ∧ 0 < n := by
  rw [h k] at hn
  obtain ⟨rfl, hpos⟩ := shared_eq_some.mp hn
  exact ⟨rfl, hpos⟩

/-- A key has a count iff somebody holds it. -/
theorem Counts.isSome_iff (h : Counts counts holders) :
    (counts k).isSome = true ↔ 0 < holders.count k := by
  rw [h k]
  unfold shared
  split
  case isTrue hzero => simp [hzero]
  case isFalse hne => simp [Nat.pos_of_ne_zero hne]

theorem Counts.acquire (h : Counts counts holders) (k : κ) :
    Counts (acquire counts k) (k :: holders) := by
  intro k'
  unfold RefCount.acquire
  rw [Function.update_apply]
  split
  case isTrue heq =>
    subst heq
    rw [h.getD, count_cons_self]
    exact (shared_eq_some.mpr ⟨rfl, Nat.succ_pos _⟩).symm
  case isFalse hne => rw [h k', count_cons_of_ne (Ne.symm hne)]

/-- A holder lets go; the others keep their counts. -/
theorem Counts.release (h : Counts counts (k :: holders)) : Counts (release counts k) holders := by
  have hcount : counts k = some (holders.count k + 1) := by
    rw [h k, count_cons_self]
    exact shared_eq_some.mpr ⟨rfl, Nat.succ_pos _⟩
  intro k'
  unfold RefCount.release
  rw [hcount]
  simp only [Nat.add_sub_cancel, Function.update_apply]
  split
  case isTrue heq =>
    subst heq
    rfl
  case isFalse hne => rw [h k', count_cons_of_ne (Ne.symm hne)]

-- ==== the holders

omit [DecidableEq κ] in
/-- A holder that keeps its key. -/
theorem filterMap_set_of_eq
    (ha : l[i]? = some a) (hab : f b = f a) : (l.set i b).filterMap f = l.filterMap f := by
  induction l generalizing i with
  | nil => rfl
  | cons x rest ih =>
    cases i with
    | zero =>
      obtain rfl : x = a := by simpa using ha
      simp only [set_cons_zero, filterMap_cons, hab]
    | succ i =>
      have hrest := ih (i := i) (by simpa using ha)
      simp only [set_cons_succ, filterMap_cons, hrest]

omit [DecidableEq κ] in
/-- A holder that lets go of its key. -/
theorem filterMap_set_perm (ha : l[i]? = some a) (hk : f a = some k) (hb : f b = none) :
    (l.filterMap f).Perm (k :: (l.set i b).filterMap f) := by
  induction l generalizing i with
  | nil => simp at ha
  | cons x rest ih =>
    cases i with
    | zero =>
      obtain rfl : x = a := by simpa using ha
      simp only [set_cons_zero, filterMap_cons, hk, hb]
      exact .refl _
    | succ i =>
      have hrest := ih (i := i) (by simpa using ha)
      simp only [set_cons_succ, filterMap_cons]
      cases f x with
      | none => exact hrest
      | some k' => exact (hrest.cons k').trans (.swap _ _ _)

end RefCount
