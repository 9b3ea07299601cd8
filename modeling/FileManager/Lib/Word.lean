/-
Unsigned 64-bit counters over `Nat`: the saturating and the checked
addition, and what folding a list of contributions with each of them
yields. A saturating accumulator reads the exact total while that fits
and sticks at the top after; a checked one is the exact total or
nothing.
-/
import Mathlib.Algebra.BigOperators.Group.List.Basic
import Mathlib.Algebra.Ring.Nat
import Mathlib.Order.Lattice

namespace Word

variable {bs : List Nat}

/-- `u64::MAX`. -/
def max : Nat := 2 ^ 64 - 1

/-- `u64::saturating_add`. -/
def satAdd (a b : Nat) : Nat := min (a + b) max

/-- `u64::checked_add`. -/
def checkedAdd (a b : Nat) : Option Nat :=
  if a + b ≤ max then some (a + b) else none

/-- `iter().try_fold(0, checked_add)`. -/
def checkedSum (bs : List Nat) : Option Nat := bs.foldlM checkedAdd 0

theorem satAdd_min (total b : Nat) : satAdd (min total max) b = min (total + b) max := by
  unfold satAdd
  omega

/-- A checked addition that succeeds is the exact one. -/
theorem checkedAdd_eq {a b next : Nat} (h : checkedAdd a b = some next) : next = a + b := by
  unfold checkedAdd at h
  split at h
  case isFalse => cases h
  case isTrue => simpa using h.symm

private theorem foldlM_checkedAdd :
    ∀ {acc total : Nat}, bs.foldlM checkedAdd acc = some total → total = acc + bs.sum := by
  induction bs with
  | nil =>
    intro acc total h
    simpa using h.symm
  | cons b bs ih =>
    intro acc total h
    rw [List.foldlM_cons] at h
    cases hadd : checkedAdd acc b with
    | none => simp [hadd] at h
    | some next =>
      have hnext := checkedAdd_eq hadd
      have hrest : bs.foldlM checkedAdd next = some total := by simpa [hadd] using h
      have := ih hrest
      simp only [List.sum_cons]
      omega

/-- A known checked total is the exact total. -/
theorem checkedSum_eq {total : Nat} (h : checkedSum bs = some total) : total = bs.sum := by
  have := foldlM_checkedAdd h
  omega

end Word
