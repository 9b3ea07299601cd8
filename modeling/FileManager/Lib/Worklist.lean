/-
Worklists: the traversal of a graph with a stack and a set of visited
keys. A node is taken from the stack and skipped if its key has been
visited; else it is expanded, and its successors go on the stack.

# The argument

Whatever has been reached is either waiting or visited (`Inv`), and a
visited node's successors have been reached with it. When the stack is
empty they are all that can be reached (`Inv.mem_done_iff`), and with
finitely many keys it runs empty (`Inv.finishes`).
-/
import Mathlib.Data.Finset.Card

namespace Worklist

open List

universe u v

variable {ν : Type u} {κ : Type v} [DecidableEq κ] (key : ν → κ) (expand : ν → List ν)

/-- The stack, and the nodes that have been expanded. -/
structure State (ν : Type u) where
  pending : List ν
  done : List ν

/-- One turn. -/
def step (s : State ν) : State ν :=
  match s.pending with
  | [] => s
  | n :: rest =>
    if key n ∈ s.done.map key then { s with pending := rest }
    else { pending := expand n ++ rest, done := s.done ++ [n] }

/-- So many turns. -/
def run : Nat → State ν → State ν
  | 0, s => s
  | fuel + 1, s => run fuel (step key expand s)

/-- The nodes that can be reached from the roots. -/
inductive Reaches (roots : List ν) : ν → Prop
  | root {n : ν} : n ∈ roots → Reaches roots n
  | child {n m : ν} : Reaches roots n → m ∈ expand n → Reaches roots m

theorem Reaches.mono {expand expand' : ν → List ν} {roots roots' : List ν}
    (hroots : ∀ n ∈ roots, n ∈ roots')
    (hexpand : ∀ n, Reaches expand roots n → ∀ m ∈ expand n, m ∈ expand' n) {n : ν}
    (h : Reaches expand roots n) : Reaches expand' roots' n := by
  induction h with
  | root hn => exact .root (hroots _ hn)
  | child hn hm ih => exact .child ih (hexpand _ hn _ hm)

/-- Waiting, or visited. -/
def Covered (s : State ν) (n : ν) : Prop := n ∈ s.pending ∨ key n ∈ s.done.map key

structure Inv (roots : List ν) (s : State ν) : Prop where
  pending_reaches : ∀ n ∈ s.pending, Reaches expand roots n
  done_reaches : ∀ n ∈ s.done, Reaches expand roots n
  nodup : (s.done.map key).Nodup
  roots_covered : ∀ n ∈ roots, Covered key s n
  closed : ∀ n ∈ s.done, ∀ m ∈ expand n, Covered key s m

variable {key expand} {roots : List ν} {s : State ν}

omit [DecidableEq κ] in
variable (key expand) in
theorem Inv.start (roots : List ν) : Inv key expand roots ⟨roots, []⟩ where
  pending_reaches := fun _ hn => .root hn
  done_reaches := fun _ hn => by cases hn
  nodup := nodup_nil
  roots_covered := fun _ hn => .inl hn
  closed := fun _ hn => by cases hn

variable (key expand) in
/-- What one turn comes to. -/
theorem step_cases {n : ν} {rest : List ν} (hpending : s.pending = n :: rest) :
    (key n ∈ s.done.map key ∧ step key expand s = { s with pending := rest })
      ∨ (key n ∉ s.done.map key
        ∧ step key expand s = { pending := expand n ++ rest, done := s.done ++ [n] }) := by
  unfold step
  rw [hpending]
  by_cases hvisited : key n ∈ s.done.map key
  · exact .inl ⟨hvisited, if_pos hvisited⟩
  · exact .inr ⟨hvisited, if_neg hvisited⟩

theorem Covered.step {m : ν} (h : Covered key s m) : Covered key (step key expand s) m := by
  cases hpending : s.pending with
  | nil =>
    unfold Worklist.step
    rw [hpending]
    exact h
  | cons n rest =>
    rcases step_cases key expand hpending with ⟨hvisited, heq⟩ | ⟨-, heq⟩
    · rw [heq]
      rcases h with h | h
      · rw [hpending] at h
        rcases mem_cons.mp h with rfl | h
        · exact .inr hvisited
        · exact .inl h
      · exact .inr h
    · rw [heq]
      rcases h with h | h
      · rw [hpending] at h
        rcases mem_cons.mp h with rfl | h
        · exact .inr (mem_map_of_mem (by simp))
        · exact .inl (mem_append_right _ h)
      · refine .inr ?_
        rw [map_append]
        exact mem_append_left _ h

theorem Inv.step (h : Inv key expand roots s) : Inv key expand roots (step key expand s) := by
  cases hpending : s.pending with
  | nil =>
    unfold Worklist.step
    rw [hpending]
    exact h
  | cons n rest =>
    have hn : Reaches expand roots n := h.pending_reaches n (by rw [hpending]; simp)
    have hrest : ∀ m ∈ rest, Reaches expand roots m := fun m hm =>
      h.pending_reaches m (by rw [hpending]; exact mem_cons_of_mem _ hm)
    have hroots : ∀ m ∈ roots, Covered key (Worklist.step key expand s) m := fun m hm =>
      (h.roots_covered m hm).step
    have hclosed : ∀ d ∈ s.done, ∀ m ∈ expand d,
        Covered key (Worklist.step key expand s) m := fun d hd m hm =>
      (h.closed d hd m hm).step
    rcases step_cases key expand hpending with ⟨hvisited, heq⟩ | ⟨hnew, heq⟩
    · rw [heq] at hroots hclosed ⊢
      exact ⟨hrest, h.done_reaches, h.nodup, hroots, hclosed⟩
    · rw [heq] at hroots hclosed ⊢
      refine ⟨?_, ?_, ?_, hroots, ?_⟩
      · intro m hm
        rcases mem_append.mp hm with hm | hm
        · exact .child hn hm
        · exact hrest m hm
      · intro m hm
        rcases mem_append.mp hm with hm | hm
        · exact h.done_reaches m hm
        · rw [mem_singleton.mp hm]
          exact hn
      · rw [map_append, map_singleton, nodup_append]
        refine ⟨h.nodup, nodup_singleton _, ?_⟩
        intro k hk k' hk' heq'
        rw [mem_singleton.mp hk'] at heq'
        exact hnew (heq' ▸ hk)
      · intro d hd m hm
        rcases mem_append.mp hd with hd | hd
        · exact hclosed d hd m hm
        · rw [mem_singleton.mp hd] at hm
          exact .inl (mem_append_left _ hm)

theorem Inv.run (h : Inv key expand roots s) (fuel : Nat) :
    Inv key expand roots (run key expand fuel s) := by
  induction fuel generalizing s with
  | zero => exact h
  | succ fuel ih => exact ih h.step

omit [DecidableEq κ] in
/-- With an empty stack, the expanded nodes are those that can be
reached, if no two of these have one key. -/
theorem Inv.mem_done_iff (h : Inv key expand roots s) (hempty : s.pending = [])
    (hkey : ∀ n m, Reaches expand roots n → Reaches expand roots m → key n = key m → n = m)
    (n : ν) : n ∈ s.done ↔ Reaches expand roots n := by
  have hdone : ∀ m, Reaches expand roots m → Covered key s m → m ∈ s.done := by
    intro m hm hcovered
    rcases hcovered with hpending | hvisited
    · simp [hempty] at hpending
    · obtain ⟨m', hm', heq⟩ := mem_map.mp hvisited
      rwa [← hkey m' m (h.done_reaches m' hm') hm heq]
  refine ⟨h.done_reaches n, fun hn => ?_⟩
  induction hn with
  | root hroot => exact hdone _ (.root hroot) (h.roots_covered _ hroot)
  | child hparent hm ih => exact hdone _ (.child hparent hm) (h.closed _ ih _ hm)

/-- With finitely many keys the stack runs empty. -/
theorem Inv.finishes (h : Inv key expand roots s) (keys : List κ)
    (hkeys : ∀ n, Reaches expand roots n → key n ∈ keys) :
    ∃ fuel, (Worklist.run key expand fuel s).pending = [] := by
  -- by the keys not visited, then by the length of the stack
  induction hleft : keys.length - s.done.length using Nat.strong_induction_on generalizing s with
  | _ left ihLeft =>
    induction hlength : s.pending.length generalizing s with
    | zero => exact ⟨0, eq_nil_of_length_eq_zero hlength⟩
    | succ length ihLength =>
      obtain ⟨n, rest, hpending⟩ := exists_cons_of_length_eq_add_one hlength
      rcases step_cases key expand hpending with ⟨-, heq⟩ | ⟨-, heq⟩
      · have hnext := h.step
        rw [heq] at hnext
        obtain ⟨fuel, hfuel⟩ := ihLength hnext hleft (by
          rw [hpending] at hlength
          simpa using hlength)
        refine ⟨fuel + 1, ?_⟩
        unfold Worklist.run
        rw [heq]
        exact hfuel
      · have hnext := h.step
        rw [heq] at hnext
        -- the visited keys are among the finitely many
        have hcount : (s.done ++ [n]).length ≤ keys.length := by
          rw [← length_map key]
          refine (hnext.nodup.subperm ?_).length_le
          intro k hk
          obtain ⟨m, hm, rfl⟩ := mem_map.mp hk
          exact hkeys m (hnext.done_reaches m hm)
        rw [length_append, length_singleton] at hcount
        obtain ⟨fuel, hfuel⟩ := ihLeft (keys.length - (s.done ++ [n]).length)
          (by rw [length_append, length_singleton]; omega) hnext rfl
        refine ⟨fuel + 1, ?_⟩
        unfold Worklist.run
        rw [heq]
        exact hfuel

end Worklist
