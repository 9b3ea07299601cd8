/-
Walks of a relation: the successive points of a path, with both ends
named. A walk is what a sequence of change notifications denotes when
every notification carries the new value; composing two walks is the
step from "each step publishes a walk" to "the run publishes one".
-/
import Mathlib.Data.List.Chain

namespace Walk

universe u

variable {α : Type u} {R : α → α → Prop} {points : List α} {a b c : α}

/-- `points` lead from `a` to `b` by steps of `R`; `a` itself is not
listed. -/
structure IsWalk (R : α → α → Prop) (a : α) (points : List α) (b : α) :
    Prop where
  chain : (a :: points).IsChain R
  last : points.getLastD a = b

theorem IsWalk.refl (a : α) : IsWalk R a [] a := ⟨List.isChain_singleton a, rfl⟩

theorem IsWalk.single (h : R a b) : IsWalk R a [b] b := ⟨List.isChain_pair.mpr h, rfl⟩

theorem IsWalk.cons (h : R a b) (hw : IsWalk R b points c) : IsWalk R a (b :: points) c := by
  refine ⟨List.isChain_cons_cons.mpr ⟨h, hw.chain⟩, ?_⟩
  rw [← hw.last]
  cases points <;> rfl

/-- Walks compose. -/
theorem IsWalk.append {first second : List α} (hf : IsWalk R a first b)
    (hs : IsWalk R b second c) : IsWalk R a (first ++ second) c := by
  induction first generalizing a with
  | nil =>
    have hab : a = b := hf.last
    subst hab
    exact hs
  | cons x xs ih =>
    have hchain := List.isChain_cons_cons.mp hf.chain
    have hlast : xs.getLastD x = b := by
      rw [← hf.last]
      cases xs <;> rfl
    exact IsWalk.cons hchain.1 (ih ⟨hchain.2, hlast⟩)

/-- A walk that has passed a point without exits ends there. -/
theorem IsWalk.eq_of_mem {x : α} (hw : IsWalk R a points b)
    (hmem : x ∈ a :: points) (hexit : ∀ y, ¬ R x y) : b = x := by
  induction points generalizing a with
  | nil =>
    rw [List.mem_singleton.mp hmem]
    exact hw.last.symm
  | cons p ps ih =>
    have hchain := List.isChain_cons_cons.mp hw.chain
    have hlast : ps.getLastD p = b := by
      rw [← hw.last]
      cases ps <;> rfl
    rcases List.mem_cons.mp hmem with rfl | hin
    · exact absurd hchain.1 (hexit p)
    · exact ih ⟨hchain.2, hlast⟩ hin

end Walk
