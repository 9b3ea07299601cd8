/-
Forests given by a parent function: keys with at most one parent each,
and a partial map that says what is there. A forest is closed when what
is there hangs under a directory; then everything between a key and one
below it is there too.
-/
import FileManager.Lib.Keyed

namespace Forest

universe u v

variable {κ : Type u} {ν : Type v} {parent : κ → Option κ} {get : κ → Option ν} {directory : ν}
  {p k : κ}

/-- `Under parent p k`: going up from `k` reaches `p`. -/
inductive Under (parent : κ → Option κ) (p : κ) : κ → Prop
  | self : Under parent p p
  | up {k m : κ} : parent k = some m → Under parent p m → Under parent p k

/-- What is there has a directory for a parent, or none. -/
def Closed (parent : κ → Option κ) (get : κ → Option ν) (directory : ν) : Prop :=
  ∀ k, get k ≠ none → ∀ p, parent k = some p → get p = some directory

/-- Above something that is there stands a directory, with a child on
the way down. -/
theorem Under.exists_child (h : Under parent p k)
    (hclosed : Closed parent get directory) (hne : p ≠ k) (hk : get k ≠ none) :
    get p = some directory ∧ ∃ c, parent c = some p ∧ get c ≠ none ∧ Under parent c k := by
  induction h with
  | self => exact absurd rfl hne
  | @up k m hparent _ ih =>
    have hm := hclosed k hk m hparent
    by_cases hpm : p = m
    · subst hpm
      exact ⟨hm, k, hparent, hk, .self⟩
    · obtain ⟨hdirectory, c, hc, hthere, hunder⟩ := ih hpm (by rw [hm]; exact nofun)
      exact ⟨hdirectory, c, hc, hthere, .up hparent hunder⟩

end Forest
