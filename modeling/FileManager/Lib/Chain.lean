/-
The history of one numbered cell: each write replaces the value before
it by one whose number is the successor. What a linear history gives,
and all that the arguments about optimistic concurrency need of it, is
that a number names one version of the cell and one write.
-/
import Mathlib.Data.List.Basic

namespace Chain

open List

universe u v

variable {ε : Type u} {β : Type v} {before after : ε → β} {rank : β → Nat} {first last version : β}
  {log : List ε} {e : ε}

/-- The writes `log` take the cell from `first` to `last`; a write finds
`before` and leaves `after`, which is one higher. -/
inductive Linear (before after : ε → β) (rank : β → Nat) (first : β) :
    List ε → β → Prop
  | start : Linear before after rank first [] first
  | snoc {log : List ε} (e : ε) :
      Linear before after rank first log (before e) →
      rank (after e) = rank (before e) + 1 →
      Linear before after rank first (log ++ [e]) (after e)

/-- Each write finds what the one before it left. -/
theorem Linear.handover (h : Linear before after rank first log last) :
    log.map before ++ [last] = first :: log.map after := by
  induction h with
  | start => rfl
  | snoc e _ _ ih => simp [← cons_append, ← ih]

/-- The number counts the writes. -/
theorem Linear.rank_last (h : Linear before after rank first log last) :
    rank last = rank first + log.length := by
  induction h with
  | start => rfl
  | snoc e _ he ih =>
    rw [he, ih, length_append]
    rfl

/-- No version is past the last one. -/
theorem Linear.rank_le (h : Linear before after rank first log last)
    (hv : version ∈ first :: log.map after) : rank version < rank last ∨ version = last := by
  induction h with
  | start => exact .inr (mem_singleton.mp hv)
  | snoc e _ he ih =>
    rw [map_append, ← cons_append, mem_append] at hv
    rcases hv with hv | hv
    · left
      rcases ih hv with hlt | rfl <;> omega
    · exact .inr (mem_singleton.mp hv)

/-- A number names one version. -/
theorem Linear.eq_last (h : Linear before after rank first log last)
    (hv : version ∈ first :: log.map after) (hrank : rank version = rank last) : version = last := by
  rcases h.rank_le hv with hlt | heq
  · omega
  · exact heq

/-- Every write found an earlier version. -/
theorem Linear.rank_before (h : Linear before after rank first log last)
    (he : e ∈ log) : rank (before e) < rank last := by
  induction h with
  | start => cases he
  | snoc e' _ hnext ih =>
    rcases mem_append.mp he with hold | hnew
    · have := ih hold
      omega
    · rw [mem_singleton.mp hnew]
      omega

/-- Every write leaves the successor of what it found. -/
theorem Linear.rank_after (h : Linear before after rank first log last)
    (he : e ∈ log) : rank (after e) = rank (before e) + 1 := by
  induction h with
  | start => cases he
  | snoc e' _ hnext ih =>
    rcases mem_append.mp he with hold | hnew
    · exact ih hold
    · rw [mem_singleton.mp hnew]
      exact hnext

/-- A number is left by one write. -/
theorem Linear.write_unique (h : Linear before after rank first log last) {e' : ε}
    (he : e ∈ log) (he' : e' ∈ log) (hrank : rank (before e) = rank (before e')) : e = e' := by
  induction h with
  | start => cases he
  | snoc last hlog _ ih =>
    rcases mem_append.mp he with hold | hnew
    · rcases mem_append.mp he' with hold' | hnew'
      · exact ih hold hold'
      · have hlt := hlog.rank_before hold
        rw [mem_singleton.mp hnew'] at hrank
        omega
    · rcases mem_append.mp he' with hold' | hnew'
      · have hlt := hlog.rank_before hold'
        rw [mem_singleton.mp hnew] at hrank
        omega
      · rw [mem_singleton.mp hnew, mem_singleton.mp hnew']

end Chain
