/-
Events of two classes over one stream: those of the first are handed on
as they come, those of the second wait for the next frame. What comes out
has the events of each class in the order in which they came in.
-/
import Mathlib.Data.List.Basic

namespace Batch

open List

universe u v

variable {α : Type u} {waits keep : α → Bool} {queue : List α} {value : α}

/-- What happens to a batching stream. -/
inductive Turn (α : Type u)
  | event (value : α)
  | frame
deriving DecidableEq

def events : List (Turn α) → List α
  | [] => []
  | .event value :: rest => value :: events rest
  | .frame :: rest => events rest

/-- What waits and what came out, from what waits at first. -/
def run (waits : α → Bool) : List α → List (Turn α) → List α × List α
  | queue, [] => (queue, [])
  | queue, .event value :: rest =>
    if waits value then run waits (queue ++ [value]) rest
    else ((run waits queue rest).1, value :: (run waits queue rest).2)
  | queue, .frame :: rest => ((run waits [] rest).1, queue ++ (run waits [] rest).2)

def sinceFrame : List α → List (Turn α) → List α
  | since, [] => since
  | since, .event value :: rest => sinceFrame (since ++ [value]) rest
  | _, .frame :: rest => sinceFrame [] rest

/-- A turn with another event. -/
def Turn.map {β : Type v} (f : α → β) : Turn α → Turn β
  | .event value => .event (f value)
  | .frame => .frame

/-- A frame, or an event that is kept. -/
def Turn.keeps (keep : α → Bool) : Turn α → Bool
  | .event value => keep value
  | .frame => true

attribute [local simp] run events sinceFrame Turn.map Turn.keeps

/-- A stream of images is the image of a stream. -/
theorem run_map {β : Type v} {waits : β → Bool} (f : α → β) (queue : List α)
    (turns : List (Turn α)) :
    run waits (queue.map f) (turns.map (Turn.map f))
      = ((run (fun value => waits (f value)) queue turns).1.map f,
        (run (fun value => waits (f value)) queue turns).2.map f) := by
  induction turns generalizing queue with
  | nil => rfl
  | cons turn rest ih =>
    cases turn with
    | frame =>
      have hrest := ih []
      rw [map_nil] at hrest
      simp only [map_cons, Turn.map, run, hrest, map_append]
    | event value =>
      have hrest := ih (queue ++ [value])
      rw [map_append, map_singleton] at hrest
      simp only [map_cons, Turn.map, run, hrest, ih queue]
      split <;> rfl

/-- What waits came in since the last frame. -/
theorem run_fst (since : List α) (turns : List (Turn α)) :
    (run waits (since.filter waits) turns).1 = (sinceFrame since turns).filter waits := by
  induction turns generalizing since with
  | nil => rfl
  | cons turn rest ih =>
    cases turn with
    | frame => exact ih []
    | event value =>
      have hrest := ih (since ++ [value])
      rw [filter_append] at hrest
      rw [run, sinceFrame, ← hrest]
      by_cases hwaits : waits value = true
      · rw [if_pos hwaits, filter_cons_of_pos hwaits, filter_nil]
      · rw [if_neg hwaits, filter_cons_of_neg hwaits, filter_nil, append_nil]

variable {turns : List (Turn α)}

/-- The turns around an event that comes in. -/
theorem exists_split {first second : List α} (h : events turns = first ++ value :: second) :
    ∃ before after, turns = before ++ .event value :: after ∧ events before = first
      ∧ events after = second := by
  induction turns generalizing first with
  | nil => cases first <;> cases h
  | cons turn rest ih =>
    cases turn with
    | frame =>
      obtain ⟨before, after, rfl, hfirst, hsecond⟩ := ih h
      exact ⟨.frame :: before, after, rfl, hfirst, hsecond⟩
    | event head =>
      cases first with
      | nil =>
        obtain ⟨rfl, hrest⟩ := List.cons.inj h
        exact ⟨[], rest, rfl, rfl, hrest⟩
      | cons other first =>
        obtain ⟨rfl, hrest⟩ := List.cons.inj h
        obtain ⟨before, after, rfl, hfirst, hsecond⟩ := ih hrest
        exact ⟨.event head :: before, after, rfl, by rw [events, hfirst], hsecond⟩

/-- A stream goes on from what waits. -/
theorem run_append (queue : List α) (first second : List (Turn α)) :
    run waits queue (first ++ second) = ((run waits (run waits queue first).1 second).1,
        (run waits queue first).2 ++ (run waits (run waits queue first).1 second).2) := by
  induction first generalizing queue with
  | nil => rfl
  | cons turn rest ih =>
    cases turn with
    | frame =>
      simp only [cons_append, run, ih, append_assoc]
    | event value =>
      by_cases hwaits : waits value = true
      · simp only [cons_append, run, hwaits, if_true, ih]
      · simp only [cons_append, run, hwaits, if_false, ih, Bool.false_eq_true]

/-- Frames alone do nothing. -/
theorem run_nil (h : events turns = []) : run waits [] turns = ([], []) := by
  induction turns with
  | nil => rfl
  | cons turn rest ih =>
    cases turn with
    | event value => cases h
    | frame => rw [run, ih h, nil_append]

/-- What is handed on at once keeps its order, for any part of it. -/
theorem filter_at_once (hkeep : ∀ value, keep value = true → waits value = false)
    (hqueue : ∀ value ∈ queue, waits value = true) (turns : List (Turn α)) :
    (run waits queue turns).2.filter keep = (events turns).filter keep := by
  have hnone : ∀ {values : List α}, (∀ value ∈ values, waits value = true) →
      values.filter keep = [] := by
    intro values hvalues
    rw [filter_eq_nil_iff]
    intro value hvalue hkept
    have hlow := hkeep value hkept
    rw [hvalues value hvalue] at hlow
    cases hlow
  induction turns generalizing queue with
  | nil => rfl
  | cons turn rest ih =>
    cases turn with
    | frame =>
      rw [run, events, filter_append, hnone hqueue, nil_append, ih (by simp)]
    | event value =>
      by_cases hwaits : waits value = true
      · have hdropped : keep value = false := by
          cases hkept : keep value with
          | false => rfl
          | true => rw [hkeep value hkept] at hwaits; cases hwaits
        rw [run, if_pos hwaits, events, filter_cons_of_neg (by simp [hdropped])]
        refine ih fun other hother => ?_
        rcases mem_append.mp hother with hold | hsame
        · exact hqueue other hold
        · rw [mem_singleton.mp hsame]
          exact hwaits
      · rw [run, if_neg hwaits, events, filter_cons, filter_cons, ih hqueue]

/-- What waits keeps its order, for any part of it. -/
theorem filter_waiting (hkeep : ∀ value, keep value = true → waits value = true)
    (queue : List α) (turns : List (Turn α)) :
    (run waits queue turns).2.filter keep ++ (run waits queue turns).1.filter keep
      = queue.filter keep ++ (events turns).filter keep := by
  induction turns generalizing queue with
  | nil => simp [run, events]
  | cons turn rest ih =>
    cases turn with
    | frame =>
      rw [run, events, filter_append, append_assoc, ih]
      simp
    | event value =>
      by_cases hwaits : waits value = true
      · rw [run, if_pos hwaits, ih, events, filter_append, append_assoc, ← filter_append]
        rfl
      · have hdropped : keep value = false := by
          cases hkept : keep value with
          | false => rfl
          | true => exact absurd (hkeep value hkept) hwaits
        rw [run, if_neg hwaits, events, filter_cons_of_neg (by simp [hdropped]),
          filter_cons_of_neg (by simp [hdropped]), ih]

/-- What comes out came in, or waited at first. -/
theorem mem_of_mem_run
    (h : value ∈ (run waits queue turns).2) : value ∈ queue ∨ value ∈ events turns := by
  induction turns generalizing queue with
  | nil => cases h
  | cons turn rest ih =>
    cases turn with
    | frame =>
      rcases mem_append.mp h with hqueue | hrest
      · exact .inl hqueue
      · rcases ih hrest with hnone | hevent
        · cases hnone
        · exact .inr hevent
    | event head =>
      rw [run] at h
      rw [events, mem_cons]
      by_cases hwaits : waits head = true
      · rw [if_pos hwaits] at h
        rcases ih h with hqueue | hevent
        · rcases mem_append.mp hqueue with hold | hsame
          · exact .inl hold
          · exact .inr (.inl (mem_singleton.mp hsame))
        · exact .inr (.inr hevent)
      · rw [if_neg hwaits] at h
        rcases mem_cons.mp h with hsame | hrest
        · exact .inr (.inl hsame)
        · exact (ih hrest).imp_right .inr

/-- What waits in the queue is of the class that waits. -/
theorem waits_of_mem_queue (hqueue : ∀ value ∈ queue, waits value = true)
    (turns : List (Turn α)) : ∀ value ∈ (run waits queue turns).1, waits value = true := by
  induction turns generalizing queue with
  | nil => exact hqueue
  | cons turn rest ih =>
    cases turn with
    | frame => exact ih (by simp)
    | event value =>
      by_cases hwaits : waits value = true
      · rw [run, if_pos hwaits]
        refine ih fun other hother => ?_
        rcases mem_append.mp hother with hold | hsame
        · exact hqueue other hold
        · rw [mem_singleton.mp hsame]
          exact hwaits
      · rw [run, if_neg hwaits]
        exact ih hqueue

end Batch
