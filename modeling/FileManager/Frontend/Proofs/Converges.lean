/-
The operation centre after a job is done: what the browser shows of an
operation is the stored operation if the job completed, and if no
progress of it was waiting for a frame when the completion came, or the
last one published was the final one. Progress that waits is reduced over
the completed operation; a job that was cancelled or has failed publishes
no completion time at all.
-/
import FileManager.Frontend.Operations
import FileManager.Operations.Proofs.Published

namespace FileManager.Frontend

open Events (EventEnvelope EventKind)
open Scheduler (Event progressEvents progressEvents_append Reports itemScript)
open Batch (Turn sinceFrame run_append)
open List Batch Payload SseEventStream
open SseEventStream (isHighFrequency handleEvent flush)
open Scheduler.OperationState (isThrough)

variable {id : Nat} {view : OperationPayload} {events : List (EventEnvelope Payload)}
  {operation op₀ : Operation} {seen : List Event} {turns : List (Turn (EventEnvelope Payload))}
  {published : List (Turn Event)} {req : Bool} {s : Scheduler.State} {α : Type}

-- ==== one operation's view

/-- What an event makes of the operation that is shown. -/
def see (view : OperationPayload) : Event → OperationPayload
  | .operationCreated operation => operationPayload operation
  | .operationCompleted operation => operationPayload operation
  | .operationProgress progress =>
    { view with progress := mergeProgress view.progress progress }
  | .operationStateChanged next => { view with state := next }
  | .operationFailed _ _ => { view with state := .failed }
  | .operationConflict _ => view

/-- The snapshots in an event are of the operation. -/
def IsOf (id : Nat) : Event → Prop
  | .operationCreated operation => operation.id = id
  | .operationCompleted operation => operation.id = id
  | _ => True

/-- Whether an event is about the operation. -/
def own (id : Nat) (event : EventEnvelope Payload) : Bool :=
  decide (event.payload.operationId = some id)

@[simp] theorem setKey_same (record : Nat → Option α) (id : Nat) (value : α) :
    setKey record id value id = some value := by
  simp [setKey]

theorem setKey_other {record : Nat → Option α} {other : Nat} {value : α}
    (h : id ≠ other) : setKey record other value id = record id := by
  simp [setKey, h]

theorem reduceEvent_other {centre : OperationCentreState} {payload : Payload}
    (h : payload.operationId ≠ some id) :
    (reduceEvent centre payload).byId id = centre.byId id := by
  have hne : ∀ {other : Nat}, payload.operationId = some other → id ≠ other := by
    intro other hother heq
    subst heq
    exact h hother
  cases payload with
  | operationCreated operation | operationCompleted operation => exact setKey_other (hne rfl)
  | operationConflict other conflict => rfl
  | other kind => rfl
  | _ =>
    simp only [reduceEvent]
    split
    case h_1 => rfl
    case h_2 => exact setKey_other (hne rfl)

theorem reduceEvent_own {centre : OperationCentreState} {event : Event}
    (hview : centre.byId id = some view) (his : IsOf id event) :
    (reduceEvent centre (payloadOf id event)).byId id = some (see view event) := by
  cases event with
  | operationCreated operation | operationCompleted operation =>
    subst his
    exact setKey_same ..
  | operationConflict conflict => exact hview
  | _ => simp [payloadOf, reduceEvent, hview, see]

theorem reduce_own {centre : OperationCentreState} {view : OperationPayload}
    (hview : centre.byId id = some view) (his : ∀ event ∈ seen, IsOf id event)
    (hseen : (events.filter (own id)).map EventEnvelope.payload = seen.map (payloadOf id)) :
    (reduceOperationEvents centre events).byId id = some (seen.foldl see view) := by
  induction events generalizing centre view seen with
  | nil =>
    rw [map_eq_nil_iff.mp hseen.symm]
    exact hview
  | cons event rest ih =>
    by_cases hown : own id event = true
    · rw [filter_cons_of_pos hown, map_cons] at hseen
      obtain ⟨head, tail, rfl, hhead, htail⟩ := map_eq_cons_iff.mp hseen.symm
      refine @ih tail _ (see view head) ?_
        (fun other hother => his other (mem_cons_of_mem _ hother)) htail.symm
      show (reduceEvent centre event.payload).byId id = some (see view head)
      rw [← hhead]
      exact reduceEvent_own hview (his head mem_cons_self)
    · rw [filter_cons_of_neg hown] at hseen
      refine ih ?_ his hseen
      rw [reduceEvent_other (by simpa [own] using hown)]
      exact hview

theorem reduce_created
    (his : ∀ event ∈ seen, IsOf operation.id event)
    (hseen : (events.filter (own operation.id)).map EventEnvelope.payload
      = (.operationCreated operation :: seen).map (payloadOf operation.id))
    (centre : OperationCentreState) :
    (reduceOperationEvents centre events).byId operation.id
      = some (seen.foldl see (operationPayload operation)) := by
  induction events generalizing centre with
  | nil => cases hseen
  | cons event rest ih =>
    by_cases hown : own operation.id event = true
    · rw [filter_cons_of_pos hown, map_cons, map_cons] at hseen
      obtain ⟨hhead, htail⟩ := List.cons.inj hseen
      refine @reduce_own _ rest seen (reduceEvent centre event.payload) _ ?_ his htail
      rw [hhead]
      exact setKey_same ..
    · rw [filter_cons_of_neg hown] at hseen
      exact ih hseen (reduceEvent centre event.payload)

-- ==== what comes out of it

theorem handleEvent_cases (stream : SseEventStream Payload) (event : EventEnvelope Payload) :
    let after := stream.handleEvent kind event
    (parseBackendEvent kind event = none
      ∧ after.1.queued = stream.queued ∧ dispatchesOf after.2 = [])
    ∨ (isHighFrequency kind event = true
      ∧ after.1.queued = stream.queued ++ [event] ∧ dispatchesOf after.2 = [])
    ∨ (isHighFrequency kind event = false
      ∧ after.1.queued = stream.queued ∧ dispatchesOf after.2 = [event]) := by
  intro after
  cases hparse : parseBackendEvent kind event with
  | none =>
    left
    simp [after, handleEvent, hparse, dispatchesOf]
  | some parsed =>
    right
    obtain rfl : event = parsed := by
      unfold parseBackendEvent at hparse
      split at hparse
      case isTrue => cases hparse
      case isFalse =>
        split at hparse
        case isTrue => exact Option.some.inj hparse
        case isFalse => cases hparse
    cases hhigh : isHighFrequency kind event with
    | true =>
      left
      simp only [after, handleEvent, hparse, hhigh, if_true]
      split <;> exact ⟨trivial, rfl, rfl⟩
    | false =>
      right
      simp [after, handleEvent, hparse, hhigh, dispatchesOf]

theorem dispatchesOf_flush (stream : SseEventStream Payload) :
    dispatchesOf stream.flush.2 = stream.queued := by
  simp [dispatchesOf, flush, filterMap_map]

theorem feed_own (hparses : ∀ event ∈ Batch.events turns, own id event = true →
      parseBackendEvent kind event = some event) (stream : SseEventStream Payload) :
    run (isHighFrequency kind) (stream.queued.filter (own id))
        (turns.filter (Turn.keeps (own id)))
      = ((feed stream turns).1.queued.filter (own id), (feed stream turns).2.filter (own id)) := by
  induction turns generalizing stream with
  | nil => rfl
  | cons turn rest ih =>
    cases turn with
    | frame =>
      have hrest := ih hparses stream.flush.1
      rw [show stream.flush.1.queued = [] from rfl, filter_nil] at hrest
      rw [filter_cons_of_pos rfl, run, hrest]
      simp only [feed, dispatchesOf_flush, filter_append]
    | event event =>
      have hrest := ih (fun other hother => hparses other (mem_cons_of_mem _ hother))
        (stream.handleEvent kind event).1
      simp only [feed, filter_append]
      by_cases hown : own id event = true
      · have hparse := hparses event mem_cons_self hown
        rw [filter_cons_of_pos (show Turn.keeps (own id) (.event event) = true from hown),
          run]
        rcases handleEvent_cases stream event with
          ⟨hnone, -, -⟩ | ⟨hhigh, hqueued, hsent⟩ | ⟨hlow, hqueued, hsent⟩
        · simp [hparse] at hnone
        · rw [hqueued, filter_append, filter_cons_of_pos hown] at hrest
          rw [if_pos hhigh, hsent, filter_nil, nil_append]
          exact hrest
        · rw [hqueued] at hrest
          rw [hlow, if_neg Bool.false_ne_true, hsent, hrest, filter_cons_of_pos hown]
          rfl
      · rw [filter_cons_of_neg (show ¬ Turn.keeps (own id) (.event event) = true from hown)]
        rcases handleEvent_cases stream event with
          ⟨-, hqueued, hsent⟩ | ⟨-, hqueued, hsent⟩ | ⟨-, hqueued, hsent⟩
        · rw [hqueued] at hrest
          rw [hsent, hrest]
          rfl
        · rw [hqueued, filter_append, filter_cons_of_neg hown, filter_nil, append_nil] at hrest
          rw [hsent, hrest]
          rfl
        · rw [hqueued] at hrest
          rw [hsent, hrest, filter_cons_of_neg hown]
          rfl

/-- An event that waits for a frame. -/
def isProgress : Event → Bool
  | .operationProgress _ => true
  | _ => false

def Payload.waits (payload : Payload) : Bool := decide (payload.kind.eventName ∈ highFrequencyTypes)

theorem waits_payloadOf : (fun seen => (payloadOf id seen).waits) = isProgress := by
  funext seen
  cases seen <;> simp [payloadOf, waits, kind, isProgress, EventKind.eventName,
    highFrequencyTypes]

variable {stream : SseEventStream Payload}

theorem feed_payloads
    (hqueued : stream.queued.filter (own id) = [])
    (hparses : ∀ event ∈ Batch.events turns, own id event = true →
      parseBackendEvent kind event = some event)
    (harrives : (turns.filter (Turn.keeps (own id))).map (Turn.map EventEnvelope.payload)
      = published.map (Turn.map (payloadOf id))) :
    ((feed stream turns).1.queued.filter (own id)).map EventEnvelope.payload
        = (run isProgress [] published).1.map (payloadOf id)
      ∧ ((feed stream turns).2.filter (own id)).map EventEnvelope.payload
        = (run isProgress [] published).2.map (payloadOf id) := by
  have hown := feed_own hparses stream
  have hturns := @run_map _ _ waits EventEnvelope.payload []
    (turns.filter (Turn.keeps (own id)))
  have hpublished := @run_map _ _ waits (payloadOf id) [] published
  rw [waits_payloadOf, map_nil] at hpublished
  rw [harrives, map_nil, hpublished] at hturns
  rw [hqueued] at hown
  obtain ⟨hwaiting, hsent⟩ := Prod.mk.inj hturns
  obtain ⟨hqueue, hout⟩ := Prod.ext_iff.mp hown
  exact ⟨(congrArg _ hqueue.symm).trans hwaiting.symm, (congrArg _ hout.symm).trans hsent.symm⟩

-- ==== what the view has

theorem completedAt_foldl_see
    (hnone : ∀ event ∈ seen, event.isCreated = false ∧ event.isCompleted = false) :
    (seen.foldl see view).completedAt = view.completedAt := by
  induction seen generalizing view with
  | nil => rfl
  | cons event rest ih =>
    rw [foldl_cons, ih fun other hother => hnone other (mem_cons_of_mem _ hother)]
    have hevent := hnone event mem_cons_self
    cases event with
    | operationCreated operation => cases hevent.1
    | operationCompleted operation => cases hevent.2
    | _ => rfl

theorem foldl_see_progress
    (hseen : ∀ event ∈ seen, isProgress event = true ∨ event.isConflict = true) :
    seen.foldl see view = { view with
      progress := (progressEvents seen).foldl mergeProgress view.progress } := by
  induction seen generalizing view with
  | nil => rfl
  | cons event rest ih =>
    rw [foldl_cons, ih fun other hother => hseen other (mem_cons_of_mem _ hother)]
    have hevent := hseen event mem_cons_self
    cases event with
    | operationProgress progress => rfl
    | operationConflict conflict => rfl
    | _ => rcases hevent with h | h <;> cases h

theorem foldl_mergeProgress {updates : List OperationProgress} {current : OperationProgress}
    (htotals : ∀ update ∈ updates, update.totalItems = current.totalItems
      ∧ update.totalBytes = current.totalBytes) :
    let merged := updates.foldl mergeProgress current
    let last := updates.getLast?.getD current
    merged.totalItems = current.totalItems ∧ merged.totalBytes = current.totalBytes
      ∧ merged.completedItems = last.completedItems
      ∧ merged.completedBytes = last.completedBytes := by
  induction updates generalizing current with
  | nil => exact ⟨rfl, rfl, rfl, rfl⟩
  | cons update rest ih =>
    have hhead := htotals update mem_cons_self
    have hitems : (mergeProgress current update).totalItems = current.totalItems := by
      simp [mergeProgress, hhead.1]
    have hbytes : (mergeProgress current update).totalBytes = current.totalBytes := by
      simp [mergeProgress, hhead.2]
    have hrest := @ih (mergeProgress current update) fun other hother => by
      rw [hitems, hbytes]
      exact htotals other (mem_cons_of_mem _ hother)
    intro merged last
    obtain ⟨h₁, h₂, h₃, h₄⟩ := hrest
    refine ⟨h₁.trans hitems, h₂.trans hbytes, h₃.trans ?_, h₄.trans ?_⟩
    all_goals
      cases rest with
      | nil | cons next others => rfl

-- ==== the results

/-- The operation that the centre shows agrees with the stored one. -/
def Converged (centre : OperationCentreState) (operation : Operation) : Prop :=
  ∃ view, centre.byId operation.id = some view ∧ view.state = operation.state
    ∧ view.progress.completedItems = operation.progress.completedItems
    ∧ view.progress.totalItems = operation.progress.totalItems
    ∧ view.progress.completedBytes = operation.progress.completedBytes
    ∧ view.progress.totalBytes = operation.progress.totalBytes
    ∧ view.completedAt = operation.completedAt

/-- The turns before the operation's completion comes. -/
def beforeCompletion (published : List (Turn Event)) : List (Turn Event) :=
  published.takeWhile fun
    | .event event => !event.isCompleted
    | .frame => true

/-- No progress came between the last frame and the completion, or the
last one that was published has the final counters. -/
def Settled (published : List (Turn Event)) (operation : Operation) : Prop :=
  (sinceFrame [] (beforeCompletion published)).filter isProgress = []
    ∨ ∃ progress, (progressEvents (Batch.events published)).getLast? = some progress
      ∧ progress.completedItems = operation.progress.completedItems
      ∧ progress.completedBytes = operation.progress.completedBytes

theorem beforeCompletion_append {before after : List (Turn Event)}
    (hbefore : ∀ event ∈ Batch.events before, event.isCompleted = false) :
    beforeCompletion (before ++ .event (.operationCompleted operation) :: after) = before := by
  unfold beforeCompletion
  induction before with
  | nil => rfl
  | cons turn rest ih =>
    cases turn with
    | frame => exact congrArg _ (ih hbefore)
    | event event =>
      have hhead := hbefore event mem_cons_self
      have hrest := ih fun other hother => hbefore other (mem_cons_of_mem _ hother)
      simp only [cons_append, takeWhile_cons, hhead, Bool.not_false, if_true, hrest]

theorem progressEvents_filter (seen : List Event) :
    progressEvents (seen.filter isProgress) = progressEvents seen := by
  induction seen with
  | nil => rfl
  | cons event rest ih =>
    cases event with
    | operationProgress progress => exact congrArg (progress :: ·) ih
    | _ => exact ih

theorem progressEvents_run (queue : List Event) (turns : List (Turn Event)) :
    progressEvents (run isProgress queue turns).2
        ++ progressEvents (run isProgress queue turns).1
      = progressEvents queue ++ progressEvents (Batch.events turns) := by
  have h := congrArg progressEvents
    (@filter_waiting _ isProgress isProgress (fun _ hkeep => hkeep) queue turns)
  rw [progressEvents_append, progressEvents_append] at h
  simpa only [progressEvents_filter] using h

/-- The progress that waits when the completion comes. -/
def lateProgress (published : List (Turn Event)) : List OperationProgress :=
  progressEvents (sinceFrame [] (beforeCompletion published))

theorem see_completed (hends : Scheduler.EndsWith operation (Batch.events published))
    (hsent : (run isProgress [] published).1 = []) (view : OperationPayload) :
    (run isProgress [] published).2.foldl see view = { operationPayload operation with
        progress := (lateProgress published).foldl mergeProgress operation.progress }
      ∧ ∃ early, progressEvents (Batch.events published) = early ++ lateProgress published := by
  obtain ⟨first, second, hevents, hfirst, hsecond⟩ := hends
  obtain ⟨before, after, rfl, rfl, rfl⟩ := exists_split hevents
  have hlate : progressEvents (run isProgress [] before).1
      = lateProgress (before ++ .event (.operationCompleted operation) :: after) := by
    unfold lateProgress
    rw [beforeCompletion_append hfirst, ← progressEvents_filter (sinceFrame [] before),
      ← run_fst]
    rfl
  have hquiet : progressEvents (Batch.events after) = [] := by
    refine filterMap_eq_nil_iff.mpr fun event hevent => ?_
    have hconflict := hsecond event hevent
    cases event with
    | operationProgress progress => cases hconflict
    | _ => rfl
  rw [run_append, run, if_neg (by simp [isProgress])] at hsent ⊢
  constructor
  · have hrest := progressEvents_run (run isProgress [] before).1 after
    rw [hsent, hquiet, append_nil] at hrest
    rw [foldl_append, foldl_cons, foldl_see_progress ?_]
    · rw [← hlate, ← hrest]
      simp [see, operationPayload, progressEvents]
    · intro event hevent
      cases hprogress : isProgress event with
      | true => exact .inl rfl
      | false =>
        -- what does not wait came in after the completion
        have hqueue := @waits_of_mem_queue _ isProgress [] (by simp) before
        have hlow := @filter_at_once _ isProgress (fun event => !isProgress event) _
          (fun _ hkeep => by simpa using hkeep) hqueue after
        have hmem := hlow ▸ mem_filter.mpr ⟨hevent, by rw [hprogress, Bool.not_false]⟩
        exact .inr (hsecond event (mem_filter.mp hmem).1)
  · have hall := progressEvents_run [] before
    refine ⟨progressEvents (run isProgress [] before).2, ?_⟩
    rw [hevents, progressEvents_append, ← hlate, hall]
    simp only [progressEvents] at hquiet ⊢
    simp [hquiet]

theorem run_created {rest : List Event}
    (h : Batch.events published = .operationCreated operation :: rest) :
    ∃ after, run isProgress [] published = ((run isProgress [] after).1,
          .operationCreated operation :: (run isProgress [] after).2)
      ∧ Batch.events after = rest := by
  obtain ⟨before, after, rfl, hbefore, hafter⟩ := @exists_split _ _ _ [] _ h
  refine ⟨after, ?_, hafter⟩
  rw [run_append, run_nil hbefore, run, if_neg (by simp [isProgress])]
  rfl

theorem reduce_flatten (centre : OperationCentreState)
    (batches : List (List (EventEnvelope Payload))) :
    batches.foldl reduceOperationEvents centre = reduceOperationEvents centre batches.flatten := by
  unfold reduceOperationEvents
  rw [foldl_flatten]

theorem isThrough_iff (state : OperationState) : isThrough state = true
    ↔ state = .completed ∨ state = .completedWithWarnings := by
  cases state <;> simp [isThrough]

theorem isOf_of_reports (h : Reports op₀ s) : ∀ event ∈ s.events, IsOf s.operation.id event := by
  intro event hevent
  cases event with
  | operationCreated operation =>
    obtain ⟨rest, hrest, hcreated⟩ := h.created
    rw [hrest] at hevent
    rcases mem_cons.mp hevent with heq | hold
    · cases heq
      exact h.id.symm
    · cases hcreated _ hold
  | operationCompleted operation =>
    by_cases hthrough : s.operation.state = .completed ∨ s.operation.state = .completedWithWarnings
    · obtain ⟨before, after, hevents, hbefore, hafter⟩ := h.completes hthrough
      rw [hevents] at hevent
      rcases mem_append.mp hevent with hold | hfresh
      · cases hbefore _ hold
      · rcases mem_cons.mp hfresh with heq | hlater
        · cases heq
          rfl
        · cases hafter _ hlater
    · obtain ⟨hone, htwo⟩ := not_or.mp hthrough
      cases h.others hone htwo _ hevent
  | _ => trivial

theorem byId_feed (h : Reports op₀ s)
    (hpublished : Batch.events published = s.events)
    (harrives : (turns.filter (Turn.keeps (own s.operation.id))).map (Turn.map
      EventEnvelope.payload) = published.map (Turn.map (payloadOf s.operation.id)))
    (hparses : ∀ event ∈ Batch.events turns, own s.operation.id event = true →
      parseBackendEvent kind event = some event)
    (hqueued : stream.queued.filter (own s.operation.id) = []) (centre : OperationCentreState) :
    (reduceOperationEvents centre (feed stream turns).2).byId s.operation.id
      = some ((run isProgress [] published).2.foldl see (operationPayload op₀)) := by
  obtain ⟨rest, hrest, -⟩ := h.created
  obtain ⟨after, hrun, hafter⟩ := run_created (hpublished.trans hrest)
  have hout := (feed_payloads hqueued hparses harrives).2
  rw [hrun] at hout ⊢
  rw [h.id] at hout ⊢
  refine reduce_created (fun event hevent => ?_) hout centre
  rw [← h.id]
  refine isOf_of_reports h event ?_
  rw [hrest]
  refine mem_cons_of_mem _ (hafter ▸ ?_)
  exact (mem_of_mem_run hevent).resolve_left (by simp)

theorem lateProgress_eq_nil_iff (published : List (Turn Event)) :
    lateProgress published = []
      ↔ (sinceFrame [] (beforeCompletion published)).filter isProgress = [] := by
  unfold lateProgress
  induction sinceFrame [] (beforeCompletion published) with
  | nil => simp [progressEvents]
  | cons event rest ih =>
    cases event with
    | operationProgress progress => simp [progressEvents, isProgress]
    | _ => exact ih

theorem settled_iff {early : List OperationProgress}
    (hall : progressEvents (Batch.events published) = early ++ lateProgress published) :
    Settled published operation
      ↔ ((lateProgress published).getLast?.getD operation.progress).completedItems
          = operation.progress.completedItems
        ∧ ((lateProgress published).getLast?.getD operation.progress).completedBytes
          = operation.progress.completedBytes := by
  unfold Settled
  rw [← lateProgress_eq_nil_iff, hall]
  cases hlast : (lateProgress published).getLast? with
  | none =>
    rw [List.getLast?_eq_none_iff] at hlast
    exact ⟨fun _ => ⟨rfl, rfl⟩, fun _ => .inl hlast⟩
  | some last =>
    have hne : lateProgress published ≠ [] := by
      intro hnil
      simp [hnil] at hlast
    rw [List.getLast?_append_of_ne_nil _ hne, hlast]
    constructor
    · intro hcase
      rcases hcase with hnil | ⟨progress, heq, hitems, hbytes⟩
      · exact absurd hnil hne
      · cases heq
        exact ⟨hitems, hbytes⟩
    · intro hboth
      obtain ⟨hitems, hbytes⟩ := hboth
      exact .inr ⟨last, rfl, hitems, hbytes⟩

theorem completedAt_feed (h : Reports op₀ s) (hpublished : Batch.events published = s.events)
    (hthrough : ¬ isThrough s.operation.state = true) :
    ((run isProgress [] published).2.foldl see (operationPayload op₀)).completedAt
      = op₀.completedAt := by
  obtain ⟨rest, hrest, hcreated⟩ := h.created
  obtain ⟨after, hrun, hafter⟩ := run_created (hpublished.trans hrest)
  rw [hrun, foldl_cons, completedAt_foldl_see]
  · rfl
  · intro event hevent
    have hmem : event ∈ rest := by
      rw [← hafter]
      exact (mem_of_mem_run hevent).resolve_left (by simp)
    obtain ⟨hone, htwo⟩ := not_or.mp (mt (isThrough_iff _).mpr hthrough)
    refine ⟨hcreated event hmem, h.others hone htwo event ?_⟩
    rw [hrest]
    exact mem_cons_of_mem _ hmem

/-- When a job is over and its events have been dispatched, however the
batches are cut, the centre agrees with the stored operation exactly
when it completed and its progress was settled. -/
theorem operation_view_converges_iff {request : Scheduler.Request} {now : Timestamp}
    {acts : List Scheduler.Action}
    (hrun : Machine.Run (Scheduler.apply req) Machine.Free
      (Scheduler.startOperation request now) acts s)
    (hover : s.operation.state.isTerminal = true)
    {turns : List (Turn (EventEnvelope Payload))} {published : List (Turn Event)}
    {stream : SseEventStream Payload}
    (hpublished : Batch.events published = s.events)
    (harrives : (turns.filter (Turn.keeps (own s.operation.id))).map
      (Turn.map EventEnvelope.payload) = published.map (Turn.map (payloadOf s.operation.id)))
    (hparses : ∀ event ∈ Batch.events turns, own s.operation.id event = true →
      parseBackendEvent kind event = some event)
    (hqueued : stream.queued.filter (own s.operation.id) = [])
    (hflushed : (feed stream turns).1.queued.filter (own s.operation.id) = [])
    (centre : OperationCentreState) :
    (Converged (reduceOperationEvents centre (feed stream turns).2) s.operation
      ↔ Scheduler.OperationState.isThrough s.operation.state = true ∧ Settled published s.operation)
    ∧ ∀ batches : List (List (EventEnvelope Payload)), batches.flatten = (feed stream turns).2 →
      batches.foldl reduceOperationEvents centre
        = reduceOperationEvents centre (feed stream turns).2 := by
  have h := Scheduler.reports_run hrun
  refine ⟨?_, fun batches hbatches => hbatches ▸ reduce_flatten centre batches⟩
  have hview := byId_feed h hpublished harrives hparses hqueued centre
  have hsent : (run isProgress [] published).1 = [] := by
    have hqueue := (feed_payloads hqueued hparses harrives).1
    rw [hflushed] at hqueue
    exact List.map_eq_nil_iff.mp hqueue.symm
  by_cases hthrough : Scheduler.OperationState.isThrough s.operation.state = true
  · have hends := h.completes ((isThrough_iff _).mp hthrough)
    rw [← hpublished] at hends
    obtain ⟨hshown, early, hall⟩ := see_completed hends hsent
      (operationPayload (Scheduler.startOperation request now).operation)
    rw [hshown] at hview
    have htotals : ∀ update ∈ lateProgress published,
        update.totalItems = s.operation.progress.totalItems
          ∧ update.totalBytes = s.operation.progress.totalBytes := by
      intro update hupdate
      refine h.totals update ?_
      rw [← hpublished, hall]
      exact List.mem_append_right _ hupdate
    obtain ⟨hitemsTotal, hbytesTotal, hitems, hbytes⟩ := foldl_mergeProgress htotals
    rw [settled_iff hall, ← hitems, ← hbytes]
    constructor
    · intro hfound
      obtain ⟨view, hby, -, hdone, -, hdoneBytes, -, -⟩ := hfound
      cases hview.symm.trans hby
      exact ⟨hthrough, hdone, hdoneBytes⟩
    · intro hboth'
      obtain ⟨-, hdone, hdoneBytes⟩ := hboth'
      exact ⟨_, hview, rfl, hdone, hitemsTotal, hdoneBytes, hbytesTotal, rfl⟩
  · refine ⟨?_, fun hboth => absurd hboth.1 hthrough⟩
    intro hfound
    obtain ⟨view, hby, -, -, -, -, -, hcompleted⟩ := hfound
    cases hview.symm.trans hby
    rw [completedAt_feed h hpublished hthrough] at hcompleted
    exact absurd hcompleted.symm (h.ended hover)

def emptyCentre : OperationCentreState where
  byId := fun _ => none
  failuresById := fun _ => none

/-- The events of one job alone, under increasing ids. -/
def arrivals (id : Nat) (published : List (Turn Event)) : List (Turn (EventEnvelope Payload)) :=
  published.zipIdx.map fun (turn, index) => turn.map fun event =>
    { eventId := index + 1, timestamp := 0, workspaceId := none, payload := payloadOf id event }

/-- A copy of two files. -/
def copyScript : List Scheduler.Action :=
  Scheduler.planScript (Scheduler.samplePlan 3 4) ++ itemScript .completed
    ++ itemScript .completed ++ Scheduler.finishScript

/-- A frame after every event. -/
def framed (events : List Event) : List (Turn Event) :=
  events.flatMap fun event => [.event event, .frame]

/-- One frame, after the last event. -/
def unframed (events : List Event) : List (Turn Event) := events.map Turn.event ++ [.frame]

/-- A copy whose progress is dispatched with a frame of its own. -/
theorem operation_view_converges_iff_framed :
    ∃ s, Machine.Run (Scheduler.apply false) Machine.Free
        (Scheduler.startOperation Scheduler.sampleRequest 0) copyScript s
      ∧ s.operation.state = .completed
      ∧ Converged (reduceOperationEvents emptyCentre
        (feed new (arrivals s.operation.id (framed s.events))).2) s.operation := by
  obtain ⟨s, hrun, hstate, hpublished, harrives, hparses, hflushed, hsettled⟩ :=
    Machine.Run.exists_of_run (show (Machine.run (Scheduler.apply false)
      (Scheduler.startOperation Scheduler.sampleRequest 0) copyScript).any (fun s => decide
        (s.operation.state = .completed ∧ Batch.events (framed s.events) = s.events
          ∧ ((arrivals s.operation.id (framed s.events)).filter
              (Turn.keeps (own s.operation.id))).map (Turn.map EventEnvelope.payload)
            = (framed s.events).map (Turn.map (payloadOf s.operation.id))
          ∧ (∀ event ∈ Batch.events (arrivals s.operation.id (framed s.events)),
            own s.operation.id event = true →
              parseBackendEvent kind event = some event)
          ∧ (feed new (arrivals s.operation.id (framed s.events))).1.queued.filter
            (own s.operation.id) = []
          ∧ (sinceFrame [] (beforeCompletion (framed s.events))).filter isProgress = []))
        = true from by decide +kernel)
  refine ⟨s, hrun, hstate, ?_⟩
  refine (operation_view_converges_iff hrun (by rw [hstate]; rfl) hpublished harrives hparses rfl
    hflushed emptyCentre).1.mpr ⟨by rw [hstate]; rfl, .inl hsettled⟩

/-- A copy of two files whose progress waits for a frame until the copy
has completed: the operation is shown as completed with no file done. -/
theorem late_progress_not_converged :
    ∃ s, Machine.Run (Scheduler.apply false) Machine.Free
        (Scheduler.startOperation Scheduler.sampleRequest 0) copyScript s
      ∧ s.operation.state = .completed
      ∧ (∀ event ∈ Batch.events (arrivals s.operation.id (unframed s.events)),
        parseBackendEvent kind event = some event)
      ∧ (feed new (arrivals s.operation.id (unframed s.events))).1.queued = []
      ∧ s.operation.progress.completedItems = 2
      ∧ ¬ Converged (reduceOperationEvents emptyCentre
        (feed new (arrivals s.operation.id (unframed s.events))).2) s.operation := by
  obtain ⟨s, hrun, hstate, hparses, hflushed, hitems, hshown⟩ :=
    Machine.Run.exists_of_run (show (Machine.run (Scheduler.apply false)
      (Scheduler.startOperation Scheduler.sampleRequest 0) copyScript).any (fun s => decide
        (s.operation.state = .completed
          ∧ (∀ event ∈ Batch.events (arrivals s.operation.id (unframed s.events)),
            parseBackendEvent kind event = some event)
          ∧ (feed new (arrivals s.operation.id (unframed s.events))).1.queued = []
          ∧ s.operation.progress.completedItems = 2
          ∧ ((reduceOperationEvents emptyCentre (feed new
            (arrivals s.operation.id (unframed s.events))).2).byId s.operation.id).map
              (fun view => view.progress.completedItems) = some 0)) = true from by decide +kernel)
  refine ⟨s, hrun, hstate, hparses, hflushed, hitems, ?_⟩
  intro hfound
  obtain ⟨view, hview, -, hcompleted, -⟩ := hfound
  rw [hview, Option.map_some, hcompleted, hitems] at hshown
  cases hshown

end FileManager.Frontend
