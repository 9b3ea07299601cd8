/-
What the events of a job say about its operation: the last state they
name is the stored one, every progress event has the totals of the plan,
a completion event carries the stored operation and is the last event
with anything new, and a job that is done has a completion time.
-/
import FileManager.Operations.Proofs.Progress

namespace FileManager.Scheduler

open Machine List
open Option (some_ne_none)

variable {req : Bool} {s s' : State} {op₀ operation : Operation} {a : Action}

-- ==== what events say

def Event.names (state : OperationState) : Event → OperationState
  | .operationCreated operation => operation.state
  | .operationStateChanged next => next
  | .operationCompleted operation => operation.state
  | .operationFailed _ _ => .failed
  | .operationProgress _ => state
  | .operationConflict _ => state

def lastState (state : OperationState) (events : List Event) : OperationState :=
  events.foldl Event.names state

def progressEvents (events : List Event) : List OperationProgress :=
  events.filterMap fun
    | .operationProgress progress => some progress
    | _ => none

def Event.isConflict : Event → Bool
  | .operationConflict _ => true
  | _ => false

def Event.isCompleted : Event → Bool
  | .operationCompleted _ => true
  | _ => false

def Event.isCreated : Event → Bool
  | .operationCreated _ => true
  | _ => false

@[simp] theorem progressEvents_append (first second : List Event) :
    progressEvents (first ++ second) = progressEvents first ++ progressEvents second :=
  filterMap_append ..

@[simp] theorem lastState_append (state : OperationState) (first second : List Event) :
    lastState state (first ++ second) = lastState (lastState state first) second :=
  foldl_append ..

-- ==== the invariant

/-- The events of a job that has completed end with its operation, and
then at most with conflicts. -/
def EndsWith (operation : Operation) (events : List Event) : Prop :=
  ∃ before after, events = before ++ .operationCompleted operation :: after
    ∧ (∀ event ∈ before, event.isCompleted = false)
    ∧ ∀ event ∈ after, event.isConflict = true

structure Reports (op₀ : Operation) (s : State) : Prop where
  created : ∃ rest, s.events = .operationCreated op₀ :: rest
    ∧ ∀ event ∈ rest, event.isCreated = false
  id : s.operation.id = op₀.id
  state : lastState op₀.state s.events = s.operation.state
  totals : ∀ progress ∈ progressEvents s.events,
    progress.totalItems = s.operation.progress.totalItems
      ∧ progress.totalBytes = s.operation.progress.totalBytes
  early : s.runner.unannounced ≠ none → progressEvents s.events = []
  ended : s.operation.state.isTerminal = true → s.operation.completedAt ≠ none
  completes : s.operation.state = .completed ∨ s.operation.state = .completedWithWarnings →
    EndsWith s.operation s.events
  others : s.operation.state ≠ .completed → s.operation.state ≠ .completedWithWarnings →
    ∀ event ∈ s.events, event.isCompleted = false

theorem Reports.start (request : Request) (now : Timestamp) :
    Reports (startOperation request now).operation (startOperation request now) := by
  refine ⟨⟨[], rfl, by simp⟩, rfl, rfl, ?_, fun _ => rfl, ?_, ?_, ?_⟩
  · intro progress hprogress
    cases hprogress
  · intro hterminal
    cases hterminal
  · intro hcompleted
    rcases hcompleted with h | h <;> cases h
  · intro _ _ event hevent
    rw [mem_singleton.mp hevent]
    rfl

theorem OperationState.not_completes_of_live {state : OperationState}
    (h : state.isTerminal = false) : state ≠ .completed ∧ state ≠ .completedWithWarnings := by
  constructor <;> rintro rfl <;> cases h

theorem Reports.quiet (h : Reports op₀ s) (hoperation : s'.operation = s.operation)
    (hevents : s'.events = s.events)
    (hearly : s'.runner.unannounced ≠ none → s.runner.unannounced ≠ none) : Reports op₀ s' := by
  obtain ⟨hcreated, hid, hstate, htotals, hearly₀, hended, hcompletes, hothers⟩ := h
  refine ⟨?_, ?_, ?_, ?_, ?_, ?_, ?_, ?_⟩
  · rwa [hevents]
  · rwa [hoperation]
  · rwa [hevents, hoperation]
  · rwa [hevents, hoperation]
  · rw [hevents]
    exact fun hr => hearly₀ (hearly hr)
  · rwa [hoperation]
  · rwa [hevents, hoperation]
  · rwa [hevents, hoperation]

theorem Reports.live (h : Reports op₀ s) (new : List Event)
    (hlive : s.operation.state.isTerminal = false) (hevents : s'.events = s.events ++ new)
    (hnew : ∀ event ∈ new, event.isCreated = false ∧ event.isCompleted = false)
    (hid : s'.operation.id = s.operation.id)
    (hstate : lastState s.operation.state new = s'.operation.state)
    (hprogress : ∀ progress ∈ progressEvents new,
      progress.totalItems = s'.operation.progress.totalItems
      ∧ progress.totalBytes = s'.operation.progress.totalBytes)
    (htotals : progressEvents s.events = [] ∨ s'.operation.progress.totalItems
      = s.operation.progress.totalItems ∧ s'.operation.progress.totalBytes
      = s.operation.progress.totalBytes)
    (hearly : s'.runner.unannounced ≠ none → s.runner.unannounced ≠ none ∧ progressEvents new = [])
    (hended : s'.operation.state.isTerminal = true → s'.operation.completedAt ≠ none)
    (hnot : s'.operation.state ≠ .completed ∧ s'.operation.state ≠ .completedWithWarnings) :
    Reports op₀ s' := by
  obtain ⟨hone, htwo⟩ := OperationState.not_completes_of_live hlive
  obtain ⟨rest, hrest, hcreated⟩ := h.created
  refine ⟨⟨rest ++ new, ?_, ?_⟩, hid.trans h.id, ?_, ?_, ?_, hended, ?_, ?_⟩
  · rw [hevents, hrest, cons_append]
  · intro event hevent
    rcases mem_append.mp hevent with hold | hfresh
    · exact hcreated event hold
    · exact (hnew event hfresh).1
  · rw [hevents, lastState_append, h.state, hstate]
  · intro progress hmem
    rw [hevents, progressEvents_append] at hmem
    rcases mem_append.mp hmem with hold | hfresh
    · rcases htotals with hnone | hsame
      · simp [hnone] at hold
      · rw [hsame.1, hsame.2]
        exact h.totals progress hold
    · exact hprogress progress hfresh
  · intro hr
    rw [hevents, progressEvents_append, h.early (hearly hr).1, (hearly hr).2]
    rfl
  · intro hcompleted
    rcases hcompleted with hc | hc
    · exact absurd hc hnot.1
    · exact absurd hc hnot.2
  · intro _ _ event hevent
    rw [hevents] at hevent
    rcases mem_append.mp hevent with hold | hfresh
    · exact h.others hone htwo event hold
    · exact (hnew event hfresh).2

theorem Reports.counts (h : Reports op₀ s) (hlive : s.operation.state.isTerminal = false)
    (hevents : s'.events = s.events) (hid : s'.operation.id = s.operation.id)
    (hstate : s'.operation.state = s.operation.state)
    (htotals : s'.operation.progress.totalItems = s.operation.progress.totalItems
      ∧ s'.operation.progress.totalBytes = s.operation.progress.totalBytes)
    (hrunner : s'.runner.unannounced = none) : Reports op₀ s' := by
  have hlive' : s'.operation.state.isTerminal = false := by rwa [hstate]
  refine h.live [] hlive (by rw [hevents, append_nil]) (by simp) hid hstate.symm
    (fun progress hmem => by cases hmem) (.inr htotals) (fun hne => absurd hrunner hne) ?_
    (OperationState.not_completes_of_live hlive')
  intro hterminal
  exact absurd (hlive'.symm.trans hterminal) Bool.false_ne_true

variable {next : OperationState}

theorem Reports.enters {new : List Event} (h : Reports op₀ s)
    (henters : Enters s.operation next operation)
    (hnot : next ≠ .completed ∧ next ≠ .completedWithWarnings)
    (hevents : s'.events = s.events ++ new)
    (hnew : ∀ event ∈ new, event.isCreated = false ∧ event.isCompleted = false)
    (hnext : lastState s.operation.state new = next) (hsilent : progressEvents new = [])
    (hoperation : s'.operation = operation)
    (hearly : s'.runner.unannounced ≠ none → s.runner.unannounced ≠ none) : Reports op₀ s' := by
  subst hoperation
  refine h.live new henters.not_terminal hevents hnew henters.id (hnext.trans henters.state.symm)
    ?_ (.inr ?_) (fun hr => ⟨hearly hr, hsilent⟩) ?_ ?_
  · rw [hsilent]
    intro progress hprogress
    cases hprogress
  · rw [henters.progress]
    exact ⟨rfl, rfl⟩
  · rw [henters.state]
    exact henters.ended
  · rw [henters.state]
    exact hnot

theorem Reports.changes (h : Reports op₀ s) (henters : Enters s.operation next operation)
    (hnot : next ≠ .completed ∧ next ≠ .completedWithWarnings)
    (hevents : s'.events = s.events ++ [.operationStateChanged next])
    (hoperation : s'.operation = operation)
    (hearly : s'.runner.unannounced ≠ none → s.runner.unannounced ≠ none) : Reports op₀ s' := by
  refine h.enters henters hnot hevents ?_ rfl rfl hoperation hearly
  intro event hevent
  rw [mem_singleton.mp hevent]
  exact ⟨rfl, rfl⟩

theorem Reports.complete (h : Reports op₀ s)
    (henters : Enters s.operation (terminalOf s.operation) operation)
    (hevents : s'.events = s.events ++ [.operationStateChanged (terminalOf s.operation),
      .operationCompleted operation])
    (hoperation : s'.operation = operation) (hrunner : s'.runner = .done) : Reports op₀ s' := by
  subst hoperation
  obtain ⟨hone, htwo⟩ := OperationState.not_completes_of_live henters.not_terminal
  obtain ⟨rest, hrest, hcreated⟩ := h.created
  have hterminal := terminalOf_isTerminal s.operation
  refine ⟨⟨_, by rw [hevents, hrest, cons_append], ?_⟩, henters.id.trans h.id, ?_, ?_, ?_,
    ?_, ?_, ?_⟩
  · intro event hevent
    rcases mem_append.mp hevent with hold | hfresh
    · exact hcreated event hold
    · rcases mem_cons.mp hfresh with rfl | hlast
      · rfl
      · rw [mem_singleton.mp hlast]
        rfl
  · rw [hevents, lastState_append]
    rfl
  · intro progress hmem
    rw [hevents, progressEvents_append] at hmem
    rw [henters.progress]
    rcases mem_append.mp hmem with hold | hfresh
    · exact h.totals progress hold
    · cases hfresh
  · intro hr
    rw [hrunner] at hr
    exact absurd rfl hr
  · intro _
    exact henters.ended hterminal
  · intro _
    refine ⟨s.events ++ [.operationStateChanged (terminalOf s.operation)], [], ?_, ?_, by simp⟩
    · rw [hevents, append_assoc]
      rfl
    · intro event hevent
      rcases mem_append.mp hevent with hold | hfresh
      · exact h.others hone htwo event hold
      · rw [mem_singleton.mp hfresh]
        rfl
  · intro hcompleted hwarned
    rw [henters.state] at hcompleted hwarned
    unfold terminalOf at hcompleted hwarned
    split at hcompleted
    case isTrue => exact absurd rfl hcompleted
    case isFalse hne =>
      rw [if_neg hne] at hwarned
      exact absurd rfl hwarned

theorem Reports.republish (h : Reports op₀ s) : Reports op₀ (republishPendingConflict s) := by
  unfold republishPendingConflict
  split
  case h_1 => exact h
  case h_2 pending _ =>
    obtain ⟨rest, hrest, hcreated⟩ := h.created
    refine ⟨⟨rest ++ [.operationConflict pending.conflict], ?_, ?_⟩, h.id, ?_, ?_, ?_, h.ended,
      ?_, ?_⟩
    · simp only [hrest, cons_append]
    · intro event hevent
      rcases mem_append.mp hevent with hold | hfresh
      · exact hcreated event hold
      · rw [mem_singleton.mp hfresh]
        rfl
    · rw [lastState_append, h.state]
      rfl
    · intro progress hmem
      rw [progressEvents_append] at hmem
      rcases mem_append.mp hmem with hold | hfresh
      · exact h.totals progress hold
      · cases hfresh
    · intro hr
      rw [progressEvents_append, h.early hr]
      rfl
    · intro hcompleted
      obtain ⟨before, after, hevents, hbefore, hafter⟩ := h.completes hcompleted
      refine ⟨before, after ++ [.operationConflict pending.conflict], ?_, hbefore, ?_⟩
      · simp only [hevents, append_assoc, cons_append]
      · intro event hevent
        rcases mem_append.mp hevent with hold | hfresh
        · exact hafter event hold
        · rw [mem_singleton.mp hfresh]
          rfl
    · intro hone htwo event hevent
      rcases mem_append.mp hevent with hold | hfresh
      · exact h.others hone htwo event hold
      · rw [mem_singleton.mp hfresh]
        rfl

theorem Moves.unannounced_ne {r r' : Runner} (h : Moves s a r r')
    (hr' : r'.unannounced ≠ none) : r.unannounced ≠ none := by
  obtain ⟨plan, hplan⟩ := Option.ne_none_iff_exists'.mp hr'
  rw [h.unannounced hplan]
  exact some_ne_none _

-- ==== the long steps

section Steps

variable (hlive : s.operation.state.isTerminal = false)

include hlive

theorem Reports.publishes {progress : OperationProgress} (h : Reports op₀ s)
    (hevents : s'.events = s.events ++ [.operationProgress progress])
    (hid : s'.operation.id = s.operation.id) (hstate : s'.operation.state = s.operation.state)
    (hprogress : progress = s'.operation.progress)
    (htotals : progressEvents s.events = [] ∨ s'.operation.progress.totalItems
      = s.operation.progress.totalItems ∧ s'.operation.progress.totalBytes
      = s.operation.progress.totalBytes)
    (hrunner : s'.runner.unannounced = none) : Reports op₀ s' := by
  have hlive' : s'.operation.state.isTerminal = false := by rwa [hstate]
  refine h.live _ hlive hevents (forall_mem_singleton.mpr ⟨rfl, rfl⟩) hid hstate.symm
    (forall_mem_singleton.mpr ?_) htotals (fun hne => absurd hrunner hne) ?_
    (OperationState.not_completes_of_live hlive')
  · rw [hprogress]
    exact ⟨rfl, rfl⟩
  · intro hterminal
    exact absurd (hlive'.symm.trans hterminal) Bool.false_ne_true

theorem Reports.announcePlan {plan : OperationPlan} {operation : Operation}
    (h : Reports op₀ s) (hr : s.runner = .announcePlan plan)
    (henters : Enters (announceTotals s plan).operation (announced req plan).1 operation) :
    Reports op₀ { s with
      operation := operation
      events := (announceTotals s plan).events ++ [.operationStateChanged (announced req plan).1]
      runner := (announced req plan).2 } := by
  have hnot : (announced req plan).1.isTerminal = false := announced_not_terminal req plan
  have hrunner : (announced req plan).2.unannounced = none := by
    unfold announced
    split <;> rfl
  refine h.live [.operationProgress (announceTotals s plan).operation.progress,
    .operationStateChanged (announced req plan).1] hlive ?_ ?_ henters.id henters.state.symm
    (forall_mem_singleton.mpr ?_) (.inl ?_) (fun hne => absurd hrunner hne) ?_ ?_
  · simp [announceTotals, publishProgress]
  · exact forall_mem_cons.mpr ⟨⟨rfl, rfl⟩, forall_mem_singleton.mpr ⟨rfl, rfl⟩⟩
  · rw [henters.progress]
    exact ⟨rfl, rfl⟩
  · refine h.early ?_
    rw [hr]
    exact some_ne_none _
  · intro hterminal
    rw [henters.state, hnot] at hterminal
    cases hterminal
  · rw [henters.state]
    exact OperationState.not_completes_of_live hnot

theorem Reports.settleCancelled (h : Reports op₀ s) (handler : Bool) :
    Reports op₀ (settleCancelled s handler) := by
  obtain ⟨before, operation, henters, hprogress, hid, heq⟩ := settleCancelled_enters s handler hlive
  rw [heq]
  refine h.live _ hlive rfl ?_ (henters.id.trans hid) ?_ ?_ (.inr ?_)
    (fun hne => absurd rfl hne) (fun _ => henters.ended rfl) ?_
  · split
    case isTrue => exact forall_mem_singleton.mpr ⟨rfl, rfl⟩
    case isFalse =>
      exact forall_mem_cons.mpr ⟨⟨rfl, rfl⟩, forall_mem_singleton.mpr ⟨rfl, rfl⟩⟩
  · rw [henters.state]
    split <;> rfl
  · intro progress hmem
    split at hmem <;> cases hmem
  · rw [henters.progress, hprogress]
    exact ⟨rfl, rfl⟩
  · rw [henters.state]
    exact ⟨nofun, nofun⟩

theorem Reports.failJob (h : Reports op₀ s) (error : SchedulerError) :
    Reports op₀ (failJob s error) := by
  obtain ⟨operation, henters, heq⟩ := failJob_eq s error hlive
  rw [heq]
  refine h.enters henters ⟨nofun, nofun⟩ (append_assoc ..) ?_ ?_ ?_ rfl
    (fun hne => absurd rfl hne)
  · intro event hevent
    rcases mem_append.mp hevent with hchange | hlast
    · split at hchange
      case isTrue => cases hchange
      case isFalse =>
        rw [mem_singleton.mp hchange]
        exact ⟨rfl, rfl⟩
    · rw [mem_singleton.mp hlast]
      exact ⟨rfl, rfl⟩
  · rw [lastState_append]
    rfl
  · rw [progressEvents_append]
    split <;> rfl

end Steps

theorem Reports.step (h : Reports op₀ s) (hlife : Lifecycle s)
    (hstep : Step req s a s') : Reports op₀ s' := by
  cases hstep with
  | move hmove => exact h.quiet rfl rfl hmove.unannounced_ne
  | planned plan hr =>
    refine h.quiet rfl rfl fun _ => ?_
    rw [hr]
    exact some_ne_none _
  | enterPlanning hr henters =>
    refine h.changes henters ⟨nofun, nofun⟩ rfl rfl fun _ => ?_
    rw [hr]
    exact some_ne_none _
  | announcePlan hr henters => exact h.announcePlan (hlife.alive hr) hr henters
  | announcePlanIllegal error hr _ =>
    refine h.publishes (hlife.alive hr) rfl rfl rfl rfl (.inl (h.early ?_)) rfl
    rw [hr]
    exact some_ne_none _
  | recordWarning hr =>
    exact h.counts (hlife.alive hr) rfl rfl rfl ⟨rfl, rfl⟩ rfl
  | recordItem emitted hr =>
    have hlive := hlife.alive hr
    cases emitted with
    | none => exact h.counts hlive rfl rfl rfl ⟨rfl, rfl⟩ rfl
    | some rate => exact h.publishes hlive rfl rfl rfl rfl (.inr ⟨rfl, rfl⟩) rfl
  | @announceConflict conflict after operation hr henters =>
    refine h.enters henters ⟨nofun, nofun⟩ rfl ?_ rfl rfl rfl ?_
    · exact forall_mem_cons.mpr ⟨⟨rfl, rfl⟩, forall_mem_singleton.mpr ⟨rfl, rfl⟩⟩
    · cases after <;> exact fun hne => absurd rfl hne
  | leaveWaiting hr henters =>
    exact h.changes henters ⟨nofun, nofun⟩ rfl rfl fun hne => absurd rfl hne
  | countRetry hr => exact h.counts (hlife.alive hr) rfl rfl rfl ⟨rfl, rfl⟩ rfl
  | complete hr henters => exact h.complete henters rfl rfl rfl
  | settleCancelled handler hr => exact h.settleCancelled (hlife.alive hr) handler
  | failJob error hr => exact h.failJob (hlife.alive hr) error
  | pause hcaller henters | resume hcaller henters | confirm hcaller henters =>
    exact h.changes henters ⟨nofun, nofun⟩ rfl rfl fun hne => hne
  | cancelTransition hcaller henters =>
    exact h.changes henters ⟨nofun, nofun⟩ rfl rfl fun hne => hne
  | republish hcaller => exact h.republish
  | storeConflict hr | takeDecision hr | callRetry hr _ =>
    exact h.quiet rfl rfl fun hne => absurd rfl hne
  | pauseToken _ | resumeToken _ | resolveConflict _ _ _ _ | cancel _ | cancelToken _
  | cancelIgnored _ _ | tick _ => exact h.quiet rfl rfl fun hne => hne

theorem reports_run {ok : State → Action → Prop} {request : Request} {now : Timestamp}
    {acts : List Action} (hrun : Run (apply req) ok (startOperation request now) acts s) :
    Reports (startOperation request now).operation s := by
  refine run_invariant (P := fun _ s => Reports _ s) hrun (Reports.start request now) ?_
  intro acts s s' a hlife _ hstep h
  exact h.step hlife hstep

end FileManager.Scheduler
