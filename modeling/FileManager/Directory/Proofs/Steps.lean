/-
What one step of a pane's tasks can do (`Tasks.lean`), said once: a step
of a call, of a watch or of a refresh, with what it reads and what it
leaves behind. Every invariant of the pane is proved by cases on it.
-/
import FileManager.Directory.Tasks
import FileManager.Directory.Proofs.Diff

namespace FileManager.Directory.Tasks

open Option

variable {lowercase : String → String} {w w' : World} {change : ProviderChange} {i : Nat}

-- ==== the two critical ends

theorem registerPane_cases (pane : Option PaneRequest) (token : Nat)
    (request : ListDirectoryRequest) :
    (∃ previous snapshot, pane = some previous ∧ previous.snapshot = some snapshot
      ∧ snapshot.location = request.location ∧ previous.view = request.view
      ∧ registerPane pane token request = { previous with requestId := request.requestId })
    ∨ (registerPane pane token request = {
        requestId := request.requestId
        watchToken := token
        revision := match pane with
          | some previous => previous.revision
          | none => 0
        view := request.view
        snapshot := none
        fullEntries := none }) := by
  unfold registerPane
  cases hcontinues : continuesListing pane request with
  | none => exact .inr rfl
  | some previous =>
    left
    unfold continuesListing at hcontinues
    split at hcontinues
    case h_2 => cases hcontinues
    case h_1 state _ _ =>
      split at hcontinues
      case h_2 => cases hcontinues
      case h_1 snapshot hsnapshot =>
        split at hcontinues
        case isFalse => cases hcontinues
        case isTrue hsame =>
          cases hcontinues
          exact ⟨previous, snapshot, rfl, hsnapshot, hsame.1, hsame.2, rfl⟩

/-- What `publish_changes` leaves on the pane. -/
structure Stores (pane : PaneRequest) (location : Location) (entries : List EntrySummary)
    (stored : PaneRequest) (deltas : List DirectoryDelta) : Prop where
  requestId : stored.requestId = pane.requestId
  view : stored.view = pane.view
  full : stored.fullEntries = some entries
  snapshot : ∃ previous snapshot, pane.snapshot = some previous
    ∧ stored.snapshot = some snapshot ∧ previous.location = location
    ∧ snapshot.location = location ∧ snapshot.requestId = previous.requestId
    ∧ snapshot.revision = stored.revision
  revision : stored.revision = finalRevision (pane.revision + 1) deltas
  kind : (∃ snapshot : DirectorySnapshot,
      deltas = [.reset snapshot] ∧ snapshot.revision = pane.revision + 1)
    ∨ ∃ previous, deltas = diffEntries previous entries (pane.revision + 1)

theorem storeChanges_eq_some {pane stored : PaneRequest} {location : Location} {view : ViewOptions}
    {enumerated : List EntrySummary} {deltas : List DirectoryDelta}
    (h : storeChanges lowercase pane location view change enumerated = some (stored, deltas)) :
    Stores pane location (arrange lowercase view enumerated) stored deltas := by
  unfold storeChanges at h
  split at h
  case h_1 => cases h
  case h_2 previous hprevious =>
    split at h
    case isFalse => cases h
    case isTrue hlocation =>
      obtain ⟨rfl, rfl⟩ := Prod.mk.inj (some.inj h)
      refine ⟨rfl, rfl, rfl, ⟨previous, _, hprevious, rfl, hlocation, hlocation, rfl, rfl⟩, rfl, ?_⟩
      cases change with
      | resetRequired => exact .inl ⟨_, rfl, rfl⟩
      | changed => exact .inr ⟨_, rfl⟩

-- ==== the steps

/-- A call that has registered and not yet stored or failed. -/
def Call.waiting (call : Call) : Bool :=
  match call.phase with
  | .enumerating _ | .committing _ _ => true
  | _ => false

/-- A step of a watch or a refresh. -/
def Action.isTask : Action → Bool
  | .receive .. | .stop .. | .listed .. | .store .. | .publish .. => true
  | _ => false

inductive Step (lowercase : String → String) (w : World) : Action → World → Prop
  | request (request : ListDirectoryRequest) : Step lowercase w (.request request)
      { w with
        pane := some (registerPane w.pane w.tokens request)
        calls := w.calls ++ [{
          request := request
          phase := .enumerating (registerPane w.pane w.tokens request).fullEntries }]
        tokens := w.tokens + 1 }
  | failed {i : Nat} {call : Call} {cached : Option (List EntrySummary)} (error : ApplicationError)
      (result : Except VfsError Enumeration) (more : List Enumeration) :
      w.calls[i]? = some call → call.phase = .enumerating cached →
      Step lowercase w (.enumerate i result) { w with
        calls := w.calls.set i { call with phase := .returned (.error error) }
        enumerations := w.enumerations ++ more }
  | enumerated {i : Nat} {call : Call} {cached : Option (List EntrySummary)}
      (enumeration : Enumeration) (offset : Nat) :
      w.calls[i]? = some call → call.phase = .enumerating cached →
      enumeration.location = call.request.location → cached = none →
      Step lowercase w (.enumerate i (.ok enumeration)) { w with
        calls := w.calls.set i { call with
          phase := .committing (enumeration.listing lowercase call.request.view) offset }
        enumerations := w.enumerations ++ [enumeration] }
  | reused {i : Nat} {call : Call} {full : List EntrySummary} (offset : Nat)
      (result : Except VfsError Enumeration) :
      w.calls[i]? = some call → call.phase = .enumerating (some full) →
      Step lowercase w (.enumerate i result) { w with
        calls := w.calls.set i { call with phase := .committing full offset } }
  | superseded {i : Nat} {call : Call} {full : List EntrySummary} {offset : Nat}
      (writable tracking : Bool) :
      w.calls[i]? = some call → call.phase = .committing full offset →
      (∀ pane, w.pane = some pane → pane.requestId ≠ call.request.requestId) →
      Step lowercase w (.commit i writable tracking) { w with
        calls := w.calls.set i { call with phase := .returned (.error .operationCancelled) } }
  | committed {i : Nat} {call : Call} {full : List EntrySummary} {offset : Nat}
      {pane : PaneRequest} {snapshot : DirectorySnapshot} {phase : CallPhase}
      (writable tracking : Bool) :
      w.calls[i]? = some call → call.phase = .committing full offset →
      snapshot = pageSnapshot call.request full offset (pane.revision + 1) writable →
      w.pane = some pane → pane.requestId = call.request.requestId →
      (phase = .acquiring snapshot pane.watchToken ∨ phase = .returned (.ok snapshot)) →
      Step lowercase w (.commit i writable tracking) { w with
        pane := some { pane with
          revision := pane.revision + 1, fullEntries := some full, snapshot := some snapshot }
        calls := w.calls.set i { call with phase := phase }
        commits := w.commits
          ++ [{ call := i, registered := w.calls.length, revision := pane.revision + 1 }] }
  | unwatched {i : Nat} {call : Call} {snapshot : DirectorySnapshot} {token : Nat}
      (error : VfsError) :
      w.calls[i]? = some call → call.phase = .acquiring snapshot token →
      Step lowercase w (.acquire i (.error error)) { w with
        calls := w.calls.set i { call with phase := .returned (.error (.vfs error)) } }
  | acquired {i : Nat} {call : Call} {snapshot : DirectorySnapshot} {token : Nat} :
      w.calls[i]? = some call → call.phase = .acquiring snapshot token →
      Step lowercase w (.acquire i (.ok ())) { w with
        calls := w.calls.set i { call with phase := .returned (.ok snapshot) }
        tasks := w.tasks ++ [{ location := snapshot.location, view := call.request.view
                               token := some token, phase := .idle }] }
  | refresh {pane : PaneRequest} {snapshot : DirectorySnapshot} :
      w.pane = some pane → pane.snapshot = some snapshot →
      Step lowercase w .refresh { w with tasks := w.tasks ++ [{
        location := snapshot.location, view := pane.view, token := none
        phase := .listing .resetRequired }] }
  | quiet {a : Action} {t : Nat} {task : Task} {phase : TaskPhase} :
      a.isTask = true → w.tasks[t]? = some task → task.pending = [] →
      (phase = .idle ∨ phase = .stopped ∨ phase = .publishing []
        ∨ ∃ change, phase = .listing change) →
      Step lowercase w a (w.setTask t task phase)
  | listed {t : Nat} {task : Task} {change : ProviderChange} (enumeration : Enumeration) :
      w.tasks[t]? = some task → task.phase = .listing change →
      enumeration.location = task.location →
      Step lowercase w (.listed t (.ok enumeration)) { w with
        tasks := w.tasks.set t { task with phase := .storing change enumeration }
        enumerations := w.enumerations ++ [enumeration] }
  | stored {t : Nat} {task : Task} {change : ProviderChange} {enumeration : Enumeration}
      {pane stored : PaneRequest} {deltas : List DirectoryDelta} :
      w.tasks[t]? = some task → task.phase = .storing change enumeration →
      w.pane = some pane →
      storeChanges lowercase pane task.location task.view change
        (annotateGitStatus enumeration task.view.showGitStatus) = some (stored, deltas) →
      Step lowercase w (.store t) { w with
        pane := some stored
        tasks := w.tasks.set t { task with phase := .publishing deltas }
        stores := w.stores ++ [{ deltas := deltas, revision := stored.revision }] }
  | published {t : Nat} {task : Task} {delta : DirectoryDelta} {rest : List DirectoryDelta} :
      w.tasks[t]? = some task → task.phase = .publishing (delta :: rest) →
      Step lowercase w (.publish t) { w with
        tasks := w.tasks.set t { task with phase := .publishing rest }
        bus := w.bus ++ [delta] }

theorem prepare_cases (call : ListCall) (entries : List EntrySummary) :
    (∃ error, prepare lowercase call (.ok entries) = .error error)
      ∨ ∃ offset, prepare lowercase call (.ok entries)
        = .ok (call.listing lowercase entries, offset) := by
  unfold prepare
  cases decodePageOffset call.request.continuationToken with
  | error error => exact .inl ⟨error, rfl⟩
  | ok offset =>
    by_cases hrange : offset > (call.listing lowercase entries).length
    · exact .inl ⟨_, if_pos hrange⟩
    · exact .inr ⟨offset, if_neg hrange⟩

theorem enumerate_step {call : Call} {cached : Option (List EntrySummary)}
    {result : Except VfsError Enumeration} (hcall : w.calls[i]? = some call)
    (hphase : call.phase = .enumerating cached) (hof : isOf call.request.location result = true) :
    Step lowercase w (.enumerate i result) (enumerate lowercase w i call cached result) := by
  have hfailed : ∀ error, Step lowercase w (.enumerate i result) { w with
      calls := w.calls.set i { call with phase := .returned (.error error) } } := by
    intro error
    have hstep := @Step.failed lowercase w i call cached error result [] hcall hphase
    rwa [List.append_nil] at hstep
  unfold enumerate
  cases result with
  | error error => cases cached <;> exact hfailed (.vfs error)
  | ok enumeration =>
    simp only [Except.map]
    cases cached with
    | none =>
      rcases @prepare_cases lowercase { request := call.request, cached := none, answered := false }
          (annotateGitStatus enumeration call.request.view.showGitStatus) with
        ⟨error, hprepare⟩ | ⟨offset, hprepare⟩
      · rw [hprepare]
        exact .failed error _ [enumeration] hcall hphase
      · rw [hprepare]
        exact .enumerated enumeration offset hcall hphase (by simpa [isOf] using hof) rfl
    | some full =>
      rcases @prepare_cases lowercase
          { request := call.request, cached := some full, answered := false }
          (annotateGitStatus enumeration call.request.view.showGitStatus) with
        ⟨error, hprepare⟩ | ⟨offset, hprepare⟩
      · rw [hprepare]
        exact hfailed error
      · rw [hprepare]
        exact .reused offset _ hcall hphase

theorem commit_step {call : Call} {full : List EntrySummary} {offset : Nat}
    (writable tracking : Bool) (hcall : w.calls[i]? = some call)
    (hphase : call.phase = .committing full offset) :
    Step lowercase w (.commit i writable tracking)
      (commit w i call full offset writable tracking) := by
  unfold commit
  split
  case h_1 hpane =>
    refine .superseded writable tracking hcall hphase fun pane h => ?_
    simp [hpane] at h
  case h_2 pane hpane =>
    split
    case isTrue hid =>
      refine .committed writable tracking hcall hphase rfl hpane hid ?_
      split
      case isTrue => exact .inl rfl
      case isFalse => exact .inr rfl
    case isFalse hid =>
      refine .superseded writable tracking hcall hphase fun other h => ?_
      rw [hpane] at h
      cases h
      exact hid

theorem store_step {t : Nat} {task : Task} {enumeration : Enumeration}
    (htask : w.tasks[t]? = some task) (hphase : task.phase = .storing change enumeration) :
    Step lowercase w (.store t) (store lowercase w t task change enumeration) := by
  have hquiet : Step lowercase w (.store t) (w.setTask t task (.publishing [])) :=
    .quiet rfl htask (by rw [Task.pending, hphase]) (.inr (.inr (.inl rfl)))
  simp only [store]
  split
  case h_1 => exact hquiet
  case h_2 pane hpane =>
    split
    case h_1 => exact hquiet
    case h_2 stored deltas hstore => exact .stored htask hphase hpane hstore

theorem Task.rest_cases (task : Task) : task.rest = .idle ∨ task.rest = .stopped := by
  unfold Task.rest
  cases task.token with
  | none => exact .inr rfl
  | some token => exact .inl rfl

theorem step_of_apply {a : Action} (h : apply lowercase a w = some w') : Step lowercase w a w' := by
  cases a with
  | request request => exact some.inj h ▸ Step.request request
  | refresh =>
    simp only [apply, refresh] at h
    split at h
    case h_1 => cases h
    case h_2 pane hpane =>
      split at h
      case h_1 => cases h
      case h_2 snapshot hsnapshot => exact some.inj h ▸ Step.refresh hpane hsnapshot
  | enumerate i result =>
    simp only [apply] at h
    split at h
    case h_1 => cases h
    case h_2 call hcall =>
      split at h
      case h_2 => cases h
      case h_1 cached hphase =>
        split at h
        case isFalse => cases h
        case isTrue hof => exact some.inj h ▸ enumerate_step hcall hphase hof
  | commit i writable tracking =>
    simp only [apply] at h
    split at h
    case h_1 => cases h
    case h_2 call hcall =>
      split at h
      case h_2 => cases h
      case h_1 full offset hphase =>
        exact some.inj h ▸ commit_step writable tracking hcall hphase
  | acquire i result =>
    simp only [apply] at h
    split at h
    case h_1 => cases h
    case h_2 call hcall =>
      split at h
      case h_2 => cases h
      case h_1 snapshot token hphase =>
        cases some.inj h
        cases result with
        | error error => exact .unwatched error hcall hphase
        | ok _ => exact .acquired hcall hphase
  | receive t change =>
    simp only [apply] at h
    split at h
    case h_1 => cases h
    case h_2 task htask =>
      split at h
      case h_2 => cases h
      case h_1 token _ hphase =>
        cases some.inj h
        refine .quiet rfl htask ?_ (.inr (.inr (.inr ⟨change, rfl⟩)))
        rw [Task.pending, hphase]
  | stop t =>
    simp only [apply] at h
    split at h
    case h_1 => cases h
    case h_2 task htask =>
      split at h
      case h_2 => cases h
      case h_1 hphase =>
        cases some.inj h
        refine .quiet rfl htask ?_ (.inr (.inl rfl))
        rw [Task.pending, hphase]
  | listed t result =>
    simp only [apply] at h
    split at h
    case h_1 => cases h
    case h_2 task htask =>
      split at h
      case h_2 => cases h
      case h_1 change hphase =>
        split at h
        case isFalse => cases h
        case isTrue hof =>
          cases some.inj h
          cases result with
          | ok enumeration =>
            exact .listed enumeration htask hphase (by simpa [isOf] using hof)
          | error error =>
            refine .quiet rfl htask (by rw [Task.pending, hphase]) ?_
            split
            case isTrue => exact .inr (.inl rfl)
            case isFalse => exact task.rest_cases.imp_right .inl
  | store t =>
    simp only [apply] at h
    split at h
    case h_1 => cases h
    case h_2 task htask =>
      split at h
      case h_2 => cases h
      case h_1 change enumeration hphase =>
        exact some.inj h ▸ store_step htask hphase
  | publish t =>
    simp only [apply] at h
    split at h
    case h_1 => cases h
    case h_2 task htask =>
      split at h
      case h_3 => cases h
      case h_1 hphase =>
        cases some.inj h
        refine .quiet rfl htask (by rw [Task.pending, hphase]) ?_
        exact task.rest_cases.imp_right .inl
      case h_2 delta rest hphase =>
        cases some.inj h
        exact .published htask hphase

end FileManager.Directory.Tasks
