/-
A pane's listing is the one its options ask for: what is stored as its
full listing is an enumeration of its location, annotated, filtered and
sorted as the pane's current request says, as long as every watch or
refresh that stores a listing was started with the same options. A task
keeps the options it was started with and only its location is compared,
so one that a later request has superseded stores a listing of its own.
-/
import FileManager.Directory.Proofs.Replay
import FileManager.Directory.Proofs.Steps

namespace FileManager.Directory.Tasks

open Machine List Call

variable {lowercase : String → String} {w w' : World} {full : List EntrySummary} {phase : CallPhase}
  {enumerations : List Enumeration} {i t : Nat} {pane : PaneRequest}

-- ==== the condition

/-- A request does not share its id with a call under way that has other
options, and a listing that is stored is stored with the pane's
options. -/
def Fitting (w : World) : Action → Prop
  | .request request => ∀ call ∈ w.calls, call.waiting = true →
      call.request.requestId = request.requestId → call.request.view = request.view
  | .store t => ∀ task ∈ w.tasks[t]?, ∀ pane ∈ w.pane, ∀ snapshot ∈ pane.snapshot,
      snapshot.location = task.location → task.view = pane.view
  | _ => True

instance (w : World) (a : Action) : Decidable (Fitting w a) :=
  match a with
  | .request .. => inferInstanceAs (Decidable (∀ _ ∈ _, _ → _ → _))
  | .store .. => inferInstanceAs (Decidable (∀ _ ∈ _, ∀ _ ∈ _, ∀ _ ∈ _, _ → _))
  | .enumerate .. | .commit .. | .acquire .. | .refresh | .receive .. | .stop .. | .listed ..
  | .publish .. => .isTrue trivial

-- ==== the invariant

/-- A listing that an enumeration of the location gives under the
options. -/
def Arranged (lowercase : String → String) (w : World) (location : Location)
    (view : ViewOptions) (full : List EntrySummary) : Prop :=
  ∃ enumeration ∈ w.enumerations,
    enumeration.location = location ∧ full = enumeration.listing lowercase view

theorem Arranged.mono {location : Location} {view : ViewOptions}
    (h : Arranged lowercase w location view full) (hsub : w.enumerations ⊆ w'.enumerations) :
    Arranged lowercase w' location view full := by
  obtain ⟨enumeration, hmem, hlocation, hfull⟩ := h
  exact ⟨enumeration, hsub hmem, hlocation, hfull⟩

/-- A call has the listing at hand. -/
def Call.Holds (call : Call) (full : List EntrySummary) : Prop :=
  call.phase = .enumerating (some full) ∨ ∃ offset, call.phase = .committing full offset

/-- What the pane shows is as its request asks for. -/
def Shown (lowercase : String → String) (w : World) : Prop :=
  ∀ pane snapshot, w.pane = some pane → pane.snapshot = some snapshot →
    ∃ full, pane.fullEntries = some full ∧ Arranged lowercase w snapshot.location pane.view full

structure Fits (lowercase : String → String) (w : World) : Prop where
  shown : Shown lowercase w
  cached : ∀ call ∈ w.calls, ∀ full, call.Holds full →
    Arranged lowercase w call.request.location call.request.view full
  newest : ∀ pane, w.pane = some pane → ∀ call ∈ w.calls, call.waiting = true →
    pane.requestId = call.request.requestId → pane.view = call.request.view
  storing : ∀ task ∈ w.tasks, ∀ change enumeration, task.phase = .storing change enumeration →
    enumeration ∈ w.enumerations ∧ enumeration.location = task.location

theorem Fits.initial : Fits lowercase World.initial where
  shown := by
    intro pane snapshot hpane
    cases hpane
  cached := by
    intro call hcall
    cases hcall
  newest := by
    intro pane hpane
    cases hpane
  storing := by
    intro task htask
    cases htask

theorem Fits.goes_on (h : Fits lowercase w) (hpane : w'.pane = w.pane)
    (hsub : w.enumerations ⊆ w'.enumerations) (hcalls : ∀ call ∈ w'.calls, call ∈ w.calls
      ∨ (∃ old ∈ w.calls, call.request = old.request ∧ (call.waiting = true → old.waiting = true))
        ∧ ∀ full, call.Holds full →
          Arranged lowercase w' call.request.location call.request.view full)
    (htasks : ∀ task ∈ w'.tasks, task ∈ w.tasks
      ∨ ∀ change enumeration, task.phase = .storing change enumeration →
        enumeration ∈ w'.enumerations ∧ enumeration.location = task.location) :
    Fits lowercase w' := by
  refine ⟨?_, ?_, ?_, ?_⟩
  · intro pane snapshot hp hs
    rw [hpane] at hp
    obtain ⟨full, hfull, harranged⟩ := h.shown pane snapshot hp hs
    exact ⟨full, hfull, harranged.mono hsub⟩
  · intro call hcall full hholds
    rcases hcalls call hcall with hold | ⟨-, harranged⟩
    · exact (h.cached call hold full hholds).mono hsub
    · exact harranged full hholds
  · intro pane hp call hcall hwaiting hid
    rw [hpane] at hp
    rcases hcalls call hcall with hold | ⟨⟨old, hold, hrequest, hwas⟩, -⟩
    · exact h.newest pane hp call hold hwaiting hid
    · rw [hrequest] at hid ⊢
      exact h.newest pane hp old hold (hwas hwaiting) hid
  · intro task htask change enumeration hphase
    rcases htasks task htask with hold | hnew
    · obtain ⟨hmem, hlocation⟩ := h.storing task hold change enumeration hphase
      exact ⟨hsub hmem, hlocation⟩
    · exact hnew change enumeration hphase

theorem Fits.call (h : Fits lowercase w) {call : Call}
    (hcall : w.calls[i]? = some call)
    (hwaiting : call.waiting = true) (hsub : w.enumerations ⊆ enumerations)
    (hholds : ∀ full, Holds { call with phase := phase } full →
      Arranged lowercase { w with enumerations := enumerations }
        call.request.location call.request.view full) :
    Fits lowercase { w with
      calls := w.calls.set i { call with phase := phase }
      enumerations := enumerations } := by
  refine h.goes_on rfl hsub ?_ (fun task htask => .inl htask)
  intro other hother
  rcases mem_or_eq_of_mem_set hother with hold | rfl
  · exact .inl hold
  · exact .inr ⟨⟨call, mem_of_getElem? hcall, rfl, fun _ => hwaiting⟩, hholds⟩

theorem Fits.ends (h : Fits lowercase w) {call : Call}
    {tasks : List Task} (hcall : w.calls[i]? = some call)
    (hphase : ∀ full, ¬ Holds { call with phase := phase } full)
    (hwaiting : waiting { call with phase := phase } = false)
    (htasks : ∀ task ∈ tasks, task ∈ w.tasks ∨ ∀ change enumeration,
      task.phase ≠ .storing change enumeration) :
    Fits lowercase { w with
      calls := w.calls.set i { call with phase := phase }
      tasks := tasks } := by
  refine h.goes_on rfl (fun _ hmem => hmem) ?_ ?_
  · intro other hother
    rcases mem_or_eq_of_mem_set hother with hold | rfl
    · exact .inl hold
    · refine .inr ⟨⟨call, mem_of_getElem? hcall, rfl, ?_⟩, fun full hholds => ?_⟩
      · intro hnot
        simp [hwaiting] at hnot
      · exact absurd hholds (hphase full)
  · intro task htask
    refine (htasks task htask).imp_right fun hnot change enumeration hphase => ?_
    exact absurd hphase (hnot change enumeration)

theorem Fits.task (h : Fits lowercase w) {task : Task} {phase : TaskPhase}
    {bus : List DirectoryDelta}
    (hsub : w.enumerations ⊆ enumerations)
    (hphase : ∀ change enumeration, phase = .storing change enumeration →
      enumeration ∈ enumerations ∧ enumeration.location = task.location) :
    Fits lowercase { w with
      tasks := w.tasks.set t { task with phase := phase }
      bus := bus
      enumerations := enumerations } := by
  refine h.goes_on rfl hsub (fun call hcall => .inl hcall) ?_
  intro other hother
  rcases mem_or_eq_of_mem_set hother with hold | rfl
  · exact .inl hold
  · exact .inr hphase

theorem Fits.register (h : Fits lowercase w) {request : ListDirectoryRequest} {tokens : Nat}
    (hfresh : ∀ call ∈ w.calls, call.waiting = true →
      call.request.requestId = request.requestId → call.request.view = request.view) :
    let pane := registerPane w.pane w.tokens request
    Fits lowercase { w with
      pane := some pane
      calls := w.calls ++ [{ request := request, phase := .enumerating pane.fullEntries }]
      tokens := tokens } := by
  intro registered
  have hview : registered.view = request.view := by
    rcases registerPane_cases w.pane w.tokens request with
      ⟨previous, snapshot, -, -, -, hsame, heq⟩ | heq
    · simp only [registered, heq, hsame]
    · simp only [registered, heq]
  have hshown : ∀ full, registered.fullEntries = some full →
      Arranged lowercase w request.location request.view full := by
    intro full hfull
    rcases registerPane_cases w.pane w.tokens request with
      ⟨previous, snapshot, hprevious, hsnapshot, hlocation, hsame, heq⟩ | heq
    · obtain ⟨full', hfull', harranged⟩ := h.shown previous snapshot hprevious hsnapshot
      simp only [registered, heq] at hfull
      rw [hfull] at hfull'
      cases hfull'
      rwa [hlocation, hsame] at harranged
    · simp only [registered, heq] at hfull
      cases hfull
  refine ⟨?_, ?_, ?_, h.storing⟩
  · intro pane snapshot hpane hsnapshot
    cases hpane
    rcases registerPane_cases w.pane w.tokens request with
      ⟨previous, old, hprevious, hold, hlocation, hsame, heq⟩ | heq
    · obtain ⟨full, hfull, harranged⟩ := h.shown previous old hprevious hold
      simp only [registered, heq] at hsnapshot ⊢
      rw [hold] at hsnapshot
      cases hsnapshot
      exact ⟨full, hfull, harranged⟩
    · simp only [registered, heq] at hsnapshot
      cases hsnapshot
  · intro call hcall full hholds
    rcases mem_append.mp hcall with hold | hnew
    · exact h.cached call hold full hholds
    · cases mem_singleton.mp hnew
      rcases hholds with hcached | ⟨offset, hphase⟩
      · exact hshown full (CallPhase.enumerating.inj hcached)
      · cases hphase
  · intro pane hpane call hcall hwaiting hid
    cases hpane
    rw [hview]
    rcases mem_append.mp hcall with hold | hnew
    · refine (hfresh call hold hwaiting ?_).symm
      rw [← hid]
      rcases registerPane_cases w.pane w.tokens request with
        ⟨previous, old, -, -, -, -, heq⟩ | heq
      · simp only [registered, heq]
      · simp only [registered, heq]
    · rw [mem_singleton.mp hnew]

theorem Call.waiting_of_phase {call : Call} (h : (∃ cached, call.phase = .enumerating cached)
    ∨ ∃ full offset, call.phase = .committing full offset) : call.waiting = true := by
  unfold waiting
  rcases h with ⟨cached, h⟩ | ⟨full, offset, h⟩ <;> rw [h]

theorem Fits.commit (h : Fits lowercase w) {call : Call} {offset : Nat}
    {snapshot : DirectorySnapshot} {commits : List Commit}
    (hcall : w.calls[i]? = some call) (hphase : call.phase = .committing full offset)
    (hpane : w.pane = some pane) (hid : pane.requestId = call.request.requestId)
    (hlocation : snapshot.location = call.request.location)
    (hended : ∀ other, ¬ Holds { call with phase := phase } other)
    (hwaiting : waiting { call with phase := phase } = false) :
    Fits lowercase { w with
      pane := some { pane with
        revision := pane.revision + 1, fullEntries := some full, snapshot := some snapshot }
      calls := w.calls.set i { call with phase := phase }
      commits := commits } := by
  have hmem := mem_of_getElem? hcall
  have hview := h.newest pane hpane call hmem
    (waiting_of_phase (.inr ⟨full, offset, hphase⟩)) hid
  have hends : Fits lowercase { w with calls := w.calls.set i { call with phase := phase } } :=
    h.ends hcall hended hwaiting fun task htask => .inl htask
  refine ⟨?_, hends.cached, ?_, h.storing⟩
  · intro stored shown hstored hshown
    cases hstored
    cases hshown
    refine ⟨full, rfl, ?_⟩
    rw [hlocation]
    exact hview ▸ h.cached call hmem full (.inr ⟨offset, hphase⟩)
  · intro stored hstored
    cases hstored
    exact hends.newest pane hpane

theorem Fits.store (h : Fits lowercase w) {task : Task} {change : ProviderChange}
    {enumeration : Enumeration} {stored : PaneRequest} {deltas : List DirectoryDelta}
    {stores : List Store} (htask : w.tasks[t]? = some task)
    (hphase : task.phase = .storing change enumeration) (hpane : w.pane = some pane)
    (hstores : Stores pane task.location (enumeration.listing lowercase task.view) stored deltas)
    (hfits : task.view = pane.view) :
    Fits lowercase { w with
      pane := some stored
      tasks := w.tasks.set t { task with phase := .publishing deltas }
      stores := stores } := by
  obtain ⟨hmem, hlocation⟩ := h.storing task (mem_of_getElem? htask) change enumeration hphase
  have hgoes : Fits lowercase { w with
      tasks := w.tasks.set t { task with phase := .publishing deltas } } :=
    h.task (fun _ hmem => hmem) fun change enumeration hnot => by cases hnot
  refine ⟨?_, h.cached, ?_, hgoes.storing⟩
  · intro shown snapshot hshown hsnapshot
    cases hshown
    obtain ⟨previous, snapshot', -, hstored, -, hplace, -, -⟩ := hstores.snapshot
    rw [hstored] at hsnapshot
    cases hsnapshot
    refine ⟨_, hstores.full, enumeration, hmem, hlocation.trans hplace.symm, ?_⟩
    rw [hstores.view, ← hfits]
  · intro shown hshown call hcall hwaiting hid
    cases hshown
    rw [hstores.view]
    exact h.newest pane hpane call hcall hwaiting (hstores.requestId ▸ hid)

theorem Fits.step {a : Action} (h : Fits lowercase w) (hok : Fitting w a)
    (hstep : Step lowercase w a w') : Fits lowercase w' := by
  cases hstep with
  | request request => exact h.register hok
  | failed error result more hcall hphase =>
    refine h.call hcall (waiting_of_phase (.inl ⟨_, hphase⟩)) (subset_append_left ..) ?_
    rintro full (hnot | ⟨offset, hnot⟩) <;> cases hnot
  | enumerated enumeration offset hcall hphase hlocation hcached =>
    refine h.call hcall (waiting_of_phase (.inl ⟨_, hphase⟩)) (subset_append_left ..) ?_
    intro full hcase
    rcases hcase with hnot | ⟨offset', hfull⟩
    · cases hnot
    · cases hfull
      exact ⟨enumeration, by simp, hlocation, rfl⟩
  | reused offset result hcall hphase =>
    refine h.call hcall (waiting_of_phase (.inl ⟨_, hphase⟩)) (fun _ hmem => hmem) ?_
    intro full hcase
    rcases hcase with hnot | ⟨offset', hfull⟩
    · cases hnot
    · cases hfull
      exact h.cached _ (mem_of_getElem? hcall) _ (.inl hphase)
  | superseded writable tracking hcall hphase hnewer | unwatched error hcall hphase =>
    refine h.ends hcall ?_ rfl fun task htask => .inl htask
    rintro full (hnot | ⟨offset, hnot⟩) <;> cases hnot
  | committed writable tracking hcall hphase hsnapshot hpane hid hended =>
    refine h.commit hcall hphase hpane hid (by rw [hsnapshot]; rfl) ?_ ?_
    · rintro full (hnot | ⟨offset, hnot⟩) <;> rcases hended with rfl | rfl <;> cases hnot
    · rcases hended with rfl | rfl <;> rfl
  | acquired hcall hphase =>
    refine h.ends hcall ?_ rfl ?_
    · rintro full (hnot | ⟨offset, hnot⟩) <;> cases hnot
    · intro task htask
      refine (mem_append.mp htask).imp_right fun hnew change enumeration hphase => ?_
      rw [mem_singleton.mp hnew] at hphase
      cases hphase
  | refresh hpane hsnapshot =>
    refine h.goes_on rfl (fun _ hmem => hmem) (fun call hcall => .inl hcall) ?_
    intro task htask
    refine (mem_append.mp htask).imp_right fun hnew change enumeration hphase => ?_
    rw [mem_singleton.mp hnew] at hphase
    cases hphase
  | quiet htasks htask hpending hphase =>
    refine h.task (fun _ hmem => hmem) ?_
    intro change enumeration hnot
    rcases hphase with rfl | rfl | rfl | ⟨other, rfl⟩ <;> cases hnot
  | listed enumeration htask hphase hlocation =>
    refine h.task (subset_append_left ..) ?_
    intro change' enumeration' hstoring
    cases hstoring
    exact ⟨by simp, hlocation⟩
  | stored htask hphase hpane hstore =>
    have hstores := storeChanges_eq_some hstore
    obtain ⟨previous, snapshot, hprevious, -, hlocation, -⟩ := hstores.snapshot
    exact h.store htask hphase hpane hstores (hok _ htask _ hpane _ hprevious hlocation)
  | published htask hphase =>
    refine h.task (fun _ hmem => hmem) ?_
    intro change enumeration hnot
    cases hnot

/-- In every run whose requests share no id with calls that have other
options, and whose watches and refreshes have the pane's options, the
stored listing is arranged as the current request says. -/
theorem pane_matches_options {acts : List Action}
    (hrun : Run (apply lowercase) Fitting World.initial acts w) : Shown lowercase w := by
  refine Fits.shown (Run.invariant Fits.initial ?_ hrun)
  intro w w' a hok hstep h
  exact h.step hok (step_of_apply hstep)

-- ==== the samples

/-- The sample directory of `n` files, enumerated. -/
def sampleEnumeration (n : Nat) : Enumeration where
  location := sampleLocation
  entries := sampleListing 0 n
  annotated := sampleListing 0 n

/-- The sample request, for the largest files first. -/
def largestFirst (requestId : RequestId) : ListDirectoryRequest where
  requestId := requestId
  location := sampleLocation
  continuationToken := none
  view := { showHidden := false, foldersFirst := true, showGitStatus := false
            sort := [{ columnId := "core.size", direction := .descending }] }

/-- A first page, with its watch. -/
def listScript (request : ListDirectoryRequest) (call n : Nat) : List Action :=
  [.request request, .enumerate call (.ok (sampleEnumeration n)), .commit call true true,
    .acquire call (.ok ())]

/-- A listing and a change that its watch stores. -/
theorem pane_matches_options_one_change :
    ∃ acts w, Run (apply id) Fitting World.initial acts w ∧ w.stores.length = 1 ∧ Shown id w := by
  obtain ⟨w, hrun, hstores⟩ := Run.exists_of_guardedRun
    (show (guardedRun (apply id) Fitting World.initial (listScript (sampleRequest 1 none) 0 2
        ++ [.receive 0 .changed, .listed 0 (.ok (sampleEnumeration 3)), .store 0])).any
      (fun w => decide (w.stores.length = 1)) = true from by decide +kernel)
  exact ⟨_, w, hrun, hstores, pane_matches_options hrun⟩

/-- A watch lists its directory while the pane is sorted anew: it stores
the listing in the old order, with the largest file last. -/
theorem superseded_watch_stores_old_options :
    ∃ w, Run (apply id) Free World.initial (listScript (sampleRequest 1 none) 0 2
          ++ [.receive 0 .changed, .listed 0 (.ok (sampleEnumeration 2))]
          ++ listScript (largestFirst 2) 1 2 ++ [.store 0]) w
      ∧ w.pane.map PaneRequest.view = some (largestFirst 2).view ∧ ¬ Shown id w := by
  obtain ⟨w, hrun, hview, hwrong⟩ := Run.exists_of_run (show (Machine.run (apply id) World.initial
      (listScript (sampleRequest 1 none) 0 2
        ++ [.receive 0 .changed, .listed 0 (.ok (sampleEnumeration 2))]
        ++ listScript (largestFirst 2) 1 2 ++ [.store 0])).any
      (fun w => decide (w.pane.map PaneRequest.view = some (largestFirst 2).view
        ∧ ∃ pane ∈ w.pane, pane.snapshot.isSome = true ∧ ∀ full ∈ pane.fullEntries,
          ∀ enumeration ∈ w.enumerations, full ≠ enumeration.listing id pane.view)) = true
      from by decide +kernel)
  refine ⟨w, hrun, hview, fun hshown => ?_⟩
  obtain ⟨pane, hpane, hsome, hnone⟩ := hwrong
  obtain ⟨snapshot, hsnapshot⟩ := Option.isSome_iff_exists.mp hsome
  obtain ⟨full, hfull, enumeration, hmem, -, heq⟩ := hshown pane snapshot hpane hsnapshot
  exact hnone full hfull enumeration hmem heq

end FileManager.Directory.Tasks
