/-
The newest request of a pane wins: of calls with different request ids
only the one that registered last stores its page; one that was
superseded fails, and none of its steps changes the pane. Registering is
another matter: it keeps the revision, but takes the listing off the
pane, unless it asks for another page of it.
-/
import FileManager.Directory.Proofs.Revisions

namespace FileManager.Directory.Tasks

open Machine List PaneRequest

variable {lowercase : String → String} {w w' : World}

-- ==== the condition

/-- A request has an id of its own. -/
def FreshId (w : World) : Action → Prop
  | .request request => ∀ call ∈ w.calls, call.request.requestId ≠ request.requestId
  | _ => True

instance (w : World) (a : Action) : Decidable (FreshId w a) :=
  match a with
  | .request .. => inferInstanceAs (Decidable (∀ _ ∈ _, _))
  | .publish .. | .enumerate .. | .commit .. | .acquire .. | .refresh | .receive .. | .stop ..
  | .listed .. | .store .. => .isTrue trivial

-- ==== the invariant

/-- The ids of the calls, in the order in which they registered. -/
def World.ids (w : World) : List RequestId := w.calls.map fun call => call.request.requestId

structure Newest (w : World) : Prop where
  ids : w.ids.Nodup
  newest : ∀ pane, w.pane = some pane → w.ids.getLast? = some pane.requestId
  commits : ∀ commit ∈ w.commits, commit.registered = commit.call + 1
  stored : ∀ (i : Nat) (call : Call) page, w.calls[i]? = some call → call.Stored page →
    ∃ commit ∈ w.commits, commit.call = i
  last : ∀ pane snapshot, w.pane = some pane → pane.snapshot = some snapshot →
    ∃ commit, w.commits.getLast? = some commit ∧ w.ids[commit.call]? = some snapshot.requestId

theorem Newest.initial : Newest World.initial where
  ids := .nil
  newest := by
    intro pane hpane
    cases hpane
  commits := by simp [World.initial]
  stored := by
    intro i call page hcall
    cases hcall
  last := by
    intro pane snapshot hpane
    cases hpane

variable {i : Nat}

theorem ids_set {call : Call} (phase : CallPhase) (hcall : w.calls[i]? = some call) :
    (w.calls.set i { call with phase := phase }).map (fun call => call.request.requestId)
      = w.ids := by
  obtain ⟨hlt, heq⟩ := List.getElem?_eq_some_iff.mp hcall
  rw [map_set, World.ids]
  refine ext_getElem? fun j => ?_
  by_cases hij : i = j
  · subst hij
    rw [List.getElem?_set_self (by rwa [length_map]), List.getElem?_map, hcall]
    rfl
  · rw [List.getElem?_set_ne hij]

theorem Newest.goes_on (h : Newest w) (hids : w'.ids = w.ids) (hcommits : w'.commits = w.commits)
    (hpane : ∀ pane, w'.pane = some pane → ∃ old, w.pane = some old ∧ pane.requestId = old.requestId
      ∧ ∀ snapshot, pane.snapshot = some snapshot → ∃ before, old.snapshot = some before
        ∧ snapshot.requestId = before.requestId)
    (hcalls : ∀ (i : Nat) (call : Call) page, w'.calls[i]? = some call → call.Stored page →
      ∃ old, w.calls[i]? = some old ∧ old.Stored page) : Newest w' := by
  refine ⟨?_, ?_, ?_, ?_, ?_⟩
  · rw [hids]
    exact h.ids
  · intro pane hp
    obtain ⟨old, hold, hid, -⟩ := hpane pane hp
    rw [hids, hid]
    exact h.newest old hold
  · rw [hcommits]
    exact h.commits
  · intro i call page hcall hstored
    obtain ⟨old, hold, hwas⟩ := hcalls i call page hcall hstored
    rw [hcommits]
    exact h.stored i old page hold hwas
  · intro pane snapshot hp hsnapshot
    obtain ⟨old, hold, -, hshown⟩ := hpane pane hp
    obtain ⟨before, hbefore, hsame⟩ := hshown snapshot hsnapshot
    rw [hcommits, hids, hsame]
    exact h.last old before hold hbefore

theorem World.same_pane (w : World) (pane : PaneRequest) (h : w.pane = some pane) :
    ∃ old, w.pane = some old ∧ pane.requestId = old.requestId
      ∧ ∀ snapshot, pane.snapshot = some snapshot → ∃ before, old.snapshot = some before
        ∧ snapshot.requestId = before.requestId :=
  ⟨pane, h, rfl, fun snapshot hsnapshot => ⟨snapshot, hsnapshot, rfl⟩⟩

variable {phase : CallPhase}

theorem Newest.call (h : Newest w) {call : Call} {tasks : List Task}
    {enumerations : List Enumeration} (hcall : w.calls[i]? = some call)
    (hphase : ∀ page, Call.Stored { call with phase := phase } page → call.Stored page) :
    Newest { w with
      calls := w.calls.set i { call with phase := phase }
      tasks := tasks
      enumerations := enumerations } :=
  h.goes_on (ids_set phase hcall) rfl w.same_pane (stored_of_set hcall hphase)

theorem Newest.index (h : Newest w) {pane : PaneRequest} {call : Call}
    (hpane : w.pane = some pane) (hcall : w.calls[i]? = some call)
    (hid : pane.requestId = call.request.requestId) : i + 1 = w.calls.length := by
  obtain ⟨hlt, heq⟩ := List.getElem?_eq_some_iff.mp hcall
  have hlast := h.newest pane hpane
  rw [getLast?_eq_getElem?] at hlast
  have hi : w.ids[i]? = some pane.requestId := by
    rw [World.ids, List.getElem?_map, hcall, hid]
    rfl
  have hlength : w.ids.length = w.calls.length := length_map ..
  have hsame := (List.getElem?_inj (by omega) h.ids).mp (hi.trans hlast.symm)
  omega

/-- The request asks for another page of the pane's listing, with the
options it was listed with. -/
def Continues (pane : Option PaneRequest) (request : ListDirectoryRequest) : Prop :=
  request.continuationToken ≠ none ∧ ∃ previous snapshot, pane = some previous
    ∧ previous.snapshot = some snapshot ∧ snapshot.location = request.location
    ∧ previous.view = request.view

theorem continuesListing_isSome (pane : Option PaneRequest) (request : ListDirectoryRequest) :
    (continuesListing pane request).isSome = true ↔ Continues pane request := by
  unfold continuesListing Continues
  cases request.continuationToken with
  | none => simp
  | some token =>
    cases pane with
    | none => simp
    | some previous => cases hsnapshot : previous.snapshot <;> simp [hsnapshot]

/-- Registering keeps the revision, and the listing exactly where the
request continues it. -/
theorem registerPane_keeps (w : World) (request : ListDirectoryRequest) :
    let registered := registerPane w.pane w.tokens request
    registered.requestId = request.requestId ∧ registered.revision = w.revision
      ∧ ((¬ Continues w.pane request ∧ registered.snapshot = none ∧ registered.fullEntries = none)
        ∨ Continues w.pane request ∧ ∃ previous, w.pane = some previous
          ∧ registered.snapshot = previous.snapshot
          ∧ registered.fullEntries = previous.fullEntries) := by
  intro registered
  have hiff := continuesListing_isSome w.pane request
  cases hcontinues : continuesListing w.pane request with
  | some previous =>
    have heq : registered = { previous with requestId := request.requestId } := by
      simp only [registered, registerPane, hcontinues]
    obtain ⟨hprevious, -⟩ := continuesListing_eq hcontinues
    rw [hcontinues] at hiff
    rw [heq, World.revision, hprevious]
    exact ⟨rfl, rfl, .inr ⟨hprevious ▸ hiff.mp rfl, previous, rfl, rfl, rfl⟩⟩
  | none =>
    rw [hcontinues] at hiff
    unfold registered registerPane
    rw [hcontinues, World.revision]
    exact ⟨rfl, by cases w.pane <;> rfl, .inl ⟨by simp [← hiff], rfl, rfl⟩⟩

theorem Newest.register (h : Newest w) {request : ListDirectoryRequest}
    {tokens : Nat} (hfresh : ∀ call ∈ w.calls, call.request.requestId ≠ request.requestId)
    (hphase : ∀ page, ¬ Call.Stored { request := request, phase := phase } page) :
    Newest { w with
      pane := some (registerPane w.pane w.tokens request)
      calls := w.calls ++ [{ request := request, phase := phase }]
      tokens := tokens } := by
  obtain ⟨hid, -, hshown⟩ := registerPane_keeps w request
  have hids : ∀ {new : Call}, (w.calls ++ [new]).map (fun call => call.request.requestId)
      = w.ids ++ [new.request.requestId] := map_append ..
  refine ⟨?_, ?_, h.commits, ?_, ?_⟩
  · rw [World.ids, hids]
    refine nodup_append.mpr ⟨h.ids, nodup_singleton _, ?_⟩
    intro id hold other hnew
    rw [mem_singleton.mp hnew]
    obtain ⟨call, hcall, rfl⟩ := mem_map.mp hold
    exact hfresh call hcall
  · intro pane hpane
    cases hpane
    rw [World.ids, hids, getLast?_append_of_ne_nil _ (by simp), getLast?_singleton, hid]
  · intro i call page hcall hstored
    obtain ⟨old, hold, hwas⟩ := stored_of_append hphase i call page hcall hstored
    exact h.stored i old page hold hwas
  · intro pane snapshot hpane hsnapshot
    cases hpane
    rcases hshown with ⟨-, hnone, -⟩ | ⟨-, previous, hprevious, hsame, -⟩
    · simp [hnone] at hsnapshot
    · rw [hsame] at hsnapshot
      obtain ⟨commit, hlast, hcall⟩ := h.last previous snapshot hprevious hsnapshot
      refine ⟨commit, hlast, ?_⟩
      rw [World.ids, hids]
      exact List.getElem?_append_left (List.getElem?_eq_some_iff.mp hcall).1 ▸ hcall

theorem Newest.commit (h : Newest w) {call : Call} {pane stored : PaneRequest}
    {snapshot : DirectorySnapshot} {revision : Nat} (hcall : w.calls[i]? = some call)
    (hpane : w.pane = some pane) (hid : pane.requestId = call.request.requestId)
    (hstored : stored.requestId = pane.requestId) (hshown : stored.snapshot = some snapshot)
    (hsnapshot : snapshot.requestId = call.request.requestId) :
    Newest { w with
      pane := some stored
      calls := w.calls.set i { call with phase := phase }
      commits := w.commits
        ++ [{ call := i, registered := w.calls.length, revision := revision }] } := by
  have hindex := h.index hpane hcall hid
  have hids : World.ids { w with calls := w.calls.set i { call with phase := phase } } = w.ids :=
    ids_set phase hcall
  refine ⟨?_, ?_, ?_, ?_, ?_⟩
  · exact hids ▸ h.ids
  · intro pane' hpane'
    cases hpane'
    rw [hstored]
    exact hids ▸ h.newest pane hpane
  · intro commit hcommit
    rcases mem_append.mp hcommit with hold | hnew
    · exact h.commits commit hold
    · rw [mem_singleton.mp hnew]
      exact hindex.symm
  · intro j other page hother hpage
    by_cases hij : i = j
    · exact ⟨_, mem_append_right _ mem_cons_self, hij⟩
    · simp only [List.getElem?_set_ne hij] at hother
      obtain ⟨commit, hcommit, hj⟩ := h.stored j other page hother hpage
      exact ⟨commit, mem_append_left _ hcommit, hj⟩
  · intro pane' snapshot' hpane' hsnapshot'
    cases hpane'
    rw [hshown] at hsnapshot'
    cases hsnapshot'
    refine ⟨_, getLast?_concat .., ?_⟩
    refine (congrArg (·[i]?) hids).trans ?_
    rw [World.ids, List.getElem?_map, hcall, hsnapshot]
    rfl

theorem Newest.step {a : Action} (h : Newest w) (hok : FreshId w a)
    (hstep : Step lowercase w a w') : Newest w' := by
  cases hstep with
  | request request =>
    refine h.register hok ?_
    rintro page (hnot | ⟨token, hnot⟩) <;> cases hnot
  | failed error result more hcall hphase
  | enumerated enumeration offset hcall hphase hlocation hcached
  | reused offset result hcall hphase | superseded writable tracking hcall hphase hnewer
  | unwatched error hcall hphase =>
    refine h.call hcall ?_
    rintro page (hnot | ⟨token, hnot⟩) <;> cases hnot
  | committed writable tracking hcall hphase hsnapshot hpane hid hended =>
    exact h.commit hcall hpane hid rfl rfl (by rw [hsnapshot]; rfl)
  | acquired hcall hphase =>
    refine h.call hcall ?_
    intro page hcase
    rcases hcase with hpage | ⟨token, hnot⟩
    · cases hpage
      exact .inr ⟨_, hphase⟩
    · cases hnot
  | refresh hpane hsnapshot
  | quiet htasks htask hpending hphase | listed enumeration htask hphase hlocation
  | published htask hphase =>
    exact h.goes_on rfl rfl w.same_pane fun i call page hcall hstored => ⟨call, hcall, hstored⟩
  | stored htask hphase hpane hstore =>
    have hstores := storeChanges_eq_some hstore
    refine h.goes_on rfl rfl ?_ fun i call page hcall hstored => ⟨call, hcall, hstored⟩
    intro pane' hpane'
    cases hpane'
    refine ⟨_, hpane, hstores.requestId, fun snapshot hsnapshot => ?_⟩
    obtain ⟨previous, shown, hprevious, hshown, -, -, hsame, -⟩ := hstores.snapshot
    rw [hshown] at hsnapshot
    cases hsnapshot
    exact ⟨previous, hprevious, hsame⟩

-- ==== the results

/-- A step of the call `i`, after it has registered and before it has
stored its page. -/
def Action.IsOf (i : Nat) : Action → Prop
  | .enumerate j _ => j = i
  | .commit j _ _ => j = i
  | _ => False

/-- What a step of a superseded call does. -/
structure GivesWay (w w' : World) (i : Nat) : Prop where
  pane : w'.pane = w.pane
  commits : w'.commits = w.commits
  call : ∃ call, w'.calls[i]? = some call
    ∧ (call.waiting = true ∨ ∃ error, call.phase = .returned (.error error))

structure NewestWins (lowercase : String → String) (w : World) : Prop where
  /-- A call that returns a page stored it when it was the newest. -/
  returned : ∀ (i : Nat) (call : Call) page, w.calls[i]? = some call →
    call.phase = .returned (.ok page) →
    ∃ commit ∈ w.commits, commit.call = i ∧ commit.registered = i + 1
  /-- A superseded call changes nothing of the pane, and what it returns
  is an error. -/
  superseded : ∀ (i : Nat) (call : Call) (a : Action) (w' : World),
    w.calls[i]? = some call → call.waiting = true → i + 1 < w.calls.length → a.IsOf i →
    apply lowercase a w = some w' → GivesWay w w' i
  /-- Registering keeps the revision, and takes the listing off the pane
  unless the request continues it, which keeps it. -/
  registers : ∀ (request : ListDirectoryRequest) (w' : World),
    apply lowercase (.request request) w = some w' → w'.revision = w.revision
      ∧ ∃ pane, w'.pane = some pane
        ∧ ((¬ Continues w.pane request ∧ pane.snapshot = none ∧ pane.fullEntries = none)
          ∨ Continues w.pane request ∧ ∃ previous, w.pane = some previous
            ∧ pane.snapshot = previous.snapshot ∧ pane.fullEntries = previous.fullEntries)
  /-- What is shown is the page of the call that stored one last. -/
  last : ∀ pane snapshot, w.pane = some pane → pane.snapshot = some snapshot →
    ∃ commit call, w.commits.getLast? = some commit ∧ w.calls[commit.call]? = some call
      ∧ snapshot.requestId = call.request.requestId

theorem getElem?_set_of_some {call : Call} (new : Call)
    (hcall : w.calls[i]? = some call) : (w.calls.set i new)[i]? = some new :=
  List.getElem?_set_self (List.getElem?_eq_some_iff.mp hcall).1

theorem Newest.gives_way (h : Newest w) {a : Action} (hsuperseded : i + 1 < w.calls.length)
    (his : a.IsOf i) (hstep : Step lowercase w a w') : GivesWay w w' i := by
  cases hstep with
  | failed error result more hcall hphase =>
    subst his
    exact ⟨rfl, rfl, _, getElem?_set_of_some _ hcall, .inr ⟨error, rfl⟩⟩
  | enumerated enumeration offset hcall hphase hlocation hcached
  | reused offset result hcall hphase =>
    subst his
    exact ⟨rfl, rfl, _, getElem?_set_of_some _ hcall, .inl rfl⟩
  | superseded writable tracking hcall hphase hnewer =>
    subst his
    exact ⟨rfl, rfl, _, getElem?_set_of_some _ hcall, .inr ⟨_, rfl⟩⟩
  | committed writable tracking hcall hphase hsnapshot hpane hid hended =>
    subst his
    have hindex := h.index hpane hcall hid
    omega
  | quiet htasks htask hpending hphase =>
    cases a with
    | enumerate j result | commit j writable tracking => cases htasks
    | request request | acquire j result | refresh | receive t change | stop t | listed t result
    | store t | publish t => cases his
  | _ => cases his

/-- In every run of calls with different request ids the newest wins:
only a call that none was registered after stores a page, and a
superseded call changes nothing more. -/
theorem newest_request_wins {acts : List Action}
    (hrun : Run (apply lowercase) FreshId World.initial acts w) : NewestWins lowercase w := by
  have h : Newest w := by
    refine Run.invariant Newest.initial ?_ hrun
    intro w w' a hok hstep h
    exact h.step hok (step_of_apply hstep)
  refine ⟨?_, ?_, ?_, ?_⟩
  · intro i call page hcall hpage
    obtain ⟨commit, hcommit, rfl⟩ := h.stored i call page hcall (.inl hpage)
    exact ⟨commit, hcommit, rfl, h.commits commit hcommit⟩
  · intro i call a w' hcall hwaiting hsuperseded his hstep
    exact h.gives_way hsuperseded his (step_of_apply hstep)
  · intro request w' hstep
    cases Option.some.inj hstep
    obtain ⟨-, hrevision, hshown⟩ := registerPane_keeps w request
    exact ⟨hrevision, _, rfl, hshown⟩
  · intro pane snapshot hpane hsnapshot
    obtain ⟨commit, hlast, hid⟩ := h.last pane snapshot hpane hsnapshot
    rw [World.ids, List.getElem?_map, Option.map_eq_some_iff] at hid
    obtain ⟨call, hcall, hid⟩ := hid
    exact ⟨commit, call, hlast, hcall, hid.symm⟩

/-- Three calls: the first stores its page, the second is superseded by
the third while it enumerates. -/
def supersededScript : List Action :=
  listScript (sampleRequest 1 none) 0 2
    ++ [.request (sampleRequest 2 none), .request (sampleRequest 3 none),
      .enumerate 1 (.ok (sampleEnumeration 2))]

/-- The second call has the pane as it was left by the third. -/
theorem newest_request_wins_three_calls :
    ∃ w, Run (apply id) FreshId World.initial supersededScript w
      ∧ w.calls.length = 3 ∧ NewestWins id w := by
  obtain ⟨w, hrun, hcalls⟩ := Run.exists_of_guardedRun
    (show (guardedRun (apply id) FreshId World.initial supersededScript).any
      (fun w => decide (w.calls.length = 3)) = true from by decide +kernel)
  exact ⟨w, hrun, hcalls, newest_request_wins hrun⟩

/-- A superseded call has taken the listing off the pane; and one with a
token that is no number returns another error. -/
theorem superseded_call_clears_listing :
    (∃ before after w, Run (apply id) FreshId World.initial
        (listScript (sampleRequest 1 none) 0 2) before
      ∧ apply id (.request (sampleRequest 2 none)) before = some after
      ∧ Machine.run (apply id) after [.request (sampleRequest 3 none),
        .enumerate 1 (.ok (sampleEnumeration 2)), .commit 1 true true] = some w
      ∧ w.calls[1]?.map Call.phase = some (.returned (.error .operationCancelled))
      ∧ before.pane.bind snapshot ≠ none
      ∧ after.pane.bind snapshot = none)
    ∧ ∃ w, Run (apply id) FreshId World.initial
        [.request (sampleRequest 1 (some .malformed)), .request (sampleRequest 2 none),
          .enumerate 0 (.ok (sampleEnumeration 2))] w
      ∧ w.calls[0]?.map Call.phase
        = some (.returned (.error (.invalidRequest "invalid continuation token"))) := by
  constructor
  · obtain ⟨before, hrun, hshown, hrest⟩ := Run.exists_of_guardedRun
      (show (guardedRun (apply id) FreshId World.initial
        (listScript (sampleRequest 1 none) 0 2)).any (fun before => decide
          (before.pane.bind snapshot ≠ none
            ∧ (apply id (.request (sampleRequest 2 none)) before).any (fun after => decide
              (after.pane.bind snapshot = none
                ∧ (Machine.run (apply id) after [.request (sampleRequest 3 none),
                  .enumerate 1 (.ok (sampleEnumeration 2)), .commit 1 true true]).any (fun w =>
                    decide (w.calls[1]?.map Call.phase
                      = some (.returned (.error .operationCancelled)))) = true)) = true)) = true
        from by decide +kernel)
    obtain ⟨after, hafter, hdecided⟩ := (Option.any_eq_true ..).mp hrest
    obtain ⟨hcleared, hends⟩ := of_decide_eq_true hdecided
    obtain ⟨w, hw, hphase⟩ := (Option.any_eq_true ..).mp hends
    exact ⟨before, after, w, hrun, hafter, hw, of_decide_eq_true hphase, hshown, hcleared⟩
  · exact Run.exists_of_guardedRun (by decide +kernel)

end FileManager.Directory.Tasks
