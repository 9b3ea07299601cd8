/-
What a call of `list` that returns an error has done to the pane: which
of them leave it with its listing and its watch.

# The argument

A request that does not continue the pane's listing starts the pane over
when it registers, with a new token for its watch and the old one
cancelled; no error exit puts the old state back. One that continues the
listing keeps all of it, and its error exits come before anything is
stored. Tokens are not used twice (`Fresh`), so the watch of a pane that
has been started over is told apart from the one before.
-/
import FileManager.Directory.Proofs.Replay

namespace FileManager.Directory

open Machine Option
open PaneRequest (watchToken)

variable {lowercase : String → String} {s s' : State} {pane : PaneRequest} {acts : List Action}
  {request : ListDirectoryRequest} {background : Bool} {snapshot : DirectorySnapshot}

-- ==== the failed call

/-- The pane, the cancelled tokens and the call are as they were. -/
structure Undisturbed (i : Nat) (s s' : State) : Prop where
  pane : s'.pane = s.pane
  cancelled : s'.cancelled = s.cancelled
  call : s'.calls[i]? = s.calls[i]?

/-- A step of something else, which does not touch the pane or the call. -/
def LeavesAlone (lowercase : String → String) (i : Nat) (s : State) (a : Action) : Prop :=
  ∀ s', apply lowercase a s = some s' → Undisturbed i s s'

/-- The call returns an error: before its second lock, or as its watch
cannot be had. -/
def Fails (lowercase : String → String) (call : ListCall)
    (enumerated : Except VfsError (List EntrySummary)) (watch : WatchOutcome) : Prop :=
  (∃ error, prepare lowercase call enumerated = .error error)
    ∨ (call.request.continuationToken = none ∧ watch = .failed)

/-- A call of `list`, from its request to the error that it returns, with
no change in between. -/
def FailedList (lowercase : String → String) (s : State) (request : ListDirectoryRequest)
    (background : Bool) (s' : State) : Prop :=
  ∃ acts waiting call enumerated writable retry watch,
    Run (apply lowercase) (LeavesAlone lowercase s.calls.length) (register s request background)
        acts waiting
      ∧ waiting.calls[s.calls.length]? = some call
      ∧ apply lowercase (.answer s.calls.length enumerated writable retry watch) waiting = some s'
      ∧ Fails lowercase call enumerated watch

/-- The pane has the snapshot, the listing and the watch it had. -/
structure Kept (pane : PaneRequest) (s' : State) : Prop where
  shown : ∃ kept, s'.pane = some kept ∧ kept.snapshot = pane.snapshot
    ∧ kept.fullEntries = pane.fullEntries ∧ kept.watchToken = pane.watchToken
  watched : pane.watchToken ∉ s'.cancelled

/-- A change that a watch of the pane receives is published. -/
def KeepsPublishing (lowercase : String → String) (pane : PaneRequest) (s' : State) : Prop :=
  ∀ w watch change entries, s'.watches[w]? = some watch →
    watch.token = some pane.watchToken → watch.pending = none →
    (∃ snapshot, pane.snapshot = some snapshot ∧ snapshot.location = watch.location) →
    ∃ changed published publication, apply lowercase (.change w change) s' = some changed
      ∧ apply lowercase (.publish w (.ok entries)) changed = some published
      ∧ published.published = s'.published ++ [publication]
      ∧ publication.change = change ∧ publication.listing = arrange lowercase watch.view entries

-- ==== the tokens

/-- The pane's token, the number of tokens made, and those cancelled. -/
def State.subscription (s : State) : Option Nat × Nat × List Nat :=
  (s.pane.map watchToken, s.tokens, s.cancelled)

theorem subscription_storePage (hpane : s.pane = some pane) (call : ListCall)
    (full : List EntrySummary) (offset : Nat) (writable retry : Bool) (watch : WatchOutcome) :
    (storePage s pane call full offset writable retry watch).subscription = s.subscription := by
  unfold storePage
  dsimp only
  split
  case h_1 => simp [State.subscription, hpane]
  case h_2 => simp [State.subscription, hpane]
  case h_3 => simp [State.subscription, hpane]

theorem subscription_answer (i : Nat) (call : ListCall)
    (enumerated : Except VfsError (List EntrySummary)) (writable retry : Bool)
    (watch : WatchOutcome) :
    (answer lowercase s i call enumerated writable retry watch).subscription = s.subscription := by
  unfold answer
  dsimp only
  split
  case h_1 => rfl
  case h_2 pane hpane =>
    split
    case isFalse => rfl
    case isTrue =>
      split
      case h_1 => rfl
      case h_2 full offset hprepare =>
        exact @subscription_storePage { s with calls := s.calls.set i { call with answered := true } }
          pane hpane call full offset writable retry watch

theorem subscription_publishChanges (watch : PaneWatch) (change : ProviderChange)
    (enumerated : List EntrySummary) :
    (publishChanges lowercase s watch change enumerated).subscription = s.subscription := by
  unfold publishChanges
  dsimp only
  split
  case h_1 => rfl
  case h_2 pane hpane =>
    split
    case h_1 => rfl
    case h_2 snapshot hsnapshot =>
      split
      case isTrue => simp [State.subscription, hpane]
      case isFalse => rfl

theorem subscription_apply {a : Action} (h : apply lowercase a s = some s')
    (ha : ∀ request background, a ≠ .request request background) :
    s'.subscription = s.subscription := by
  cases a with
  | request request background => exact absurd rfl (ha request background)
  | answer i enumerated writable retry watch =>
    simp only [apply] at h
    split at h
    case h_1 => cases h
    case h_2 call hcall =>
      obtain ⟨-, h⟩ := Fallible.passed h nofun
      rw [← some.inj h]
      exact subscription_answer i call enumerated writable retry watch
  | change w change =>
    simp only [apply] at h
    split at h
    case h_1 => cases h
    case h_2 watch hwatch =>
      split at h
      case h_2 => cases h
      case h_1 =>
        obtain ⟨-, h⟩ := Fallible.passed h nofun
        rw [← some.inj h]
        rfl
  | publish w enumerated =>
    simp only [apply] at h
    split at h
    case h_1 => cases h
    case h_2 watch hwatch =>
      split at h
      case h_1 => cases h
      case h_2 change hpending =>
        split at h
        case h_1 =>
          rw [← some.inj h]
          rfl
        case h_2 entries =>
          rw [← some.inj h, subscription_publishChanges]
          rfl
  | refresh =>
    simp only [apply, collect] at h
    split at h
    case h_1 => cases h
    case h_2 =>
      split at h
      case h_1 => cases h
      case h_2 =>
        rw [← some.inj h]
        rfl

/-- The tokens are made once: the pane's is not cancelled. -/
structure Fresh (s : State) : Prop where
  cancelled : ∀ token ∈ s.cancelled, token < s.tokens
  pane : ∀ pane, s.pane = some pane → pane.watchToken < s.tokens ∧ pane.watchToken ∉ s.cancelled

theorem Fresh.of_subscription (h : Fresh s) (heq : s'.subscription = s.subscription) :
    Fresh s' := by
  obtain ⟨hpane, htokens, hcancelled⟩ :
      s'.pane.map watchToken = s.pane.map watchToken
        ∧ s'.tokens = s.tokens ∧ s'.cancelled = s.cancelled := by
    simpa [State.subscription] using heq
  refine ⟨by rw [hcancelled, htokens]; exact h.cancelled, fun pane hfound => ?_⟩
  rw [hfound, map_some] at hpane
  obtain ⟨before, hbefore, htoken⟩ := map_eq_some_iff.mp hpane.symm
  rw [hcancelled, htokens, ← htoken]
  exact h.pane before hbefore

theorem Fresh.lt_tokens (h : Fresh s) : ∀ token ∈ (match s.pane with
    | some previous => previous.watchToken :: s.cancelled
    | none => s.cancelled), token < s.tokens := by
  intro token htoken
  split at htoken
  case h_1 previous hpane =>
    rcases List.mem_cons.mp htoken with rfl | hmem
    · exact (h.pane previous hpane).1
    · exact h.cancelled token hmem
  case h_2 => exact h.cancelled token htoken

theorem Fresh.register (h : Fresh s) (request : ListDirectoryRequest) (background : Bool) :
    Fresh (register s request background) := by
  unfold Directory.register
  dsimp only
  split
  case h_1 previous hcontinues =>
    obtain ⟨hpane, -⟩ := continuesListing_eq hcontinues
    refine ⟨h.cancelled, fun pane hfound => ?_⟩
    cases hfound
    exact h.pane previous hpane
  case h_2 =>
    have hcancelled := h.lt_tokens
    refine ⟨fun token htoken => Nat.lt_succ_of_lt (hcancelled token htoken), fun pane hfound => ?_⟩
    cases hfound
    exact ⟨Nat.lt_succ_self _, fun hmem => Nat.lt_irrefl _ (hcancelled _ hmem)⟩

theorem fresh_run (hrun : Run (apply lowercase) Free initial acts s) : Fresh s := by
  have hinitial : Fresh initial :=
    ⟨fun _ hmem => absurd hmem List.not_mem_nil, fun _ hpane => by cases hpane⟩
  refine Run.invariant hinitial (fun a _ hstep h => ?_) hrun
  cases a with
  | request request background =>
    cases hstep
    exact h.register request background
  | _ =>
    exact h.of_subscription (subscription_apply hstep nofun)

-- ==== the verdict

theorem Undisturbed.run {i : Nat}
    (hrun : Run (apply lowercase) (LeavesAlone lowercase i) s acts s') : Undisturbed i s s' :=
  Run.invariant ⟨rfl, rfl, rfl⟩ (fun _ hok hstep h =>
    { pane := (hok _ hstep).pane.trans h.pane
      cancelled := (hok _ hstep).cancelled.trans h.cancelled
      call := (hok _ hstep).call.trans h.call }) hrun

theorem published_publishChanges {kept : PaneRequest} {snapshot : DirectorySnapshot}
    {watch : PaneWatch} (hpane : s.pane = some kept) (hsnapshot : kept.snapshot = some snapshot)
    (hlocation : snapshot.location = watch.location) (change : ProviderChange)
    (entries : List EntrySummary) :
    ∃ publication, (publishChanges lowercase s watch change entries).published
        = s.published ++ [publication] ∧ publication.change = change
      ∧ publication.listing = arrange lowercase watch.view entries := by
  unfold publishChanges
  simp only [hpane, hsnapshot, hlocation, if_true]
  exact ⟨_, rfl, rfl, rfl⟩

theorem keepsPublishing_of_kept (h : Kept pane s') : KeepsPublishing lowercase pane s' := by
  obtain ⟨kept, hkept, hshown, -, -⟩ := h.shown
  intro w watch change entries hwatch htoken hpending hlocation
  obtain ⟨snapshot, hsnapshot, hlocation⟩ := hlocation
  have hw := (List.getElem?_eq_some_iff.mp hwatch).1
  have hchange : apply lowercase (.change w change) s' = some { s' with
      watches := s'.watches.set w { watch with pending := some change } } := by
    simp only [apply, hwatch, htoken, hpending]
    exact if_neg h.watched
  have hpublish : apply lowercase (.publish w (.ok entries)) { s' with
        watches := s'.watches.set w { watch with pending := some change } }
      = some (publishChanges lowercase { s' with
          watches := (s'.watches.set w { watch with pending := some change }).set w
            { watch with pending := none } } { watch with pending := some change } change
          entries) := by
    simp only [apply, List.getElem?_set_self hw]
  obtain ⟨publication, hpublished⟩ :=
    @published_publishChanges lowercase { s' with
        watches := (s'.watches.set w { watch with pending := some change }).set w
          { watch with pending := none } } kept snapshot { watch with pending := some change }
      hkept (hshown.trans hsnapshot) hlocation change entries
  exact ⟨_, _, publication, hchange, hpublish, hpublished⟩

theorem continuesListing_iff (hpane : s.pane = some pane)
    (hsnapshot : pane.snapshot = some snapshot) :
    continuesListing s.pane request = some pane
      ↔ request.continuationToken ≠ none ∧ snapshot.location = request.location
        ∧ pane.view = request.view := by
  unfold continuesListing
  rw [hpane]
  cases htoken : request.continuationToken with
  | none => simp
  | some token => simp [hsnapshot]

theorem kept_of_continues (hfresh : Fresh s) (hpane : s.pane = some pane)
    (hcontinues : continuesListing s.pane request = some pane)
    (h : FailedList lowercase s request background s') : Kept pane s' := by
  obtain ⟨acts, waiting, call, enumerated, writable, retry, watch, hrun, hcall, hanswer, hfails⟩ := h
  have hquiet := Undisturbed.run hrun
  have hregistered : (register s request background).pane
        = some { pane with requestId := request.requestId }
      ∧ (register s request background).cancelled = s.cancelled
      ∧ (register s request background).calls[s.calls.length]?
        = some { request := request, cached := pane.fullEntries, answered := false } := by
    unfold register
    simp only [hcontinues]
    exact ⟨trivial, trivial, List.getElem?_concat_length⟩
  obtain ⟨hpane₁, hcancelled₁, hcall₁⟩ := hregistered
  rw [hquiet.call, hcall₁] at hcall
  obtain rfl := some.inj hcall
  have hprepare : ∃ error, prepare lowercase
      { request := request, cached := pane.fullEntries, answered := false } enumerated
        = .error error := by
    rcases hfails with herror | ⟨hfirst, -⟩
    · exact herror
    · exact absurd hfirst (continuesListing_eq hcontinues).2
  obtain ⟨error, herror⟩ := hprepare
  have hwaiting := hquiet.pane.trans hpane₁
  simp only [apply, hquiet.call, hcall₁, Bool.false_eq_true, if_false] at hanswer
  unfold answer at hanswer
  simp only [hwaiting, if_true, herror] at hanswer
  cases hanswer
  refine ⟨⟨_, rfl, rfl, rfl, rfl⟩, ?_⟩
  show pane.watchToken ∉ waiting.cancelled
  rw [hquiet.cancelled, hcancelled₁]
  exact (hfresh.pane pane hpane).2

theorem not_kept_of_starts_over (hfresh : Fresh s) (hpane : s.pane = some pane)
    (hstarts : continuesListing s.pane request = none)
    (h : FailedList lowercase s request background s') : ¬ Kept pane s' := by
  obtain ⟨acts, waiting, call, enumerated, writable, retry, watch, hrun, hcall, hanswer, hfails⟩ := h
  have hquiet := Undisturbed.run hrun
  have htoken : (register s request background).pane.map watchToken = some s.tokens := by
    unfold register
    simp only [hstarts]
    rfl
  intro hkept
  obtain ⟨kept, hfound, -, -, hsame⟩ := hkept.shown
  have hsubscription := congrArg Prod.fst (subscription_apply hanswer nofun)
  have hnew : some kept.watchToken = some s.tokens := by
    calc some kept.watchToken = s'.pane.map watchToken := by rw [hfound]; rfl
      _ = waiting.pane.map watchToken := hsubscription
      _ = some s.tokens := by rw [hquiet.pane, htoken]
  have hold := (hfresh.pane pane hpane).1
  rw [← hsame, some.inj hnew] at hold
  exact Nat.lt_irrefl _ hold

/-- A call that fails leaves the pane its snapshot, its listing and its
watch, exactly if it asks for a further page of what the pane shows,
with the pane's options. -/
theorem failed_list_keeps_pane_iff {acts : List Action}
    (hrun : Run (apply lowercase) Free initial acts s) (hpane : s.pane = some pane)
    (hsnapshot : pane.snapshot = some snapshot)
    (h : FailedList lowercase s request background s') :
    (Kept pane s' ∧ KeepsPublishing lowercase pane s')
      ↔ request.continuationToken ≠ none ∧ snapshot.location = request.location
        ∧ pane.view = request.view := by
  have hfresh := fresh_run hrun
  rw [← continuesListing_iff hpane hsnapshot]
  constructor
  · intro hkept
    by_contra hother
    refine not_kept_of_starts_over hfresh hpane ?_ h hkept.1
    cases hcontinues : continuesListing s.pane request with
    | none => rfl
    | some previous =>
      have hprevious := hpane.symm.trans (continuesListing_eq hcontinues).1
      rw [some.inj hprevious] at hother
      exact absurd hcontinues hother
  · intro hcontinues
    have hkept := kept_of_continues hfresh hpane hcontinues h
    exact ⟨hkept, keepsPublishing_of_kept hkept⟩

/-- A pane that shows two files. -/
def shownScript : List Action :=
  [.request (sampleRequest 1 none) false, .answer 0 (.ok (sampleListing 0 2)) true false .acquired]

/-- A page that begins after the end of the listing is refused, and the
pane is as before. -/
theorem page_out_of_range_keeps_pane :
    ∃ s s' pane, Run (apply id) Free initial shownScript s ∧ s.pane = some pane
      ∧ FailedList id s (sampleRequest 2 (some (.offset 5))) false s'
      ∧ Kept pane s' ∧ KeepsPublishing id pane s' := by
  obtain ⟨s, hrun, hcalls, pane, hpane, hview, ⟨snapshot, hsnapshot, hlocation⟩, hsome, call,
      hcall, hfails⟩ := Run.exists_of_run
    (show (Machine.run (apply id) initial shownScript).any (fun s => decide
      (s.calls.length = 1 ∧ ∃ pane ∈ s.pane, pane.view = (sampleRequest 1 none).view
        ∧ (∃ snapshot ∈ pane.snapshot, snapshot.location = sampleLocation)
        ∧ (apply id (.answer 1 (.ok []) true false .unsupported)
          (register s (sampleRequest 2 (some (.offset 5))) false)).isSome = true
        ∧ ∃ call ∈ (register s (sampleRequest 2 (some (.offset 5))) false).calls[1]?,
          prepare id call (.ok [])
            = .error (.invalidRequest "continuation token is out of range"))) = true
      from by decide +kernel)
  obtain ⟨s', hs'⟩ := isSome_iff_exists.mp hsome
  have hfailed : FailedList id s (sampleRequest 2 (some (.offset 5))) false s' := by
    refine ⟨[], _, call, .ok [], true, false, .unsupported, .start, ?_, ?_, .inl ⟨_, hfails⟩⟩
    · rw [hcalls]
      exact hcall
    · rw [hcalls]
      exact hs'
  exact ⟨s, s', pane, hrun, hpane, hfailed,
    (failed_list_keeps_pane_iff hrun hpane hsnapshot hfailed).mpr ⟨nofun, hlocation, hview⟩⟩

/-- A refresh of what the pane shows fails, and the pane has nothing to
show, nor a watch. -/
theorem failed_refresh_clears_pane :
    ∃ s s' pane, Run (apply id) Free initial shownScript s ∧ s.pane = some pane
      ∧ pane.snapshot.isSome = true ∧ FailedList id s (sampleRequest 2 none) true s'
      ∧ ¬ Kept pane s' := by
  obtain ⟨s, hrun, hcalls, pane, hpane, hshown, hcleared, call, hcall, hfails⟩ := Run.exists_of_run
    (show (Machine.run (apply id) initial shownScript).any (fun s => decide
      (s.calls.length = 1 ∧ ∃ pane ∈ s.pane, pane.snapshot.isSome = true
        ∧ (∃ s' ∈ apply id (.answer 1 (.error (.notFound sampleLocation)) true false .unsupported)
          (register s (sampleRequest 2 none) true),
          ∃ left ∈ s'.pane, left.snapshot = none ∧ pane.watchToken ∈ s'.cancelled)
        ∧ ∃ call ∈ (register s (sampleRequest 2 none) true).calls[1]?,
          prepare id call (.error (.notFound sampleLocation))
            = .error (.vfs (.notFound sampleLocation)))) = true
      from by decide +kernel)
  obtain ⟨s', hs', left, -, -, hcancelled⟩ := hcleared
  refine ⟨s, s', pane, hrun, hpane, hshown, ?_, fun hkept => hkept.watched hcancelled⟩
  refine ⟨[], _, call, .error (.notFound sampleLocation), true, false, .unsupported, .start, ?_, ?_,
    .inl ⟨_, hfails⟩⟩
  · rw [hcalls]
    exact hcall
  · rw [hcalls]
    exact hs'

end FileManager.Directory
