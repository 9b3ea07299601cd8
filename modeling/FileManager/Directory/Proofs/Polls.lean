/-
What a pane shows of a polled directory: after every poll it is what the
poll found, exactly when the first poll finds what the pane shows already
(or is compared with an older poll and differs from it), and every
listing that a poll sets off finds what the poll found. The first poll of
a new watch is only remembered: a change between the pane's listing and
that poll is never reported.
-/
import FileManager.Directory.Poll
import FileManager.Directory.Proofs.Options
import FileManager.Directory.Proofs.Order

namespace FileManager.Directory.Poll

open Tasks (storeChanges_eq_some)

variable {lowercase : String → String} {location : Location} {view : ViewOptions}

-- ==== the fingerprints

theorem mem_fingerprint (contents : Contents) {entry : EntrySummary} :
    entry ∈ fingerprint contents.entries ↔ entry ∈ contents.entries := by
  unfold fingerprint
  rw [Keyed.mem_upserts (by simp) (Keyed.functional_of_nodup contents.ids)]
  simp

theorem arrange_eq_of_not_reports {before after : Contents}
    (h : reports (some (fingerprint before.entries)) after.entries = false) :
    arrange lowercase view after.entries = arrange lowercase view before.entries := by
  have hsame : fingerprint before.entries ⊆ fingerprint after.entries
      ∧ fingerprint after.entries ⊆ fingerprint before.entries := by
    simpa [reports, sameFingerprint] using h
  refine arrange_perm ?_ after.names
  refine (List.perm_ext_iff_of_nodup after.ids.of_map before.ids.of_map).mpr fun entry => ?_
  rw [← mem_fingerprint, ← mem_fingerprint]
  exact ⟨fun hmem => hsame.2 hmem, fun hmem => hsame.1 hmem⟩

-- ==== the condition

/-- The first poll that finds something. -/
def firstFound : List Turn → Option Contents
  | [] => none
  | t :: rest =>
    match t.result with
    | .ok contents => some contents
    | .error .cancelled => none
    | .error _ => firstFound rest

/-- The first poll finds the listing that the pane shows, or is reported
against an older poll. -/
def SeededWith (lowercase : String → String) (view : ViewOptions) (shown : Contents)
    (previous : Option (List EntrySummary)) (turns : List Turn) : Prop :=
  ∀ found ∈ firstFound turns, reports previous found.entries = false →
    arrange lowercase view found.entries = arrange lowercase view shown.entries

/-- The listing that a poll sets off has what the poll found; where it
fails, that was to be seen already. -/
def Refreshes (lowercase : String → String) (view : ViewOptions) (shown found : Contents) :
    Except VfsError Contents → Prop
  | .ok listed => arrange lowercase view listed.entries = arrange lowercase view found.entries
  | .error _ => arrange lowercase view found.entries = arrange lowercase view shown.entries

/-- The turn reports a change, and the listing for it is cancelled. -/
def Turn.Ends (previous : Option (List EntrySummary)) (found : Contents) (t : Turn) : Prop :=
  reports previous found.entries = true ∧ t.refresh = .error .cancelled

/-- Every poll that reports a change is followed by such a listing, until
the watch ends. -/
def Followed (lowercase : String → String) (view : ViewOptions) :
    Contents → Option (List EntrySummary) → List Turn → Prop
  | _, _, [] => True
  | shown, previous, t :: rest =>
    match t.result with
    | .ok found => ¬ t.Ends previous found → (reports previous found.entries = true →
        Refreshes lowercase view shown found t.refresh)
        ∧ Followed lowercase view found (some (fingerprint found.entries)) rest
    | .error .cancelled => True
    | .error _ => Followed lowercase view shown previous rest

-- ==== the pane

/-- The pane shows the contents of the location. -/
structure Shows (lowercase : String → String) (location : Location) (view : ViewOptions)
    (pane : PaneRequest) (contents : Contents) : Prop where
  place : ∃ snapshot, pane.snapshot = some snapshot ∧ snapshot.location = location
  full : pane.fullEntries = some (arrange lowercase view contents.entries)

variable {pane : PaneRequest} {shown : Contents}

theorem refreshPane_ok (change : ProviderChange) (listed : Contents)
    (h : Shows lowercase location view pane shown) :
    ∃ after, refreshPane lowercase location view pane change (.ok listed.entries) = some after
      ∧ Shows lowercase location view after listed := by
  obtain ⟨snapshot, hsnapshot, hlocation⟩ := h.place
  simp only [refreshPane]
  cases hstore : storeChanges lowercase pane location view change listed.entries with
  | none =>
    unfold storeChanges at hstore
    simp [hsnapshot, hlocation] at hstore
  | some both =>
    obtain ⟨stored, deltas⟩ := both
    have hstores := storeChanges_eq_some hstore
    obtain ⟨-, after, -, hafter, -, hplace, -, -⟩ := hstores.snapshot
    exact ⟨stored, rfl, ⟨after, hafter, hplace⟩, hstores.full⟩

theorem turn_ok {state : PollState} {pane : PaneRequest} {shown found : Contents} {t : Turn}
    (hresult : t.result = .ok found) (hgoes : ¬ t.Ends state.previous found)
    (h : Shows lowercase location view pane shown) :
    ∃ after, turn lowercase location view state pane t
        = some ({ previous := some (fingerprint found.entries), backoff := 1 }, after)
      ∧ (∃ snapshot, after.snapshot = some snapshot ∧ snapshot.location = location)
      ∧ (after.fullEntries = some (arrange lowercase view found.entries)
        ↔ (reports state.previous found.entries = false →
            arrange lowercase view found.entries = arrange lowercase view shown.entries)
          ∧ (reports state.previous found.entries = true →
            Refreshes lowercase view shown found t.refresh)) := by
  have hsame : ∀ {pane' : PaneRequest} {contents : Contents},
      Shows lowercase location view pane' contents →
      (pane'.fullEntries = some (arrange lowercase view found.entries)
        ↔ arrange lowercase view found.entries = arrange lowercase view contents.entries) := by
    intro pane' contents hshows
    rw [hshows.full, Option.some.injEq]
    exact eq_comm
  unfold turn
  rw [hresult]
  simp only [Except.map, poll]
  cases hreports : reports state.previous found.entries with
  | false =>
    refine ⟨pane, rfl, h.place, ?_⟩
    rw [hsame h]
    simp
  | true =>
    cases hrefresh : t.refresh with
    | error error =>
      have hpassed : refreshPane lowercase location view pane .changed (.error error)
          = some pane := by
        cases error <;> first | rfl | exact absurd ⟨hreports, hrefresh⟩ hgoes
      refine ⟨pane, by simp [hpassed], h.place, ?_⟩
      rw [hsame h]
      simp [Refreshes]
    | ok listed =>
      obtain ⟨after, hafter, hshows⟩ := refreshPane_ok .changed listed h
      refine ⟨after, by simp [hafter], hshows.place, ?_⟩
      refine (hsame hshows).trans ?_
      simp [Refreshes, eq_comm]

/-- After every poll the pane shows what it found. -/
def MissesNothing (lowercase : String → String) (location : Location) (view : ViewOptions)
    (state : PollState) (pane : PaneRequest) (turns : List Turn) : Prop :=
  ∀ found ∈ processed lowercase location view state pane turns,
    found.2.fullEntries = some (arrange lowercase view found.1.entries)

variable {state : PollState}

theorem misses_nothing_cons {shown found : Contents} {t : Turn} {rest : List Turn}
    (hresult : t.result = .ok found) (h : Shows lowercase location view pane shown)
    (hrest : ∀ (next : PollState) (after : PaneRequest), next.previous
        = some (fingerprint found.entries) → Shows lowercase location view after found →
      (MissesNothing lowercase location view next after rest
        ↔ Followed lowercase view found (some (fingerprint found.entries)) rest)) :
    MissesNothing lowercase location view state pane (t :: rest)
      ↔ (reports state.previous found.entries = false →
          arrange lowercase view found.entries = arrange lowercase view shown.entries)
        ∧ Followed lowercase view shown state.previous (t :: rest) := by
  by_cases hends : t.Ends state.previous found
  · have hnone : processed lowercase location view state pane (t :: rest) = [] := by
      simp [processed, turn, poll, hresult, hends.1, hends.2, Except.map, refreshPane]
    simp [MissesNothing, Followed, hnone, hresult, hends, hends.1]
  obtain ⟨after, hturn, hplace, hfull⟩ := turn_ok hresult hends h
  have hall : MissesNothing lowercase location view state pane (t :: rest)
      ↔ after.fullEntries = some (arrange lowercase view found.entries)
        ∧ MissesNothing lowercase location view
          { previous := some (fingerprint found.entries), backoff := 1 } after rest := by
    unfold MissesNothing
    rw [processed, hturn, hresult]
    exact List.forall_mem_cons
  have hfollowed : Followed lowercase view shown state.previous (t :: rest)
      ↔ (reports state.previous found.entries = true →
          Refreshes lowercase view shown found t.refresh)
        ∧ Followed lowercase view found (some (fingerprint found.entries)) rest := by
    simp only [Followed, hresult, hends, not_false_eq_true, true_imp_iff]
  rw [hall, hfollowed]
  constructor
  · intro hboth
    obtain ⟨hshows, hmisses⟩ := hboth
    obtain ⟨hquiet, hloud⟩ := hfull.mp hshows
    exact ⟨hquiet, hloud, (hrest _ after rfl ⟨hplace, hshows⟩).mp hmisses⟩
  · intro hboth
    obtain ⟨hquiet, hloud, hfollows⟩ := hboth
    have hshows := hfull.mpr ⟨hquiet, hloud⟩
    exact ⟨hshows, (hrest _ after rfl ⟨hplace, hshows⟩).mpr hfollows⟩

theorem misses_nothing_failed {t : Turn} {rest : List Turn} {error : VfsError}
    (hresult : t.result = .error error) :
    (error = .cancelled ∧ processed lowercase location view state pane (t :: rest) = [])
    ∨ (error ≠ .cancelled ∧ ∃ next : PollState, next.previous = state.previous
      ∧ processed lowercase location view state pane (t :: rest)
        = processed lowercase location view next pane rest) := by
  by_cases hcancelled : error = .cancelled
  · left
    refine ⟨hcancelled, ?_⟩
    rw [processed, turn, hresult, hcancelled]
    rfl
  · right
    refine ⟨hcancelled, { state with
      backoff := min (state.backoff * 2) maxPollBackoffMultiplier }, rfl, ?_⟩
    have hpoll : poll state (.error error) = some ({ state with
        backoff := min (state.backoff * 2) maxPollBackoffMultiplier }, none) := by
      cases error <;> first | rfl | exact absurd rfl hcancelled
    rw [processed, turn, hresult]
    simp only [Except.map, hpoll]

theorem condition_failed {previous : Option (List EntrySummary)} {t : Turn}
    {rest : List Turn} {error : VfsError} (hresult : t.result = .error error) :
    (error = .cancelled → firstFound (t :: rest) = none
      ∧ Followed lowercase view shown previous (t :: rest))
    ∧ (error ≠ .cancelled → firstFound (t :: rest) = firstFound rest
      ∧ (Followed lowercase view shown previous (t :: rest)
        ↔ Followed lowercase view shown previous rest)) := by
  constructor
  · intro heq
    subst heq
    rw [firstFound, Followed, hresult]
    exact ⟨rfl, trivial⟩
  · intro hcancelled
    rw [firstFound, Followed, hresult]
    cases error <;> first | exact ⟨rfl, Iff.rfl⟩ | exact absurd rfl hcancelled

theorem misses_nothing_iff_followed {turns : List Turn}
    (hprevious : state.previous = some (fingerprint shown.entries))
    (h : Shows lowercase location view pane shown) :
    MissesNothing lowercase location view state pane turns
      ↔ Followed lowercase view shown state.previous turns := by
  induction turns generalizing shown state pane with
  | nil => exact ⟨fun _ => trivial, fun _ found hfound => by cases hfound⟩
  | cons t rest ih =>
    cases hresult : t.result with
    | ok found =>
      rw [misses_nothing_cons hresult h fun next after hnext hafter => by
        rw [← hnext]
        exact ih hnext hafter]
      refine and_iff_right fun hquiet => ?_
      rw [hprevious] at hquiet
      exact arrange_eq_of_not_reports hquiet
    | error error =>
      obtain ⟨hlast, hgoes⟩ := @condition_failed lowercase view shown state.previous t rest
        error hresult
      unfold MissesNothing
      rcases misses_nothing_failed hresult with
        ⟨hcancelled, hnone⟩ | ⟨hcancelled, next, hnext, hrest⟩
      · rw [hnone]
        exact ⟨fun _ => (hlast hcancelled).2, fun _ found hfound => by cases hfound⟩
      · rw [hrest, (hgoes hcancelled).2, ← hnext]
        exact ih (hnext.trans hprevious) h

/-- After each poll the pane shows what the poll found, exactly when the
first poll finds what the pane shows or is reported against an older
poll, and the listings that polls set off find what the polls found. -/
theorem polled_watch_misses_nothing_iff {shown : Contents} {existing : Option PollState}
    {pane : PaneRequest} {turns : List Turn} (h : Shows lowercase location view pane shown) :
    MissesNothing lowercase location view (acquire existing) pane turns
      ↔ SeededWith lowercase view shown (acquire existing).previous turns
        ∧ Followed lowercase view shown (acquire existing).previous turns := by
  generalize acquire existing = state
  induction turns generalizing state with
  | nil =>
    refine ⟨fun _ => ⟨fun found hfound => ?_, trivial⟩, fun _ found hfound => ?_⟩ <;> cases hfound
  | cons t rest ih =>
    cases hresult : t.result with
    | ok found =>
      rw [misses_nothing_cons hresult h fun next after hnext hafter => by
        rw [← hnext]
        exact misses_nothing_iff_followed hnext hafter]
      refine and_congr_left fun _ => ?_
      unfold SeededWith
      rw [firstFound, hresult]
      simp
    | error error =>
      obtain ⟨hlast, hgoes⟩ := @condition_failed lowercase view shown state.previous t rest
        error hresult
      unfold MissesNothing SeededWith
      rcases misses_nothing_failed hresult with
        ⟨hcancelled, hnone⟩ | ⟨hcancelled, next, hnext, hrest⟩
      · rw [hnone, (hlast hcancelled).1]
        refine ⟨fun _ => ⟨fun found hfound => ?_, (hlast hcancelled).2⟩, fun _ found hfound => ?_⟩
        · cases hfound
        · cases hfound
      · rw [hrest, (hgoes hcancelled).1, (hgoes hcancelled).2, ← hnext]
        exact ih next

-- ==== the samples

/-- A directory of two files, and the same with a third. -/
def twoFiles : Contents := ⟨sampleListing 0 2, by decide +kernel, by decide +kernel⟩

def threeFiles : Contents := ⟨sampleListing 0 3, by decide +kernel, by decide +kernel⟩

def remoteLocation : Location where
  providerId := "sftp"
  uri := { authority := "server", segments := ["home"] }

/-- The first page of the remote directory. -/
def remoteRequest : ListDirectoryRequest := { sampleRequest 1 none with location := remoteLocation }

def twoFilesPane : PaneRequest where
  requestId := 1
  watchToken := 0
  revision := 1
  view := remoteRequest.view
  snapshot := some (pageSnapshot remoteRequest
    (arrange id remoteRequest.view twoFiles.entries) 0 1 true)
  fullEntries := some (arrange id remoteRequest.view twoFiles.entries)

theorem twoFilesPane_shows : Shows id remoteLocation remoteRequest.view twoFilesPane twoFiles :=
  ⟨⟨_, rfl, rfl⟩, rfl⟩

/-- A file that comes after the first poll, with a failed poll before it,
is shown. -/
theorem polled_watch_misses_nothing_iff_later :
    MissesNothing id remoteLocation remoteRequest.view (acquire none) twoFilesPane
      [{ result := .ok twoFiles, refresh := .ok twoFiles },
        { result := .error (.io "timeout"), refresh := .ok twoFiles },
        { result := .ok threeFiles, refresh := .ok threeFiles }] := by
  refine (polled_watch_misses_nothing_iff twoFilesPane_shows).mpr ⟨?_, ?_⟩
  · intro found hfound _
    cases hfound
    rfl
  · exact fun _ => ⟨fun _ => rfl, fun _ => ⟨fun _ => rfl, trivial⟩⟩

/-- A file that comes before the first poll is not, and no later poll
reports it. -/
theorem change_before_first_poll_missed :
    ¬ MissesNothing id remoteLocation remoteRequest.view (acquire none) twoFilesPane
      [{ result := .ok threeFiles, refresh := .ok threeFiles },
        { result := .ok threeFiles, refresh := .ok threeFiles }] := by
  intro hmisses
  have hlast := hmisses (threeFiles, twoFilesPane) (by
    rw [processed]
    exact List.mem_cons_self)
  exact absurd hlast (by decide +kernel)

end FileManager.Directory.Poll
