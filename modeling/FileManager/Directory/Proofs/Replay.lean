/-
Delta replay: what a client holds after pages and deltas, against the
pane's listing.

# The argument

A client that has loaded pages of a listing holds the part of it that it
was sent. The deltas of a change are the difference from the stored
snapshot, so the client follows where it held exactly what that snapshot
has.

The stored snapshot is the page that was answered last. Once a
continuation page has replaced it, the client holds more than the
snapshot, and the next difference is wrong: entries of earlier pages are
reported as added, and never as removed. `Replayable` asks for the
contrary at every difference, and that a continuation page is cut from
the listing the client has its other pages from.
-/
import FileManager.Directory.Proofs.Diff
import FileManager.Directory.Service
import FileManager.Lib.Fallible

namespace FileManager.Directory

open Machine DirectoryDelta List Fallible
open EntrySummary (payload)
open Client (applyDelta)

variable {lowercase : String → String} {s s' : State} {entries : List EntrySummary}

-- ==== the condition

def State.listing (s : State) : Option (List EntrySummary) := s.pane.bind PaneRequest.fullEntries

def State.isNewest (s : State) (call : ListCall) : Bool :=
  match s.pane with
  | some state => decide (state.requestId = call.request.requestId)
  | none => false

/-- The snapshot that the pending change of a watch is diffed against. -/
def State.diffedAgainst (s : State) (w : Nat) : Option DirectorySnapshot :=
  match s.watches[w]?, s.pane.bind PaneRequest.snapshot with
  | some watch, some previous =>
    if watch.pending = some .changed ∧ previous.location = watch.location
    then some previous else none
  | _, _ => none

/-- The client's identifiers are the listing's. -/
def SameIds (held : List EntryId) (listing : List EntrySummary) : Prop :=
  (∀ id ∈ held, ∃ entry ∈ listing, entry.id = id) ∧ ∀ entry ∈ listing, entry.id ∈ held

instance (held : List EntryId) (listing : List EntrySummary) : Decidable (SameIds held listing) :=
  inferInstanceAs (Decidable (_ ∧ _))

/-- The steps after which deltas can be replayed: listings name every
entry once; a continuation page is cut from the pane's current listing,
and meets a client that no delta has reached since its last page; a
difference is taken from the snapshot that has what the client holds. -/
def Replayable (lowercase : String → String) (s : State) : Action → Prop
  | .answer i enumerated _ _ _ =>
    (∀ entries ∈ enumerated.toOption, Distinct entries)
      ∧ ∀ call ∈ s.calls[i]?, s.isNewest call = true →
        call.request.continuationToken ≠ none →
        s.client.shown.entries = s.client.pages.entries ∧ ∀ entries ∈ enumerated.toOption,
            s.listing = some (call.listing lowercase entries)
  | .publish w enumerated =>
    ∀ entries ∈ enumerated.toOption, Distinct entries
      ∧ ∀ previous ∈ s.diffedAgainst w, s.client.refetching = false →
        SameIds (s.client.shown.entries.map EntrySummaryPayload.id) previous.entries
  | _ => True

instance (lowercase : String → String) (s : State) (a : Action) :
    Decidable (Replayable lowercase s a) :=
  match a with
  | .answer .. => inferInstanceAs (Decidable (_ ∧ _))
  | .publish .. => inferInstanceAs (Decidable (∀ _ ∈ _, _ ∧ _))
  | .request .. | .change .. | .refresh => .isTrue trivial

-- ==== the invariant

/-- The client shows what it knows of the listing. -/
def Agrees (client : Client) (full : List EntrySummary) : Prop :=
  ∀ p, p ∈ client.shown.entries ↔ ∃ entry ∈ full, entry.id ∈ client.known ∧ entry.payload = p

/-- The client's views are not ahead of a revision. -/
def Client.Behind (client : Client) (n : Nat) : Prop :=
  ∀ r, client.shown.revision = some r ∨ client.pages.revision = some r → r ≤ n

def State.revision (s : State) : Nat :=
  match s.pane with
  | some state => state.revision
  | none => 0

/-- What was held and is gone is reported as removed, and nothing that
was held is reported as added. -/
structure Publication.Reports (p : Publication) : Prop where
  removed : ∀ id ∈ p.held, (∀ entry ∈ p.listing, entry.id ≠ id) →
    id ∈ p.deltas.flatMap removedIds
  added : ∀ id ∈ p.deltas.flatMap addedIds, id ∉ p.held

/-- The pane and the client, between steps. -/
structure Replayed (s : State) : Prop where
  behind : s.client.Behind s.revision
  stored : ∀ state snapshot, s.pane = some state → state.snapshot = some snapshot →
    ∃ full, state.fullEntries = some full ∧ snapshot.entries.Sublist full
  distinct : ∀ full, s.listing = some full → Distinct full
  cached : ∀ call ∈ s.calls, ∀ full, call.cached = some full → Distinct full
  agrees : s.client.refetching = false → ∀ full, s.listing = some full →
    Agrees s.client full
  reported : ∀ p ∈ s.published, p.change = .changed → p.refetching = false → p.Reports

theorem replayed_initial : Replayed initial where
  behind := by rintro r (h | h) <;> cases h
  stored := by intro state snapshot h; cases h
  distinct := by intro full h; cases h
  cached := by intro call h; cases h
  agrees := by intro _ full h; cases h
  reported := by intro p h; cases h

theorem Replayed.of_eq (h : Replayed s) (hpane : s'.pane = s.pane)
    (hclient : s'.client = s.client) (hpublished : s'.published = s.published)
    (hcached : ∀ call ∈ s'.calls, ∀ full, call.cached = some full → Distinct full) :
    Replayed s' := by
  have hlisting : s'.listing = s.listing := by rw [State.listing, hpane, State.listing]
  have hrevision : s'.revision = s.revision := by rw [State.revision, hpane, State.revision]
  constructor
  · rw [hclient, hrevision]
    exact h.behind
  · rw [hpane]
    exact h.stored
  · rw [hlisting]
    exact h.distinct
  · exact hcached
  · rw [hclient, hlisting]
    exact h.agrees
  · rw [hpublished]
    exact h.reported

-- ==== listings

theorem distinct_arrange {view : ViewOptions} (h : Distinct entries) :
    Distinct (arrange lowercase view entries) := by
  unfold arrange sortEntries Distinct
  refine ((perm_insertionSort _ _).map _).nodup_iff.mpr ?_
  split
  case isTrue => exact h
  case isFalse => exact h.sublist (filter_sublist.map _)

theorem distinct_listing {call : ListCall}
    (hcached : ∀ full, call.cached = some full → Distinct full) (h : Distinct entries) :
    Distinct (call.listing lowercase entries) := by
  unfold ListCall.listing
  split
  case h_1 cached hc => exact hcached cached hc
  case h_2 => exact distinct_arrange h

theorem pageSnapshot_sublist (request : ListDirectoryRequest)
    (full : List EntrySummary) (offset revision : Nat) (writable : Bool) :
    (pageSnapshot request full offset revision writable).entries.Sublist full :=
  (take_sublist _ _).trans (drop_sublist _ _)

-- ==== pages and clients

section Client

variable {client : Client} {full page : List EntrySummary} {request : ListDirectoryRequest}
  {n : Nat}

theorem Client.Behind.mono {m : Nat} (h : client.Behind n) (hle : n ≤ m) : client.Behind m :=
  fun r hr => Nat.le_trans (h r hr) hle

theorem Client.Behind.fail (h : client.Behind n) (retry : Bool) :
    (client.fail request retry).Behind n := by
  unfold Client.fail
  split
  case h_1 =>
    split
    case isTrue => exact h
    case isFalse => rintro r (hr | hr) <;> cases hr
  case h_2 =>
    intro r hr
    exact h r (.inr (hr.elim id id))

theorem Agrees.fail {retry : Bool}
    (hfirst : request.continuationToken ≠ none → client.refetching = false → Agrees client full)
    (hpages : request.continuationToken ≠ none → client.shown.entries = client.pages.entries)
    (hfollows : (client.fail request retry).refetching = false) :
    Agrees (client.fail request retry) full := by
  unfold Client.fail at hfollows ⊢
  split
  case h_1 hnone =>
    rw [hnone] at hfollows
    split
    case isTrue hretry =>
      rw [if_pos hretry] at hfollows
      cases hfollows
    case isFalse =>
      -- the error view shows nothing, and nothing is known
      intro p
      simp
  case h_2 token hsome =>
    rw [hsome] at hfollows
    have htoken : request.continuationToken ≠ none := by rw [hsome]; exact nofun
    intro p
    rw [show ({ client with shown := client.pages } : Client).shown.entries
      = client.shown.entries from (hpages htoken).symm]
    exact hfirst htoken hfollows p

theorem mem_ids_of_mem {entry : EntrySummary} :
    entry.id ∈ (page.map payload).map EntrySummaryPayload.id
      ↔ ∃ other ∈ page, other.id = entry.id := by
  simp

theorem mem_page_iff (hsub : page ⊆ full) (hdistinct : Distinct full) {p : EntrySummaryPayload} :
    p ∈ page.map payload ↔ ∃ entry ∈ full, entry.id ∈ (page.map payload).map EntrySummaryPayload.id
          ∧ entry.payload = p := by
  constructor
  · intro hp
    obtain ⟨entry, hentry, rfl⟩ := mem_map.mp hp
    exact ⟨entry, hsub hentry, mem_ids_of_mem.mpr ⟨entry, hentry, rfl⟩, rfl⟩
  · intro hfound
    obtain ⟨entry, hentry, hid, rfl⟩ := hfound
    obtain ⟨other, hother, hsame⟩ := mem_ids_of_mem.mp hid
    rw [← hdistinct.eq (hsub hother) hentry hsame]
    exact mem_map.mpr ⟨other, hother, rfl⟩

theorem Agrees.receive {snapshot : DirectorySnapshot} (hsub : snapshot.entries ⊆ full)
    (hdistinct : Distinct full)
    (hbefore : request.continuationToken ≠ none →
      client.shown.entries = client.pages.entries ∧ (client.refetching = false →
      Agrees client full))
    (hfollows : (client.receive request snapshot).refetching = false) :
    Agrees (client.receive request snapshot) full := by
  unfold Client.receive at hfollows ⊢
  dsimp only at hfollows ⊢
  split
  case h_1 => intro p; exact mem_page_iff hsub hdistinct
  case h_2 token hsome =>
    rw [hsome] at hfollows
    have htoken : request.continuationToken ≠ none := by rw [hsome]; exact nofun
    obtain ⟨hpages, hagrees⟩ := hbefore htoken
    intro p
    show p ∈ client.pages.entries ++ snapshot.entries.map payload ↔ _
    rw [mem_append, ← hpages, hagrees hfollows p, mem_page_iff hsub hdistinct]
    constructor
    · intro hcase
      rcases hcase with ⟨entry, hentry, hid, rfl⟩ | ⟨entry, hentry, hid, rfl⟩
      · exact ⟨entry, hentry, mem_append_left _ hid, rfl⟩
      · exact ⟨entry, hentry, mem_append_right _ hid, rfl⟩
    · intro hfound
      obtain ⟨entry, hentry, hid, rfl⟩ := hfound
      rcases mem_append.mp hid with hid | hid
      · exact .inl ⟨entry, hentry, hid, rfl⟩
      · exact .inr ⟨entry, hentry, hid, rfl⟩

theorem behind_receive (client : Client) (request : ListDirectoryRequest)
    (snapshot : DirectorySnapshot) :
    (client.receive request snapshot).Behind snapshot.revision := by
  unfold Client.receive
  dsimp only
  split
  all_goals
    intro r hcase
    rcases hcase with hr | hr
    · cases hr; exact le_rfl
    · cases hr; exact le_rfl

end Client

-- ==== list

theorem continuesListing_eq {previous : Option PaneRequest} {request : ListDirectoryRequest}
    {state : PaneRequest} (h : continuesListing previous request = some state) :
    previous = some state ∧ request.continuationToken ≠ none := by
  unfold continuesListing at h
  split at h
  case h_1 token state' htoken =>
    split at h
    case h_1 =>
      split at h
      case isTrue => cases h; exact ⟨rfl, by rw [htoken]; exact nofun⟩
      case isFalse => cases h
    case h_2 => cases h
  case h_2 => cases h

theorem Replayed.register (h : Replayed s) (request : ListDirectoryRequest)
    (background : Bool) : Replayed (register s request background) := by
  unfold Directory.register
  dsimp only
  split
  case h_1 previous hcontinues =>
    obtain ⟨hpane, htoken⟩ := continuesListing_eq hcontinues
    have hclient : s.client.request request background = s.client := by
      unfold Client.request
      rw [if_neg (fun hc => htoken hc.1)]
    have hlisting : s.listing = previous.fullEntries := by rw [State.listing, hpane]; rfl
    have hrevision : s.revision = previous.revision := by rw [State.revision, hpane]
    rw [hclient]
    refine ⟨?_, ?_, ?_, ?_, ?_, h.reported⟩
    · have hbehind := h.behind
      rw [hrevision] at hbehind
      exact hbehind
    · intro state snapshot hs hsnapshot
      cases hs
      exact h.stored previous snapshot hpane hsnapshot
    · intro full hfull
      exact h.distinct full (hlisting.trans hfull)
    · intro call hcall full hfull
      rcases mem_append.mp hcall with hold | hnew
      · exact h.cached call hold full hfull
      · rw [mem_singleton.mp hnew] at hfull
        exact h.distinct full (hlisting.trans hfull)
    · intro hfollows full hfull
      exact h.agrees hfollows full (hlisting.trans hfull)
  case h_2 =>
    refine ⟨?_, ?_, ?_, ?_, ?_, h.reported⟩
    · intro r hr
      refine h.behind r ?_
      revert hr
      dsimp only
      unfold Client.request
      split
      case isTrue => rintro (hr | hr) <;> cases hr
      case isFalse => exact id
    · intro state snapshot hs hsnapshot
      cases hs
      cases hsnapshot
    · intro full hfull
      cases hfull
    · intro call hcall full hfull
      rcases mem_append.mp hcall with hold | hnew
      · exact h.cached call hold full hfull
      · rw [mem_singleton.mp hnew] at hfull
        cases hfull
    · intro _ full hfull
      cases hfull

section Answer

variable {state : PaneRequest} {call : ListCall} {full : List EntrySummary} {writable retry : Bool}
  {watch : WatchOutcome}

theorem Replayed.storePage (h : Replayed s) (hpane : s.pane = some state)
    (hdistinct : Distinct full)
    (hcontinues : call.request.continuationToken ≠ none →
      s.client.shown.entries = s.client.pages.entries ∧ s.listing = some full)
    {offset : Nat} :
    Replayed (storePage s state call full offset writable retry watch) := by
  have hrevision : s.revision = state.revision := by rw [State.revision, hpane]
  have hbehind : s.client.Behind (state.revision + 1) := (hrevision ▸ h.behind).mono (Nat.le_succ _)
  have hsub := pageSnapshot_sublist call.request full offset (state.revision + 1) writable
  have hbefore : call.request.continuationToken ≠ none →
      s.client.shown.entries = s.client.pages.entries
        ∧ (s.client.refetching = false → Agrees s.client full) := by
    intro htoken
    obtain ⟨hpages, hlisting⟩ := hcontinues htoken
    exact ⟨hpages, fun hfollows => h.agrees hfollows full hlisting⟩
  -- the three ends differ in the watches and in the client only
  have hends : ∀ (watches : List PaneWatch) (client : Client), client.Behind (state.revision + 1) →
      (client.refetching = false → Agrees client full) →
      Replayed { s with
        pane := some { state with
          revision := state.revision + 1
          fullEntries := some full
          snapshot := some (pageSnapshot call.request full offset (state.revision + 1) writable) }
        watches := watches
        client := client } := by
    intro watches client hclient hagrees
    refine ⟨hclient, ?_, ?_, h.cached, ?_, h.reported⟩
    · intro state' snapshot hs hsnapshot
      cases hs
      cases hsnapshot
      exact ⟨full, rfl, hsub⟩
    · intro full' hfull
      cases hfull
      exact hdistinct
    · intro hfollows full' hfull
      cases hfull
      exact hagrees hfollows
  have hreceive := hends s.watches (s.client.receive call.request
      (pageSnapshot call.request full offset (state.revision + 1) writable))
    (behind_receive _ _ _) (Agrees.receive hsub.subset hdistinct hbefore)
  unfold Directory.storePage
  dsimp only
  split
  case h_1 _ _ hnone =>
    refine hends s.watches _ (hbehind.fail retry) (Agrees.fail ?_ ?_)
    · intro htoken
      exact absurd hnone htoken
    · intro htoken
      exact absurd hnone htoken
  case h_2 => exact hends _ _ hreceive.behind (fun hfollows => hreceive.agrees hfollows full rfl)
  case h_3 => exact hreceive

theorem Replayed.answer (h : Replayed s) {i : Nat}
    {enumerated : Except VfsError (List EntrySummary)} (hcall : s.calls[i]? = some call)
    (hok : Replayable lowercase s (.answer i enumerated writable retry watch)) :
    Replayed (answer lowercase s i call enumerated writable retry watch) := by
  obtain ⟨henumerated, hcontinues⟩ := hok
  have hmarked : Replayed { s with calls := s.calls.set i { call with answered := true } } := by
    refine h.of_eq rfl rfl rfl ?_
    intro other hother full hfull
    rcases mem_or_eq_of_mem_set hother with hold | rfl
    · exact h.cached other hold full hfull
    · exact h.cached call (mem_of_getElem? hcall) full hfull
  unfold Directory.answer
  dsimp only
  split
  case h_1 => exact hmarked
  case h_2 state hpane =>
    split
    case isFalse => exact hmarked
    case isTrue hrequest =>
      have hnewest : s.isNewest call = true := by
        simp only [State.isNewest, hpane, hrequest, decide_true]
      have hthen := hcontinues call hcall hnewest
      cases hprepare : prepare lowercase call enumerated with
      | error error =>
        refine ⟨hmarked.behind.fail retry, hmarked.stored, hmarked.distinct,
          hmarked.cached, ?_, hmarked.reported⟩
        intro hfollows full hfull
        refine Agrees.fail ?_ (fun htoken => (hthen htoken).1) hfollows
        intro _ hclient
        exact hmarked.agrees hclient full hfull
      | ok page =>
        obtain ⟨full, offset⟩ := page
        cases henum : enumerated with
        | error error => rw [henum] at hprepare; cases hprepare
        | ok entries =>
          rw [henum] at hprepare henumerated hthen
          have hfull : full = call.listing lowercase entries := by
            unfold prepare at hprepare
            dsimp only at hprepare
            split at hprepare
            case h_1 => cases hprepare
            case h_2 =>
              obtain ⟨-, hprepare⟩ := passed hprepare nofun
              cases hprepare; rfl
          have hentries : Distinct entries := henumerated entries rfl
          refine hmarked.storePage hpane ?_ ?_
          · rw [hfull]
            exact distinct_listing (h.cached call (mem_of_getElem? hcall)) hentries
          · intro htoken
            obtain ⟨hpages, hlisting⟩ := hthen htoken
            rw [hfull]
            exact ⟨hpages, hlisting entries rfl⟩

end Answer

-- ==== published changes

section Publish

variable {client : Client} {previous current full : List EntrySummary} {n : Nat}
  {delta : DirectoryDelta} {deltas : List DirectoryDelta}

theorem applyDelta_behind (h : client.Behind n)
    (hle : delta.revision ≤ n) : (client.applyDelta delta).Behind n := by
  have hdisplay : ∀ (c : Client) entries, c.pages = client.pages →
      (c.display delta.revision entries).Behind n := by
    intro c entries hpages r hcase
    rcases hcase with hr | hr
    · cases hr
      exact hle
    · exact h r (.inr (hpages ▸ hr))
  unfold applyDelta
  split
  case h_1 => exact h
  case h_2 =>
    split
    case isTrue => exact h
    case isFalse =>
      cases delta with
      | reset snapshot => exact hdisplay client _ rfl
      | _ =>
        dsimp only
        split
        case isTrue => exact h
        case isFalse => exact hdisplay client _ rfl

theorem foldl_applyDelta_behind (h : client.Behind n) (hle : ∀ delta ∈ deltas, delta.revision ≤ n) :
    (deltas.foldl applyDelta client).Behind n := by
  induction deltas generalizing client with
  | nil => exact h
  | cons delta rest ih =>
    refine ih (applyDelta_behind h (hle delta mem_cons_self)) ?_
    intro d hd
    exact hle d (mem_cons_of_mem _ hd)

theorem applyDelta_gap (hreset : ∀ snapshot, delta ≠ .reset snapshot)
    (hgap : ∀ r, client.shown.revision = some r → r + 1 < delta.revision) :
    client.applyDelta delta = { client with refetching := true } := by
  unfold applyDelta
  split
  case h_1 => rfl
  case h_2 r hr =>
    have hlt := hgap r hr
    rw [if_neg (by omega)]
    cases delta with
    | reset snapshot => exact absurd rfl (hreset snapshot)
    | entriesAdded next entries | entriesUpdated next entries | entriesRemoved next entryIds =>
      have hne : next ≠ r + 1 := fun h => by rw [revision] at hlt; omega
      exact if_pos hne

theorem foldl_applyDelta_gap (hreset : ∀ delta ∈ deltas, ∀ snapshot, delta ≠ .reset snapshot)
    (hgap : ∀ delta ∈ deltas, ∀ r, client.shown.revision = some r → r + 1 < delta.revision)
    (hne : deltas ≠ []) : (deltas.foldl applyDelta client).refetching = true := by
  have hall : ∀ c : Client, c.shown = client.shown → c.refetching = true →
      ∀ rest ⊆ deltas, (rest.foldl applyDelta c).refetching = true := by
    intro c hshown hc rest hrest
    induction rest generalizing c with
    | nil => exact hc
    | cons delta rest ih =>
      rw [cons_subset] at hrest
      rw [foldl_cons, applyDelta_gap (hreset delta hrest.1)
        (fun r hr => hgap delta hrest.1 r (hshown ▸ hr))]
      exact ih _ hshown rfl hrest.2
  cases deltas with
  | nil => exact absurd rfl hne
  | cons delta rest =>
    rw [foldl_cons, applyDelta_gap (hreset delta mem_cons_self) (hgap delta mem_cons_self)]
    exact hall { client with refetching := true } rfl rfl rest (subset_cons_self _ _)

theorem refetching_of_foldl (hreset : ∀ delta ∈ deltas, ∀ snapshot, delta ≠ .reset snapshot)
    (h : (deltas.foldl applyDelta client).refetching = false) :
    client.refetching = false := by
  induction deltas generalizing client with
  | nil => exact h
  | cons delta rest ih =>
    have hafter := ih (fun d hd => hreset d (mem_cons_of_mem _ hd)) h
    have hdelta := hreset delta mem_cons_self
    unfold applyDelta at hafter
    split at hafter
    case h_1 => cases hafter
    case h_2 =>
      split at hafter
      case isTrue => exact hafter
      case isFalse =>
        cases delta with
        | reset snapshot => exact absurd rfl (hdelta snapshot)
        | _ =>
          dsimp only at hafter
          split at hafter
          case isTrue => cases hafter
          case isFalse => exact hafter

theorem Agrees.shows (h : Agrees client full) (hdistinct : Distinct full) (hsub : previous ⊆ full)
    (hids : SameIds (client.shown.entries.map EntrySummaryPayload.id) previous) :
    Shows client.shown.entries previous := by
  intro p
  constructor
  · intro hp
    obtain ⟨entry, hentry, -, rfl⟩ := (h p).mp hp
    obtain ⟨other, hother, hid⟩ := hids.1 _ (mem_map.mpr ⟨_, hp, rfl⟩)
    exact ⟨other, hother, by rw [hdistinct.eq (hsub hother) hentry hid]⟩
  · intro hfound
    obtain ⟨entry, hentry, rfl⟩ := hfound
    obtain ⟨q, hq, hid⟩ := mem_map.mp (hids.2 entry hentry)
    obtain ⟨other, hother, -, rfl⟩ := (h q).mp hq
    rw [← hdistinct.eq hother (hsub hentry) hid]
    exact hq

theorem diffEntries_eq_nil {revision : Nat} (h : diffEntries previous current revision = []) :
    addedEntries previous current = [] ∧ updatedEntries previous current = []
      ∧ removedEntries previous current = [] := by
  unfold diffEntries at h
  dsimp only at h
  simp only [append_eq_nil_iff, ite_eq_left_iff, cons_ne_nil, imp_false,
    not_not, map_eq_nil_iff] at h
  exact ⟨h.1.1, h.1.2, h.2⟩

theorem Agrees.diff (h : client.refetching = false → Agrees client full)
    (hfull : Distinct full) (hprevious : previous.Sublist full)
    (hcurrent : Distinct current) (hbehind : client.Behind n) (hids : client.refetching = false →
      SameIds (client.shown.entries.map EntrySummaryPayload.id) previous)
    (hfollows : ((diffEntries previous current (n + 1)).foldl applyDelta
      client).refetching = false) :
    Agrees ((diffEntries previous current (n + 1)).foldl applyDelta client) current := by
  have hreset : ∀ delta ∈ diffEntries previous current (n + 1),
      ∀ snapshot, delta ≠ .reset snapshot := fun _ hd => diffEntries_ne_reset hd
  have hbefore := refetching_of_foldl hreset hfollows
  have hagrees := h hbefore
  have hshows := hagrees.shows hfull hprevious.subset (hids hbefore)
  have hdistinct : Distinct previous := hfull.sublist (hprevious.map _)
  -- what the snapshot has is known already
  have hknown : ∀ old ∈ previous, old.id ∈ client.known := by
    intro old hold
    obtain ⟨entry, -, hid, hentry⟩ := (hagrees _).mp ((hshows _).mpr ⟨old, hold, rfl⟩)
    rw [show old.id = entry.id from congrArg EntrySummaryPayload.id hentry.symm]
    exact hid
  have hend : ∀ c : Client, Shows c.shown.entries current →
      c.known = client.known ++ ((addedEntries previous current).map
        payload).map EntrySummaryPayload.id → Agrees c current := by
    intro c hc hcknown p
    rw [hc p, hcknown]
    refine exists_congr fun entry => and_congr_right fun hentry => ?_
    refine (and_iff_right ?_).symm
    by_cases hold : ∃ old ∈ previous, old.id = entry.id
    · obtain ⟨old, hmem, hid⟩ := hold
      exact mem_append_left _ (hid ▸ hknown old hmem)
    · refine mem_append_right _ (mem_ids_of_mem.mpr ⟨entry, ?_, rfl⟩)
      exact mem_addedEntries.mpr ⟨hentry, fun old hmem hid => hold ⟨old, hmem, hid⟩⟩
  by_cases hcurrentRevision : client.shown.revision = some n
  · obtain ⟨client', heq, -, hknown', hshows'⟩ :=
      foldl_diffEntries hcurrentRevision hdistinct hcurrent hshows
    rw [heq]
    exact hend client' hshows' hknown'
  · -- a client behind the pane follows only where there is nothing to follow
    have hnil : diffEntries previous current (n + 1) = [] := by
      by_contra hne
      have hgap : ∀ delta ∈ diffEntries previous current (n + 1), ∀ r,
          client.shown.revision = some r → r + 1 < delta.revision := by
        intro delta hd r hr
        have hle := hbehind r (.inl hr)
        have hlow := (diffEntries_revision hd).1
        have hne : r ≠ n := fun h => hcurrentRevision (h ▸ hr)
        omega
      rw [foldl_applyDelta_gap hreset hgap hne] at hfollows
      cases hfollows
    obtain ⟨hadded, hupdated, hremoved⟩ := diffEntries_eq_nil hnil
    rw [hnil]
    refine hend client ?_ (by rw [hadded]; simp)
    let held := client.shown.entries
    refine @shows_current previous current held held held held hdistinct hcurrent hshows ?_ ?_ ?_
    · simp [hadded]
    · simp [hupdated]
    · simp [hremoved]

theorem reports_diff {held : List EntryId} (hids : SameIds held previous)
    (revision : Nat) (refetching : Bool) :
    Publication.Reports {
      change := .changed, listing := current, held := held, refetching := refetching
      deltas := diffEntries previous current revision } where
  removed := by
    intro id hid hgone
    rw [removedIds_diffEntries]
    obtain ⟨entry, hentry, rfl⟩ := hids.1 id hid
    exact mem_removedEntries.mpr ⟨entry, hentry, rfl, hgone⟩
  added := by
    intro id hid hheld
    rw [addedIds_diffEntries] at hid
    obtain ⟨entry, hentry, rfl⟩ := mem_map.mp hid
    obtain ⟨old, hold, hsame⟩ := hids.1 _ hheld
    exact (mem_addedEntries.mp hentry).2 old hold hsame

theorem Agrees.reset {snapshot : DirectorySnapshot}
    (hbehind : client.Behind n) (hlt : n < snapshot.revision)
    (hfollows : (client.applyDelta (.reset snapshot)).refetching = false) :
    Agrees (client.applyDelta (.reset snapshot)) snapshot.entries := by
  unfold applyDelta at hfollows ⊢
  split
  case h_1 hnone =>
    simp [hnone] at hfollows
  case h_2 r hr =>
    have hle := hbehind r (.inl hr)
    rw [if_neg (by rw [revision]; omega)]
    intro p
    show p ∈ snapshot.entries.map payload ↔ ∃ entry ∈ snapshot.entries,
      entry.id ∈ snapshot.entries.map (fun e => e.id) ∧ entry.payload = p
    constructor
    · intro hp
      obtain ⟨entry, hentry, rfl⟩ := mem_map.mp hp
      exact ⟨entry, hentry, mem_map.mpr ⟨entry, hentry, rfl⟩, rfl⟩
    · intro hfound
      obtain ⟨entry, hentry, -, rfl⟩ := hfound
      exact mem_map.mpr ⟨entry, hentry, rfl⟩

theorem Replayed.publishChanges (h : Replayed s) {watch : PaneWatch}
    {change : ProviderChange} {enumerated : List EntrySummary} (hdistinct : Distinct enumerated)
    (hids : ∀ state previous, s.pane = some state → state.snapshot = some previous →
      previous.location = watch.location → change = .changed → s.client.refetching = false →
      SameIds (s.client.shown.entries.map EntrySummaryPayload.id) previous.entries) :
    Replayed (publishChanges lowercase s watch change enumerated) := by
  unfold Directory.publishChanges
  dsimp only
  split
  case h_1 => exact h
  case h_2 state hpane =>
    split
    case h_1 => exact h
    case h_2 previous hprevious =>
      split
      case isFalse => exact h
      case isTrue hlocation =>
        have hcurrent : Distinct (arrange lowercase watch.view enumerated) :=
          distinct_arrange hdistinct
        have hsame := hids state previous hpane hprevious hlocation
        obtain ⟨full, hfull, hsub⟩ := h.stored state previous hpane hprevious
        have hlisting : s.listing = some full := by rw [State.listing, hpane]; exact hfull
        have hbehind : s.client.Behind state.revision := by
          have := h.behind
          rwa [State.revision, hpane] at this
        have hnext : s.client.Behind (state.revision + 1) := hbehind.mono (Nat.le_succ _)
        generalize arrange lowercase watch.view enumerated = current at hcurrent ⊢
        -- storing the new listing, whatever the deltas are
        refine ⟨?_, ?_, ?_, h.cached, ?_, ?_⟩
        · cases change with
          | resetRequired => exact applyDelta_behind hnext le_rfl
          | changed =>
            refine foldl_applyDelta_behind (hnext.mono ?_)
              (fun delta hd => (diffEntries_revision hd).2)
            show _ ≤ finalRevision _ (diffEntries previous.entries current _)
            rw [finalRevision_diffEntries]
            exact Nat.le_max_left _ _
        · intro state' snapshot hs hsnapshot
          cases hs
          cases hsnapshot
          exact ⟨current, rfl, List.Sublist.refl _⟩
        · intro full' hfull'
          cases hfull'
          exact hcurrent
        · intro hfollows full' hfull'
          cases hfull'
          cases change with
          | resetRequired => exact Agrees.reset hbehind (Nat.lt_succ_self _) hfollows
          | changed =>
            exact Agrees.diff (fun hc => h.agrees hc full hlisting)
              (h.distinct full hlisting) hsub hcurrent hbehind (hsame rfl) hfollows
        · intro p hp hchange hrefetching
          rcases mem_append.mp hp with hold | hnew
          · exact h.reported p hold hchange hrefetching
          · rw [mem_singleton.mp hnew] at hchange hrefetching ⊢
            cases hchange
            exact reports_diff (hsame rfl hrefetching) _ _

end Publish

-- ==== the runs

theorem replayed_step {a : Action} (hok : Replayable lowercase s a)
    (hs : apply lowercase a s = some s') (h : Replayed s) : Replayed s' := by
  cases a with
  | request request background =>
    cases hs
    exact h.register request background
  | answer i enumerated writable retry watch =>
    unfold apply at hs
    dsimp only at hs
    cases hcall : s.calls[i]? with
    | none => rw [hcall] at hs; cases hs
    | some call =>
      rw [hcall] at hs
      dsimp only at hs
      obtain ⟨-, hs⟩ := passed hs nofun
      cases hs; exact h.answer hcall hok
  | change w change =>
    unfold apply at hs
    dsimp only at hs
    split at hs
    case h_1 => cases hs
    case h_2 =>
      split at hs
      case h_1 =>
        obtain ⟨-, hs⟩ := passed hs nofun
        cases hs; exact h.of_eq rfl rfl rfl h.cached
      case h_2 => cases hs
  | publish w enumerated =>
    unfold apply at hs
    dsimp only at hs
    cases hwatch : s.watches[w]? with
    | none => rw [hwatch] at hs; cases hs
    | some watch =>
      rw [hwatch] at hs
      dsimp only at hs
      cases hpending : watch.pending with
      | none => rw [hpending] at hs; cases hs
      | some change =>
        rw [hpending] at hs
        have hidle : Replayed { s with
            watches := s.watches.set w { watch with pending := none } } :=
          h.of_eq rfl rfl rfl h.cached
        cases enumerated with
        | error error => cases hs; exact hidle
        | ok entries =>
          cases hs
          obtain ⟨hdistinct, hids⟩ := hok entries rfl
          refine hidle.publishChanges hdistinct ?_
          intro state previous hpane hprevious hlocation hchange
          refine hids previous ?_
          have hpane' : s.pane = some state := hpane
          simp only [State.diffedAgainst, hwatch, hpane', Option.bind_some, hprevious]
          rw [if_pos ⟨by rw [hpending, hchange], hlocation⟩]
          rfl
  | refresh =>
    unfold apply collect at hs
    dsimp only at hs
    split at hs
    case h_1 => cases hs
    case h_2 =>
      split at hs
      case h_1 => cases hs
      case h_2 => cases hs; exact h.of_eq rfl rfl rfl h.cached

theorem replayed_run {acts : List Action}
    (hrun : Run (apply lowercase) (Replayable lowercase) initial acts s) : Replayed s :=
  Run.invariant replayed_initial (fun _ hok hs h => replayed_step hok hs h) hrun

/-- The client that replays the deltas over its pages holds the entries
it was sent; what is gone is reported as removed, and nothing that it
holds as added. -/
theorem deltas_replay {acts : List Action}
    (hrun : Run (apply lowercase) (Replayable lowercase) initial acts s) :
    (s.client.refetching = false → ∀ full, s.listing = some full →
      ∀ p, p ∈ s.client.shown.entries
        ↔ ∃ entry ∈ full, entry.id ∈ s.client.known ∧ entry.payload = p)
      ∧ ∀ p ∈ s.published, p.change = .changed → p.refetching = false →
        (∀ id ∈ p.held, (∀ entry ∈ p.listing, entry.id ≠ id) →
          id ∈ p.deltas.flatMap removedIds)
          ∧ ∀ id ∈ p.deltas.flatMap addedIds, id ∉ p.held := by
  have h := replayed_run hrun
  refine ⟨h.agrees, ?_⟩
  intro p hp hchange hrefetching
  have hreports := h.reported p hp hchange hrefetching
  exact ⟨hreports.removed, hreports.added⟩

-- ==== the samples

def sampleLocation : Location where
  providerId := "local"
  uri := { authority := "", segments := ["home"] }

/-- A file of the sample directory. -/
def sampleEntry (i : Nat) : EntrySummary where
  id := i
  location := { sampleLocation with
    uri := { authority := "", segments := ["home", toString i] } }
  name := toString i
  kind := .file
  size := some i
  modifiedAt := none
  createdAt := none
  hidden := false
  readOnly := false
  extension := none
  mimeType := none
  iconKey := none
  metadataRevision := 0
  gitStatus := none

/-- A directory of `n` files, without its first `k`. -/
def sampleListing (k n : Nat) : List EntrySummary := (List.range' k (n - k)).map sampleEntry

def sampleRequest (requestId : RequestId) (token : Option ContinuationToken) :
    ListDirectoryRequest where
  requestId := requestId
  location := sampleLocation
  continuationToken := token
  view := { showHidden := false, foldersFirst := true, showGitStatus := false
            sort := [{ columnId := "core.size", direction := .ascending }] }

/-- One page of the sample directory, then a change without its first
file: the client holds the rest. -/
theorem deltas_replay_one_page :
    ∃ acts s, Run (apply id) (Replayable id) initial acts s ∧ s.client.refetching = false
      ∧ s.listing = some (sampleListing 1 3)
      ∧ (∀ p, p ∈ s.client.shown.entries
        ↔ ∃ entry ∈ sampleListing 1 3, entry.id ∈ s.client.known ∧ entry.payload = p) := by
  obtain ⟨s, hrun, hfollows, hlisting⟩ := Run.exists_of_guardedRun
    (show (guardedRun (apply id) (Replayable id) initial [.request (sampleRequest 1 none) false,
        .answer 0 (.ok (sampleListing 0 3)) true false .acquired,
        .change 0 .changed, .publish 0 (.ok (sampleListing 1 3))]).any
      (fun s => decide (s.client.refetching = false ∧ s.listing = some (sampleListing 1 3))) = true
      from by decide +kernel)
  exact ⟨_, s, hrun, hfollows, hlisting, (deltas_replay hrun).1 hfollows _ hlisting⟩

/-- A change without the first of 257 files: it is not reported as
removed, and the rest of the first page is reported as added. -/
theorem first_page_not_replayed :
    ∃ acts s, Run (apply id) Free initial acts s ∧ s.client.refetching = false
      ∧ 0 ∈ s.client.shown.entries.map EntrySummaryPayload.id
      ∧ s.listing.any (fun full => full.all fun entry => entry.id ≠ 0) = true
      ∧ s.published.map (fun p => p.deltas.flatMap removedIds) = [[]]
      ∧ s.published.map (fun p => p.deltas.flatMap addedIds)
        = [List.range' 1 255] := by
  obtain ⟨s, hrun, hend⟩ := Run.exists_of_run (show (Machine.run (apply id) initial
      [.request (sampleRequest 1 none) false,
        .answer 0 (.ok (sampleListing 0 257)) true false .acquired,
        .request (sampleRequest 2 (some (.offset 256))) false,
        .answer 1 (.ok []) true false .acquired,
        .change 0 .changed, .publish 0 (.ok (sampleListing 1 257))]).any
      (fun s => decide (s.client.refetching = false
        ∧ 0 ∈ s.client.shown.entries.map EntrySummaryPayload.id
        ∧ s.listing.any (fun full => full.all fun entry => entry.id ≠ 0) = true
        ∧ s.published.map (fun p => p.deltas.flatMap removedIds) = [[]]
        ∧ s.published.map (fun p => p.deltas.flatMap addedIds)
          = [List.range' 1 255])) = true
      from by decide +kernel)
  exact ⟨_, s, hrun, hend⟩

end FileManager.Directory
