/-
A remote directory that stays as it is, polled: the identifiers of an
entry are drawn anew by every listing of the FTP and of the WebDAV
provider, so two listings of a directory that has entries are never
equal, the poll after the first reports a change. Only where nothing is
listed is polling silent.

What a run does is read from the listings that its turns make
(`Effect`); where they are all empty, so is what is sent (`Quiet`), and
where nothing of them is shown, so is what is published (`Blank`).
-/
import FileManager.Directory.Proofs.Steps
import FileManager.Remote.Proofs.Existing
import FileManager.Remote.Proofs.Pages

namespace FileManager.Remote.Polled

open Directory (EntrySummary EntrySummaryPayload PaneRequest DirectorySnapshot DirectoryDelta
  ViewOptions ListDirectoryRequest ProviderChange arrange pageSnapshot storeChanges diffEntries
  addedEntries listPageSize)
open Directory.Poll (PollState fingerprint sameFingerprint reports)
open Machine (Run Free)
open Watch (start)
open List Directory.Poll

variable {fetch : Fetch} {parses : Prop} {drafts : List (Except VfsError Draft)}
  {view : ViewOptions} {entries result before later : List EntrySummary} {entry : EntrySummary}
  {lowercase : String → String} {request : ListDirectoryRequest} {drawn after b c d : Nat}
  {attempt : Attempt} {w w' : Watch} {a : Action} {isUuid : List Char → Bool}
  {location : Locations.Location} {file : FtpFile} {child : List Char × DavEntry}

-- ==== what is listed

/-- A draft that a pane shows with these options. -/
def ShownBy (view : ViewOptions) (draft : Except VfsError Draft) : Prop :=
  ∃ made, draft = .ok made ∧ (view.showHidden = true ∨ made.name.head? ≠ some '.')

theorem mem_arrange :
    entry ∈ arrange lowercase view entries
      ↔ entry ∈ entries ∧ (view.showHidden = true ∨ entry.hidden = false) := by
  unfold arrange Directory.sortEntries
  rw [(perm_insertionSort _ _).mem_iff]
  cases view.showHidden <;> simp

theorem exists_shown (lowercase : String → String) (h : Forall₂ Summarises drafts result) :
    (∀ draft ∈ drafts, ShownBy view draft →
      ∃ made entry, draft = .ok made ∧ entry ∈ arrange lowercase view result
        ∧ entry.name = String.ofList made.name) ∧ ∀ entry ∈ arrange lowercase view result,
      ∃ made, .ok made ∈ drafts ∧ ShownBy view (.ok made)
        ∧ entry.name = String.ofList made.name := by
  constructor
  · intro draft hdraft hshown
    obtain ⟨entry, hentry, made, hmade, hsummary⟩ := Fallible.paired_left h hdraft
    obtain ⟨made', hmade', hvisible⟩ := hshown
    obtain rfl : made = made' := by
      rw [hmade] at hmade'
      exact Except.ok.inj hmade'
    refine ⟨made, entry, hmade, mem_arrange.mpr ⟨hentry, ?_⟩, ?_⟩
    · rw [hsummary]
      simpa [Draft.summary] using hvisible
    · rw [hsummary]
      rfl
  · intro entry hentry
    obtain ⟨hmem, hvisible⟩ := mem_arrange.mp hentry
    obtain ⟨draft, hdraft, made, rfl, hsummary⟩ := Fallible.paired_right h hmem
    refine ⟨made, hdraft, ⟨made, rfl, ?_⟩, ?_⟩
    · rw [hsummary] at hvisible
      simpa [Draft.summary] using hvisible
    · rw [hsummary]
      rfl

-- ==== the properties

/-- No run of a pane that watches the directory sends a change. -/
def Silent (lowercase : String → String) (request : ListDirectoryRequest) (fetch : Fetch) : Prop :=
  ∀ attempt revision token writable w₀,
    start lowercase request fetch attempt revision token writable = some w₀ →
    ∀ acts w, Run (apply lowercase request fetch) Free w₀ acts w → w.sent = []

/-- The entries that a delta adds. -/
def addedBy : DirectoryDelta → List EntrySummaryPayload
  | .entriesAdded _ entries => entries
  | _ => []

/-- An entry is removed by its identifier, and one of its name is added. -/
def Publication.Readds (publication : Publication) : Prop :=
  ∃ old ∈ publication.previous.entries,
    old.id ∈ publication.deltas.flatMap DirectoryDelta.removedIds
      ∧ ∃ new ∈ publication.deltas.flatMap addedBy, new.name = old.name

/-- No run of a pane that watches the directory publishes that an entry is
gone and one of its name is new. -/
def NeverReadds (lowercase : String → String) (request : ListDirectoryRequest) (fetch : Fetch) :
    Prop :=
  ∀ attempt revision token writable w₀,
    start lowercase request fetch attempt revision token writable = some w₀ →
    ∀ acts w, Run (apply lowercase request fetch) Free w₀ acts w →
      ∀ publication ∈ w.published, ¬ publication.Readds

/-- Two listings, one after the other, are the same map from identifiers to
entries. -/
def SameListings (fetch : Fetch) : Prop :=
  ∀ (first second : Attempt) (drawn between after : Nat) (before later : List EntrySummary),
    first.list fetch drawn = (some (.ok before), between) →
    second.list fetch between = (some (.ok later), after) →
    sameFingerprint (fingerprint before) (fingerprint later) = true

-- ==== the fingerprints

theorem mem_fingerprint_iff (h : Fresh drawn after entries) :
    entry ∈ fingerprint entries ↔ entry ∈ entries := by
  unfold fingerprint
  rw [Keyed.mem_upserts (by simp) (Keyed.functional_of_nodup h.nodup)]
  simp

theorem differ_of_later {a : Nat} (hbefore : Fresh a b before) (hlater : Fresh c d later)
    (hle : b ≤ c) (hsome : before ≠ []) :
    sameFingerprint (fingerprint before) (fingerprint later) = false := by
  obtain ⟨entry, hentry⟩ := exists_mem_of_ne_nil _ hsome
  unfold sameFingerprint
  rw [decide_eq_false_iff_not]
  intro hsame
  have hmem := hsame.1 ((mem_fingerprint_iff hbefore).mpr hentry)
  exact hbefore.ne_of_later hlater hle hentry ((mem_fingerprint_iff hlater).mp hmem) rfl

-- ==== the loud run

theorem Serves.answered (h : Serves fetch parses drafts) (hparses : parses)
    (hdrafts : ∀ made ∈ drafts, ∃ d, made = .ok d) (drawn : Nat) :
    ∃ result after,
      (Attempt.answered (drafts.length + 1)).list fetch drawn = (some (.ok result), after)
      ∧ Forall₂ Summarises drafts result ∧ Fresh drawn after result := by
  obtain ⟨result, after, hall⟩ :=
    h.listAll_answers hparses hdrafts drafts.length [] 0 drawn (by omega)
  have hlist : (Attempt.answered (drafts.length + 1)).list fetch drawn
      = (some (.ok result), after) := hall
  exact ⟨result, after, hlist, (h.list_ok hlist).2⟩

/-- The pane that shows the first page of a listing. -/
def shownPane (lowercase : String → String) (request : ListDirectoryRequest)
    (entries : List EntrySummary) : PaneRequest where
  requestId := request.requestId
  watchToken := 0
  revision := 0
  view := request.view
  snapshot := some (pageSnapshot request (arrange lowercase request.view entries) 0 0 true)
  fullEntries := some (arrange lowercase request.view entries)

theorem Serves.polled_twice (h : Serves fetch parses drafts) (lowercase : String → String)
    (request : ListDirectoryRequest) (hparses : parses)
    (hdrafts : ∀ made ∈ drafts, ∃ d, made = .ok d) (hsome : drafts ≠ []) :
    ∃ (first : List EntrySummary) (drawn : Nat) (w₀ w : Watch),
      Forall₂ Summarises drafts first ∧ Fresh 0 drawn first ∧ drawn ≤ w.drawn
      ∧ start lowercase request fetch (.answered (drafts.length + 1)) 0 0 true = some w₀
      ∧ Run (apply lowercase request fetch) Free w₀
          [.poll (.answered (drafts.length + 1)), .poll (.answered (drafts.length + 1))] w
      ∧ w.pane = shownPane lowercase request first
      ∧ w.pending = [.changed] ∧ w.sent = [.changed] ∧ w.published = [] := by
  obtain ⟨first, drawn₀, hlist₀, hfirst, hfresh₀⟩ := h.answered hparses hdrafts 0
  obtain ⟨second, drawn₁, hlist₁, hsecond, hfresh₁⟩ := h.answered hparses hdrafts drawn₀
  obtain ⟨third, drawn₂, hlist₂, -, hfresh₂⟩ := h.answered hparses hdrafts drawn₁
  have hseen : second ≠ [] := by
    rintro rfl
    exact hsome (forall₂_nil_right_iff.mp hsecond)
  have hreports : reports (some (fingerprint second)) third = true := by
    simp [reports, differ_of_later hfresh₁ hfresh₂ le_rfl hseen]
  let w₀ : Watch :=
    { state := { previous := none, backoff := 1 }, pane := shownPane lowercase request first
      drawn := drawn₀, pending := [], sent := [], published := [] }
  let w₁ : Watch := { w₀ with
    state := { previous := some (fingerprint second), backoff := 1 }, drawn := drawn₁ }
  let w₂ : Watch := { w₁ with
    state := { previous := some (fingerprint third), backoff := 1 }, drawn := drawn₂
    pending := [.changed], sent := [.changed] }
  have hstart : start lowercase request fetch (.answered (drafts.length + 1)) 0 0 true
      = some w₀ := by
    unfold start
    rw [hlist₀]
    rfl
  have hfirstPoll : apply lowercase request fetch (.poll (.answered (drafts.length + 1))) w₀
      = some w₁ := by
    simp only [apply, Watch.poll]
    rw [hlist₁]
    rfl
  have hsecondPoll : apply lowercase request fetch (.poll (.answered (drafts.length + 1))) w₁
      = some w₂ := by
    simp only [apply, Watch.poll]
    rw [hlist₂]
    simp only [poll, w₁, hreports]
    rfl
  refine ⟨first, drawn₀, w₀, w₂, hfirst, hfresh₀, ?_, hstart,
    (Run.start.snoc _ trivial hfirstPoll).snoc _ trivial hsecondPoll, rfl, rfl, rfl, rfl⟩
  exact hfresh₁.mono.trans hfresh₂.mono

theorem addedBy_diffEntries (previous current : List EntrySummary) (revision : Nat) :
    (diffEntries previous current revision).flatMap addedBy
      = (addedEntries previous current).map EntrySummary.payload := by
  unfold diffEntries
  dsimp only
  split
  case isTrue hnil =>
    rw [hnil]
    split <;> split <;> simp [addedBy]
  case isFalse =>
    split <;> split <;> simp [addedBy]

theorem readds_of_later {a : Nat} {previous : DirectorySnapshot} (revision : Nat)
    (hbefore : Fresh a b before) (hlater : Fresh c d later) (hle : b ≤ c)
    (hpage : previous.entries ⊆ before) {old new : EntrySummary} (hold : old ∈ previous.entries)
    (hnew : new ∈ arrange lowercase view later) (hname : new.name = old.name) :
    Publication.Readds
      { previous := previous
        deltas := diffEntries previous.entries (arrange lowercase view later) revision } := by
  have hothers : ∀ entry ∈ previous.entries, ∀ shown ∈ arrange lowercase view later,
      entry.id ≠ shown.id := by
    intro entry hentry shown hshown
    exact hbefore.ne_of_later hlater hle (hpage hentry) (mem_arrange.mp hshown).1
  refine ⟨old, hold, ?_, new.payload, ?_, hname⟩
  · rw [Directory.removedIds_diffEntries, Directory.mem_removedEntries]
    exact ⟨old, hold, rfl, fun shown hshown => (hothers old hold shown hshown).symm⟩
  · rw [addedBy_diffEntries]
    refine mem_map_of_mem (Directory.mem_addedEntries.mpr ⟨hnew, ?_⟩)
    intro entry hentry
    exact hothers entry hentry new hnew

theorem exists_first_page (request : ListDirectoryRequest) {full : List EntrySummary}
    (h : full ≠ []) (revision : Nat) (writable : Bool) :
    ∃ entry, entry ∈ (pageSnapshot request full 0 revision writable).entries := by
  obtain ⟨entry, rest, rfl⟩ := exists_cons_of_ne_nil h
  refine ⟨entry, ?_⟩
  have hpage : min (rest.length + 1) listPageSize
      = min rest.length (listPageSize - 1) + 1 := by
    have hpositive : 0 < listPageSize := by decide
    omega
  simp [pageSnapshot, hpage]

theorem first_page_subset (full : List EntrySummary) (revision : Nat) (writable : Bool) :
    (pageSnapshot request full 0 revision writable).entries ⊆ full :=
  ((take_sublist _ _).trans (drop_sublist _ _)).subset

theorem refresh_changed
    (hpane : w.pane = shownPane lowercase request entries) (hpending : w.pending = [.changed])
    (hlist : attempt.list fetch w.drawn = (some (.ok later), after)) :
    let previous := pageSnapshot request (arrange lowercase request.view entries) 0 0 true
    ∃ w', apply lowercase request fetch (.refresh attempt) w = some w'
      ∧ w'.published = w.published ++ [
          { previous := previous
            deltas := diffEntries previous.entries (arrange lowercase request.view later) 1 }] := by
  intro previous
  have hsnapshot : w.pane.snapshot = some previous := by rw [hpane]; rfl
  have hstores : ∃ stored, storeChanges lowercase w.pane request.location request.view .changed
      later = some (stored, diffEntries previous.entries
        (arrange lowercase request.view later) 1) := by
    rw [hpane]
    simp only [storeChanges, shownPane]
    rw [if_pos (by rfl)]
    exact ⟨_, rfl⟩
  obtain ⟨stored, hstored⟩ := hstores
  have hreceive : receive w.pending = some (.changed, []) := by rw [hpending]; rfl
  simp only [apply, Watch.refresh, hreceive, hlist, hsnapshot, hstored]
  exact ⟨_, rfl, rfl⟩

theorem Serves.readds (h : Serves fetch parses drafts) (hparses : parses)
    (hdrafts : ∀ made ∈ drafts, ∃ d, made = .ok d) {draft : Except VfsError Draft}
    (hdraft : draft ∈ drafts) (hshown : ShownBy request.view draft) :
    ¬ NeverReadds lowercase request fetch := by
  intro hnever
  obtain ⟨first, drawn, w₀, w, hfirst, hfresh, hle, hstart, hrun, hpane, hpending, -,
    hpublished⟩ := h.polled_twice lowercase request hparses hdrafts (ne_nil_of_mem hdraft)
  obtain ⟨later, after, hlist, hlater, hfresh'⟩ := h.answered hparses hdrafts w.drawn
  obtain ⟨w', hrefresh, hpublished'⟩ := refresh_changed hpane hpending hlist
  obtain ⟨-, shown, -, hshown', -⟩ := (exists_shown lowercase hfirst).1 draft
    hdraft hshown
  obtain ⟨old, hold⟩ := exists_first_page request (ne_nil_of_mem hshown') 0 true
  have holdShown := first_page_subset _ _ _ hold
  obtain ⟨made, hmade, hvisible, hname⟩ := (exists_shown lowercase hfirst).2 old holdShown
  obtain ⟨made', new, hmade', hnew, hname'⟩ := (exists_shown lowercase hlater).1 _ hmade hvisible
  obtain rfl : made = made' := Except.ok.inj hmade'
  refine hnever _ _ _ _ _ hstart _ _ (hrun.snoc _ trivial hrefresh) _ ?_
    (readds_of_later 1 hfresh hfresh' hle ?_ hold hnew (hname'.trans hname.symm))
  · rw [hpublished', hpublished]
    exact mem_singleton.mpr rfl
  · intro entry hentry
    exact (mem_arrange.mp (first_page_subset _ _ _ hentry)).1

-- ==== the quiet runs

/-- What is listed, when the location parses and every name can be joined. -/
def Lists (parses : Prop) (drafts : List (Except VfsError Draft)) : Prop :=
  parses ∧ ∀ made ∈ drafts, ∃ d, made = .ok d

theorem Serves.lists_of_ok (h : Serves fetch parses drafts)
    (hlist : attempt.list fetch drawn = (some (.ok result), after)) : Lists parses drafts := by
  obtain ⟨hparses, hresult, -⟩ := h.list_ok hlist
  refine ⟨hparses, fun made hmade => ?_⟩
  obtain ⟨-, -, d, hd, -⟩ := Fallible.paired_left hresult hmade
  exact ⟨d, hd⟩

theorem Serves.listed_nil (h : Serves fetch parses drafts)
    (hnothing : Lists parses drafts → drafts = [])
    (hlist : attempt.list fetch drawn = (some (.ok result), after)) : result = [] := by
  obtain ⟨-, hresult, -⟩ := h.list_ok hlist
  rw [hnothing (h.lists_of_ok hlist)] at hresult
  exact forall₂_nil_left_iff.mp hresult

/-- What a turn of the stream or of the pane's watch does. -/
inductive Effect (lowercase : String → String) (request : ListDirectoryRequest) (fetch : Fetch)
    (w w' : Watch) : Prop
  | polled {attempt : Attempt} {result : Except VfsError (List EntrySummary)} {drawn : Nat}
      {change : Option ProviderChange}
      (listed : attempt.list fetch w.drawn = (some result, drawn))
      (stream : poll w.state result = some (w'.state, change))
      (sent : w'.sent = w.sent ++ change.toList)
      (pane : w'.pane = w.pane) (published : w'.published = w.published)
  | stored {attempt : Attempt} {entries : List EntrySummary} {drawn : Nat}
      {change : ProviderChange} {previous : DirectorySnapshot} {deltas : List DirectoryDelta}
      (listed : attempt.list fetch w.drawn = (some (.ok entries), drawn))
      (shown : w.pane.snapshot = some previous)
      (stored : storeChanges lowercase w.pane request.location request.view change entries
        = some (w'.pane, deltas))
      (published : w'.published = w.published ++ [{ previous := previous, deltas := deltas }])
      (stream : w'.state = w.state) (sent : w'.sent = w.sent)
  | passed (stream : w'.state = w.state) (sent : w'.sent = w.sent)
      (pane : w'.pane = w.pane) (published : w'.published = w.published)

theorem effect_of_apply (hs : apply lowercase request fetch a w = some w') :
    Effect lowercase request fetch w w' := by
  cases a with
  | poll attempt =>
    simp only [apply, Watch.poll] at hs
    split at hs
    case h_1 => cases hs
    case h_2 result drawn hlist =>
      split at hs
      case h_1 => cases hs
      case h_2 state change hpoll =>
        obtain rfl := Option.some.inj hs
        exact .polled hlist hpoll rfl rfl rfl
  | refresh attempt =>
    simp only [apply, Watch.refresh] at hs
    split at hs
    case h_1 => cases hs
    case h_2 change pending hreceive =>
      split at hs
      case h_1 entries drawn hlist =>
        split at hs
        case h_1 previous stored deltas hshown hstored =>
          obtain rfl := Option.some.inj hs
          exact .stored hlist hshown hstored rfl rfl rfl
        case h_2 =>
          obtain rfl := Option.some.inj hs
          exact .passed rfl rfl rfl rfl
      case h_2 =>
        obtain rfl := Option.some.inj hs
        exact .passed rfl rfl rfl rfl

theorem start_eq {revision token : Nat} {writable : Bool} {w₀ : Watch}
    (hstart : start lowercase request fetch attempt revision token writable = some w₀) :
    ∃ entries drawn, attempt.list fetch 0 = (some (.ok entries), drawn)
      ∧ w₀.state.previous = none ∧ w₀.sent = [] ∧ w₀.published = []
      ∧ w₀.pane.snapshot = some (pageSnapshot request (arrange lowercase request.view entries) 0
          revision writable) := by
  unfold start at hstart
  split at hstart
  case h_1 entries drawn hlist =>
    obtain rfl := Option.some.inj hstart
    exact ⟨entries, drawn, hlist, rfl, rfl, rfl, rfl⟩
  case h_2 => cases hstart

/-- The stream has seen nothing but empty listings, and sent nothing. -/
structure Quiet (w : Watch) : Prop where
  sent : w.sent = []
  previous : ∀ seen ∈ w.state.previous, seen = []

theorem poll_quiet {state next : PollState} {result : Except VfsError (List EntrySummary)}
    {change : Option ProviderChange} (hprevious : ∀ seen ∈ state.previous, seen = [])
    (hresult : ∀ entries, result = .ok entries → entries = [])
    (hpoll : poll state result = some (next, change)) :
    change = none ∧ ∀ seen ∈ next.previous, seen = [] := by
  cases result with
  | ok entries =>
    obtain rfl := hresult entries rfl
    obtain ⟨rfl, rfl⟩ := Prod.mk.inj (Option.some.inj hpoll)
    refine ⟨?_, fun seen hseen => ?_⟩
    · cases hstate : state.previous with
      | none => rfl
      | some seen =>
        obtain rfl := hprevious seen hstate
        rfl
    · exact (Option.mem_some_iff.mp hseen).symm
  | error error =>
    have hnext : change = none ∧ next.previous = state.previous := by
      unfold poll at hpoll
      cases error <;> simp at hpoll <;> simp [← hpoll.1, ← hpoll.2]
    rw [hnext.2]
    exact ⟨hnext.1, hprevious⟩

theorem Quiet.step (h : Serves fetch parses drafts) (hnothing : Lists parses drafts → drafts = [])
    (hs : apply lowercase request fetch a w = some w') (hquiet : Quiet w) : Quiet w' := by
  cases effect_of_apply hs with
  | polled hlisted hstream hsent _ _ =>
    obtain ⟨rfl, hprevious⟩ := poll_quiet hquiet.previous
      (fun entries hentries => h.listed_nil hnothing (hentries ▸ hlisted)) hstream
    exact ⟨by rw [hsent, hquiet.sent]; rfl, hprevious⟩
  | stored _ _ _ _ hstream hsent | passed hstream hsent _ _ =>
    exact ⟨hsent.trans hquiet.sent, by rw [hstream]; exact hquiet.previous⟩

theorem Serves.silent (h : Serves fetch parses drafts)
    (hnothing : Lists parses drafts → drafts = []) : Silent lowercase request fetch := by
  intro attempt revision token writable w₀ hstart acts w hrun
  obtain ⟨-, -, -, hprevious, hsent, -, -⟩ := start_eq hstart
  have hinit : Quiet w₀ := ⟨hsent, by rw [hprevious]; simp⟩
  have hquiet := hrun.invariant (P := Quiet) hinit fun a _ hs hq => hq.step h hnothing hs
  exact hquiet.sent

/-- The pane shows nothing, and has shown nothing when it published. -/
structure Blank (w : Watch) : Prop where
  shown : ∀ snapshot ∈ w.pane.snapshot, snapshot.entries = []
  published : ∀ publication ∈ w.published, publication.previous.entries = []

theorem Serves.arrange_nil (h : Serves fetch parses drafts)
    (hnothing : Lists parses drafts → ∀ draft ∈ drafts, ¬ ShownBy view draft)
    (hlist : attempt.list fetch drawn = (some (.ok result), after)) :
    arrange lowercase view result = [] := by
  refine eq_nil_iff_forall_not_mem.mpr fun entry hentry => ?_
  obtain ⟨-, hresult, -⟩ := h.list_ok hlist
  obtain ⟨made, hmade, hshown, -⟩ := (exists_shown lowercase hresult).2 entry hentry
  exact hnothing (h.lists_of_ok hlist) _ hmade hshown

theorem storeChanges_entries {pane stored : PaneRequest} {place : Location}
    {change : ProviderChange} {deltas : List DirectoryDelta}
    (h : storeChanges lowercase pane place view change entries = some (stored, deltas)) :
    ∀ snapshot ∈ stored.snapshot, snapshot.entries = arrange lowercase view entries := by
  unfold storeChanges at h
  split at h
  case h_1 => cases h
  case h_2 previous hprevious =>
    split at h
    case isFalse => cases h
    case isTrue hlocation =>
      obtain ⟨rfl, rfl⟩ := Prod.mk.inj (Option.some.inj h)
      intro snapshot hsnapshot
      obtain rfl := Option.mem_some_iff.mp hsnapshot
      rfl

theorem Blank.step (h : Serves fetch parses drafts)
    (hnothing : Lists parses drafts → ∀ draft ∈ drafts, ¬ ShownBy request.view draft)
    (hs : apply lowercase request fetch a w = some w') (hblank : Blank w) : Blank w' := by
  cases effect_of_apply hs with
  | @stored _ _ _ _ previous deltas hlisted hshown hstored hpublished _ _ =>
    refine ⟨?_, ?_⟩
    · intro snapshot hsnapshot
      rw [storeChanges_entries hstored snapshot hsnapshot]
      exact h.arrange_nil hnothing hlisted
    · rw [hpublished]
      intro publication hmem
      rcases mem_append.mp hmem with hmem | hmem
      · exact hblank.published publication hmem
      · obtain rfl := mem_singleton.mp hmem
        exact hblank.shown previous hshown
  | polled _ _ _ hpane hpublished | passed _ _ hpane hpublished =>
    exact ⟨by rw [hpane]; exact hblank.shown, by rw [hpublished]; exact hblank.published⟩

theorem Serves.never_readds (h : Serves fetch parses drafts)
    (hnothing : Lists parses drafts → ∀ draft ∈ drafts, ¬ ShownBy request.view draft) :
    NeverReadds lowercase request fetch := by
  intro attempt revision token writable w₀ hstart acts w hrun
  obtain ⟨entries, drawn, hlist, -, -, hpublished, hshown⟩ := start_eq hstart
  have hinit : Blank w₀ := by
    refine ⟨fun snapshot hsnapshot => ?_, by simp [hpublished]⟩
    rw [hshown, Option.mem_some_iff] at hsnapshot
    have hempty : arrange lowercase request.view entries = [] := h.arrange_nil hnothing hlist
    rw [← hsnapshot, hempty]
    simp [pageSnapshot]
  have hblank := hrun.invariant (P := Blank) hinit fun a _ hs hb => hb.step h hnothing hs
  intro publication hmem hreadds
  obtain ⟨old, hold, -⟩ := hreadds
  rw [hblank.published publication hmem] at hold
  cases hold

-- ==== the conditions

theorem Serves.silent_iff (h : Serves fetch parses drafts) :
    Silent lowercase request fetch ↔ (Lists parses drafts → drafts = []) := by
  refine ⟨fun hsilent hlists => ?_, fun hnothing => h.silent hnothing⟩
  by_contra hsome
  obtain ⟨-, -, w₀, w, -, -, -, hstart, hrun, -, -, hsent, -⟩ :=
    h.polled_twice lowercase request hlists.1 hlists.2 hsome
  rw [hsilent _ _ _ _ _ hstart _ _ hrun] at hsent
  cases hsent

theorem Serves.same_iff (h : Serves fetch parses drafts) :
    SameListings fetch ↔ (Lists parses drafts → drafts = []) := by
  constructor
  · intro hsame hlists
    by_contra hsome
    obtain ⟨before, between, hbefore, hdrawn, hfresh⟩ := h.answered hlists.1 hlists.2 0
    obtain ⟨later, after, hlater, -, hfresh'⟩ := h.answered hlists.1 hlists.2 between
    have hentries : before ≠ [] := by
      rintro rfl
      exact hsome (forall₂_nil_right_iff.mp hdrawn)
    have hdiffer := differ_of_later hfresh hfresh' le_rfl hentries
    rw [hsame _ _ _ _ _ _ _ hbefore hlater] at hdiffer
    cases hdiffer
  · intro hnothing first second drawn between after before later hbefore hlater
    rw [h.listed_nil hnothing hbefore, h.listed_nil hnothing hlater]
    rfl

theorem Serves.never_readds_iff (h : Serves fetch parses drafts) :
    NeverReadds lowercase request fetch
      ↔ (Lists parses drafts → ∀ draft ∈ drafts, ¬ ShownBy request.view draft) := by
  refine ⟨fun hnever hlists draft hdraft hshown => ?_, fun hnothing => h.never_readds hnothing⟩
  exact h.readds hlists.1 hlists.2 hdraft hshown hnever

-- ==== the providers

theorem ftpDraft_ok_iff :
    (∃ made, ftpDraft isUuid location file = .ok made) ↔ Joins isUuid location file.name := by
  unfold ftpDraft Joins
  cases location.join isUuid file.name <;> simp

theorem davDraft_ok_iff :
    (∃ made, davDraft isUuid location child = .ok made) ↔ Joins isUuid location child.1 := by
  unfold davDraft Joins
  cases location.join isUuid child.1 <;> simp

/-- A name that a pane shows with these options. -/
def Visible (view : ViewOptions) (name : List Char) : Prop :=
  view.showHidden = true ∨ name.head? ≠ some '.'

theorem shownBy_ftpDraft_iff :
    ShownBy view (ftpDraft isUuid location file)
      ↔ Joins isUuid location file.name ∧ Visible view file.name := by
  unfold ShownBy ftpDraft Joins Visible
  cases location.join isUuid file.name <;> simp

theorem shownBy_davDraft_iff :
    ShownBy view (davDraft isUuid location child)
      ↔ Joins isUuid location child.1 ∧ Visible view child.1 := by
  unfold ShownBy davDraft Joins Visible
  cases location.join isUuid child.1 <;> simp

/-- A listing of the FTP provider can end well: its location parses, and
every name that the server lists can be joined to it. -/
def FtpLists (isUuid : List Char → Bool) (location : Locations.Location)
    (files : List FtpFile) : Prop :=
  (∃ parsed, Ftp.Parsed.parse isUuid location = .ok parsed)
    ∧ ∀ file ∈ files, Joins isUuid location file.name

/-- A listing of the WebDAV provider can end well. -/
def DavLists (isUuid : List Char → Bool) (libraries : WebDav.Libraries)
    (location : Locations.Location) (children : List (List Char × DavEntry)) : Prop :=
  (∃ parsed, WebDav.Parsed.parse isUuid libraries location = .ok parsed)
    ∧ ∀ child ∈ children, Joins isUuid location child.1

theorem lists_iff_ftpLists {files : List FtpFile} :
    Lists (∃ parsed, Ftp.Parsed.parse isUuid location = .ok parsed)
      (files.map (ftpDraft isUuid location)) ↔ FtpLists isUuid location files := by
  simp only [Lists, FtpLists, forall_mem_map, ftpDraft_ok_iff]

theorem lists_iff_davLists {children : List (List Char × DavEntry)} :
    Lists (∃ parsed, WebDav.Parsed.parse isUuid libraries location = .ok parsed)
      (children.map (davDraft isUuid location)) ↔ DavLists isUuid libraries location children := by
  simp only [Lists, DavLists, forall_mem_map, davDraft_ok_iff]

/-- For every directory that stays as it is, and every run of a pane
that watches it: no change is sent, and two listings are one map,
exactly when no listing has an entry; and no delta adds again what it
removes exactly when no listing has one of the pane's. -/
theorem polling_silent_iff (isUuid : List Char → Bool) (libraries : WebDav.Libraries)
    (parseLine : List Char → Option FtpFile) (lowercase : String → String)
    (request : ListDirectoryRequest) (location : Locations.Location) (lines : List (List Char))
    (selfPath : List Char) (responses : List DavEntry) :
    let ftp := ftpList isUuid parseLine location lines
    let files := lines.filterMap parseLine
    let webDav := davList isUuid libraries location selfPath responses
    let children := davChildren libraries selfPath responses
    ((Silent lowercase request ftp ↔ (FtpLists isUuid location files → files = []))
      ∧ (SameListings ftp ↔ (FtpLists isUuid location files → files = []))
      ∧ (NeverReadds lowercase request ftp
        ↔ (FtpLists isUuid location files → ∀ file ∈ files, ¬ Visible request.view file.name)))
    ∧ (Silent lowercase request webDav
        ↔ (DavLists isUuid libraries location children → children = []))
      ∧ (SameListings webDav ↔ (DavLists isUuid libraries location children → children = []))
      ∧ (NeverReadds lowercase request webDav
        ↔ (DavLists isUuid libraries location children →
          ∀ child ∈ children, ¬ Visible request.view child.1)) := by
  intro ftp files webDav children
  have hftp : Serves ftp _ _ := serves_ftpList lines
  have hdav : Serves webDav _ _ := serves_davList selfPath responses
  refine ⟨⟨?_, ?_, ?_⟩, ?_, ?_, ?_⟩
  · rw [hftp.silent_iff, lists_iff_ftpLists, map_eq_nil_iff]
  · rw [hftp.same_iff, lists_iff_ftpLists, map_eq_nil_iff]
  · rw [hftp.never_readds_iff, lists_iff_ftpLists, forall_mem_map]
    simp only [shownBy_ftpDraft_iff]
    refine forall_congr' fun hlists => forall₂_congr fun file hfile => ?_
    rw [and_iff_right (hlists.2 file hfile)]
  · rw [hdav.silent_iff, lists_iff_davLists, map_eq_nil_iff]
  · rw [hdav.same_iff, lists_iff_davLists, map_eq_nil_iff]
  · rw [hdav.never_readds_iff, lists_iff_davLists, forall_mem_map]
    simp only [shownBy_davDraft_iff]
    refine forall_congr' fun hlists => forall₂_congr fun child hchild => ?_
    rw [and_iff_right (hlists.2 child hchild)]

-- A pane that shows a directory with one file.

instance (publication : Publication) : Decidable publication.Readds :=
  inferInstanceAs (Decidable (∃ old ∈ publication.previous.entries,
    old.id ∈ publication.deltas.flatMap DirectoryDelta.removedIds
      ∧ ∃ new ∈ publication.deltas.flatMap addedBy, new.name = old.name))

def nameLine (line : List Char) : Option FtpFile :=
  (Ftp.nameLine line).map fun file => { file with modified := 0 }

def docsRequest : ListDirectoryRequest where
  requestId := 1
  location := located Ftp.docs
  continuationToken := none
  view := { showHidden := false, foldersFirst := true, showGitStatus := false, sort := [] }

/-- What the server lists, at every request. -/
def docsList : Fetch := ftpList Locations.isHyphenatedUuid nameLine Ftp.docs
  [Ftp.emptyFile ++ "readme.txt".toList]

def oneRequest : Attempt := .answered 1

/-- The pane that has listed the file once. -/
def docsWatch : Watch := (start id docsRequest docsList oneRequest 0 0 true).get (by decide +kernel)

theorem start_docsWatch :
    start id docsRequest docsList oneRequest 0 0 true = some docsWatch :=
  (Option.some_get _).symm

/-- The file, as a listing has it that draws this identifier. -/
def docsFile (id : EntryId) : EntrySummary :=
  { location := { providerId := "ftp", uri := Ftp.docsUri ++ "/readme.txt".toList }
    name := "readme.txt".toList, kind := .file, size := some 0
    modifiedAt := some 0 : Draft }.summary id

theorem listed_docsFile : oneRequest.list docsList 0 = (some (.ok [docsFile 0]), 1)
    ∧ oneRequest.list docsList 1 = (some (.ok [docsFile 1]), 2) := by
  decide +kernel

/-- Nothing happens to the file, and the second poll publishes that it
is removed and that it is added. -/
theorem unchanged_file_readded :
    (∃ w, Run (apply id docsRequest docsList) Free docsWatch
        [.poll oneRequest, .poll oneRequest, .refresh oneRequest] w
      ∧ w.sent = [.changed] ∧ ∃ publication ∈ w.published, publication.Readds)
    ∧ ¬ Silent id docsRequest docsList ∧ ¬ NeverReadds id docsRequest docsList
    ∧ ¬ SameListings docsList := by
  obtain ⟨w, hrun, hsent, publication, hmem, hreadds⟩ : ∃ w,
      Run (apply id docsRequest docsList) Free docsWatch
        [.poll oneRequest, .poll oneRequest, .refresh oneRequest] w
      ∧ w.sent = [.changed] ∧ ∃ publication ∈ w.published, publication.Readds :=
    Run.exists_of_run (by decide +kernel)
  refine ⟨⟨w, hrun, hsent, publication, hmem, hreadds⟩, ?_, ?_, ?_⟩
  · intro hsilent
    rw [hsilent _ _ _ _ _ start_docsWatch _ _ hrun] at hsent
    cases hsent
  · intro hnever
    exact hnever _ _ _ _ _ start_docsWatch _ _ hrun publication hmem hreadds
  · intro hsame
    have hequal := hsame _ _ _ _ _ _ _ listed_docsFile.1 listed_docsFile.2
    exact absurd hequal (by decide +kernel)

end FileManager.Remote.Polled
