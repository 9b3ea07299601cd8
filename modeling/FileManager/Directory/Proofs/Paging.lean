/-
One order, whatever the order and the pages of the provider, and
whatever the pages of the client: the entries of a directory have one
sorted sequence, and the pages that a client is given by following
continuation tokens make it up.

# The argument

`Order` has the comparison: two entries that it does not tell apart have
one name. A page is a slice of the listing that the pane has cached, so a
pane that `Holds` the listing still holds it after the page, and the
pages from an offset on are the rest of the listing (`pages_from_offset`,
by induction on the number of pages still to come).
-/
import FileManager.Directory.Paging
import FileManager.Directory.Proofs.Options
import FileManager.Directory.Proofs.Order

namespace FileManager.Directory

open Option (bind_eq_bind bind_some)

variable {lowercase : String → String} {view : ViewOptions} {pages : List DirectoryPage}
  {answers : Answers} {fuel : Nat}

-- ==== the order

/-- A comparison of entries that is a total preorder and tells names
apart. -/
structure Canonical (compare : EntrySummary → EntrySummary → Ordering) : Prop where
  same : ∀ entry, compare entry entry = .eq
  swap : ∀ left right, compare right left = (compare left right).swap
  trans : ∀ left middle right, (compare left middle).isLE = true →
    (compare middle right).isLE = true → (compare left right).isLE = true
  names : ∀ left right, compare left right = .eq → left.name = right.name

theorem canonical_compareEntries : Canonical (compareEntries lowercase view) where
  same _ := Std.ReflCmp.compare_self
  swap _ _ := Std.OrientedCmp.eq_swap
  trans _ _ _ := Std.TransCmp.isLE_trans
  names _ _ := name_eq_of_compareEntries

theorem length_arrange_le (entries : List EntrySummary) :
    (arrange lowercase view entries).length ≤ entries.length := by
  unfold arrange sortEntries
  rw [List.length_insertionSort]
  split
  case isTrue => exact Nat.le_refl _
  case isFalse => exact List.length_filter_le _ _

theorem arrange_shown (entries : List EntrySummary) :
    arrange lowercase { view with showHidden := true } entries
      = sortEntries lowercase view entries := rfl

theorem sortEntries_perm {first second : List EntrySummary} (hperm : first.Perm second)
    (hnames : (first.map fun entry => entry.name).Nodup) :
    sortEntries lowercase view first = sortEntries lowercase view second := by
  rw [← arrange_shown, ← arrange_shown]
  exact arrange_perm hperm hnames

theorem compareEntries_directory {left right : EntrySummary} (hfirst : view.foldersFirst = true)
    (h : compareEntries lowercase view left right ≠ .gt) (hright : right.kind = .directory) :
    left.kind = .directory := by
  by_contra hleft
  apply h
  unfold compareEntries
  rw [if_pos hfirst, decide_eq_true hright, decide_eq_false hleft]
  rfl

theorem sortEntries_directories (hfirst : view.foldersFirst = true) (entries : List EntrySummary) :
    (sortEntries lowercase view entries).Pairwise fun left right =>
      right.kind = .directory → left.kind = .directory :=
  (List.pairwise_insertionSort (NotAfter lowercase view) entries).imp
    fun h hright => compareEntries_directory hfirst h hright

-- ==== list_all

theorem listPages_of_serves {number : Nat} {token : Option String}
    (h : Serves answers number token pages)
    (hfuel : pages.length ≤ fuel) (entries : List EntrySummary) :
    listPages answers fuel number token entries
      = some (.ok (entries ++ pages.flatMap fun page => page.entries)) := by
  induction h generalizing fuel entries with
  | last hpage hlast =>
    obtain ⟨fuel, rfl⟩ := Nat.exists_eq_succ_of_ne_zero (Nat.ne_of_gt hfuel)
    unfold listPages
    rw [hpage]
    simp [hlast]
  | more hpage hmore hrest ih =>
    rw [List.length_cons] at hfuel
    obtain ⟨fuel, rfl⟩ := Nat.exists_eq_succ_of_ne_zero (show fuel ≠ 0 by omega)
    unfold listPages
    rw [hpage]
    simp only [hmore, Bool.not_true, Bool.false_eq_true, if_false]
    rw [ih (by omega), List.flatMap_cons, List.append_assoc]

theorem listAll_of_serves (h : Serves answers 0 none pages) (hfuel : pages.length ≤ fuel) :
    listAll answers fuel = some (.ok (pages.flatMap fun page => page.entries)) :=
  listPages_of_serves h hfuel []

-- ==== the steps of a call

namespace Tasks

variable {w w' : World} {i offset : Nat} {request : ListDirectoryRequest} {full : List EntrySummary}
  {others : Nat → World → World} {enumeration : Enumeration} {writable tracking : Bool}
  {ids : RequestId → RequestId}

theorem apply_enumerate {cached : Option (List EntrySummary)}
    (hcall : w.calls[i]? = some { request := request, phase := .enumerating cached })
    (hlocation : enumeration.location = request.location)
    (hprepare : prepare lowercase { request := request, cached := cached, answered := false }
      (.ok (annotateGitStatus enumeration request.view.showGitStatus)) = .ok (full, offset)) :
    ∃ w', apply lowercase (.enumerate i (.ok enumeration)) w = some w' ∧ w'.pane = w.pane
      ∧ w'.calls[i]? = some { request := request, phase := .committing full offset } := by
  have hof : isOf request.location (.ok enumeration) = true := decide_eq_true hlocation
  have hi := (List.getElem?_eq_some_iff.mp hcall).1
  refine ⟨enumerate lowercase w i { request := request, phase := .enumerating cached } cached
    (.ok enumeration), ?_, rfl, ?_⟩
  · unfold apply
    simp only [hcall, hof, if_true]
  · unfold enumerate
    simp only [Except.map, hprepare]
    exact List.getElem?_set_self hi

theorem apply_commit {pane : PaneRequest} (writable tracking : Bool)
    (hcall : w.calls[i]? = some { request := request, phase := .committing full offset })
    (hpane : w.pane = some pane) (hid : pane.requestId = request.requestId) :
    ∃ w' snapshot, apply lowercase (.commit i writable tracking) w = some w'
      ∧ snapshot = pageSnapshot request full offset (pane.revision + 1) writable
      ∧ w'.pane = some { pane with
          revision := pane.revision + 1, fullEntries := some full, snapshot := some snapshot }
      ∧ w'.calls[i]? = some { request := request
                              phase := if request.continuationToken = none ∧ tracking = true
                                then .acquiring snapshot pane.watchToken
                                else .returned (.ok snapshot) } := by
  have hi := (List.getElem?_eq_some_iff.mp hcall).1
  refine ⟨commit w i { request := request, phase := .committing full offset } full offset
    writable tracking, _, ?_, rfl, ?_, ?_⟩
  · unfold apply
    simp only [hcall]
  · unfold commit
    simp only [hpane, hid, if_true]
  · unfold commit
    simp only [hpane, hid, if_true]
    exact List.getElem?_set_self hi

theorem apply_acquire {snapshot : DirectorySnapshot} {token : Nat}
    (hcall : w.calls[i]? = some { request := request, phase := .acquiring snapshot token }) :
    ∃ w', apply lowercase (.acquire i (.ok ())) w = some w' ∧ w'.pane = w.pane
      ∧ w'.calls[i]? = some { request := request, phase := .returned (.ok snapshot) } := by
  have hi := (List.getElem?_eq_some_iff.mp hcall).1
  refine ⟨acquire w i { request := request, phase := .acquiring snapshot token } snapshot token
    (.ok ()), ?_, rfl, ?_⟩
  · unfold apply
    simp only [hcall]
  · exact List.getElem?_set_self hi

-- ==== one page of many

/-- The pane has the listing cached, and shows a page of it. -/
structure Holds (w : World) (full : List EntrySummary) (location : Location)
    (view : ViewOptions) : Prop where
  pane : ∃ pane snapshot, w.pane = some pane ∧ pane.view = view
    ∧ pane.fullEntries = some full ∧ pane.snapshot = some snapshot
    ∧ snapshot.location = location

theorem Holds.of_pane {location : Location} (h : Holds w full location view)
    (hpane : w'.pane = w.pane) : Holds w' full location view := by
  obtain ⟨pane, snapshot, hfound, hrest⟩ := h.pane
  exact ⟨pane, snapshot, hpane.trans hfound, hrest⟩

/-- A call for the request goes by the listing, and its page begins at the
offset. -/
structure Ready (lowercase : String → String) (enumeration : Enumeration) (w : World)
    (request : ListDirectoryRequest) (full : List EntrySummary) (offset : Nat) : Prop where
  location : enumeration.location = request.location
  view : (registerPane w.pane w.tokens request).view = request.view
  prepare : prepare lowercase
    { request := request, cached := (registerPane w.pane w.tokens request).fullEntries
      answered := false }
    (.ok (annotateGitStatus enumeration request.view.showGitStatus)) = .ok (full, offset)
  range : offset ≤ full.length

theorem prepare_eq {call : ListCall} {entries : List EntrySummary}
    (hdecoded : decodePageOffset call.request.continuationToken = .ok offset)
    (hrange : offset ≤ (call.listing lowercase entries).length) :
    prepare lowercase call (.ok entries) = .ok (call.listing lowercase entries, offset) := by
  unfold prepare
  simp only [hdecoded]
  exact if_neg (Nat.not_lt.mpr hrange)

theorem registerPane_first (hfirst : request.continuationToken = none) :
    registerPane w.pane w.tokens request = {
      requestId := request.requestId
      watchToken := w.tokens
      revision := match w.pane with
        | some previous => previous.revision
        | none => 0
      view := request.view
      snapshot := none
      fullEntries := none } := by
  unfold registerPane continuesListing
  cases w.pane with
  | none | some previous => simp only [hfirst]

theorem ready_first (hfirst : request.continuationToken = none)
    (hlocation : enumeration.location = request.location) :
    Ready lowercase enumeration w request (enumeration.listing lowercase request.view) 0 := by
  have hpane := @registerPane_first w request hfirst
  refine ⟨hlocation, by rw [hpane], ?_, Nat.zero_le _⟩
  rw [hpane]
  refine prepare_eq ?_ (Nat.zero_le _)
  rw [hfirst]
  rfl

theorem ready_later (h : Holds w full request.location request.view)
    (htoken : request.continuationToken = some (.offset offset))
    (hlocation : enumeration.location = request.location) (hrange : offset ≤ full.length) :
    Ready lowercase enumeration w request full offset := by
  obtain ⟨pane, snapshot, hpane, hview, hfull, hsnapshot, hshown⟩ := h.pane
  have hcontinues : registerPane w.pane w.tokens request
      = { pane with requestId := request.requestId } := by
    unfold registerPane continuesListing
    rw [htoken, hpane]
    simp only [hsnapshot, hshown, hview, and_self, if_true]
  refine ⟨hlocation, by rw [hcontinues]; exact hview, ?_, hrange⟩
  rw [hcontinues]
  simp only [hfull]
  refine prepare_eq ?_ hrange
  rw [htoken]
  rfl

theorem listPage_eq (hquiet : ∀ i w, Quiet i w (others i w))
    (h : Ready lowercase enumeration w request full offset) :
    ∃ w' revision, listPage lowercase others enumeration writable tracking w request
        = some (w', pageSnapshot request full offset revision writable)
      ∧ Holds w' full request.location request.view := by
  let i := w.calls.length
  let pane := registerPane w.pane w.tokens request
  have hid : pane.requestId = request.requestId := by
    rcases registerPane_cases w.pane w.tokens request with ⟨_, _, _, _, _, _, heq⟩ | heq
    · exact congrArg PaneRequest.requestId heq
    · exact congrArg PaneRequest.requestId heq
  -- the request
  let w₁ := register w request
  have hcall₁ : w₁.calls[i]? = some { request := request, phase := .enumerating pane.fullEntries } :=
    List.getElem?_concat_length
  have hquiet₁ := hquiet i w₁
  -- the enumeration
  obtain ⟨w₂, happly₂, hpane₂, hcall₂⟩ :=
    apply_enumerate (hquiet₁.call.trans hcall₁) h.location h.prepare
  have hquiet₂ := hquiet i w₂
  -- the page
  have hpane₂' : (others i w₂).pane = some pane :=
    hquiet₂.pane.trans (hpane₂.trans (hquiet₁.pane.trans rfl))
  obtain ⟨w₃, snapshot, happly₃, hsnapshot, hpane₃, hcall₃⟩ :=
    apply_commit writable tracking (hquiet₂.call.trans hcall₂) hpane₂' hid
  have hquiet₃ := hquiet i w₃
  have hlocation' : snapshot.location = request.location := by
    rw [hsnapshot]
    rfl
  have hholds : Holds w₃ full request.location request.view :=
    ⟨_, snapshot, hpane₃, h.view, rfl, rfl, hlocation'⟩
  by_cases hwatch : request.continuationToken = none ∧ tracking = true
  · -- the watch
    rw [if_pos hwatch] at hcall₃
    obtain ⟨w₄, happly₄, hpane₄, hcall₄⟩ := apply_acquire (hquiet₃.call.trans hcall₃)
    refine ⟨others i w₄, pane.revision + 1, ?_,
      hholds.of_pane ((hquiet i w₄).pane.trans (hpane₄.trans hquiet₃.pane))⟩
    have hpage : w₄.page i = some snapshot := by
      unfold World.page
      rw [hcall₄]
    show (listPage lowercase others enumeration writable tracking w request) = _
    unfold listPage
    simp only [bind_eq_bind]
    rw [show apply lowercase (.request request) w = some w₁ from rfl, bind_some, happly₂, bind_some,
      happly₃, bind_some, if_pos hwatch, happly₄, bind_some, hpage, bind_some, hsnapshot]
    rfl
  · rw [if_neg hwatch] at hcall₃
    refine ⟨others i w₃, pane.revision + 1, ?_, hholds.of_pane hquiet₃.pane⟩
    have hpage : w₃.page i = some snapshot := by
      unfold World.page
      rw [hcall₃]
    unfold listPage
    simp only [bind_eq_bind]
    rw [show apply lowercase (.request request) w = some w₁ from rfl, bind_some, happly₂, bind_some,
      happly₃, bind_some, if_neg hwatch, bind_some, hpage, bind_some, hsnapshot]
    rfl

-- ==== all the pages

theorem slice_append {last : Nat} (h : offset ≤ last) :
    (full.drop offset).take (last - offset) ++ full.drop last = full.drop offset := by
  have hdrop : full.drop last = (full.drop offset).drop (last - offset) := by
    rw [List.drop_drop, Nat.add_sub_cancel' h]
  rw [hdrop, List.take_append_drop]

/-- Following the tokens from a request on gives the listing from its
offset on: by induction on the number of pages that may still come. -/
theorem pages_from_offset (hquiet : ∀ i w, Quiet i w (others i w)) {fuel : Nat}
    (h : Ready lowercase enumeration w request full offset)
    (hfuel : full.length < offset + fuel * listPageSize) :
    ∃ pages, followTokens lowercase others enumeration writable tracking ids fuel w request
        = some pages ∧ pages.flatMap (fun page => page.entries) = full.drop offset := by
  induction fuel generalizing w request offset with
  | zero =>
    have := h.range
    omega
  | succ fuel ih =>
    obtain ⟨w', revision, hpage, hholds⟩ := listPage_eq hquiet h
    unfold followTokens
    simp only [bind_eq_bind]
    rw [hpage, bind_some]
    by_cases hmore : min full.length (offset + listPageSize) < full.length
    · -- the next request begins where this page ends
      let last := min full.length (offset + listPageSize)
      have hnext : Ready lowercase enumeration w' (nextPage request (ids request.requestId)
            (pageSnapshot request full offset revision writable)) full last := by
        refine ready_later hholds ?_ h.location (Nat.min_le_left _ _)
        show ((pageSnapshot request full offset revision writable).continuationToken).map _ = _
        unfold pageSnapshot
        simp only [decide_eq_true hmore, if_true]
        rfl
      have hlast : last = offset + listPageSize := by
        simp only [last]
        omega
      obtain ⟨rest, hrest, hentries⟩ := ih hnext (by
        rw [hlast]
        rw [Nat.add_one_mul] at hfuel
        omega)
      refine ⟨pageSnapshot request full offset revision writable :: rest, ?_, ?_⟩
      · simp only [pageSnapshot, decide_eq_true hmore, if_true] at hrest ⊢
        rw [hrest]
        rfl
      · rw [List.flatMap_cons, hentries]
        exact slice_append (by omega)
    · refine ⟨[pageSnapshot request full offset revision writable], ?_, ?_⟩
      · simp only [pageSnapshot, decide_eq_false hmore, Bool.false_eq_true, if_false]
        rfl
      · rw [List.flatMap_cons, List.flatMap_nil, List.append_nil]
        show (full.drop offset).take (min full.length (offset + listPageSize) - offset) = _
        refine List.take_of_length_le ?_
        rw [List.length_drop]
        omega

end Tasks

-- ==== the listing

open Tasks

/-- Entries with different names have one order, whatever the order and
the pages in which the provider lists them, and the pages that a client
is given are that sequence. -/
theorem listing_order_canonical {entries : List EntrySummary}
    (hnames : (entries.map fun entry => entry.name).Nodup) :
    Canonical (compareEntries lowercase view)
      ∧ (∀ answers pages fuel, Serves answers 0 none pages → pages.length ≤ fuel →
        (pages.flatMap fun page => page.entries).Perm entries →
        ∃ listed, listAll answers fuel = some (.ok listed)
          ∧ sortEntries lowercase view listed = sortEntries lowercase view entries)
      ∧ (sortEntries lowercase view entries).Perm entries
      ∧ (view.foldersFirst = true →
        (sortEntries lowercase view entries).Pairwise fun left right =>
          right.kind = .directory → left.kind = .directory)
      ∧ ∀ (others : Nat → World → World) (enumeration : Enumeration) (writable tracking : Bool)
          (ids : RequestId → RequestId) (fuel : Nat) (w : World) (request : ListDirectoryRequest),
        (∀ i w, Quiet i w (others i w)) → request.continuationToken = none →
        request.view = view → enumeration.location = request.location →
        (annotateGitStatus enumeration view.showGitStatus).Perm entries →
        entries.length < fuel * listPageSize →
        ∃ pages, followTokens lowercase others enumeration writable tracking ids fuel w request
            = some pages
          ∧ pages.flatMap (fun page => page.entries) = sortEntries lowercase view
              (if view.showHidden then entries else entries.filter fun entry => !entry.hidden) := by
  refine ⟨canonical_compareEntries, ?_, List.perm_insertionSort _ _,
    fun hfirst => sortEntries_directories hfirst entries, ?_⟩
  · intro answers pages fuel hserves hfuel hperm
    refine ⟨_, listAll_of_serves hserves hfuel, (sortEntries_perm hperm.symm hnames).symm⟩
  · intro others enumeration writable tracking ids fuel w request hquiet hfirst hview hlocation
      hperm hfuel
    have hlisting : enumeration.listing lowercase request.view = arrange lowercase view entries := by
      unfold Enumeration.listing
      rw [hview]
      exact (arrange_perm hperm.symm hnames).symm
    have hready : Ready lowercase enumeration w request (arrange lowercase view entries) 0 :=
      hlisting ▸ ready_first hfirst hlocation
    have hlength := @length_arrange_le lowercase view entries
    have hbound : (arrange lowercase view entries).length < 0 + fuel * listPageSize := by
      omega
    obtain ⟨pages, hpages, hentries⟩ := pages_from_offset hquiet hready hbound
    exact ⟨pages, hpages, hentries.trans List.drop_zero⟩

/-- Three files that the provider lists the other way round. -/
theorem three_files_in_one_order :
    ∃ pages, followTokens id (fun _ w => w)
        { sampleEnumeration 3 with entries := (sampleListing 0 3).reverse } true true id 1
        World.initial (sampleRequest 1 none) = some pages
      ∧ pages.flatMap (fun page => page.entries)
        = sortEntries id (sampleRequest 1 none).view (sampleListing 0 3) := by
  have hnames : ((sampleListing 0 3).map fun entry => entry.name).Nodup := by decide +kernel
  obtain ⟨pages, hpages, hentries⟩ :=
    (@listing_order_canonical id (sampleRequest 1 none).view _ hnames).2.2.2.2 (fun _ w => w)
      { sampleEnumeration 3 with entries := (sampleListing 0 3).reverse } true true id 1
      World.initial (sampleRequest 1 none) (fun _ _ => ⟨rfl, rfl⟩) rfl rfl rfl
      (List.reverse_perm _) (by decide)
  refine ⟨pages, hpages, hentries.trans ?_⟩
  decide +kernel

end FileManager.Directory
