/-
Comparisons by content. Two files are classified by their digests if
there are both; else, whatever the reason, by size and time.

# The argument

The row of a visit is a function of the digests the visit gets. It gets
both exactly if both files are read to their ends before the token fires
(`ReadsBoth`), and they are then the digests of the undisturbed
comparison. So what a missing digest does is decided visit by visit.
-/
import FileManager.Comparison.Proofs.Exact
import FileManager.Comparison.Proofs.Visits

namespace FileManager.Comparison

open Vfs (EntrySummary Providers)
open Checksums (Readable ReadsToEnd looksToRead streamed)
open Option
open List

variable {env : Env} {chunks : List (Except String Vfs.Bytes)} {entry left right : EntrySummary}
  {look : Nat} {content : Vfs.Bytes} {hashes : Option String × Option String}
  {relativePath a b : String} {criteria : ComparisonCriteria} {options : ComparisonOptions}
  {t : Traversal}

-- ==== digests

theorem hashEntry_eq (hchunks : env.providers.chunks entry.location = .ok chunks)
    (hstream : streamed chunks = some content)
    (htoken : env.token.isCancelled (look + looksToRead env.providers entry.location - 1) = false) :
    hashEntry env entry look = (some (env.digests .sha256 content),
        look + looksToRead env.providers entry.location) := by
  have hentry : env.providers.chunks entry.entry.location = .ok chunks := hchunks
  unfold hashEntry
  rw [Checksums.hashEntry_of_streamed (by simp) hentry hstream htoken]
  rfl

theorem digestOf_eq (hchunks : env.providers.chunks entry.location = .ok chunks)
    (hstream : streamed chunks = some content) :
    digestOf env entry = some (env.digests .sha256 content) := by
  have hidle : env.idle.providers.chunks entry.location = .ok chunks := hchunks
  unfold digestOf
  rw [hashEntry_eq hidle hstream rfl]
  rfl

theorem digestOf_of_readable (h : Readable env.providers entry.location) :
    digestOf env entry ≠ none := by
  obtain ⟨chunks, content, hchunks, hstream⟩ := h
  rw [digestOf_eq hchunks hstream]
  exact some_ne_none _

theorem hashEntry_of_readsToEnd (h : ReadsToEnd env.providers env.token entry.location look) :
    hashEntry env entry look
      = (digestOf env entry, look + looksToRead env.providers entry.location) := by
  obtain ⟨⟨chunks, content, hchunks, hstream⟩, htoken⟩ := h
  rw [hashEntry_eq hchunks hstream htoken, digestOf_eq hchunks hstream]

theorem readsToEnd_of_hashEntry (h : (hashEntry env entry look).1 ≠ none) :
    ReadsToEnd env.providers env.token entry.location look := by
  unfold hashEntry at h
  generalize hhash : Checksums.hashEntry env.digests env.providers env.token entry.entry
    [.sha256] look = hashed at h
  obtain ⟨result, after⟩ := hashed
  cases result with
  | error error => exact absurd rfl h
  | ok set => exact Checksums.readsToEnd_of_hashEntry hhash

/-- Both files of a pair are read to their ends before the token fires. -/
def ReadsBoth (env : Env) (left right : EntrySummary) (look : Nat) : Prop :=
  ReadsToEnd env.providers env.token left.location look
    ∧ ReadsToEnd env.providers env.token right.location
      (look + looksToRead env.providers left.location)

theorem pairHashes_of_readsBoth (h : ReadsBoth env left right look) :
    pairHashes env look (some left) (some right) = (digestOf env left, digestOf env right) := by
  simp only [pairHashes, hashEntry_of_readsToEnd h.1, hashEntry_of_readsToEnd h.2]

theorem readsBoth_of_pairHashes (hleft : (pairHashes env look (some left) (some right)).1 ≠ none)
    (hright : (pairHashes env look (some left) (some right)).2 ≠ none) :
    ReadsBoth env left right look := by
  have hreads := readsToEnd_of_hashEntry hleft
  refine ⟨hreads, ?_⟩
  simp only [pairHashes, hashEntry_of_readsToEnd hreads] at hright
  exact readsToEnd_of_hashEntry hright

-- ==== rows

/-- Size and time tell the two entries apart. -/
def ToldApart (left right : EntrySummary) : Prop :=
  classifyBySizeAndTimestamp (sideFrom left none) (sideFrom right none) ≠ .identical

theorem rowWith_files (hleft : left.kind = .file) (hright : right.kind = .file) :
    rowWith .contentHash relativePath hashes (some left) (some right)
      = some ⟨relativePath, some (sideFrom left hashes.1), some (sideFrom right hashes.2),
          classifyByContentHash (sideFrom left hashes.1) (sideFrom right hashes.2)⟩ := by
  have hhashed : Hashed .contentHash left right := ⟨rfl, hleft, hright⟩
  simp only [rowWith]
  rw [if_neg (by simp [hleft]), if_pos hhashed]
  unfold classify
  rw [if_neg (by simp [sideFrom, hleft, hright]), if_neg (by simp [sideFrom, hleft])]

theorem classifyByContentHash_of_missing (h : ¬ (hashes.1 ≠ none ∧ hashes.2 ≠ none)) :
    classifyByContentHash (sideFrom left hashes.1) (sideFrom right hashes.2)
      = classifyBySizeAndTimestamp (sideFrom left none) (sideFrom right none) := by
  obtain ⟨leftHash, rightHash⟩ := hashes
  unfold classifyByContentHash
  cases leftHash with
  | none => rfl
  | some leftHash =>
    cases rightHash with
    | none => rfl
    | some rightHash => exact absurd ⟨some_ne_none _, some_ne_none _⟩ h

theorem classifyByContentHash_of_digests :
    classifyByContentHash (sideFrom left (some a)) (sideFrom right (some b)) = .identical
      ↔ a = b := by
  unfold classifyByContentHash sideFrom
  simp only
  split
  case isTrue hsame => exact ⟨fun _ => hsame, fun _ => rfl⟩
  case isFalse hdiffer =>
    refine ⟨fun h => ?_, fun h => absurd h hdiffer⟩
    unfold timestampDirection at h
    split at h
    · split at h
      · cases h
      · split at h <;> cases h
    · cases h

theorem classifyByContentHash_of_ne (h : a ≠ b) (htold : ToldApart left right) :
    classifyByContentHash (sideFrom left (some a)) (sideFrom right (some b))
      = classifyBySizeAndTimestamp (sideFrom left none) (sideFrom right none) := by
  unfold ToldApart classifyBySizeAndTimestamp at htold
  unfold classifyByContentHash classifyBySizeAndTimestamp
  have hdirection : timestampDirection (sideFrom left (some a)) (sideFrom right (some b))
      = timestampDirection (sideFrom left none) (sideFrom right none) := rfl
  simp only [hdirection]
  cases hcases : timestampDirection (sideFrom left none) (sideFrom right none) with
  | some direction => exact if_neg h
  | none =>
    rw [hcases] at htold
    by_cases hsize : (sideFrom left none).size = (sideFrom right none).size
    · exact absurd (if_neg (not_not.mpr hsize)) htold
    · exact (if_neg h).trans (if_pos hsize).symm

theorem classify_agrees_iff :
    classifyBySizeAndTimestamp (sideFrom left none) (sideFrom right none)
        = classifyByContentHash (sideFrom left (some a)) (sideFrom right (some b))
      ↔ (ToldApart left right ↔ a ≠ b) := by
  by_cases hsame : a = b
  · rw [classifyByContentHash_of_digests.mpr hsame]
    unfold ToldApart
    simp [hsame]
  · constructor
    · intro heq
      refine ⟨fun _ => hsame, fun _ hidentical => ?_⟩
      rw [hidentical] at heq
      exact hsame (classifyByContentHash_of_digests.mp heq.symm)
    · intro htold
      exact (classifyByContentHash_of_ne hsame (htold.mpr hsame)).symm

theorem rowWith_of_not_hashed {left right : Option EntrySummary}
    (h : ∀ l r, left = some l → right = some r → ¬ Hashed criteria l r)
    (hashes hashes' : Option String × Option String) :
    rowWith criteria relativePath hashes left right
      = rowWith criteria relativePath hashes' left right := by
  cases left with
  | none => cases right <;> rfl
  | some left =>
    cases right with
    | none => rfl
    | some right =>
      simp only [rowWith, if_neg (h left right rfl rfl)]

-- ==== what a row has checked

/-- Files are called identical only with two digests that are equal. -/
def Verified (entries : List ComparisonEntry) : Prop :=
  ∀ row ∈ entries, ∀ left right, row.left = some left → row.right = some right →
    left.kind = .file → right.kind = .file → row.status = .identical →
    ∃ digest, left.contentHash = some digest ∧ right.contentHash = some digest

/-- A pair of files whose turn comes at a visit. -/
def Visit.Files (visit : Visit) (left right : EntrySummary) : Prop :=
  visit.left = some left ∧ visit.right = some right ∧ left.kind = .file ∧ right.kind = .file

variable {visit : Visit}

theorem Visit.Files.row (h : visit.Files left right) (env : Env) :
    visit.row env .contentHash = some ⟨visit.relativePath,
          some (sideFrom left (pairHashes env visit.look (some left) (some right)).1),
          some (sideFrom right (pairHashes env visit.look (some left) (some right)).2),
          classifyByContentHash
            (sideFrom left (pairHashes env visit.look (some left) (some right)).1)
            (sideFrom right (pairHashes env visit.look (some left) (some right)).2)⟩ := by
  obtain ⟨hleft, hright, hleftKind, hrightKind⟩ := h
  unfold Visit.row
  rw [hleft, hright]
  exact rowWith_files hleftKind hrightKind

theorem exists_files_of_row {row : ComparisonEntry} (h : visit.row env .contentHash = some row)
    {left right : ComparisonEntrySide} (hleft : row.left = some left)
    (hright : row.right = some right) (hleftKind : left.kind = .file)
    (hrightKind : right.kind = .file) : ∃ l r, visit.Files l r := by
  unfold Visit.row at h
  cases hl : visit.left with
  | none =>
    rw [hl] at h
    cases hr : visit.right with
    | none => rw [hr] at h; cases h
    | some r =>
      rw [hr] at h
      injection h with h
      simp [← h] at hleft
  | some l =>
    rw [hl] at h
    cases hr : visit.right with
    | none =>
      rw [hr] at h
      injection h with h
      simp [← h] at hright
    | some r =>
      rw [hr] at h
      have hkinds : l.kind = .file ∧ r.kind = .file := by
        simp only [rowWith] at h
        split at h
        all_goals
          injection h with h
          rw [← h] at hleft hright
          injection hleft with hleft
          injection hright with hright
          rw [← hleft] at hleftKind
          rw [← hright] at hrightKind
          exact ⟨hleftKind, hrightKind⟩
      exact ⟨l, r, hl, hr, hkinds⟩

theorem verified_iff (hcriteria : criteria = .contentHash) (made : List Visit) :
    Verified (made.filterMap (Visit.row env criteria))
      ↔ ∀ visit ∈ made, ∀ left right, visit.Files left right →
        ReadsBoth env left right visit.look ∨ ToldApart left right := by
  subst hcriteria
  constructor
  · intro hverified visit hvisit left right hfiles
    by_cases hboth : (pairHashes env visit.look (some left) (some right)).1 ≠ none
        ∧ (pairHashes env visit.look (some left) (some right)).2 ≠ none
    · exact .inl (readsBoth_of_pairHashes hboth.1 hboth.2)
    · refine .inr fun hidentical => hboth ?_
      have hrow := hfiles.row env
      obtain ⟨-, -, hleftKind, hrightKind⟩ := hfiles
      obtain ⟨digest, hleft, hright⟩ := hverified _ (mem_filterMap.mpr ⟨visit, hvisit, hrow⟩)
        _ _ rfl rfl hleftKind hrightKind (by
          rw [classifyByContentHash_of_missing hboth]
          exact hidentical)
      refine ⟨?_, ?_⟩
      · rw [show (pairHashes env visit.look (some left) (some right)).1 = some digest from hleft]
        exact some_ne_none _
      · rw [show (pairHashes env visit.look (some left) (some right)).2 = some digest from hright]
        exact some_ne_none _
  · intro hvisits row hrow left right hleft hright hleftKind hrightKind hidentical
    obtain ⟨visit, hvisit, hrow⟩ := mem_filterMap.mp hrow
    obtain ⟨l, r, hfiles⟩ := exists_files_of_row hrow hleft hright hleftKind hrightKind
    rw [hfiles.row env] at hrow
    injection hrow with hrow
    rw [← hrow] at hleft hright hidentical
    injection hleft with hleft
    injection hright with hright
    rw [← hleft, ← hright]
    by_cases hboth : (pairHashes env visit.look (some l) (some r)).1 ≠ none
        ∧ (pairHashes env visit.look (some l) (some r)).2 ≠ none
    · obtain ⟨a, ha⟩ := ne_none_iff_exists'.mp hboth.1
      obtain ⟨b, hb⟩ := ne_none_iff_exists'.mp hboth.2
      simp only [ha, hb] at hidentical ⊢
      rw [classifyByContentHash_of_digests] at hidentical
      exact ⟨a, rfl, by rw [hidentical]; rfl⟩
    · rcases hvisits visit hvisit l r hfiles with hreads | htold
      · rw [pairHashes_of_readsBoth hreads] at hboth
        refine absurd ⟨?_, ?_⟩ hboth
        · exact digestOf_of_readable hreads.1.1
        · exact digestOf_of_readable hreads.2.1
      · simp only at hidentical
        rw [classifyByContentHash_of_missing hboth] at hidentical
        exact absurd hidentical htold

-- ==== cancelled comparisons

/-- Every file that a listing shows can be read. -/
def NoReadFailures (providers : Providers) : Prop :=
  ∀ location entries entry, providers.listing location = some entries → entry ∈ entries →
    entry.kind = .file → Readable providers entry.location

/-- Every entry is among the others, with the same status. -/
def PartOf (entries others : List ComparisonEntry) : Prop :=
  ∀ row ∈ entries, ∃ row' ∈ others, row'.relativePath = row.relativePath ∧ row'.status = row.status

theorem mem_of_get_indexByName {entries : List EntrySummary} {showHidden : Bool} {name : String}
    (h : Keyed.get (indexByName entries showHidden) name = some entry) : entry ∈ entries := by
  -- what is in the map has been put there
  have hput : ∀ (listed : List EntrySummary) (index : List (String × EntrySummary)),
      Keyed.get (listed.foldl (fun index entry => Keyed.put index entry.name entry) index) name
        = some entry → entry ∈ listed ∨ Keyed.get index name = some entry := by
    intro listed
    induction listed with
    | nil => exact fun index hget => .inr hget
    | cons first rest ih =>
      intro index hget
      rcases ih _ hget with hmem | hget
      · exact .inl (mem_cons_of_mem _ hmem)
      · rw [Keyed.get_put] at hget
        split at hget
        case isTrue =>
          injection hget with heq
          rw [heq]
          exact .inl mem_cons_self
        case isFalse => exact .inr hget
  rcases hput _ _ h with hmem | hget
  · exact (mem_filter.mp hmem).1
  · cases hget

theorem listed_of_nameVisits {dir : PendingDir}
    {left right : List EntrySummary} {names : List String}
    (h : visit ∈ nameVisits env options dir (indexByName left options.showHidden) (indexByName
      right options.showHidden) names t) :
    (∀ l, visit.left = some l → l ∈ left) ∧ ∀ r, visit.right = some r → r ∈ right := by
  induction names generalizing t with
  | nil => cases h
  | cons name rest ih =>
    unfold nameVisits at h
    split at h
    case isTrue => cases h
    case isFalse =>
      rcases mem_cons.mp h with rfl | h
      · exact ⟨fun l hl => mem_of_get_indexByName hl, fun r hr => mem_of_get_indexByName hr⟩
      · exact ih h

theorem listed_of_visits (hidle : env.token = .idle) {fuel : Nat}
    (h : visit ∈ visits env options fuel t) :
    ∃ leftLocation leftEntries rightLocation rightEntries,
      env.providers.listing leftLocation = some leftEntries
        ∧ env.providers.listing rightLocation = some rightEntries
        ∧ (∀ l, visit.left = some l → l ∈ leftEntries)
        ∧ ∀ r, visit.right = some r → r ∈ rightEntries := by
  induction fuel generalizing t with
  | zero => cases h
  | succ fuel ih =>
    unfold visits at h
    cases hturn : t.turn env options with
    | leave last => rw [hturn] at h; cases h
    | next next =>
      rw [hturn] at h
      rcases mem_append.mp h with h | h
      · unfold turnVisits at h
        cases hstack : t.stack with
        | nil => rw [hstack] at h; cases h
        | cons dir stack =>
          rw [hstack] at h
          simp only at h
          split at h
          case isTrue => cases h
          case isFalse =>
            split at h
            case isTrue => cases h
            case isFalse =>
              unfold dirVisits at h
              rw [hidle] at h
              have hleft := env.providers.listAll_idle dir.left (t.look + 1)
              generalize env.providers.listAll .idle dir.left (t.look + 1) = listed
                at h hleft
              obtain ⟨left, look⟩ := listed
              cases left with
              | none => cases h
              | some left =>
                simp only at h
                have hright := env.providers.listAll_idle dir.right look
                generalize env.providers.listAll .idle dir.right look = listed
                  at h hright
                obtain ⟨right, look'⟩ := listed
                cases right with
                | none => cases h
                | some right =>
                  exact ⟨_, _, _, _, hleft.symm, hright.symm, listed_of_nameVisits h⟩
      · exact ih h

section Cancelled

variable {options : ComparisonOptions} {leftRoot rightRoot : Location} {left right : Tree}
  (hleft : Presents env.providers leftRoot left) (hright : Presents env.providers rightRoot right)
  (hcriteria : options.criteria = .contentHash) (hread : NoReadFailures env.providers) {fuel : Nat}
  {t : Traversal} (hrun : runComparison env options leftRoot rightRoot fuel = some t)
  {idleFuel : Nat} {idle : Traversal}
  (hidle : runComparison env.idle options leftRoot rightRoot idleFuel = some idle)
  {l r : EntrySummary} {visit : Visit}

include hread hidle in
theorem digests_of_visit (hvisit : visit ∈ visits env options fuel (.start leftRoot rightRoot))
    (hfiles : visit.Files l r) : ∃ a b, digestOf env l = some a ∧ digestOf env r = some b := by
  have hmem := (visits_of_run hidle fuel).subset hvisit
  have htoken : env.idle.token = .idle := rfl
  obtain ⟨_, _, _, _, hleftListing, hrightListing, hl, hr⟩ := listed_of_visits htoken hmem
  obtain ⟨hvl, hvr, hlkind, hrkind⟩ := hfiles
  have hleftRead := hread _ _ l hleftListing (hl l hvl) hlkind
  have hrightRead := hread _ _ r hrightListing (hr r hvr) hrkind
  obtain ⟨a, ha⟩ := ne_none_iff_exists'.mp (digestOf_of_readable hleftRead)
  obtain ⟨b, hb⟩ := ne_none_iff_exists'.mp (digestOf_of_readable hrightRead)
  exact ⟨a, b, ha, hb⟩

theorem Visit.Files.idle_row (h : visit.Files l r) {a b : String}
    (ha : digestOf env l = some a) (hb : digestOf env r = some b) :
    visit.row env.idle .contentHash
      = some ⟨visit.relativePath, some (sideFrom l (some a)), some (sideFrom r (some b)),
          classifyByContentHash (sideFrom l (some a)) (sideFrom r (some b))⟩ := by
  rw [h.row env.idle, pairHashes_idle rfl]
  have hdigests : digestsOf env.idle (some l) (some r) = (some a, some b) := by
    unfold digestsOf
    exact Prod.ext ha hb
  rw [hdigests]

include hcriteria hrun in
theorem mem_entries_of_missing
    (hvisit : visit ∈ visits env options fuel (.start leftRoot rightRoot))
    (hfiles : visit.Files l r) (hmissing : ¬ ReadsBoth env l r visit.look) :
    ∃ row ∈ t.store.entries, row.relativePath = visit.relativePath
      ∧ row.status = classifyBySizeAndTimestamp (sideFrom l none) (sideFrom r none) := by
  have hrow := hfiles.row env
  rw [← hcriteria] at hrow
  have hmem := mem_filterMap.mpr ⟨visit, hvisit, hrow⟩
  rw [← entries_eq_rows hrun] at hmem
  exact ⟨_, hmem, rfl, classifyByContentHash_of_missing fun hboth =>
    hmissing (readsBoth_of_pairHashes hboth.1 hboth.2)⟩

include hleft hright hcriteria hread hrun hidle in
theorem partOf_iff :
    PartOf t.store.entries idle.store.entries
      ↔ ∀ visit ∈ visits env options fuel (.start leftRoot rightRoot),
        ∀ l r, visit.Files l r → ReadsBoth env l r visit.look
          ∨ (ToldApart l r ↔ digestOf env l ≠ digestOf env r) := by
  have hidleRows := entries_eq_rows hidle
  have hsubset := (visits_of_run hidle fuel).subset
  have hidleMem : ∀ visit ∈ visits env options fuel (.start leftRoot rightRoot), ∀ row,
      visit.row env.idle .contentHash = some row → row ∈ idle.store.entries := by
    intro visit hvisit row hrow
    rw [hidleRows, hcriteria]
    exact mem_filterMap.mpr ⟨visit, hsubset hvisit, hrow⟩
  constructor
  · intro hpart visit hvisit l r hfiles
    by_cases hreads : ReadsBoth env l r visit.look
    · exact .inl hreads
    · refine .inr ?_
      obtain ⟨a, b, ha, hb⟩ := digests_of_visit hread hidle hvisit hfiles
      obtain ⟨row, hrow, hpath, hstatus⟩ :=
        mem_entries_of_missing hcriteria hrun hvisit hfiles hreads
      obtain ⟨row', hrow', hpath', hstatus'⟩ := hpart row hrow
      -- the undisturbed comparison has one row for the path
      have hleft' : Presents env.idle.providers leftRoot left := hleft
      have hright' : Presents env.idle.providers rightRoot right := hright
      have hsame := inj_on_of_nodup_map (nodup_relativePaths hleft' hright' rfl hidle) hrow'
        (hidleMem visit hvisit _ (hfiles.idle_row ha hb)) (hpath'.trans hpath)
      rw [hsame, hstatus] at hstatus'
      rw [ha, hb, Ne, some_inj]
      exact classify_agrees_iff.mp hstatus'.symm
  · intro hvisits row hrow
    rw [entries_eq_rows hrun, hcriteria] at hrow
    obtain ⟨visit, hvisit, hrow⟩ := mem_filterMap.mp hrow
    by_cases hfiles : ∃ l r, visit.Files l r
    · obtain ⟨l, r, hfiles⟩ := hfiles
      obtain ⟨a, b, ha, hb⟩ := digests_of_visit hread hidle hvisit hfiles
      refine ⟨_, hidleMem visit hvisit _ (hfiles.idle_row ha hb), ?_, ?_⟩
      · exact (relativePath_rowWith hrow).symm
      · rw [hfiles.row env] at hrow
        injection hrow with hrow
        rw [← hrow]
        simp only
        by_cases hreads : ReadsBoth env l r visit.look
        · rw [pairHashes_of_readsBoth hreads, ha, hb]
        · have hagrees := (hvisits visit hvisit l r hfiles).resolve_left hreads
          rw [ha, hb, Ne, some_inj] at hagrees
          rw [classifyByContentHash_of_missing fun hboth =>
            hreads (readsBoth_of_pairHashes hboth.1 hboth.2)]
          exact (classify_agrees_iff.mpr hagrees).symm
    · -- nothing is hashed, and the rows are the same
      refine ⟨row, hidleMem visit hvisit row ?_, rfl, rfl⟩
      rw [← hrow]
      refine rowWith_of_not_hashed ?_ _ _
      intro l r hl hr hhashed
      exact hfiles ⟨l, r, hl, hr, hhashed.2⟩

end Cancelled

/-- Content comparison claims no identity it has not checked exactly
where size and time tell apart every pair of files that is not read to
its end; and a cancelled comparison is part of the undisturbed one
exactly where they tell such a pair apart if its digests differ. -/
theorem content_comparison_iff (env : Env) (options : ComparisonOptions)
    (leftRoot rightRoot : Location) (hcriteria : options.criteria = .contentHash) (fuel : Nat)
    (t : Traversal) (hrun : runComparison env options leftRoot rightRoot fuel = some t) :
    (Verified t.store.entries ↔ ∀ visit ∈ visits env options fuel (.start leftRoot rightRoot),
          ∀ l r, visit.Files l r → ReadsBoth env l r visit.look ∨ ToldApart l r)
      ∧ ∀ left right, Presents env.providers leftRoot left →
        Presents env.providers rightRoot right → NoReadFailures env.providers →
        ∀ idleFuel idle, runComparison env.idle options leftRoot rightRoot idleFuel = some idle →
          (PartOf t.store.entries idle.store.entries
            ↔ ∀ visit ∈ visits env options fuel (.start leftRoot rightRoot),
              ∀ l r, visit.Files l r → ReadsBoth env l r visit.look
                ∨ (ToldApart l r ↔ digestOf env l ≠ digestOf env r)) := by
  constructor
  · rw [entries_eq_rows hrun]
    exact verified_iff hcriteria _
  · intro left right hleft hright hread idleFuel idle hidle
    exact partOf_iff hleft hright hcriteria hread hrun hidle

/-- Two equal files that can be read. -/
theorem verified_equal_files :
    ∃ fuel t, runComparison (plainEnv (fileTree plainFile) (fileTree plainFile))
        ⟨.contentHash, true⟩ leftFolder rightFolder fuel = some t
      ∧ Verified t.store.entries := by
  obtain ⟨fuel, t, hrun⟩ : ∃ fuel t, runComparison
      (plainEnv (fileTree plainFile) (fileTree plainFile)) ⟨.contentHash, true⟩ leftFolder
      rightFolder fuel = some t :=
    finishes (presents_left _ _ _) (presents_right _ _ _) rfl
  refine ⟨fuel, t, hrun, ?_⟩
  refine (content_comparison_iff _ _ leftFolder rightFolder rfl fuel t hrun).1.mpr ?_
  intro visit _ l r _
  exact Or.inl ⟨⟨⟨_, _, rfl, rfl⟩, rfl⟩, ⟨_, _, rfl, rfl⟩, rfl⟩

/-- Two files of one size, of which the left cannot be read. -/
def unreadable : Env where
  providers := sideBySide (fileTree plainFile) (fileTree plainFile) fun location =>
    .ok [if location.startsWith leftFolder then .error "Input/output error" else .ok plainContent]
  digests := plainDigests
  token := .idle
  elapsed := fun _ => false

/-- A file that could not be read is called identical to the other. -/
theorem unread_called_identical :
    ∃ fuel t, runComparison unreadable ⟨.contentHash, true⟩ leftFolder rightFolder fuel = some t
      ∧ ∃ row ∈ t.store.entries, ∃ left right, row.left = some left ∧ row.right = some right
        ∧ left.kind = .file ∧ right.kind = .file ∧ left.contentHash = none
        ∧ row.status = .identical := by
  have hleft : Presents unreadable.providers leftFolder (fileTree plainFile) := presents_left _ _ _
  have hright : Presents unreadable.providers rightFolder (fileTree plainFile) :=
    presents_right _ _ _
  obtain ⟨fuel, t, hrun⟩ : ∃ fuel t,
      runComparison unreadable ⟨.contentHash, true⟩ leftFolder rightFolder fuel = some t :=
    finishes hleft hright rfl
  have hcompared : Compared (fileTree plainFile) (fileTree plainFile) true ([] ++ ["f"]) :=
    compared_concat_iff.mpr ⟨.nil _ _ _, Or.inl (by decide)⟩
  refine ⟨fuel, t, hrun, _, (mem_entries_iff hleft hright rfl hrun _).mpr
    ⟨["f"], hcompared, rfl⟩, _, _, rfl, rfl, rfl, rfl, ?_, ?_⟩
  · decide
  · decide

end FileManager.Comparison
