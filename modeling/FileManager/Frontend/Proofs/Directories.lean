/-
The difference of two local listings, replayed by the reducers: when the
session of a pane that has the first listing ends with the entries of
the second.

# The argument

Every session is `Normalized`: an identifier is listed once and stands
for an entry of its own. What stands under an identifier after a run of
insertions is the last entry with it (`get_foldl_insertEntry`), and the
map of `diff_entries` also keeps the last one, so several hard links in
the first listing do no harm.
-/
import FileManager.Frontend.Directories
import FileManager.Local.Proofs.Listing

namespace FileManager.Frontend

open Directory (EntrySummary EntrySummaryPayload addedEntries updatedEntries removedEntries
  diffEntries)
open Keyed Local DirEntry
open List (foldl_cons mem_filter map_cons map_map)

-- ==== normal form

/-- An identifier is listed once, and stands for an entry of its own. -/
structure Normalized (normalized : List EntryId × EntriesById) : Prop where
  ids : normalized.1.Nodup
  keys : ∀ id, id ∈ normalized.1 ↔ get normalized.2 id ≠ none
  own : ∀ id entry, get normalized.2 id = some entry → entry.id = id

theorem Normalized.empty : Normalized ([], []) where
  ids := List.nodup_nil
  keys id := ⟨fun h => (List.not_mem_nil h).elim, fun h => absurd rfl h⟩
  own _ _ h := by cases h

variable {normalized : List EntryId × EntriesById}

theorem Normalized.insertEntry (h : Normalized normalized) (entry : EntrySummaryPayload) :
    Normalized (insertEntry normalized entry) := by
  unfold Frontend.insertEntry
  refine ⟨?_, fun id => ?_, fun id other hget => ?_⟩
  · split
    case isTrue hnew =>
      refine List.nodup_append.mpr ⟨h.ids, List.nodup_singleton _, ?_⟩
      intro id hid other hother heq
      rw [heq, List.mem_singleton.mp hother] at hid
      exact (h.keys _).mp hid hnew
    case isFalse => exact h.ids
  · simp only
    rw [get_put]
    by_cases hid : id = entry.id
    · rw [if_pos hid, hid]
      refine iff_of_true ?_ (by simp)
      split
      case isTrue => exact List.mem_append_right _ (List.mem_singleton_self _)
      case isFalse hold => exact (h.keys _).mpr hold
    · rw [if_neg hid, ← h.keys id]
      split
      case isTrue => simp [hid]
      case isFalse => exact Iff.rfl
  · simp only at hget
    rw [get_put] at hget
    split at hget
    case isTrue hid => rw [hid, ← Option.some.inj hget]
    case isFalse => exact h.own id other hget

theorem Normalized.foldl (h : Normalized normalized) (entries : List EntrySummaryPayload) :
    Normalized (entries.foldl Frontend.insertEntry normalized) := by
  induction entries generalizing normalized with
  | nil => exact h
  | cons entry rest ih => exact ih (h.insertEntry entry)

theorem get_foldl_insertEntry (normalized : List EntryId × EntriesById)
    (entries : List EntrySummaryPayload) (id : EntryId) :
    get (entries.foldl insertEntry normalized).2 id
      = (entries.reverse.find? fun entry => entry.id = id).or (get normalized.2 id) := by
  induction entries generalizing normalized with
  | nil => rfl
  | cons entry rest ih =>
    rw [foldl_cons, ih, List.reverse_cons, List.find?_append]
    unfold insertEntry
    simp only
    rw [get_put, Option.or_assoc]
    congr 1
    by_cases hid : entry.id = id
    · simp [hid]
    · simp [hid, Ne.symm hid]

-- ==== directories

variable {directory : DirectoryState}

/-- A session whose identifiers are normalized. -/
def DirectoryState.IsNormalized (directory : DirectoryState) : Prop :=
  Normalized (directory.entryIds, directory.entriesById)

theorem isNormalized_ofSnapshot (snapshot : DirectorySnapshot) :
    (directoryFromSnapshot snapshot).IsNormalized :=
  Normalized.empty.foldl snapshot.entries

theorem DirectoryState.IsNormalized.upsertEntries (h : directory.IsNormalized)
    (entries : List EntrySummaryPayload) (revision : Nat) :
    (upsertEntries directory entries revision).IsNormalized :=
  h.foldl entries

theorem DirectoryState.IsNormalized.removeEntries (h : directory.IsNormalized)
    (entryIds : List EntryId) (revision : Nat) :
    (removeEntries directory entryIds revision).IsNormalized where
  ids := h.ids.filter _
  keys id := by
    show id ∈ directory.entryIds.filter (fun id => id ∉ entryIds)
      ↔ get (keep directory.entriesById fun id => id ∉ entryIds) id ≠ none
    have hkeys : id ∈ directory.entryIds ↔ get directory.entriesById id ≠ none := h.keys id
    rw [get_keep, mem_filter, hkeys]
    by_cases hremoved : id ∈ entryIds <;> simp [hremoved]
  own id entry hget := by
    have hkept : get (keep directory.entriesById fun id => id ∉ entryIds) id = some entry := hget
    rw [get_keep] at hkept
    split at hkept
    case isTrue => exact h.own id entry hkept
    case isFalse => cases hkept

theorem mem_entries (h : directory.IsNormalized) {entry : EntrySummaryPayload} :
    entry ∈ directory.entries ↔ get directory.entriesById entry.id = some entry := by
  unfold DirectoryState.entries
  rw [List.mem_filterMap]
  constructor
  · intro hfound
    obtain ⟨id, -, hget⟩ := hfound
    rw [h.own id entry hget]
    exact hget
  · intro hget
    refine ⟨entry.id, (h.keys _).mpr ?_, hget⟩
    show get directory.entriesById entry.id ≠ none
    rw [hget]
    exact nofun

-- ==== sessions

/-- A pane has one session, under its own request. -/
structure Sessions (directories : Directories) : Prop where
  keys : (directories.map Prod.fst).Nodup
  own : ∀ pair ∈ directories, pair.2.sessionId = pair.1
  normalized : ∀ pair ∈ directories, pair.2.IsNormalized

variable {k : Directory.RequestId}

theorem find?_put_self {ν : Type} {m : List (Directory.RequestId × ν)}
    {v : ν} {p : Directory.RequestId × ν → Bool} (hnew : p (k, v) = true)
    (hothers : ∀ pair ∈ m, pair.1 ≠ k → p pair = true → False) :
    (put m k v).find? p = some (k, v) := by
  unfold put
  induction m with
  | nil => simp [upsert, hnew]
  | cons pair rest ih =>
    unfold upsert
    by_cases hkey : pair.1 = k
    · rw [if_pos hkey, List.find?_cons_of_pos hnew]
    · rw [if_neg hkey, List.find?_cons_of_neg fun hpair =>
        hothers pair List.mem_cons_self hkey hpair]
      exact ih fun other hmem => hothers other (List.mem_cons_of_mem _ hmem)

theorem find?_put_first {ν : Type} {m : List (Directory.RequestId × ν)}
    {v v' : ν} {p : Directory.RequestId × ν → Bool} (hkeys : (m.map Prod.fst).Nodup)
    (hfound : m.find? p = some (k, v)) (hnew : p (k, v') = true) :
    (put m k v').find? p = some (k, v') := by
  unfold put
  induction m with
  | nil => cases hfound
  | cons pair rest ih =>
    rw [map_cons, List.nodup_cons] at hkeys
    unfold upsert
    by_cases hkey : pair.1 = k
    · rw [if_pos hkey, List.find?_cons_of_pos hnew]
    · rw [if_neg hkey]
      by_cases hpair : p pair = true
      · rw [List.find?_cons_of_pos hpair] at hfound
        exact absurd (congrArg Prod.fst (Option.some.inj hfound)) hkey
      · rw [List.find?_cons_of_neg hpair] at hfound ⊢
        exact ih hkeys.2 hfound

variable {directories : Directories} {paneId : PaneId}

theorem Sessions.put (h : Sessions directories) (hnormalized : directory.IsNormalized) :
    Sessions (put directories directory.sessionId directory) where
  keys := nodup_put h.keys _ _
  own pair hmem := by
    rcases mem_put hmem with rfl | hmem
    · rfl
    · exact h.own pair hmem
  normalized pair hmem := by
    rcases mem_put hmem with rfl | hmem
    · exact hnormalized
    · exact h.normalized pair hmem

theorem Sessions.replace (h : Sessions directories) (snapshot : DirectorySnapshot) :
    Sessions (replaceDirectorySession directories snapshot) := by
  have hothers : Sessions (directories.filter fun pair => pair.2.paneId ≠ snapshot.paneId) :=
    { keys := h.keys.sublist (List.filter_sublist.map Prod.fst)
      own := fun pair hmem => h.own pair (mem_filter.mp hmem).1
      normalized := fun pair hmem => h.normalized pair (mem_filter.mp hmem).1 }
  exact hothers.put (isNormalized_ofSnapshot snapshot)

theorem Sessions.find (h : Sessions directories)
    (hfound : findPane directories paneId = some directory) :
    (directories.find? fun pair => pair.2.paneId = paneId)
      = some (directory.sessionId, directory) ∧ directory.paneId = paneId
      ∧ directory.IsNormalized := by
  obtain ⟨pair, hpair, rfl⟩ := Option.map_eq_some_iff.mp hfound
  have hmem := List.mem_of_find?_eq_some hpair
  rw [h.own pair hmem]
  exact ⟨hpair, by simpa using List.find?_some hpair, h.normalized pair hmem⟩

theorem findPane_replace (snapshot : DirectorySnapshot) :
    findPane (replaceDirectorySession directories snapshot) snapshot.paneId
      = some (directoryFromSnapshot snapshot) := by
  unfold findPane replaceDirectorySession
  rw [find?_put_self (by simp [directoryFromSnapshot])]
  · rfl
  · intro pair hmem _ hpane
    have hother := (mem_filter.mp hmem).2
    simp only [ne_eq, decide_not, Bool.not_eq_true', decide_eq_false_iff_not] at hother
    exact hother (of_decide_eq_true hpane)

/-- A session after a delta that is no reset. -/
def changed (directory : DirectoryState) : Directory.DirectoryDelta → DirectoryState
  | .entriesAdded revision entries | .entriesUpdated revision entries =>
    upsertEntries directory entries revision
  | .entriesRemoved revision entryIds => removeEntries directory entryIds revision
  | .reset _ => directory

theorem DirectoryState.IsNormalized.changed (h : directory.IsNormalized)
    (delta : Directory.DirectoryDelta) : (changed directory delta).IsNormalized := by
  cases delta with
  | reset snapshot => exact h
  | entriesAdded revision entries | entriesUpdated revision entries =>
    exact h.upsertEntries entries revision
  | entriesRemoved revision entryIds => exact h.removeEntries entryIds revision

variable {delta : Directory.DirectoryDelta}

theorem applyDirectoryDelta_eq (hfound : findPane directories paneId = some directory)
    (hdelta : ∀ snapshot, delta ≠ .reset snapshot) :
    applyDirectoryDelta directories paneId (.ofPayload paneId delta)
      = put directories directory.sessionId (changed directory delta) := by
  cases delta with
  | reset snapshot => exact absurd rfl (hdelta snapshot)
  | _ =>
    simp only [DirectoryDelta.ofPayload, applyDirectoryDelta, hfound, changed]

theorem Sessions.applyDirectoryDelta (h : Sessions directories) (paneId : PaneId)
    (delta : DirectoryDelta) : Sessions (applyDirectoryDelta directories paneId delta) := by
  unfold Frontend.applyDirectoryDelta
  cases delta with
  | reset snapshot => exact h.replace snapshot
  | entriesAdded revision entries | entriesUpdated revision entries =>
    cases hfound : findPane directories paneId with
    | none => exact h
    | some directory => exact h.put ((h.find hfound).2.2.upsertEntries entries revision)
  | entriesRemoved revision entryIds =>
    cases hfound : findPane directories paneId with
    | none => exact h
    | some directory => exact h.put ((h.find hfound).2.2.removeEntries entryIds revision)

theorem Sessions.applyPatch (h : Sessions directories) (patch : Patch) :
    Sessions (applyPatch directories patch) := by
  cases patch with
  | snapshot snapshot => exact h.replace snapshot
  | delta paneId delta => exact h.applyDirectoryDelta paneId delta

theorem sessions_of_run (patches : List Patch) : Sessions (patches.foldl applyPatch []) := by
  have hrun : ∀ directories, Sessions directories →
      Sessions (patches.foldl applyPatch directories) := by
    induction patches with
    | nil => exact fun _ h => h
    | cons patch rest ih => exact fun directories h => ih _ (h.applyPatch patch)
  exact hrun [] { keys := List.nodup_nil, own := nofun, normalized := nofun }

theorem findPane_deltas (h : Sessions directories)
    (hfound : findPane directories paneId = some directory) {deltas : List Directory.DirectoryDelta}
    (hdeltas : ∀ delta ∈ deltas, ∀ snapshot, delta ≠ .reset snapshot) :
    findPane (deltas.foldl (fun directories delta =>
        applyDirectoryDelta directories paneId (.ofPayload paneId delta)) directories) paneId
      = some (deltas.foldl changed directory) := by
  induction deltas generalizing directories directory with
  | nil => exact hfound
  | cons delta rest ih =>
    obtain ⟨hfirst, hpane, -⟩ := h.find hfound
    have hkept : (changed directory delta).paneId = paneId := by
      rw [← hpane]
      cases delta <;> rfl
    rw [foldl_cons, foldl_cons]
    refine ih (h.applyDirectoryDelta _ _) ?_ fun other hmem =>
      hdeltas other (List.mem_cons_of_mem _ hmem)
    have hput : (put directories directory.sessionId (changed directory delta)).find?
          (fun pair => pair.2.paneId = paneId)
        = some (directory.sessionId, changed directory delta) :=
      find?_put_first h.keys hfirst (decide_eq_true hkept)
    rw [applyDirectoryDelta_eq hfound (hdeltas delta List.mem_cons_self)]
    exact congrArg (Option.map Prod.snd) hput

-- ==== the difference

variable {previous current : List EntrySummary}

/-- The last entry with an identifier. -/
def lastOf (listing : List EntrySummary) (id : EntryId) : Option EntrySummary :=
  listing.reverse.find? fun entry => entry.id = id

variable {listing : List EntrySummary} {id : EntryId}

theorem lastOf_eq_none : lastOf listing id = none ↔ ∀ entry ∈ listing, entry.id ≠ id := by
  unfold lastOf
  simp

variable {entry : EntrySummary}

theorem lastOf_eq_some (h : lastOf listing id = some entry) : entry ∈ listing ∧ entry.id = id :=
  ⟨List.mem_reverse.mp (List.mem_of_find?_eq_some h), by simpa using List.find?_some h⟩

theorem lastOf_self (hmem : entry ∈ listing)
    (halone : ∀ other ∈ listing, other.id = entry.id → other = entry) :
    lastOf listing entry.id = some entry := by
  cases hlast : lastOf listing entry.id with
  | none => exact absurd rfl (lastOf_eq_none.mp hlast entry hmem)
  | some other =>
    obtain ⟨hother, hid⟩ := lastOf_eq_some hlast
    rw [halone other hother hid]

theorem mem_updatedEntries_iff :
    entry ∈ updatedEntries previous current
      ↔ entry ∈ current ∧ ∃ old, lastOf previous entry.id = some old ∧ old ≠ entry := by
  unfold updatedEntries lastOf
  rw [mem_filter]
  cases previous.reverse.find? fun old => old.id = entry.id with
  | none => simp
  | some old => simp

theorem get_foldl_listing (normalized : List EntryId × EntriesById) (listing : List EntrySummary)
    (id : EntryId) :
    get ((listing.map EntrySummary.payload).foldl insertEntry normalized).2 id
      = ((lastOf listing id).map EntrySummary.payload).or (get normalized.2 id) := by
  rw [get_foldl_insertEntry, ← List.map_reverse, List.find?_map]
  rfl

variable {directory : DirectoryState} {revision : Nat}

theorem get_upsertedPart {part : List EntrySummary}
    (hdelta : changed directory delta = upsertEntries directory (part.map EntrySummary.payload)
      revision) :
    get ((if part.map EntrySummary.payload = [] then [] else [delta]).foldl
        changed directory).entriesById id
      = ((lastOf part id).map EntrySummary.payload).or (get directory.entriesById id) := by
  rw [← get_foldl_listing (directory.entryIds, directory.entriesById)]
  split
  case isTrue hnil => rw [hnil]; rfl
  case isFalse => rw [foldl_cons, List.foldl_nil, hdelta]; rfl

theorem get_removedPart {entryIds : List EntryId} :
    get ((if entryIds = [] then []
        else [Directory.DirectoryDelta.entriesRemoved revision entryIds]).foldl
        changed directory).entriesById id
      = if id ∈ entryIds then none else get directory.entriesById id := by
  split
  case isTrue hnil => rw [hnil, if_neg List.not_mem_nil]; rfl
  case isFalse =>
    show get (keep directory.entriesById fun id => id ∉ entryIds) id = _
    rw [get_keep]
    by_cases hid : id ∈ entryIds <;> simp [hid]

theorem get_diffEntries (directory : DirectoryState) (revision : Nat) (id : EntryId) :
    get ((diffEntries previous current revision).foldl changed directory).entriesById id
      = if id ∈ removedEntries previous current then none
        else ((lastOf (updatedEntries previous current) id).map EntrySummary.payload).or
          (((lastOf (addedEntries previous current) id).map EntrySummary.payload).or
            (get directory.entriesById id)) := by
  unfold diffEntries
  dsimp only
  rw [List.foldl_append, List.foldl_append, get_removedPart, get_upsertedPart rfl,
    get_upsertedPart rfl]

theorem get_replayed (hdistinct : Directory.Distinct current)
    (hheld : ∀ id, get directory.entriesById id = (lastOf previous id).map EntrySummary.payload)
    (revision : Nat) (id : EntryId) :
    get ((diffEntries previous current revision).foldl changed directory).entriesById id
      = (lastOf current id).map EntrySummary.payload := by
  have hparts : updatedEntries previous current ⊆ current
      ∧ addedEntries previous current ⊆ current :=
    ⟨List.filter_subset_self _, List.filter_subset_self _⟩
  rw [get_diffEntries, hheld]
  cases hnew : lastOf current id with
  | none =>
    -- gone, or never there
    have hgone := lastOf_eq_none.mp hnew
    have hpart : ∀ part ⊆ current, lastOf part id = none :=
      fun part hpart => lastOf_eq_none.mpr fun entry hmem => hgone entry (hpart hmem)
    rw [hpart _ hparts.1, hpart _ hparts.2]
    cases hold : lastOf previous id with
    | none => simp
    | some old =>
      obtain ⟨hmem, hid⟩ := lastOf_eq_some hold
      rw [if_pos (Directory.mem_removedEntries.mpr ⟨old, hmem, hid, hgone⟩)]
      rfl
  | some entry =>
    obtain ⟨hmem, rfl⟩ := lastOf_eq_some hnew
    have hstays : entry.id ∉ removedEntries previous current := by
      intro hremoved
      obtain ⟨_, -, -, hgone⟩ := Directory.mem_removedEntries.mp hremoved
      exact hgone entry hmem rfl
    -- of a part of the listing only this entry is found
    have hpart : ∀ part ⊆ current,
        lastOf part entry.id = if entry ∈ part then some entry else none := by
      intro part hpart
      have honly : ∀ other ∈ part, other.id = entry.id → other = entry :=
        fun other hother hid => hdistinct.eq (hpart hother) hmem hid
      split
      case isTrue hin => exact lastOf_self hin honly
      case isFalse hout =>
        exact lastOf_eq_none.mpr fun other hother hid => hout (honly other hother hid ▸ hother)
    rw [if_neg hstays, hpart _ hparts.1, hpart _ hparts.2]
    cases hold : lastOf previous entry.id with
    | none =>
      have hadded : entry ∈ addedEntries previous current :=
        Directory.mem_addedEntries.mpr ⟨hmem, lastOf_eq_none.mp hold⟩
      have hupdated : entry ∉ updatedEntries previous current := by
        rw [mem_updatedEntries_iff, hold]
        intro hfound
        obtain ⟨-, found, hfound, -⟩ := hfound
        cases hfound
      rw [if_neg hupdated, if_pos hadded]
      rfl
    | some old =>
      have hadded : entry ∉ addedEntries previous current := by
        intro hin
        obtain ⟨hold_mem, hold_id⟩ := lastOf_eq_some hold
        exact (Directory.mem_addedEntries.mp hin).2 old hold_mem hold_id
      rw [if_neg hadded]
      by_cases hsame : old = entry
      · have hupdated : entry ∉ updatedEntries previous current := by
          rw [mem_updatedEntries_iff, hold]
          intro hfound
          obtain ⟨-, found, hfound, hne⟩ := hfound
          exact hne (Option.some.inj hfound ▸ hsame)
        rw [if_neg hupdated, hsame]
        rfl
      · have hupdated : entry ∈ updatedEntries previous current :=
          mem_updatedEntries_iff.mpr ⟨hmem, old, hold, hsame⟩
        rw [if_pos hupdated]
        rfl

-- ==== the listings

variable {isUuid : List Char → Bool} {newV5 : String → EntryId} {fs : FileSystem}
  {parent : Locations.Location} {entries : List DirEntry} {listing : List EntrySummary}

/-- The identifier that an entry of a directory gets. -/
def entryId (newV5 : String → EntryId) (entry : DirEntry) : Option EntryId :=
  entry.metadata.toOption.map (stableEntryId newV5)

theorem entryId_of_summarizeEntry {entry : DirEntry} {summary : EntrySummary}
    (h : summarizeEntry isUuid newV5 fs entry parent = .ok summary) :
    entryId newV5 entry = some summary.id := by
  unfold summarizeEntry at h
  split at h
  case h_1 => cases h
  case h_2 text htext =>
    split at h
    case h_1 => cases h
    case h_2 =>
      obtain ⟨metadata, hmetadata, h⟩ := Fallible.bind_eq_ok.mp h
      obtain ⟨fileType, -, h⟩ := Fallible.bind_eq_ok.mp h
      cases h
      unfold entryId
      rw [mapError_eq_ok.mp hmetadata]
      rfl

theorem map_eq_of_summaries {α : Type} {f : DirEntry → α} {g : EntrySummary → α}
    (h : Summaries isUuid newV5 fs parent entries listing) (hmade : ∀ entry summary,
      summarizeEntry isUuid newV5 fs entry parent = .ok summary → f entry = g summary) :
    entries.map f = listing.map g := by
  induction h with
  | nil => rfl
  | cons hfirst _ ih => rw [map_cons, map_cons, hmade _ _ hfirst, ih]

theorem distinct_iff_nodup (h : Summaries isUuid newV5 fs parent entries listing) :
    Directory.Distinct listing ↔ (entries.map (entryId newV5)).Nodup := by
  rw [map_eq_of_summaries h fun _ _ => entryId_of_summarizeEntry, ← Function.comp_def, ← map_map,
    List.nodup_map_iff (Option.some_injective EntryId)]
  exact Iff.rfl

theorem nodup_names (h : Summaries isUuid newV5 fs parent entries listing)
    (hnames : (entries.map name).Nodup) :
    (listing.map fun entry => entry.name).Nodup := by
  have hbytes : entries.map name
      = (listing.map fun entry => entry.name).map fun name => Text.utf8 name.toList := by
    rw [map_map]
    exact map_eq_of_summaries h fun entry summary hmade =>
      (Text.ofUtf8_eq_some.mp (showsEntry_of_summarizeEntry hmade)).symm
  rw [hbytes] at hnames
  exact hnames.of_map _

-- ==== the replay

/-- The sessions after the pane gets a listing and then the deltas to
another one. -/
def replayed (directories : Directories) (snapshot : DirectorySnapshot)
    (deltas : List Directory.DirectoryDelta) : Directories :=
  deltas.foldl (fun directories delta =>
      applyDirectoryDelta directories snapshot.paneId (.ofPayload snapshot.paneId delta))
    (replaceDirectorySession directories snapshot)

/-- Whatever came before, the session of a pane that gets the first
listing and then the deltas has the entries of the second. -/
def ReplayExact (previous current : List EntrySummary) : Prop :=
  ∀ (patches : List Patch) (snapshot : DirectorySnapshot) (revision : Nat),
    snapshot.entries = previous.map EntrySummary.payload →
    ∃ directory, findPane (replayed (patches.foldl applyPatch []) snapshot
        (diffEntries previous current revision)) snapshot.paneId = some directory
      ∧ directory.entries.Perm (current.map EntrySummary.payload)

/-- The identifiers are listed once, and are the keys of the entries. -/
def DirectoryState.ListsKeys (directory : DirectoryState) : Prop :=
  directory.entryIds.Nodup ∧ ∀ id, id ∈ directory.entryIds ↔ get directory.entriesById id ≠ none

theorem listsKeys_of_run {patches : List Patch} {pair : Directory.RequestId × DirectoryState}
    (h : pair ∈ patches.foldl applyPatch []) : pair.2.ListsKeys :=
  have hnormalized := (sessions_of_run patches).normalized pair h
  ⟨hnormalized.ids, hnormalized.keys⟩

theorem DirectoryState.IsNormalized.foldl_changed (h : directory.IsNormalized)
    (deltas : List Directory.DirectoryDelta) :
    (deltas.foldl Frontend.changed directory).IsNormalized := by
  induction deltas generalizing directory with
  | nil => exact h
  | cons delta rest ih => exact ih (h.changed delta)

theorem nodup_entries (h : directory.IsNormalized) : directory.entries.Nodup := by
  refine List.Nodup.filterMap ?_ h.ids
  intro id id' entry hget hget'
  rw [← h.own id entry hget, ← h.own id' entry hget']

theorem findPane_replayed (patches : List Patch) (snapshot : DirectorySnapshot) (revision : Nat) :
    findPane (replayed (patches.foldl applyPatch []) snapshot
        (diffEntries previous current revision)) snapshot.paneId
      = some ((diffEntries previous current revision).foldl changed
          (directoryFromSnapshot snapshot)) :=
  findPane_deltas ((sessions_of_run patches).replace snapshot) (findPane_replace snapshot)
    fun _ hmem => Directory.diffEntries_ne_reset hmem

theorem replayExact_of_distinct (h : Directory.Distinct current) :
    ReplayExact previous current := by
  intro patches snapshot revision hentries
  refine ⟨_, findPane_replayed patches snapshot revision, ?_⟩
  have hnormalized := (isNormalized_ofSnapshot snapshot).foldl_changed
    (diffEntries previous current revision)
  have hheld : ∀ id, get (directoryFromSnapshot snapshot).entriesById id
      = (lastOf previous id).map EntrySummary.payload := by
    intro id
    show get (normalizeEntries snapshot.entries).2 id = _
    unfold normalizeEntries
    rw [hentries, get_foldl_listing]
    exact Option.or_none
  have hpayloads : (current.map EntrySummary.payload).Nodup :=
    List.Nodup.of_map EntrySummaryPayload.id (by rw [map_map]; exact h)
  refine (List.perm_ext_iff_of_nodup (nodup_entries hnormalized) hpayloads).mpr fun p => ?_
  rw [mem_entries hnormalized, get_replayed h hheld, Option.map_eq_some_iff, List.mem_map]
  constructor
  · intro hfound
    obtain ⟨entry, hlast, hpayload⟩ := hfound
    exact ⟨entry, (lastOf_eq_some hlast).1, hpayload⟩
  · intro hfound
    obtain ⟨entry, hmem, rfl⟩ := hfound
    exact ⟨entry, lastOf_self hmem fun other hother hid => h.eq hother hmem hid, rfl⟩

theorem distinct_of_replayExact (hnames : (current.map fun entry => entry.name).Nodup)
    (h : ReplayExact previous current) : Directory.Distinct current := by
  obtain ⟨directory, hfound, hperm⟩ := h []
    { paneId := 0, requestId := 0, revision := 0, writable := true
      entries := previous.map EntrySummary.payload } 0 rfl
  rw [findPane_replayed] at hfound
  have hnormalized : directory.IsNormalized := by
    rw [← Option.some.inj hfound]
    exact (isNormalized_ofSnapshot _).foldl_changed _
  have hshown : ∀ entry ∈ current, get directory.entriesById entry.id = some entry.payload :=
    fun entry hmem => (mem_entries hnormalized).mp (hperm.mem_iff.mpr (List.mem_map_of_mem hmem))
  unfold Directory.Distinct
  unfold List.Nodup at hnames ⊢
  rw [List.pairwise_map] at hnames ⊢
  refine hnames.imp_of_mem ?_
  intro a b ha hb hne hid
  have hsame : some a.payload = some b.payload := by rw [← hshown a ha, ← hshown b hb, hid]
  exact hne (congrArg EntrySummaryPayload.name (Option.some.inj hsame))

/-- In every run the sessions list the keys of their entries. The
difference of two listings leads from the one to the other exactly when
no two names of the second have one identifier. -/
theorem replay_listings_iff (h : Summaries isUuid newV5 fs parent entries current)
    (hnames : (entries.map name).Nodup) :
    (∀ patches : List Patch, ∀ pair ∈ patches.foldl applyPatch [], pair.2.ListsKeys)
      ∧ (ReplayExact previous current ↔ (entries.map (entryId newV5)).Nodup) := by
  refine ⟨fun patches pair hmem => listsKeys_of_run hmem, ?_⟩
  rw [← distinct_iff_nodup h]
  exact ⟨distinct_of_replayExact (nodup_names h hnames), replayExact_of_distinct⟩

-- ==== the samples

/-- What is listed of an empty file of the home directory. -/
def homeEntry (name : String) (id : EntryId) : EntrySummary where
  id := id
  location := {
    providerId := "local"
    uri := { authority := "file:///home/" ++ name, segments := [] } }
  name := name
  kind := .file
  size := some 0
  modifiedAt := none
  createdAt := none
  hidden := false
  readOnly := false
  extension := none
  mimeType := none
  iconKey := none
  metadataRevision := 0
  gitStatus := none

theorem second_file_is_added :
    ReplayExact [homeEntry "a" 9] [homeEntry "a" 9, homeEntry "b" 10] := by
  have h : Summaries Locations.isHyphenatedUuid String.length (oneDirectory [])
      homeLocation [plainFile [97] 1, plainFile [98] 10]
      [homeEntry "a" 9, homeEntry "b" 10] :=
    .cons (by decide +kernel) (.cons (by decide +kernel) .nil)
  exact (replay_listings_iff h (by decide)).2.mpr (by decide)

/-- A second name for a file of the pane: the entry of the first name is
replaced, though both names are in the directory. -/
theorem second_link_replaces_first :
    Summaries Locations.isHyphenatedUuid String.length (oneDirectory [])
        homeLocation [plainFile [97] 1] [homeEntry "a" 9]
      ∧ Summaries Locations.isHyphenatedUuid String.length (oneDirectory [])
        homeLocation [plainFile [97] 1, plainFile [98] 1]
        [homeEntry "a" 9, homeEntry "b" 9]
      ∧ ([plainFile [97] 1, plainFile [98] 1].map name).Nodup
      ∧ (findPane (replayed []
          { paneId := 1, requestId := 1, revision := 0, writable := true
            entries := [(homeEntry "a" 9).payload] }
          (diffEntries [homeEntry "a" 9] [homeEntry "a" 9, homeEntry "b" 9] 1)) 1).map
            DirectoryState.entries = some [(homeEntry "b" 9).payload]
      ∧ ¬ ReplayExact [homeEntry "a" 9] [homeEntry "a" 9, homeEntry "b" 9] := by
  refine ⟨.cons (by decide +kernel) .nil,
    .cons (by decide +kernel) (.cons (by decide +kernel) .nil), by decide, by decide, ?_⟩
  intro hexact
  have hdistinct := distinct_of_replayExact (by decide) hexact
  exact absurd hdistinct (by decide)

end FileManager.Frontend
