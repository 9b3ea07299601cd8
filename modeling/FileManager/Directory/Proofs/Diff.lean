/-
The difference of two listings, replayed: a client that holds the
entries of the first listing holds those of the second after it has
applied `diff_entries`, whichever of the three deltas there are.

A client compares entries as payloads, so that what it holds is a set of
payloads in which an identifier occurs once (`Keyed.Functional`).
-/
import FileManager.Directory.Model

namespace FileManager.Directory

open Keyed List Client
open EntrySummary (payload)
open DirectoryDelta (entriesAdded addedIds removedIds)

variable {previous current listing : List EntrySummary} {p : EntrySummaryPayload}
  {entry : EntrySummary} {entries : List EntrySummaryPayload} {delta : DirectoryDelta}
  {revision : Nat}

-- ==== the three parts

/-- What a listing's entries are to a client. -/
def Shows (entries : List EntrySummaryPayload) (listing : List EntrySummary) : Prop :=
  ∀ p, p ∈ entries ↔ ∃ entry ∈ listing, entry.payload = p

/-- A listing names every entry once. -/
def Distinct (listing : List EntrySummary) : Prop := (listing.map fun entry => entry.id).Nodup

instance (listing : List EntrySummary) : Decidable (Distinct listing) :=
  inferInstanceAs (Decidable (List.Nodup _))

theorem Distinct.eq (h : Distinct listing) {a b : EntrySummary} (ha : a ∈ listing)
    (hb : b ∈ listing) (hid : a.id = b.id) : a = b :=
  functional_of_nodup h a ha b hb hid

theorem functional_payloads (h : Distinct listing) {part : List EntrySummary}
    (hpart : part ⊆ listing) :
    Functional EntrySummaryPayload.id (part.map payload) := by
  intro x hx y hy hid
  obtain ⟨a, ha, rfl⟩ := mem_map.mp hx
  obtain ⟨b, hb, rfl⟩ := mem_map.mp hy
  rw [h.eq (hpart ha) (hpart hb) hid]

theorem mem_addedEntries :
    entry ∈ addedEntries previous current
      ↔ entry ∈ current ∧ ∀ old ∈ previous, old.id ≠ entry.id := by
  simp [addedEntries]

theorem mem_removedEntries {id : EntryId} :
    id ∈ removedEntries previous current
      ↔ ∃ entry ∈ previous, entry.id = id ∧ ∀ new ∈ current, new.id ≠ id := by
  simp only [removedEntries, mem_map, mem_filter, all_eq_true, decide_eq_true_eq]
  constructor
  · intro hfound
    obtain ⟨entry, ⟨hentry, hgone⟩, rfl⟩ := hfound
    exact ⟨entry, hentry, rfl, hgone⟩
  · intro hfound
    obtain ⟨entry, hentry, rfl, hgone⟩ := hfound
    exact ⟨entry, ⟨hentry, hgone⟩, rfl⟩

theorem mem_updatedEntries (h : Distinct previous) :
    entry ∈ updatedEntries previous current
      ↔ entry ∈ current ∧ ∃ old ∈ previous, old.id = entry.id ∧ old ≠ entry := by
  unfold updatedEntries
  rw [mem_filter]
  refine and_congr_right fun _ => ?_
  cases hfind : previous.reverse.find? (fun old => old.id = entry.id) with
  | none =>
    refine iff_of_false (by simp) ?_
    intro hfound
    obtain ⟨old, hold, hid, -⟩ := hfound
    have hnone := List.find?_eq_none.mp hfind old (mem_reverse.mpr hold)
    simp [hid] at hnone
  | some found =>
    have hmem := mem_reverse.mp (mem_of_find?_eq_some hfind)
    have hid : found.id = entry.id := by simpa using List.find?_some hfind
    simp only [decide_eq_true_eq]
    constructor
    · intro hne
      exact ⟨found, hmem, hid, hne⟩
    · intro hfound
      obtain ⟨old, hold, hold_id, hne⟩ := hfound
      rw [h.eq hmem hold (hid.trans hold_id.symm)]
      exact hne

-- ==== the client's parts

theorem nodup_byId (entries : List EntrySummaryPayload) :
    ((byId entries).map EntrySummaryPayload.id).Nodup :=
  nodup_upserts (by simp)

theorem mem_byId
    (h : Functional EntrySummaryPayload.id entries) : p ∈ byId entries ↔ p ∈ entries := by
  unfold byId
  rw [mem_upserts (by simp) h]
  simp

theorem mem_setEntries {changes : List EntrySummaryPayload}
    (h : Functional EntrySummaryPayload.id entries)
    (hchanges : Functional EntrySummaryPayload.id changes) :
    p ∈ setEntries entries changes
      ↔ p ∈ changes ∨ (p ∈ entries ∧ p.id ∉ changes.map EntrySummaryPayload.id) := by
  unfold setEntries
  rw [mem_upserts (nodup_byId entries) hchanges, mem_byId h]

theorem functional_setEntries (entries changes : List EntrySummaryPayload) :
    Functional EntrySummaryPayload.id (setEntries entries changes) :=
  functional_of_nodup (nodup_upserts (nodup_byId entries))

theorem mem_deleteEntries (h : Functional EntrySummaryPayload.id entries)
    {entryIds : List EntryId} :
    p ∈ deleteEntries entries entryIds ↔ p ∈ entries ∧ p.id ∉ entryIds := by
  simp only [deleteEntries, mem_filter, mem_byId h, decide_eq_true_eq]

theorem Shows.functional (h : Shows entries listing)
    (hdistinct : Distinct listing) : Functional EntrySummaryPayload.id entries := by
  intro x hx y hy hid
  obtain ⟨a, ha, rfl⟩ := (h x).mp hx
  obtain ⟨b, hb, rfl⟩ := (h y).mp hy
  rw [hdistinct.eq ha hb hid]

-- ==== the three deltas

theorem shows_current {held added updated removed : List EntrySummaryPayload}
    (hprevious : Distinct previous) (hcurrent : Distinct current) (hheld : Shows held previous)
    (hadded : ∀ p, p ∈ added ↔ p ∈ (addedEntries previous current).map payload ∨ (p ∈
      held ∧ p.id ∉ ((addedEntries previous current).map payload).map
      EntrySummaryPayload.id))
    (hupdated : ∀ p, p ∈ updated ↔ p ∈ (updatedEntries previous current).map payload ∨
      (p ∈ added ∧ p.id ∉ ((updatedEntries previous current).map payload).map
      EntrySummaryPayload.id))
    (hremoved : ∀ p, p ∈ removed ↔ p ∈ updated ∧ p.id ∉ removedEntries previous current) :
    Shows removed current := by
  intro p
  rw [hremoved, hupdated, hadded]
  constructor
  · intro hboth
    obtain ⟨hp | ⟨hp | ⟨hp, -⟩, hkept⟩, hstays⟩ := hboth
    · obtain ⟨entry, hentry, rfl⟩ := mem_map.mp hp
      exact ⟨entry, ((mem_updatedEntries hprevious).mp hentry).1, rfl⟩
    · obtain ⟨entry, hentry, rfl⟩ := mem_map.mp hp
      exact ⟨entry, (mem_addedEntries.mp hentry).1, rfl⟩
    · -- held before, neither updated nor removed: the same in both listings
      obtain ⟨old, hold, rfl⟩ := (hheld p).mp hp
      have hnew : ∃ new ∈ current, new.id = old.id := by
        by_contra hno
        exact hstays (mem_removedEntries.mpr
          ⟨old, hold, rfl, fun new hmem hid => hno ⟨new, hmem, hid⟩⟩)
      obtain ⟨new, hmem, hid⟩ := hnew
      refine ⟨new, hmem, ?_⟩
      by_contra hne
      refine hkept (mem_map.mpr ⟨new.payload, mem_map.mpr ⟨new, ?_, rfl⟩, hid⟩)
      refine (mem_updatedEntries hprevious).mpr ⟨hmem, old, hold, hid.symm, ?_⟩
      intro heq
      subst heq
      exact hne rfl
  · intro hfound
    obtain ⟨entry, hentry, rfl⟩ := hfound
    refine ⟨?_, ?_⟩
    · by_cases hold : ∃ old ∈ previous, old.id = entry.id
      · obtain ⟨old, hmem, hid⟩ := hold
        by_cases hsame : old = entry
        · subst hsame
          right
          refine ⟨.inr ⟨(hheld _).mpr ⟨old, hmem, rfl⟩, ?_⟩, ?_⟩
          · intro hin
            obtain ⟨q, hq, hqid⟩ := mem_map.mp hin
            obtain ⟨new, hnew, rfl⟩ := mem_map.mp hq
            exact (mem_addedEntries.mp hnew).2 old hmem hqid.symm
          · intro hin
            obtain ⟨q, hq, hqid⟩ := mem_map.mp hin
            obtain ⟨new, hnew, rfl⟩ := mem_map.mp hq
            obtain ⟨hnewmem, old', hold', hid', hne⟩ := (mem_updatedEntries hprevious).mp hnew
            have hnew_eq : new = old := hcurrent.eq hnewmem hentry hqid
            have hold_eq : old' = old := hprevious.eq hold' hmem (hid'.trans hqid)
            exact hne (hold_eq.trans hnew_eq.symm)
        · left
          exact mem_map.mpr
            ⟨entry, (mem_updatedEntries hprevious).mpr ⟨hentry, old, hmem, hid, hsame⟩, rfl⟩
      · -- not in the first listing: added, and so not updated
        have hfresh : ∀ old ∈ previous, old.id ≠ entry.id :=
          fun old hmem hid => hold ⟨old, hmem, hid⟩
        right
        refine ⟨.inl (mem_map.mpr ⟨entry, mem_addedEntries.mpr ⟨hentry, hfresh⟩, rfl⟩), ?_⟩
        intro hin
        obtain ⟨q, hq, hqid⟩ := mem_map.mp hin
        obtain ⟨new, hnew, rfl⟩ := mem_map.mp hq
        obtain ⟨-, old, hmem, hid, -⟩ := (mem_updatedEntries hprevious).mp hnew
        exact hfresh old hmem (hid.trans hqid)
    · intro hin
      obtain ⟨old, -, hid, hgone⟩ := mem_removedEntries.mp hin
      exact hgone entry hentry rfl

-- ==== the client

section Client

variable {client : Client} {r : Nat}

section

attribute [local simp] applyDelta DirectoryDelta.revision

theorem applyDelta_added (h : client.shown.revision = some r) (entries : List EntrySummaryPayload) :
    client.applyDelta (.entriesAdded (r + 1) entries)
      = { client.display (r + 1) (setEntries client.shown.entries entries)
          with known := client.known ++ entries.map EntrySummaryPayload.id } := by
  simp [h]

theorem applyDelta_updated (h : client.shown.revision = some r)
    (entries : List EntrySummaryPayload) :
    client.applyDelta (.entriesUpdated (r + 1) entries)
      = client.display (r + 1) (setEntries client.shown.entries entries) := by
  simp [h]

theorem applyDelta_removed (h : client.shown.revision = some r) (entryIds : List EntryId) :
    client.applyDelta (.entriesRemoved (r + 1) entryIds)
      = client.display (r + 1) (deleteEntries client.shown.entries entryIds) := by
  simp [h]

end

/-- What a delta leaves of a client: where its pages come from, and
that it follows. -/
structure Follows (client client' : Client) : Prop where
  pages : client'.pages = client.pages
  refetching : client'.refetching = client.refetching

theorem foldl_added (hr : client.shown.revision = some r)
    (hheld : Functional EntrySummaryPayload.id client.shown.entries)
    {added : List EntrySummaryPayload}
    (hadded : Functional EntrySummaryPayload.id added) :
    ∃ client' r', (if added = [] then []
        else [entriesAdded (r + 1) added]).foldl applyDelta client
        = client'
      ∧ Follows client client'
      ∧ client'.known = client.known ++ added.map EntrySummaryPayload.id
      ∧ client'.shown.revision = some r'
      ∧ (if added = [] then r + 1 else r + 1 + 1) = r' + 1
      ∧ Functional EntrySummaryPayload.id client'.shown.entries
      ∧ ∀ p, p ∈ client'.shown.entries ↔ p ∈ added
        ∨ (p ∈ client.shown.entries ∧ p.id ∉ added.map EntrySummaryPayload.id) := by
  by_cases hnil : added = []
  · subst hnil
    exact ⟨client, r, rfl, ⟨rfl, rfl⟩, by simp, hr, rfl, hheld, by simp⟩
  · rw [if_neg hnil, if_neg hnil, foldl_cons, foldl_nil, applyDelta_added hr]
    exact ⟨_, r + 1, rfl, ⟨rfl, rfl⟩, rfl, rfl, rfl, functional_setEntries _ _,
      fun p => mem_setEntries hheld hadded⟩

theorem foldl_updated (hr : client.shown.revision = some r)
    (hheld : Functional EntrySummaryPayload.id client.shown.entries)
    {updated : List EntrySummaryPayload}
    (hupdated : Functional EntrySummaryPayload.id updated) :
    ∃ client' r', (if updated = [] then []
        else [DirectoryDelta.entriesUpdated (r + 1) updated]).foldl applyDelta client
        = client'
      ∧ Follows client client'
      ∧ client'.known = client.known
      ∧ client'.shown.revision = some r'
      ∧ (if updated = [] then r + 1 else r + 1 + 1) = r' + 1
      ∧ Functional EntrySummaryPayload.id client'.shown.entries
      ∧ ∀ p, p ∈ client'.shown.entries ↔ p ∈ updated
        ∨ (p ∈ client.shown.entries ∧ p.id ∉ updated.map EntrySummaryPayload.id) := by
  by_cases hnil : updated = []
  · subst hnil
    exact ⟨client, r, rfl, ⟨rfl, rfl⟩, rfl, hr, rfl, hheld, by simp⟩
  · rw [if_neg hnil, if_neg hnil, foldl_cons, foldl_nil, applyDelta_updated hr]
    exact ⟨_, r + 1, rfl, ⟨rfl, rfl⟩, rfl, rfl, rfl, functional_setEntries _ _,
      fun p => mem_setEntries hheld hupdated⟩

theorem foldl_removed (hr : client.shown.revision = some r)
    (hheld : Functional EntrySummaryPayload.id client.shown.entries)
    (removed : List EntryId) :
    ∃ client', (if removed = [] then []
        else [DirectoryDelta.entriesRemoved (r + 1) removed]).foldl applyDelta client
        = client'
      ∧ Follows client client'
      ∧ client'.known = client.known
      ∧ ∀ p, p ∈ client'.shown.entries ↔ p ∈ client.shown.entries ∧ p.id ∉ removed := by
  by_cases hnil : removed = []
  · subst hnil
    exact ⟨client, rfl, ⟨rfl, rfl⟩, rfl, by simp⟩
  · rw [if_neg hnil, foldl_cons, foldl_nil, applyDelta_removed hr]
    exact ⟨_, rfl, ⟨rfl, rfl⟩, rfl, fun p => mem_deleteEntries hheld⟩

theorem foldl_diffEntries (hr : client.shown.revision = some r) (hprevious : Distinct previous)
    (hcurrent : Distinct current) (hshows : Shows client.shown.entries previous) :
    ∃ client', (diffEntries previous current (r + 1)).foldl applyDelta client = client'
      ∧ Follows client client'
      ∧ client'.known = client.known ++ ((addedEntries previous current).map
          payload).map EntrySummaryPayload.id
      ∧ Shows client'.shown.entries current := by
  have hadded := functional_payloads hcurrent
    (fun e he => (mem_addedEntries.mp he).1 : addedEntries previous current ⊆ current)
  have hupdated := functional_payloads hcurrent
    (fun e he => ((mem_updatedEntries hprevious).mp he).1 :
      updatedEntries previous current ⊆ current)
  have hheld := hshows.functional hprevious
  unfold diffEntries
  dsimp only
  rw [foldl_append, foldl_append]
  -- each delta is numbered from the revision that the one before it left
  obtain ⟨client₁, r₁, heq₁, hfollows₁, hknown₁, hr₁, hnext₁, hf₁, hmem₁⟩ :=
    foldl_added hr hheld hadded
  rw [heq₁, hnext₁]
  obtain ⟨client₂, r₂, heq₂, hfollows₂, hknown₂, hr₂, hnext₂, hf₂, hmem₂⟩ :=
    foldl_updated hr₁ hf₁ hupdated
  rw [heq₂, hnext₂]
  obtain ⟨client₃, heq₃, hfollows₃, hknown₃, hmem₃⟩ :=
    foldl_removed hr₂ hf₂ (removedEntries previous current)
  refine ⟨client₃, heq₃, ⟨?_, ?_⟩, ?_, ?_⟩
  · rw [hfollows₃.pages, hfollows₂.pages, hfollows₁.pages]
  · rw [hfollows₃.refetching, hfollows₂.refetching, hfollows₁.refetching]
  · rw [hknown₃, hknown₂, hknown₁]
  · exact shows_current hprevious hcurrent hshows hmem₁ hmem₂ hmem₃

end Client

-- ==== the revisions

theorem map_revision_diffEntries (previous current : List EntrySummary) (revision : Nat) :
    (diffEntries previous current revision).map DirectoryDelta.revision
      = List.range' revision (diffEntries previous current revision).length := by
  unfold diffEntries
  dsimp only
  split <;> split <;> split <;> simp [DirectoryDelta.revision, List.range']

theorem finalRevision_diffEntries (revision : Nat) :
    finalRevision revision (diffEntries previous current revision)
      = max revision (revision + (diffEntries previous current revision).length - 1) := by
  have hlast := congrArg List.getLast? (map_revision_diffEntries previous current revision)
  rw [List.getLast?_map, List.getLast?_range'] at hlast
  unfold finalRevision
  split
  case h_1 delta hdelta =>
    rw [hdelta] at hlast
    split at hlast
    case isTrue => cases hlast
    case isFalse =>
      simp only [Option.map_some, Option.some.injEq] at hlast
      omega
  case h_2 hnone =>
    rw [List.getLast?_eq_none_iff.mp hnone]
    simp

theorem diffEntries_revision (h : delta ∈ diffEntries previous current revision) :
    revision ≤ delta.revision
      ∧ delta.revision ≤ finalRevision revision (diffEntries previous current revision) := by
  have hmem : delta.revision
      ∈ (diffEntries previous current revision).map DirectoryDelta.revision :=
    mem_map.mpr ⟨delta, h, rfl⟩
  rw [map_revision_diffEntries, mem_range'_1] at hmem
  rw [finalRevision_diffEntries]
  omega

theorem diffEntries_ne_reset (h : delta ∈ diffEntries previous current revision)
    (snapshot : DirectorySnapshot) : delta ≠ .reset snapshot := by
  intro heq
  subst heq
  unfold diffEntries at h
  dsimp only at h
  split at h <;> split at h <;> split at h <;> simp at h

-- ==== the reports

theorem addedIds_diffEntries (previous current : List EntrySummary) (revision : Nat) :
    (diffEntries previous current revision).flatMap addedIds
      = (addedEntries previous current).map fun entry => entry.id := by
  unfold diffEntries
  dsimp only
  split
  case isTrue hnil =>
    rw [map_eq_nil_iff] at hnil
    split <;> split <;> simp [addedIds, hnil]
  case isFalse =>
    split <;> split <;> simp [addedIds]

theorem removedIds_diffEntries (previous current : List EntrySummary) (revision : Nat) :
    (diffEntries previous current revision).flatMap removedIds
      = removedEntries previous current := by
  unfold diffEntries
  dsimp only
  generalize removedEntries previous current = removed
  split <;> split <;> split <;> simp_all [removedIds]

end FileManager.Directory
