/-
What a listing of the FTP and of the WebDAV provider has: one lemma says
what a page of either is (`Serves`), the drafts from its offset on, as
many as a page holds, with identifiers that were not drawn before; a
listing of all pages is then the drafts of all that the server lists,
with identifiers that were not drawn before.
-/
import FileManager.Remote.Polled

namespace FileManager.Remote.Polled

open Directory (EntrySummary)
open List

variable {entries later result : List EntrySummary} {drawn after offset a b c : Nat}
  {isUuid : List Char → Bool} {libraries : WebDav.Libraries}
  {parseLine : List Char → Option FtpFile} {location : Locations.Location} {fetch : Fetch}
  {parses : Prop} {drafts : List (Except VfsError Draft)} {draft : α → Except VfsError Draft}
  {items : List α} {page : Page} {α : Type}

-- ==== drawn identifiers

/-- The entries have identifiers of their own, drawn between two counts. -/
structure Fresh (drawn after : Nat) (entries : List EntrySummary) : Prop where
  mono : drawn ≤ after
  range : ∀ entry ∈ entries, drawn ≤ entry.id ∧ after > entry.id
  nodup : (entries.map fun entry => entry.id).Nodup

theorem Fresh.nil (drawn : Nat) : Fresh drawn drawn [] :=
  ⟨le_rfl, fun _ h => (not_mem_nil h).elim, nodup_nil⟩

theorem Fresh.sublist {part : List EntrySummary} (h : Fresh drawn after entries)
    (hpart : part.Sublist entries) : Fresh drawn after part :=
  ⟨h.mono, fun entry hentry => h.range entry (hpart.subset hentry), h.nodup.sublist (hpart.map _)⟩

theorem Fresh.ne_of_later {d : Nat} (h : Fresh a b entries) (hlater : Fresh c d later) (hle : b ≤ c)
    {old new : EntrySummary} (hold : old ∈ entries) (hnew : new ∈ later) : old.id ≠ new.id := by
  have hbefore := (h.range old hold).2
  have hafter := (hlater.range new hnew).1
  intro heq
  rw [heq] at hbefore
  omega

theorem Fresh.append (h : Fresh a b entries)
    (hlater : Fresh b c later) : Fresh a c (entries ++ later) where
  mono := h.mono.trans hlater.mono
  range entry hentry := by
    rcases mem_append.mp hentry with hentry | hentry
    · have hrange := h.range entry hentry
      have hle := hlater.mono
      omega
    · have hrange := hlater.range entry hentry
      have hle := h.mono
      omega
  nodup := by
    rw [map_append, nodup_append]
    refine ⟨h.nodup, hlater.nodup, fun x hx y hy => ?_⟩
    obtain ⟨old, hold, rfl⟩ := mem_map.mp hx
    obtain ⟨new, hnew, rfl⟩ := mem_map.mp hy
    exact h.ne_of_later hlater le_rfl hold hnew

/-- An entry of the draft. -/
def Summarises (draft : Except VfsError Draft) (entry : EntrySummary) : Prop :=
  ∃ made, draft = .ok made ∧ entry = made.summary entry.id

theorem drawEntries_ok (h : drawEntries draft items drawn = (.ok entries, after)) :
    List.Forall₂ Summarises (items.map draft) entries ∧ Fresh drawn after entries := by
  induction items generalizing drawn entries with
  | nil =>
    obtain ⟨rfl, rfl⟩ : entries = [] ∧ after = drawn := by simpa [drawEntries, eq_comm] using h
    exact ⟨.nil, Fresh.nil _⟩
  | cons item rest ih =>
    unfold drawEntries at h
    split at h
    case h_1 => simp at h
    case h_2 made hmade =>
      split at h
      case h_1 => simp at h
      case h_2 listed after' hrest =>
        obtain ⟨rfl, rfl⟩ : made.summary drawn :: listed = entries ∧ after' = after := by
          simpa using h
        obtain ⟨hlisted, hfresh⟩ := ih hrest
        have hfirst : Fresh drawn (drawn + 1) [made.summary drawn] :=
          ⟨by omega, by simp [Draft.summary], by simp⟩
        exact ⟨.cons ⟨made, hmade, rfl⟩ hlisted, hfirst.append hfresh⟩

theorem drawEntries_answers (h : ∀ made ∈ items.map draft, ∃ d, made = .ok d) (drawn : Nat) :
    ∃ entries after, drawEntries draft items drawn = (.ok entries, after) := by
  induction items generalizing drawn with
  | nil => exact ⟨[], drawn, rfl⟩
  | cons item rest ih =>
    rw [map_cons, forall_mem_cons] at h
    obtain ⟨⟨made, hmade⟩, hrest⟩ := h
    obtain ⟨entries, after, hentries⟩ := ih hrest (drawn + 1)
    exact ⟨made.summary drawn :: entries, after, by simp only [drawEntries, hmade, hentries]⟩

-- ==== the pages

/-- What the pages are that a fetch gives: `parses` is about the location,
and the drafts are those of all that the server lists. -/
structure Serves (fetch : Fetch) (parses : Prop) (drafts : List (Except VfsError Draft)) :
    Prop where
  answers : parses → (∀ made ∈ drafts, ∃ d, made = .ok d) → ∀ offset drawn,
    ∃ page after, fetch offset drawn = (.ok page, after)
  parses_of_ok : ∀ {offset drawn page after}, fetch offset drawn = (.ok page, after) → parses
  entries : ∀ {offset drawn page after}, fetch offset drawn = (.ok page, after) →
    List.Forall₂ Summarises ((drafts.drop offset).take pageSize) page.entries
  fresh : ∀ {offset drawn page after}, fetch offset drawn = (.ok page, after) →
    Fresh drawn after page.entries
  next : ∀ {offset drawn page after}, fetch offset drawn = (.ok page, after) →
    page.next = if offset + pageSize < drafts.length then some (offset + pageSize) else none

theorem next_of (h : List.Forall₂ Summarises ((drafts.drop offset).take pageSize) entries) :
    (Page.of entries offset drafts.length).next
      = if offset + pageSize < drafts.length then some (offset + pageSize) else none := by
  have hlength : entries.length = min pageSize (drafts.length - offset) := by
    rw [← h.length_eq]
    simp
  have hpage : 0 < pageSize := by decide
  simp only [Page.of]
  by_cases hmore : offset + pageSize < drafts.length
  · have hfull : entries.length = pageSize := by omega
    rw [hfull]
  · rw [if_neg hmore, if_neg (by omega)]

theorem ftpList_ok {lines : List (List Char)}
    (h : ftpList isUuid parseLine location lines offset drawn = (.ok page, after)) :
    (∃ parsed, Ftp.Parsed.parse isUuid location = .ok parsed) ∧ ∃ entries,
      drawEntries (ftpDraft isUuid location)
          (((lines.filterMap parseLine).drop offset).take pageSize) drawn = (.ok entries, after)
      ∧ page = .of entries offset (lines.filterMap parseLine).length := by
  unfold ftpList at h
  split at h
  case h_1 => simp at h
  case h_2 parsed hparsed =>
    dsimp only at h
    split at h
    case h_1 => simp at h
    case h_2 entries after' hentries =>
      obtain ⟨rfl, rfl⟩ : Page.of entries offset (lines.filterMap parseLine).length = page
          ∧ after' = after := by simpa using h
      exact ⟨⟨parsed, hparsed⟩, entries, hentries, rfl⟩

theorem serves_ftpList (lines : List (List Char)) :
    Serves (ftpList isUuid parseLine location lines)
      (∃ parsed, Ftp.Parsed.parse isUuid location = .ok parsed)
      ((lines.filterMap parseLine).map (ftpDraft isUuid location)) := by
  constructor
  case answers =>
    intro hparsed hdrafts offset drawn
    obtain ⟨parsed, hparsed⟩ := hparsed
    have hpage : ∀ made ∈ (((lines.filterMap parseLine).drop offset).take pageSize).map
        (ftpDraft isUuid location), ∃ d, made = .ok d := by
      intro made hmade
      rw [map_take, map_drop] at hmade
      exact hdrafts made (mem_of_mem_drop (mem_of_mem_take hmade))
    obtain ⟨entries, after, hentries⟩ := drawEntries_answers hpage drawn
    exact ⟨_, after, by simp only [ftpList, hparsed, hentries]; rfl⟩
  case parses_of_ok =>
    intro offset drawn page after h
    exact (ftpList_ok h).1
  case entries =>
    intro offset drawn page after h
    obtain ⟨-, entries, hentries, rfl⟩ := ftpList_ok h
    rw [← map_drop, ← map_take]
    exact (drawEntries_ok hentries).1
  case fresh =>
    intro offset drawn page after h
    obtain ⟨-, entries, hentries, rfl⟩ := ftpList_ok h
    exact (drawEntries_ok hentries).2
  case next =>
    intro offset drawn page after h
    obtain ⟨-, entries, hentries, rfl⟩ := ftpList_ok h
    have hdrawn := (drawEntries_ok hentries).1
    rw [map_take, map_drop] at hdrawn
    have hnext := next_of hdrawn
    rwa [length_map] at hnext ⊢

theorem davList_ok {selfPath : List Char} {responses : List DavEntry}
    (h : davList isUuid libraries location selfPath responses offset drawn = (.ok page, after)) :
    (∃ parsed, WebDav.Parsed.parse isUuid libraries location = .ok parsed) ∧ ∃ entries,
      drawEntries (davDraft isUuid location) (davChildren libraries selfPath responses) drawn
        = (.ok entries, after)
      ∧ page = .of ((entries.drop offset).take pageSize) offset entries.length := by
  unfold davList at h
  split at h
  case h_1 => simp at h
  case h_2 parsed hparsed =>
    dsimp only at h
    split at h
    case h_1 => simp at h
    case h_2 entries after' hentries =>
      obtain ⟨rfl, rfl⟩ : Page.of ((entries.drop offset).take pageSize) offset entries.length = page
          ∧ after' = after := by simpa using h
      exact ⟨⟨parsed, hparsed⟩, entries, hentries, rfl⟩

theorem serves_davList (selfPath : List Char) (responses : List DavEntry) :
    Serves (davList isUuid libraries location selfPath responses)
      (∃ parsed, WebDav.Parsed.parse isUuid libraries location = .ok parsed)
      ((davChildren libraries selfPath responses).map (davDraft isUuid location)) := by
  have hpage : ∀ {entries : List EntrySummary} (offset : Nat), List.Forall₂ Summarises
      ((davChildren libraries selfPath responses).map (davDraft isUuid location)) entries →
      List.Forall₂ Summarises ((((davChildren libraries selfPath responses).map
        (davDraft isUuid location)).drop offset).take pageSize)
        ((entries.drop offset).take pageSize) :=
    fun offset h => forall₂_take pageSize (forall₂_drop offset h)
  constructor
  case answers =>
    intro hparsed hdrafts offset drawn
    obtain ⟨parsed, hparsed⟩ := hparsed
    obtain ⟨entries, after, hentries⟩ := drawEntries_answers hdrafts drawn
    exact ⟨_, after, by simp only [davList, hparsed, hentries]; rfl⟩
  case parses_of_ok =>
    intro offset drawn page after h
    exact (davList_ok h).1
  case entries =>
    intro offset drawn page after h
    obtain ⟨-, entries, hentries, rfl⟩ := davList_ok h
    exact hpage offset (drawEntries_ok hentries).1
  case fresh =>
    intro offset drawn page after h
    obtain ⟨-, entries, hentries, rfl⟩ := davList_ok h
    exact (drawEntries_ok hentries).2.sublist ((take_sublist _ _).trans (drop_sublist _ _))
  case next =>
    intro offset drawn page after h
    obtain ⟨-, entries, hentries, rfl⟩ := davList_ok h
    have hdrawn := (drawEntries_ok hentries).1
    have hnext := next_of (hpage offset hdrawn)
    rwa [hdrawn.length_eq] at hnext ⊢

-- ==== the listings

theorem Serves.listAll_ok (h : Serves fetch parses drafts) {requests : List (Option VfsError)}
    (hlist : listAll fetch requests entries offset drawn = (some (.ok result), after)) :
    ∃ listed, result = entries ++ listed ∧ parses
      ∧ List.Forall₂ Summarises (drafts.drop offset) listed ∧ Fresh drawn after listed := by
  induction requests generalizing entries offset drawn with
  | nil => simp [listAll] at hlist
  | cons outcome rest ih =>
    cases outcome with
    | some error => simp [listAll] at hlist
    | none =>
      unfold listAll at hlist
      split at hlist
      case h_1 => simp at hlist
      case h_2 page after' hpage =>
        have hparses := h.parses_of_ok hpage
        have hentries := h.entries hpage
        have hfresh := h.fresh hpage
        split at hlist
        case h_1 hnone =>
          rw [h.next hpage] at hnone
          have hend : drafts.length ≤ offset + pageSize := by
            by_contra hmore
            rw [if_pos (by omega)] at hnone
            cases hnone
          obtain ⟨rfl, rfl⟩ : entries ++ page.entries = result ∧ after' = after := by
            simpa using hlist
          rw [take_of_length_le (by simp; omega)] at hentries
          exact ⟨page.entries, rfl, hparses, hentries, hfresh⟩
        case h_2 next hnext =>
          rw [h.next hpage] at hnext
          obtain ⟨-, rfl⟩ : offset + pageSize < drafts.length ∧ offset + pageSize = next := by
            simpa using hnext
          obtain ⟨listed, rfl, -, hlisted, hlater⟩ := ih hlist
          refine ⟨page.entries ++ listed, by simp, hparses, ?_, hfresh.append hlater⟩
          rw [← take_append_drop pageSize (drafts.drop offset), drop_drop]
          exact rel_append hentries hlisted

theorem Serves.listAll_answers (h : Serves fetch parses drafts) (hparses : parses)
    (hdrafts : ∀ made ∈ drafts, ∃ d, made = .ok d) (n : Nat) (entries : List EntrySummary)
    (offset drawn : Nat) (hn : drafts.length ≤ offset + n) :
    ∃ result after, listAll fetch (List.replicate (n + 1) none) entries offset drawn
      = (some (.ok result), after) := by
  induction n generalizing entries offset drawn with
  | zero =>
    obtain ⟨page, after, hpage⟩ := h.answers hparses hdrafts offset drawn
    have hnext := h.next hpage
    rw [if_neg (by omega)] at hnext
    exact ⟨entries ++ page.entries, after, by
      simp only [replicate_succ, listAll, hpage, hnext]⟩
  | succ n ih =>
    obtain ⟨page, after, hpage⟩ := h.answers hparses hdrafts offset drawn
    have hnext := h.next hpage
    by_cases hmore : offset + pageSize < drafts.length
    · rw [if_pos hmore] at hnext
      have hpositive : 0 < pageSize := by decide
      obtain ⟨result, after', hresult⟩ :=
        ih (entries ++ page.entries) (offset + pageSize) after (by omega)
      exact ⟨result, after', by
        rw [replicate_succ]; simp only [listAll, hpage, hnext]; exact hresult⟩
    · rw [if_neg hmore] at hnext
      exact ⟨entries ++ page.entries, after, by
        rw [replicate_succ]; simp only [listAll, hpage, hnext]⟩

theorem Serves.list_ok (h : Serves fetch parses drafts) {attempt : Attempt}
    (hlist : attempt.list fetch drawn = (some (.ok result), after)) :
    parses ∧ List.Forall₂ Summarises drafts result
      ∧ Fresh (drawn + attempt.others) after result := by
  obtain ⟨listed, rfl, hparses, hlisted, hfresh⟩ := h.listAll_ok hlist
  exact ⟨hparses, by simpa using hlisted, by simpa using hfresh⟩

/-- Every request of the listing is answered, and no one else draws. -/
def Attempt.answered (pages : Nat) : Attempt where
  others := 0
  requests := List.replicate pages none

end FileManager.Remote.Polled
