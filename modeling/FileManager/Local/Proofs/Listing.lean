/-
Whether the listing of a local directory, followed to its last page, has
an entry for every child.

# The argument

An entry is made where its name is one that `validate_name` takes and the
calls for its metadata and its type succeed (`summarizeEntry_isOk_iff`).
The loop of a page gives up at the first child that has none, and
`list_all` at the first page that fails. So a directory is listed as a
whole or not at all, by induction on the pages still to come.
-/
import FileManager.Directory.Proofs.Paging
import FileManager.Local.Listing
import FileManager.Locations.Proofs.Paths

namespace FileManager.Local

open Archives.Reading (toNativePath)
open Directory (DirectoryPage EntrySummary listAll listPages)
open Locations (Segment)
open Fallible (bind_eq_ok)
open List Nat Text Fallible

variable {isUuid : List Char → Bool} {newV5 : String → EntryId} {fs : FileSystem}
  {location : Locations.Location} {pageSize offset : Nat} {entry : DirEntry}
  {entries : List DirEntry} {summaries : List EntrySummary} {path : Path}

-- ==== names

/-- A name that a Unix system has in a directory. -/
structure OsName (name : Segment) : Prop where
  nonempty : name ≠ []
  not_dot : name ≠ [46]
  not_dots : name ≠ [46, 46]
  no_null : (0 : UInt8) ∉ name
  no_slash : (47 : UInt8) ∉ name

/-- The name is Unicode without a backslash, and no device on Windows. -/
def Portable (name : Segment) : Prop :=
  ∃ text, ofUtf8 name = some text ∧ '\\' ∉ text
    ∧ Locations.rejectWindowsDeviceName text = .ok ()

/-- The name is portable, and the calls for the metadata and the type
succeed. -/
structure Listable (entry : DirEntry) : Prop where
  name : Portable entry.name
  metadata : ∃ metadata, entry.metadata = .ok metadata
  fileType : ∃ fileType, entry.fileType = .ok fileType

def ShowsEntry (summary : EntrySummary) (entry : DirEntry) : Prop :=
  ofUtf8 entry.name = some summary.name.toList

theorem validateName_iff {name : Segment} {text : List Char} (hos : OsName name)
    (htext : ofUtf8 name = some text) :
    Locations.validateName text = .ok () ↔ '\\' ∉ text
      ∧ Locations.rejectWindowsDeviceName text = .ok () := by
  have hbytes := ofUtf8_eq_some.mp htext
  have hascii : ∀ {c : Char} {byte : UInt8}, c.toNat = byte.toNat → byte.toNat < 128 →
      byte ∉ name → c ∉ text := by
    intro c byte hc hlt hnot hmem
    refine hnot ?_
    rw [← hbytes]
    refine mem_flatMap.mpr ⟨c, hmem, ?_⟩
    have hencode := utf8EncodeChar_ascii c.toNat (by omega)
    rw [Char.ofNat_toNat] at hencode
    rw [hencode, hc, UInt8.ofNat_toNat]
    exact mem_singleton_self byte
  have hempty : text ≠ [] := fun h => hos.nonempty (by rw [← hbytes, h]; rfl)
  have hdot : text ≠ ['.'] := fun h => hos.not_dot (by rw [← hbytes, h]; rfl)
  have hdots : text ≠ ['.', '.'] := fun h => hos.not_dots (by rw [← hbytes, h]; rfl)
  have hslash : '/' ∉ text := @hascii '/' 47 (by decide) (by decide) hos.no_slash
  have hnull : Char.ofNat 0 ∉ text := @hascii _ 0 (by decide) (by decide) hos.no_null
  unfold Locations.validateName
  rw [if_neg hempty, if_neg hnull]
  by_cases hback : '\\' ∈ text
  · rw [if_pos (Or.inr (Or.inr (Or.inr hback)))]
    exact ⟨nofun, fun h => absurd hback h.1⟩
  · rw [if_neg (by simp [hdot, hdots, hslash, hback])]
    exact ⟨fun h => ⟨hback, h⟩, fun h => h.2⟩

-- ==== an entry

theorem mapError_eq_ok {ε ε' α : Type} {f : ε → ε'} {x : Except ε α} {a : α} :
    x.mapError f = .ok a ↔ x = .ok a := by
  cases x with
  | ok b | error error => simp [Except.mapError]

theorem summarizeEntry_isOk_iff {place : Locations.Place}
    (hnames : Locations.Names isUuid location place) (hplace : place.WellFormed isUuid)
    (hos : OsName entry.name) :
    (∃ summary, summarizeEntry isUuid newV5 fs entry location = .ok summary) ↔ Listable entry := by
  constructor
  · intro hmade
    obtain ⟨summary, hmade⟩ := hmade
    unfold summarizeEntry at hmade
    split at hmade
    case h_1 => cases hmade
    case h_2 text htext =>
      split at hmade
      case h_1 => cases hmade
      case h_2 child hjoin =>
        obtain ⟨metadata, hmetadata, hmade⟩ := bind_eq_ok.mp hmade
        obtain ⟨fileType, hfileType, -⟩ := bind_eq_ok.mp hmade
        obtain ⟨hback, hdevice⟩ := (validateName_iff hos htext).mp (Locations.join_spec hjoin).1
        exact { name := ⟨text, htext, hback, hdevice⟩
                metadata := ⟨metadata, mapError_eq_ok.mp hmetadata⟩
                fileType := ⟨fileType, mapError_eq_ok.mp hfileType⟩ }
  · intro hlistable
    obtain ⟨text, htext, hback, hdevice⟩ := hlistable.name
    obtain ⟨metadata, hmetadata⟩ := hlistable.metadata
    obtain ⟨fileType, hfileType⟩ := hlistable.fileType
    have hjoin := Locations.join_eq hnames hplace
      ((validateName_iff hos htext).mpr ⟨hback, hdevice⟩)
    unfold summarizeEntry
    simp only [htext, hjoin, hmetadata, hfileType]
    exact ⟨_, rfl⟩

theorem showsEntry_of_summarizeEntry {summary : EntrySummary}
    (h : summarizeEntry isUuid newV5 fs entry location = .ok summary) :
    ShowsEntry summary entry := by
  unfold summarizeEntry at h
  split at h
  case h_1 => cases h
  case h_2 text htext =>
    split at h
    case h_1 => cases h
    case h_2 =>
      obtain ⟨metadata, -, h⟩ := bind_eq_ok.mp h
      obtain ⟨fileType, -, h⟩ := bind_eq_ok.mp h
      cases h
      unfold ShowsEntry
      rw [htext, String.toList_ofList]

-- ==== a page

/-- The summaries of some entries, if each can be made. -/
def Summaries (isUuid : List Char → Bool) (newV5 : String → EntryId) (fs : FileSystem)
    (location : Locations.Location) : List DirEntry → List EntrySummary → Prop :=
  List.Forall₂ fun entry summary =>
    summarizeEntry isUuid newV5 fs entry location = .ok summary

theorem skipEntries_eq (uri : List Char) (h : offset ≤ entries.length) :
    skipEntries uri offset (entries.map .ok) = .ok (some ((entries.drop offset).map .ok)) := by
  induction offset generalizing entries with
  | zero => rfl
  | succ offset ih =>
    cases entries with
    | nil => cases h
    | cons entry rest => exact ih (le_of_succ_le_succ h)

theorem hasNext_eq (uri : List Char) (entries : List DirEntry) :
    hasNext uri (entries.map .ok) = .ok (decide (entries ≠ [])) := by
  cases entries with
  | nil => rfl
  | cons entry rest => rfl

theorem takeEntries_eq_ok {n : Nat} {rest : ReadDir} :
    takeEntries isUuid newV5 fs location n (entries.map .ok) = .ok (summaries, rest)
      ↔ Summaries isUuid newV5 fs location (entries.take n) summaries
        ∧ rest = (entries.drop n).map .ok := by
  induction n generalizing entries summaries rest with
  | zero =>
    unfold takeEntries Summaries
    simp [take_zero, forall₂_nil_left_iff, and_comm, eq_comm]
  | succ n ih =>
    cases entries with
    | nil =>
      unfold takeEntries Summaries
      simp [forall₂_nil_left_iff, eq_comm]
    | cons entry more =>
      rw [map_cons, take_succ_cons, drop_succ_cons]
      unfold takeEntries Summaries
      rw [bind_eq_ok, forall₂_cons_left_iff]
      constructor
      · intro hread
        obtain ⟨summary, hsummary, hread⟩ := hread
        obtain ⟨⟨others, left⟩, htake, hread⟩ := bind_eq_ok.mp hread
        obtain ⟨rfl, rfl⟩ := Prod.mk.inj (Except.ok.inj hread)
        obtain ⟨hothers, hleft⟩ := ih.mp htake
        exact ⟨⟨summary, others, hsummary, hothers, rfl⟩, hleft⟩
      · intro hread
        obtain ⟨⟨summary, others, hsummary, hothers, rfl⟩, rfl⟩ := hread
        exact ⟨summary, hsummary, bind_eq_ok.mpr ⟨_, ih.mpr ⟨hothers, rfl⟩, rfl⟩⟩

theorem parseUsize_toString (n : Nat) : parseUsize (toString n).toList = some n := by
  have hdigits : (toString n).toList = toDigits 10 n := by
    rw [toString_eq_ofList_toDigits, String.toList_ofList]
  have hall : ∀ c ∈ toDigits 10 n, c.isDigit = true :=
    fun c hc => isDigit_of_mem_toDigits (by decide) (by decide) hc
  have hplus : (toDigits 10 n).head? ≠ some '+' := by
    intro hhead
    exact absurd (hall '+' (mem_of_head? hhead)) (by decide)
  unfold parseUsize
  rw [hdigits, if_neg hplus]
  simp only
  rw [if_pos ⟨toDigits_ne_nil, all_eq_true.mpr hall⟩,
    ofDigitChars_toDigits (by decide) (by decide)]

theorem decodeToken_toString (n : Nat) : decodeToken (some (toString n)) location = .ok n := by
  unfold decodeToken
  simp only [parseUsize_toString]

theorem list_eq_ok (hpath : toNativePath location = some path)
    (hread : fs.readDir path = .ok (entries.map .ok)) (hsize : 0 < pageSize) {token : Option String}
    (htoken : decodeToken token location = .ok offset) (hoffset : offset ≤ entries.length)
    {page : DirectoryPage} :
    list isUuid newV5 fs location pageSize token = .ok page ↔ ∃ summaries,
        Summaries isUuid newV5 fs location ((entries.drop offset).take pageSize) summaries
        ∧ page = {
            entries := summaries
            continuationToken := if entries.drop (offset + pageSize) ≠ []
              then some (toString (offset + summaries.length)) else none
            hasMore := decide (entries.drop (offset + pageSize) ≠ []) } := by
  have hopened : (fs.readDir path).mapError (mapIoError location.uri)
      = .ok (entries.map .ok) := mapError_eq_ok.mpr hread
  have hlist : list isUuid newV5 fs location pageSize token
      = (takeEntries isUuid newV5 fs location pageSize ((entries.drop offset).map .ok) >>=
          fun read => hasNext location.uri read.2 >>= fun hasMore => .ok {
            entries := read.1
            continuationToken := if hasMore then some (toString (offset + read.1.length)) else none
            hasMore := hasMore }) := by
    unfold list
    rw [if_neg (ne_of_gt hsize)]
    simp only [hpath, htoken, hopened]
    show (skipEntries location.uri offset (entries.map .ok) >>= _) = _
    rw [skipEntries_eq _ hoffset]
    rfl
  have hrest : (entries.drop offset).drop pageSize = entries.drop (offset + pageSize) := drop_drop
  rw [hlist, bind_eq_ok]
  constructor
  · intro hpage
    obtain ⟨⟨summaries, rest⟩, htake, hpage⟩ := hpage
    obtain ⟨hsummaries, rfl⟩ := takeEntries_eq_ok.mp htake
    rw [hasNext_eq, hrest] at hpage
    refine ⟨summaries, hsummaries, (Except.ok.inj hpage).symm.trans ?_⟩
    simp only [decide_eq_true_eq]
  · intro hpage
    obtain ⟨summaries, hsummaries, rfl⟩ := hpage
    refine ⟨_, takeEntries_eq_ok.mpr ⟨hsummaries, rfl⟩, ?_⟩
    rw [hasNext_eq, hrest]
    simp only [bind, Except.bind, decide_eq_true_eq]

-- ==== all pages

/-- The answers of the provider to the requests of one `list_all`. -/
def answers (isUuid : List Char → Bool) (newV5 : String → EntryId) (fs : FileSystem)
    (location : Locations.Location) (pageSize : Nat) : Directory.Answers :=
  fun _ token => list isUuid newV5 fs location pageSize token

theorem summaries_append {first second : List DirEntry} {more : List EntrySummary}
    (h : Summaries isUuid newV5 fs location first summaries)
    (h' : Summaries isUuid newV5 fs location second more) :
    Summaries isUuid newV5 fs location (first ++ second) (summaries ++ more) :=
  rel_append h h'

theorem drop_eq_page (entries : List DirEntry) (offset pageSize : Nat) :
    entries.drop offset
      = (entries.drop offset).take pageSize ++ entries.drop (offset + pageSize) := by
  rw [← drop_drop, take_append_drop]

theorem length_summaries
    (h : Summaries isUuid newV5 fs location ((entries.drop offset).take pageSize) summaries)
    (hmore : entries.drop (offset + pageSize) ≠ []) : summaries.length = pageSize := by
  have hlength : offset + pageSize < entries.length := by
    by_contra hend
    exact hmore (drop_eq_nil_of_le (Nat.le_of_not_lt hend))
  rw [← h.length_eq, length_take, length_drop]
  omega

section Pages

variable (hpath : toNativePath location = some path)
  (hread : fs.readDir path = .ok (entries.map .ok)) (hsize : 0 < pageSize)
  {before : List EntrySummary} {fuel number offset : Nat} {token : Option String}

include hpath hread hsize

theorem summaries_of_listPages
    {listed : List EntrySummary} (htoken : decodeToken token location = .ok offset)
    (hoffset : offset ≤ entries.length)
    (h : listPages (answers isUuid newV5 fs location pageSize) fuel number token before
      = some (.ok listed)) :
    ∃ summaries, Summaries isUuid newV5 fs location (entries.drop offset) summaries
      ∧ listed = before ++ summaries := by
  induction fuel generalizing number offset token before with
  | zero => cases h
  | succ fuel ih =>
    unfold listPages at h
    split at h
    case h_1 => cases h
    case h_2 page hpage =>
      obtain ⟨summaries, hsummaries, rfl⟩ := (list_eq_ok hpath hread hsize htoken hoffset).mp hpage
      rw [drop_eq_page entries offset pageSize]
      by_cases hmore : entries.drop (offset + pageSize) = []
      · simp only [hmore, ne_eq, not_true_eq_false, decide_false, Bool.not_false, if_true] at h
        rw [hmore, append_nil]
        exact ⟨summaries, hsummaries, (Except.ok.inj (Option.some.inj h)).symm⟩
      · simp only [hmore, ne_eq, not_false_eq_true, decide_true, Bool.not_true,
          Bool.false_eq_true, if_false, if_true] at h
        rw [length_summaries hsummaries hmore] at h
        have hnext : offset + pageSize ≤ entries.length := by
          by_contra hend
          exact hmore (drop_eq_nil_of_le (by omega))
        obtain ⟨more, hrest, hlisted⟩ := ih (decodeToken_toString _) hnext h
        exact ⟨summaries ++ more, summaries_append hsummaries hrest, by
          rw [hlisted, append_assoc]⟩

theorem listPages_of_summaries
    {summaries : List EntrySummary} (htoken : decodeToken token location = .ok offset)
    (hoffset : offset ≤ entries.length) (hfuel : entries.length < offset + fuel)
    (h : Summaries isUuid newV5 fs location (entries.drop offset) summaries) :
    listPages (answers isUuid newV5 fs location pageSize) fuel number token before
      = some (.ok (before ++ summaries)) := by
  induction fuel generalizing number offset token before summaries with
  | zero => omega
  | succ fuel ih =>
    have htake := forall₂_take pageSize h
    have hdrop := forall₂_drop pageSize h
    rw [drop_drop] at hdrop
    have hpage : answers isUuid newV5 fs location pageSize number token = .ok _ :=
      (list_eq_ok hpath hread hsize htoken hoffset).mpr ⟨_, htake, rfl⟩
    unfold listPages
    rw [hpage]
    by_cases hmore : entries.drop (offset + pageSize) = []
    · simp only [hmore, ne_eq, not_true_eq_false, decide_false, Bool.not_false, if_true]
      rw [hmore, forall₂_nil_left_iff] at hdrop
      have hall : summaries.take pageSize = summaries := by
        rw [← take_append_drop pageSize summaries, hdrop, append_nil, take_take, min_self]
      rw [hall]
    · simp only [hmore, ne_eq, not_false_eq_true, decide_true, Bool.not_true,
        Bool.false_eq_true, if_false, if_true]
      have hnext : offset + pageSize ≤ entries.length := by
        by_contra hend
        exact hmore (drop_eq_nil_of_le (by omega))
      rw [length_summaries htake hmore, ih (decodeToken_toString _) hnext (by omega) hdrop,
        append_assoc, take_append_drop]

end Pages

theorem provider_of_toNativePath (hpath : toNativePath location = some path) :
    location.providerId = "local" := by
  by_contra hother
  unfold toNativePath at hpath
  have hensure : location.ensureLocal ≠ .ok () := by
    intro hok
    obtain ⟨scheme, -, hchecked⟩ := bind_eq_ok.mp hok
    rw [if_pos (Or.inl hother)] at hchecked
    cases hchecked
  split at hpath
  case h_1 hok _ => exact hensure hok
  case h_2 => cases hpath

/-- The listing of a readable directory succeeds with an entry for every
child exactly if all children have one: a Unicode name without a
backslash that is no device on Windows, and metadata. -/
theorem local_listing_complete_iff {uri : List Char}
    (h : Locations.Location.parse isUuid uri = .ok location)
    (hpath : toNativePath location = some path)
    (hread : fs.readDir path = .ok (entries.map .ok))
    (hos : ∀ entry ∈ entries, OsName entry.name) (hsize : 0 < pageSize) {fuel : Nat}
    (hfuel : entries.length < fuel) :
    (∃ listed, listAll (answers isUuid newV5 fs location pageSize) fuel = some (.ok listed)
        ∧ ∀ entry ∈ entries, Listable entry → ∃ summary ∈ listed, ShowsEntry summary entry)
      ↔ ∀ entry ∈ entries, Listable entry := by
  have hsearch : location.providerId ≠ "search" := by
    rw [provider_of_toNativePath hpath]
    decide
  obtain ⟨place, _, hnames, hreads⟩ := Locations.names_of_parse h hsearch
  have hmade : ∀ entry ∈ entries,
      (∃ summary, summarizeEntry isUuid newV5 fs entry location = .ok summary) ↔ Listable entry :=
    fun entry hmem => summarizeEntry_isOk_iff hnames hreads.wellFormed (hos entry hmem)
  constructor
  · intro hlisted entry hmem
    obtain ⟨listed, hlisted, -⟩ := hlisted
    obtain ⟨summaries, hsummaries, -⟩ :=
      summaries_of_listPages hpath hread hsize rfl (zero_le _) hlisted
    obtain ⟨summary, -, hsummary⟩ := paired_left hsummaries hmem
    exact (hmade entry hmem).mp ⟨summary, hsummary⟩
  · intro hall
    obtain ⟨summaries, hsummaries⟩ : ∃ summaries,
        Summaries isUuid newV5 fs location (entries.drop 0) summaries := by
      obtain ⟨summaries, hmapped⟩ :=
        exists_mapM_ok fun entry hmem => (hmade entry hmem).mpr (hall entry hmem)
      exact ⟨summaries, forall₂_of_mapM hmapped⟩
    refine ⟨summaries, listPages_of_summaries hpath hread hsize rfl (zero_le _) (by omega)
      hsummaries, fun entry hmem _ => ?_⟩
    obtain ⟨summary, hsummary, hmake⟩ := paired_left hsummaries hmem
    exact ⟨summary, hsummary, showsEntry_of_summarizeEntry hmake⟩

-- ==== the samples

def plainFile (name : Segment) (ino : Nat) : DirEntry where
  name := name
  metadata := .ok { dev := 1, ino := ino, len := 0, modified := none, created := none
                    readOnly := false }
  fileType := .ok .file
  contents := false

/-- A system with one directory, of these entries. -/
def oneDirectory (entries : List DirEntry) : FileSystem where
  readDir _ := .ok (entries.map .ok)
  macos := false

def homeLocation : Locations.Location where
  providerId := "local"
  uri := "file:///home".toList

theorem two_files_are_listed :
    ∃ listed, listAll (answers Locations.isHyphenatedUuid String.length
        (oneDirectory [plainFile [97] 1, plainFile [98] 2]) homeLocation 1) 3 = some (.ok listed)
      ∧ ∀ entry ∈ [plainFile [97] 1, plainFile [98] 2], Listable entry →
        ∃ summary ∈ listed, ShowsEntry summary entry := by
  have h : Locations.Location.parse Locations.isHyphenatedUuid homeLocation.uri
      = .ok homeLocation := by
    decide +kernel
  have hnative : toNativePath homeLocation = some [[104, 111, 109, 101]] := by decide +kernel
  have hentry : ∀ entry ∈ [plainFile [97] 1, plainFile [98] 2],
      OsName entry.name ∧ Listable entry := by
    intro entry hmem
    rcases List.mem_cons.mp hmem with rfl | hmem
    · exact ⟨⟨by decide, by decide, by decide, by decide, by decide⟩,
        ⟨['a'], by decide +kernel, by decide, by decide +kernel⟩, ⟨_, rfl⟩, ⟨_, rfl⟩⟩
    · rw [List.mem_singleton.mp hmem]
      exact ⟨⟨by decide, by decide, by decide, by decide, by decide⟩,
        ⟨['b'], by decide +kernel, by decide, by decide +kernel⟩, ⟨_, rfl⟩, ⟨_, rfl⟩⟩
  exact (local_listing_complete_iff h hnative rfl (fun entry hmem => (hentry entry hmem).1)
    (by decide) (by decide)).mpr fun entry hmem => (hentry entry hmem).2

/-- A name with a backslash, one that is not Unicode, and one that is a
device on Windows: each hides the file beside it. -/
theorem odd_name_hides_directory :
    Listable (plainFile [97] 1) ∧ ∀ name ∈ [[97, 92, 98], [255], [99, 111, 110]], OsName name
      ∧ ¬ ∃ listed, listAll (answers Locations.isHyphenatedUuid String.length
        (oneDirectory [plainFile [97] 1, plainFile name 2]) homeLocation 1024) 3
          = some (.ok listed) := by
  have hfails : ∀ name ∈ ([[97, 92, 98], [255], [99, 111, 110]] : List Segment),
      listAll (answers Locations.isHyphenatedUuid String.length
        (oneDirectory [plainFile [97] 1, plainFile name 2]) homeLocation 1024) 3
          = some (.error (Remote.invalid homeLocation.uri)) := by
    decide +kernel
  refine ⟨⟨⟨['a'], by decide +kernel, by decide, by decide +kernel⟩, ⟨_, rfl⟩, ⟨_, rfl⟩⟩, ?_⟩
  intro name hmem
  refine ⟨?_, ?_⟩
  · have hos : ∀ name ∈ ([[97, 92, 98], [255], [99, 111, 110]] : List Segment),
        name ≠ [] ∧ name ≠ [46] ∧ name ≠ [46, 46] ∧ (0 : UInt8) ∉ name ∧ (47 : UInt8) ∉ name := by
      decide
    obtain ⟨hempty, hdot, hdots, hnull, hslash⟩ := hos name hmem
    exact ⟨hempty, hdot, hdots, hnull, hslash⟩
  · rw [hfails name hmem]
    exact nofun

end FileManager.Local
