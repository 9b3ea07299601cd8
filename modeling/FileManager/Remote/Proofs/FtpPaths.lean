/-
Which remote paths the FTP provider sends for the entries it has listed.

Every command about a location has the path of the location's text, as
it stands in the text (`sends_iff`). A listed entry's location is written
with its name escaped, so the two agree on the entry exactly when there
is nothing to escape (`listed_entry_path_iff`).
-/
import FileManager.Remote.Ftp
import FileManager.Locations.Proofs.Spelling

namespace FileManager.Ftp

open Remote Locations List Except Text Fallible Dialogue.Talk.Asks
open Dialogue (Attempt)
open Locations (Place Reads percentEncode encodePath isUnreserved)
open Dialogue.Attempt
open Parsed (parse)
open Locations.Scheme (separator rawOf)

variable {isUuid : List Char → Bool} {parseLine : List Char → Option File} {asked : Ask}
  {token : Token} {location : Locations.Location} {options : ListOptions} {place : Place}
  {path : List Char} {p : Parsed} {α : Type}

-- ==== commands

theorem asks_cancelled (h : Attempt.Asks (cancelled token) asked) : asked = .isCancelled := by
  cases token with
  | new => exact absurd h not_asks_pure
  | caller =>
    rcases h.of_bind with h | ⟨fired, h⟩
    · exact h.of_lift.of_perform
    · cases fired with
      | true => exact absurd h not_asks_throw
      | false => exact absurd h not_asks_pure

theorem asks_client (h : Attempt.Asks (client p) asked) :
    asked = .resolve p.id ∨ asked = .connect p.id := by
  rcases h.of_bind with h | ⟨explicitTls, h⟩
  · exact .inl h.of_perform
  · simp only at h
    split at h
    case isTrue =>
      rcases h.of_bind with h | ⟨_, h⟩
      · exact absurd h not_asks_throw
      · exact .inr h.of_perform
    case isFalse => exact .inr h.of_perform

/-- The effects on the server and in its tasks. -/
def Ask.IsEffect : Ask → Prop
  | .command _ | .spawn _ => True
  | _ => False

theorem not_effect_cancelled (hasked : asked.IsEffect) :
    ¬ Attempt.Asks (cancelled token) asked := by
  intro h
  rw [asks_cancelled h] at hasked
  exact hasked

theorem asks_of_opened {next : Parsed → Op α} (h : Attempt.Asks (do
      cancelled token
      let p ← parsed isUuid location
      client p
      next p) asked) (hasked : asked.IsEffect) :
    ∃ p, parse isUuid location = .ok p ∧ Attempt.Asks (next p) asked := by
  rcases h.of_bind with h | ⟨_, h⟩
  · exact absurd h (not_effect_cancelled hasked)
  · obtain ⟨p, hp, h⟩ := h.of_mk_bind
    rcases h.of_bind with h | ⟨_, h⟩
    · rcases asks_client h with rfl | rfl <;> exact absurd hasked id
    · exact ⟨p, hp, h⟩

theorem asks_list (h : Attempt.Asks (list isUuid parseLine location options token) asked)
    (hasked : asked.IsEffect) :
    ∃ p, parse isUuid location = .ok p ∧ asked = .command (.list p.path) := by
  rcases h.of_bind with h | ⟨_, h⟩
  · exact absurd h (not_effect_cancelled hasked)
  · obtain ⟨p, hp, h⟩ := (Attempt.Asks.of_guard h).of_mk_bind
    refine ⟨p, hp, ?_⟩
    rcases h.of_bind with h | ⟨_, h⟩
    · rcases asks_client h with rfl | rfl <;> exact absurd hasked id
    rcases h.of_bind with h | ⟨lines, h⟩
    · exact h.of_perform
    rcases h.of_bind with h | ⟨_, h⟩
    · exact absurd h (not_effect_cancelled hasked)
    · exact absurd h Dialogue.Talk.not_asks_pure

theorem asks_rename {source destination : Locations.Location}
    (h : Attempt.Asks (rename isUuid source destination token) asked) (hasked : asked.IsEffect) :
    ∃ a b, parse isUuid source = .ok a ∧ parse isUuid destination = .ok b
      ∧ asked = .command (.rename a.path b.path) := by
  rcases h.of_bind with h | ⟨_, h⟩
  · exact absurd h (not_effect_cancelled hasked)
  · obtain ⟨a, ha, h⟩ := h.of_mk_bind
    obtain ⟨b, hb, h⟩ := h.of_mk_bind
    refine ⟨a, b, ha, hb, ?_⟩
    rcases (Attempt.Asks.of_guard h).of_bind with h | ⟨_, h⟩
    · rcases asks_client h with rfl | rfl <;> exact absurd hasked id
    rcases h.of_bind with h | ⟨_, h⟩
    · exact h.of_perform
    · exact absurd h not_asks_pure

theorem asks_remove {useTrash : Bool}
    (h : Attempt.Asks (remove isUuid location useTrash token) asked) (hasked : asked.IsEffect) :
    ∃ p, parse isUuid location = .ok p
      ∧ (asked = .command (.rm p.path) ∨ asked = .command (.rmdir p.path)) := by
  rcases h.of_bind with h | ⟨_, h⟩
  · exact absurd h (not_effect_cancelled hasked)
  · obtain ⟨p, hp, h⟩ := (Attempt.Asks.of_guard h).of_mk_bind
    refine ⟨p, hp, ?_⟩
    rcases h.of_bind with h | ⟨_, h⟩
    · rcases asks_client h with rfl | rfl <;> exact absurd hasked id
    rcases h.of_bind with h | ⟨removed, h⟩
    · exact .inl h.of_caught.of_perform
    · cases removed with
      | ok => exact absurd h not_asks_pure
      | error error => exact .inr h.of_perform

theorem not_spawn_refuseExisting {overwrite : Bool} {task : Transfer} :
    ¬ Attempt.Asks (refuseExisting isUuid parseLine location overwrite) (.spawn task) := by
  intro h
  cases overwrite with
  | true => exact not_asks_pure h
  | false =>
    rcases Attempt.Asks.of_bind h with h | ⟨found, h⟩
    · obtain ⟨⟨parent, name⟩, -, h⟩ := h.of_caught.of_mk_bind
      rcases h.of_bind with h | ⟨page, h⟩
      · obtain ⟨p, -, heq⟩ := asks_list h trivial
        cases heq
      · split at h
        · exact not_asks_pure h
        · exact not_asks_throw h
    · cases found with
      | ok entry => exact not_asks_throw h
      | error error => exact not_asks_pure h

/-- The calls on a location that send a command, or start a transfer,
for it with this path. -/
inductive Sends (isUuid : List Char → Bool) (parseLine : List Char → Option File)
    (location : Locations.Location) : List Char → Prop
  | list {path : List Char} (options : ListOptions) (token : Token)
      (h : Attempt.Asks (list isUuid parseLine location options token) (.command (.list path))) :
      Sends isUuid parseLine location path
  | size {path : List Char} (token : Token)
      (h : Attempt.Asks (fileSize isUuid location token) (.command (.size path))) :
      Sends isUuid parseLine location path
  | read {path : List Char} (token : Token)
      (h : Attempt.Asks (openRead isUuid location token) (.spawn (.retr path))) :
      Sends isUuid parseLine location path
  | write {path : List Char} (overwrite : Bool) (token : Token)
      (h : Attempt.Asks (openWrite isUuid parseLine location overwrite token)
        (.spawn (.stor path))) :
      Sends isUuid parseLine location path
  | renameFrom {path other : List Char} (destination : Locations.Location) (token : Token)
      (h : Attempt.Asks (rename isUuid location destination token)
        (.command (.rename path other))) :
      Sends isUuid parseLine location path
  | renameTo {path other : List Char} (source : Locations.Location) (token : Token)
      (h : Attempt.Asks (rename isUuid source location token) (.command (.rename other path))) :
      Sends isUuid parseLine location path
  | remove {path : List Char} (useTrash : Bool) (token : Token)
      (h : Attempt.Asks (remove isUuid location useTrash token) (.command (.rm path))) :
      Sends isUuid parseLine location path
  | removeDirectory {path : List Char} (useTrash : Bool) (token : Token)
      (h : Attempt.Asks (remove isUuid location useTrash token) (.command (.rmdir path))) :
      Sends isUuid parseLine location path

theorem asks_after_client (p : Parsed) {next : Unit → Op α}
    (h : Attempt.Asks (next ()) asked) : Attempt.Asks (client p >>= next) asked := by
  have hconnected : Attempt.Asks (connect p.id >>= next) asked :=
    later (ok () : Ask.Answer (.connect p.id)) h
  refine later (ok p.secure : Ask.Answer (.resolve p.id)) ?_
  simp only [Dialogue.Talk.bind, ExceptT.bindCont, ne_eq, not_true_eq_false, if_false]
  exact hconnected

theorem sends_iff (hp : parse isUuid location = .ok p) (path : List Char) :
    Sends isUuid parseLine location path ↔ path = p.path := by
  constructor
  · intro h
    cases h with
    | list options token h =>
      obtain ⟨q, hq, heq⟩ := asks_list h trivial
      obtain rfl := ok.inj (hp.symm.trans hq)
      cases heq
      rfl
    | size token h =>
      obtain ⟨q, hq, h⟩ := asks_of_opened h trivial
      obtain rfl := ok.inj (hp.symm.trans hq)
      cases h.of_perform
      rfl
    | read token h =>
      obtain ⟨q, hq, h⟩ := asks_of_opened h trivial
      obtain rfl := ok.inj (hp.symm.trans hq)
      cases h.of_lift.of_perform
      rfl
    | write overwrite token h =>
      rcases Attempt.Asks.of_bind h with h | ⟨_, h⟩
      · exact absurd h (not_effect_cancelled trivial)
      rcases h.of_bind with h | ⟨_, h⟩
      · exact absurd h not_spawn_refuseExisting
      obtain ⟨q, hq, h⟩ := h.of_mk_bind
      obtain rfl := ok.inj (hp.symm.trans hq)
      rcases h.of_bind with h | ⟨_, h⟩
      · rcases asks_client h with heq | heq <;> cases heq
      · cases h.of_lift.of_perform
        rfl
    | renameFrom destination token h =>
      obtain ⟨a, b, ha, -, heq⟩ := asks_rename h trivial
      obtain rfl := ok.inj (hp.symm.trans ha)
      cases heq
      rfl
    | renameTo source token h =>
      obtain ⟨a, b, -, hb, heq⟩ := asks_rename h trivial
      obtain rfl := ok.inj (hp.symm.trans hb)
      cases heq
      rfl
    | remove useTrash token h =>
      obtain ⟨q, hq, heq | heq⟩ := asks_remove h trivial
      · obtain rfl := ok.inj (hp.symm.trans hq)
        cases heq
        rfl
      · cases heq
    | removeDirectory useTrash token h =>
      obtain ⟨q, hq, heq | heq⟩ := asks_remove h trivial
      · cases heq
      · obtain rfl := ok.inj (hp.symm.trans hq)
        cases heq
        rfl
  · rintro rfl
    -- The size of the file is asked for once a client is there.
    refine .size .new ?_
    have hsize : fileSize isUuid location .new = (do
        client p
        send (.size p.path)) := by
      simp only [fileSize, parsed, hp]
      rfl
    rw [hsize]
    exact asks_after_client p (.now _ _)

-- ==== spellings

theorem parse_of_reads (hscheme : place.scheme = .ftp ∨ place.scheme = .ftps)
    (hprovider : location.providerId = "ftp") (h : Reads isUuid location.uri place path) :
    parse isUuid location = .ok
      { id := place.authority, path := '/' :: path, secure := place.scheme = .ftps,
        uri := location.uri } := by
  have hsplit : splitOnce '/' (place.authority ++ '/' :: path)
      = some (place.authority, path) := by
    refine splitOnce_append _ ?_
    rcases hscheme with hscheme | hscheme
    · simpa [hscheme, separator] using h.unbroken.authority_separator
    · simpa [hscheme, separator] using h.unbroken.authority_separator
  have hid : isUuid place.authority = true := by
    rcases hscheme with hscheme | hscheme
    · simpa [hscheme, Locations.Scheme.AcceptsAuthority, ftpForm] using h.authority
    · simpa [hscheme, Locations.Scheme.AcceptsAuthority, ftpForm] using h.authority
  have htext : schemeOf location.uri
      = some (decide (place.scheme = .ftps), place.authority ++ '/' :: path) := by
    rw [h.text]
    rcases hscheme with hscheme | hscheme
    · rw [hscheme]
      rfl
    · rw [hscheme]
      rfl
  rw [parse, if_neg (not_not.2 hprovider), htext]
  simp only [hsplit, hid, if_true]

theorem encodePath_snoc (segments : List Locations.Segment) (last : Locations.Segment) :
    encodePath (segments ++ [last]) = if segments = [] then percentEncode last
        else encodePath segments ++ '/' :: percentEncode last := by
  unfold encodePath
  induction segments with
  | nil =>
    rw [if_pos rfl]
    exact intercalate_singleton
  | cons first rest ih =>
    rw [if_neg (cons_ne_nil _ _)]
    cases rest with
    | nil => simp [intercalate_cons_cons]
    | cons second more =>
      rw [if_neg (cons_ne_nil _ _)] at ih
      simp only [cons_append, map_cons, intercalate_cons_cons] at ih ⊢
      rw [ih]
      simp

theorem append_cons_inj {c : Char} {before before' after after' : List Char}
    (h : c ∉ after) (h' : c ∉ after') :
    before ++ c :: after = before' ++ c :: after' ↔ before = before' ∧ after = after' := by
  constructor
  · intro heq
    rcases append_eq_append_iff.1 heq with ⟨between, hbefore, hafter⟩
      | ⟨between, hbefore, hafter⟩
    · cases between with
      | nil =>
        simp only [append_nil, nil_append, List.cons.injEq, true_and] at hbefore hafter
        exact ⟨hbefore.symm, hafter⟩
      | cons first rest =>
        simp only [cons_append, List.cons.injEq] at hafter
        exact absurd (hafter.2 ▸ by simp) h
    · cases between with
      | nil =>
        simp only [append_nil, nil_append, List.cons.injEq, true_and] at hbefore hafter
        exact ⟨hbefore, hafter.symm⟩
      | cons first rest =>
        simp only [cons_append, List.cons.injEq] at hafter
        exact absurd (hafter.2 ▸ by simp) h'
  · rintro ⟨rfl, rfl⟩
    rfl

/-- A location as the operations on locations write it. -/
def Written (isUuid : List Char → Bool) (location : Locations.Location) : Prop :=
  ∃ place : Place, place.WellFormed isUuid ∧ location = place.location

/-- The path of an entry: that of its directory, a slash and the name. -/
def entryPath (directory name : List Char) : List Char :=
  if directory = ['/'] then '/' :: name else directory ++ '/' :: name

theorem scheme_of_ftp (h : place.scheme.provider = "ftp") :
    place.scheme = .ftp ∨ place.scheme = .ftps := by
  cases hscheme : place.scheme with
  | ftp => exact .inl rfl
  | ftps => exact .inr rfl
  | _ =>
    rw [hscheme] at h
    exact absurd h (by decide)

theorem joined_of_listed {directory : Locations.Location} {σ : Type}
    {answer : (asked : Ask) → σ → asked.Answer × σ} {s s' : σ} {page : DirectoryPage}
    (hlist : run answer (list isUuid parseLine directory options token) s = (.ok page, s'))
    {entry : Summary} (hentry : entry ∈ page.entries) :
    directory.join isUuid entry.name = .ok entry.location := by
  have hpage : ∃ lines, pageOf isUuid parseLine directory options lines = .ok page := by
    obtain ⟨_, s₁, -, h⟩ := of_run_bind_ok answer hlist
    split at h
    case isTrue =>
      obtain ⟨_, _, hthrow, -⟩ := of_run_bind_ok answer h
      cases hthrow
    case isFalse =>
      obtain ⟨p, s₂, -, h⟩ := of_run_bind_ok answer h
      obtain ⟨_, s₃, -, h⟩ := of_run_bind_ok answer h
      obtain ⟨lines, s₄, -, h⟩ := of_run_bind_ok answer h
      obtain ⟨_, s₅, -, h⟩ := of_run_bind_ok answer h
      exact ⟨lines, congrArg Prod.fst h⟩
  obtain ⟨lines, hpage⟩ := hpage
  rw [pageOf] at hpage
  split at hpage
  case h_2 => cases hpage
  case h_1 =>
    obtain ⟨entries, hentries, hpage⟩ := bind_eq_ok.1 hpage
    obtain rfl := ok.inj hpage
    obtain ⟨file, -, hfile⟩ := paired_right (forall₂_of_mapM hentries) hentry
    rw [entryOf] at hfile
    split at hfile
    case h_2 => cases hfile
    case h_1 child hchild =>
      obtain rfl := ok.inj hfile
      exact hchild

theorem path_of_ftp (hscheme : place.scheme = .ftp ∨ place.scheme = .ftps) :
    place.path = encodePath place.segments := by
  rcases hscheme with hscheme | hscheme <;> simp only [Place.path, hscheme]

theorem written_iff (hprovider : location.providerId = place.scheme.provider)
    (h : Reads isUuid location.uri place path) : Written isUuid location ↔ path = place.path := by
  constructor
  · rintro ⟨place', hplace', rfl⟩
    obtain ⟨rfl, hpath⟩ := h.unique (reads_render hplace')
    exact hpath
  · intro hpath
    refine ⟨place, h.wellFormed, ?_⟩
    have huri : location.uri = place.render := by
      rw [h.text, hpath]
      rfl
    cases location
    simp only at hprovider huri
    rw [hprovider, huri]
    rfl

theorem path_eq_nil_iff {uri : List Char} (hscheme : place.scheme = .ftp ∨ place.scheme = .ftps)
    (h : Reads isUuid uri place path) : path = [] ↔ place.segments = [] := by
  have hraw := rawOf_eq_nil h.decoded
  rw [← hraw]
  have heq : place.scheme.rawOf path = rawSegments path := by
    rcases hscheme with hscheme | hscheme <;> simp only [rawOf, hscheme]
  rw [heq, rawSegments]
  split
  case isTrue hnil => simp [hnil]
  case isFalse hne =>
    refine ⟨fun hnil => absurd hnil hne, fun hnil => ?_⟩
    exact absurd hnil (splitOn_ne_nil _ _)

/-- Commands for a listed entry have its path exactly if neither its name
nor the spelling of the directory has anything to escape. -/
theorem listed_entry_path_iff {uri : List Char} {directory : Locations.Location}
    (hparse : Locations.Location.parse isUuid uri = .ok directory)
    (hftp : directory.providerId = "ftp") {σ : Type}
    (answer : (asked : Ask) → σ → asked.Answer × σ) {options : ListOptions} {token : Token}
    {s s' : σ} {page : DirectoryPage}
    (hlist : run answer (list isUuid parseLine directory options token) s = (.ok page, s'))
    {entry : Summary} (hentry : entry ∈ page.entries) :
    (∀ used, Sends isUuid parseLine directory used → ∀ path,
        Sends isUuid parseLine entry.location path ↔ path = entryPath used entry.name)
      ↔ (∀ byte ∈ utf8 entry.name, isUnreserved byte = true) ∧ Written isUuid directory := by
  have hsearch : directory.providerId ≠ "search" := by
    rw [hftp]
    decide
  obtain ⟨place, -, hnames, -⟩ := names_of_parse hparse hsearch
  obtain ⟨path, hreads⟩ := hnames.reads
  have hplace := hreads.wellFormed
  have hscheme := scheme_of_ftp (hnames.provider.symm.trans hftp)
  have hjoin := joined_of_listed hlist hentry
  have hname := (join_spec hjoin).1
  have hchild : entry.location = (place.child entry.name).location :=
    ok.inj (hjoin.symm.trans (join_eq hnames hplace hname))
  -- the two paths, each from its text
  have hdirectory := parse_of_reads hscheme hftp hreads
  have hchildScheme : (place.child entry.name).scheme = .ftp
      ∨ (place.child entry.name).scheme = .ftps := hscheme
  have hchildProvider : (place.child entry.name).location.providerId = "ftp" :=
    hnames.provider.symm.trans hftp
  have hentryPath := parse_of_reads hchildScheme hchildProvider
    (reads_render (hplace.child hname))
  have hsame : (∀ used, Sends isUuid parseLine directory used → ∀ path,
        Sends isUuid parseLine entry.location path ↔ path = entryPath used entry.name)
      ↔ '/' :: (place.child entry.name).path = entryPath ('/' :: path) entry.name := by
    rw [hchild]
    constructor
    · intro h
      exact (h _ ((sends_iff hdirectory _).2 rfl) _).1 ((sends_iff hentryPath _).2 rfl)
    · intro heq used hused other
      rw [(sends_iff hdirectory used).1 hused, sends_iff hentryPath, heq]
  have hencoded : percentEncode (utf8 entry.name) = entry.name
      ↔ ∀ byte ∈ utf8 entry.name, isUnreserved byte = true :=
    encode_utf8_eq_iff isUnreserved_plainAscii entry.name
  rw [hsame, ← hencoded, written_iff hnames.provider hreads, path_of_ftp hscheme,
    path_of_ftp hchildScheme]
  have hsegments : (place.child entry.name).segments
      = place.segments ++ [utf8 entry.name] := rfl
  rw [hsegments, encodePath_snoc, entryPath]
  have hslash : '/' ∉ percentEncode (utf8 entry.name) :=
    not_mem_percentEncode (by decide) _
  have hslash' : '/' ∉ entry.name := by
    intro hmem
    have hne : entry.name ≠ [] := List.ne_nil_of_mem hmem
    simp [validateName, hne, hmem] at hname
  by_cases hroot : place.segments = []
  · have hpath := (path_eq_nil_iff hscheme hreads).2 hroot
    rw [if_pos hroot, if_pos (by rw [hpath]), hroot, hpath]
    simp [encodePath]
  · have hpath : path ≠ [] := fun hnil => hroot ((path_eq_nil_iff hscheme hreads).1 hnil)
    rw [if_neg hroot, if_neg (by simpa using hpath)]
    simp only [List.cons_append, List.cons.injEq, true_and]
    rw [append_cons_inj hslash hslash', and_comm, @eq_comm _ path]

-- A directory with a file whose name has a space in it.

def idText : List Char := "6a1c1d2e-0000-4000-8000-000000000000".toList

def docsUri : List Char := "ftp://".toList ++ idText ++ "/docs".toList

def docs : Locations.Location where
  providerId := "ftp"
  uri := docsUri

/-- How a server lists an empty file, but for the name. -/
def emptyFile : List Char := "-rw-r--r-- 1 ftp ftp 0 Jan  1 2026 ".toList

def nameLine (line : List Char) : Option File :=
  (emptyFile.isPrefixOf? line).map fun name =>
    { name, isDirectory := false, isSymlink := false, size := 0 }

/-- A server that lists one file. -/
def listsOne (name : List Char) (asked : Ask) (s : Unit) : asked.Answer × Unit :=
  match asked with
  | .isCancelled => (false, s)
  | .resolve _ => (.ok false, s)
  | .connect _ => (.ok (), s)
  | .command (.list _) => (.ok [emptyFile ++ name], s)
  | .command (.size _) => (.ok 0, s)
  | .command (.mkdir _) | .command (.rename _ _) | .command (.rm _) | .command (.rmdir _) =>
    (.ok (), s)
  | .spawn _ => ((), s)

/-- The entry that `docs` has then. -/
def onlyEntry (name : String) (encoded : String) : Summary where
  location := { providerId := "ftp", uri := docsUri ++ '/' :: encoded.toList }
  name := name.toList
  kind := .file
  size := some 0

def listDocs : Op DirectoryPage := list isHyphenatedUuid nameLine docs .standard .caller

theorem parsed_docs : parse isHyphenatedUuid docs
    = .ok { id := idText, path := "/docs".toList, secure := false, uri := docsUri } := by
  decide +kernel

theorem written_docs : Written isHyphenatedUuid docs := by
  refine ⟨⟨.ftp, idText, [utf8 "docs".toList]⟩, ⟨?_, ?_, ?_⟩, ?_⟩
  · constructor
    all_goals decide +kernel
  · have hid : isHyphenatedUuid idText = true := by decide +kernel
    exact hid
  · intro segment hsegment
    obtain rfl := mem_singleton.1 hsegment
    have hok : checkSegment false (utf8 "docs".toList) = .ok () := by
      decide +kernel
    exact ⟨by decide +kernel, hok⟩
  · decide +kernel

theorem listed_readme_path :
    Sends isHyphenatedUuid nameLine (onlyEntry "readme.txt" "readme.txt").location
      "/docs/readme.txt".toList := by
  have hparse : Locations.Location.parse isHyphenatedUuid docsUri = .ok docs := by
    decide +kernel
  have hlisted : run (listsOne "readme.txt".toList) listDocs ()
      = (.ok (.from [onlyEntry "readme.txt" "readme.txt"] 0 1), ()) := by
    decide +kernel
  have hiff := listed_entry_path_iff hparse rfl _ hlisted (List.mem_singleton.2 rfl)
  have hall := hiff.2 ⟨by decide +kernel, written_docs⟩
  exact (hall _ ((sends_iff parsed_docs _).2 rfl) _).2 (by decide +kernel)

theorem escaped_name_misses_entry :
    run (listsOne "a b".toList) listDocs ()
        = (.ok (.from [onlyEntry "a b" "a%20b"] 0 1), ())
      ∧ ¬ ∀ used, Sends isHyphenatedUuid nameLine docs used → ∀ path,
        Sends isHyphenatedUuid nameLine (onlyEntry "a b" "a%20b").location path
          ↔ path = entryPath used "a b".toList := by
  refine ⟨by decide +kernel, fun h => ?_⟩
  have hentry : Parsed.parse isHyphenatedUuid (onlyEntry "a b" "a%20b").location
      = .ok { id := idText, path := "/docs/a%20b".toList, secure := false,
              uri := docsUri ++ "/a%20b".toList } := by
    decide +kernel
  have heq := (h _ ((sends_iff parsed_docs _).2 rfl) _).1 ((sends_iff hentry _).2 rfl)
  revert heq
  decide +kernel

end FileManager.Ftp
