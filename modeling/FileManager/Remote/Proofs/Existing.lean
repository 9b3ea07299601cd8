/-
Whether the FTP and WebDAV providers keep what is at a destination when
they are told not to overwrite.

`commit_copy` and `open_write` look for the destination on the first page
of its directory, and take every failure to see it there for its absence.
So they refuse, and leave all as it is, exactly when the entry is seen
(`Seen`): on the replies as they are when the call starts. What they do
otherwise is to rename or to store, which replaces.
-/
import FileManager.Remote.Proofs.FtpPaths
import FileManager.Remote.WebDav

namespace FileManager

open Remote Ftp Fallible Dialogue.Talk
open Dialogue (Attempt)
open ListOptions (standard)
open Locations (isHyphenatedUuid)

/-- The name may be joined to the location of its directory. -/
def Remote.Joins (isUuid : List Char → Bool) (directory : Locations.Location)
    (name : List Char) : Prop :=
  ∃ child, directory.join isUuid name = .ok child

/-- An error that is not about an existing entry. -/
def Remote.Other (e : VfsError) : Prop := ∀ l, e ≠ .alreadyExists l

theorem Remote.other_invalid (uri : List Char) : Other (invalid uri) := fun l => by simp [invalid]

/-- The call is refused because of what is there, and nothing is
changed. -/
def Remote.Refuses {Q : Type} {A : Q → Type} {σ τ α : Type}
    (answer : (asked : Q) → σ → A asked × σ) (tree : σ → τ) (call : Attempt Q A VfsError α)
    (destination : Locations.Location) (s : σ) : Prop :=
  (Attempt.run answer call s).1 = .error (.alreadyExists (textOf destination.uri))
    ∧ tree (Attempt.run answer call s).2 = tree s

section Looking

variable {Q : Type} {A : Q → Type} {σ τ α : Type} {answer : (asked : Q) → σ → A asked × σ}
  {tree : σ → τ} {destination : Locations.Location} {s s' : σ} {rest : Attempt Q A VfsError α}
  {ask : Dialogue.Talk Q A Bool} {token : Token}

/-- The check: what is found is refused, what is not is absent. -/
def Remote.refuseFound (look : Attempt Q A VfsError Summary) (destination : Locations.Location) :
    Attempt Q A VfsError Unit := do
  let found ← Attempt.caught look
  match found with
  | .ok _ => throw (.alreadyExists (textOf destination.uri))
  | .error _ => pure ()

theorem Remote.refuses_iff_found {look : Attempt Q A VfsError Summary}
    (hlook : tree (Attempt.run answer look s).2 = tree s)
    (hrest : ∀ {s e s'}, Attempt.run answer rest s = (.error e, s') → Other e) :
    Refuses answer tree (refuseFound look destination >>= fun _ => rest) destination s
      ↔ ∃ entry s', Attempt.run answer look s = (.ok entry, s') := by
  have hcaught := Attempt.run_caught answer look s
  cases hfound : Attempt.run answer look s with
  | mk result s' =>
    rw [hfound] at hcaught hlook
    cases result with
    | ok entry =>
      have hrefused : Attempt.run answer (refuseFound look destination) s
          = (.error (.alreadyExists (textOf destination.uri)), s') :=
        Attempt.run_bind_ok answer hcaught
      rw [Refuses, Attempt.run_bind_error answer hrefused]
      exact ⟨fun _ => ⟨entry, s', rfl⟩, fun _ => ⟨rfl, hlook⟩⟩
    | error e =>
      have hfree : Attempt.run answer (refuseFound look destination) s = (.ok (), s') :=
        Attempt.run_bind_ok answer hcaught
      rw [Refuses, Attempt.run_bind_ok answer hfree]
      constructor
      · rintro ⟨hresult, -⟩
        exact absurd rfl (hrest (Prod.ext hresult rfl) _)
      · rintro ⟨entry, s'', heq⟩
        cases heq

theorem Remote.refuses_bind_iff {first : Attempt Q A VfsError Unit}
    (hkept : tree (Attempt.run answer first s).2 = tree s)
    (hfirst : ∀ {e s'}, Attempt.run answer first s = (.error e, s') → Other e) :
    Refuses answer tree (first >>= fun _ => rest) destination s
      ↔ ∃ s', Attempt.run answer first s = (.ok (), s')
        ∧ Refuses answer tree rest destination s' := by
  cases hrun : Attempt.run answer first s with
  | mk result s' =>
    rw [hrun] at hkept
    cases result with
    | ok done =>
      have hrest : Attempt.run answer (first >>= fun _ => rest) s = Attempt.run answer rest s' :=
        Attempt.run_bind_ok answer hrun
      rw [Refuses, hrest, ← hkept]
      constructor
      · intro h
        exact ⟨s', rfl, h⟩
      · rintro ⟨s'', heq, h⟩
        cases heq
        exact h
    | error e =>
      rw [Refuses, Attempt.run_bind_error answer hrun]
      constructor
      · rintro ⟨hresult, -⟩
        exact absurd (Except.error.inj hresult) (hfirst hrun _)
      · rintro ⟨s'', heq, -⟩
        cases heq

/-- The check for cancellation, by whatever is asked. -/
def Remote.stopIfFired (ask : Dialogue.Talk Q A Bool) : Token → Attempt Q A VfsError Unit
  | .new => pure ()
  | .caller => do
    let fired ← (ExceptT.lift ask : Attempt Q A VfsError Bool)
    if fired then throw .cancelled

/-- The check lets the call go on. -/
inductive Remote.GoesOn (fired : σ → Bool × σ) (s : σ) : Token → σ → Prop
  | new : GoesOn fired s .new s
  | caller {s' : σ} (h : fired s = (false, s')) : GoesOn fired s .caller s'

theorem Remote.run_stopIfFired :
    Attempt.run answer (stopIfFired ask token) s = (.ok (), s')
      ↔ GoesOn (run answer ask) s token s' := by
  cases token with
  | new =>
    constructor
    · intro h
      cases h
      exact .new
    · rintro ⟨⟩
      rfl
  | caller =>
    have hasked : Attempt.run answer (ExceptT.lift ask : Attempt Q A VfsError Bool) s
        = (.ok (run answer ask s).1, (run answer ask s).2) :=
      Attempt.run_lift answer ask s
    cases hfired : run answer ask s with
    | mk fired s₁ =>
      rw [hfired] at hasked
      rw [stopIfFired, Attempt.run_bind_ok answer hasked]
      cases fired with
      | true =>
        constructor
        · intro h
          cases h
        · rintro (_ | ⟨h⟩)
          simp [hfired] at h
      | false =>
        constructor
        · intro h
          cases h
          exact .caller hfired
        · rintro (_ | ⟨h⟩)
          rw [hfired] at h
          cases h
          rfl

theorem Remote.stopIfFired_error {e : VfsError}
    (h : Attempt.run answer (stopIfFired ask token) s = (.error e, s')) : Other e := by
  cases token with
  | new => cases h
  | caller =>
    rcases Attempt.of_run_bind_error answer h with h | ⟨fired, s₁, -, h⟩
    · simp [Attempt.run_lift] at h
    · cases fired with
      | true =>
        cases h
        exact fun l => by simp
      | false => cases h

end Looking

namespace Ftp

variable {isUuid : List Char → Bool} {parseLine : List Char → Option File} {σ τ : Type}
  {tree : σ → τ} {location destination : Locations.Location} {s s' : σ} {page : DirectoryPage}
  {entry : Summary} {e : VfsError} {token : Token} {file : File} {p : Parsed}

-- ==== FTP

/-- The questions that change nothing on the server. -/
def Ask.IsQuiet : Ask → Prop
  | .isCancelled | .resolve _ | .connect _ | .command (.list _) | .command (.size _) => True
  | _ => False

/-- What is relied on at the server and the resolver: looking changes
nothing, and errors come from `map_ftp` or from the resolver, which know
no existing entry. -/
structure Serves (answer : (asked : Ask) → σ → asked.Answer × σ) (tree : σ → τ) : Prop where
  quiet : ∀ asked s, asked.IsQuiet → tree (answer asked s).2 = tree s
  resolver : ∀ id s e s', answer (.resolve id) s = (.error e, s') → ∀ l, e ≠ .alreadyExists l
  connection : ∀ id s e s', answer (.connect id) s = (.error e, s') → ∃ text, e = mapFtp text
  command : ∀ command s e s', answer (.command command) s = (.error e, s') →
    ∃ text, e = mapFtp text

/-- The files that the first page of a listing is about. -/
def firstPage (parseLine : List Char → Option File) (lines : List (List Char)) : List File :=
  (lines.filterMap parseLine).take standard.pageSize

/-- The destination is seen: its directory is listed, the first page can
be shown, and has its name. -/
def Seen (isUuid : List Char → Bool) (parseLine : List Char → Option File)
    (answer : (asked : Ask) → σ → asked.Answer × σ) (destination : Locations.Location) (s : σ) :
    Prop :=
  ∃ parent name p s₁ s₂ lines s₃, parentAndName isUuid destination = .ok (parent, name)
    ∧ Parsed.parse isUuid parent = .ok p
    ∧ answer (.resolve p.id) s = (.ok p.secure, s₁)
    ∧ answer (.connect p.id) s₁ = (.ok (), s₂)
    ∧ answer (.command (.list p.path)) s₂ = (.ok lines, s₃)
    ∧ (∀ file ∈ firstPage parseLine lines, Joins isUuid parent file.name)
    ∧ ∃ file ∈ firstPage parseLine lines, file.name = name

variable {answer : (asked : Ask) → σ → asked.Answer × σ}

theorem mapFtp_ne_alreadyExists (text : List Char) (l : Location) :
    mapFtp text ≠ .alreadyExists l := by
  unfold mapFtp
  split
  case isTrue => simp
  case isFalse =>
    split <;> simp

theorem run_resolve (id : List Char) :
    Attempt.run answer (resolve id) s = answer (.resolve id) s := rfl

theorem run_connect (id : List Char) :
    Attempt.run answer (connect id) s = answer (.connect id) s := rfl

theorem run_send (command : Command) :
    Attempt.run answer (send command) s = answer (.command command) s := rfl

theorem run_client_ok :
    Attempt.run answer (client p) s = (.ok (), s')
      ↔ ∃ s₁, answer (.resolve p.id) s = (.ok p.secure, s₁)
        ∧ answer (.connect p.id) s₁ = (.ok (), s') := by
  constructor
  · intro h
    obtain ⟨explicitTls, s₁, hresolve, h⟩ := Attempt.of_run_bind_ok answer h
    simp only at h
    split at h
    case isTrue =>
      obtain ⟨_, _, hthrow, -⟩ := Attempt.of_run_bind_ok answer h
      cases hthrow
    case isFalse htls =>
      rw [not_not] at htls
      exact ⟨s₁, htls ▸ hresolve, h⟩
  · rintro ⟨s₁, hresolve, hconnect⟩
    rw [client, Attempt.run_bind_ok answer ((run_resolve _).trans hresolve)]
    simpa [run_connect] using hconnect

theorem pageOf_standard {lines : List (List Char)} :
    pageOf isUuid parseLine location .standard lines = .ok page
      ↔ ∃ entries, (firstPage parseLine lines).mapM (entryOf isUuid location) = .ok entries
        ∧ page = .from entries 0 (lines.filterMap parseLine).length := by
  simp only [pageOf, standard, List.drop_zero, firstPage]
  rw [bind_eq_ok]
  constructor
  · rintro ⟨entries, hentries, hpage⟩
    exact ⟨entries, hentries, (Except.ok.inj hpage).symm⟩
  · rintro ⟨entries, hentries, rfl⟩
    exact ⟨entries, hentries, rfl⟩

theorem run_list_standard :
    Attempt.run answer (list isUuid parseLine location .standard .new) s = (.ok page, s')
      ↔ ∃ p s₁ lines, Parsed.parse isUuid location = .ok p
        ∧ Attempt.run answer (client p) s = (.ok (), s₁)
        ∧ answer (.command (.list p.path)) s₁ = (.ok lines, s')
        ∧ pageOf isUuid parseLine location .standard lines = .ok page := by
  have heq : list isUuid parseLine location .standard .new = (do
      let p ← parsed isUuid location
      client p
      let lines ← send (.list p.path)
      ExceptT.mk (pure (pageOf isUuid parseLine location .standard lines))) := rfl
  rw [heq]
  constructor
  · intro h
    obtain ⟨p, s₀, hp, h⟩ := Attempt.of_run_bind_ok answer h
    obtain ⟨_, s₁, hclient, h⟩ := Attempt.of_run_bind_ok answer h
    obtain ⟨lines, s₂, hlines, h⟩ := Attempt.of_run_bind_ok answer h
    rw [Attempt.run_mk_pure, Prod.mk.injEq] at h
    rw [parsed, Attempt.run_mk_pure, Prod.mk.injEq] at hp
    obtain ⟨hpage, rfl⟩ := h
    obtain ⟨hp, rfl⟩ := hp
    exact ⟨p, s₁, lines, hp, hclient, hlines, hpage⟩
  · rintro ⟨p, s₁, lines, hp, hclient, hlines, hpage⟩
    have hparsed : Attempt.run answer (parsed isUuid location) s = (.ok p, s) := by
      rw [parsed, hp, Attempt.run_mk_pure]
    rw [Attempt.run_bind_ok answer hparsed, Attempt.run_bind_ok answer hclient]
    rw [Attempt.run_bind_ok answer ((run_send _).trans hlines), hpage, Attempt.run_mk_pure]

theorem entryOf_ok (h : entryOf isUuid location file = .ok entry) :
    Joins isUuid location file.name ∧ entry.name = file.name := by
  rw [entryOf] at h
  split at h
  case h_1 child hchild =>
    obtain rfl := Except.ok.inj h
    exact ⟨⟨child, hchild⟩, rfl⟩
  case h_2 => cases h

theorem entryOf_of_joins (h : Joins isUuid location file.name) :
    ∃ entry, entryOf isUuid location file = .ok entry := by
  obtain ⟨child, hchild⟩ := h
  exact ⟨summary child file, by simp only [entryOf, hchild]⟩

theorem seen_of_inspect
    (h : Attempt.run answer (inspect isUuid parseLine destination .new) s = (.ok entry, s')) :
    Seen isUuid parseLine answer destination s := by
  obtain ⟨⟨parent, name⟩, s₀, hparent, h⟩ := Attempt.of_run_bind_ok answer h
  rw [Attempt.run_mk_pure, Prod.mk.injEq] at hparent
  obtain ⟨hparent, rfl⟩ := hparent
  obtain ⟨page, s₃, hlist, h⟩ := Attempt.of_run_bind_ok answer h
  obtain ⟨p, s₂, lines, hp, hclient, hlines, hpage⟩ := run_list_standard.1 hlist
  obtain ⟨s₁, hresolve, hconnect⟩ := run_client_ok.1 hclient
  obtain ⟨entries, hentries, rfl⟩ := pageOf_standard.1 hpage
  have hpairs := forall₂_of_mapM hentries
  refine ⟨parent, name, p, s₁, s₂, lines, s₃, hparent, hp, hresolve, hconnect, hlines, ?_, ?_⟩
  · intro file hfile
    obtain ⟨found, -, hfound⟩ := paired_left hpairs hfile
    exact (entryOf_ok hfound).1
  · split at h
    case h_2 => cases h
    case h_1 found hfound =>
      obtain ⟨file, hfile, hof⟩ := paired_right hpairs (List.mem_of_find?_eq_some hfound)
      have hname := List.find?_some hfound
      exact ⟨file, hfile, (entryOf_ok hof).2.symm.trans (of_decide_eq_true hname)⟩

theorem inspect_of_seen (h : Seen isUuid parseLine answer destination s) :
    ∃ entry s', Attempt.run answer (inspect isUuid parseLine destination .new) s
      = (.ok entry, s') := by
  obtain ⟨parent, name, p, s₁, s₂, lines, s₃, hparent, hp, hresolve, hconnect, hlines, hjoins,
    file, hfile, hname⟩ := h
  obtain ⟨entries, hentries⟩ := exists_mapM_ok fun file hfile =>
    entryOf_of_joins (hjoins file hfile)
  have hclient := run_client_ok.2 ⟨s₁, hresolve, hconnect⟩
  have hlist := run_list_standard.2 ⟨p, s₂, lines, hp, hclient, hlines,
    pageOf_standard.2 ⟨entries, hentries, rfl⟩⟩
  obtain ⟨entry, hentry, hof⟩ := paired_left (forall₂_of_mapM hentries) hfile
  have hfound : (entries.find? fun entry => entry.name = name).isSome := by
    rw [List.find?_isSome]
    exact ⟨entry, hentry, by simp [(entryOf_ok hof).2, hname]⟩
  obtain ⟨found, hfound⟩ := Option.isSome_iff_exists.1 hfound
  refine ⟨found, s₃, ?_⟩
  rw [inspect, hparent]
  have hparsed : Attempt.run answer
      (ExceptT.mk (pure (Except.ok (parent, name))) : Op (Locations.Location × List Char)) s
      = (.ok (parent, name), s) := rfl
  rw [Attempt.run_bind_ok answer hparsed, Attempt.run_bind_ok answer hlist]
  simp only [DirectoryPage.from, hfound, Attempt.run_pure]

-- ==== refusals

theorem inspect_ok_iff :
    (∃ entry s', Attempt.run answer (inspect isUuid parseLine destination .new) s = (.ok entry, s'))
      ↔ Seen isUuid parseLine answer destination s :=
  ⟨fun ⟨_, _, h⟩ => seen_of_inspect h, inspect_of_seen⟩

theorem Serves.inspect_keeps (hserves : Serves answer tree) :
    tree (Attempt.run answer (inspect isUuid parseLine destination .new) s).2 = tree s := by
  refine Attempt.run_keeps answer tree _ ?_ s
  intro asked hasked s
  refine hserves.quiet asked s ?_
  obtain ⟨⟨parent, name⟩, -, h⟩ := hasked.of_mk_bind
  rcases h.of_bind with h | ⟨page, h⟩
  · cases asked with
    | command command =>
      obtain ⟨p, -, heq⟩ := asks_list h trivial
      cases heq
      exact trivial
    | spawn task =>
      obtain ⟨p, -, heq⟩ := asks_list h trivial
      cases heq
    | _ => exact trivial
  · split at h
    · exact absurd h Attempt.not_asks_pure
    · exact absurd h Attempt.not_asks_throw

theorem Serves.client_error (hserves : Serves answer tree)
    (h : Attempt.run answer (client p) s = (.error e, s')) : Other e := by
  rcases Attempt.of_run_bind_error answer h with h | ⟨explicitTls, s₁, -, h⟩
  · exact hserves.resolver _ _ _ _ h
  · simp only at h
    have hconnect : ∀ {s₁ : σ}, Attempt.run answer (connect p.id) s₁ = (.error e, s') →
        Other e := by
      intro s₁ h
      obtain ⟨text, rfl⟩ := hserves.connection _ _ _ _ h
      exact mapFtp_ne_alreadyExists text
    split at h
    case isTrue =>
      rcases Attempt.of_run_bind_error answer h with h | ⟨_, s₂, -, h⟩
      · cases h
        exact other_invalid _
      · exact hconnect h
    case isFalse => exact hconnect h

theorem cancelled_eq (token : Token) :
    cancelled token = stopIfFired (perform Ask.isCancelled) token := by
  cases token with
  | new => rfl
  | caller => rfl

theorem cancelled_error
    (h : Attempt.run answer (cancelled token) s = (.error e, s')) : Other e := by
  rw [cancelled_eq] at h
  exact stopIfFired_error h

theorem parsed_error
    (h : Attempt.run answer (parsed isUuid location) s = (.error e, s')) : Other e := by
  rw [parsed, Attempt.run_mk_pure, Prod.mk.injEq] at h
  obtain ⟨h, -⟩ := h
  rw [Parsed.parse] at h
  split at h
  case isTrue => exact Except.error.inj h ▸ other_invalid _
  case isFalse =>
    split at h
    case h_1 => exact Except.error.inj h ▸ other_invalid _
    case h_2 =>
      split at h
      case h_1 => exact Except.error.inj h ▸ other_invalid _
      case h_2 =>
        split at h
        case isTrue => cases h
        case isFalse => exact Except.error.inj h ▸ other_invalid _

theorem Serves.rename_error (hserves : Serves answer tree) {source : Locations.Location}
    (h : Attempt.run answer (rename isUuid source destination token) s = (.error e, s')) :
    Other e := by
  rcases Attempt.of_run_bind_error answer h with h | ⟨_, s₁, -, h⟩
  · exact cancelled_error h
  rcases Attempt.of_run_bind_error answer h with h | ⟨a, s₂, -, h⟩
  · exact parsed_error h
  rcases Attempt.of_run_bind_error answer h with h | ⟨b, s₃, -, h⟩
  · exact parsed_error h
  have hsent : ∀ {s₃ : σ}, Attempt.run answer (do
      client a
      send (.rename a.path b.path)
      return destination) s₃ = (.error e, s') → Other e := by
    intro s₃ h
    rcases Attempt.of_run_bind_error answer h with h | ⟨_, s₄, -, h⟩
    · exact hserves.client_error h
    rcases Attempt.of_run_bind_error answer h with h | ⟨_, s₅, -, h⟩
    · obtain ⟨text, rfl⟩ := hserves.command (.rename a.path b.path) s₄ e s' h
      exact mapFtp_ne_alreadyExists text
    · cases h
  simp only at h
  split at h
  case isTrue =>
    rcases Attempt.of_run_bind_error answer h with h | ⟨_, s₄, -, h⟩
    · cases h
      exact other_invalid _
    · exact hsent h
  case isFalse => exact hsent h

theorem Serves.refuseExisting_of_not_seen (hserves : Serves answer tree)
    (h : ¬ Seen isUuid parseLine answer destination s) :
    ∃ s', Attempt.run answer (refuseExisting isUuid parseLine destination false) s = (.ok (), s')
      ∧ tree s' = tree s := by
  have hcaught := Attempt.run_caught answer (inspect isUuid parseLine destination .new) s
  have hkept : tree (Attempt.run answer (inspect isUuid parseLine destination .new) s).2 = tree s :=
    hserves.inspect_keeps
  cases hfound : Attempt.run answer (inspect isUuid parseLine destination .new) s with
  | mk result s' =>
    rw [hfound] at hcaught hkept
    cases result with
    | ok entry => exact absurd (seen_of_inspect hfound) h
    | error e => exact ⟨s', Attempt.run_bind_ok answer hcaught, hkept⟩

theorem commitCopy_refuses_iff (hserves : Serves answer tree) (temporary : Locations.Location)
    (token : Token) :
    Refuses answer tree (commitCopy isUuid parseLine temporary destination false token)
        destination s ↔ Seen isUuid parseLine answer destination s := by
  rw [← inspect_ok_iff]
  exact refuses_iff_found hserves.inspect_keeps hserves.rename_error

theorem run_cancelled_ok :
    Attempt.run answer (cancelled token) s = (.ok (), s')
      ↔ GoesOn (answer .isCancelled) s token s' := by
  rw [cancelled_eq]
  exact run_stopIfFired

theorem Serves.cancelled_keeps (hserves : Serves answer tree) :
    tree (Attempt.run answer (cancelled token) s).2 = tree s := by
  refine Attempt.run_keeps answer tree _ ?_ s
  intro asked hasked s
  rw [asks_cancelled hasked]
  exact hserves.quiet _ s trivial

theorem openWrite_refuses_iff (hserves : Serves answer tree) (token : Token) :
    Refuses answer tree (openWrite isUuid parseLine destination false token) destination s
      ↔ ∃ s₀, GoesOn (answer .isCancelled) s token s₀
        ∧ Seen isUuid parseLine answer destination s₀ := by
  have hrest : ∀ {s e s'}, Attempt.run answer (do
      let p ← parsed isUuid destination
      client p
      spawn (.stor p.path)) s = (.error e, s') → Other e := by
    intro s e s' h
    rcases Attempt.of_run_bind_error answer h with h | ⟨p, s₂, -, h⟩
    · exact parsed_error h
    rcases Attempt.of_run_bind_error answer h with h | ⟨_, s₃, -, h⟩
    · exact hserves.client_error h
    · cases h
  rw [openWrite, refuses_bind_iff hserves.cancelled_keeps cancelled_error]
  simp only [run_cancelled_ok, ← inspect_ok_iff]
  refine exists_congr fun s₀ => and_congr_right fun _ => ?_
  exact refuses_iff_found hserves.inspect_keeps hrest

end Ftp

namespace WebDav

variable {isUuid : List Char → Bool} {libraries : Libraries} {σ τ : Type} {tree : σ → τ}
  {location destination : Locations.Location} {s s' : σ} {page : DirectoryPage}
  {response : Response} {url name : List Char} {token : Token} {options : ListOptions}
  {e : VfsError}

-- ==== WebDAV

/-- The questions that change nothing on the server. -/
def Ask.IsQuiet : Ask → Prop
  | .isCancelled | .resolve _ | .probeRangeSupport _ | .request .propfind _
  | .request .head _ => True
  | _ => False

/-- What is relied on at the server, the resolver and the transport:
looking changes nothing, a failure to answer says nothing of an existing
entry, and a `MOVE` is not refused for one. -/
structure Serves (answer : (asked : Ask) → σ → asked.Answer × σ) (tree : σ → τ) : Prop where
  quiet : ∀ asked s, asked.IsQuiet → tree (answer asked s).2 = tree s
  resolver : ∀ id s e s', answer (.resolve id) s = (.error e, s') → Other e
  transport : ∀ method url s e s', answer (.request method url) s = (.error e, s') → Other e
  replaces : ∀ target url s response s',
    answer (.request (.move target) url) s = (.ok response, s') →
    response.status ≠ 409 ∧ response.status ≠ 412

/-- The destination is seen: its directory is listed, all of it can be
shown, and its first page has the name. -/
def Seen (isUuid : List Char → Bool) (libraries : Libraries)
    (answer : (asked : Ask) → σ → asked.Answer × σ) (destination : Locations.Location) (s : σ) :
    Prop :=
  ∃ parent name p parameters s₁ url response s₂ entries,
    parentAndName isUuid destination = .ok (parent, name)
    ∧ Parsed.parse isUuid libraries parent = .ok p
    ∧ answer (.resolve p.connectionId) s = (.ok parameters, s₁)
    ∧ urlFor libraries p parameters = .ok url
    ∧ answer (.request .propfind url) (answer (.probeRangeSupport p.connectionId) s₁).2
        = (.ok response, s₂)
    ∧ response.isSuccess = true
    ∧ libraries.parseMultistatus response.body = some entries
    ∧ (∀ child ∈ childrenIn libraries (decodedPath libraries url) entries,
        Joins isUuid parent child.1)
    ∧ ∃ child ∈ (childrenIn libraries (decodedPath libraries url) entries).take
        standard.pageSize, child.1 = name

variable {answer : (asked : Ask) → σ → asked.Answer × σ}

theorem run_resolve (parsed : Parsed) :
    Attempt.run answer (resolve parsed) s = answer (.resolve parsed.connectionId) s := rfl

theorem run_request (method : Method) (url : List Char) :
    Attempt.run answer (request method url) s = answer (.request method url) s := rfl

theorem run_probe (parsed : Parsed) :
    Attempt.run answer (probeRangeSupport parsed) s
      = (.ok (), (answer (.probeRangeSupport parsed.connectionId) s).2) := rfl

theorem pageOf_standard {selfPath : List Char} {entries : List DavEntry} :
    pageOf isUuid libraries location .standard selfPath entries = .ok page
      ↔ ∃ summaries, ((childrenIn libraries selfPath entries).mapM fun child =>
          summary isUuid location child.1 child.2) = .ok summaries
        ∧ page = .from (summaries.take standard.pageSize) 0 summaries.length := by
  rw [pageOf, bind_eq_ok]
  constructor
  · rintro ⟨summaries, hsummaries, hpage⟩
    exact ⟨summaries, hsummaries, (Except.ok.inj hpage).symm⟩
  · rintro ⟨summaries, hsummaries, rfl⟩
    exact ⟨summaries, hsummaries, rfl⟩

theorem run_readPage :
    Attempt.run answer (readPage isUuid libraries location .standard .new url response) s
        = (.ok page, s') ↔ s' = s ∧ response.isSuccess = true
        ∧ ∃ entries, libraries.parseMultistatus response.body = some entries
          ∧ pageOf isUuid libraries location .standard (decodedPath libraries url) entries
            = .ok page := by
  cases hsuccess : response.isSuccess with
  | false =>
    have heq : readPage isUuid libraries location .standard .new url response
        = (throw (mapStatus libraries response.status location.uri) : Op DirectoryPage) := by
      simp only [readPage, hsuccess]
      rfl
    rw [heq]
    simp
  | true =>
    cases hbody : libraries.parseMultistatus response.body with
    | none =>
      have heq : readPage isUuid libraries location .standard .new url response
          = (throw (.io "malformed WebDAV multistatus response") : Op DirectoryPage) := by
        simp only [readPage, hsuccess, hbody]
        rfl
      rw [heq]
      simp
    | some entries =>
      have heq : readPage isUuid libraries location .standard .new url response
          = ExceptT.mk (pure (pageOf isUuid libraries location .standard
            (decodedPath libraries url) entries)) := by
        simp only [readPage, hsuccess, hbody]
        rfl
      rw [heq, Attempt.run_mk_pure, Prod.mk.injEq]
      constructor
      · rintro ⟨hpage, rfl⟩
        exact ⟨rfl, rfl, entries, rfl, hpage⟩
      · rintro ⟨rfl, -, other, hother, hpage⟩
        cases hother
        exact ⟨hpage, rfl⟩

theorem run_list_standard :
    Attempt.run answer (list isUuid libraries location .standard .new) s = (.ok page, s')
      ↔ ∃ p parameters s₁ url response entries, Parsed.parse isUuid libraries location = .ok p
        ∧ answer (.resolve p.connectionId) s = (.ok parameters, s₁)
        ∧ urlFor libraries p parameters = .ok url
        ∧ answer (.request .propfind url) (answer (.probeRangeSupport p.connectionId) s₁).2
            = (.ok response, s') ∧ response.isSuccess = true
        ∧ libraries.parseMultistatus response.body = some entries
        ∧ pageOf isUuid libraries location .standard (decodedPath libraries url) entries
            = .ok page := by
  have heq : list isUuid libraries location .standard .new = (do
      let p ← ExceptT.mk (pure (Parsed.parse isUuid libraries location))
      let parameters ← resolve p
      probeRangeSupport p
      let url ← ExceptT.mk (pure (urlFor libraries p parameters))
      let response ← request .propfind url
      readPage isUuid libraries location .standard .new url response) := rfl
  rw [heq]
  constructor
  · intro h
    obtain ⟨p, s₀, hp, h⟩ := Attempt.of_run_bind_ok answer h
    rw [Attempt.run_mk_pure, Prod.mk.injEq] at hp
    obtain ⟨hp, rfl⟩ := hp
    obtain ⟨parameters, s₁, hresolve, h⟩ := Attempt.of_run_bind_ok answer h
    rw [Attempt.run_bind_ok answer (run_probe p)] at h
    obtain ⟨url, s₂, hurl, h⟩ := Attempt.of_run_bind_ok answer h
    rw [Attempt.run_mk_pure, Prod.mk.injEq] at hurl
    obtain ⟨hurl, rfl⟩ := hurl
    obtain ⟨response, s₃, hresponse, h⟩ := Attempt.of_run_bind_ok answer h
    obtain ⟨rfl, hsuccess, entries, hbody, hpage⟩ := run_readPage.1 h
    exact ⟨p, parameters, s₁, url, response, entries, hp, hresolve, hurl, hresponse, hsuccess,
      hbody, hpage⟩
  · rintro ⟨p, parameters, s₁, url, response, entries, hp, hresolve, hurl, hresponse, hsuccess,
      hbody, hpage⟩
    rw [Attempt.run_bind_ok answer (Attempt.run_mk_pure answer _ _ |>.trans (by rw [hp])),
      Attempt.run_bind_ok answer ((run_resolve p).trans hresolve),
      Attempt.run_bind_ok answer (run_probe p),
      Attempt.run_bind_ok answer (Attempt.run_mk_pure answer _ _ |>.trans (by rw [hurl])),
      Attempt.run_bind_ok answer ((run_request _ _).trans hresponse)]
    exact run_readPage.2 ⟨rfl, hsuccess, entries, hbody, hpage⟩

theorem summary_ok {entry : DavEntry} {found : Summary}
    (h : summary isUuid location name entry = .ok found) :
    Joins isUuid location name ∧ found.name = name := by
  rw [summary] at h
  split at h
  case h_1 => cases h
  case h_2 child hchild =>
    obtain rfl := Except.ok.inj h
    exact ⟨⟨child, hchild⟩, rfl⟩

theorem summary_of_joins (h : Joins isUuid location name) (entry : DavEntry) :
    ∃ found, summary isUuid location name entry = .ok found := by
  obtain ⟨child, hchild⟩ := h
  rw [summary, hchild]
  exact ⟨_, rfl⟩

theorem seen_of_inspect {entry : Summary}
    (h : Attempt.run answer (inspect isUuid libraries destination .new) s = (.ok entry, s')) :
    Seen isUuid libraries answer destination s := by
  obtain ⟨⟨parent, name⟩, s₀, hparent, h⟩ := Attempt.of_run_bind_ok answer h
  rw [Attempt.run_mk_pure, Prod.mk.injEq] at hparent
  obtain ⟨hparent, rfl⟩ := hparent
  obtain ⟨page, s₂, hlist, h⟩ := Attempt.of_run_bind_ok answer h
  obtain ⟨p, parameters, s₁, url, response, entries, hp, hresolve, hurl, hresponse, hsuccess,
    hbody, hpage⟩ := run_list_standard.1 hlist
  obtain ⟨summaries, hsummaries, rfl⟩ := pageOf_standard.1 hpage
  have hpairs := forall₂_of_mapM hsummaries
  refine ⟨parent, name, p, parameters, s₁, url, response, s₂, entries, hparent, hp, hresolve, hurl,
    hresponse, hsuccess, hbody, ?_, ?_⟩
  · intro child hchild
    obtain ⟨found, -, hfound⟩ := paired_left hpairs hchild
    exact (summary_ok hfound).1
  · split at h
    case h_2 => cases h
    case h_1 found hfound =>
      have hfirst := List.forall₂_take standard.pageSize hpairs
      obtain ⟨child, hchild, hof⟩ := paired_right hfirst (List.mem_of_find?_eq_some hfound)
      have hname := List.find?_some hfound
      exact ⟨child, hchild, (summary_ok hof).2.symm.trans (of_decide_eq_true hname)⟩

theorem inspect_of_seen (h : Seen isUuid libraries answer destination s) :
    ∃ entry s', Attempt.run answer (inspect isUuid libraries destination .new) s
      = (.ok entry, s') := by
  obtain ⟨parent, name, p, parameters, s₁, url, response, s₂, entries, hparent, hp, hresolve, hurl,
    hresponse, hsuccess, hbody, hjoins, child, hchild, hname⟩ := h
  obtain ⟨summaries, hsummaries⟩ := exists_mapM_ok
    fun (child : List Char × DavEntry) hchild => summary_of_joins (hjoins child hchild) child.2
  have hlist := run_list_standard.2 ⟨p, parameters, s₁, url, response, entries, hp, hresolve, hurl,
    hresponse, hsuccess, hbody, pageOf_standard.2 ⟨summaries, hsummaries, rfl⟩⟩
  have hfirst := List.forall₂_take standard.pageSize (forall₂_of_mapM hsummaries)
  obtain ⟨entry, hentry, hof⟩ := paired_left hfirst hchild
  have hfound : ((summaries.take standard.pageSize).find?
      fun entry => entry.name = name).isSome := by
    rw [List.find?_isSome]
    exact ⟨entry, hentry, by simp [(summary_ok hof).2, hname]⟩
  obtain ⟨found, hfound⟩ := Option.isSome_iff_exists.1 hfound
  refine ⟨found, s₂, ?_⟩
  rw [inspect, hparent]
  have hparsed : Attempt.run answer
      (ExceptT.mk (pure (Except.ok (parent, name))) : Op (Locations.Location × List Char)) s
      = (.ok (parent, name), s) := rfl
  rw [Attempt.run_bind_ok answer hparsed, Attempt.run_bind_ok answer hlist]
  simp only [DirectoryPage.from, hfound, Attempt.run_pure]

theorem inspect_ok_iff :
    (∃ entry s', Attempt.run answer (inspect isUuid libraries destination .new) s = (.ok entry, s'))
      ↔ Seen isUuid libraries answer destination s :=
  ⟨fun ⟨_, _, h⟩ => seen_of_inspect h, inspect_of_seen⟩

variable {asked : Ask}

theorem asks_cancelled (h : Attempt.Asks (cancelled token) asked) : asked = .isCancelled := by
  cases token with
  | new => exact absurd h Attempt.not_asks_pure
  | caller =>
    rcases h.of_bind with h | ⟨fired, h⟩
    · exact h.of_lift.of_perform
    · cases fired with
      | true => exact absurd h Attempt.not_asks_throw
      | false => exact absurd h Attempt.not_asks_pure

theorem quiet_of_readPage
    (h : Attempt.Asks (readPage isUuid libraries location options token url response) asked) :
    asked.IsQuiet := by
  have hrest := Attempt.Asks.of_guard h
  cases hbody : libraries.parseMultistatus response.body with
  | none =>
    simp only [hbody] at hrest
    exact absurd hrest Attempt.not_asks_throw
  | some entries =>
    simp only [hbody] at hrest
    rcases hrest.of_bind with h | ⟨_, h⟩
    · rw [asks_cancelled h]
      exact trivial
    · exact absurd h not_asks_pure

theorem quiet_of_list
    (h : Attempt.Asks (list isUuid libraries location options token) asked) : asked.IsQuiet := by
  rcases h.of_bind with h | ⟨_, h⟩
  · rw [asks_cancelled h]
    exact trivial
  obtain ⟨p, -, h⟩ := (Attempt.Asks.of_guard h).of_mk_bind
  rcases h.of_bind with h | ⟨parameters, h⟩
  · rw [h.of_perform]
    exact trivial
  rcases h.of_bind with h | ⟨_, h⟩
  · rcases h.of_bind with h | ⟨_, h⟩
    · rw [h.of_lift.of_perform]
      exact trivial
    · exact absurd h Attempt.not_asks_pure
  obtain ⟨url, -, h⟩ := h.of_mk_bind
  rcases h.of_bind with h | ⟨response, h⟩
  · rw [h.of_perform]
    exact trivial
  · exact quiet_of_readPage h

theorem Serves.inspect_keeps (hserves : Serves answer tree) :
    tree (Attempt.run answer (inspect isUuid libraries destination .new) s).2 = tree s := by
  refine Attempt.run_keeps answer tree _ ?_ s
  intro asked hasked s
  refine hserves.quiet asked s ?_
  obtain ⟨⟨parent, name⟩, -, h⟩ := hasked.of_mk_bind
  rcases h.of_bind with h | ⟨page, h⟩
  · exact quiet_of_list h
  · split at h
    · exact absurd h Attempt.not_asks_pure
    · exact absurd h Attempt.not_asks_throw

-- ==== refusals

theorem cancelled_eq (token : Token) :
    cancelled token = stopIfFired (perform Ask.isCancelled) token := by
  cases token with
  | new => rfl
  | caller => rfl

theorem cancelled_error
    (h : Attempt.run answer (cancelled token) s = (.error e, s')) : Other e := by
  rw [cancelled_eq] at h
  exact stopIfFired_error h

theorem run_cancelled_ok :
    Attempt.run answer (cancelled token) s = (.ok (), s')
      ↔ GoesOn (answer .isCancelled) s token s' := by
  rw [cancelled_eq]
  exact run_stopIfFired

theorem Serves.cancelled_keeps (hserves : Serves answer tree) :
    tree (Attempt.run answer (cancelled token) s).2 = tree s := by
  refine Attempt.run_keeps answer tree _ ?_ s
  intro asked hasked s
  rw [asks_cancelled hasked]
  exact hserves.quiet _ s trivial

theorem parse_error (h : Parsed.parse isUuid libraries location = .error e) : Other e := by
  rw [Parsed.parse] at h
  split at h
  case isTrue => exact Except.error.inj h ▸ other_invalid _
  case isFalse =>
    split at h
    case h_1 => exact Except.error.inj h ▸ other_invalid _
    case h_2 =>
      split at h
      case isTrue => exact Except.error.inj h ▸ other_invalid _
      case isFalse =>
        split at h
        case h_1 => exact Except.error.inj h ▸ other_invalid _
        case h_2 => cases h

theorem urlFor_error {p : Parsed} {parameters : WebDavConnectionParameters}
    (h : urlFor libraries p parameters = .error e) : Other e := by
  rw [urlFor] at h
  split at h
  case isTrue => exact Except.error.inj h ▸ other_invalid _
  case isFalse =>
    split at h
    case h_1 => cases h
    case h_2 => exact Except.error.inj h ▸ other_invalid _

theorem Serves.rename_error (hserves : Serves answer tree) {source : Locations.Location}
    (h : Attempt.run answer (rename isUuid libraries source destination token) s = (.error e, s')) :
    Other e := by
  rcases Attempt.of_run_bind_error answer h with h | ⟨_, s₁, -, h⟩
  · exact cancelled_error h
  rcases Attempt.of_run_bind_error answer h with h | ⟨a, s₂, -, h⟩
  · exact parse_error (congrArg Prod.fst h)
  rcases Attempt.of_run_bind_error answer h with h | ⟨b, s₃, -, h⟩
  · exact parse_error (congrArg Prod.fst h)
  rcases Attempt.of_run_guard_error answer h with h | h
  · exact h ▸ other_invalid _
  rcases Attempt.of_run_bind_error answer h with h | ⟨parameters, s₄, -, h⟩
  · exact hserves.resolver _ _ _ _ h
  rcases Attempt.of_run_bind_error answer h with h | ⟨sourceUrl, s₅, -, h⟩
  · exact urlFor_error (congrArg Prod.fst h)
  rcases Attempt.of_run_bind_error answer h with h | ⟨destinationUrl, s₆, -, h⟩
  · exact urlFor_error (congrArg Prod.fst h)
  rcases Attempt.of_run_bind_error answer h with h | ⟨response, s₇, hresponse, h⟩
  · exact hserves.transport _ _ _ _ _ h
  split at h
  case isTrue => cases h
  case isFalse =>
    obtain ⟨h409, h412⟩ := hserves.replaces _ _ _ _ _ hresponse
    cases h
    intro l
    unfold mapStatus
    simp only [h409, h412, or_self, if_false]
    split
    case isTrue => simp
    case isFalse =>
      split
      case isTrue => simp
      case isFalse =>
        split <;> simp

theorem commitCopy_refuses_iff (hserves : Serves answer tree) (temporary : Locations.Location)
    (token : Token) :
    Refuses answer tree (commitCopy isUuid libraries temporary destination false token)
        destination s ↔ Seen isUuid libraries answer destination s := by
  rw [← inspect_ok_iff]
  exact refuses_iff_found hserves.inspect_keeps hserves.rename_error

theorem openWrite_refuses_iff (hserves : Serves answer tree) (token : Token) :
    Refuses answer tree (openWrite isUuid libraries destination false token) destination s
      ↔ ∃ s₀, GoesOn (answer .isCancelled) s token s₀
        ∧ Seen isUuid libraries answer destination s₀ := by
  have hrest : ∀ {s e s'}, Attempt.run answer (do
      let parsed ← ExceptT.mk (pure (Parsed.parse isUuid libraries destination))
      let parameters ← resolve parsed
      let url ← ExceptT.mk (pure (urlFor libraries parsed parameters))
      if parameters.digest then
        let _ ← Attempt.caught (request .head url)
      ExceptT.lift (perform (Ask.spawn url))) s = (.error e, s') → Other e := by
    intro s e s' h
    rcases Attempt.of_run_bind_error answer h with h | ⟨p, s₁, -, h⟩
    · exact parse_error (congrArg Prod.fst h)
    rcases Attempt.of_run_bind_error answer h with h | ⟨parameters, s₂, -, h⟩
    · exact hserves.resolver _ _ _ _ h
    rcases Attempt.of_run_bind_error answer h with h | ⟨url, s₃, -, h⟩
    · exact urlFor_error (congrArg Prod.fst h)
    simp only at h
    split at h
    case isTrue =>
      rcases Attempt.of_run_bind_error answer h with h | ⟨_, s₄, -, h⟩
      · simp [Attempt.run_caught] at h
      · cases h
    case isFalse => cases h
  rw [openWrite, refuses_bind_iff hserves.cancelled_keeps cancelled_error]
  simp only [run_cancelled_ok, ← inspect_ok_iff]
  refine exists_congr fun s₀ => and_congr_right fun _ => ?_
  exact refuses_iff_found hserves.inspect_keeps hrest

end WebDav

-- ==== together

/-- Told not to overwrite, a commit or an upload refuses what is there
exactly if it is on the first page of its directory. -/
theorem existing_refused_iff_seen (isUuid : List Char → Bool) {σ τ : Type} (tree : σ → τ) :
    (∀ (parseLine : List Char → Option Ftp.File)
        (answer : (asked : Ftp.Ask) → σ → asked.Answer × σ), Ftp.Serves answer tree →
        ∀ (temporary destination : Locations.Location) (token : Token) (s : σ),
      (Refuses answer tree (commitCopy isUuid parseLine temporary destination false token)
          destination s
        ↔ Ftp.Seen isUuid parseLine answer destination s)
      ∧ (Refuses answer tree (openWrite isUuid parseLine destination false token) destination s
        ↔ ∃ s₀, GoesOn (answer .isCancelled) s token s₀
          ∧ Ftp.Seen isUuid parseLine answer destination s₀))
    ∧ ∀ (libraries : WebDav.Libraries)
        (answer : (asked : WebDav.Ask) → σ → asked.Answer × σ), WebDav.Serves answer tree →
        ∀ (temporary destination : Locations.Location) (token : Token) (s : σ),
      (Refuses answer tree (WebDav.commitCopy isUuid libraries temporary destination false token)
          destination s
        ↔ WebDav.Seen isUuid libraries answer destination s)
      ∧ (Refuses answer tree (WebDav.openWrite isUuid libraries destination false token)
          destination s
        ↔ ∃ s₀, GoesOn (answer .isCancelled) s token s₀
          ∧ WebDav.Seen isUuid libraries answer destination s₀) := by
  constructor
  · intro parseLine answer hserves temporary destination token s
    exact ⟨commitCopy_refuses_iff hserves temporary token,
      openWrite_refuses_iff hserves token⟩
  · intro libraries answer hserves temporary destination token s
    exact ⟨WebDav.commitCopy_refuses_iff hserves temporary token,
      WebDav.openWrite_refuses_iff hserves token⟩

-- A server whose only directory is `docs`; its state is the files there.

namespace Ftp

/-- A file of `docs`, by its path. -/
def inDocs (name : List Char) : List Char := "/docs/".toList ++ name

/-- Files are lists of names with contents; a rename replaces. -/
def keeps (asked : Ask) (files : List (List Char × Nat)) : asked.Answer × List (List Char × Nat) :=
  match asked with
  | .isCancelled => (false, files)
  | .resolve _ => (.ok false, files)
  | .connect _ => (.ok (), files)
  | .command (.list _) => (.ok (files.map (emptyFile ++ ·.1)), files)
  | .command (.size _) => (.ok 0, files)
  | .command (.rename a b) =>
    (.ok (), files.filterMap fun file =>
      if inDocs file.1 = b then none
      else if inDocs file.1 = a then some ((b.drop 6), file.2) else some file)
  | .command (.mkdir _) | .command (.rm _) | .command (.rmdir _) => (.ok (), files)
  | .spawn _ => ((), files)

theorem keeps_serves : Serves keeps (id : List (List Char × Nat) → _) where
  quiet := by
    intro asked s hquiet
    cases asked with
    | command command =>
      cases command with
      | list path | size path => rfl
      | _ => exact absurd hquiet id
    | spawn task => exact absurd hquiet id
    | _ => rfl
  resolver := by
    intro id s e s' h
    cases h
  connection := by
    intro id s e s' h
    cases h
  command := by
    intro command s e s' h
    cases command with
    | _ => cases h

def inDocsAt (name : String) : Locations.Location where
  providerId := "ftp"
  uri := docsUri ++ '/' :: name.toList

/-- So many files, and the last of them. -/
def files (n : Nat) : List (List Char × Nat) :=
  (List.range n).map (fun i => (Nat.toDigits 10 i, 0))
    ++ [("last".toList, 1), ("temporary".toList, 2)]

/-- The commit of a temporary file onto the last one. -/
def commitLast : Op Locations.Location :=
  commitCopy isHyphenatedUuid nameLine (inDocsAt "temporary") (inDocsAt "last") false
    .caller

theorem seen_among_few :
    Seen isHyphenatedUuid nameLine keeps (inDocsAt "last") (files 2) := by
  refine inspect_ok_iff.1 ⟨?_, files 2, ?_⟩
  · exact { location := inDocsAt "last", name := "last".toList, kind := .file, size := some 0 }
  · decide +kernel

end Ftp

namespace WebDav

/-- The answer to a `PROPFIND` of a directory with one file. -/
def multistatus : Bytes :=
  Text.utf8 ("<d:multistatus xmlns:d=\"DAV:\"><d:response><d:href>/docs/</d:href></d:response>"
    ++ "<d:response><d:href>/docs/last</d:href></d:response></d:multistatus>").toList

def someLibraries : Libraries where
  percentDecodeStr := Text.utf8
  urlPath text := "http://h".toList.isPrefixOf? text
  urlFor base segments := some (base ++ (segments.map ('/' :: ·)).flatten)
  parseMultistatus body :=
    if body = multistatus then
      some [⟨"/docs/".toList, true, none⟩, ⟨"/docs/last".toList, false, some 1⟩]
    else none
  reason status := if status = 207 then "Multi-Status" else "No Content"

/-- A server with that directory, which counts what it stores and moves. -/
def holdsLast (asked : Ask) (moves : Nat) : asked.Answer × Nat :=
  match asked with
  | .isCancelled => (false, moves)
  | .resolve _ => (.ok { baseUrl := "http://h".toList, digest := false }, moves)
  | .probeRangeSupport _ => (true, moves)
  | .request .propfind _ => (.ok { status := 207, body := multistatus }, moves)
  | .request .head _ | .request .get _ => (.ok { status := 200, body := [] }, moves)
  | .request _ _ => (.ok { status := 204, body := [] }, moves + 1)
  | .spawn _ => ((), moves + 1)

theorem holdsLast_serves : Serves holdsLast (id : Nat → Nat) where
  quiet := by
    intro asked s hquiet
    cases asked with
    | request method url =>
      cases method with
      | propfind | head => rfl
      | _ => exact absurd hquiet id
    | spawn url => exact absurd hquiet id
    | _ => rfl
  resolver := by
    intro id s e s' h
    cases h
  transport := by
    intro method url s e s' h
    cases method with
    | _ => cases h
  replaces := by
    intro target url s response s' h
    cases h
    decide

def inDocsAt (name : String) : Locations.Location where
  providerId := "webdav"
  uri := "webdav://".toList ++ idText ++ "/docs/".toList ++ name.toList

/-- The directory of the file, and the file as the server has it. -/
def docs : Locations.Location where
  providerId := "webdav"
  uri := "webdav://".toList ++ idText ++ "/docs".toList

def lastEntry : DavEntry := ⟨"/docs/last".toList, false, some 1⟩

theorem parse_multistatus {body : Bytes} (h : body = multistatus) :
    someLibraries.parseMultistatus body = some [⟨"/docs/".toList, true, none⟩, lastEntry] :=
  if_pos h

theorem seen_last :
    Seen isHyphenatedUuid someLibraries holdsLast (inDocsAt "last") 0 := by
  have hchildren : childrenIn someLibraries (decodedPath someLibraries "http://h/docs".toList)
      [⟨"/docs/".toList, true, none⟩, lastEntry] = [("last".toList, lastEntry)] := by
    decide +kernel
  refine ⟨docs, "last".toList, ⟨idText, ["docs".toList], docs.uri⟩, _, 0,
    "http://h/docs".toList, { status := 207, body := multistatus }, 0,
    [⟨"/docs/".toList, true, none⟩, lastEntry], ?_, ?_, rfl, ?_, rfl, rfl, ?_, ?_, ?_⟩
  · decide +kernel
  · decide +kernel
  · decide +kernel
  · dsimp only
    exact parse_multistatus (Eq.refl multistatus)
  · rw [hchildren]
    intro child hchild
    obtain rfl := List.mem_singleton.mp hchild
    exact ⟨inDocsAt "last", by decide +kernel⟩
  · rw [hchildren]
    exact ⟨_, List.mem_singleton.mpr rfl, rfl⟩

end WebDav

theorem existing_last_refused :
    Refuses keeps id commitLast (inDocsAt "last") (files 2)
      ∧ Refuses WebDav.holdsLast id
        (WebDav.commitCopy Locations.isHyphenatedUuid WebDav.someLibraries
          (WebDav.inDocsAt "temporary") (WebDav.inDocsAt "last") false .caller)
        (WebDav.inDocsAt "last") 0 := by
  constructor
  · exact (((existing_refused_iff_seen Locations.isHyphenatedUuid id).1 nameLine keeps
      keeps_serves _ _ .caller _).1).2 seen_among_few
  · exact (((existing_refused_iff_seen Locations.isHyphenatedUuid id).2 WebDav.someLibraries
      WebDav.holdsLast WebDav.holdsLast_serves _ _ .caller _).1).2 WebDav.seen_last

theorem Ftp.not_seen_among_many :
    ¬ Ftp.Seen isHyphenatedUuid nameLine keeps (inDocsAt "last") (files 256) := by
  rintro ⟨parent, name, p, s₁, s₂, lines, s₃, hparent, -, hresolve, hconnect, hlines, -, file,
    hfile, hname⟩
  obtain rfl : files 256 = s₁ := congrArg Prod.snd hresolve
  obtain rfl : files 256 = s₂ := congrArg Prod.snd hconnect
  obtain rfl : (files 256).map (emptyFile ++ ·.1) = lines := Except.ok.inj (congrArg Prod.fst hlines)
  have hlast : (parentAndName isHyphenatedUuid (inDocsAt "last")).map Prod.snd
      = .ok "last".toList := by
    decide +kernel
  rw [hparent] at hlast
  obtain rfl := Except.ok.inj hlast
  have hnone : ∀ file ∈ firstPage nameLine ((files 256).map (emptyFile ++ ·.1)),
      file.name ≠ "last".toList := by
    decide +kernel
  exact hnone file hfile hname

/-- With 256 files before it, the last one is not seen and is replaced. -/
theorem last_of_many_replaced :
    ("last".toList, 1) ∈ files 256
      ∧ Attempt.run keeps commitLast (files 256)
        = (.ok (inDocsAt "last"), (files 256).take 256 ++ [("last".toList, 2)])
      ∧ ¬ Refuses keeps id commitLast (inDocsAt "last") (files 256) := by
  have hlook := keeps_serves.refuseExisting_of_not_seen not_seen_among_many
  have hrun : Attempt.run keeps commitLast (files 256)
      = (.ok (inDocsAt "last"), (files 256).take 256 ++ [("last".toList, 2)]) := by
    obtain ⟨s', hfree, hkept⟩ := hlook
    obtain rfl : s' = files 256 := hkept
    rw [commitLast, commitCopy, Attempt.run_bind_ok _ hfree]
    decide +kernel
  refine ⟨by decide +kernel, hrun, fun hrefused => ?_⟩
  rw [Refuses, hrun] at hrefused
  cases hrefused.1

end FileManager
