/-
What an overwriting commit leaves at the destination, of the four
providers.

SFTP removes the old file first and renames afterwards, each with its
attempts. Between the two the destination is gone, and the cleanup of a
failed copy discards what was staged. So the old file or the new one is
there exactly where a removal that takes effect is followed by a rename
that does (`Completes`).
-/
import FileManager.Remote.Proofs.Overwrites
import FileManager.Remote.Proofs.Attempts

namespace FileManager

open Dialogue (Attempt)
open Remote
open WebDav (Bytes)
open Dialogue.Attempt

-- ==== SFTP

namespace Sftp

variable {σ : Type} {server : Server σ} {scripts : Nat → Script} {fired : Bool} {w w' : World σ}
  {request : Request} {connectionId : List Char} {held staged : σ → Option Bytes}
  {temporary destination : Locations.Location} {tree : σ} {script : Script} {p a : Parsed}

/-- The server does what is requested. -/
def Takes (server : Server σ) (request : Request) (tree : σ) : Prop :=
  ∃ reply, (server.perform request tree).1 = .ok reply

/-- The server, as far as the two files are concerned. -/
structure Stores (server : Server σ) (held staged : σ → Option Bytes)
    (temporary destination : Locations.Location) : Prop where
  removed : ∀ b tree, Parsed.parse destination = .ok b →
    Takes server (.removeFile b.remotePath) tree →
    held (server.perform (.removeFile b.remotePath) tree).2 = none
      ∧ staged (server.perform (.removeFile b.remotePath) tree).2 = staged tree
  renamed : ∀ a b tree, Parsed.parse temporary = .ok a → Parsed.parse destination = .ok b →
    Takes server (.rename a.remotePath b.remotePath) tree →
    held (server.perform (.rename a.remotePath b.remotePath) tree).2 = staged tree
  discarded : ∀ a tree, Parsed.parse temporary = .ok a →
    held (server.perform (.removeFile a.remotePath) tree).2 = held tree

/-- The server after a call to `with_sftp`. -/
def after (server : Server σ) (script : Script) (request : Request) (tree : σ) : σ :=
  if script.received = .unsent then tree else (server.perform request tree).2

/-- The request reaches the server, which does it. -/
def Effective (server : Server σ) (script : Script) (request : Request) (tree : σ) : Prop :=
  Takes server request tree ∧ script.received ≠ .unsent

/-- Where the removal takes effect, so does the rename; and the reply to a
rename that takes effect is lost only where the two files are the same. -/
structure Completes (server : Server σ) (scripts : Nat → Script) (held staged : σ → Option Bytes)
    (a b : Parsed) (tree : σ) : Prop where
  both : Effective server (scripts 0) (.removeFile b.remotePath) tree →
    Effective server (scripts 1) (.rename a.remotePath b.remotePath)
      (after server (scripts 0) (.removeFile b.remotePath) tree)
  heard : Takes server (.rename a.remotePath b.remotePath)
      (after server (scripts 0) (.removeFile b.remotePath) tree) →
    (scripts 1).received = .unheard → staged tree = held tree

theorem after_of_refused (h : ¬ Takes server request tree) :
    after server script request tree = tree := by
  unfold after
  split
  case isTrue => rfl
  case isFalse =>
    cases hresult : (server.perform request tree).1 with
    | error status => exact server.refuses request tree status hresult
    | ok reply => exact absurd ⟨reply, hresult⟩ h

theorem after_of_effective (h : Effective server script request tree) :
    after server script request tree = (server.perform request tree).2 := if_neg h.2

theorem after_of_not_effective (h : ¬ Effective server script request tree) :
    after server script request tree = tree := by
  by_cases htakes : Takes server request tree
  · exact if_pos (not_not.1 fun hsent => h ⟨htakes, hsent⟩)
  · exact after_of_refused htakes

theorem run_withSftp_exclusive (hexclusive : request.exclusive = true) :
    ∃ result w', run (answer server scripts fired) (withSftp connectionId request) w = (result, w')
      ∧ w'.tree = after server (scripts w.calls) request w.tree ∧ w'.calls = w.calls + 1
      ∧ ((∃ reply, result = .ok reply)
        ↔ Takes server request w.tree ∧ (scripts w.calls).received = .heard) := by
  cases hresult : (server.perform request w.tree).1 with
  | error status =>
    have hnot : ¬ Takes server request w.tree := by
      rintro ⟨reply, h⟩
      simp [hresult] at h
    obtain ⟨failure, w', hrun, hsame⟩ := run_withSftp_refused hresult
    refine ⟨_, w', hrun, hsame.tree.trans (after_of_refused hnot).symm, hsame.calls, ?_⟩
    refine iff_of_false ?_ fun h => hnot h.1
    rintro ⟨reply, h⟩
    cases h
  | ok value =>
    have htakes : Takes server request w.tree := ⟨value, hresult⟩
    obtain ⟨result, w', hrun, houtcome⟩ := run_withSftp_taken hexclusive hresult
    refine ⟨result, w', hrun, ?_⟩
    cases houtcome with
    | done hsame _ hheard =>
      have hsent : (scripts w.calls).received ≠ .unsent := by simp [hheard]
      exact ⟨hsame.tree.trans (after_of_effective ⟨htakes, hsent⟩).symm, hsame.calls,
        iff_of_true ⟨value, rfl⟩ ⟨htakes, hheard⟩⟩
    | untouched hsame _ hunsent =>
      refine ⟨hsame.tree.trans (if_pos hunsent).symm, hsame.calls, iff_of_false ?_ ?_⟩
      · rintro ⟨reply, h⟩
        cases h
      · rintro ⟨-, h⟩
        simp [hunsent] at h
    | behind hsame _ hunheard =>
      have hsent : (scripts w.calls).received ≠ .unsent := by simp [hunheard]
      refine ⟨hsame.tree.trans (after_of_effective ⟨htakes, hsent⟩).symm, hsame.calls,
        iff_of_false ?_ ?_⟩
      · rintro ⟨reply, h⟩
        cases h
      · rintro ⟨-, h⟩
        simp [hunheard] at h

theorem run_makeRoom :
    ∃ w', run (answer server scripts fired) (makeRoom destination p true) w = (.ok (), w')
      ∧ w'.tree = after server (scripts w.calls) (.removeFile p.remotePath) w.tree
      ∧ w'.calls = w.calls + 1 := by
  obtain ⟨result, w', hrun, htree, hcalls, -⟩ := @run_withSftp_exclusive σ server scripts fired w
    (.removeFile p.remotePath) p.connectionId rfl
  have hcaught := run_caught (answer server scripts fired)
    (withSftp p.connectionId (.removeFile p.remotePath)) w
  rw [hrun] at hcaught
  exact ⟨w', run_bind_ok _ hcaught, htree, hcalls⟩

theorem held_discardCopy (hstores : Stores server held staged temporary destination) (w : World σ) :
    held (run (answer server scripts fired) (discardCopy temporary) w).2.tree = held w.tree := by
  refine @run_bind_keeps _ _ _ _ _ _ (answer server scripts fired) _
    (fun w => held w.tree) _ _ w rfl fun p w₁ hp => ?_
  have hparse : Parsed.parse temporary = .ok p := by
    cases hparse : Parsed.parse temporary with
    | error error =>
      rw [parsed, hparse] at hp
      cases hp
    | ok found =>
      rw [parsed, hparse] at hp
      cases hp
      rfl
  refine @run_bind_keeps _ _ _ _ _ _ (answer server scripts fired) _
    (fun w => held w.tree) _ _ w₁ ?_ fun removed w₂ _ => ?_
  · rw [run_caught]
    obtain ⟨result, w', hrun, htree, -, -⟩ := @run_withSftp_exclusive σ server scripts fired w₁
      (.removeFile p.remotePath) p.connectionId rfl
    rw [hrun]
    show held w'.tree = held w₁.tree
    rw [htree]
    unfold after
    split
    case isTrue => rfl
    case isFalse => exact hstores.discarded p w₁.tree hparse
  · cases removed with
    | ok value => rfl
    | error failure =>
      simp only
      split <;> rfl

theorem run_parsed {location : Locations.Location} (h : Parsed.parse location = .ok p) :
    run (answer server scripts fired) (parsed location) w = (.ok p, w) := by
  rw [parsed, h]
  rfl

/-- The commit comes to both of its requests. -/
structure Reaches (temporary destination : Locations.Location) (fired : Bool) (a b : Parsed) :
    Prop where
  goes : fired = false
  temporary : Parsed.parse temporary = .ok a
  destination : Parsed.parse destination = .ok b
  connection : a.connectionId = b.connectionId

theorem run_commitCopy {b : Parsed} (h : Reaches temporary destination fired a b) (tree : σ) :
    ∃ result w', run (answer server scripts fired)
        (commitCopy temporary destination true) (World.initial tree) = (result, w')
      ∧ w'.tree = after server (scripts 1) (.rename a.remotePath b.remotePath)
        (after server (scripts 0) (.removeFile b.remotePath) tree)
      ∧ ((∃ committed, result = .ok committed) ↔ Takes server (.rename a.remotePath b.remotePath)
            (after server (scripts 0) (.removeFile b.remotePath) tree)
          ∧ (scripts 1).received = .heard) := by
  obtain ⟨rfl, ha, hb, hsame⟩ := h
  obtain ⟨w₁, hroom, htree₁, hcalls₁⟩ := @run_makeRoom σ server scripts false
    (World.initial tree) destination b
  obtain ⟨result, w₂, hrename, htree₂, -, hok⟩ := @run_withSftp_exclusive σ server scripts false w₁
    (.rename a.remotePath b.remotePath) b.connectionId rfl
  have hone : w₁.calls = 1 := hcalls₁
  have htree : w₁.tree = after server (scripts 0) (.removeFile b.remotePath) tree := htree₁
  rw [hone, htree] at htree₂ hok
  have hcheck : run (answer server scripts false) checkCancelled (World.initial tree)
      = (.ok (), World.initial tree) := rfl
  have hcommit : run (answer server scripts false) (commitCopy temporary destination true)
      (World.initial tree)
      = run (answer server scripts false)
        (withSftp b.connectionId (.rename a.remotePath b.remotePath) >>= fun _ =>
          pure destination) w₁ := by
    refine (run_bind_ok _ hcheck).trans ?_
    refine (run_bind_ok _ (run_parsed ha)).trans ?_
    refine (run_bind_ok _ (run_parsed hb)).trans ?_
    simp only [hsame, ne_eq, not_true_eq_false, if_false]
    exact run_bind_ok _ hroom
  cases result with
  | error failure =>
    refine ⟨.error failure, w₂, hcommit.trans (run_bind_error _ hrename), htree₂, ?_⟩
    rw [← hok]
    refine iff_of_false ?_ ?_
    · rintro ⟨committed, h⟩
      cases h
    · rintro ⟨reply, h⟩
      cases h
  | ok value =>
    refine ⟨.ok destination, w₂, hcommit.trans (run_bind_ok _ hrename), htree₂, ?_⟩
    rw [← hok]
    exact iff_of_true ⟨destination, rfl⟩ ⟨value, rfl⟩

theorem run_commitCopy_ends (h : ∀ a b, ¬ Reaches temporary destination fired a b) (tree : σ) :
    ∃ failure, run (answer server scripts fired) (commitCopy temporary destination true)
      (World.initial tree) = (.error failure, World.initial tree) := by
  cases fired with
  | true => exact ⟨.vfs .cancelled, rfl⟩
  | false =>
    have hcheck : run (answer server scripts false) checkCancelled (World.initial tree)
        = (.ok (), World.initial tree) := rfl
    cases ha : Parsed.parse temporary with
    | error error =>
      refine ⟨.vfs error, (run_bind_ok _ hcheck).trans (run_bind_error _ ?_)⟩
      rw [parsed, ha]
      rfl
    | ok a =>
      cases hb : Parsed.parse destination with
      | error error =>
        refine ⟨.vfs error, (run_bind_ok _ hcheck).trans
          ((run_bind_ok _ (run_parsed ha)).trans (run_bind_error _ ?_))⟩
        rw [parsed, hb]
        rfl
      | ok b =>
        have hother : a.connectionId ≠ b.connectionId := fun hsame => h a b ⟨rfl, ha, hb, hsame⟩
        refine ⟨.vfs (invalid destination.uri), (run_bind_ok _ hcheck).trans
          ((run_bind_ok _ (run_parsed ha)).trans ((run_bind_ok _ (run_parsed hb)).trans ?_))⟩
        simp only [hother, ne_eq, not_false_eq_true, if_true]
        rfl

theorem after_removal (hstores : Stores server held staged temporary destination) {b : Parsed}
    (hb : Parsed.parse destination = .ok b) (script : Script) (tree : σ) :
    staged (after server script (.removeFile b.remotePath) tree) = staged tree
      ∧ (Effective server script (.removeFile b.remotePath) tree →
        held (after server script (.removeFile b.remotePath) tree) = none) := by
  by_cases heffective : Effective server script (.removeFile b.remotePath) tree
  · obtain ⟨hheld, hstaged⟩ := hstores.removed b tree hb heffective.1
    rw [after_of_effective heffective]
    exact ⟨hstaged, fun _ => hheld⟩
  · rw [after_of_not_effective heffective]
    exact ⟨rfl, fun h => absurd h heffective⟩

theorem Reception.eq_unheard {reception : Reception} (hsent : reception ≠ .unsent)
    (hheard : reception ≠ .heard) : reception = .unheard := by
  cases reception with
  | unsent => exact absurd rfl hsent
  | unheard => rfl
  | heard => exact absurd rfl hheard

/-- What a commit that is reported as failed left is the old file, if it
completes. -/
theorem held_iff_completes (hstores : Stores server held staged temporary destination)
    {b : Parsed} (ha : Parsed.parse temporary = .ok a) (hb : Parsed.parse destination = .ok b)
    (hold : held tree ≠ none) (hfailed : ¬ (Takes server (.rename a.remotePath b.remotePath)
        (after server (scripts 0) (.removeFile b.remotePath) tree)
      ∧ (scripts 1).received = .heard)) :
    held (after server (scripts 1) (.rename a.remotePath b.remotePath)
        (after server (scripts 0) (.removeFile b.remotePath) tree)) = held tree
      ↔ Completes server scripts held staged a b tree := by
  obtain ⟨hstaged, hnone⟩ := after_removal hstores hb (scripts 0) tree
  by_cases heffective : Effective server (scripts 1) (.rename a.remotePath b.remotePath)
      (after server (scripts 0) (.removeFile b.remotePath) tree)
  · obtain ⟨htakes, hsent⟩ := heffective
    have hunheard : (scripts 1).received = .unheard :=
      Reception.eq_unheard hsent fun h => hfailed ⟨htakes, h⟩
    rw [after_of_effective ⟨htakes, hsent⟩, hstores.renamed a b _ ha hb htakes, hstaged]
    exact ⟨fun h => ⟨fun _ => ⟨htakes, hsent⟩, fun _ _ => h⟩, fun h => h.heard htakes hunheard⟩
  · rw [after_of_not_effective heffective]
    constructor
    · intro hheld
      refine ⟨fun hremoved => absurd (hheld.symm.trans (hnone hremoved)) hold,
        fun htakes hunheard => absurd ⟨htakes, ?_⟩ heffective⟩
      simp [hunheard]
    · intro hcompletes
      rw [after_of_not_effective fun hremoved => heffective (hcompletes.both hremoved)]

theorem overwrites_commitCopy (hstores : Stores server held staged temporary destination)
    (hold : held tree ≠ none) :
    Overwrites (answer server scripts fired) (fun w => held w.tree) (fun w => staged w.tree)
        (commitCopy temporary destination true) (discardCopy temporary) (World.initial tree)
      ↔ ∀ a b, Reaches temporary destination fired a b →
        Completes server scripts held staged a b tree := by
  refine (Remote.overwrites_iff (held_discardCopy hstores)).trans ?_
  by_cases hreaches : ∃ a b, Reaches temporary destination fired a b
  · obtain ⟨a, b, hreaches⟩ := hreaches
    have honly : (∀ a' b', Reaches temporary destination fired a' b' →
        Completes server scripts held staged a' b' tree)
        ↔ Completes server scripts held staged a b tree := by
      refine ⟨fun h => h a b hreaches, fun h a' b' hreaches' => ?_⟩
      obtain rfl := Except.ok.inj (hreaches.temporary.symm.trans hreaches'.temporary)
      obtain rfl := Except.ok.inj (hreaches.destination.symm.trans hreaches'.destination)
      exact h
    rw [honly]
    obtain ⟨result, w', hrun, htree, hok⟩ :=
      @run_commitCopy σ server scripts fired temporary destination a b hreaches tree
    have hb := hreaches.destination
    rw [hrun]
    cases result with
    | error failure =>
      have hfailed : ¬ (Takes server (.rename a.remotePath b.remotePath)
            (after server (scripts 0) (.removeFile b.remotePath) tree)
          ∧ (scripts 1).received = .heard) := by
        intro h
        obtain ⟨committed, heq⟩ := hok.2 h
        cases heq
      rw [← held_iff_completes hstores hreaches.temporary hb hold hfailed, ← htree]
      refine ⟨fun h => h.1 failure w' rfl, fun h => ⟨fun error s' heq => ?_, ?_⟩⟩
      · cases heq
        exact h
      · intro committed s' heq
        cases heq
    | ok committed =>
      obtain ⟨htakes, hheard⟩ := hok.1 ⟨committed, rfl⟩
      have hsent : (scripts 1).received ≠ .unsent := by simp [hheard]
      have heffective := And.intro htakes hsent
      rw [after_of_effective heffective] at htree
      refine iff_of_true ⟨fun error s' heq => ?_, fun other s' heq => ?_⟩
        ⟨fun _ => heffective, fun _ hunheard => ?_⟩
      · cases heq
      · cases heq
        show held w'.tree = staged tree
        rw [htree, hstores.renamed a b _ hreaches.temporary hb htakes]
        exact (after_removal hstores hb (scripts 0) tree).1
      · simp [hheard] at hunheard
  · have hnone : ∀ a b, ¬ Reaches temporary destination fired a b := fun a b h => hreaches ⟨a, b, h⟩
    obtain ⟨failure, hrun⟩ :=
      @run_commitCopy_ends σ server scripts fired temporary destination hnone tree
    refine iff_of_true ⟨fun error s' h => ?_, fun committed s' h => ?_⟩ fun a b h =>
      absurd h (hnone a b)
    · rw [hrun] at h
      cases h
      rfl
    · simp [hrun] at h

end Sftp

-- ==== the calls

/-- An overwriting commit leaves the old or the new file: where one call
replaces, unless a call fails once the destination has changed; over
SFTP, where the two requests complete. -/
theorem overwriting_commits_iff {σ : Type} (held staged : σ → Option Bytes)
    (temporary destination : Locations.Location) :
    (∀ answer, Local.Stores answer held staged temporary destination →
      ∀ (source : Locations.Location) (preserveMetadata : Bool) (s : σ),
        Overwrites answer held staged
            (Local.commitCopy source temporary destination ⟨true, preserveMetadata⟩)
            (Local.discardCopy temporary) s
          ↔ ¬ Attempt.Visits answer (Late answer Local.Ask.Fails held (held s))
            (Local.commitCopy source temporary destination ⟨true, preserveMetadata⟩) s)
    ∧ (∀ server, Sftp.Stores server held staged temporary destination →
      ∀ (scripts : Nat → Sftp.Script) (fired : Bool) (tree : σ), held tree ≠ none →
        (Overwrites (Sftp.answer server scripts fired) (fun w => held w.tree)
            (fun w => staged w.tree) (Sftp.commitCopy temporary destination true)
            (Sftp.discardCopy temporary) (Sftp.World.initial tree)
          ↔ ∀ a b, Sftp.Reaches temporary destination fired a b →
            Sftp.Completes server scripts held staged a b tree))
    ∧ (∀ isUuid parseLine answer, Ftp.Stores isUuid answer held staged temporary destination →
      ∀ (token : Token) (s : σ), Overwrites answer held staged
            (Ftp.commitCopy isUuid parseLine temporary destination true token)
            (Ftp.discardCopy isUuid temporary .new) s
          ↔ ¬ Attempt.Visits answer (Late answer Ftp.Ask.Fails held (held s))
            (Ftp.commitCopy isUuid parseLine temporary destination true token) s)
    ∧ ∀ isUuid libraries answer,
      WebDav.Stores isUuid libraries answer held staged temporary destination →
      ∀ (token : Token) (s : σ), Overwrites answer held staged
            (WebDav.commitCopy isUuid libraries temporary destination true token)
            (WebDav.discardCopy isUuid libraries temporary .new) s
          ↔ ¬ Attempt.Visits answer (Late answer WebDav.Ask.Fails held (held s))
            (WebDav.commitCopy isUuid libraries temporary destination true token) s := by
  refine ⟨?_, ?_, ?_, ?_⟩
  · exact fun answer hstores source preserveMetadata s =>
      Local.overwrites_commitCopy hstores source preserveMetadata s
  · exact fun server hstores scripts fired tree hold => Sftp.overwrites_commitCopy hstores hold
  · exact fun isUuid parseLine answer hstores token s => Ftp.overwrites_commitCopy hstores token s
  · exact fun isUuid libraries answer hstores token s =>
      WebDav.overwrites_commitCopy hstores token s

-- A destination with its temporary beside it.

/-- What the two hold. -/
structure Versions where
  held : Option Bytes
  staged : Option Bytes
deriving DecidableEq

namespace Versions

def replaced (versions : Versions) : Versions := ⟨versions.staged, none⟩

def discarded (versions : Versions) : Versions := ⟨versions.held, none⟩

/-- The old file and the new one. -/
def both : Versions := ⟨some [1], some [2]⟩

/-- A local file system; whether the destination can be looked at is
given. -/
def disk (seen : Bool) : (asked : Local.Ask) → Versions → asked.Answer × Versions
  | .isCancelled, versions => (false, versions)
  | .call (.rename _ _), versions =>
    if versions.staged = none then (.error .notFound, versions) else (.ok (), versions.replaced)
  | .call (.removeFile _), versions => (.ok (), versions.discarded)
  | .call (.symlinkMetadata _), versions =>
    (if seen then .ok () else .error (.other "stale file handle"), versions)
  | .call _, versions => (.ok (), versions)

def ftp : (asked : Ftp.Ask) → Versions → asked.Answer × Versions
  | .isCancelled, versions => (false, versions)
  | .resolve _, versions => (.ok false, versions)
  | .connect _, versions => (.ok (), versions)
  | .command (.list _), versions => (.ok [], versions)
  | .command (.size _), versions => (.ok 0, versions)
  | .command (.rename _ _), versions =>
    if versions.staged = none then (.error (Ftp.mapFtp "550".toList), versions)
    else (.ok (), versions.replaced)
  | .command (.rm _), versions => (.ok (), versions.discarded)
  | .command _, versions => (.error (Ftp.mapFtp "550".toList), versions)
  | .spawn _, versions => ((), versions)

def webDav : (asked : WebDav.Ask) → Versions → asked.Answer × Versions
  | .isCancelled, versions => (false, versions)
  | .resolve _, versions => (.ok { baseUrl := ['h'], digest := false }, versions)
  | .probeRangeSupport _, versions => (true, versions)
  | .request (.move _) _, versions =>
    if versions.staged = none then (.ok { status := 404, body := [] }, versions)
    else (.ok { status := 204, body := [] }, versions.replaced)
  | .request .delete _, versions => (.ok { status := 204, body := [] }, versions.discarded)
  | .request _ _, versions => (.ok { status := 200, body := [] }, versions)
  | .spawn _, versions => ((), versions)

def libraries : WebDav.Libraries where
  percentDecodeStr := Text.utf8
  urlPath text := some text
  urlFor base segments := some (base ++ (segments.map ('/' :: ·)).flatten)
  parseMultistatus _ := none
  reason status := if status = 201 then "Created" else "No Content"

/-- An SFTP server with the temporary at `/a` and the destination at
`/b`, where a rename does not replace. -/
def perform (request : Sftp.Request) (versions : Versions) :
    Except Sftp.Status request.Reply × Versions :=
  match request with
  | .removeFile path =>
    if path = ['/', 'b'] ∧ versions.held ≠ none then
      (.ok (), { versions with held := none })
    else if path = ['/', 'a'] ∧ versions.staged ≠ none then (.ok (), versions.discarded)
    else (.error ⟨.noSuchFile, "no such file"⟩, versions)
  | .rename oldPath newPath =>
    if oldPath = ['/', 'a'] ∧ newPath = ['/', 'b'] ∧ versions.staged ≠ none
        ∧ versions.held = none then
      (.ok (), versions.replaced)
    else (.error ⟨.other, "failure"⟩, versions)
  | _ => (.error ⟨.other, "failure"⟩, versions)

theorem disk_stores (temporary destination : Locations.Location) :
    Local.Stores (disk true) held staged temporary destination where
  quiet asked versions hquiet := by
    cases asked with
    | isCancelled => exact ⟨rfl, rfl⟩
    | call call =>
      cases call with
      | preserveCopyMetadata source temporary | symlinkMetadata path => exact ⟨rfl, rfl⟩
      | _ => exact absurd hquiet id
  renamed a b versions versions' _ _ h := by
    simp only [disk] at h
    obtain ⟨-, h⟩ := Fallible.passed h nofun
    cases h
    rfl
  discarded a versions _ := rfl

theorem ftp_stores (isUuid : List Char → Bool) (temporary destination : Locations.Location) :
    Ftp.Stores isUuid ftp held staged temporary destination where
  quiet asked versions hquiet := by
    cases asked with
    | command sent =>
      cases sent with
      | list path | size path => exact ⟨rfl, rfl⟩
      | _ => exact absurd hquiet id
    | spawn task => exact absurd hquiet id
    | _ => exact ⟨rfl, rfl⟩
  renamed a b versions versions' _ _ h := by
    simp only [ftp] at h
    obtain ⟨-, h⟩ := Fallible.passed h nofun
    cases h
    rfl
  discarded a versions _ := ⟨rfl, rfl⟩

theorem webDav_stores (isUuid : List Char → Bool) (temporary destination : Locations.Location) :
    WebDav.Stores isUuid libraries webDav held staged temporary destination where
  quiet asked versions hquiet := by
    cases asked with
    | request method url =>
      cases method with
      | propfind | head => exact ⟨rfl, rfl⟩
      | _ => exact absurd hquiet id
    | spawn url => exact absurd hquiet id
    | _ => exact ⟨rfl, rfl⟩
  moved a b versions response versions' _ _ h hsuccess := by
    simp only [webDav] at h
    split at h
    case isTrue =>
      cases h
      cases hsuccess
    case isFalse =>
      cases h
      rfl
  discarded a versions _ := rfl

def server : Sftp.Server Versions where
  perform := perform
  looks request versions h := by
    cases request with
    | removeFile path => cases h
    | rename oldPath newPath => cases h
    | _ => rfl
  refuses request versions status h := by
    cases request with
    | removeFile path =>
      simp only [perform] at h ⊢
      split at h
      case isTrue => cases h
      case isFalse hb =>
        split at h
        case isTrue => cases h
        case isFalse ha => rw [if_neg hb, if_neg ha]
    | rename oldPath newPath =>
      simp only [perform] at h ⊢
      split at h
      case isTrue => cases h
      case isFalse hnot => rw [if_neg hnot]
    | _ => rfl
  again request versions reply hexclusive h := by
    cases request with
    | removeFile path =>
      refine ⟨⟨.noSuchFile, "no such file"⟩, ?_⟩
      simp only [perform] at h ⊢
      split at h
      case isTrue hb => simp [hb]
      case isFalse hb =>
        split at h
        case isTrue ha => simp [ha, discarded]
        case isFalse => cases h
    | rename oldPath newPath =>
      refine ⟨⟨.other, "failure"⟩, ?_⟩
      simp only [perform] at h ⊢
      split at h
      case isTrue hboth => simp [hboth, replaced]
      case isFalse => cases h
    | _ => cases h

/-- A file of a provider, in the root of what the scheme leads to. -/
def inRoot (provider : String) (scheme name : List Char) : Locations.Location where
  providerId := provider
  uri := scheme ++ '/' :: name

def temporaryOf (provider : String) (scheme : List Char) : Locations.Location :=
  inRoot provider scheme ['a']

def destinationOf (provider : String) (scheme : List Char) : Locations.Location :=
  inRoot provider scheme ['b']

def connection : List Char := "6a1c1d2e-0000-4000-8000-000000000000".toList

def sftpScheme : List Char := "sftp://".toList ++ connection

def ftpScheme : List Char := "ftp://".toList ++ connection

def webDavScheme : List Char := "webdav://".toList ++ connection

def localScheme : List Char := "file://".toList

theorem parse_sftpTemporary : Sftp.Parsed.parse (temporaryOf "sftp" sftpScheme)
    = .ok ⟨connection, ['/', 'a']⟩ := by decide +kernel

theorem parse_sftpDestination : Sftp.Parsed.parse (destinationOf "sftp" sftpScheme)
    = .ok ⟨connection, ['/', 'b']⟩ := by decide +kernel

theorem server_stores :
    Sftp.Stores server held staged (temporaryOf "sftp" sftpScheme)
      (destinationOf "sftp" sftpScheme) where
  removed b versions hb htakes := by
    obtain rfl := Except.ok.inj (parse_sftpDestination.symm.trans hb)
    obtain ⟨reply, hreply⟩ := htakes
    by_cases hheld : versions.held = none
    · simp [server, perform, hheld] at hreply
    · simp [server, perform, hheld]
  renamed a b versions ha hb htakes := by
    obtain rfl := Except.ok.inj (parse_sftpTemporary.symm.trans ha)
    obtain rfl := Except.ok.inj (parse_sftpDestination.symm.trans hb)
    obtain ⟨reply, hreply⟩ := htakes
    simp only [server, perform] at hreply ⊢
    split at hreply
    case isTrue hboth =>
      rw [if_pos hboth]
      rfl
    case isFalse => cases hreply
  discarded a versions ha := by
    obtain rfl := Except.ok.inj (parse_sftpTemporary.symm.trans ha)
    by_cases hstaged : versions.staged = none
    · simp [server, perform, hstaged]
    · simp [server, perform, hstaged, discarded]

end Versions

open Versions Locations

theorem overwriting_commit_replaces :
    Overwrites (disk true) held staged
        (Local.commitCopy (temporaryOf "local" localScheme) (temporaryOf "local" localScheme)
          (destinationOf "local" localScheme) ⟨true, false⟩)
        (Local.discardCopy (temporaryOf "local" localScheme)) both
    ∧ Overwrites (Sftp.answer server (fun _ => .plain) false) (fun w => held w.tree)
        (fun w => staged w.tree)
        (Sftp.commitCopy (temporaryOf "sftp" sftpScheme) (destinationOf "sftp" sftpScheme) true)
        (Sftp.discardCopy (temporaryOf "sftp" sftpScheme)) (Sftp.World.initial both)
    ∧ Overwrites ftp held staged
        (Ftp.commitCopy isHyphenatedUuid (fun _ => none) (temporaryOf "ftp" ftpScheme)
          (destinationOf "ftp" ftpScheme) true .caller)
        (Ftp.discardCopy isHyphenatedUuid (temporaryOf "ftp" ftpScheme) .new) both
    ∧ Overwrites webDav held staged
        (WebDav.commitCopy isHyphenatedUuid libraries (temporaryOf "webdav" webDavScheme)
          (destinationOf "webdav" webDavScheme) true .caller)
        (WebDav.discardCopy isHyphenatedUuid libraries (temporaryOf "webdav" webDavScheme) .new)
        both := by
  refine ⟨?_, ?_, ?_, ?_⟩
  · refine ((overwriting_commits_iff held staged _ _).1 (disk true) (disk_stores _ _) _ _ _).2 ?_
    decide +kernel
  · refine ((overwriting_commits_iff held staged _ _).2.1 server server_stores _ _ _ ?_).2 ?_
    · decide
    intro a b hreaches
    obtain rfl := Except.ok.inj (parse_sftpTemporary.symm.trans hreaches.temporary)
    obtain rfl := Except.ok.inj (parse_sftpDestination.symm.trans hreaches.destination)
    refine ⟨fun _ => ⟨⟨(), ?_⟩, ?_⟩, fun _ hunheard => ?_⟩
    · decide +kernel
    · decide +kernel
    · exact absurd hunheard (by decide)
  · refine ((overwriting_commits_iff held staged _ _).2.2.1 isHyphenatedUuid (fun _ => none) ftp
      (ftp_stores _ _ _) _ _).2 ?_
    decide +kernel
  · refine ((overwriting_commits_iff held staged _ _).2.2.2 isHyphenatedUuid libraries webDav
      (webDav_stores _ _ _) _ _).2 ?_
    decide +kernel

/-- The connection is gone from the rename on, and back for the
cleanup. -/
def goneForRename : Nat → Sftp.Script
  | 1 =>
    { resolver := .ok ()
      first := ⟨.ok (), .unperformed .timeout⟩
      second := ⟨.ok (), .unperformed .timeout⟩
      third := ⟨.ok (), .unperformed .timeout⟩ }
  | _ => .plain

/-- Over SFTP neither version is left. A local commit is reported as
failed with the new file in place. -/
theorem neither_version_left_and_new_reported_failed :
    ((run (Sftp.answer server goneForRename false) (finish
            (Sftp.commitCopy (temporaryOf "sftp" sftpScheme) (destinationOf "sftp" sftpScheme) true)
            (Sftp.discardCopy (temporaryOf "sftp" sftpScheme)))
          (Sftp.World.initial both)).1 = .error (.sftp (.transport .timeout) connection)
      ∧ (run (Sftp.answer server goneForRename false) (finish
            (Sftp.commitCopy (temporaryOf "sftp" sftpScheme) (destinationOf "sftp" sftpScheme) true)
            (Sftp.discardCopy (temporaryOf "sftp" sftpScheme)))
          (Sftp.World.initial both)).2.tree = ⟨none, none⟩
      ∧ ¬ Overwrites (Sftp.answer server goneForRename false) (fun w => held w.tree)
        (fun w => staged w.tree)
        (Sftp.commitCopy (temporaryOf "sftp" sftpScheme) (destinationOf "sftp" sftpScheme) true)
        (Sftp.discardCopy (temporaryOf "sftp" sftpScheme)) (Sftp.World.initial both))
    ∧ ((run (disk false)
          (Local.commitCopy (temporaryOf "local" localScheme) (temporaryOf "local" localScheme)
            (destinationOf "local" localScheme) ⟨true, false⟩) both)
          = (.error (.io "stale file handle"), ⟨some [2], none⟩)
      ∧ ¬ Overwrites (disk false) held staged
        (Local.commitCopy (temporaryOf "local" localScheme) (temporaryOf "local" localScheme)
          (destinationOf "local" localScheme) ⟨true, false⟩)
        (Local.discardCopy (temporaryOf "local" localScheme)) both) := by
  have hsftp : (run (Sftp.answer server goneForRename false) (finish
        (Sftp.commitCopy (temporaryOf "sftp" sftpScheme) (destinationOf "sftp" sftpScheme) true)
        (Sftp.discardCopy (temporaryOf "sftp" sftpScheme)))
      (Sftp.World.initial both)).2.tree = ⟨none, none⟩ := by decide +kernel
  have hlocal : run (disk false)
      (Local.commitCopy (temporaryOf "local" localScheme) (temporaryOf "local" localScheme)
        (destinationOf "local" localScheme) ⟨true, false⟩) both
      = (.error (.io "stale file handle"), ⟨some [2], none⟩) := by decide +kernel
  refine ⟨⟨?_, hsftp, fun h => ?_⟩, hlocal, fun h => ?_⟩
  · decide +kernel
  · have hleft := h.left (by decide) (by decide)
    rw [hsftp] at hleft
    exact hleft rfl
  · have hkept := h.kept _ _ hlocal
    exact absurd hkept (by decide)

end FileManager
