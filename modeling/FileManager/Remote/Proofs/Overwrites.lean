/-
What an overwriting commit leaves at the destination, where the provider
replaces in one call: FTP, WebDAV and the local file system. Only a
failure that comes with the change, or after it, is reported with the new
file in place (`Late`).

Over the commit stands the end of `copy_file`, which reports it as failed
and has its temporary discarded (`finish`).
-/
import FileManager.Local.Commit
import FileManager.Remote.Proofs.Existing

namespace FileManager

open Dialogue (Attempt)
open Dialogue.Attempt

open Remote
open WebDav (Bytes)

-- ==== the property

namespace Remote

variable {Q : Type} {A : Q → Type} {σ ε α β : Type} {answer : (asked : Q) → σ → A asked × σ}
  {held staged : σ → Option Bytes} {fails : (asked : Q) → A asked → Prop}
  {discard : Attempt Q A ε Unit} {commit : Attempt Q A ε α} {before after : Option Bytes} {s s' : σ}
  {rest : α → Attempt Q A ε β} {e : ε}

/-- The end of `copy_file`; a failure is followed by `cleanup_partial`. -/
def finish (commit : Attempt Q A ε α) (discard : Attempt Q A ε Unit) : Attempt Q A ε α := do
  match ← caught commit with
  | .ok committed => return committed
  | .error error =>
    let _ ← caught discard
    throw error

/-- The old file or the new one, of what the destination holds and what
is staged. -/
structure Overwrites (answer : (asked : Q) → σ → A asked × σ) (held staged : σ → Option Bytes)
    (commit : Attempt Q A ε α) (discard : Attempt Q A ε Unit) (s : σ) : Prop where
  kept : ∀ error s', run answer commit s = (.error error, s') → held s' = held s
  replaced : ∀ committed s', run answer commit s = (.ok committed, s') →
    held s' = staged s
  /-- The copy is reported as failed, and the temporary discarded. -/
  reported : ∀ error s', run answer (finish commit discard) s = (.error error, s') →
    held s' = held s
  /-- There is a version of the file. -/
  left : held s ≠ none → staged s ≠ none →
    held (run answer (finish commit discard) s).2 ≠ none

/-- A call fails, and the destination is not what it was before. -/
def Late (answer : (asked : Q) → σ → A asked × σ) (fails : (asked : Q) → A asked → Prop)
    (held : σ → Option Bytes) (before : Option Bytes) (asked : Q) (s : σ) : Prop :=
  fails asked (answer asked s).1 ∧ held (answer asked s).2 ≠ before

instance [∀ asked result, Decidable (fails asked result)] (before : Option Bytes) (asked : Q)
    (s : σ) : Decidable (Late answer fails held before asked s) :=
  inferInstanceAs (Decidable (_ ∧ _))

theorem run_finish_ok {a : α} (h : run answer commit s = (.ok a, s')) :
    run answer (finish commit discard) s = (.ok a, s') := by
  have hcaught : run answer (caught commit) s = (.ok (.ok a), s') := by
    rw [run_caught, h]
  exact run_bind_ok answer hcaught

theorem run_finish_error (h : run answer commit s = (.error e, s')) :
    run answer (finish commit discard) s = (.error e, (run answer discard s').2) := by
  have hcaught : run answer (caught commit) s = (.ok (.error e), s') := by
    rw [run_caught, h]
  refine (run_bind_ok answer hcaught).trans ?_
  exact run_bind_ok answer (run_caught answer discard s')

theorem overwrites_iff (hdiscard : ∀ s', held (run answer discard s').2 = held s') :
    Overwrites answer held staged commit discard s
      ↔ (∀ e s', run answer commit s = (.error e, s') → held s' = held s)
        ∧ ∀ a s', run answer commit s = (.ok a, s') → held s' = staged s := by
  refine ⟨fun h => ⟨h.kept, h.replaced⟩, fun h => ?_⟩
  obtain ⟨hkept, hreplaced⟩ := h
  cases hrun : run answer commit s with
  | mk result s' =>
    cases result with
    | error e =>
      have hfinish : run answer (finish commit discard) s
          = (.error e, (run answer discard s').2) := run_finish_error hrun
      have hheld := (hdiscard s').trans (hkept e s' hrun)
      refine ⟨hkept, hreplaced, fun error s'' h => ?_, fun hsome _ => ?_⟩
      · rw [hfinish] at h
        cases h
        exact hheld
      · rw [hfinish, hheld]
        exact hsome
    | ok a =>
      have hfinish : run answer (finish commit discard) s = (.ok a, s') := run_finish_ok hrun
      refine ⟨hkept, hreplaced, fun error s'' h => ?_, fun _ hsome => ?_⟩
      · simp [hfinish] at h
      · rw [hfinish, hreplaced a s' hrun]
        exact hsome

-- ==== replacing in one call

/-- Where the program fails, a call failed late if the destination has
changed; where it succeeds, no call did. -/
structure Replaces (answer : (asked : Q) → σ → A asked × σ) (fails : (asked : Q) → A asked → Prop)
    (held : σ → Option Bytes) (before after : Option Bytes) (x : Attempt Q A ε α) (s : σ) :
    Prop where
  failed : ∀ error s', run answer x s = (.error error, s') →
    (Attempt.Visits answer (Late answer fails held before) x s ↔ held s' ≠ before)
  succeeded : ∀ a s', run answer x s = (.ok a, s') →
    held s' = after ∧ ¬ Attempt.Visits answer (Late answer fails held before) x s

theorem Replaces.overwrites_iff (h : Replaces answer fails held (held s) (staged s) commit s)
    (hdiscard : ∀ s', held (run answer discard s').2 = held s') :
    Overwrites answer held staged commit discard s
      ↔ ¬ Attempt.Visits answer (Late answer fails held (held s)) commit s := by
  refine (Remote.overwrites_iff hdiscard).trans ?_
  cases hrun : run answer commit s with
  | mk result s' =>
    cases result with
    | error e =>
      rw [h.failed e s' hrun, not_not]
      refine ⟨fun hboth => hboth.1 e s' rfl, fun hheld => ⟨fun e' s'' heq => ?_, ?_⟩⟩
      · cases heq
        exact hheld
      · intro a s'' heq
        cases heq
    | ok a =>
      obtain ⟨hheld, hnot⟩ := h.succeeded a s' hrun
      refine ⟨fun _ => hnot, fun _ => ⟨fun e s'' heq => ?_, fun a' s'' heq => ?_⟩⟩
      · cases heq
      · cases heq
        exact hheld

theorem replaces_throw (e : ε) (hheld : held s = before) :
    Replaces answer fails held before after (throw e : Attempt Q A ε α) s where
  failed e' s' hrun := by
    cases hrun
    exact iff_of_false id fun h => h hheld
  succeeded a s' hrun := by cases hrun

theorem replaces_computed {result : Except ε α} (hheld : held s = before)
    (h : ∀ a, result = .ok a → Replaces answer fails held before after (rest a) s) :
    Replaces answer fails held before after (ExceptT.mk (pure result) >>= rest) s := by
  cases result with
  | error e => exact replaces_throw e hheld
  | ok a => exact h a rfl

theorem replaces_guard {condition : Prop} [Decidable condition] {next : Attempt Q A ε α}
    (hheld : held s = before) (h : ¬ condition → Replaces answer fails held before after next s) :
    Replaces answer fails held before after (do
      if condition then throw e
      next) s := by
  by_cases hcondition : condition
  · simp only [hcondition, if_true]
    exact replaces_throw e hheld
  · simp only [hcondition, if_false]
    exact h hcondition

theorem replaces_after {first : Attempt Q A ε α}
    (hquiet : ∀ asked, Attempt.Asks first asked →
      ∀ s, held (answer asked s).2 = held s ∧ staged (answer asked s).2 = staged s)
    (hheld : held s = before) (hstaged : staged s = after)
    (h : ∀ a s', held s' = before → staged s' = after →
      Replaces answer fails held before after (rest a) s') :
    Replaces answer fails held before after (first >>= rest) s := by
  have hkept : held (run answer first s).2 = before :=
    (run_keeps answer held first (fun asked hasks s => (hquiet asked hasks s).1) s).trans
      hheld
  have hstays : staged (run answer first s).2 = after :=
    (run_keeps answer staged first (fun asked hasks s => (hquiet asked hasks s).2) s).trans
      hstaged
  have hnot : ¬ Attempt.Visits answer (Late answer fails held before) first s := by
    intro hvisits
    obtain ⟨asked, s', hasks, hlate, hview⟩ := Attempt.Visits.keeps answer held hvisits
      fun asked hasks s => (hquiet asked hasks s).1
    exact hlate.2 (((hquiet asked hasks s').1.trans hview).trans hheld)
  cases hrun : run answer first s with
  | mk result s' =>
    rw [hrun] at hkept hstays
    cases result with
    | error e =>
      have hbind := run_bind_error answer (f := rest) hrun
      refine ⟨fun e' s'' heq => ?_, fun a s'' heq => ?_⟩
      · rw [hbind] at heq
        cases heq
        rw [visits_bind_error answer hrun]
        exact iff_of_false hnot fun h => h hkept
      · simp [hbind] at heq
    | ok a =>
      have hbind := run_bind_ok answer (f := rest) hrun
      obtain ⟨hfailed, hsucceeded⟩ := h a s' hkept hstays
      refine ⟨fun e s'' heq => ?_, fun b s'' heq => ?_⟩
      · rw [visits_bind_ok answer hrun, or_iff_right hnot]
        exact hfailed e s'' (hbind.symm.trans heq)
      · rw [visits_bind_ok answer hrun, or_iff_right hnot]
        exact hsucceeded b s'' (hbind.symm.trans heq)

theorem replaces_pure (a : α) (hheld : held s = after) :
    Replaces answer fails held before after (pure a : Attempt Q A ε α) s where
  failed error s' hrun := by cases hrun
  succeeded a' s' hrun := by
    cases hrun
    exact ⟨hheld, id⟩

theorem Replaces.bind {x : Attempt Q A ε α} {f : α → Attempt Q A ε β}
    (hx : Replaces answer fails held before after x s)
    (hf : ∀ a s', held s' = after → Replaces answer fails held before after (f a) s') :
    Replaces answer fails held before after (x >>= f) s := by
  cases hrun : run answer x s with
  | mk result s' =>
    cases result with
    | error e =>
      have hbind := run_bind_error answer (f := f) hrun
      refine ⟨fun e' s'' heq => ?_, fun b s'' heq => ?_⟩
      · rw [hbind] at heq
        cases heq
        rw [visits_bind_error answer hrun]
        exact hx.failed e s' hrun
      · simp [hbind] at heq
    | ok a =>
      have hbind := run_bind_ok answer (f := f) hrun
      obtain ⟨hheld, hnot⟩ := hx.succeeded a s' hrun
      obtain ⟨hfailed, hsucceeded⟩ := hf a s' hheld
      refine ⟨fun e s'' heq => ?_, fun b s'' heq => ?_⟩
      · rw [visits_bind_ok answer hrun, or_iff_right hnot]
        exact hfailed e s'' (hbind.symm.trans heq)
      · rw [visits_bind_ok answer hrun, or_iff_right hnot]
        exact hsucceeded b s'' (hbind.symm.trans heq)

end Remote

-- ==== FTP

namespace Ftp

variable {isUuid : List Char → Bool} {parseLine : List Char → Option File} {σ : Type}
  {answer : (asked : Ask) → σ → asked.Answer × σ} {held staged : σ → Option Bytes}
  {temporary destination : Locations.Location} {s : σ} {token : Token}

def Ask.Fails : (asked : Ask) → asked.Answer → Prop
  | .command _, .error _ => True
  | _, _ => False

instance : (asked : Ask) → (result : asked.Answer) → Decidable (asked.Fails result)
  | .command _, .error _ => .isTrue trivial
  | .command _, .ok _ | .isCancelled, _ | .resolve _, _ | .connect _, _ | .spawn _, _ =>
    .isFalse id

/-- The server, as far as the two files are concerned. What a rename that
fails does to them is left open. -/
structure Stores (isUuid : List Char → Bool) (answer : (asked : Ask) → σ → asked.Answer × σ)
    (held staged : σ → Option Bytes) (temporary destination : Locations.Location) : Prop where
  quiet : ∀ asked s, asked.IsQuiet →
    held (answer asked s).2 = held s ∧ staged (answer asked s).2 = staged s
  renamed : ∀ a b s s', Parsed.parse isUuid temporary = .ok a →
    Parsed.parse isUuid destination = .ok b →
    answer (.command (.rename a.path b.path)) s = (.ok (), s') → held s' = staged s
  discarded : ∀ a s, Parsed.parse isUuid temporary = .ok a →
    held (answer (.command (.rm a.path)) s).2 = held s
      ∧ held (answer (.command (.rmdir a.path)) s).2 = held s

theorem quiet_cancelled {asked : Ask} (h : Attempt.Asks (cancelled token) asked) :
    asked.IsQuiet := by
  rw [asks_cancelled h]
  trivial

theorem quiet_client {p : Parsed} {asked : Ask} (h : Attempt.Asks (client p) asked) :
    asked.IsQuiet := by
  rcases asks_client h with rfl | rfl <;> trivial

theorem held_discardCopy (hstores : Stores isUuid answer held staged temporary destination)
    (s : σ) : held (run answer (discardCopy isUuid temporary .new) s).2 = held s := by
  refine run_keeps answer held _ (fun asked hasks s => ?_) s
  rcases hasks.of_bind with hasks | ⟨removed, hasks⟩
  · by_cases hquiet : asked.IsQuiet
    · exact (hstores.quiet asked s hquiet).1
    · have heffect : asked.IsEffect := by
        cases asked with
        | command sent | spawn task => trivial
        | _ => exact absurd trivial hquiet
      obtain ⟨a, ha, rfl | rfl⟩ := asks_remove hasks.of_caught heffect
      · exact (hstores.discarded a s ha).1
      · exact (hstores.discarded a s ha).2
  · split at hasks
    · exact absurd hasks not_asks_pure
    · exact absurd hasks not_asks_pure
    · exact absurd hasks not_asks_throw

theorem replaces_send {a b : Parsed}
    (hstores : Stores isUuid answer held staged temporary destination)
    (ha : Parsed.parse isUuid temporary = .ok a) (hb : Parsed.parse isUuid destination = .ok b) :
    Replaces answer Ask.Fails held (held s) (staged s) (send (.rename a.path b.path)) s where
  failed error s' hrun := by
    have hanswer : answer (.command (.rename a.path b.path)) s = (.error error, s') := hrun
    refine (or_iff_left id).trans ?_
    show Ask.Fails _ _ ∧ _ ↔ _
    rw [hanswer]
    exact and_iff_right trivial
  succeeded value s' hrun := by
    have hanswer : answer (.command (.rename a.path b.path)) s = (.ok value, s') := hrun
    refine ⟨hstores.renamed a b s s' ha hb hanswer, fun hvisits => ?_⟩
    rcases hvisits with ⟨hfails, -⟩ | hnever
    · rw [hanswer] at hfails
      exact hfails
    · exact hnever

theorem overwrites_commitCopy
    (hstores : Stores isUuid answer held staged temporary destination) (token : Token) (s : σ) :
    Overwrites answer held staged (commitCopy isUuid parseLine temporary destination true token)
        (discardCopy isUuid temporary .new) s
      ↔ ¬ Attempt.Visits answer (Late answer Ask.Fails held (held s))
        (commitCopy isUuid parseLine temporary destination true token) s := by
  refine Replaces.overwrites_iff ?_ (held_discardCopy hstores)
  have hrename : commitCopy isUuid parseLine temporary destination true token
      = rename isUuid temporary destination token := rfl
  rw [hrename]
  refine replaces_after (fun asked hasks s => hstores.quiet asked s (quiet_cancelled hasks)) rfl rfl
    fun _ s₁ hheld hstaged => ?_
  refine replaces_computed hheld fun a ha => replaces_computed hheld fun b hb => ?_
  refine replaces_guard hheld fun _ => ?_
  refine replaces_after (fun asked hasks s => hstores.quiet asked s (quiet_client hasks))
    hheld hstaged fun _ s₂ hheld hstaged => ?_
  rw [← hheld, ← hstaged]
  exact (replaces_send hstores ha hb).bind fun _ _ hheld => replaces_pure destination hheld

end Ftp

-- ==== WebDAV

namespace WebDav

variable {isUuid : List Char → Bool} {libraries : Libraries} {σ : Type}
  {answer : (asked : Ask) → σ → asked.Answer × σ} {held staged : σ → Option Bytes}
  {temporary destination : Locations.Location} {s : σ} {token : Token} {p : Parsed}

/-- There is no response, or it is no success. -/
def Ask.Fails : (asked : Ask) → asked.Answer → Prop
  | .request _ _, .error _ => True
  | .request _ _, .ok response => response.isSuccess = false
  | _, _ => False

instance : (asked : Ask) → (result : asked.Answer) → Decidable (asked.Fails result)
  | .request _ _, .error _ => .isTrue trivial
  | .request _ _, .ok response => inferInstanceAs (Decidable (response.isSuccess = false))
  | .isCancelled, _ | .resolve _, _ | .probeRangeSupport _, _ | .spawn _, _ => .isFalse id

/-- The URL of a location, for some parameters of its connection. -/
def UrlOf (isUuid : List Char → Bool) (libraries : Libraries) (location : Locations.Location)
    (url : List Char) : Prop :=
  ∃ p parameters, Parsed.parse isUuid libraries location = .ok p
    ∧ urlFor libraries p parameters = .ok url

/-- The server, as far as the two files are concerned. What a `MOVE` that
fails does to them is left open. -/
structure Stores (isUuid : List Char → Bool) (libraries : Libraries)
    (answer : (asked : Ask) → σ → asked.Answer × σ) (held staged : σ → Option Bytes)
    (temporary destination : Locations.Location) : Prop where
  quiet : ∀ asked s, asked.IsQuiet →
    held (answer asked s).2 = held s ∧ staged (answer asked s).2 = staged s
  moved : ∀ a b s response s', UrlOf isUuid libraries temporary a →
    UrlOf isUuid libraries destination b →
    answer (.request (.move b) a) s = (.ok response, s') → response.isSuccess = true →
    held s' = staged s
  discarded : ∀ a s, UrlOf isUuid libraries temporary a →
    held (answer (.request .delete a) s).2 = held s

theorem quiet_cancelled {asked : Ask} (h : Attempt.Asks (cancelled token) asked) :
    asked.IsQuiet := by
  rw [asks_cancelled h]
  trivial

theorem quiet_resolve {asked : Ask} (h : Attempt.Asks (resolve p) asked) : asked.IsQuiet := by
  rw [h.of_perform]
  trivial

theorem url_of_target {location : Locations.Location} {url : List Char} {s' : σ}
    (h : run answer (target isUuid libraries location) s = (.ok (p, url), s')) :
    UrlOf isUuid libraries location url := by
  obtain ⟨p₀, s₁, hparse, h⟩ := of_run_bind_ok answer h
  obtain ⟨parameters, s₂, -, h⟩ := of_run_bind_ok answer h
  obtain ⟨url₀, s₃, hurl, h⟩ := of_run_bind_ok answer h
  cases h
  exact ⟨p, parameters, congrArg Prod.fst hparse, congrArg Prod.fst hurl⟩

theorem held_remove (hstores : Stores isUuid libraries answer held staged temporary destination)
    (s : σ) : held (run answer (remove isUuid libraries temporary false .new) s).2 = held s := by
  refine run_bind_keeps answer rfl fun _ s₁ _ => ?_
  refine run_bind_keeps answer ?_ fun found s₂ htarget => ?_
  · refine run_keeps answer held _ (fun asked hasks s => ?_) s₁
    obtain ⟨p, -, hasks⟩ := hasks.of_mk_bind
    rcases hasks.of_bind with hasks | ⟨parameters, hasks⟩
    · exact (hstores.quiet asked s (quiet_resolve hasks)).1
    · obtain ⟨url, -, hasks⟩ := hasks.of_mk_bind
      exact absurd hasks not_asks_pure
  · obtain ⟨p, url⟩ := found
    refine run_bind_keeps answer (hstores.discarded url s₂ (url_of_target htarget)) ?_
    intro response s₃ _
    split <;> rfl

theorem held_discardCopy
    (hstores : Stores isUuid libraries answer held staged temporary destination) (s : σ) :
    held (run answer (discardCopy isUuid libraries temporary .new) s).2 = held s := by
  refine run_bind_keeps answer ?_ fun removed s₁ _ => ?_
  · rw [run_caught]
    exact held_remove hstores s
  · split <;> rfl

theorem replaces_request {a b : List Char}
    (hstores : Stores isUuid libraries answer held staged temporary destination)
    (ha : UrlOf isUuid libraries temporary a) (hb : UrlOf isUuid libraries destination b) :
    Replaces answer Ask.Fails held (held s) (staged s) (do
        let response ← request (.move b) a
        if response.isSuccess then return destination
        else throw (mapStatus libraries response.status destination.uri)) s := by
  have hvisits : ∀ {result : Except VfsError Response} {s' : σ},
      answer (.request (.move b) a) s = (result, s') →
      (Attempt.Visits answer (Late answer Ask.Fails held (held s)) (request (.move b) a) s
        ↔ Ask.Fails (.request (.move b) a) result ∧ held s' ≠ held s) := by
    intro result s' hanswer
    refine (or_iff_left id).trans ?_
    show Ask.Fails _ _ ∧ _ ↔ _
    rw [hanswer]
  cases hanswer : answer (.request (.move b) a) s with
  | mk result s' =>
    have hrequest : run answer (request (.move b) a) s = (result, s') := hanswer
    cases result with
    | error error =>
      refine ⟨fun e s'' hrun => ?_, fun value s'' hrun => ?_⟩
      · rw [run_bind_error answer hrequest] at hrun
        cases hrun
        rw [visits_bind_error answer hrequest, hvisits hanswer]
        exact and_iff_right trivial
      · rw [run_bind_error answer hrequest] at hrun
        cases hrun
    | ok response =>
      cases hsuccess : response.isSuccess with
      | true =>
        refine ⟨fun e s'' hrun => ?_, fun value s'' hrun => ?_⟩
        · rw [run_bind_ok answer hrequest] at hrun
          simp only [hsuccess, if_true] at hrun
          cases hrun
        · rw [run_bind_ok answer hrequest] at hrun
          simp only [hsuccess, if_true] at hrun
          cases hrun
          refine ⟨hstores.moved a b s response s' ha hb hanswer hsuccess, ?_⟩
          rw [visits_bind_ok answer hrequest, hvisits hanswer]
          simp only [hsuccess, if_true]
          rintro (⟨h, -⟩ | h)
          · exact absurd (hsuccess.symm.trans h) (by decide)
          · exact h
      | false =>
        refine ⟨fun e s'' hrun => ?_, fun value s'' hrun => ?_⟩
        · rw [run_bind_ok answer hrequest] at hrun
          simp only [hsuccess, Bool.false_eq_true, if_false] at hrun
          cases hrun
          rw [visits_bind_ok answer hrequest, hvisits hanswer]
          simp only [hsuccess, Bool.false_eq_true, if_false]
          exact (or_iff_left id).trans (and_iff_right hsuccess)
        · rw [run_bind_ok answer hrequest] at hrun
          simp only [hsuccess, Bool.false_eq_true, if_false] at hrun
          cases hrun

theorem overwrites_commitCopy
    (hstores : Stores isUuid libraries answer held staged temporary destination) (token : Token)
    (s : σ) :
    Overwrites answer held staged (commitCopy isUuid libraries temporary destination true token)
        (discardCopy isUuid libraries temporary .new) s
      ↔ ¬ Attempt.Visits answer (Late answer Ask.Fails held (held s))
        (commitCopy isUuid libraries temporary destination true token) s := by
  refine Replaces.overwrites_iff ?_ (held_discardCopy hstores)
  have hrename : commitCopy isUuid libraries temporary destination true token
      = rename isUuid libraries temporary destination token := rfl
  rw [hrename]
  refine replaces_after (fun asked hasks s => hstores.quiet asked s (quiet_cancelled hasks)) rfl rfl
    fun _ s₁ hheld hstaged => ?_
  refine replaces_computed hheld fun a ha => replaces_computed hheld fun b hb => ?_
  refine replaces_guard hheld fun _ => ?_
  refine replaces_after (fun asked hasks s => hstores.quiet asked s (quiet_resolve hasks))
    hheld hstaged fun parameters s₂ hheld hstaged => ?_
  refine replaces_computed hheld fun source hsource => ?_
  refine replaces_computed hheld fun target htarget => ?_
  rw [← hheld, ← hstaged]
  exact replaces_request hstores ⟨a, parameters, ha, hsource⟩ ⟨b, parameters, hb, htarget⟩

end WebDav

-- ==== local

namespace Local

open Archives.Reading (toNativePath)

variable {σ : Type} {answer : (asked : Ask) → σ → asked.Answer × σ} {held staged : σ → Option Bytes}
  {source temporary destination location : Locations.Location} {s s' : σ} {preserveMetadata : Bool}
  {uri : List Char} {call : SystemCall} {path : Path}

def Ask.Fails : (asked : Ask) → asked.Answer → Prop
  | .call _, .error _ => True
  | _, _ => False

instance : (asked : Ask) → (result : asked.Answer) → Decidable (asked.Fails result)
  | .call _, .error _ => .isTrue trivial
  | .call _, .ok _ | .isCancelled, _ => .isFalse id

def Ask.IsQuiet : Ask → Prop
  | .isCancelled | .call (.preserveCopyMetadata _ _) | .call (.symlinkMetadata _) => True
  | _ => False

/-- The file system, as far as the two files are concerned. -/
structure Stores (answer : (asked : Ask) → σ → asked.Answer × σ) (held staged : σ → Option Bytes)
    (temporary destination : Locations.Location) : Prop where
  quiet : ∀ asked s, asked.IsQuiet →
    held (answer asked s).2 = held s ∧ staged (answer asked s).2 = staged s
  renamed : ∀ a b s s', toNativePath temporary = some a → toNativePath destination = some b →
    answer (.call (.rename a b)) s = (.ok (), s') → held s' = staged s
  discarded : ∀ a s, toNativePath temporary = some a →
    held (answer (.call (.removeFile a)) s).2 = held s

theorem run_orIo {result : Except IoError Unit} (h : answer (.call call) s = (result, s')) :
    run answer (orIo uri call) s = (result.mapError (mapIoError uri), s') := by
  have hsystem : run answer (system call) s = (.ok result, s') := by
    rw [system, run_lift_perform, h]
  exact run_bind_ok answer hsystem

theorem visits_orIo {P : Ask → σ → Prop} :
    Attempt.Visits answer P (orIo uri call) s ↔ P (.call call) s :=
  (visits_bind_ok answer (run_lift_perform answer (Ask.call call) s)).trans
    ((or_iff_left id).trans (visits_lift_perform answer _ s))

theorem asks_orIo {asked : Ask} (h : Attempt.Asks (orIo uri call) asked) : asked = .call call := by
  rcases h.of_bind with h | ⟨result, h⟩
  · exact h.of_lift.of_perform
  · exact absurd h Dialogue.Talk.not_asks_pure

theorem quiet_checkCancelled {asked : Ask} (h : Attempt.Asks checkCancelled asked) :
    asked.IsQuiet := by
  rcases h.of_bind with h | ⟨fired, h⟩
  · rw [h.of_lift.of_perform]
    trivial
  · cases fired with
    | true => exact absurd h not_asks_throw
    | false => exact absurd h not_asks_pure

theorem toNativePath_of_ok
    (h : ((toNativePath location).elim (.error (invalid location.uri)) .ok : Except VfsError Path)
      = .ok path) :
    toNativePath location = some path := by
  cases hpath : toNativePath location with
  | none =>
    simp [hpath] at h
  | some found =>
    rw [hpath] at h
    cases h
    rfl

theorem run_nativePath (h : run answer (nativePath location) s = (.ok path, s')) :
    toNativePath location = some path := toNativePath_of_ok (congrArg Prod.fst h)

theorem held_discardCopy (hstores : Stores answer held staged temporary destination) (s : σ) :
    held (run answer (discardCopy temporary) s).2 = held s := by
  refine run_bind_keeps answer rfl fun path s₁ hpath => ?_
  refine run_bind_keeps answer (hstores.discarded path s₁ (run_nativePath hpath)) ?_
  intro result s₂ _
  split <;> rfl

theorem replaces_orIo {before after : Option Bytes}
    (h : ∀ s', answer (.call call) s = (.ok (), s') → held s' = after) :
    Replaces answer Ask.Fails held before after (orIo uri call) s := by
  cases hanswer : answer (.call call) s with
  | mk result s' =>
    have hrun : run answer (orIo uri call) s = (result.mapError (mapIoError uri), s') :=
      run_orIo hanswer
    have hlate : Late answer Ask.Fails held before (.call call) s
        ↔ Ask.Fails (.call call) result ∧ held s' ≠ before := by
      show Ask.Fails _ _ ∧ _ ↔ _
      rw [hanswer]
    cases result with
    | error error =>
      refine ⟨fun e s'' heq => ?_, fun value s'' heq => ?_⟩
      · rw [hrun] at heq
        cases heq
        rw [visits_orIo, hlate]
        exact and_iff_right trivial
      · rw [hrun] at heq
        cases heq
    | ok value =>
      refine ⟨fun e s'' heq => ?_, fun value s'' heq => ?_⟩
      · rw [hrun] at heq
        cases heq
      · rw [hrun] at heq
        cases heq
        refine ⟨h s' hanswer, ?_⟩
        rw [visits_orIo, hlate]
        exact fun h => h.1

theorem replaces_rename {a b : Path} {value : Locations.Location}
    (hstores : Stores answer held staged temporary destination)
    (ha : toNativePath temporary = some a) (hb : toNativePath destination = some b) :
    Replaces answer Ask.Fails held (held s) (staged s) (do
        orIo uri (.rename a b)
        orIo uri (.symlinkMetadata b)
        return value) s := by
  refine (replaces_orIo fun s' => hstores.renamed a b s s' ha hb).bind fun _ s₁ hheld => ?_
  refine Replaces.bind (replaces_orIo fun s₂ hlook => ?_) fun _ _ hheld =>
    replaces_pure value hheld
  have hkept := (hstores.quiet (.call (.symlinkMetadata b)) s₁ trivial).1
  rw [hlook] at hkept
  exact hkept.trans hheld

theorem overwrites_commitCopy (hstores : Stores answer held staged temporary destination)
    (source : Locations.Location) (preserveMetadata : Bool) (s : σ) :
    Overwrites answer held staged (commitCopy source temporary destination ⟨true, preserveMetadata⟩)
        (discardCopy temporary) s ↔ ¬ Attempt.Visits answer (Late answer Ask.Fails held (held s))
        (commitCopy source temporary destination ⟨true, preserveMetadata⟩) s := by
  refine Replaces.overwrites_iff ?_ (held_discardCopy hstores)
  refine replaces_after (fun asked hasks s => hstores.quiet asked s (quiet_checkCancelled hasks))
    rfl rfl fun _ s₁ hheld hstaged => ?_
  refine replaces_computed hheld fun a ha => replaces_computed hheld fun b hb => ?_
  have ha := toNativePath_of_ok ha
  have hb := toNativePath_of_ok hb
  have hrename : ∀ s₂, held s₂ = held s → staged s₂ = staged s →
      Replaces answer Ask.Fails held (held s) (staged s) (do
          orIo destination.uri (.rename a b)
          orIo destination.uri (.symlinkMetadata b)
          return destination) s₂ := by
    intro s₂ hheld hstaged
    rw [← hheld, ← hstaged]
    exact replaces_rename hstores ha hb
  cases preserveMetadata with
  | false => exact hrename s₁ hheld hstaged
  | true =>
    refine replaces_computed hheld fun path _ => ?_
    refine replaces_after (fun asked hasks s => ?_) hheld hstaged fun _ s₂ => hrename s₂
    rw [asks_orIo hasks]
    exact hstores.quiet _ s trivial

end Local

end FileManager
