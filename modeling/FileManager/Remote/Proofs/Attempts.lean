/-
What `with_sftp` returns and leaves on the server, over its attempts.

One lemma for an attempt (`run_operate_..`) gives, by induction on the
attempts that are left, what a request comes to: one that the server
refuses (`run_withSftp_refused`), one that it takes, and takes once
(`run_withSftp_taken`), and one that looks (`run_withSftp_looks`). What
the caller is told, it is told by a refusal (`tells_withSftp`).
-/
import FileManager.Remote.SftpServer

namespace FileManager.Sftp

open Dialogue (Attempt)
open Ssh (SshError)
open Dialogue.Attempt Fate
open List
open Failure (session sftp)

variable {σ α : Type} {server : Server σ} {scripts : Nat → Script} {fired : Bool} {w w' : World σ}
  {request : Request} {connectionId : List Char} {error : SshError} {reply : request.Reply}

-- ==== vocabulary

def Failure.Transport : Failure → Prop
  | .sftp (.transport _) _ => True
  | .session error _ => error ≠ .authenticationFailed ∧ error ≠ .cancelled
  | _ => False

def Fate.Refused (fate : Fate) : Prop :=
  fate.session = .error .authenticationFailed ∨ fate.session = .error .cancelled

def Fate.Lost (fate : Fate) : Prop := fate.session = .ok () ∧ ∃ error, fate.delivery = .lost error

def Fate.Answered (fate : Fate) : Prop := fate.session = .ok () ∧ fate.delivery = .answered

/-- No attempt is answered, and the last is not refused. -/
def Silent : List Fate → Prop
  | [] => True
  | fate :: rest => ¬ fate.Answered ∧ (rest = [] → ¬ fate.Refused) ∧ Silent rest

/-- After an attempt whose reply is lost, if none was answered before,
the attempts are silent. -/
def Harmless : List Fate → Prop
  | [] => True
  | fate :: rest => (fate.Lost → Silent rest) ∧ (¬ fate.Lost → ¬ fate.Answered → Harmless rest)

/-- The caller is told something that is no transport error. -/
def Told {α : Type} (result : Except Failure α) : Prop :=
  ∃ failure, result = .error failure ∧ ¬ failure.Transport

theorem not_told_ok {a : α} : ¬ Told (.ok a : Except Failure α) := by
  rintro ⟨failure, h, -⟩
  cases h

theorem told_error_iff {failure : Failure} :
    Told (.error failure : Except Failure α) ↔ ¬ failure.Transport := by
  constructor
  · rintro ⟨other, h, hnot⟩
    cases h
    exact hnot
  · intro h
    exact ⟨failure, rfl, h⟩

/-- The question is answered by a refusal that ends the call: the
resolver's, a refused login at the first or the last attempt, a status. -/
def Ends (server : Server σ) (scripts : Nat → Script) : Ask → World σ → Prop
  | .resolve _, w => ∃ error, (scripts w.calls).resolver = .error error
  | .acquire _, w => w.fate.Refused ∧ w.fates.length ≠ 2
  | .send request, w => w.fate.delivery = .answered
      ∧ ∃ status, (server.perform request w.tree).1 = .error status
  | _, _ => False

/-- The call to `with_sftp` that a question belongs to. -/
def Ask.number (w : World σ) : Ask → Nat
  | .resolve _ => w.calls + 1
  | _ => w.calls

theorem refused_iff_of_session {fate : Fate} (h : fate.session = .error error) :
    fate.Refused ↔ ¬ (session error connectionId).Transport := by
  simp only [Refused, h, Failure.Transport, Except.error.injEq]
  tauto

-- ==== performing

section Perform

variable {status : Status} {reply : request.Reply}

@[simp] theorem perform_tree :
    (w.perform server request).tree = (server.perform request w.tree).2 := rfl

theorem perform_refused (h : (server.perform request w.tree).1 = .error status) :
    w.perform server request = w := by
  simp only [World.perform, h, server.refuses request w.tree status h]

theorem perform_taken (h : (server.perform request w.tree).1 = .ok reply)
    (hchanges : request.changes = true) :
    (w.perform server request).changes = w.changes ++ [request] := by
  simp only [World.perform, h, hchanges, if_true]

theorem perform_looks (h : request.changes = false) : w.perform server request = w := by
  cases hresult : (server.perform request w.tree).1 with
  | error status => exact perform_refused hresult
  | ok reply => simp [World.perform, hresult, h, server.looks request w.tree h]

theorem changes_of_exclusive (h : request.exclusive = true) : request.changes = true := by
  cases request with
  | openWrite path overwrite => rfl
  | symlinkMetadata path | readDir path | tryExists path => cases h
  | _ => rfl

end Perform

-- ==== one attempt

section Attempts

variable {retry : Failure → Op request.Reply} {error : TransportError} {status : Status}
  {reply : request.Reply} {P : Ask → World σ → Prop}

theorem run_send : run (answer server scripts fired) (send request) w
    = (.ok (w.send server request w.fate.delivery).1,
      (w.send server request w.fate.delivery).2) := rfl

theorem run_operate_unperformed (h : w.fate.delivery = .unperformed error) :
    run (answer server scripts fired) (operate connectionId request retry) w
      = run (answer server scripts fired) (retry (.sftp (.transport error) connectionId)) w := by
  have hsend : run (answer server scripts fired) (send request) w
      = (.ok (.error (.transport error)), w) := by rw [run_send, h]; rfl
  exact run_bind_ok _ hsend

theorem run_operate_lost (h : w.fate.delivery = .lost error) :
    run (answer server scripts fired) (operate connectionId request retry) w
      = run (answer server scripts fired)
        (retry (.sftp (.transport error) connectionId)) (w.perform server request) := by
  have hsend : run (answer server scripts fired) (send request) w
      = (.ok (.error (.transport error)), w.perform server request) := by rw [run_send, h]; rfl
  exact run_bind_ok _ hsend

theorem run_operate_answered (h : w.fate.delivery = .answered)
    (hresult : (server.perform request w.tree).1 = .ok reply) :
    run (answer server scripts fired) (operate connectionId request retry) w
      = (.ok reply, w.perform server request) := by
  have hsend : run (answer server scripts fired) (send request) w
      = (.ok (.ok reply), w.perform server request) := by
    rw [run_send, h]
    simp only [World.send, hresult, Except.mapError]
  exact run_bind_ok _ hsend

theorem run_operate_refused (h : w.fate.delivery = .answered)
    (hresult : (server.perform request w.tree).1 = .error status) :
    run (answer server scripts fired) (operate connectionId request retry) w
      = (.error (.sftp (.status status) connectionId), w) := by
  have hsend : run (answer server scripts fired) (send request) w
      = (.ok (.error (.status status)), w) := by
    rw [run_send, h]
    simp only [World.send, hresult, Except.mapError, perform_refused hresult]
  exact run_bind_ok _ hsend

end Attempts

-- ==== the other attempts

def World.next (w : World σ) : World σ := { w with fates := w.fates.tail }

/-- The same server, and the same call to `with_sftp`. -/
structure Same (w w' : World σ) : Prop where
  tree : w'.tree = w.tree
  changes : w'.changes = w.changes
  calls : w'.calls = w.calls

theorem Same.refl (w : World σ) : Same w w := ⟨rfl, rfl, rfl⟩

theorem Same.trans {w₁ w₂ w₃ : World σ} (h : Same w₁ w₂) (h' : Same w₂ w₃) : Same w₁ w₃ :=
  ⟨h'.tree.trans h.tree, h'.changes.trans h.changes, h'.calls.trans h.calls⟩

theorem same_next (w : World σ) : Same w w.next := ⟨rfl, rfl, rfl⟩

theorem Same.perform (h : Same w w') : Same (w.perform server request) (w'.perform server request)
    where
  tree := by rw [perform_tree, perform_tree, h.tree]
  changes := by simp only [World.perform, h.tree, h.changes]
  calls := h.calls

section Reconnect

variable {backoff : Nat} {backoffs : List Nat} {lastError : Failure} {fate before : Fate}
  {later : List Fate} {P : Ask → World σ → Prop} {reply : request.Reply}

theorem next_fates (h : w.fates = before :: later) : w.next.fates = later := by
  simp only [World.next, h, tail_cons]

theorem next_fate (h : w.fates = before :: fate :: later) : w.next.fate = fate := by
  simp only [World.fate, next_fates h, headD_cons]

theorem run_acquire : run (answer server scripts fired) (acquireSftp connectionId) w
    = (.ok w.fate.session, w) := rfl

variable {error : SshError}

theorem run_reconnect_error (hfates : w.fates = before :: fate :: later)
    (h : fate.session = .error error) :
    run (answer server scripts fired)
        (reconnect connectionId request (backoff :: backoffs) lastError) w
      = run (answer server scripts fired)
        (reconnect connectionId request backoffs (.session error connectionId)) w.next := by
  have hacquire : run (answer server scripts fired) (acquireSftp connectionId) w.next
      = (.ok (.error error), w.next) := by rw [run_acquire, next_fate hfates, h]
  exact (run_bind_ok _ rfl).trans (run_bind_ok _ hacquire)

theorem run_reconnect_ok (hfates : w.fates = before :: fate :: later) (h : fate.session = .ok ()) :
    run (answer server scripts fired)
        (reconnect connectionId request (backoff :: backoffs) lastError) w
      = run (answer server scripts fired)
        (operate connectionId request (reconnect connectionId request backoffs)) w.next := by
  have hacquire : run (answer server scripts fired) (acquireSftp connectionId) w.next
      = (.ok (.ok ()), w.next) := by rw [run_acquire, next_fate hfates, h]
  exact (run_bind_ok _ rfl).trans (run_bind_ok _ hacquire)

theorem silent_cons (hsession : fate.session = .ok ()) (hdelivery : fate.delivery ≠ .answered) :
    Silent (fate :: later) ↔ Silent later := by
  refine ⟨fun h => h.2.2, fun h => ⟨fun hanswered => hdelivery hanswered.2, ?_, h⟩⟩
  intro _ hrefused
  rcases hrefused with hrefused | hrefused
  · simp [hsession] at hrefused
  · simp [hsession] at hrefused

theorem run_reconnect_refused (hfates : w.fates = before :: later)
    (hlength : later.length = backoffs.length) {status : Status}
    (hresult : (server.perform request w.tree).1 = .error status)
    (hlast : later = [] → lastError.Transport) :
    ∃ failure w', run (answer server scripts fired)
        (reconnect connectionId request backoffs lastError) w = (.error failure, w')
      ∧ Same w w' ∧ (failure.Transport ↔ Silent later) := by
  induction backoffs generalizing w before later lastError with
  | nil =>
    obtain rfl := length_eq_zero_iff.1 hlength
    exact ⟨lastError, w, rfl, .refl w, iff_of_true (hlast rfl) trivial⟩
  | cons backoff backoffs ih =>
    obtain ⟨fate, later, rfl⟩ := exists_cons_of_length_eq_add_one hlength
    have hlength' : later.length = backoffs.length := by simpa using hlength
    cases hsession : fate.session with
    | error error =>
      have hnot : ¬ fate.Answered := by
        rintro ⟨hok, -⟩
        simp [hsession] at hok
      rw [run_reconnect_error hfates hsession]
      by_cases hrefused : later = [] ∧ fate.Refused
      · obtain ⟨rfl, hrefused⟩ := hrefused
        obtain rfl := length_eq_zero_iff.1 hlength'.symm
        refine ⟨_, w.next, rfl, same_next w, iff_of_false ?_ fun hsilent => ?_⟩
        · exact (refused_iff_of_session hsession).1 hrefused
        · exact hsilent.2.1 rfl hrefused
      · have hlast' : later = [] → (session error connectionId).Transport := by
          intro hnil
          by_contra hnot
          exact hrefused ⟨hnil, (refused_iff_of_session hsession).2 hnot⟩
        obtain ⟨failure, w', hrun, hsame, htransport⟩ :=
          ih (next_fates hfates) hlength' hresult hlast'
        refine ⟨failure, w', hrun, (same_next w).trans hsame, htransport.trans ?_⟩
        exact ⟨fun h => ⟨hnot, fun hnil hr => hrefused ⟨hnil, hr⟩, h⟩, fun h => h.2.2⟩
    | ok value =>
      rw [run_reconnect_ok hfates hsession]
      have hfate := next_fate hfates
      cases hdelivery : fate.delivery with
      | unperformed error =>
        rw [run_operate_unperformed (hfate ▸ hdelivery), silent_cons hsession (by simp [hdelivery])]
        have hlast' : later = [] → (sftp (.transport error) connectionId).Transport :=
          fun _ => trivial
        obtain ⟨failure, w', hrun, hsame, htransport⟩ :=
          ih (next_fates hfates) hlength' hresult hlast'
        exact ⟨failure, w', hrun, (same_next w).trans hsame, htransport⟩
      | lost error =>
        rw [run_operate_lost (hfate ▸ hdelivery), silent_cons hsession (by simp [hdelivery]),
          show w.next.perform server request = w.next from perform_refused hresult]
        have hlast' : later = [] → (sftp (.transport error) connectionId).Transport :=
          fun _ => trivial
        obtain ⟨failure, w', hrun, hsame, htransport⟩ :=
          ih (next_fates hfates) hlength' hresult hlast'
        exact ⟨failure, w', hrun, (same_next w).trans hsame, htransport⟩
      | answered =>
        refine ⟨_, w.next, run_operate_refused (hfate ▸ hdelivery) hresult, same_next w, ?_⟩
        exact iff_of_false id fun hsilent => hsilent.1 ⟨hsession, hdelivery⟩

theorem harmless_cons_of_not_answered (hlost : ¬ fate.Lost) (hanswered : ¬ fate.Answered) :
    Harmless (fate :: later) ↔ Harmless later :=
  ⟨fun h => h.2 hlost hanswered, fun h => ⟨fun h' => absurd h' hlost, fun _ _ => h⟩⟩

theorem harmless_cons_of_lost (hlost : fate.Lost) : Harmless (fate :: later) ↔ Silent later :=
  ⟨fun h => h.1 hlost, fun h => ⟨fun _ => h, fun h' => absurd hlost h'⟩⟩

theorem harmless_cons_of_answered (hanswered : fate.Answered) : Harmless (fate :: later) := by
  refine ⟨fun hlost => ?_, fun _ h => absurd hanswered h⟩
  obtain ⟨error, hlost⟩ := hlost.2
  simp [hanswered.2] at hlost

theorem not_lost_of_error (h : fate.session = .error error) : ¬ fate.Lost ∧ ¬ fate.Answered := by
  constructor
  · rintro ⟨hok, -⟩
    simp [h] at hok
  · rintro ⟨hok, -⟩
    simp [h] at hok

/-- What becomes of a request that looks. -/
inductive Looked {α : Type} (reply : α) (seen : Prop) : Except Failure α → Prop
  | seen (h : seen) : Looked reply seen (.ok reply)
  | unseen {failure : Failure} (h : ¬ seen) : Looked reply seen (.error failure)

/-- What becomes of a request that the server takes, and takes once. -/
inductive Outcome (server : Server σ) (request : Request) (reply : request.Reply) (w : World σ)
    (harmless : Prop) (reception : Reception) : Except Failure request.Reply → World σ → Prop
  | done {w' : World σ} (hsame : Same (w.perform server request) w') (h : harmless)
      (hheard : reception = .heard) :
      Outcome server request reply w harmless reception (.ok reply) w'
  | untouched {failure : Failure} {w' : World σ} (hsame : Same w w') (h : harmless)
      (hunsent : reception = .unsent) :
      Outcome server request reply w harmless reception (.error failure) w'
  /-- It took effect, and the caller is not told so. -/
  | behind {failure : Failure} {w' : World σ} (hsame : Same (w.perform server request) w')
      (h : failure.Transport ↔ harmless) (hunheard : reception = .unheard) :
      Outcome server request reply w harmless reception (.error failure) w'

theorem Outcome.from {w₀ : World σ} {harmless harmless' : Prop} {reception reception' : Reception}
    {result : Except Failure request.Reply} (hsame : Same w₀ w) (hiff : harmless ↔ harmless')
    (hreception : reception' = reception)
    (h : Outcome server request reply w harmless reception result w') :
    Outcome server request reply w₀ harmless' reception' result w' := by
  subst hreception
  cases h with
  | done hdone h hheard => exact .done (hsame.perform.trans hdone) (hiff.1 h) hheard
  | untouched huntouched h hunsent =>
    exact .untouched (hsame.trans huntouched) (hiff.1 h) hunsent
  | behind hbehind h hunheard =>
    exact .behind (hsame.perform.trans hbehind) (h.trans hiff) hunheard

theorem received_cons_of_error (h : fate.session = .error error) :
    received (fate :: later) = received later := by
  simp only [received, h]

variable {error : TransportError}

theorem received_cons_of_unperformed (h : fate.session = .ok ())
    (hdelivery : fate.delivery = .unperformed error) :
    received (fate :: later) = received later := by
  simp only [received, h, hdelivery]

theorem received_cons_of_lost (h : fate.session = .ok ())
    (hdelivery : fate.delivery = .lost error) : received (fate :: later) = .unheard := by
  simp only [received, h, hdelivery]

theorem received_cons_of_answered (h : fate.session = .ok ())
    (hdelivery : fate.delivery = .answered) : received (fate :: later) = .heard := by
  simp only [received, h, hdelivery]

theorem outcome_of_lost (hexclusive : request.exclusive = true) (hfates : w.fates = fate :: later)
    (hlength : later.length = backoffs.length)
    (hresult : (server.perform request w.tree).1 = .ok reply) (hlost : fate.Lost)
    (hlast : later = [] → lastError.Transport) :
    ∃ result w', run (answer server scripts fired)
        (reconnect connectionId request backoffs lastError) (w.perform server request)
          = (result, w')
      ∧ Outcome server request reply w (Harmless (fate :: later)) .unheard result w' := by
  obtain ⟨status, hagain⟩ := server.again request w.tree reply hexclusive hresult
  have hfates' : (w.perform server request).fates = fate :: later := hfates
  obtain ⟨failure, w', hrun, hsame, htransport⟩ :=
    run_reconnect_refused hfates' hlength hagain hlast
  exact ⟨_, w', hrun, .behind hsame (htransport.trans (harmless_cons_of_lost hlost).symm) rfl⟩

theorem run_reconnect_taken (hexclusive : request.exclusive = true)
    (hfates : w.fates = before :: later) (hlength : later.length = backoffs.length)
    (hresult : (server.perform request w.tree).1 = .ok reply) :
    ∃ result w', run (answer server scripts fired)
        (reconnect connectionId request backoffs lastError) w = (result, w')
      ∧ Outcome server request reply w (Harmless later) (received later) result w' := by
  induction backoffs generalizing w before later lastError with
  | nil =>
    obtain rfl := length_eq_zero_iff.1 hlength
    exact ⟨_, w, rfl, .untouched (.refl w) trivial rfl⟩
  | cons backoff backoffs ih =>
    obtain ⟨fate, later, rfl⟩ := exists_cons_of_length_eq_add_one hlength
    have hlength' : later.length = backoffs.length := by simpa using hlength
    cases hsession : fate.session with
    | error error =>
      obtain ⟨hlost, hanswered⟩ := not_lost_of_error hsession
      rw [run_reconnect_error hfates hsession]
      obtain ⟨result, w', hrun, houtcome⟩ := ih (next_fates hfates) hlength' hresult
      exact ⟨result, w', hrun,
        houtcome.from (same_next w) (harmless_cons_of_not_answered hlost hanswered).symm
          (received_cons_of_error hsession)⟩
    | ok value =>
      rw [run_reconnect_ok hfates hsession]
      have hfate := next_fate hfates
      cases hdelivery : fate.delivery with
      | unperformed error =>
        have hlost : ¬ fate.Lost := by simp [Lost, hdelivery]
        have hanswered : ¬ fate.Answered := by simp [Answered, hdelivery]
        rw [run_operate_unperformed (hfate ▸ hdelivery)]
        obtain ⟨result, w', hrun, houtcome⟩ := ih (next_fates hfates) hlength' hresult
        exact ⟨result, w', hrun,
          houtcome.from (same_next w) (harmless_cons_of_not_answered hlost hanswered).symm
            (received_cons_of_unperformed hsession hdelivery)⟩
      | lost error =>
        rw [run_operate_lost (hfate ▸ hdelivery)]
        have hlast : later = [] → (sftp (.transport error) connectionId).Transport :=
          fun _ => trivial
        obtain ⟨result, w', hrun, houtcome⟩ := outcome_of_lost hexclusive (next_fates hfates)
          hlength' hresult ⟨hsession, error, hdelivery⟩ hlast
        exact ⟨result, w', hrun, houtcome.from (same_next w) Iff.rfl
          (received_cons_of_lost hsession hdelivery)⟩
      | answered =>
        refine ⟨_, _, run_operate_answered (hfate ▸ hdelivery) hresult, .done ?_ ?_ ?_⟩
        · exact (same_next w).perform
        · exact harmless_cons_of_answered ⟨hsession, hdelivery⟩
        · exact received_cons_of_answered hsession hdelivery

theorem exists_answered_cons (hanswered : ¬ fate.Answered) :
    (∃ other ∈ fate :: later, other.Answered) ↔ ∃ other ∈ later, other.Answered := by
  simp [hanswered]

theorem run_reconnect_looks (hlooks : request.changes = false) (hfates : w.fates = before :: later)
    (hlength : later.length = backoffs.length)
    (hresult : (server.perform request w.tree).1 = .ok reply) :
    ∃ result w', run (answer server scripts fired)
        (reconnect connectionId request backoffs lastError) w = (result, w')
      ∧ Same w w' ∧ Looked reply (∃ other ∈ later, other.Answered) result := by
  induction backoffs generalizing w before later lastError with
  | nil =>
    obtain rfl := length_eq_zero_iff.1 hlength
    exact ⟨_, w, rfl, .refl w, .unseen (by simp)⟩
  | cons backoff backoffs ih =>
    obtain ⟨fate, later, rfl⟩ := exists_cons_of_length_eq_add_one hlength
    have hlength' : later.length = backoffs.length := by simpa using hlength
    cases hsession : fate.session with
    | error error =>
      rw [run_reconnect_error hfates hsession, exists_answered_cons (not_lost_of_error hsession).2]
      obtain ⟨result, w', hrun, hsame, hvalue⟩ := ih (next_fates hfates) hlength' hresult
      exact ⟨result, w', hrun, (same_next w).trans hsame, hvalue⟩
    | ok value =>
      rw [run_reconnect_ok hfates hsession]
      have hfate := next_fate hfates
      cases hdelivery : fate.delivery with
      | unperformed error =>
        rw [run_operate_unperformed (hfate ▸ hdelivery),
          exists_answered_cons (by simp [Answered, hdelivery])]
        obtain ⟨result, w', hrun, hsame, hvalue⟩ := ih (next_fates hfates) hlength' hresult
        exact ⟨result, w', hrun, (same_next w).trans hsame, hvalue⟩
      | lost error =>
        rw [run_operate_lost (hfate ▸ hdelivery), perform_looks hlooks,
          exists_answered_cons (by simp [Answered, hdelivery])]
        obtain ⟨result, w', hrun, hsame, hvalue⟩ := ih (next_fates hfates) hlength' hresult
        exact ⟨result, w', hrun, (same_next w).trans hsame, hvalue⟩
      | answered =>
        refine ⟨_, _, run_operate_answered (hfate ▸ hdelivery) hresult, ?_,
          .seen ⟨fate, mem_cons_self, hsession, hdelivery⟩⟩
        rw [perform_looks hlooks]
        exact same_next w

end Reconnect

-- ==== with_sftp

/-- The next call to `with_sftp`. -/
def World.called (w : World σ) : World σ := { w with calls := w.calls + 1 }

/-- It has its script. -/
def World.resolved (scripts : Nat → Script) (w : World σ) : World σ :=
  { w.called with
    fates := [(scripts w.calls).first, (scripts w.calls).second, (scripts w.calls).third] }

/-- The lost replies of the script do no harm. -/
def Script.Harmless (script : Script) : Prop :=
  script.resolver = .ok () → script.first.session = .ok () →
    Sftp.Harmless [script.first, script.second, script.third]

def Script.Answers (script : Script) : Prop :=
  script.resolver = .ok () ∧ script.first.session = .ok ()
    ∧ ∃ fate ∈ [script.first, script.second, script.third], fate.Answered

theorem same_resolved (w : World σ) : Same w.called (w.resolved scripts) := ⟨rfl, rfl, rfl⟩

theorem run_withSftp_unresolved {error : VfsError} (h : (scripts w.calls).resolver = .error error) :
    run (answer server scripts fired) (withSftp connectionId request) w
      = (.error (.vfs error), w.resolved scripts) := by
  have hresolve : run (answer server scripts fired) (resolve connectionId) w
      = (.error (.vfs error), w.resolved scripts) := by
    refine (run_bind_ok _ (run_lift_perform _ _ _)).trans ?_
    simp only [answer, h]
    rfl
  exact run_bind_error _ hresolve

theorem run_resolve (h : (scripts w.calls).resolver = .ok ()) :
    run (answer server scripts fired) (resolve connectionId) w = (.ok (), w.resolved scripts) := by
  refine (run_bind_ok _ (run_lift_perform _ _ _)).trans ?_
  simp only [answer, h]
  rfl

theorem run_withSftp_unacquired (h : (scripts w.calls).resolver = .ok ())
    (hsession : (scripts w.calls).first.session = .error error) :
    run (answer server scripts fired) (withSftp connectionId request) w
      = (.error (.session error connectionId), w.resolved scripts) := by
  have hacquire : run (answer server scripts fired) (acquireSftp connectionId)
      (w.resolved scripts) = (.ok (.error error), w.resolved scripts) := by
    rw [run_acquire, ← hsession]
    rfl
  exact (run_bind_ok _ (run_resolve h)).trans (run_bind_ok _ hacquire)

theorem run_withSftp_acquired (h : (scripts w.calls).resolver = .ok ())
    (hsession : (scripts w.calls).first.session = .ok ()) :
    run (answer server scripts fired) (withSftp connectionId request) w
      = run (answer server scripts fired)
        (operate connectionId request (reconnect connectionId request reconnectBackoff))
        (w.resolved scripts) := by
  have hacquire : run (answer server scripts fired) (acquireSftp connectionId)
      (w.resolved scripts) = (.ok (.ok ()), w.resolved scripts) := by
    rw [run_acquire, ← hsession]
    rfl
  exact (run_bind_ok _ (run_resolve h)).trans (run_bind_ok _ hacquire)

theorem resolved_fates : (w.resolved scripts).fates
    = (scripts w.calls).first :: [(scripts w.calls).second, (scripts w.calls).third] := rfl

theorem later_length : [(scripts w.calls).second, (scripts w.calls).third].length
    = reconnectBackoff.length := rfl

theorem run_withSftp_cases :
    (∃ failure, run (answer server scripts fired) (withSftp connectionId request) w
        = (.error failure, w.resolved scripts)
      ∧ ((scripts w.calls).resolver = .ok () → (scripts w.calls).first.session ≠ .ok ()))
    ∨ (scripts w.calls).resolver = .ok () ∧ (scripts w.calls).first.session = .ok ()
      ∧ run (answer server scripts fired) (withSftp connectionId request) w
        = run (answer server scripts fired)
          (operate connectionId request (reconnect connectionId request reconnectBackoff))
          (w.resolved scripts) := by
  cases hresolver : (scripts w.calls).resolver with
  | error error => exact .inl ⟨_, run_withSftp_unresolved hresolver, by simp⟩
  | ok value =>
    cases hsession : (scripts w.calls).first.session with
    | error error => exact .inl ⟨_, run_withSftp_unacquired hresolver hsession, by simp⟩
    | ok value => exact .inr ⟨rfl, rfl, run_withSftp_acquired hresolver hsession⟩

theorem run_withSftp_refused {status : Status}
    (hresult : (server.perform request w.tree).1 = .error status) :
    ∃ failure w', run (answer server scripts fired) (withSftp connectionId request) w
        = (.error failure, w') ∧ Same w.called w' := by
  rcases run_withSftp_cases with ⟨failure, hrun, -⟩ | ⟨-, hsession, hrun⟩
  · exact ⟨failure, _, hrun, same_resolved w⟩
  · rw [hrun]
    have hfate : (w.resolved scripts).fate = (scripts w.calls).first := rfl
    cases hdelivery : (scripts w.calls).first.delivery with
    | unperformed error =>
      rw [run_operate_unperformed (hfate ▸ hdelivery)]
      have hlast : [(scripts w.calls).second, (scripts w.calls).third] = []
          → (sftp (.transport error) connectionId).Transport := fun _ => trivial
      obtain ⟨failure, w', hrun, hsame, -⟩ :=
        run_reconnect_refused resolved_fates later_length hresult hlast
      exact ⟨failure, w', hrun, (same_resolved w).trans hsame⟩
    | lost error =>
      rw [run_operate_lost (hfate ▸ hdelivery),
        show (w.resolved scripts).perform server request = w.resolved scripts
          from perform_refused hresult]
      have hlast : [(scripts w.calls).second, (scripts w.calls).third] = []
          → (sftp (.transport error) connectionId).Transport := fun _ => trivial
      obtain ⟨failure, w', hrun, hsame, -⟩ :=
        run_reconnect_refused resolved_fates later_length hresult hlast
      exact ⟨failure, w', hrun, (same_resolved w).trans hsame⟩
    | answered =>
      exact ⟨_, _, run_operate_refused (hfate ▸ hdelivery) hresult, same_resolved w⟩

variable {script : Script}

theorem received_of_session (hresolver : script.resolver = .ok ())
    (hsession : script.first.session = .ok ()) :
    script.received = received [script.first, script.second, script.third] := by
  simp only [Script.received, hresolver, hsession]

theorem received_of_no_session
    (h : script.resolver = .ok () → script.first.session ≠ .ok ()) : script.received = .unsent := by
  cases hresolver : script.resolver with
  | error error => simp only [Script.received, hresolver]
  | ok value =>
    cases hsession : script.first.session with
    | error error => simp only [Script.received, hresolver, hsession]
    | ok value => exact absurd hsession (h hresolver)

theorem run_withSftp_taken (hexclusive : request.exclusive = true)
    (hresult : (server.perform request w.tree).1 = .ok reply) :
    ∃ result w', run (answer server scripts fired) (withSftp connectionId request) w = (result, w')
      ∧ Outcome server request reply w.called (scripts w.calls).Harmless
        (scripts w.calls).received result w' := by
  rcases run_withSftp_cases with ⟨failure, hrun, hnot⟩ | ⟨hresolver, hsession, hrun⟩
  · exact ⟨_, _, hrun, .untouched (same_resolved w) (fun h h' => absurd h' (hnot h))
      (received_of_no_session hnot)⟩
  · rw [hrun, received_of_session hresolver hsession]
    have hfate : (w.resolved scripts).fate = (scripts w.calls).first := rfl
    have hharmless : Harmless [(scripts w.calls).first, (scripts w.calls).second,
        (scripts w.calls).third] ↔ (scripts w.calls).Harmless :=
      ⟨fun h _ _ => h, fun h => h hresolver hsession⟩
    cases hdelivery : (scripts w.calls).first.delivery with
    | unperformed error =>
      rw [run_operate_unperformed (hfate ▸ hdelivery)]
      have hlost : ¬ (scripts w.calls).first.Lost := by simp [Lost, hdelivery]
      have hanswered : ¬ (scripts w.calls).first.Answered := by simp [Answered, hdelivery]
      obtain ⟨result, w', hrun, houtcome⟩ := run_reconnect_taken hexclusive
        resolved_fates later_length hresult
      exact ⟨result, w', hrun, houtcome.from (same_resolved w)
        ((harmless_cons_of_not_answered hlost hanswered).symm.trans hharmless)
        (received_cons_of_unperformed hsession hdelivery)⟩
    | lost error =>
      rw [run_operate_lost (hfate ▸ hdelivery)]
      have hlast : [(scripts w.calls).second, (scripts w.calls).third] = []
          → (sftp (.transport error) connectionId).Transport := fun _ => trivial
      obtain ⟨result, w', hrun, houtcome⟩ := outcome_of_lost hexclusive resolved_fates
        later_length hresult ⟨hsession, error, hdelivery⟩ hlast
      exact ⟨result, w', hrun, houtcome.from (same_resolved w) hharmless
        (received_cons_of_lost hsession hdelivery)⟩
    | answered =>
      refine ⟨_, _, run_operate_answered (hfate ▸ hdelivery) hresult, .done ?_ ?_ ?_⟩
      · exact (same_resolved w).perform
      · exact hharmless.1 (harmless_cons_of_answered ⟨hsession, hdelivery⟩)
      · exact received_cons_of_answered hsession hdelivery

theorem run_withSftp_looks (hlooks : request.changes = false)
    (hresult : (server.perform request w.tree).1 = .ok reply) :
    ∃ result w', run (answer server scripts fired) (withSftp connectionId request) w = (result, w')
      ∧ Same w.called w' ∧ Looked reply (scripts w.calls).Answers result := by
  rcases run_withSftp_cases with ⟨failure, hrun, hnot⟩ | ⟨hresolver, hsession, hrun⟩
  · exact ⟨_, _, hrun, same_resolved w, .unseen fun h => hnot h.1 h.2.1⟩
  · rw [hrun]
    have hfate : (w.resolved scripts).fate = (scripts w.calls).first := rfl
    have hanswers : (scripts w.calls).Answers
        ↔ ∃ fate ∈ [(scripts w.calls).first, (scripts w.calls).second, (scripts w.calls).third],
          fate.Answered :=
      ⟨fun h => h.2.2, fun h => ⟨hresolver, hsession, h⟩⟩
    rw [hanswers]
    cases hdelivery : (scripts w.calls).first.delivery with
    | unperformed error =>
      rw [run_operate_unperformed (hfate ▸ hdelivery),
        exists_answered_cons (by simp [Answered, hdelivery])]
      obtain ⟨result, w', hrun, hsame, hvalue⟩ :=
        run_reconnect_looks hlooks resolved_fates later_length hresult
      exact ⟨result, w', hrun, (same_resolved w).trans hsame, hvalue⟩
    | lost error =>
      rw [run_operate_lost (hfate ▸ hdelivery), perform_looks hlooks,
        exists_answered_cons (by simp [Answered, hdelivery])]
      obtain ⟨result, w', hrun, hsame, hvalue⟩ :=
        run_reconnect_looks hlooks resolved_fates later_length hresult
      exact ⟨result, w', hrun, (same_resolved w).trans hsame, hvalue⟩
    | answered =>
      refine ⟨_, _, run_operate_answered (hfate ▸ hdelivery) hresult, ?_,
        .seen ⟨_, mem_cons_self, hsession, hdelivery⟩⟩
      rw [perform_looks hlooks]
      exact same_resolved w

theorem done_of_withSftp_ok (hkind : request.exclusive = true ∨ request.changes = false)
    (hrun : run (answer server scripts fired) (withSftp connectionId request) w = (.ok reply, w')) :
    (server.perform request w.tree).1 = .ok reply ∧ Same (w.called.perform server request) w' := by
  rcases hkind with hexclusive | hlooks
  · cases hresult : (server.perform request w.tree).1 with
    | error status =>
      obtain ⟨failure, w₁, hrefused, -⟩ := run_withSftp_refused hresult
      rw [hrun] at hrefused
      cases hrefused
    | ok value =>
      obtain ⟨result, w₁, htaken, houtcome⟩ := run_withSftp_taken hexclusive hresult
      rw [hrun] at htaken
      cases htaken
      cases houtcome with
      | done hsame h => exact ⟨rfl, hsame⟩
  · rw [perform_looks hlooks]
    cases hresult : (server.perform request w.tree).1 with
    | error status =>
      obtain ⟨failure, w₁, hrefused, -⟩ := run_withSftp_refused hresult
      rw [hrun] at hrefused
      cases hrefused
    | ok value =>
      obtain ⟨result, w₁, hlook, hsame, hvalue⟩ := run_withSftp_looks hlooks hresult
      rw [hrun] at hlook
      cases hlook
      cases hvalue with
      | seen h => exact ⟨rfl, hsame⟩

theorem kept_withSftp (hkind : request.exclusive = true ∨ request.changes = false) {tree : σ}
    (hkept : w.changes = [] → w.tree = tree)
    (h : (run (answer server scripts fired) (withSftp connectionId request) w).2.changes = []) :
    (run (answer server scripts fired) (withSftp connectionId request) w).2.tree = tree := by
  have hof : ∀ {w₁ : World σ}, Same w.called w₁ → w₁.changes = [] → w₁.tree = tree := by
    intro w₁ hsame hnil
    rw [hsame.tree]
    exact hkept (hsame.changes.symm.trans hnil)
  cases hresult : (server.perform request w.tree).1 with
  | error status =>
    obtain ⟨failure, w', hrun, hsame⟩ := run_withSftp_refused hresult
    rw [hrun] at h ⊢
    exact hof hsame h
  | ok value =>
    rcases hkind with hexclusive | hlooks
    · obtain ⟨result, w', hrun, houtcome⟩ := run_withSftp_taken hexclusive hresult
      rw [hrun] at h ⊢
      have htaken : (w.called.perform server request).changes = w.changes ++ [request] :=
        perform_taken hresult (changes_of_exclusive hexclusive)
      cases houtcome with
      | untouched hsame _ => exact hof hsame h
      | done hsame _ | behind hsame _ =>
        rw [hsame.changes, htaken] at h
        simp at h
    · obtain ⟨result, w', hrun, hsame, -⟩ := run_withSftp_looks hlooks hresult
      rw [hrun] at h ⊢
      exact hof hsame h

-- ==== refusals

section Visits

variable {C : Nat → List Request → Prop} {retry : Failure → Op request.Reply}
  {error : TransportError} {backoffs : List Nat}

/-- A refusal that ends the call, with a condition on the call to
`with_sftp` and on what took effect before. -/
def EndsWith (server : Server σ) (scripts : Nat → Script) (C : Nat → List Request → Prop)
    (question : Ask) (w : World σ) : Prop :=
  C (question.number w) w.changes ∧ Ends server scripts question w

theorem visits_operate_retried (hdelivery : w.fate.delivery ≠ .answered) {w₁ : World σ}
    (hsend : w.send server request w.fate.delivery = (.error (.transport error), w₁)) :
    Attempt.Visits (answer server scripts fired) (EndsWith server scripts C)
        (operate connectionId request retry) w
      ↔ Attempt.Visits (answer server scripts fired) (EndsWith server scripts C)
        (retry (.sftp (.transport error) connectionId)) w₁ := by
  have hrun : run (answer server scripts fired) (send request) w
      = (.ok (.error (.transport error)), w₁) := by rw [run_send, hsend]
  refine (visits_bind_ok _ hrun).trans (or_iff_right ?_)
  exact fun h => hdelivery ((visits_lift_perform _ _ _).1 h).2.1

theorem visits_operate_answered (hdelivery : w.fate.delivery = .answered) :
    Attempt.Visits (answer server scripts fired) (EndsWith server scripts C)
        (operate connectionId request retry) w
      ↔ C w.calls w.changes ∧ ∃ status, (server.perform request w.tree).1 = .error status := by
  have hsend : EndsWith server scripts C (.send request) w
      ↔ C w.calls w.changes ∧ ∃ status, (server.perform request w.tree).1 = .error status :=
    and_congr_right fun _ => and_iff_right hdelivery
  have hrun : run (answer server scripts fired) (send request) w
      = (.ok ((server.perform request w.tree).1.mapError .status), w.perform server request) := by
    rw [run_send, hdelivery]
    rfl
  refine (visits_bind_ok _ hrun).trans ((or_iff_left ?_).trans ?_)
  · cases (server.perform request w.tree).1 <;> exact id
  · exact (visits_lift_perform _ _ _).trans hsend

/-- What a program tells, it tells by a refusal that ends the call. -/
def Tells {α : Type} (server : Server σ) (scripts : Nat → Script) (fired : Bool)
    (C : Nat → List Request → Prop) (number : Nat) (x : Op α) (w : World σ) : Prop :=
  Attempt.Visits (answer server scripts fired) (EndsWith server scripts C) x w
    ↔ Told (run (answer server scripts fired) x w).1
      ∧ C number (run (answer server scripts fired) x w).2.changes

theorem tells_operate
    (hreconnect : ∀ (w₁ : World σ) (error : TransportError), w₁.fates = w.fates →
      w₁.calls = w.calls → Tells server scripts fired C w₁.calls
        (reconnect connectionId request backoffs (.sftp (.transport error) connectionId)) w₁) :
    Tells server scripts fired C w.calls
      (operate connectionId request (reconnect connectionId request backoffs)) w := by
  unfold Tells
  cases hdelivery : w.fate.delivery with
  | unperformed error =>
    have hsend : w.send server request w.fate.delivery = (.error (.transport error), w) := by
      rw [hdelivery]
      rfl
    rw [run_operate_unperformed hdelivery, visits_operate_retried (by simp [hdelivery]) hsend]
    exact hreconnect w error rfl rfl
  | lost error =>
    have hsend : w.send server request w.fate.delivery
        = (.error (.transport error), w.perform server request) := by
      rw [hdelivery]
      rfl
    rw [run_operate_lost hdelivery, visits_operate_retried (by simp [hdelivery]) hsend]
    exact hreconnect _ error rfl rfl
  | answered =>
    rw [visits_operate_answered hdelivery]
    cases hresult : (server.perform request w.tree).1 with
    | error status =>
      rw [run_operate_refused hdelivery hresult]
      exact ⟨fun h => ⟨told_error_iff.2 id, h.1⟩, fun h => ⟨h.2, status, rfl⟩⟩
    | ok reply =>
      rw [run_operate_answered hdelivery hresult]
      refine iff_of_false ?_ fun h => not_told_ok h.1
      rintro ⟨-, status, h⟩
      cases h

theorem not_ends_acquire (h : ¬ (w.fate.Refused ∧ w.fates.length ≠ 2)) :
    ¬ EndsWith server scripts C (.acquire connectionId) w := fun hends => h hends.2

theorem tells_reconnect {before : Fate} {later : List Fate} {lastError : Failure}
    (hfates : w.fates = before :: later) (hlength : later.length = backoffs.length)
    (hshort : backoffs.length ≤ 2) (hlast : later = [] → lastError.Transport) :
    Tells server scripts fired C w.calls (reconnect connectionId request backoffs lastError) w := by
  induction backoffs generalizing w before later lastError with
  | nil =>
    obtain rfl := length_eq_zero_iff.1 hlength
    exact iff_of_false id fun h => told_error_iff.1 h.1 (hlast rfl)
  | cons backoff backoffs ih =>
    obtain ⟨fate, later, rfl⟩ := exists_cons_of_length_eq_add_one hlength
    have hlength' : later.length = backoffs.length := by simpa using hlength
    have hshort' : backoffs.length ≤ 1 := by simpa using hshort
    have hnext : w.next.fates.length = later.length + 1 := by rw [next_fates hfates]; rfl
    cases hsession : fate.session with
    | error error =>
      have hacquire : run (answer server scripts fired) (acquireSftp connectionId) w.next
          = (.ok (.error error), w.next) := by rw [run_acquire, next_fate hfates, hsession]
      have hvisits : Attempt.Visits (answer server scripts fired) (EndsWith server scripts C)
          (reconnect connectionId request (backoff :: backoffs) lastError) w
          ↔ EndsWith server scripts C (.acquire connectionId) w.next
            ∨ Attempt.Visits (answer server scripts fired) (EndsWith server scripts C)
              (reconnect connectionId request backoffs (.session error connectionId)) w.next := by
        refine (visits_bind_ok _ rfl).trans ?_
        refine (or_congr (visits_lift_perform _ _ _) (visits_bind_ok _ hacquire)).trans ?_
        exact (or_iff_right fun h => h.2).trans (or_congr_left (visits_lift_perform _ _ _))
      unfold Tells
      rw [hvisits, run_reconnect_error hfates hsession]
      by_cases hrefused : later = [] ∧ fate.Refused
      · obtain ⟨rfl, hrefused⟩ := hrefused
        obtain rfl := length_eq_zero_iff.1 hlength'.symm
        have hends : Ends server scripts (.acquire connectionId) w.next := by
          refine ⟨?_, by rw [hnext]; simp⟩
          rw [next_fate hfates]
          exact hrefused
        have htold : ¬ (session error connectionId).Transport :=
          (refused_iff_of_session hsession).1 hrefused
        refine (or_iff_left id).trans ?_
        exact ⟨fun h => ⟨told_error_iff.2 htold, h.1⟩, fun h => ⟨h.2, hends⟩⟩
      · have hlast' : later = [] → (session error connectionId).Transport := by
          intro hnil
          by_contra hnot
          exact hrefused ⟨hnil, (refused_iff_of_session hsession).2 hnot⟩
        refine (or_iff_right (not_ends_acquire ?_)).trans
          (ih (next_fates hfates) hlength' (by omega) hlast')
        rintro ⟨hfate, hthird⟩
        rw [next_fate hfates] at hfate
        refine hrefused ⟨length_eq_zero_iff.1 ?_, hfate⟩
        omega
    | ok value =>
      have hacquire : run (answer server scripts fired) (acquireSftp connectionId) w.next
          = (.ok (.ok ()), w.next) := by rw [run_acquire, next_fate hfates, hsession]
      have hvisits : Attempt.Visits (answer server scripts fired) (EndsWith server scripts C)
          (reconnect connectionId request (backoff :: backoffs) lastError) w
          ↔ Attempt.Visits (answer server scripts fired) (EndsWith server scripts C)
              (operate connectionId request (reconnect connectionId request backoffs)) w.next := by
        refine (visits_bind_ok _ rfl).trans ?_
        refine (or_congr (visits_lift_perform _ _ _) (visits_bind_ok _ hacquire)).trans ?_
        refine (or_iff_right fun h => h.2).trans ((or_congr_left
          (visits_lift_perform _ _ _)).trans (or_iff_right (not_ends_acquire ?_)))
        rintro ⟨hfate, -⟩
        rw [next_fate hfates, Refused, hsession] at hfate
        simp at hfate
      unfold Tells
      rw [hvisits, run_reconnect_ok hfates hsession]
      refine tells_operate fun w₁ error hfates₁ hcalls₁ => ?_
      exact ih (hfates₁.trans (next_fates hfates)) hlength' (by omega) (fun _ => trivial)

theorem visits_resolve :
    Attempt.Visits (answer server scripts fired) (EndsWith server scripts C)
        (resolve connectionId) w
      ↔ C (w.calls + 1) w.changes ∧ ∃ error, (scripts w.calls).resolver = .error error :=
  (visits_bind_ok _ (run_lift_perform _ _ _)).trans
    ((or_iff_left id).trans (visits_lift_perform _ _ _))

theorem tells_withSftp :
    Tells server scripts fired C (w.calls + 1) (withSftp connectionId request) w := by
  unfold Tells
  cases hresolver : (scripts w.calls).resolver with
  | error error =>
    have hresolve : run (answer server scripts fired) (resolve connectionId) w
        = (.error (.vfs error), w.resolved scripts) := by
      refine (run_bind_ok _ (run_lift_perform _ _ _)).trans ?_
      simp only [answer, hresolver]
      rfl
    rw [run_withSftp_unresolved hresolver]
    refine (visits_bind_error _ hresolve).trans (visits_resolve.trans ?_)
    exact ⟨fun h => ⟨told_error_iff.2 id, h.1⟩, fun h => ⟨h.2, error, hresolver⟩⟩
  | ok value =>
    have hnot : ¬ Attempt.Visits (answer server scripts fired) (EndsWith server scripts C)
        (resolve connectionId) w := by
      rw [visits_resolve]
      rintro ⟨-, error, h⟩
      simp [hresolver] at h
    have hfate : (w.resolved scripts).fate = (scripts w.calls).first := rfl
    cases hsession : (scripts w.calls).first.session with
    | error error =>
      have hacquire : run (answer server scripts fired) (acquireSftp connectionId)
          (w.resolved scripts) = (.ok (.error error), w.resolved scripts) := by
        rw [run_acquire, hfate, hsession]
      have hends : EndsWith server scripts C (.acquire connectionId) (w.resolved scripts)
          ↔ C (w.calls + 1) w.changes ∧ (scripts w.calls).first.Refused :=
        and_congr_right fun _ => and_iff_left (show 3 ≠ 2 by decide)
      rw [run_withSftp_unacquired hresolver hsession]
      refine (visits_bind_ok _ (run_resolve hresolver)).trans ((or_iff_right hnot).trans ?_)
      refine (visits_bind_ok _ hacquire).trans ((or_iff_left id).trans ?_)
      refine (visits_lift_perform _ _ _).trans (hends.trans ?_)
      rw [told_error_iff, refused_iff_of_session hsession]
      exact and_comm
    | ok value =>
      have hacquire : run (answer server scripts fired) (acquireSftp connectionId)
          (w.resolved scripts) = (.ok (.ok ()), w.resolved scripts) := by
        rw [run_acquire, hfate, hsession]
      rw [run_withSftp_acquired hresolver hsession]
      refine (visits_bind_ok _ (run_resolve hresolver)).trans ((or_iff_right hnot).trans ?_)
      refine (visits_bind_ok _ hacquire).trans ((or_iff_right ?_).trans ?_)
      · refine fun h => not_ends_acquire ?_ ((visits_lift_perform _ _ _).1 h)
        rintro ⟨hrefused, -⟩
        rw [hfate, Refused, hsession] at hrefused
        simp at hrefused
      · refine tells_operate fun w₁ error hfates₁ hcalls₁ => ?_
        have hlast : [(scripts w.calls).second, (scripts w.calls).third] = []
            → (sftp (.transport error) connectionId).Transport := fun _ => trivial
        exact tells_reconnect (hfates₁.trans resolved_fates) later_length (by decide) hlast

end Visits

end FileManager.Sftp
