/-
When the tracked status is that of the last command.

A command writes its status when it is done, whatever has been issued and
written since, and a delete takes the status away, whoever is still to
write it, and leaves a last error where it is. The runs that are in order
(`InOrder`) are those in which none of this meets: a command is done
before a later one of its connection is, and a delete takes the status
when no command of its connection is under way and no error is kept.
-/
import FileManager.Connections.Commands
import FileManager.Lib.Machine
import Mathlib.Data.List.TakeWhile

namespace FileManager.Connections.Tracking

open Machine (Run Free)
open List Service Phase Function
open Function (update_eq_self update_of_ne update_apply update_self)

variable {ι : Type} {calls : ι → Call} {dialers : ConnectionKind → Bool} {s s' : Service ι}
  {a : Action ι} {i : ι} {id : ConnectionId} {error : Option ConnectionError} {events : List Event}
  {act : Act}

-- ==== vocabulary

/-- The status that a command has written at its end. -/
def Phase.outcome : Phase → Option ConnectionStatus
  | .publishing outcome | .answered outcome => some outcome.status
  | _ => none

/-- The command has its profile, and is to write its status. -/
def Phase.pending : Phase → Bool
  | .beginning _ | .announcing _ | .evaluating _ | .resolving _ | .dialling _ | .failing _
  | .clearing | .settling _ => true
  | _ => false

/-- The command is to write its status, or to publish it. -/
def Phase.underWay : Phase → Bool
  | .publishing _ => true
  | phase => phase.pending

/-- How much of the connection a delete has taken away. -/
def Phase.gone : Phase → Nat
  | .dropped => 1
  | .removed => 2
  | .deleted => 3
  | _ => 0

variable [DecidableEq ι]

/-- The status of the command that was issued last, of those of the
connection that have written theirs. -/
def Service.lastOutcome (calls : ι → Call) (s : Service ι) (id : ConnectionId) :
    Option ConnectionStatus :=
  s.issued.findSome? fun i => if (calls i).id = id then (s.phases i).outcome else none

/-- A command writes its status at its end only while no later one of its
connection has written its own. An update saves only a profile that is
still there. A delete takes the status away only when no command of its
connection is under way and no error of it is kept. -/
def InOrder (calls : ι → Call) (s : Service ι) (a : Action ι) : Prop :=
  match a.act with
  | .settle =>
    ∀ j ∈ s.issued.takeWhile (· ≠ a.call), (calls j).id = (calls a.call).id →
      (s.phases j).outcome = none
  | .save none _ => (s.profiles (calls a.call).id).isSome = true
  | .removeStatus =>
    s.lastErrors (calls a.call).id = none
      ∧ ∀ j ∈ s.issued, (calls j).id = (calls a.call).id → (s.phases j).underWay = false
  | _ => True

-- ==== one step

/-- A move of a call that changes neither a profile nor a status, but
perhaps the error that is kept and what is published. -/
structure Moves (calls : ι → Call) (s : Service ι) (i : ι) (phase : Phase)
    (error : Option ConnectionError) (events : List Event) : Prop where
  issued : s.phases i ≠ .idle
  outcome : phase.outcome = (s.phases i).outcome
  pending : (s.phases i).pending = true → phase.pending = true
  underWay : phase.underWay = true → (s.phases i).underWay = true
    ∨ (s.profiles (calls i).id).isSome = true
  gone : phase.gone = (s.phases i).gone
  error : error = none ∨ error = s.lastErrors (calls i).id ∨ (s.phases i).underWay = true
  silent : ∀ status, .statusChanged status ∈ events → (s.phases i).underWay = true
  kept : .deleted ∉ events

def Service.moved (s : Service ι) (calls : ι → Call) (i : ι) (phase : Phase)
    (error : Option ConnectionError) (events : List Event) : Service ι :=
  { s with
    lastErrors := update s.lastErrors (calls i).id error
    events := s.events ++ events.map fun event => ((calls i).id, event)
    phases := update s.phases i phase }

/-- What a step does. -/
inductive Effect (calls : ι → Call) (s : Service ι) : Action ι → Service ι → Prop
  | issues (i : ι) (hidle : s.phases i = .idle) :
      Effect calls s ⟨i, .issue⟩ { s.enter i .issued with issued := i :: s.issued }
  | moves (i : ι) (act : Act) (phase : Phase) (error : Option ConnectionError)
      (events : List Event) (hmoves : Moves calls s i phase error events) :
      Effect calls s ⟨i, act⟩ (s.moved calls i phase error events)
  | begins (i : ι) {profile : ConnectionProfile} (hphase : s.phases i = .beginning profile) :
      Effect calls s ⟨i, .begin⟩
        ((s.setStatus (calls i).id (some .connecting)).enter i (.announcing profile))
  | settles (i : ι) {outcome : Outcome} (hphase : s.phases i = .settling outcome) :
      Effect calls s ⟨i, .settle⟩
        ((s.setStatus (calls i).id (some outcome.status)).enter i (.publishing outcome))
  | saves (i : ι) (savedAt : Timestamp) (profile : ConnectionProfile)
      (hphase : ∃ profile, s.phases i = .saving profile) :
      Effect calls s ⟨i, .save none savedAt⟩
        ((s.setProfile (calls i).id (some profile)).enter i .saved)
  | drops (i : ι) (hphase : s.phases i = .deleting) :
      Effect calls s ⟨i, .drop none⟩ ((s.setProfile (calls i).id none).enter i .dropped)
  | removes (i : ι) (hphase : s.phases i = .dropped) :
      Effect calls s ⟨i, .removeStatus⟩ ((s.setStatus (calls i).id none).enter i .removed)
  | deletes (i : ι) (hphase : s.phases i = .removed) :
      Effect calls s ⟨i, .publish⟩ ((s.announce (calls i).id .deleted).enter i .deleted)

-- Moves, by the phase that they start from.

variable {phase : Phase}

theorem Phase.of_pending (h : phase.pending = true) :
    phase.outcome = none ∧ phase.gone = 0 ∧ phase.underWay = true ∧ phase ≠ .idle := by
  cases phase with
  | beginning | announcing | evaluating | resolving | dialling | failing | clearing | settling =>
    exact ⟨rfl, rfl, rfl, nofun⟩
  | _ => cases h

omit [DecidableEq ι] in
theorem moves_of_pending (hbefore : (s.phases i).pending = true) (hafter : phase.pending = true)
    (hkept : .deleted ∉ events) : Moves calls s i phase error events := by
  obtain ⟨houtcome, hgone, hunder, hidle⟩ := of_pending hbefore
  obtain ⟨houtcome', hgone', -, -⟩ := of_pending hafter
  exact
    { issued := hidle
      outcome := houtcome'.trans houtcome.symm
      pending := fun _ => hafter
      underWay := fun _ => .inl hunder
      gone := hgone'.trans hgone.symm
      error := .inr (.inr hunder)
      silent := fun _ _ => hunder
      kept := hkept }

omit [DecidableEq ι] in
theorem moves_of_quiet (hidle : s.phases i ≠ .idle)
    (hbefore : (s.phases i).outcome = none ∧ (s.phases i).gone = 0
      ∧ (s.phases i).pending = false) (hafter : phase.outcome = none ∧ phase.gone = 0
      ∧ (phase.underWay = true → (s.profiles (calls i).id).isSome = true))
    (hevents : ∀ event ∈ events, event = .updated) :
    Moves calls s i phase (s.lastErrors (calls i).id) events where
  issued := hidle
  outcome := hafter.1.trans hbefore.1.symm
  pending h := by rw [hbefore.2.2] at h; cases h
  underWay h := .inr (hafter.2.2 h)
  gone := hafter.2.1.trans hbefore.2.1.symm
  error := .inr (.inl rfl)
  silent status h := by cases hevents _ h
  kept h := by cases hevents _ h

theorem effect_of_enter (h : Moves calls s i phase (s.lastErrors (calls i).id) []) :
    Effect calls s ⟨i, act⟩ (s.enter i phase) := by
  have heq : s.enter i phase = s.moved calls i phase (s.lastErrors (calls i).id) [] := by
    simp only [enter, moved, update_eq_self, map_nil, append_nil]
  rw [heq]
  exact .moves i act phase _ _ h

theorem effect_of_setError (h : Moves calls s i phase error []) :
    Effect calls s ⟨i, act⟩ ((s.setError (calls i).id error).enter i phase) := by
  have heq : (s.setError (calls i).id error).enter i phase = s.moved calls i phase error [] := by
    simp only [enter, setError, moved, map_nil, append_nil]
  rw [heq]
  exact .moves i act phase _ _ h

theorem effect_of_announce {event : Event}
    (h : Moves calls s i phase (s.lastErrors (calls i).id) [event]) :
    Effect calls s ⟨i, act⟩ ((s.announce (calls i).id event).enter i phase) := by
  have heq : (s.announce (calls i).id event).enter i phase
      = s.moved calls i phase (s.lastErrors (calls i).id) [event] := by
    simp only [enter, announce, moved, update_eq_self, map_cons, map_nil]
  rw [heq]
  exact .moves i act phase _ _ h

-- What `evaluate` comes to is still to be written.

theorem reached_pending (profile : ConnectionProfile) :
    (reached dialers profile).pending = true := by
  unfold reached
  split <;> rfl

theorem evaluate_pending (profile : ConnectionProfile) :
    (evaluate dialers profile).pending = true := by
  unfold evaluate
  split
  · rfl
  · split
    · rfl
    · split
      · rfl
      · exact reached_pending profile

theorem resolved_pending (profile : ConnectionProfile)
    (result : Except CredentialError SecretMaterial) :
    (resolved dialers profile result).pending = true := by
  unfold resolved
  split
  · exact reached_pending profile
  · rfl
  · rfl

theorem dialled_pending (result : Except ConnectionError Unit) :
    (dialled result).pending = true := by
  unfold dialled
  split <;> rfl

theorem found_quiet (command : Command) (profile : ConnectionProfile) (now : Timestamp) :
    (command.found profile now).outcome = none ∧ (command.found profile now).gone = 0 := by
  cases command with
  | update draft =>
    simp only [Command.found]
    cases validateOrError (updatedProfile draft profile now) with
    | error error => exact ⟨rfl, rfl⟩
    | ok =>
      cases draft.secret with
      | none | some secret => exact ⟨rfl, rfl⟩
  | _ => exact ⟨rfl, rfl⟩

theorem effect_of_step (h : callStep calls dialers a s = some s') : Effect calls s a s' := by
  obtain ⟨i, act⟩ := a
  simp only [callStep] at h
  -- Where the phase is known, what a quiet move needs of it is read off.
  have hquiet {act : Act} {phase phase' : Phase} (hphase : s.phases i = phase)
      (hidle : phase ≠ .idle)
      (hbefore : phase.outcome = none ∧ phase.gone = 0 ∧ phase.pending = false)
      (hafter : phase'.outcome = none ∧ phase'.gone = 0
        ∧ (phase'.underWay = true → (s.profiles (calls i).id).isSome = true)) :
      Effect calls s ⟨i, act⟩ (s.enter i phase') :=
    effect_of_enter (moves_of_quiet (hphase ▸ hidle) (hphase ▸ hbefore) hafter nofun)
  have hpending {act : Act} {phase phase' : Phase} (hphase : s.phases i = phase)
      (hbefore : phase.pending = true) (hafter : phase'.pending = true) :
      Effect calls s ⟨i, act⟩ (s.enter i phase') :=
    effect_of_enter (moves_of_pending (hphase ▸ hbefore) hafter nofun)
  split at h
  case h_1 hphase =>
    cases h
    exact .issues i hphase
  case h_2 hphase | h_13 hphase | h_14 hphase | h_15 hphase | h_18 hphase =>
    cases h
    exact hquiet hphase nofun ⟨rfl, rfl, rfl⟩ ⟨rfl, rfl, nofun⟩
  case h_3 hphase =>
    split at h
    case h_1 =>
      cases h
      exact hquiet hphase nofun ⟨rfl, rfl, rfl⟩ ⟨rfl, rfl, nofun⟩
    case h_2 profile hprofile =>
      cases h
      obtain ⟨houtcome, hgone⟩ := found_quiet (calls i).command profile _
      refine hquiet hphase nofun ⟨rfl, rfl, rfl⟩ ⟨houtcome, hgone, fun _ => ?_⟩
      rw [hprofile]
      rfl
  case h_4 hphase =>
    cases h
    exact .begins i hphase
  case h_5 hphase =>
    cases h
    exact effect_of_announce (moves_of_pending (hphase ▸ rfl) rfl (by simp))
  case h_6 hphase =>
    cases h
    exact effect_of_setError (moves_of_pending (hphase ▸ rfl) (evaluate_pending _) nofun)
  case h_7 hphase =>
    cases h
    exact hpending hphase rfl (resolved_pending _ _)
  case h_8 hphase =>
    cases h
    exact hpending hphase rfl (dialled_pending _)
  case h_9 hphase | h_10 hphase =>
    cases h
    exact effect_of_setError (moves_of_pending (hphase ▸ rfl) rfl nofun)
  case h_11 hphase =>
    cases h
    exact .settles i hphase
  case h_12 outcome hphase =>
    cases h
    refine effect_of_announce
      { issued := ?_, outcome := ?_, pending := ?_, underWay := ?_, gone := ?_, error := ?_
        silent := ?_, kept := by simp }
    all_goals rw [hphase]
    · exact nofun
    · rfl
    · exact nofun
    · exact nofun
    · rfl
    · exact .inr (.inl rfl)
    · exact fun _ _ => rfl
  case h_16 hphase =>
    cases h
    exact .saves i _ _ ⟨_, hphase⟩
  case h_17 hphase =>
    cases h
    refine effect_of_announce (moves_of_quiet (hphase ▸ nofun) (hphase ▸ ⟨rfl, rfl, rfl⟩)
      ⟨rfl, rfl, nofun⟩ fun event hevent => mem_singleton.1 hevent)
  case h_19 hphase =>
    split at h
    case h_1 =>
      cases h
      exact hquiet hphase nofun ⟨rfl, rfl, rfl⟩ ⟨rfl, rfl, nofun⟩
    case h_2 =>
      cases h
      exact .drops i hphase
  case h_20 hphase =>
    cases h
    exact .removes i hphase
  case h_21 hphase =>
    cases h
    exact .deletes i hphase
  case h_22 => cases h

-- ==== invariant

/-- Nothing of a connection is kept, and nothing of it is to be written. -/
structure Clean (calls : ι → Call) (s : Service ι) (id : ConnectionId) : Prop where
  status : s.statuses id = none
  error : s.lastErrors id = none
  quiet : ∀ j, (calls j).id = id → (s.phases j).underWay = false

/-- No status event comes after the deleted event of its connection. -/
def Silent (events : List (ConnectionId × Event)) : Prop :=
  events.Pairwise fun earlier later =>
    earlier.2 = .deleted → earlier.1 = later.1 → ∀ status, later.2 ≠ .statusChanged status

/-- Unless a command is still to write its status, that of a connection
that is there is the one of the last command. -/
def Current (calls : ι → Call) (s : Service ι) (id : ConnectionId) : Prop :=
  s.profiles id = none ∨ (∃ i, (calls i).id = id ∧ (s.phases i).pending = true)
    ∨ s.statuses id = s.lastOutcome calls id

structure Tracked (calls : ι → Call) (s : Service ι) : Prop where
  idle : ∀ i, i ∉ s.issued → s.phases i = .idle
  current : ∀ id, Current calls s id
  gone : ∀ i, 1 ≤ (s.phases i).gone → s.profiles (calls i).id = none
  removed : ∀ i, 2 ≤ (s.phases i).gone → Clean calls s (calls i).id
  deleted : ∀ id, (id, .deleted) ∈ s.events → ∃ i, (calls i).id = id ∧ (s.phases i).gone = 3
  silent : Silent s.events

omit [DecidableEq ι] in
theorem lastOutcome_congr (hissued : s'.issued = s.issued)
    (h : ∀ j, (calls j).id = id → (s'.phases j).outcome = (s.phases j).outcome) :
    s'.lastOutcome calls id = s.lastOutcome calls id := by
  simp only [lastOutcome, hissued]
  congr 1
  funext j
  split
  case isTrue hid => exact h j hid
  case isFalse => rfl

theorem issued_split {l : List ι} (h : i ∈ l) : ∃ older, l = l.takeWhile (· ≠ i) ++ i :: older := by
  induction l with
  | nil => cases h
  | cons j rest ih =>
    by_cases hsame : j = i
    · subst hsame
      exact ⟨rest, by simp⟩
    · have hrest : i ∈ rest := (mem_cons.1 h).resolve_left (Ne.symm hsame)
      obtain ⟨older, holder⟩ := ih hrest
      refine ⟨older, ?_⟩
      rw [takeWhile_cons_of_pos (by simp [hsame]), cons_append, ← holder]

theorem lastOutcome_of_last {status : ConnectionStatus} (hissued : i ∈ s.issued)
    (houtcome : (s.phases i).outcome = some status)
    (hlast : ∀ j ∈ s.issued.takeWhile (· ≠ i), (calls j).id = (calls i).id →
      (s.phases j).outcome = none) :
    s.lastOutcome calls (calls i).id = some status := by
  obtain ⟨older, hsplit⟩ := issued_split hissued
  rw [lastOutcome, hsplit, List.findSome?_append, List.findSome?_eq_none_iff.2,
    Option.none_or, List.findSome?_cons, if_pos rfl, houtcome]
  intro j hj
  split
  case isTrue hid => exact hlast j hj hid
  case isFalse => rfl

omit [DecidableEq ι] in
theorem Tracked.mem_issued (h : Tracked calls s) (hphase : s.phases i ≠ .idle) : i ∈ s.issued :=
  Classical.not_not.1 fun hnot => hphase (h.idle i hnot)

theorem idle_step (h : Tracked calls s) (heffect : Effect calls s a s') :
    ∀ i, i ∉ s'.issued → s'.phases i = .idle := by
  intro j hj
  have hother {i : ι} {phase : Phase} (hphase : s.phases i ≠ .idle) (hj : j ∉ s.issued) :
      update s.phases i phase j = .idle := by
    have hne : j ≠ i := by
      rintro rfl
      exact hj (h.mem_issued hphase)
    rw [update_of_ne hne]
    exact h.idle j hj
  cases heffect with
  | issues i hidle =>
    have hne : j ≠ i := fun heq => hj (heq ▸ mem_cons_self)
    have hidle := h.idle j fun hmem => hj (mem_cons_of_mem _ hmem)
    exact (update_of_ne hne _ _).trans hidle
  | moves i act phase error events hmoves => exact hother hmoves.issued hj
  | begins i hphase | settles i hphase | drops i hphase | removes i hphase | deletes i hphase =>
    exact hother (by rw [hphase]; exact nofun) hj
  | saves i savedAt profile hphase =>
    obtain ⟨before, hphase⟩ := hphase
    exact hother (by rw [hphase]; exact nofun) hj

theorem lastOutcome_of_same (hissued : s'.issued = s.issued)
    (hphases : s'.phases = update s.phases i phase)
    (houtcome : phase.outcome = (s.phases i).outcome) :
    s.lastOutcome calls id = s'.lastOutcome calls id := by
  refine (lastOutcome_congr hissued fun j _ => ?_).symm
  rw [hphases, update_apply]
  split
  case isTrue heq => rw [houtcome, heq]
  case isFalse => rfl

theorem lastOutcome_issue (hidle : s.phases i = .idle) :
    lastOutcome calls { s.enter i .issued with issued := i :: s.issued } id
      = s.lastOutcome calls id := by
  have hrest : s.lastOutcome calls id = (s.enter i .issued).lastOutcome calls id :=
    lastOutcome_of_same rfl rfl (by rw [hidle]; rfl)
  rw [hrest]
  simp only [lastOutcome, List.findSome?_cons, enter, update_self,
    Phase.outcome, ite_self]

theorem pending_of_same (hphases : s'.phases = update s.phases i phase)
    (hkeeps : (s.phases i).pending = true → phase.pending = true)
    (hbefore : ∃ j, (calls j).id = id ∧ (s.phases j).pending = true) :
    ∃ j, (calls j).id = id ∧ (s'.phases j).pending = true := by
  obtain ⟨j, hid, hj⟩ := hbefore
  refine ⟨j, hid, ?_⟩
  rw [hphases, update_apply]
  split
  case isTrue heq => exact hkeeps (heq ▸ hj)
  case isFalse => exact hj

theorem enter_self (s : Service ι) (i : ι) (phase : Phase) : (s.enter i phase).phases i = phase :=
  update_self _ _ _

theorem current_step (h : Tracked calls s) (hok : InOrder calls s a)
    (heffect : Effect calls s a s') : ∀ id, Current calls s' id := by
  intro id
  cases heffect with
  | issues i hidle =>
    refine (h.current id).imp_right (Or.imp ?_ fun hstatus => hstatus.trans ?_)
    · exact pending_of_same rfl (by rw [hidle]; exact nofun)
    · exact (lastOutcome_issue hidle).symm
  | moves i act phase error events hmoves =>
    refine (h.current id).imp_right (Or.imp ?_ fun hstatus => hstatus.trans ?_)
    · exact pending_of_same rfl hmoves.pending
    · exact lastOutcome_of_same rfl rfl hmoves.outcome
  | @begins i profile hphase =>
    have hkeeps : (announcing profile).outcome = (s.phases i).outcome := by rw [hphase]; rfl
    by_cases hid : (calls i).id = id
    · refine .inr (.inl ⟨i, hid, ?_⟩)
      rw [enter_self]
      rfl
    · refine (h.current id).imp_right (Or.imp ?_ fun hstatus => ?_)
      · exact pending_of_same rfl fun _ => rfl
      · refine (update_of_ne (Ne.symm hid) _ _).trans (hstatus.trans ?_)
        exact lastOutcome_of_same rfl rfl hkeeps
  | @settles i outcome hphase =>
    by_cases hid : (calls i).id = id
    · -- No later command has written, so this one is the last.
      subst hid
      have hissued : i ∈ s.issued := h.mem_issued (by rw [hphase]; exact nofun)
      refine .inr (.inr ((update_self _ _ _).trans (Eq.symm ?_)))
      refine lastOutcome_of_last hissued (by rw [enter_self]; rfl) fun j hj hsame => ?_
      have hne : j ≠ i := by simpa using mem_takeWhile_imp hj
      exact (congrArg Phase.outcome (update_of_ne hne _ _)).trans (hok j hj hsame)
    · refine (h.current id).imp_right (Or.imp ?_ fun hstatus => ?_)
      · rintro ⟨j, hj, hpending⟩
        have hne : j ≠ i := fun heq => hid (heq ▸ hj)
        exact ⟨j, hj, (congrArg pending (update_of_ne hne _ _)).trans hpending⟩
      · refine (update_of_ne (Ne.symm hid) _ _).trans (hstatus.trans (Eq.symm ?_))
        refine lastOutcome_congr rfl fun j hj => ?_
        have hne : j ≠ i := fun heq => hid (heq ▸ hj)
        exact congrArg Phase.outcome (update_of_ne hne _ _)
  | saves i savedAt profile hphase =>
    obtain ⟨before, hphase⟩ := hphase
    have hthere : (s.profiles (calls i).id).isSome = true := hok
    have hkeeps : saved.outcome = (s.phases i).outcome := by rw [hphase]; rfl
    refine Or.imp ?_ (Or.imp ?_ fun hstatus => hstatus.trans ?_) (h.current id)
    · intro hnone
      have hne : id ≠ (calls i).id := by
        rintro rfl
        simp [hnone] at hthere
      exact (update_of_ne hne _ _).trans hnone
    · exact pending_of_same rfl (by rw [hphase]; exact nofun)
    · exact lastOutcome_of_same rfl rfl hkeeps
  | drops i hphase =>
    have hkeeps : dropped.outcome = (s.phases i).outcome := by rw [hphase]; rfl
    by_cases hid : id = (calls i).id
    · exact .inl (hid ▸ update_self _ _ _)
    · refine Or.imp ?_ (Or.imp ?_ fun hstatus => hstatus.trans ?_) (h.current id)
      · exact (update_of_ne hid _ _).trans
      · exact pending_of_same rfl (by rw [hphase]; exact nofun)
      · exact lastOutcome_of_same rfl rfl hkeeps
  | removes i hphase =>
    have hkeeps : removed.outcome = (s.phases i).outcome := by rw [hphase]; rfl
    by_cases hid : id = (calls i).id
    · exact .inl (hid ▸ h.gone i (by rw [hphase]; exact le_refl 1))
    · refine (h.current id).imp_right (Or.imp ?_ fun hstatus => ?_)
      · exact pending_of_same rfl (by rw [hphase]; exact nofun)
      · refine (update_of_ne hid _ _).trans (hstatus.trans ?_)
        exact lastOutcome_of_same rfl rfl hkeeps
  | deletes i hphase =>
    have hkeeps : deleted.outcome = (s.phases i).outcome := by rw [hphase]; rfl
    refine (h.current id).imp_right (Or.imp ?_ fun hstatus => hstatus.trans ?_)
    · exact pending_of_same rfl (by rw [hphase]; exact nofun)
    · exact lastOutcome_of_same rfl rfl hkeeps

theorem gone_of_move {n : Nat} (hsmall : phase.gone < n) {j : ι}
    (h : n ≤ (update s.phases i phase j).gone) : j ≠ i ∧ n ≤ (s.phases j).gone := by
  rw [update_apply] at h
  split at h
  case isTrue => omega
  case isFalse hne => exact ⟨hne, h⟩

theorem gone_of_same (hsame : phase.gone = (s.phases i).gone) (j : ι) :
    (update s.phases i phase j).gone = (s.phases j).gone := by
  rw [update_apply]
  split
  case isTrue heq => rw [hsame, heq]
  case isFalse => rfl

theorem gone_step (h : Tracked calls s) (hok : InOrder calls s a) (heffect : Effect calls s a s') :
    ∀ i, 1 ≤ (s'.phases i).gone → s'.profiles (calls i).id = none := by
  intro j hj
  cases heffect with
  | moves i act phase error events hmoves => exact h.gone j (gone_of_same hmoves.gone j ▸ hj)
  | saves i savedAt profile hphase =>
    have hnone := h.gone j (gone_of_move (by decide) hj).2
    have hthere : (s.profiles (calls i).id).isSome = true := hok
    have hne : (calls j).id ≠ (calls i).id := by
      intro heq
      rw [← heq, hnone] at hthere
      cases hthere
    exact (update_of_ne hne _ _).trans hnone
  | drops i hphase =>
    by_cases hid : (calls j).id = (calls i).id
    · rw [hid]
      exact update_self _ _ _
    · have hne : j ≠ i := fun heq => hid (heq ▸ rfl)
      have hbefore : 1 ≤ (s.phases j).gone := by
        rw [← update_of_ne hne dropped s.phases]
        exact hj
      exact (update_of_ne hid _ _).trans (h.gone j hbefore)
  | removes i hphase | deletes i hphase =>
    by_cases hsame : j = i
    · subst hsame
      exact h.gone j (by rw [hphase]; decide)
    · refine h.gone j ?_
      rw [← update_of_ne hsame _ s.phases]
      exact hj
  | _ =>
    exact h.gone j (gone_of_move (Nat.zero_lt_succ _) hj).2

theorem Clean.step {phase : Phase} (h : Clean calls s id) (hstatuses : s'.statuses id = none)
    (herrors : s'.lastErrors id = none) (hphases : s'.phases = update s.phases i phase)
    (hquiet : (calls i).id = id → phase.underWay = false) : Clean calls s' id := by
  refine ⟨hstatuses, herrors, fun j hj => ?_⟩
  rw [hphases, update_apply]
  split
  case isTrue heq => exact hquiet (heq ▸ hj)
  case isFalse => exact h.quiet j hj

omit [DecidableEq ι] in
theorem Clean.ne (h : Clean calls s id) (hunder : (s.phases i).underWay = true) :
    id ≠ (calls i).id := by
  rintro rfl
  rw [h.quiet i rfl] at hunder
  cases hunder

theorem removed_step (h : Tracked calls s) (hok : InOrder calls s a)
    (heffect : Effect calls s a s') :
    ∀ i, 2 ≤ (s'.phases i).gone → Clean calls s' (calls i).id := by
  intro j hj
  cases heffect with
  | moves i act phase error events hmoves =>
    have hgone : 2 ≤ (s.phases j).gone := gone_of_same hmoves.gone j ▸ hj
    have hclean := h.removed j hgone
    by_cases hid : (calls j).id = (calls i).id
    · -- A call of the connection can only be one that is not under way.
      have hquiet : (s.phases i).underWay = false := hclean.quiet i hid.symm
      have hnone : s.profiles (calls i).id = none := hid ▸ h.gone j (Nat.le_of_succ_le hgone)
      refine hclean.step hclean.status ?_ rfl fun _ => ?_
      · rw [hid]
        refine (update_self _ _ _).trans ?_
        rcases hmoves.error with herror | herror | herror
        · exact herror
        · rw [herror, ← hid]
          exact hclean.error
        · simp [hquiet] at herror
      · cases hphase : phase.underWay with
        | false => rfl
        | true =>
          rcases hmoves.underWay hphase with hunder | hthere
          · simp [hquiet] at hunder
          · simp [hnone] at hthere
    · exact hclean.step hclean.status ((update_of_ne hid _ _).trans hclean.error) rfl
        fun heq => absurd heq.symm hid
  | begins i hphase | settles i hphase =>
    have hclean := h.removed j (gone_of_move (Nat.zero_lt_succ _) hj).2
    have hne := hclean.ne (i := i) (by rw [hphase]; rfl)
    exact hclean.step ((update_of_ne hne _ _).trans hclean.status) hclean.error rfl
      fun heq => absurd heq.symm hne
  | removes i hphase =>
    by_cases hid : (calls j).id = (calls i).id
    · obtain ⟨herror, hquiet⟩ := hok
      rw [hid]
      refine ⟨update_self _ _ _, herror, fun k hk => ?_⟩
      by_cases hsame : k = i
      · rw [hsame, enter_self]
        rfl
      · rw [enter]
        refine (congrArg underWay (update_of_ne hsame _ _)).trans ?_
        by_cases hissued : k ∈ s.issued
        · exact hquiet k hissued hk
        · exact congrArg underWay (h.idle k hissued)
    · have hne : j ≠ i := fun heq => hid (heq ▸ rfl)
      have hbefore : 2 ≤ (s.phases j).gone := by
        rw [← update_of_ne hne removed s.phases]
        exact hj
      have hclean := h.removed j hbefore
      exact hclean.step ((update_of_ne hid _ _).trans hclean.status) hclean.error rfl fun _ => rfl
  | deletes i hphase =>
    have hbefore : 2 ≤ (s.phases j).gone := by
      by_cases hsame : j = i
      · rw [hsame, hphase]
        decide
      · rw [← update_of_ne hsame deleted s.phases]
        exact hj
    have hclean := h.removed j hbefore
    exact hclean.step hclean.status hclean.error rfl fun _ => rfl
  | _ =>
    have hclean := h.removed j (gone_of_move (by decide) hj).2
    exact hclean.step hclean.status hclean.error rfl fun _ => rfl

theorem deleted_step (h : Tracked calls s) (heffect : Effect calls s a s') :
    ∀ id, (id, .deleted) ∈ s'.events → ∃ i, (calls i).id = id ∧ (s'.phases i).gone = 3 := by
  intro id hmem
  -- The delete that has published it has returned, and does not move.
  have hstays {i : ι} {phase : Phase} (hbefore : (s.phases i).gone < 3)
      (hmem : (id, .deleted) ∈ s.events) :
      ∃ j, (calls j).id = id ∧ (update s.phases i phase j).gone = 3 := by
    obtain ⟨j, hid, hgone⟩ := h.deleted id hmem
    have hne : j ≠ i := by
      rintro rfl
      omega
    exact ⟨j, hid, (congrArg gone (update_of_ne hne _ _)).trans hgone⟩
  cases heffect with
  | issues i hidle => exact hstays (by rw [hidle]; decide) hmem
  | moves i act phase error events hmoves =>
    have hbefore : (id, .deleted) ∈ s.events := by
      refine (mem_append.1 hmem).resolve_right fun hnew => hmoves.kept ?_
      obtain ⟨event, hevent, heq⟩ := mem_map.1 hnew
      cases heq
      exact hevent
    obtain ⟨j, hid, hgone⟩ := h.deleted id hbefore
    exact ⟨j, hid, (gone_of_same hmoves.gone j).trans hgone⟩
  | begins i hphase | settles i hphase =>
    exact hstays (by rw [hphase]; exact Nat.zero_lt_succ _) hmem
  | saves i savedAt profile hphase =>
    obtain ⟨before, hphase⟩ := hphase
    exact hstays (by rw [hphase]; exact Nat.zero_lt_succ _) hmem
  | drops i hphase | removes i hphase => exact hstays (by rw [hphase]; decide) hmem
  | deletes i hphase =>
    rcases mem_append.1 hmem with hbefore | hnew
    · exact hstays (by rw [hphase]; decide) hbefore
    · cases mem_singleton.1 hnew
      exact ⟨i, rfl, by rw [enter_self]; rfl⟩

theorem silent_step (h : Tracked calls s) (heffect : Effect calls s a s') : Silent s'.events := by
  cases heffect with
  | moves i act phase error events hmoves =>
    refine pairwise_append.2 ⟨h.silent, ?_, ?_⟩
    · -- None of the new events is a deleted event.
      refine pairwise_of_forall_mem_list fun earlier hearlier later _ hdeleted => ?_
      obtain ⟨event, hevent, rfl⟩ := mem_map.1 hearlier
      exact absurd (hdeleted ▸ hevent) hmoves.kept
    · intro earlier hearlier later hlater hdeleted hsame status hstatus
      obtain ⟨event, hevent, rfl⟩ := mem_map.1 hlater
      have hmem : (earlier.1, .deleted) ∈ s.events := hdeleted ▸ hearlier
      obtain ⟨j, hid, hgone⟩ := h.deleted earlier.1 hmem
      have hclean := h.removed j (by omega)
      exact hclean.ne (hmoves.silent status (hstatus ▸ hevent)) (hid.trans hsame)
  | deletes i hphase =>
    refine pairwise_append.2 ⟨h.silent, pairwise_singleton _ _, ?_⟩
    intro earlier hearlier later hlater hdeleted hsame status hstatus
    cases mem_singleton.1 hlater
    cases hstatus
  | _ => exact h.silent

-- ==== runs

omit [DecidableEq ι] in
theorem tracked_initial (calls : ι → Call) (profiles : ConnectionId → Option ConnectionProfile) :
    Tracked calls (.initial profiles) := by
  refine ⟨fun _ _ => rfl, fun id => .inr (.inr rfl), ?_, ?_, ?_, .nil⟩
  · intro i hi
    cases hi
  · intro i hi
    cases hi
  · intro id hmem
    cases hmem

theorem tracked_step (h : Tracked calls s) (hok : InOrder calls s a)
    (hstep : callStep calls dialers a s = some s') : Tracked calls s' := by
  have heffect := effect_of_step hstep
  exact
    { idle := idle_step h heffect
      current := current_step h hok heffect
      gone := gone_step h hok heffect
      removed := removed_step h hok heffect
      deleted := deleted_step h heffect
      silent := silent_step h heffect }

omit [DecidableEq ι] in
theorem pending_of_returned (h : (s.phases i).returned = true) : (s.phases i).pending = false := by
  cases hphase : s.phases i with
  | refused | answered | updated | deleted => rfl
  | _ =>
    rw [hphase] at h
    cases h

/-- In every run that is in order, once all calls have returned, the
tracked status is that of the last command, and nothing is kept or
published of a deleted connection. -/
theorem status_of_last_command (calls : ι → Call) (dialers : ConnectionKind → Bool)
    (profiles : ConnectionId → Option ConnectionProfile) {acts : List (Action ι)}
    {s : Service ι}
    (hrun : Run (callStep calls dialers) (InOrder calls) (.initial profiles) acts s) :
    ((∀ i ∈ s.issued, (s.phases i).returned = true) →
        ∀ id profile, s.profiles id = some profile →
          s.trackedStatus id = (s.lastOutcome calls id).getD .disconnected)
      ∧ (∀ id, (id, .deleted) ∈ s.events → s.statuses id = none ∧ s.lastErrors id = none)
      ∧ Silent s.events := by
  have h : Tracked calls s := hrun.invariant (P := Tracked calls) (tracked_initial calls profiles)
    fun a hok hstep h => tracked_step h hok hstep
  refine ⟨fun hreturned id profile hprofile => ?_, fun id hmem => ?_, h.silent⟩
  · rcases h.current id with hnone | ⟨i, -, hpending⟩ | hstatus
    · simp [hnone] at hprofile
    · have hissued := h.mem_issued (of_pending hpending).2.2.2
      rw [pending_of_returned (hreturned i hissued)] at hpending
      cases hpending
    · rw [trackedStatus, hstatus]
  · obtain ⟨i, rfl, hgone⟩ := h.deleted id hmem
    have hclean := h.removed i (by omega)
    exact ⟨hclean.status, hclean.error⟩

-- A connection that is connected to, and disconnected or deleted.

instance : ∀ (s : Service ι) (a : Action ι), Decidable (InOrder calls s a)
  | s, ⟨i, .settle⟩ =>
    inferInstanceAs (Decidable (∀ j ∈ s.issued.takeWhile (· ≠ i), (calls j).id = (calls i).id →
      (s.phases j).outcome = none))
  | s, ⟨i, .save none _⟩ => inferInstanceAs (Decidable ((s.profiles (calls i).id).isSome = true))
  | s, ⟨i, .removeStatus⟩ =>
    inferInstanceAs (Decidable (s.lastErrors (calls i).id = none
      ∧ ∀ j ∈ s.issued, (calls j).id = (calls i).id → (s.phases j).underWay = false))
  | _, ⟨_, .issue⟩ | _, ⟨_, .load _ _⟩ | _, ⟨_, .begin⟩ | _, ⟨_, .publish⟩ | _, ⟨_, .evaluate⟩
  | _, ⟨_, .resolve _⟩ | _, ⟨_, .dial _⟩ | _, ⟨_, .setLastError⟩ | _, ⟨_, .clearLastError⟩
  | _, ⟨_, .store _⟩ | _, ⟨_, .save (some _) _⟩ | _, ⟨_, .drop _⟩ => .isTrue trivial

def someProfiles : ConnectionId → Option ConnectionProfile :=
  update (fun _ => none) 0
    (some
      { id := 0, name := "nas", kind := .smb, configuration := .smb "server" "share"
        credentialRef := none, createdAt := 1, updatedAt := 1 })

def someCalls : Nat → Call
  | 0 => ⟨.connect, 0⟩
  | 1 => ⟨.disconnect, 0⟩
  | _ => ⟨.delete, 0⟩

/-- A connect, up to the dialer. -/
def connecting : List (Action Nat) :=
  [⟨0, .issue⟩, ⟨0, .load none 2⟩, ⟨0, .begin⟩, ⟨0, .publish⟩, ⟨0, .evaluate⟩]

def connected : List (Action Nat) := [⟨0, .dial (.ok ())⟩, ⟨0, .settle⟩, ⟨0, .publish⟩]

def unreachable : List (Action Nat) :=
  [⟨0, .dial (.error (.dialFailed "no route"))⟩, ⟨0, .setLastError⟩, ⟨0, .settle⟩, ⟨0, .publish⟩]

def disconnecting : List (Action Nat) :=
  [⟨1, .issue⟩, ⟨1, .load none 2⟩, ⟨1, .clearLastError⟩, ⟨1, .settle⟩, ⟨1, .publish⟩]

def deleting : List (Action Nat) :=
  [⟨2, .issue⟩, ⟨2, .load none 2⟩, ⟨2, .drop none⟩, ⟨2, .removeStatus⟩, ⟨2, .publish⟩]

theorem disconnected_after_connect :
    ∃ s : Service Nat, Run (callStep someCalls fun _ => true) (InOrder someCalls)
        (.initial someProfiles) (connecting ++ connected ++ disconnecting) s
      ∧ s.trackedStatus 0 = .disconnected ∧ Silent s.events := by
  obtain ⟨s, hrun, hreturned, hprofile, hlast⟩ : ∃ s : Service Nat,
      Run (callStep someCalls fun _ => true) (InOrder someCalls) (.initial someProfiles)
        (connecting ++ connected ++ disconnecting) s
      ∧ (∀ i ∈ s.issued, (s.phases i).returned = true)
      ∧ (s.profiles 0).isSome = true ∧ s.lastOutcome someCalls 0 = some .disconnected :=
    Run.exists_of_guardedRun (by decide +kernel)
  obtain ⟨profile, hprofile⟩ := Option.isSome_iff_exists.1 hprofile
  obtain ⟨hstatus, -, hsilent⟩ :=
    status_of_last_command someCalls (fun _ => true) someProfiles hrun
  refine ⟨s, hrun, (hstatus hreturned 0 profile hprofile).trans ?_, hsilent⟩
  rw [hlast]
  rfl

/-- The disconnect comes while the dialer is awaited; so does the delete;
and the delete comes after a connect that has failed. -/
theorem status_overwritten_and_kept :
    (∃ s : Service Nat, Run (callStep someCalls fun _ => true) Free (.initial someProfiles)
          (connecting ++ disconnecting ++ connected) s
        ∧ (∀ i ∈ s.issued, (s.phases i).returned = true) ∧ (s.profiles 0).isSome = true
        ∧ s.trackedStatus 0 = .connected ∧ s.lastOutcome someCalls 0 = some .disconnected)
      ∧ (∃ s : Service Nat, Run (callStep someCalls fun _ => true) Free (.initial someProfiles)
          (connecting ++ deleting ++ connected) s
        ∧ s.events = [(0, .statusChanged .connecting), (0, .deleted),
            (0, .statusChanged .connected)]
        ∧ s.statuses 0 = some .connected)
      ∧ ∃ s : Service Nat, Run (callStep someCalls fun _ => true) Free (.initial someProfiles)
          (connecting ++ unreachable ++ deleting) s
        ∧ (0, .deleted) ∈ s.events ∧ s.lastErrors 0 = some (.dialFailed "no route") := by
  refine ⟨?_, ?_, ?_⟩ <;> exact Run.exists_of_run (by decide +kernel)

end FileManager.Connections.Tracking
