/-
When the sessions of a connection match its saved profile.

A call dials with what it has resolved, and takes a session of the pool
without comparing the two. So where a profile changes, no live session of
the connection may be in the pool or on its way there; nor where it is
disconnected or deleted (`Orderly`).

# The argument

One lemma says what a step does (`Effect`). The invariant (`Inv`) goes
over the phases and the pool: every login that a call uses was that of
the profile at one of the call's own steps (`Moment`), every session was
dialled after the connection was last ended (`Renewed`), and a live
session of the pool logs in as the profile does.
-/
import FileManager.Ssh.Sessions

namespace FileManager.Ssh.Pool

open Machine (Run Free Happened)
open Option List
open Function (update update_apply)
open World (enter secretOf)

variable {ι : Type} [DecidableEq ι] {calls : ι → Call} {ok : World ι → Action ι → Prop}
  {profiles : String → Option ConnectionProfile} {secrets : List SecretMaterial} {w w' : World ι}
  {a : Action ι} {acts : List (Action ι)} {act : Act} {i : ι} {id : String}
  {profile : ConnectionProfile} {login : Login}

-- ==== vocabulary

/-- A disconnect or a delete of the connection returns. -/
def Ends (calls : ι → Call) (id : String) (w : World ι) (a : Action ι) : Prop :=
  ∃ i, a = .call i .finish ∧ ((calls i = .delete id ∧ w.phases i = .cleaned)
      ∨ (calls i = .disconnect id ∧ w.phases i = .marked))

/-- The call has a session, or dials one. -/
def Phase.Holds : Phase → Prop
  | .dialling _ _ _ | .dialled _ _ _ | .acquired _ _ _ | .ready _ _ _ => True
  | _ => False

/-- The secret of the profile is one that the store was given. -/
def World.Given (w : World ι) (profile : ConnectionProfile) : Prop :=
  ∀ reference, profile.credentialRef = some reference → reference < w.secrets.length

/-- At some step of the call, this was the login of the profile. -/
def Moment (calls : ι → Call) (ok : World ι → Action ι → Prop) (w₀ : World ι)
    (acts : List (Action ι)) (i : ι) (login : Login) : Prop :=
  Happened (poolStep calls) ok w₀ acts fun w a =>
    (∃ act, a = .call i act) ∧ w.current (calls i).id = some login

/-- The session was dialled after every disconnect and delete of the
connection that has returned. -/
def Renewed (calls : ι → Call) (ok : World ι → Action ι → Prop) (w₀ : World ι)
    (acts : List (Action ι)) (id : String) (number : Nat) : Prop :=
  ¬ Happened (poolStep calls) ok w₀ acts fun w a => Ends calls id w a ∧ number < w.dials

/-- No change of a connection leaves a session of before it to anybody
that comes later. -/
structure Orderly (calls : ι → Call) (w : World ι) (a : Action ι) : Prop where
  saves : ∀ i id configuration secret profile, a = .call i .save →
    calls i = .update id configuration secret → w.phases i = .prepared profile →
    (w.parametersOf profile).map (·.login) = w.current id ∨ w.pooled id = none
  deletes : ∀ i id, a = .call i .deleteProfile → calls i = .delete id → w.pooled id = none
  inserts : ∀ i id parameters session retries, a = .call i .insert →
    calls i = .withSftp id → w.phases i = .dialled parameters session retries →
    w.current id = some session.login
  ends : ∀ id, Ends calls id w a →
    w.pooled id = none ∧ ∀ i, (calls i).id = id → ¬ (w.phases i).Holds

-- ==== effects

/-- How a call goes on where profiles, secrets, pool and dials stay. -/
inductive Moves (calls : ι → Call) (w : World ι) (i : ι) : Phase → Phase → Prop
  | returns {phase : Phase} (succeeds : Bool) : Moves calls w i phase (.returned succeeds)
  | loads {id : String} {profile : ConnectionProfile} (hcall : calls i = .withSftp id)
      (hprofile : w.profiles id = some profile) : Moves calls w i .called (.loaded profile)
  | resolves {profile : ConnectionProfile} {parameters : SshConnectionParameters}
      (hparameters : w.parametersOf profile = some parameters) :
      Moves calls w i (.loaded profile) (.resolved parameters 2)
  | takes {id : String} {session : Session} (hcall : calls i = .withSftp id)
      (hpooled : w.pooled id = some session) (parameters : SshConnectionParameters)
      (retries : Nat) :
      Moves calls w i (.resolved parameters retries) (.acquired parameters session retries)
  | connects (parameters : SshConnectionParameters) (number retries : Nat) :
      Moves calls w i (.dialling parameters number retries)
        (.dialled parameters ⟨number, parameters.login⟩ retries)
  | opens (parameters : SshConnectionParameters) (session : Session) (retries : Nat) :
      Moves calls w i (.acquired parameters session retries) (.ready parameters session retries)
  | dialFails (parameters : SshConnectionParameters) (number retries : Nat) :
      Moves calls w i (.dialling parameters number retries) (.waiting parameters retries)
  | channelFails (parameters : SshConnectionParameters) (session : Session) (retries : Nat) :
      Moves calls w i (.acquired parameters session retries) (.waiting parameters retries)
  | loses (parameters : SshConnectionParameters) (session : Session) (retries : Nat) :
      Moves calls w i (.ready parameters session retries) (.waiting parameters retries)
  | reads {id : String} {profile : ConnectionProfile} (hprofile : w.profiles id = some profile) :
      Moves calls w i .called (.existing profile)
  | finds {phase : Phase} (profile : ConnectionProfile) : Moves calls w i phase (.found profile)
  | keeps (profile : ConnectionProfile) (configuration : ConnectionConfiguration) :
      Moves calls w i (.existing profile) (.prepared ⟨configuration, profile.credentialRef⟩)
  | drops (profile : ConnectionProfile) (previous : Option Nat) :
      Moves calls w i (.stored profile previous) (.prepared profile)
  | cleans {phase : Phase} : Moves calls w i phase .cleaned
  | marks {phase : Phase} : Moves calls w i phase .marked

/-- Two worlds agree in what the sessions depend on. -/
structure Agree (w w' : World ι) : Prop where
  profiles : w'.profiles = w.profiles
  secrets : w'.secrets = w.secrets
  pool : w'.pool = w.pool
  closed : w'.closed = w.closed
  dials : w'.dials = w.dials

/-- What a step does. -/
inductive Effect (calls : ι → Call) (w : World ι) : Action ι → World ι → Prop
  | closes (number : Nat) :
      Effect calls w (.close number) { w with closed := update w.closed number true }
  | sends (i : ι) : Effect calls w (.call i (.send false)) w
  | moves (i : ι) (act : Act) {w' : World ι} {phase : Phase} (hagree : Agree w w')
      (hphases : w'.phases = update w.phases i phase)
      (hmoves : Moves calls w i (w.phases i) phase) : Effect calls w (.call i act) w'
  | stores (i : ι) (secret : SecretMaterial) (profile : ConnectionProfile)
      (configuration : ConnectionConfiguration) :
      Effect calls w (.call i .store) ({ w with secrets := w.secrets ++ [secret] }.enter i
          (.stored ⟨configuration, some w.secrets.length⟩ profile.credentialRef))
  | saves (i : ι) {id : String} {configuration : ConnectionConfiguration}
      {secret : Option SecretMaterial} {profile : ConnectionProfile}
      (hcall : calls i = .update id configuration secret)
      (hphase : w.phases i = .prepared profile) :
      Effect calls w (.call i .save)
        ({ w with profiles := update w.profiles id (some profile) }.enter i .saved)
  | deletes (i : ι) {id : String} (hcall : calls i = .delete id) (profile : ConnectionProfile) :
      Effect calls w (.call i .deleteProfile)
        ({ w with profiles := update w.profiles id none }.enter i (.removed profile))
  | dials (i : ι) {id : String} {parameters : SshConnectionParameters} {retries : Nat}
      (hcall : calls i = .withSftp id) (hphase : w.phases i = .resolved parameters retries) :
      Effect calls w (.call i .lookUp)
        ({ w with dials := w.dials + 1 }.enter i (.dialling parameters w.dials retries))
  | inserts (i : ι) {id : String} {parameters : SshConnectionParameters} {session : Session}
      {retries : Nat} (hcall : calls i = .withSftp id)
      (hphase : w.phases i = .dialled parameters session retries) :
      Effect calls w (.call i .insert)
        ({ w with pool := update w.pool id (some session) }.enter i
          (.acquired parameters session retries))
  | invalidates (i : ι) (id : String) {parameters : SshConnectionParameters} {retries : Nat}
      (hphase : w.phases i = .waiting parameters retries) :
      Effect calls w (.call i .invalidate)
        ({ w with pool := update w.pool id none }.enter i (.resolved parameters (retries - 1)))

variable {phase : Phase}

theorem effect_enter (h : Moves calls w i (w.phases i) phase) :
    Effect calls w (.call i act) (w.enter i phase) := .moves i act ⟨rfl, rfl, rfl, rfl, rfl⟩ rfl h

omit [DecidableEq ι] in
theorem agree_deleteSecret (w : World ι) (reference : Option Nat) (succeeds : Bool) :
    Agree w (w.deleteSecret reference succeeds) := by
  unfold World.deleteSecret
  split <;> exact ⟨rfl, rfl, rfl, rfl, rfl⟩

omit [DecidableEq ι] in
theorem deleteSecret_phases (w : World ι) (reference : Option Nat) (succeeds : Bool) :
    (w.deleteSecret reference succeeds).phases = w.phases := by
  unfold World.deleteSecret
  split <;> rfl

theorem effect_deleteSecret (reference : Option Nat) (succeeds : Bool)
    (h : Moves calls w i (w.phases i) phase) :
    Effect calls w (.call i act) ((w.deleteSecret reference succeeds).enter i phase) := by
  obtain ⟨hprofiles, hsecrets, hpool, hclosed, hdials⟩ := agree_deleteSecret w reference succeeds
  refine .moves i act ⟨hprofiles, hsecrets, hpool, hclosed, hdials⟩ ?_ h
  rw [enter, deleteSecret_phases]

omit [DecidableEq ι] in
theorem moves_afterAcquireError (parameters : SshConnectionParameters) (retries : Nat)
    (h : Moves calls w i phase (.waiting parameters retries)) :
    Moves calls w i phase (afterAcquireError parameters retries) := by
  unfold afterAcquireError
  split
  · exact .returns false
  · exact h

theorem effect_withSftp (hcall : calls i = .withSftp id) (hphase : w.phases i = phase)
    (h : withSftpStep id i w act phase = some w') : Effect calls w (.call i act) w' := by
  unfold withSftpStep at h
  split at h
  · cases h
    refine effect_enter ?_
    rw [hphase]
    split
    · next hprofile => exact .loads hcall hprofile
    · exact .returns false
  · cases h
    refine effect_enter ?_
    rw [hphase]
    split
    · next hparameters => exact .resolves hparameters
    · exact .returns false
  · split at h
    · next hpooled =>
      cases h
      refine effect_enter ?_
      rw [hphase]
      exact .takes hcall hpooled _ _
    · cases h
      exact .dials i hcall hphase
  · cases h
    refine effect_enter ?_
    rw [hphase]
    exact .connects _ _ _
  · cases h
    exact .inserts i hcall hphase
  · cases h
    refine effect_enter ?_
    rw [hphase]
    exact .opens _ _ _
  · cases h
    exact .sends i
  · cases h
    refine effect_enter ?_
    rw [hphase]
    split
    · exact .returns false
    · exact .loses _ _ _
  · cases h
    exact .invalidates i id hphase
  · cases h
    exact effect_enter (.returns true)
  · cases h
    refine effect_enter (moves_afterAcquireError _ _ ?_)
    rw [hphase]
    exact .dialFails _ _ _
  · cases h
    refine effect_enter (moves_afterAcquireError _ _ ?_)
    rw [hphase]
    exact .channelFails _ _ _
  · cases h
    exact effect_enter (.returns false)
  · cases h
    exact effect_enter (.returns false)
  · cases h

theorem effect_update {configuration : ConnectionConfiguration} {secret : Option SecretMaterial}
    (hcall : calls i = .update id configuration secret) (hphase : w.phases i = phase)
    (h : updateStep id configuration secret i w act phase = some w') :
    Effect calls w (.call i act) w' := by
  unfold updateStep at h
  split at h
  · cases h
    refine effect_enter ?_
    rw [hphase]
    split
    · next hprofile => exact .reads hprofile
    · exact .returns false
  · split at h
    · cases h
      exact .stores i _ _ _
    · cases h
      refine effect_enter ?_
      rw [hphase]
      exact .keeps _ _
  · cases h
    refine effect_deleteSecret _ _ ?_
    rw [hphase]
    exact .drops _ _
  · cases h
    exact .saves i hcall hphase
  · cases h
    exact effect_enter (.returns true)
  · cases h
    exact effect_enter (.returns false)
  · cases h
    exact effect_enter (.returns false)
  · cases h
    exact effect_enter (.returns false)
  · cases h
    exact effect_enter (.returns false)
  · cases h

theorem effect_delete (hcall : calls i = .delete id) (h : deleteStep id i w act phase = some w') :
    Effect calls w (.call i act) w' := by
  unfold deleteStep at h
  split at h
  · cases h
    refine effect_enter ?_
    split
    · exact .finds _
    · exact .returns false
  · split at h
    · cases h
      exact .deletes i hcall _
    · cases h
      exact effect_enter (.returns false)
  · cases h
    obtain ⟨hprofiles, hsecrets, hpool, hclosed, hdials⟩ := agree_deleteSecret w _ _
    refine .moves i _ ⟨hprofiles, hsecrets, hpool, hclosed, hdials⟩ ?_ .cleans
    simp only [enter, deleteSecret_phases]
  · cases h
    exact effect_enter (.returns true)
  · cases h
    exact effect_enter (.returns false)
  · cases h
    exact effect_enter (.returns false)
  · cases h

theorem effect_disconnect
    (h : disconnectStep id i w act phase = some w') : Effect calls w (.call i act) w' := by
  unfold disconnectStep at h
  split at h
  · split at h
    · cases h
      exact .moves i _ ⟨rfl, rfl, rfl, rfl, rfl⟩ rfl .marks
    · cases h
      exact effect_enter (.returns false)
  · cases h
    exact effect_enter (.returns true)
  · cases h
    exact effect_enter (.returns false)
  · cases h
    exact effect_enter (.returns false)
  · cases h

theorem effect_call (h : callStep calls i act w = some w') : Effect calls w (.call i act) w' := by
  unfold callStep at h
  split at h
  case h_1 =>
    cases h
    exact effect_enter (.returns false)
  case h_2 _ hcall => exact effect_withSftp hcall rfl h
  case h_3 _ hcall => exact effect_update hcall rfl h
  case h_4 _ hcall => exact effect_delete hcall h
  case h_5 => exact effect_disconnect h

theorem effect_of_step (h : poolStep calls a w = some w') : Effect calls w a w' := by
  cases a with
  | close number =>
    cases h
    exact .closes number
  | call i act => exact effect_call h

omit [DecidableEq ι] in
theorem Agree.parametersOf (h : Agree w w') (profile : ConnectionProfile) :
    w'.parametersOf profile = w.parametersOf profile := by
  simp only [World.parametersOf, secretOf, h.secrets]

omit [DecidableEq ι] in
theorem Agree.current (h : Agree w w') (id : String) : w'.current id = w.current id := by
  have hparameters : w'.parametersOf = w.parametersOf := funext h.parametersOf
  rw [World.current, h.profiles, hparameters, ← World.current]

omit [DecidableEq ι] in
theorem Agree.pooled (h : Agree w w') (id : String) : w'.pooled id = w.pooled id := by
  rw [World.pooled, h.pool, h.closed, ← World.pooled]

theorem Effect.adds_secrets (h : Effect calls w a w') : w.secrets <+: w'.secrets := by
  cases h with
  | moves i act hagree hphases hmoves => exact hagree.secrets ▸ prefix_rfl
  | stores i secret profile configuration => exact prefix_append _ _
  | _ => exact prefix_rfl

theorem Effect.dials_le (h : Effect calls w a w') : w.dials ≤ w'.dials := by
  cases h with
  | moves i act hagree hphases hmoves => exact Nat.le_of_eq hagree.dials.symm
  | dials i hcall hphase => exact Nat.le_succ _
  | _ => exact Nat.le_refl _

-- ==== moments and ends

omit [DecidableEq ι] in
theorem World.Given.mono (h : w.Given profile) (hsecrets : w.secrets <+: w'.secrets) :
    w'.Given profile:= fun reference hreference =>
  Nat.lt_of_lt_of_le (h reference hreference) hsecrets.length_le

omit [DecidableEq ι] in
theorem World.Given.parametersOf (h : w.Given profile) (hsecrets : w.secrets <+: w'.secrets) :
    w'.parametersOf profile = w.parametersOf profile := by
  have hsecret : w'.secretOf profile = w.secretOf profile := by
    cases hreference : profile.credentialRef with
    | none => simp only [secretOf, hreference, bind_none]
    | some reference =>
      simp only [secretOf, hreference, bind_some]
      obtain ⟨rest, hrest⟩ := hsecrets
      rw [← hrest]
      exact getElem?_append_left (h reference hreference)
  simp only [World.parametersOf, hsecret]

theorem Moment.concat (h : Moment calls ok w acts i login)
    (a : Action ι) : Moment calls ok w (acts ++ [a]) i login := Happened.concat h a

variable {w₀ : World ι}

theorem moment_here (hrun : Run (poolStep calls) ok w₀ acts w)
    (hcurrent : w.current (calls i).id = some login) :
    Moment calls ok w₀ (acts ++ [.call i act]) i login :=
  hrun.happened ⟨⟨act, rfl⟩, hcurrent⟩

theorem Renewed.concat {number : Nat} (h : Renewed calls ok w₀ acts id number)
    (hrun : Run (poolStep calls) ok w₀ acts w)
    (hends : ¬ Ends calls id w a) : Renewed calls ok w₀ (acts ++ [a]) id number := by
  intro hhappened
  rcases hhappened.of_concat hrun with hbefore | ⟨hlast, -⟩
  · exact h hbefore
  · exact hends hlast

omit [DecidableEq ι] in
theorem not_ends_of_withSftp {id' : String}
    (hcall : calls i = .withSftp id) : ¬ Ends calls id' w (.call i act) := by
  rintro ⟨j, ha, hj⟩
  cases ha
  rcases hj with ⟨hj, -⟩ | ⟨hj, -⟩
  · simp [hcall] at hj
  · simp [hcall] at hj

theorem dials_le_of_happened (hrun : Run (poolStep calls) ok w₀ acts w) :
    ¬ Happened (poolStep calls) ok w₀ acts fun before _ => w.dials < before.dials := by
  induction hrun with
  | start =>
    rintro ⟨before, a, after, w₁, hacts, -⟩
    simp at hacts
  | snoc a hbefore hok hstep ih =>
    have hle := (effect_of_step hstep).dials_le
    intro hhappened
    rcases hhappened.of_concat hbefore with ⟨before, b, after, w₁, hacts, hrun₁, hlt⟩ | hlt
    · exact ih ⟨before, b, after, w₁, hacts, hrun₁, Nat.lt_of_le_of_lt hle hlt⟩
    · exact absurd hle (Nat.not_le_of_lt hlt)

theorem renewed_dials (hrun : Run (poolStep calls) ok w₀ acts w) (id : String) :
    Renewed calls ok w₀ acts id w.dials := by
  rintro ⟨before, a, after, w₁, hacts, hrun₁, -, hlt⟩
  exact dials_le_of_happened hrun ⟨before, a, after, w₁, hacts, hrun₁, hlt⟩

-- ==== invariant

/-- What is true of a call as far as it has come. -/
def Phase.Sound (calls : ι → Call) (ok : World ι → Action ι → Prop) (w₀ : World ι)
    (acts : List (Action ι)) (w : World ι) (i : ι) : Phase → Prop
  | .loaded profile => w.Given profile ∧ ∀ parameters, w.parametersOf profile = some parameters →
      Moment calls ok w₀ acts i parameters.login
  | .existing profile | .stored profile _ | .prepared profile => w.Given profile
  | .resolved parameters _ | .waiting parameters _ => Moment calls ok w₀ acts i parameters.login
  | .dialling parameters number _ => Moment calls ok w₀ acts i parameters.login
      ∧ Renewed calls ok w₀ acts (calls i).id number
  | .dialled parameters session _ | .acquired parameters session _
  | .ready parameters session _ => Moment calls ok w₀ acts i parameters.login
      ∧ Moment calls ok w₀ acts i session.login
      ∧ Renewed calls ok w₀ acts (calls i).id session.number
  | _ => True

structure Inv (calls : ι → Call) (ok : World ι → Action ι → Prop) (w₀ : World ι)
    (acts : List (Action ι)) (w : World ι) : Prop where
  given : ∀ id profile, w.profiles id = some profile → w.Given profile
  phases : ∀ i, (w.phases i).Sound calls ok w₀ acts w i
  pool : ∀ id session, w.pooled id = some session →
    w.current id = some session.login ∧ Renewed calls ok w₀ acts id session.number

section Steps

variable {w₀ : World ι} {session : Session} {id id' : String} {phase : Phase} {i : ι}

theorem given_step (hinv : Inv calls ok w₀ acts w) (heffect : Effect calls w a w') :
    ∀ id profile, w'.profiles id = some profile → w'.Given profile := by
  intro id profile hprofile
  refine World.Given.mono (w := w) ?_ heffect.adds_secrets
  cases heffect with
  | moves i act hagree hphases hmoves => exact hinv.given id profile (hagree.profiles ▸ hprofile)
  | saves i hcall hphase =>
    have hsound := hinv.phases i
    rw [hphase] at hsound
    simp only [enter, update_apply] at hprofile
    split at hprofile
    · cases hprofile
      exact hsound
    · exact hinv.given id profile hprofile
  | deletes i hcall deleted =>
    simp only [enter, update_apply] at hprofile
    split at hprofile
    · cases hprofile
    · exact hinv.given id profile hprofile
  | _ => exact hinv.given id profile hprofile

theorem sound_stays (hrun : Run (poolStep calls) ok w₀ acts w)
    (hsecrets : w.secrets <+: w'.secrets) (hends : phase.Holds → ¬ Ends calls (calls i).id w a)
    (h : phase.Sound calls ok w₀ acts w i) : phase.Sound calls ok w₀ (acts ++ [a]) w' i := by
  cases phase with
  | loaded profile =>
    obtain ⟨hgiven, hmoment⟩ := h
    refine ⟨hgiven.mono hsecrets, fun parameters hparameters => ?_⟩
    rw [hgiven.parametersOf hsecrets] at hparameters
    exact (hmoment parameters hparameters).concat a
  | existing profile | stored profile previous | prepared profile =>
    exact World.Given.mono h hsecrets
  | resolved parameters retries | waiting parameters retries => exact Moment.concat h a
  | dialling parameters number retries =>
    exact ⟨h.1.concat a, h.2.concat hrun (hends trivial)⟩
  | dialled parameters session retries
  | acquired parameters session retries | ready parameters session retries =>
    exact ⟨h.1.concat a, h.2.1.concat a, h.2.2.concat hrun (hends trivial)⟩
  | _ => trivial

theorem sound_moves {act : Act} {phase' : Phase} (hrun : Run (poolStep calls) ok w₀ acts w)
    (hinv : Inv calls ok w₀ acts w) (hagree : Agree w w') (hmoves : Moves calls w i phase phase')
    (h : phase.Sound calls ok w₀ (acts ++ [.call i act]) w' i) :
    phase'.Sound calls ok w₀ (acts ++ [.call i act]) w' i := by
  cases hmoves with
  | loads hcall hprofile =>
    refine ⟨(hinv.given _ _ hprofile).mono (hagree.secrets ▸ prefix_rfl),
      fun parameters hparameters => moment_here hrun ?_⟩
    rw [hagree.parametersOf] at hparameters
    rw [hcall]
    simp only [Call.id, World.current, hprofile, bind_some, hparameters, map_some]
  | resolves hparameters => exact h.2 _ ((hagree.parametersOf _).trans hparameters)
  | takes hcall hpooled parameters retries =>
    obtain ⟨hcurrent, hrenewed⟩ := hinv.pool _ _ hpooled
    refine ⟨h, moment_here hrun ?_, ?_⟩
    · rw [hcall]
      exact hcurrent
    · rw [hcall]
      exact hrenewed.concat hrun (not_ends_of_withSftp hcall)
  | connects parameters number retries => exact ⟨h.1, h.1, h.2⟩
  | opens parameters session retries => exact h
  | dialFails parameters number retries | channelFails parameters session retries
  | loses parameters session retries => exact h.1
  | reads hprofile =>
    exact (hinv.given _ _ hprofile).mono (hagree.secrets ▸ prefix_rfl)
  | keeps profile configuration => exact h
  | drops profile previous => exact h
  | _ => trivial

theorem sound_update {j : ι} (hphases : w'.phases = update w.phases i phase)
    (hrest : ∀ j, (w.phases j).Sound calls ok w₀ acts w' j)
    (h : phase.Sound calls ok w₀ acts w' i) : (w'.phases j).Sound calls ok w₀ acts w' j := by
  rw [hphases, update_apply]
  split
  · next hj => exact hj ▸ h
  · exact hrest j

theorem phases_step (hrun : Run (poolStep calls) ok w₀ acts w) (hinv : Inv calls ok w₀ acts w)
    (horderly : Orderly calls w a) (heffect : Effect calls w a w') (j : ι) :
    (w'.phases j).Sound calls ok w₀ (acts ++ [a]) w' j := by
  have hrest : ∀ j, (w.phases j).Sound calls ok w₀ (acts ++ [a]) w' j := fun j =>
    sound_stays hrun heffect.adds_secrets
      (fun hholds hends => (horderly.ends _ hends).2 j rfl hholds) (hinv.phases j)
  cases heffect with
  | closes number | sends i => exact hrest j
  | moves i act hagree hphases hmoves =>
    exact sound_update hphases hrest (sound_moves hrun hinv hagree hmoves (hrest i))
  | stores i secret profile configuration =>
    refine sound_update rfl hrest fun reference hreference => ?_
    cases hreference
    simp only [enter, length_append, length_singleton]
    exact Nat.lt_succ_self _
  | saves i hcall hphase | deletes i hcall profile => exact sound_update rfl hrest trivial
  | dials i hcall hphase =>
    have hresolved := hrest i
    rw [hphase] at hresolved
    refine sound_update rfl hrest ⟨hresolved, ?_⟩
    exact (renewed_dials hrun _).concat hrun (not_ends_of_withSftp hcall)
  | inserts i hcall hphase =>
    have hdialled := hrest i
    rw [hphase] at hdialled
    exact sound_update rfl hrest hdialled
  | invalidates i id hphase =>
    have hwaiting := hrest i
    rw [hphase] at hwaiting
    exact sound_update rfl hrest hwaiting

theorem pool_stays (hrun : Run (poolStep calls) ok w₀ acts w) (hinv : Inv calls ok w₀ acts w)
    (horderly : Orderly calls w a) (hpooled : w.pooled id = some session) :
    w.current id = some session.login ∧ Renewed calls ok w₀ (acts ++ [a]) id session.number := by
  obtain ⟨hcurrent, hrenewed⟩ := hinv.pool id session hpooled
  refine ⟨hcurrent, hrenewed.concat hrun fun hends => ?_⟩
  rw [(horderly.ends id hends).1] at hpooled
  cases hpooled

omit [DecidableEq ι] in
theorem pooled_of_closed {number : Nat}
    (h : World.pooled { w with closed := update w.closed number true } id
      = some session) : w.pooled id = some session := by
  simp only [World.pooled, filter_eq_some_iff] at h ⊢
  obtain ⟨hpool, hclosed⟩ := h
  refine ⟨hpool, ?_⟩
  rw [update_apply] at hclosed
  split at hclosed
  · cases hclosed
  · exact hclosed

omit [DecidableEq ι] in
theorem pooled_of_update {entry : Option Session}
    (h : World.pooled { w with pool := update w.pool id' entry } id = some session) :
    (id = id' ∧ entry = some session) ∨ (id ≠ id' ∧ w.pooled id = some session) := by
  simp only [World.pooled, update_apply] at h
  split at h
  · next hid => exact .inl ⟨hid, (filter_eq_some_iff.1 h).1⟩
  · next hid => exact .inr ⟨hid, h⟩

omit [DecidableEq ι] in
theorem current_of_update {profile : Option ConnectionProfile} :
    World.current { w with profiles := update w.profiles id' profile } id
      = if id = id' then (profile.bind w.parametersOf).map (·.login) else w.current id := by
  simp only [World.current, update_apply]
  split <;> rfl

theorem pool_step (hrun : Run (poolStep calls) ok w₀ acts w) (hinv : Inv calls ok w₀ acts w)
    (horderly : Orderly calls w a) (heffect : Effect calls w a w') (id : String)
    (session : Session) (hpooled : w'.pooled id = some session) :
    w'.current id = some session.login ∧ Renewed calls ok w₀ (acts ++ [a]) id session.number := by
  have hstays : w.pooled id = some session → w.current id = some session.login ∧ _ :=
    pool_stays hrun hinv horderly
  cases heffect with
  | closes number => exact hstays (pooled_of_closed hpooled)
  | moves i act hagree hphases hmoves =>
    rw [hagree.pooled] at hpooled
    rw [hagree.current]
    exact hstays hpooled
  | stores i secret profile configuration =>
    obtain ⟨hcurrent, hrenewed⟩ := hstays hpooled
    refine ⟨?_, hrenewed⟩
    rw [← hcurrent]
    simp only [World.current, enter]
    cases hprofile : w.profiles id with
    | none => rfl
    | some profile =>
      simp only [bind_some]
      rw [(hinv.given id profile hprofile).parametersOf (prefix_append _ _)]
  | @saves i id' configuration secret profile hcall hphase =>
    obtain ⟨hcurrent, hrenewed⟩ := hstays hpooled
    refine ⟨current_of_update.trans ?_, hrenewed⟩
    split
    · next hid =>
      subst hid
      rcases horderly.saves i id _ _ profile rfl hcall hphase with hsame | hnone
      · exact hsame.trans hcurrent
      · rw [show w.pooled id = some session from hpooled] at hnone
        cases hnone
    · exact hcurrent
  | @deletes i id' hcall profile =>
    obtain ⟨hcurrent, hrenewed⟩ := hstays hpooled
    refine ⟨current_of_update.trans ?_, hrenewed⟩
    rw [if_neg, hcurrent]
    rintro rfl
    have hnone := horderly.deletes i id rfl hcall
    rw [show w.pooled id = some session from hpooled] at hnone
    cases hnone
  | sends i | dials i hcall hphase => exact hstays hpooled
  | @inserts i id' parameters dialled retries hcall hphase =>
    rcases pooled_of_update hpooled with ⟨rfl, hentry⟩ | ⟨hid, hold⟩
    · cases hentry
      have hsound := hinv.phases i
      rw [hphase] at hsound
      obtain ⟨-, -, hrenewed⟩ := hsound
      rw [hcall] at hrenewed
      exact ⟨horderly.inserts i id _ _ _ rfl hcall hphase,
        hrenewed.concat hrun (not_ends_of_withSftp hcall)⟩
    · exact hstays hold
  | invalidates i id' hphase =>
    rcases pooled_of_update hpooled with ⟨-, hentry⟩ | ⟨hid, hold⟩
    · cases hentry
    · exact hstays hold

theorem inv_step (hrun : Run (poolStep calls) ok w₀ acts w) (horderly : Orderly calls w a)
    (hstep : poolStep calls a w = some w') (hinv : Inv calls ok w₀ acts w) :
    Inv calls ok w₀ (acts ++ [a]) w' := by
  have heffect := effect_of_step hstep
  exact ⟨given_step hinv heffect, phases_step hrun hinv horderly heffect,
    pool_step hrun hinv horderly heffect⟩

end Steps

theorem inv_of_run
    (hgiven : ∀ id profile, profiles id = some profile →
      ∀ reference, profile.credentialRef = some reference → reference < secrets.length)
    (hrun : Run (poolStep calls) (Orderly calls) (.initial profiles secrets) acts w) :
    Inv calls (Orderly calls) (.initial profiles secrets) acts w := by
  have hinitial : Inv calls (Orderly calls) (.initial profiles secrets) []
      (.initial profiles secrets) := by
    refine ⟨hgiven, fun i => trivial, fun id session hpooled => ?_⟩
    cases hpooled
  exact hrun.invariant_trace hinitial fun a hrun horderly hstep hinv =>
    inv_step hrun horderly hstep hinv

-- ==== sessions

/-- In every run in which changes are orderly, a call sends in a session
to what the profile said during the call, dialled after the connection
was last ended. -/
theorem sessions_match_profile (calls : ι → Call) (profiles : String → Option ConnectionProfile)
    (secrets : List SecretMaterial)
    (hgiven : ∀ id profile, profiles id = some profile →
      ∀ reference, profile.credentialRef = some reference → reference < secrets.length)
    {acts : List (Action ι)} {w : World ι}
    (hrun : Run (poolStep calls) (Orderly calls) (.initial profiles secrets) acts w)
    {i : ι} {parameters : SshConnectionParameters} {session : Session} {retries : Nat}
    (hready : w.phases i = .ready parameters session retries) :
    Moment calls (Orderly calls) (.initial profiles secrets) acts i session.login
      ∧ Renewed calls (Orderly calls) (.initial profiles secrets) acts (calls i).id
        session.number := by
  have hsound := (inv_of_run hgiven hrun).phases i
  rw [hready] at hsound
  exact hsound.2

-- Two edits and a disconnect, each followed by a use of the connection.

def someConfiguration (host : String) : SshConnectionConfiguration :=
  ⟨host, 22, "user", .password, .requireKnownHost, none⟩

def someProfiles : String → Option ConnectionProfile := fun _ =>
  some ⟨.ssh (someConfiguration "old"), some 0⟩

def someSecrets : List SecretMaterial := [.password "one"]

def someCalls : Nat → Call
  | 1 => .update "c" (.ssh (someConfiguration "new")) (some (.password "two"))
  | 3 => .disconnect "c"
  | _ => .withSftp "c"

def loginTo (host password : String) : Login := ⟨⟨host, 22, "user"⟩, .password password⟩

def parametersTo (host password : String) : SshConnectionParameters :=
  ⟨loginTo host password, .requireKnownHost, none⟩

def dialActs (i : Nat) : List (Action Nat) :=
  [.call i .load, .call i .resolve, .call i .lookUp, .call i .connect, .call i .insert,
    .call i .openSftp]

def pooledActs (i : Nat) : List (Action Nat) :=
  [.call i .load, .call i .resolve, .call i .lookUp, .call i .openSftp]

def updateActs : List (Action Nat) :=
  [.call 1 .load, .call 1 .store, .call 1 (.deleteSecret true), .call 1 .save, .call 1 .finish]

def disconnectActs : List (Action Nat) := [.call 3 .disconnect, .call 3 .finish]

/-- A step that is orderly by what the pool holds. -/
def quiet (w : World Nat) : Action Nat → Bool
  | .call _ .save => (w.pooled "c").isNone
  | .call i .insert => match w.phases i with
    | .dialled _ session _ => w.current "c" == some session.login
    | _ => false
  | .call _ .deleteProfile => false
  | .call i .finish => i == 1
  | _ => true

theorem someCalls_id (i : Nat) : (someCalls i).id = "c" := by
  unfold someCalls
  split <;> rfl

theorem orderly_of_quiet {w : World Nat} {a : Action Nat} (h : quiet w a = true) :
    Orderly someCalls w a := by
  constructor
  · rintro i id configuration secret profile rfl hcall -
    obtain rfl : id = "c" := (congrArg Call.id hcall).symm.trans (someCalls_id i)
    exact .inr (isNone_iff_eq_none.1 h)
  · rintro i id rfl -
    cases h
  · rintro i id parameters session retries rfl hcall hphase
    obtain rfl : id = "c" := (congrArg Call.id hcall).symm.trans (someCalls_id i)
    simp only [quiet, hphase] at h
    exact eq_of_beq h
  · rintro id ⟨i, rfl, hends⟩
    obtain rfl : i = 1 := eq_of_beq h
    rcases hends with ⟨hcall, -⟩ | ⟨hcall, -⟩ <;> cases hcall

/-- A step of the later call finds the new profile. -/
def movedOn (w : World Nat) : Action Nat → Bool
  | .call 2 _ => w.current "c" != some (loginTo "old" "one")
  | _ => true

theorem not_moment_of_movedOn (w : World Nat) (a : Action Nat) (h : movedOn w a = true) :
    ¬ ((∃ act, a = .call 2 act) ∧ w.current (someCalls 2).id = some (loginTo "old" "one")) := by
  rintro ⟨⟨act, rfl⟩, hcurrent⟩
  exact bne_iff_ne.1 h hcurrent

theorem new_session_after_update :
    Moment someCalls (Orderly someCalls) (.initial someProfiles someSecrets)
        (updateActs ++ dialActs 0) 0 (loginTo "new" "two")
      ∧ Renewed someCalls (Orderly someCalls) (.initial someProfiles someSecrets)
        (updateActs ++ dialActs 0) "c" 0 := by
  have hreached : ∃ w : World Nat, Run (poolStep someCalls) (fun w a => quiet w a = true)
      (.initial someProfiles someSecrets) (updateActs ++ dialActs 0) w
      ∧ w.phases 0 = .ready (parametersTo "new" "two") ⟨0, loginTo "new" "two"⟩ 2 :=
    Run.exists_of_guardedRun (by decide +kernel)
  obtain ⟨w, hrun, hready⟩ := hreached
  refine sessions_match_profile someCalls someProfiles someSecrets ?_
    (hrun.mono fun _ _ => orderly_of_quiet) hready
  intro id profile hprofile reference hreference
  cases hprofile
  cases hreference
  decide

/-- A call that starts after the update has returned sends on the session
that was opened before it, and so does a call after the disconnect. -/
theorem stale_and_ended_sessions_used :
    (∃ w : World Nat, Run (poolStep someCalls) Free (.initial someProfiles someSecrets)
        (dialActs 0 ++ updateActs ++ pooledActs 2) w
      ∧ w.phases 2 = .ready (parametersTo "new" "two") ⟨0, loginTo "old" "one"⟩ 2
      ∧ ¬ Moment someCalls Free (.initial someProfiles someSecrets)
        (dialActs 0 ++ updateActs ++ pooledActs 2) 2 (loginTo "old" "one"))
    ∧ ∃ w : World Nat, Run (poolStep someCalls) Free (.initial someProfiles someSecrets)
        (dialActs 0 ++ disconnectActs ++ pooledActs 4) w
      ∧ w.phases 4 = .ready (parametersTo "old" "one") ⟨0, loginTo "old" "one"⟩ 2
      ∧ ¬ Renewed someCalls Free (.initial someProfiles someSecrets)
        (dialActs 0 ++ disconnectActs ++ pooledActs 4) "c" 0 := by
  constructor
  · have hreached : ∃ w : World Nat, Run (poolStep someCalls) Free
        (.initial someProfiles someSecrets) (dialActs 0 ++ updateActs ++ pooledActs 2) w
        ∧ w.phases 2 = .ready (parametersTo "new" "two") ⟨0, loginTo "old" "one"⟩ 2 :=
      Run.exists_of_run (by decide +kernel)
    obtain ⟨w, hrun, hready⟩ := hreached
    refine ⟨w, hrun, hready, ?_⟩
    exact Machine.not_happened_of_everyStep (by decide +kernel) not_moment_of_movedOn
  · have hreached : ∃ w : World Nat, Run (poolStep someCalls) Free
        (.initial someProfiles someSecrets) (dialActs 0 ++ disconnectActs ++ pooledActs 4) w
        ∧ w.phases 4 = .ready (parametersTo "old" "one") ⟨0, loginTo "old" "one"⟩ 2 :=
      Run.exists_of_run (by decide +kernel)
    obtain ⟨w, hrun, hready⟩ := hreached
    refine ⟨w, hrun, hready, not_not_intro ?_⟩
    have hmarked : ∃ w : World Nat, Run (poolStep someCalls) Free
        (.initial someProfiles someSecrets) (dialActs 0 ++ [.call 3 .disconnect]) w
        ∧ w.phases 3 = .marked ∧ 0 < w.dials := Run.exists_of_run (by decide +kernel)
    obtain ⟨w₁, hrun₁, hphase, hdials⟩ := hmarked
    exact ⟨_, .call 3 .finish, pooledActs 4, w₁, rfl, hrun₁, ⟨3, rfl, .inr ⟨rfl, hphase⟩⟩, hdials⟩

end FileManager.Ssh.Pool
