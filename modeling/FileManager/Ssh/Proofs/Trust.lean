/-
Which hosts get a credential, and what the known-hosts file says of the
other connections when one is accepted.

That a connection is authenticated only under a fingerprint that was
accepted for it holds in every run: the verdict of `check_server_key`
and the entries that an accept writes back all come from earlier accepts
(`Backed`). The file is read and replaced as a whole, so an accept also
writes what it read of the other connections. Where that is what the
file has (`Apart`), an accept changes its own connection alone, and what
is known stays known (`Known`).
-/
import FileManager.Ssh.HostKeys

namespace FileManager.Ssh

open Machine (Run Free Happened)

variable {ι : Type} [DecidableEq ι] {calls : ι → Call} {ok : Hosts ι → Action ι → Prop}
  {s s' : Hosts ι} {a : Action ι} {acts : List (Action ι)} {phase : Phase} {act : Act} {i : ι}
  {call : Call} {file : Entries} {fingerprint id : String} {found : Lookup}
  {accepted : String → String → Prop} {presented presented' : String → Prop}

-- ==== steps

/-- An accept replaces the file. -/
structure Writes (calls : ι → Call) (id fingerprint : String) (s : Hosts ι) (a : Action ι)
    (policy : HostKeyPolicy) (entries : Entries) : Prop where
  call : calls a.call = .accept id fingerprint
  act : a.act = .writeAll none
  storing : s.phases a.call = .storing policy entries

/-- How a call goes on without a change of the file. -/
inductive Moves (file : Entries) (call : Call) (act : Act) : Phase → Phase → Prop
  | connects {phase : Phase} (profile : Profile) :
      Moves file call act phase (.connecting profile)
  | presents {phase : Phase} (profile : Profile) (fingerprint : String)
      (hact : act = .present fingerprint) :
      Moves file call act phase (.presented profile fingerprint)
  | returns {phase : Phase} (result : Except CallError (Option HostKeyVerification)) :
      Moves file call act phase (.returned result)
  | checks (profile : Profile) (fingerprint : String) (found : Lookup) :
      Moves file call act (.presented profile fingerprint) (.checked profile fingerprint
          (checkServerKey (lookup file call.id found) fingerprint))
  | authenticates {id : String} (profile : Profile) (fingerprint stored : String)
      (hcall : call = .connect id) :
      Moves file call act (.checked profile fingerprint (.trusted stored))
        (.authenticating fingerprint)
  | verifies (profile : Profile) (fingerprint : String) (verification : HostKeyVerification) :
      Moves file call act (.checked profile fingerprint verification)
        (.verified profile.hostKeyPolicy verification)
  | reads {id fingerprint : String} (policy : HostKeyPolicy) (verification : HostKeyVerification)
      (reading : Reading) (hcall : call = .accept id fingerprint)
      (hacceptable : acceptable policy fingerprint verification = .ok ()) :
      Moves file call act (.verified policy verification) (.storing policy (readAll file reading))

theorem moves_afterFailure (file : Entries) (call : Call) (act : Act) (phase : Phase)
    (policy : HostKeyPolicy) {error : SshError}
    (hunverified : ∀ fingerprint, error ≠ .hostKeyUnverified fingerprint)
    (hmismatch : ∀ fingerprint expected, error ≠ .hostKeyMismatch fingerprint expected) :
    Moves file call act phase (call.afterFailure policy error) := by
  have hprobe : probeHostKey (.error error) = .error error := by
    cases error with
    | hostKeyUnverified fingerprint => exact absurd rfl (hunverified fingerprint)
    | hostKeyMismatch fingerprint expected => exact absurd rfl (hmismatch fingerprint expected)
    | _ => rfl
  cases call with
  | connect id => exact .returns _
  | probe id | accept id fingerprint =>
    simp only [Call.afterFailure, hprobe, Call.afterProbe]
    exact .returns _

theorem moves_reject (file : Entries) (call : Call) (act : Act) (profile : Profile)
    (fingerprint : String) (verification : HostKeyVerification) :
    Moves file call act (.checked profile fingerprint verification)
      (call.afterFailure profile.hostKeyPolicy
        (hostKeyOrConnectError (some verification) profile.host profile.port)) := by
  cases verification with
  | trusted stored =>
    exact moves_afterFailure file call act _ _ (fun _ h => by cases h) (fun _ _ h => by cases h)
  | unverified presented | mismatch presented expected =>
    cases call with
    | accept id argument => exact .verifies profile fingerprint _
    | _ => exact .returns _

theorem moves_reject_unchecked (file : Entries) (call : Call) (act : Act) (phase : Phase)
    (profile : Profile) :
    Moves file call act phase (call.afterFailure profile.hostKeyPolicy
      (hostKeyOrConnectError none profile.host profile.port)) :=
  moves_afterFailure file call act _ _ (fun _ h => by cases h) (fun _ _ h => by cases h)

theorem moves_timeOut (file : Entries) (call : Call) (act : Act) (phase : Phase)
    (profile : Profile) :
    Moves file call act phase (call.afterFailure profile.hostKeyPolicy
      (.timeout profile.host profile.port)) :=
  moves_afterFailure file call act _ _ (fun _ h => by cases h) (fun _ _ h => by cases h)

theorem moves_complete (file : Entries) (call : Call) (act : Act) (profile : Profile)
    (fingerprint stored : String) :
    Moves file call act (.checked profile fingerprint (.trusted stored))
      (call.afterCompletion profile.hostKeyPolicy fingerprint (.trusted stored)) := by
  cases call with
  | connect id => exact .authenticates profile fingerprint stored rfl
  | probe id => exact .returns _
  | accept id argument => exact .verifies profile fingerprint _

theorem connectStep_cases (h : connectStep calls i s act phase = some s') :
    ∃ phase', Moves s.file (calls i) act phase phase' ∧ s' = s.enter i phase' := by
  unfold connectStep at h
  split at h
  · cases h
    exact ⟨_, .returns _, rfl⟩
  · cases h
    exact ⟨_, .connects _, rfl⟩
  · cases h
    exact ⟨_, .presents _ _ rfl, rfl⟩
  · cases h
    exact ⟨_, .checks _ _ _, rfl⟩
  · cases h
    exact ⟨_, moves_complete _ _ _ _ _ _, rfl⟩
  · cases h
    exact ⟨_, moves_reject_unchecked _ _ _ _ _, rfl⟩
  · cases h
    exact ⟨_, moves_reject_unchecked _ _ _ _ _, rfl⟩
  · cases h
    exact ⟨_, moves_reject _ _ _ _ _ _, rfl⟩
  · cases h
    exact ⟨_, moves_timeOut _ _ _ _ _, rfl⟩
  · cases h
    exact ⟨_, moves_timeOut _ _ _ _ _, rfl⟩
  · cases h
    exact ⟨_, moves_timeOut _ _ _ _ _, rfl⟩
  · cases h

theorem storeStep_cases (h : storeStep i s act phase call = some s') :
    (∃ phase', Moves s.file call act phase phase' ∧ s' = s.enter i phase')
    ∨ ∃ id fingerprint policy entries, call = .accept id fingerprint ∧ act = .writeAll none
      ∧ phase = .storing policy entries
      ∧ s' = { s with file := Keyed.put entries id fingerprint }.enter i
        (.returned (.ok none)) := by
  unfold storeStep at h
  split at h
  · cases h
    exact .inl ⟨_, .returns _, rfl⟩
  · split at h
    · cases h
      exact .inl ⟨_, .returns _, rfl⟩
    · next hacceptable =>
      cases h
      exact .inl ⟨_, .reads _ _ _ rfl hacceptable, rfl⟩
  · cases h
    exact .inr ⟨_, _, _, _, rfl, rfl, rfl, rfl⟩
  · cases h
    exact .inl ⟨_, .returns _, rfl⟩
  · cases h

theorem hostStep_cases (h : hostStep calls a s = some s') :
    (∃ phase, Moves s.file (calls a.call) a.act (s.phases a.call) phase ∧ s' = s.enter a.call phase)
    ∨ ∃ id fingerprint policy entries, Writes calls id fingerprint s a policy entries
      ∧ s' = { s with file := Keyed.put entries id fingerprint }.enter a.call
        (.returned (.ok none)) := by
  unfold hostStep at h
  split at h
  case h_1 s₁ hconnect =>
    cases h
    exact .inl (connectStep_cases hconnect)
  case h_2 =>
    rcases storeStep_cases h with hmoves | hwrites
    · exact .inl hmoves
    · obtain ⟨id, fingerprint, policy, entries, hcall, hact, hphase, hs⟩ := hwrites
      exact .inr ⟨id, fingerprint, policy, entries, ⟨hcall, hact, hphase⟩, hs⟩

-- ==== acceptance

/-- An accept of the connection, with exactly this fingerprint, has
stored it. -/
def Accepted (calls : ι → Call) (ok : Hosts ι → Action ι → Prop) (acts : List (Action ι))
    (id fingerprint : String) : Prop :=
  Happened (hostStep calls) ok .initial acts fun s a =>
    ∃ policy entries, Writes calls id fingerprint s a policy entries

/-- What a phase says is trusted has been accepted. -/
def Phase.Backed (accepted : String → String → Prop) (id : String) : Phase → Prop
  | .checked _ fingerprint (.trusted stored) => stored = fingerprint ∧ accepted id fingerprint
  | .authenticating fingerprint => accepted id fingerprint
  | .storing _ entries => ∀ id fingerprint, Keyed.get entries id = some fingerprint →
      accepted id fingerprint
  | _ => True

/-- So does all that the file and the calls have. -/
structure Backed (calls : ι → Call) (accepted : String → String → Prop) (s : Hosts ι) :
    Prop where
  file : ∀ id fingerprint, Keyed.get s.file id = some fingerprint → accepted id fingerprint
  phases : ∀ i, (s.phases i).Backed accepted (calls i).id

theorem checkServerKey_stored (stored presented : String) :
    checkServerKey (.ok (some stored)) presented
      = if stored = presented then .trusted presented else .mismatch presented stored := rfl

theorem trusted_of_checkServerKey {found : Except SshError (Option String)}
    {presented stored : String} (h : checkServerKey found presented = .trusted stored) :
    stored = presented ∧ found = .ok (some presented) := by
  cases found with
  | error error => cases h
  | ok found =>
    cases found with
    | none => cases h
    | some key =>
      rw [checkServerKey_stored] at h
      split at h
      case isTrue hsame =>
        cases h
        exact ⟨rfl, by rw [hsame]⟩
      case isFalse => cases h

theorem lookup_ok (h : lookup file id found = .ok (some fingerprint)) :
    Keyed.get file id = some fingerprint := by
  cases found with
  | fails error => cases h
  | file reading =>
    cases reading with
    | current => exact Except.ok.inj h
    | empty => cases h

variable {phase' : Phase}

theorem Backed.moves
    (hfile : ∀ id fingerprint, Keyed.get file id = some fingerprint → accepted id fingerprint)
    (hphase : phase.Backed accepted call.id) (h : Moves file call act phase phase') :
    phase'.Backed accepted call.id := by
  cases h with
  | authenticates profile fingerprint stored hcall => exact hphase.2
  | checks profile fingerprint found =>
    cases hverification : checkServerKey (lookup file call.id found) fingerprint with
    | trusted stored =>
      obtain ⟨hsame, hfound⟩ := trusted_of_checkServerKey hverification
      exact ⟨hsame, hfile _ _ (lookup_ok hfound)⟩
    | _ => trivial
  | reads policy verification reading hcall hacceptable =>
    intro id fingerprint hget
    cases reading with
    | current => exact hfile id fingerprint hget
    | empty => cases hget
  | _ => trivial

omit [DecidableEq ι] in
theorem Backed.mono {accepted' : String → String → Prop} (hbacked : Backed calls accepted s)
    (h : ∀ id fingerprint, accepted id fingerprint → accepted' id fingerprint) :
    Backed calls accepted' s := by
  refine ⟨fun id fingerprint hget => h _ _ (hbacked.file id fingerprint hget), fun i => ?_⟩
  have hphase := hbacked.phases i
  cases hcase : s.phases i with
  | checked profile fingerprint verification =>
    rw [hcase] at hphase
    cases verification with
    | trusted stored => exact ⟨hphase.1, h _ _ hphase.2⟩
    | _ => trivial
  | authenticating fingerprint =>
    rw [hcase] at hphase
    exact h _ _ hphase
  | storing policy entries =>
    rw [hcase] at hphase
    exact fun id fingerprint hget => h _ _ (hphase id fingerprint hget)
  | _ => trivial

theorem Backed.enter (hbacked : Backed calls accepted s)
    (h : phase.Backed accepted (calls i).id) : Backed calls accepted (s.enter i phase) := by
  refine ⟨hbacked.file, fun j => ?_⟩
  by_cases hsame : j = i
  · subst hsame
    rw [enter_self]
    exact h
  · rw [enter_of_ne hsame]
    exact hbacked.phases j

theorem backed_of_run (hrun : Run (hostStep calls) ok .initial acts s) :
    Backed calls (Accepted calls ok acts) s := by
  refine Run.invariant_trace (P := fun acts s => Backed calls (Accepted calls ok acts) s) ?_ ?_ hrun
  · exact ⟨fun id fingerprint hget => absurd hget (by simp [Hosts.initial, Keyed.get]),
      fun i => trivial⟩
  intro acts s s' a hbefore hok hstep hbacked
  have hmore := hbacked.mono fun id fingerprint hcase => Happened.concat hcase a
  rcases hostStep_cases hstep with ⟨phase, hmoves, rfl⟩
    | ⟨id, fingerprint, policy, entries, hw, rfl⟩
  · exact hmore.enter (Backed.moves hmore.file (hmore.phases a.call) hmoves)
  · refine Backed.enter ⟨fun other stored hget => ?_, hmore.phases⟩ trivial
    have hentries := hmore.phases a.call
    rw [hw.storing] at hentries
    rw [Keyed.get_put] at hget
    split at hget
    case isTrue hid =>
      cases hget
      subst hid
      exact hbefore.happened ⟨policy, entries, hw⟩
    case isFalse => exact hentries other stored hget

/-- The key that a connection is checked by is one that its server has
presented. -/
def Phase.Presented (presented : String → Prop) : Phase → Prop
  | .presented _ fingerprint | .checked _ fingerprint _ | .authenticating fingerprint =>
    presented fingerprint
  | _ => True

theorem Phase.Presented.moves (hphase : phase.Presented presented)
    (hstays : ∀ fingerprint, presented fingerprint → presented' fingerprint)
    (hact : ∀ fingerprint, act = .present fingerprint → presented' fingerprint)
    (h : Moves file call act phase phase') : phase'.Presented presented' := by
  cases h with
  | presents profile fingerprint hpresent => exact hact fingerprint hpresent
  | authenticates profile fingerprint stored hcall | checks profile fingerprint found =>
    exact hstays _ hphase
  | _ => trivial

theorem Phase.Presented.mono (hphase : phase.Presented presented)
    (h : ∀ fingerprint, presented fingerprint → presented' fingerprint) :
    phase.Presented presented' := by
  cases phase with
  | presented profile fingerprint | checked profile fingerprint verification
  | authenticating fingerprint => exact h _ hphase
  | _ => trivial

theorem presented_of_run (hrun : Run (hostStep calls) ok .initial acts s) (i : ι) :
    (s.phases i).Presented fun fingerprint => ⟨i, .present fingerprint⟩ ∈ acts := by
  revert i
  refine Run.invariant_trace (P := fun acts s => ∀ i, (s.phases i).Presented
    fun fingerprint => ⟨i, .present fingerprint⟩ ∈ acts) ?_ ?_ hrun
  · exact fun i => trivial
  intro acts s s' a hbefore hok hstep hpresented i
  have hmore := (hpresented i).mono fun fingerprint hmem => List.mem_append_left [a] hmem
  rcases hostStep_cases hstep with ⟨phase, hmoves, rfl⟩
    | ⟨id, fingerprint, policy, entries, hw, rfl⟩
  · by_cases hsame : i = a.call
    · subst hsame
      rw [enter_self]
      refine hmore.moves (fun _ h => h) (fun fingerprint hact => ?_) hmoves
      simp [← hact]
    · rw [enter_of_ne hsame]
      exact hmore
  · by_cases hsame : i = a.call
    · subst hsame
      rw [enter_self]
      trivial
    · rw [enter_of_ne hsame]
      exact hmore

-- ==== known hosts

/-- What is written of the other connections is what the file has. -/
def Apart (calls : ι → Call) (s : Hosts ι) (a : Action ι) : Prop :=
  ∀ id fingerprint policy entries, Writes calls id fingerprint s a policy entries →
    ∀ other, other ≠ id → Keyed.get entries other = Keyed.get s.file other

/-- A connection that has been found in the file. -/
def HostKeyVerification.IsKnown : HostKeyVerification → Prop
  | .unverified _ => False
  | _ => True

/-- What a phase takes to be in the file. -/
def Phase.Known (present : Prop) : Phase → Prop
  | .checked _ _ verification | .verified _ verification => verification.IsKnown → present
  | .storing .requireKnownHost _ => present
  | _ => True

theorem known_of_checkServerKey {presented : String}
    (h : (checkServerKey (lookup file id found) presented).IsKnown) : Keyed.get file id ≠ none := by
  cases hfound : lookup file id found with
  | error error =>
    rw [hfound] at h
    exact h.elim
  | ok stored =>
    rw [hfound] at h
    cases stored with
    | none => exact h.elim
    | some stored => simp [lookup_ok hfound]

theorem known_of_acceptable {policy : HostKeyPolicy} {verification : HostKeyVerification}
    (h : acceptable policy fingerprint verification = .ok ()) (hpolicy : policy
      = .requireKnownHost) :
    verification.IsKnown := by
  subst hpolicy
  cases verification with
  | unverified presented =>
    unfold acceptable at h
    split at h <;> cases h
  | _ => trivial

theorem Phase.Known.moves (hphase : phase.Known (Keyed.get file call.id ≠ none))
    (h : Moves file call act phase phase') : phase'.Known (Keyed.get file call.id ≠ none) := by
  cases h with
  | checks profile fingerprint found => exact known_of_checkServerKey
  | verifies profile fingerprint verification => exact hphase
  | reads policy verification reading hcall hacceptable =>
    cases policy with
    | promptOnFirstUse => trivial
    | requireKnownHost => exact hphase (known_of_acceptable hacceptable rfl)
  | _ => trivial

theorem Phase.Known.mono {present present' : Prop} (hphase : phase.Known present)
    (h : present → present') : phase.Known present' := by
  cases phase with
  | checked profile fingerprint verification | verified policy verification =>
    exact fun hknown => h (hphase hknown)
  | storing policy entries =>
    cases policy with
    | promptOnFirstUse => trivial
    | requireKnownHost => exact h hphase
  | _ => trivial

omit [DecidableEq ι] in
theorem get_write_ne_none {entries : Entries}
    (hapart : ∀ other, other ≠ id → Keyed.get entries other = Keyed.get s.file other)
    {other : String} (h : Keyed.get s.file other ≠ none) :
    Keyed.get (Keyed.put entries id fingerprint) other ≠ none := by
  rw [Keyed.get_put]
  split
  case isTrue => simp
  case isFalse hne =>
    rw [hapart other hne]
    exact h

theorem known_of_run (hrun : Run (hostStep calls) (Apart calls) .initial acts s) (i : ι) :
    (s.phases i).Known (Keyed.get s.file (calls i).id ≠ none) := by
  revert i
  refine Run.invariant
    (P := fun s => ∀ i, (s.phases i).Known (Keyed.get s.file (calls i).id ≠ none)) ?_ ?_ hrun
  · exact fun i => trivial
  intro s s' a hapart hstep hknown i
  rcases hostStep_cases hstep with ⟨phase, hmoves, rfl⟩
    | ⟨id, fingerprint, policy, entries, hw, rfl⟩
  · by_cases hsame : i = a.call
    · subst hsame
      rw [enter_self, enter_file]
      exact (hknown a.call).moves hmoves
    · rw [enter_of_ne hsame, enter_file]
      exact hknown i
  · by_cases hsame : i = a.call
    · subst hsame
      rw [enter_self]
      trivial
    · rw [enter_of_ne hsame, enter_file]
      exact (hknown i).mono (get_write_ne_none (hapart id fingerprint policy entries hw))

-- ==== trust

/-- Only an accept of a connection changes what is trusted for it, to its
argument, and under `RequireKnownHost` only if there was something. -/
structure Guarded (calls : ι → Call) (s : Hosts ι) (a : Action ι) (s' : Hosts ι) : Prop where
  added : ∀ id fingerprint, Keyed.get s'.file id = some fingerprint →
    Keyed.get s.file id = some fingerprint
      ∨ ∃ policy entries, Writes calls id fingerprint s a policy entries
  known : ∀ id fingerprint entries,
    Writes calls id fingerprint s a .requireKnownHost entries → Keyed.get s.file id ≠ none

theorem guarded_of_run (hrun : Run (hostStep calls) (Apart calls) .initial acts s)
    (hapart : Apart calls s a) (hstep : hostStep calls a s = some s') : Guarded calls s a s' := by
  constructor
  · intro id fingerprint hget
    rcases hostStep_cases hstep with ⟨phase, hmoves, rfl⟩ | ⟨stored, key, policy, entries, hw, rfl⟩
    · exact .inl hget
    · rw [enter_file, Keyed.get_put] at hget
      split at hget
      case isTrue hid =>
        cases hget
        subst hid
        exact .inr ⟨policy, entries, hw⟩
      case isFalse hne =>
        rw [hapart stored key policy entries hw id hne] at hget
        exact .inl hget
  · intro id fingerprint entries hw
    have hknown := known_of_run hrun a.call
    rw [hw.storing, hw.call] at hknown
    exact hknown

/-- In every run, a connection is authenticated only under a fingerprint
that was presented on it and accepted for it. Where accepts write apart,
nothing else is trusted, and `RequireKnownHost` stores none for a
connection without one. -/
theorem credentials_go_to_accepted_hosts (calls : ι → Call) :
    (∀ (ok : Hosts ι → Action ι → Prop) (acts : List (Action ι)) (s : Hosts ι),
      Run (hostStep calls) ok .initial acts s →
      ∀ i fingerprint, s.phases i = .authenticating fingerprint →
        ⟨i, .present fingerprint⟩ ∈ acts ∧ Accepted calls ok acts (calls i).id fingerprint)
    ∧ ∀ (acts : List (Action ι)) (s : Hosts ι), Run (hostStep calls) (Apart calls) .initial acts s →
      ∀ (a : Action ι) (s' : Hosts ι), Apart calls s a → hostStep calls a s = some s' →
        Guarded calls s a s' := by
  constructor
  · intro ok acts s hrun i fingerprint hphase
    have hpresented := presented_of_run hrun i
    have hbacked := (backed_of_run hrun).phases i
    rw [hphase] at hpresented hbacked
    exact ⟨hpresented, hbacked⟩
  · exact fun acts s hrun a s' hapart hstep => guarded_of_run hrun hapart hstep

-- Three accepts and a connect.

/-- What the calls load. -/
def someProfile (policy : HostKeyPolicy) : Profile := ⟨"host", 22, policy⟩

def someCalls : Nat → Call
  | 0 => .accept "c" "f"
  | 1 => .accept "d" "g"
  | 2 => .accept "c" "h"
  | _ => .connect "c"

/-- The probe of an accept, whose key is not trusted, and the look into
the file. -/
def acceptActs (i : Nat) (policy : HostKeyPolicy) (fingerprint : String) : List (Action Nat) :=
  [⟨i, .load (some (someProfile policy))⟩, ⟨i, .present fingerprint⟩,
    ⟨i, .checkServerKey (.file .current)⟩, ⟨i, .reject⟩, ⟨i, .readAll .current⟩]

def connectActs (i : Nat) (fingerprint : String) : List (Action Nat) :=
  [⟨i, .load (some (someProfile .requireKnownHost))⟩, ⟨i, .present fingerprint⟩,
    ⟨i, .checkServerKey (.file .current)⟩, ⟨i, .complete⟩]

theorem accepted_then_authenticated :
    Accepted someCalls Free
        (acceptActs 0 .promptOnFirstUse "f" ++ [⟨0, .writeAll none⟩] ++ connectActs 3 "f") "c" "f"
      ∧ ∃ s s' : Hosts Nat, Keyed.get s.file "c" = none ∧ Keyed.get s'.file "c" = some "f"
        ∧ Guarded someCalls s ⟨0, .writeAll none⟩ s' := by
  constructor
  · have hreached : ∃ s : Hosts Nat, Run (hostStep someCalls) Free .initial
        (acceptActs 0 .promptOnFirstUse "f" ++ [⟨0, .writeAll none⟩] ++ connectActs 3 "f") s
          ∧ s.phases 3 = .authenticating "f" := Run.exists_of_run (by decide +kernel)
    obtain ⟨s, hrun, hphase⟩ := hreached
    exact ((credentials_go_to_accepted_hosts someCalls).1 Free _ s hrun 3 "f" hphase).2
  · have hreached : ∃ s : Hosts Nat, Run (hostStep someCalls) Free .initial
        (acceptActs 0 .promptOnFirstUse "f") s
          ∧ s.file = [] ∧ s.phases 0 = .storing .promptOnFirstUse [] :=
      Run.exists_of_run (by decide +kernel)
    obtain ⟨s, hrun, hfile, hphase⟩ := hreached
    have hbefore : Run (hostStep someCalls) (Apart someCalls) .initial
        (acceptActs 0 .promptOnFirstUse "f") s := by
      refine hrun.of_forall fun a ha s' id fingerprint policy entries hw => ?_
      have hnone : ∀ a ∈ acceptActs 0 .promptOnFirstUse "f", a.act ≠ .writeAll none := by decide
      exact absurd hw.act (hnone a ha)
    have hapart : Apart someCalls s ⟨0, .writeAll none⟩ := by
      intro id fingerprint policy entries hw other _
      have hstoring := hw.storing
      rw [hphase] at hstoring
      cases hstoring
      rw [hfile]
    have hstep : hostStep someCalls ⟨0, .writeAll none⟩ s
        = some ({ s with file := [("c", "f")] }.enter 0 (.returned (.ok none))) := by
      simp only [hostStep, hphase]
      rfl
    have hnone : Keyed.get s.file "c" = none := by
      rw [hfile]
      rfl
    have hguarded := (credentials_go_to_accepted_hosts someCalls).2 _ s hbefore _ _ hapart hstep
    exact ⟨s, _, hnone, rfl, hguarded⟩

/-- The accept of another connection, which has read the file before,
drops what is accepted. -/
theorem stale_write_drops_known_host :
    ∃ s s' : Hosts Nat, Run (hostStep someCalls) Free .initial
        (acceptActs 1 .promptOnFirstUse "g" ++ acceptActs 0 .promptOnFirstUse "f"
          ++ [⟨0, .writeAll none⟩] ++ acceptActs 2 .requireKnownHost "h"
          ++ [⟨1, .writeAll none⟩]) s
      ∧ hostStep someCalls ⟨2, .writeAll none⟩ s = some s'
      ∧ Keyed.get s.file "c" = none ∧ Keyed.get s'.file "c" = some "h"
      ∧ ¬ Guarded someCalls s ⟨2, .writeAll none⟩ s' := by
  have hreached : ∃ s : Hosts Nat, Run (hostStep someCalls) Free .initial
      (acceptActs 1 .promptOnFirstUse "g" ++ acceptActs 0 .promptOnFirstUse "f"
        ++ [⟨0, .writeAll none⟩] ++ acceptActs 2 .requireKnownHost "h"
        ++ [⟨1, .writeAll none⟩]) s
      ∧ s.file = [("d", "g")] ∧ s.phases 2 = .storing .requireKnownHost [("c", "f")] :=
    Run.exists_of_run (by decide +kernel)
  obtain ⟨s, hrun, hfile, hphase⟩ := hreached
  have hnone : Keyed.get s.file "c" = none := by
    rw [hfile]
    rfl
  have hstep : hostStep someCalls ⟨2, .writeAll none⟩ s
      = some ({ s with file := [("c", "h")] }.enter 2 (.returned (.ok none))) := by
    simp only [hostStep, hphase]
    rfl
  exact ⟨s, _, hrun, hstep, hnone, rfl, fun h => h.known "c" "h" _ ⟨rfl, rfl, hphase⟩ hnone⟩

end FileManager.Ssh
