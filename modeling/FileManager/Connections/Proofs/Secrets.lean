/-
When the stored connections keep their secrets.

A new secret is stored, and the old one deleted, before the profile is
saved. So the two stores come apart exactly where a call has stored a
secret and its save then fails (`StoresInVain`): the new secret is
nobody's, and an update has deleted the one that the profile still refers
to. Every other call keeps the invariant `Intact`, or changes nothing.
-/
import FileManager.Connections.Service

namespace FileManager.Connections

open Request Nat Option ConnectionDraft
open Function (update_of_ne update_self update_apply)

variable {profile : ConnectionProfile} {id : ConnectionId} {previous : Option CredentialRef}
  {ids : Nat} {other : CredentialRef} {answers : Answers}

-- ==== vocabulary

/-- The stores, and the last secret successfully set for a connection. -/
structure Ledger where
  stores : Stores
  last : ConnectionId → Option SecretMaterial

open Ledger

def Ledger.empty : Ledger := ⟨.empty, fun _ => none⟩

def Call.secret : Call → Option SecretMaterial
  | .create draft | .update _ draft => draft.secret
  | .delete _ => none

/-- The call returns an error. -/
def Request.fails (r : Request) (s : Stores) : Bool :=
  match (r.execute s).1 with
  | .ok _ => false
  | .error _ => true

def Ledger.after (l : Ledger) (r : Request) : Ledger where
  stores := (r.execute l.stores).2
  last :=
    match r.call.secret, (r.execute l.stores).1 with
    | some secret, .ok (some profile) => Function.update l.last profile.id (some secret)
    | _, _ => l.last

/-- Each profile's reference resolves to the secret last set for it, and
each secret is a profile's. -/
structure Kept (l : Ledger) : Prop where
  resolves : ∀ id profile, l.stores.profiles id = some profile →
    ∀ secret, l.last id = some secret →
      ∃ reference, profile.credentialRef = some reference ∧ l.stores.secrets reference = some secret
  referred : ∀ reference secret, l.stores.secrets reference = some secret →
    ∃ id profile, l.stores.profiles id = some profile ∧ profile.credentialRef = some reference

/-- The profiles, and the secrets that they refer to, are as before. -/
structure Unharmed (before after : Stores) : Prop where
  profiles : after.profiles = before.profiles
  secrets : ∀ id profile reference, before.profiles id = some profile →
    profile.credentialRef = some reference → after.secrets reference = before.secrets reference

/-- After each of the calls. -/
def KeepsSecrets (l : Ledger) : List Request → Prop
  | [] => True
  | r :: rest =>
    (Kept (l.after r) ∧ (r.fails l.stores = true → Unharmed l.stores (l.after r).stores))
      ∧ KeepsSecrets (l.after r) rest

/-- The draft passes the checks of a profile. -/
def ConnectionDraft.Valid (draft : ConnectionDraft) : Prop :=
  ConnectionProfile.validate
    { id := 0, name := draft.name, kind := draft.kind, configuration := draft.configuration
      credentialRef := none, createdAt := 0, updatedAt := 0 } = []

/-- The call stores a secret, and its save then fails. -/
def StoresInVain (s : Stores) (r : Request) : Prop :=
  r.answers.save.isSome = true ∧ r.call.secret.isSome = true
    ∧ match r.call with
      | .create draft => draft.Valid
      | .update id draft =>
        draft.Valid ∧ r.answers.load = none ∧ (s.profiles id).isSome = true
      | .delete _ => False

/-- No call of the sequence does. -/
def NeverInVain (s : Stores) : List Request → Prop
  | [] => True
  | r :: rest => ¬ StoresInVain s r ∧ NeverInVain (r.execute s).2 rest

-- ==== invariant

/-- What the calls start from and keep. -/
structure Intact (l : Ledger) : Prop where
  kept : Kept l
  apart : ∀ id id' profile profile' reference, l.stores.profiles id = some profile →
    l.stores.profiles id' = some profile' → profile.credentialRef = some reference →
    profile'.credentialRef = some reference → id = id'
  drawn : ∀ id profile, l.stores.profiles id = some profile → id < l.stores.ids
  told : ∀ id secret, l.last id = some secret → id < l.stores.ids
  refers : ∀ id profile reference, l.stores.profiles id = some profile →
    profile.credentialRef = some reference → reference < l.stores.references
  stored : ∀ reference secret, l.stores.secrets reference = some secret →
    reference < l.stores.references

theorem Intact.empty : Intact .empty := by
  refine ⟨⟨?_, ?_⟩, ?_, ?_, ?_, ?_, ?_⟩
  all_goals
    intros
    contradiction

/-- The reference of the profile that is there. -/
def Stores.referenceOf (s : Stores) (id : ConnectionId) : Option CredentialRef :=
  (s.profiles id).bind fun profile => profile.credentialRef

/-- The secrets once a new one is stored and another deleted. -/
def Stores.renewed (s : Stores) (previous : Option CredentialRef) (secret : SecretMaterial) :
    CredentialRef → Option SecretMaterial :=
  match previous with
  | some previous => ((s.store secret).deleteSecret previous).secrets
  | none => (s.store secret).secrets

variable {l : Ledger} {r : Request} {secret : SecretMaterial}

variable {s : Stores} {reference : CredentialRef}

theorem referenceOf_eq_some :
    s.referenceOf id = some reference
      ↔ ∃ profile, s.profiles id = some profile ∧ profile.credentialRef = some reference := by
  simp only [Stores.referenceOf, bind_eq_some_iff]

theorem renewed_other (hnew : reference ≠ s.references) (hold : previous ≠ some reference) :
    s.renewed previous secret reference = s.secrets reference := by
  cases previous with
  | none => exact update_of_ne hnew _ _
  | some previous =>
    have hne : reference ≠ previous := fun h => hold (h ▸ rfl)
    exact (update_of_ne hne _ _).trans (update_of_ne hnew _ _)

theorem renewed_new (hold : previous ≠ some s.references) :
    s.renewed previous secret s.references = some secret := by
  cases previous with
  | none => exact update_self _ _ _
  | some previous =>
    have hne : s.references ≠ previous := fun h => hold (h ▸ rfl)
    exact (update_of_ne hne _ _).trans (update_self _ _ _)

theorem renewed_old : s.renewed (some reference) secret reference = none := update_self _ _ _

/-- No profile refers to what the next secret is stored under. -/
theorem Intact.fresh (h : Intact l) : l.stores.referenceOf id ≠ some l.stores.references := by
  intro hreference
  obtain ⟨profile, hprofile, href⟩ := referenceOf_eq_some.1 hreference
  exact absurd (h.refers id profile _ hprofile href) (lt_irrefl _)

-- ==== what is kept

/-- Saving a profile with a new secret, in place of the old, keeps the
invariant. -/
theorem Intact.renew (h : Intact l) (hids : l.stores.ids ≤ ids) (hid : profile.id < ids)
    (href : profile.credentialRef = some l.stores.references) :
    Intact
      { stores :=
          { profiles := Function.update l.stores.profiles profile.id (some profile)
            secrets := l.stores.renewed (l.stores.referenceOf profile.id) secret
            ids
            references := l.stores.references + 1 }
        last := Function.update l.last profile.id (some secret) } := by
  -- The other profiles' references are neither the new one nor the old.
  have hother : ∀ id' profile' reference, id' ≠ profile.id →
      l.stores.profiles id' = some profile' → profile'.credentialRef = some reference →
      reference ≠ l.stores.references ∧ l.stores.referenceOf profile.id ≠ some reference := by
    intro id' profile' reference hne hprofile' href'
    refine ⟨Nat.ne_of_lt (h.refers id' profile' reference hprofile' href'), fun hold => hne ?_⟩
    obtain ⟨old, hold, hrefold⟩ := referenceOf_eq_some.1 hold
    exact h.apart id' profile.id profile' old reference hprofile' hold href' hrefold
  refine ⟨⟨?_, ?_⟩, ?_, ?_, ?_, ?_, ?_⟩
  · intro id' profile' hprofile' secret' hlast
    simp only [update_apply] at hprofile' hlast
    split at hprofile'
    case isTrue hsame =>
      cases hprofile'
      rw [if_pos hsame] at hlast
      cases hlast
      exact ⟨_, href, renewed_new h.fresh⟩
    case isFalse hne =>
      rw [if_neg hne] at hlast
      obtain ⟨reference, href', hsecret⟩ := h.kept.resolves id' profile' hprofile' secret' hlast
      obtain ⟨hnew, hold⟩ := hother id' profile' reference hne hprofile' href'
      exact ⟨reference, href', (renewed_other hnew hold).trans hsecret⟩
  · intro reference secret' hsecret
    by_cases hnew : reference = l.stores.references
    · subst hnew
      exact ⟨profile.id, profile, update_self _ _ _, href⟩
    · by_cases hold : l.stores.referenceOf profile.id = some reference
      · rw [hold] at hsecret
        cases renewed_old.symm.trans hsecret
      · obtain ⟨id', profile', hprofile', href'⟩ :=
          h.kept.referred reference secret' ((renewed_other hnew hold).symm.trans hsecret)
        have hne : id' ≠ profile.id := by
          rintro rfl
          exact hold (referenceOf_eq_some.2 ⟨profile', hprofile', href'⟩)
        exact ⟨id', profile', (update_of_ne hne _ _).trans hprofile', href'⟩
  · intro id₁ id₂ profile₁ profile₂ reference h₁ h₂ href₁ href₂
    simp only [update_apply] at h₁ h₂
    split at h₁
    case isTrue hsame₁ =>
      cases h₁
      cases href.symm.trans href₁
      split at h₂
      case isTrue hsame₂ => rw [hsame₁, hsame₂]
      case isFalse hne₂ => exact absurd rfl (hother id₂ profile₂ _ hne₂ h₂ href₂).1
    case isFalse hne₁ =>
      split at h₂
      case isTrue hsame₂ =>
        cases h₂
        cases href.symm.trans href₂
        exact absurd rfl (hother id₁ profile₁ _ hne₁ h₁ href₁).1
      case isFalse hne₂ => exact h.apart id₁ id₂ profile₁ profile₂ reference h₁ h₂ href₁ href₂
  · intro id' profile' hprofile'
    simp only [update_apply] at hprofile'
    split at hprofile'
    case isTrue hsame => exact hsame ▸ hid
    case isFalse => exact lt_of_lt_of_le (h.drawn id' profile' hprofile') hids
  · intro id' secret' hlast
    simp only [update_apply] at hlast
    split at hlast
    case isTrue hsame => exact hsame ▸ hid
    case isFalse => exact lt_of_lt_of_le (h.told id' secret' hlast) hids
  · intro id' profile' reference hprofile' href'
    simp only [update_apply] at hprofile'
    split at hprofile'
    case isTrue =>
      cases hprofile'
      cases href.symm.trans href'
      exact lt_succ_self _
    case isFalse => exact lt_succ_of_lt (h.refers id' profile' reference hprofile' href')
  · intro reference secret' hsecret
    by_cases hnew : reference = l.stores.references
    · exact hnew ▸ lt_succ_self _
    · by_cases hold : l.stores.referenceOf profile.id = some reference
      · rw [hold] at hsecret
        cases renewed_old.symm.trans hsecret
      · exact lt_succ_of_lt
          (h.stored reference secret' ((renewed_other hnew hold).symm.trans hsecret))

/-- So does saving one with the reference it has. -/
theorem Intact.keep (h : Intact l) (hids : l.stores.ids ≤ ids) (hid : profile.id < ids)
    (href : profile.credentialRef = l.stores.referenceOf profile.id)
    (hnew : l.stores.profiles profile.id = none → l.last profile.id = none) :
    Intact
      { stores :=
          { l.stores with
            profiles := Function.update l.stores.profiles profile.id (some profile)
            ids }
        last := l.last } := by
  -- A reference of the new profiles is one of the old.
  have hold : ∀ id' profile' reference,
      Function.update l.stores.profiles profile.id (some profile) id' = some profile' →
      profile'.credentialRef = some reference → l.stores.referenceOf id' = some reference := by
    intro id' profile' reference hprofile' href'
    simp only [update_apply] at hprofile'
    split at hprofile'
    case isTrue hsame =>
      cases hprofile'
      rw [hsame, ← href, href']
    case isFalse => exact referenceOf_eq_some.2 ⟨profile', hprofile', href'⟩
  refine ⟨⟨?_, ?_⟩, ?_, ?_, ?_, ?_, h.stored⟩
  · intro id' profile' hprofile' secret' hlast
    simp only [update_apply] at hprofile'
    split at hprofile'
    case isTrue hsame =>
      cases hprofile'
      subst hsame
      cases hbefore : l.stores.profiles profile.id with
      | none =>
        rw [hnew hbefore] at hlast
        cases hlast
      | some before =>
        obtain ⟨reference, href', hsecret⟩ := h.kept.resolves _ before hbefore secret' hlast
        exact ⟨reference, href.trans (referenceOf_eq_some.2 ⟨before, hbefore, href'⟩), hsecret⟩
    case isFalse => exact h.kept.resolves id' profile' hprofile' secret' hlast
  · intro reference secret' hsecret
    obtain ⟨id', profile', hprofile', href'⟩ := h.kept.referred reference secret' hsecret
    by_cases hsame : id' = profile.id
    · subst hsame
      refine ⟨_, profile, update_self _ _ _, ?_⟩
      exact href.trans (referenceOf_eq_some.2 ⟨profile', hprofile', href'⟩)
    · exact ⟨id', profile', (update_of_ne hsame _ _).trans hprofile', href'⟩
  · intro id₁ id₂ profile₁ profile₂ reference h₁ h₂ href₁ href₂
    obtain ⟨old₁, hold₁, hrefold₁⟩ := referenceOf_eq_some.1 (hold id₁ profile₁ reference h₁ href₁)
    obtain ⟨old₂, hold₂, hrefold₂⟩ := referenceOf_eq_some.1 (hold id₂ profile₂ reference h₂ href₂)
    exact h.apart id₁ id₂ old₁ old₂ reference hold₁ hold₂ hrefold₁ hrefold₂
  · intro id' profile' hprofile'
    simp only [update_apply] at hprofile'
    split at hprofile'
    case isTrue hsame => exact hsame ▸ hid
    case isFalse => exact lt_of_lt_of_le (h.drawn id' profile' hprofile') hids
  · exact fun id' secret' hlast => lt_of_lt_of_le (h.told id' secret' hlast) hids
  · intro id' profile' reference hprofile' href'
    obtain ⟨old, hbefore, hrefold⟩ :=
      referenceOf_eq_some.1 (hold id' profile' reference hprofile' href')
    exact h.refers id' old reference hbefore hrefold

/-- The secrets without that of a profile. -/
def Stores.forgotten (s : Stores) (reference : Option CredentialRef) :
    CredentialRef → Option SecretMaterial :=
  match reference with
  | some reference => (s.deleteSecret reference).secrets
  | none => s.secrets

variable {reference : Option CredentialRef}

theorem forgotten_of_ne
    (hne : reference ≠ some other) : s.forgotten reference other = s.secrets other := by
  cases reference with
  | none => rfl
  | some reference => exact update_of_ne (fun h => hne (congrArg some h.symm)) _ _

theorem forgotten_eq_some (h : s.forgotten reference other = some secret) :
    reference ≠ some other ∧ s.secrets other = some secret := by
  have hne : reference ≠ some other := by
    rintro rfl
    cases h.symm.trans (update_self _ _ _)
  exact ⟨hne, (forgotten_of_ne hne).symm.trans h⟩

/-- So does deleting one with its secret. -/
theorem Intact.remove (h : Intact l) (id : ConnectionId) :
    Intact
      { stores :=
          { l.stores with
            profiles := Function.update l.stores.profiles id none
            secrets := l.stores.forgotten (l.stores.referenceOf id) }
        last := l.last } := by
  have hold : ∀ {id' profile'}, Function.update l.stores.profiles id none id' = some profile' →
      id' ≠ id ∧ l.stores.profiles id' = some profile' := by
    intro id' profile' hprofile'
    simp only [update_apply] at hprofile'
    split at hprofile'
    case isTrue => cases hprofile'
    case isFalse hne => exact ⟨hne, hprofile'⟩
  refine ⟨⟨?_, ?_⟩, ?_, ?_, h.told, ?_, ?_⟩
  · intro id' profile' hprofile' secret' hlast
    obtain ⟨hne, hbefore⟩ := hold hprofile'
    obtain ⟨reference, href, hsecret⟩ := h.kept.resolves id' profile' hbefore secret' hlast
    refine ⟨reference, href, (forgotten_of_ne fun hgone => hne ?_).trans hsecret⟩
    obtain ⟨gone, hgone, hrefgone⟩ := referenceOf_eq_some.1 hgone
    exact h.apart id' id profile' gone reference hbefore hgone href hrefgone
  · intro reference secret' hsecret
    obtain ⟨hkept, hsecret⟩ := forgotten_eq_some hsecret
    obtain ⟨id', profile', hprofile', href⟩ := h.kept.referred reference secret' hsecret
    have hne : id' ≠ id := by
      rintro rfl
      exact hkept (referenceOf_eq_some.2 ⟨profile', hprofile', href⟩)
    exact ⟨id', profile', (update_of_ne hne _ _).trans hprofile', href⟩
  · intro id₁ id₂ profile₁ profile₂ reference h₁ h₂ href₁ href₂
    exact h.apart id₁ id₂ profile₁ profile₂ reference (hold h₁).2 (hold h₂).2 href₁ href₂
  · exact fun id' profile' hprofile' => h.drawn id' profile' (hold hprofile').2
  · exact fun id' profile' reference hprofile' href =>
      h.refers id' profile' reference (hold hprofile').2 href
  · exact fun reference secret' hsecret => h.stored reference secret' (forgotten_eq_some hsecret).2

theorem Intact.draw (h : Intact l) (hids : l.stores.ids ≤ ids) :
    Intact { stores := { l.stores with ids }, last := l.last } :=
  ⟨⟨h.kept.resolves, h.kept.referred⟩, h.apart,
    fun id profile hprofile => lt_of_lt_of_le (h.drawn id profile hprofile) hids,
    fun id secret hlast => lt_of_lt_of_le (h.told id secret hlast) hids, h.refers, h.stored⟩

-- ==== one call

/-- What a call that has stored nothing in vain does. -/
inductive Effect (l : Ledger) : Bool → Ledger → Prop
  | refused (ids : Nat) (hids : l.stores.ids ≤ ids) :
      Effect l true { stores := { l.stores with ids }, last := l.last }
  | renewed (profile : ConnectionProfile) (secret : SecretMaterial) (ids : Nat)
      (hids : l.stores.ids ≤ ids) (hid : profile.id < ids)
      (href : profile.credentialRef = some l.stores.references) :
      Effect l false
        { stores :=
            { profiles := Function.update l.stores.profiles profile.id (some profile)
              secrets := l.stores.renewed (l.stores.referenceOf profile.id) secret
              ids
              references := l.stores.references + 1 }
          last := Function.update l.last profile.id (some secret) }
  | kept (profile : ConnectionProfile) (ids : Nat) (hids : l.stores.ids ≤ ids)
      (hid : profile.id < ids) (href : profile.credentialRef = l.stores.referenceOf profile.id)
      (hnew : l.stores.profiles profile.id = none → l.last profile.id = none) :
      Effect l false
        { stores :=
            { l.stores with
              profiles := Function.update l.stores.profiles profile.id (some profile)
              ids }
          last := l.last }
  | removed (id : ConnectionId) :
      Effect l false
        { stores :=
            { l.stores with
              profiles := Function.update l.stores.profiles id none
              secrets := l.stores.forgotten (l.stores.referenceOf id) }
          last := l.last }

theorem Intact.undrawn (h : Intact l) :
    l.stores.profiles l.stores.ids = none ∧ l.last l.stores.ids = none := by
  constructor
  · cases hprofile : l.stores.profiles l.stores.ids with
    | none => rfl
    | some profile => exact absurd (h.drawn _ profile hprofile) (lt_irrefl _)
  · cases hlast : l.last l.stores.ids with
    | none => rfl
    | some secret => exact absurd (h.told _ secret hlast) (lt_irrefl _)

variable {draft : ConnectionDraft}

theorem validateOrError_of_valid (h : draft.Valid) (profile : ConnectionProfile)
    (hname : profile.name = draft.name) (hkind : profile.kind = draft.kind)
    (hconfiguration : profile.configuration = draft.configuration) :
    validateOrError profile = .ok () := by
  obtain ⟨id, name, kind, configuration, reference, created, updated⟩ := profile
  subst hname hkind hconfiguration
  exact if_pos h

theorem validateOrError_of_not_valid (h : ¬ draft.Valid) (profile : ConnectionProfile)
    (hname : profile.name = draft.name) (hkind : profile.kind = draft.kind)
    (hconfiguration : profile.configuration = draft.configuration) :
    validateOrError profile = .error (.invalid profile.validate) := by
  obtain ⟨id, name, kind, configuration, reference, created, updated⟩ := profile
  subst hname hkind hconfiguration
  exact if_neg h

theorem effect_of_error (hids : l.stores.ids ≤ ids)
    (h : ∃ error, r.execute l.stores = (.error error, { l.stores with ids })) :
    Effect l (r.fails l.stores) (l.after r) := by
  obtain ⟨error, h⟩ := h
  have hfails : r.fails l.stores = true := by rw [fails, h]
  have hafter : l.after r = { stores := { l.stores with ids }, last := l.last } := by
    rw [after, h]
    cases r.call.secret <;> rfl
  rw [hfails, hafter]
  exact .refused ids hids

theorem effect_of_renewal (profile : ConnectionProfile) (hids : l.stores.ids ≤ ids)
    (hid : profile.id < ids) (href : profile.credentialRef = some l.stores.references)
    (hsecret : r.call.secret = some secret) (h : r.execute l.stores = (.ok (some profile),
      { profiles := Function.update l.stores.profiles profile.id (some profile)
        secrets := l.stores.renewed (l.stores.referenceOf profile.id) secret
        ids
        references := l.stores.references + 1 })) :
    Effect l (r.fails l.stores) (l.after r) := by
  have hfails : r.fails l.stores = false := by rw [fails, h]
  rw [hfails, after, h, hsecret]
  exact .renewed profile secret ids hids hid href

theorem effect_of_save (profile : ConnectionProfile) (hids : l.stores.ids ≤ ids)
    (hid : profile.id < ids) (href : profile.credentialRef = l.stores.referenceOf profile.id)
    (hnew : l.stores.profiles profile.id = none → l.last profile.id = none)
    (hsecret : r.call.secret = none) (h : r.execute l.stores = (.ok (some profile), { l.stores with
        profiles := Function.update l.stores.profiles profile.id (some profile)
        ids })) :
    Effect l (r.fails l.stores) (l.after r) := by
  have hfails : r.fails l.stores = false := by rw [fails, h]
  rw [hfails, after, h, hsecret]
  exact .kept profile ids hids hid href hnew

theorem saves_of_not_vain {call : Call} (hvain : ¬ StoresInVain s ⟨call, answers⟩)
    (hsecret : call.secret = some secret)
    (hreaches : StoresInVain s ⟨call, answers⟩ ↔ answers.save.isSome = true
      ∧ call.secret.isSome = true) : answers.save = none := by
  cases hsave : answers.save with
  | none => rfl
  | some error =>
    refine absurd (hreaches.2 ⟨?_, ?_⟩) hvain
    · rw [hsave]
      rfl
    · rw [hsecret]
      rfl

abbrev ConnectionDraft.toProfile (draft : ConnectionDraft) (id : ConnectionId)
    (reference : Option CredentialRef) (createdAt updatedAt : Timestamp) : ConnectionProfile where
  id := id
  name := draft.name
  kind := draft.kind
  configuration := draft.configuration
  credentialRef := reference
  createdAt := createdAt
  updatedAt := updatedAt

/-- A creation that stores no secret in vain is refused or saves. -/
theorem effect_of_create (h : Intact l) (hvain : ¬ StoresInVain l.stores ⟨.create draft, answers⟩) :
    Effect l ((⟨.create draft, answers⟩ : Request).fails l.stores)
      (l.after ⟨.create draft, answers⟩) := by
  obtain ⟨hprofile, hlast⟩ := h.undrawn
  have hreference : l.stores.referenceOf l.stores.ids = none := by
    rw [Stores.referenceOf, hprofile, bind_none]
  have hids := le_succ l.stores.ids
  by_cases hvalid : draft.Valid
  case neg =>
    have hcheck := validateOrError_of_not_valid hvalid
    let profile := draft.toProfile l.stores.ids none answers.now answers.now
    refine effect_of_error hids ⟨.invalid profile.validate, ?_⟩
    simp only [execute, create, hcheck, Except.map, profile]
  case pos =>
    have hcheck := validateOrError_of_valid hvalid
    cases hsecret : draft.secret with
    | none =>
      cases hsave : answers.save with
      | some error =>
        refine effect_of_error hids ⟨error, ?_⟩
        simp only [execute, create, hcheck, hsecret, Stores.save, hsave, Except.map]
      | none =>
        refine effect_of_save (draft.toProfile l.stores.ids none answers.now answers.savedAt) hids
          (lt_succ_self _) hreference.symm (fun _ => hlast) hsecret ?_
        simp only [execute, create, hcheck, hsecret, Stores.save, Stores.persisted, hsave,
          hprofile, Except.map]
    | some secret =>
      have hsave := saves_of_not_vain hvain hsecret (by simp [StoresInVain, hvalid])
      refine effect_of_renewal
        (draft.toProfile l.stores.ids (some l.stores.references) answers.now answers.savedAt) hids
        (lt_succ_self _) rfl hsecret ?_
      simp only [execute, create, hcheck, hsecret, Stores.save, Stores.persisted,
        Stores.store, Stores.renewed, hreference, hsave, hprofile, Except.map]

/-- So is an update, -/
theorem effect_of_update (h : Intact l)
    (hvain : ¬ StoresInVain l.stores ⟨.update id draft, answers⟩) :
    Effect l ((⟨.update id draft, answers⟩ : Request).fails l.stores)
      (l.after ⟨.update id draft, answers⟩) := by
  have hids := le_refl l.stores.ids
  cases hload : answers.load with
  | some error =>
    refine effect_of_error hids ⟨error, ?_⟩
    simp only [execute, update, Stores.get, hload, Except.map]
  | none =>
    cases hprofile : l.stores.profiles id with
    | none =>
      refine effect_of_error hids ⟨.notFound id, ?_⟩
      simp only [execute, update, Stores.get, hload, hprofile, Except.map]
    | some existing =>
      have hreference : l.stores.referenceOf id = existing.credentialRef := by
        rw [Stores.referenceOf, hprofile, bind_some]
      have hid := h.drawn id existing hprofile
      by_cases hvalid : draft.Valid
      case neg =>
        have hcheck := validateOrError_of_not_valid hvalid
        let shown := draft.toProfile id existing.credentialRef existing.createdAt answers.now
        refine effect_of_error hids ⟨.invalid shown.validate, ?_⟩
        simp only [execute, update, Stores.get, hload, hprofile, hcheck, Except.map, shown]
      case pos =>
        have hcheck := validateOrError_of_valid hvalid
        cases hsecret : draft.secret with
        | none =>
          cases hsave : answers.save with
          | some error =>
            refine effect_of_error hids ⟨error, ?_⟩
            simp only [execute, update, Stores.get, hload, hprofile, hcheck, hsecret,
              Stores.save, hsave, Except.map]
          | none =>
            refine effect_of_save
              (draft.toProfile id existing.credentialRef existing.createdAt answers.savedAt)
              hids hid hreference.symm (fun hnone => ?_) hsecret ?_
            · simp [hprofile] at hnone
            · simp only [execute, update, Stores.get, hload, hprofile, hcheck, hsecret,
                Stores.save, Stores.persisted, hsave, Except.map]
        | some secret =>
          have hsave := saves_of_not_vain hvain hsecret
            (by simp [StoresInVain, hvalid, hload, hprofile])
          refine effect_of_renewal
            (draft.toProfile id (some l.stores.references) existing.createdAt answers.savedAt) hids
            hid rfl hsecret ?_
          cases hprevious : existing.credentialRef with
          | none =>
            simp only [execute, update, Stores.get, hload, hprofile, hcheck, hsecret,
              hprevious, Stores.save, Stores.persisted, Stores.store, Stores.renewed, hreference,
              hsave, Except.map]
          | some previous =>
            simp only [execute, update, Stores.get, hload, hprofile, hcheck, hsecret,
              hprevious, Stores.save, Stores.persisted, Stores.store, Stores.deleteSecret,
              Stores.renewed, hreference, hsave, Except.map]

/-- and a deletion always. -/
theorem effect_of_delete :
    Effect l ((⟨.delete id, answers⟩ : Request).fails l.stores)
      (l.after ⟨.delete id, answers⟩) := by
  have hids := le_refl l.stores.ids
  cases hload : answers.load with
  | some error =>
    refine effect_of_error hids ⟨error, ?_⟩
    simp only [execute, delete, Stores.get, hload, Except.map]
  | none =>
    cases hprofile : l.stores.profiles id with
    | none =>
      refine effect_of_error hids ⟨.notFound id, ?_⟩
      simp only [execute, delete, Stores.get, hload, hprofile, Except.map]
    | some existing =>
      cases hdelete : answers.delete with
      | some error =>
        refine effect_of_error hids ⟨error, ?_⟩
        simp only [execute, delete, Stores.get, Stores.delete, hload, hprofile, hdelete, Except.map]
      | none =>
        have hreference : l.stores.referenceOf id = existing.credentialRef := by
          rw [Stores.referenceOf, hprofile, bind_some]
        have hexecute : (⟨.delete id, answers⟩ : Request).execute l.stores
            = (.ok none, { l.stores with
                profiles := Function.update l.stores.profiles id none
                secrets := l.stores.forgotten (l.stores.referenceOf id) }) := by
          rw [hreference]
          cases hprevious : existing.credentialRef with
          | none =>
            simp only [execute, delete, Stores.get, Stores.delete, hload, hprofile, hdelete,
              hprevious, Stores.forgotten, Except.map]
          | some previous =>
            simp only [execute, delete, Stores.get, Stores.delete, hload, hprofile, hdelete,
              hprevious, Stores.forgotten, Stores.deleteSecret, Except.map]
        have hfails : (⟨.delete id, answers⟩ : Request).fails l.stores = false := by
          rw [fails, hexecute]
        rw [hfails, after, hexecute]
        exact .removed id

theorem effect_of_request (h : Intact l) (hvain : ¬ StoresInVain l.stores r) :
    Effect l (r.fails l.stores) (l.after r) := by
  obtain ⟨call, answers⟩ := r
  cases call with
  | create draft => exact effect_of_create h hvain
  | update id draft => exact effect_of_update h hvain
  | delete id => exact effect_of_delete

theorem Effect.intact {l' : Ledger} {failed : Bool} (heffect : Effect l failed l')
    (h : Intact l) : Intact l' ∧ (failed = true → Unharmed l.stores l'.stores) := by
  cases heffect with
  | refused ids hids => exact ⟨h.draw hids, fun _ => ⟨rfl, fun _ _ _ _ _ => rfl⟩⟩
  | renewed profile secret ids hids hid href => exact ⟨h.renew hids hid href, nofun⟩
  | kept profile ids hids hid href hnew => exact ⟨h.keep hids hid href hnew, nofun⟩
  | removed id => exact ⟨h.remove id, nofun⟩

/-- A secret stored in vain stays, and no profile has changed. -/
theorem left_of_vain (h : Intact l) (hvain : StoresInVain l.stores r) :
    (r.execute l.stores).2.profiles = l.stores.profiles
      ∧ ∃ secret, (r.execute l.stores).2.secrets l.stores.references = some secret := by
  obtain ⟨call, answers⟩ := r
  obtain ⟨hfails, hgiven, hreaches⟩ := hvain
  obtain ⟨error, hsave⟩ : ∃ error, answers.save = some error := isSome_iff_exists.1 hfails
  obtain ⟨secret, hsecret⟩ := isSome_iff_exists.1 hgiven
  cases call with
  | create draft =>
    have hsecret : draft.secret = some secret := hsecret
    have hcheck := validateOrError_of_valid hreaches
    simp only [execute, create, hcheck, hsecret, Stores.save, hsave]
    exact ⟨rfl, secret, update_self _ _ _⟩
  | update id draft =>
    obtain ⟨hvalid, hload, hprofile⟩ := hreaches
    obtain ⟨existing, hprofile⟩ := isSome_iff_exists.1 hprofile
    have hsecret : draft.secret = some secret := hsecret
    have hload : answers.load = none := hload
    have hcheck := validateOrError_of_valid hvalid
    simp only [execute, update, Stores.get, hload, hprofile, hcheck, hsecret, Stores.save, hsave]
    cases hprevious : existing.credentialRef with
    | none => exact ⟨rfl, secret, update_self _ _ _⟩
    | some previous =>
      have hold := h.refers id existing previous hprofile hprevious
      refine ⟨rfl, secret, ?_⟩
      exact (update_of_ne (ne_of_gt hold) _ _).trans (update_self _ _ _)
  | delete id => exact hreaches.elim

/-- Nobody refers to it then. -/
theorem not_kept_of_vain (h : Intact l) (hvain : StoresInVain l.stores r) : ¬ Kept (l.after r) := by
  intro hkept
  obtain ⟨hprofiles, secret, hsecret⟩ := left_of_vain h hvain
  obtain ⟨id, profile, hprofile, href⟩ := hkept.referred _ secret hsecret
  have hbefore : l.stores.profiles id = some profile := hprofiles ▸ hprofile
  exact h.fresh (referenceOf_eq_some.2 ⟨profile, hbefore, href⟩)

-- ==== runs

/-- Each profile's reference resolves to the secret last set for it,
each secret is a profile's, and a failed call has changed nothing;
exactly if no call stores a secret in vain. -/
theorem secrets_kept_iff (l : Ledger) (h : Intact l) (requests : List Request) :
    KeepsSecrets l requests ↔ NeverInVain l.stores requests := by
  induction requests generalizing l with
  | nil => exact Iff.rfl
  | cons r rest ih =>
    by_cases hvain : StoresInVain l.stores r
    case pos =>
      constructor
      · intro hkeeps
        exact absurd hkeeps.1.1 (not_kept_of_vain h hvain)
      · intro hnever
        exact absurd hvain hnever.1
    case neg =>
      obtain ⟨hintact, hunharmed⟩ := (effect_of_request h hvain).intact h
      constructor
      · intro hkeeps
        exact ⟨hvain, (ih (l.after r) hintact).1 hkeeps.2⟩
      · intro hnever
        exact ⟨⟨hintact.kept, hunharmed⟩, (ih (l.after r) hintact).2 hnever.2⟩

-- A connection that is given a secret, and then another.

def someDraft (secret : String) : ConnectionDraft where
  name := "nas"
  kind := .smb
  configuration := .smb "server" "share"
  secret := some (.password secret)

def answering (save : Option ConnectionError) : Answers where
  load := none
  save := save
  delete := none
  now := 1
  savedAt := 1

def created : Request := ⟨.create (someDraft "one"), answering none⟩

theorem second_secret_kept :
    KeepsSecrets .empty [created, ⟨.update 0 (someDraft "two"), answering none⟩] := by
  refine (secrets_kept_iff .empty .empty _).2 ⟨?_, ?_, trivial⟩
  · intro hvain
    cases hvain.1
  · intro hvain
    cases hvain.1

def full : Option ConnectionError := some (.io "disk full")

def unsavedUpdate : Request := ⟨.update 0 (someDraft "two"), answering full⟩

def unsavedCreate : Request := ⟨.create (someDraft "one"), answering full⟩

/-- The save of the second one fails: the profile refers to a secret
that is gone. Where the first save fails, its secret is nobody's. -/
theorem old_secret_gone_and_new_nobodys :
    ¬ KeepsSecrets .empty [created, unsavedUpdate]
      ∧ ((empty.after created).after unsavedUpdate).stores.referenceOf 0 = some 0
      ∧ ((empty.after created).after unsavedUpdate).stores.secrets 0 = none
      ∧ ((empty.after created).after unsavedUpdate).stores.secrets 1
        = some (.password "two")
      ∧ ¬ KeepsSecrets .empty [unsavedCreate] := by
  have hsaved : ¬ StoresInVain empty.stores created := fun hvain => nomatch hvain.1
  have hcreated : Intact (empty.after created) :=
    ((effect_of_request .empty hsaved).intact .empty).1
  refine ⟨fun hkeeps => ?_, by decide, by decide, by decide, fun hkeeps => ?_⟩
  · refine not_kept_of_vain hcreated ⟨rfl, rfl, ?_⟩ hkeeps.2.1.1
    exact ⟨show Valid _ by unfold Valid; decide, rfl, by decide⟩
  · refine not_kept_of_vain .empty ⟨rfl, rfl, ?_⟩ hkeeps.1.1
    show Valid _
    unfold Valid
    decide

end FileManager.Connections
