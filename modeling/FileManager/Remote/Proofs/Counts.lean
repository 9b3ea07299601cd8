/-
When the nonce counts of Digest authentication do not repeat.

An entry of the cache counts its own requests, whoever makes them and
whether or not it is in the cache still. So the counts that go with a
nonce are those of one entry, one after another from 1, as long as no
second entry is made with the same nonce (`Fresh`) and no count goes round.
-/
import FileManager.Remote.Digest

namespace FileManager.WebDav.Digest

open Machine (Run Free)
open List Provider

-- ==== vocabulary

variable {ι : Type} {calls : ι → Call} {s s' : Provider ι} {a : Action ι}

/-- The pairs that the requests have carried, in the order of counting. -/
def Provider.carried (s : Provider ι) : List (String × Nat) := s.sent.filterMap Sent.pair

/-- The counts that have gone with a nonce. -/
def Provider.used (s : Provider ι) (nonce : String) : List Nat :=
  (s.carried.filter fun pair => pair.1 = nonce).map Prod.snd

/-- The challenge that a call is about to answer. -/
def Phase.challenge? : Phase → Option DigestChallenge
  | .challenged _ challenge => some challenge
  | _ => none

/-- The entry that a call is about to count. -/
def Phase.held : Phase → Option Nat
  | .holding _ entry => some entry
  | .uploading entry => entry
  | _ => none

/-- No challenge is answered whose nonce an earlier one had, and no count
goes round. -/
def Fresh (s : Provider ι) (a : Action ι) : Prop :=
  (a.act = .install → ∀ challenge ∈ (s.phases a.call).challenge?, ∀ cached ∈ s.entries,
      cached.challenge.qop.isSome = true → challenge.qop.isSome = true →
      cached.challenge.nonce ≠ challenge.nonce)
    ∧ (a.act = .count → ∀ entry ∈ (s.phases a.call).held, ∀ cached ∈ s.entries[entry]?,
      cached.challenge.qop.isSome = true → cached.nonceCount + 1 < 2 ^ 32)

instance (s : Provider ι) (a : Action ι) : Decidable (Fresh s a) :=
  inferInstanceAs (Decidable (_ ∧ _))

-- ==== one step

/-- What a fresh step does to the entries and to what is sent. -/
inductive Effect (s s' : Provider ι) : Prop
  | rests (hentries : s'.entries = s.entries) (hsent : s'.sent = s.sent)
  | counts (entry : Nat) (cached : CachedDigest) (hentry : s.entries[entry]? = some cached)
      (hsmall : cached.challenge.qop.isSome = true → cached.nonceCount + 1 < 2 ^ 32)
      (hentries : s'.entries = (s.count entry cached).entries)
      (hsent : s'.sent = (s.count entry cached).sent)
  | installs (cacheKey : String) (challenge : DigestChallenge)
      (hfresh : ∀ cached ∈ s.entries, cached.challenge.qop.isSome = true →
        challenge.qop.isSome = true → cached.challenge.nonce ≠ challenge.nonce)
      (hentries : s'.entries = (s.install cacheKey challenge).entries)
      (hsent : s'.sent = (s.install cacheKey challenge).sent)

theorem effect_of_step [DecidableEq ι] (hfresh : Fresh s a) (h : callStep calls a s = some s') :
    Effect s s' := by
  obtain ⟨i, act⟩ := a
  obtain ⟨hanswers, hcounts⟩ := hfresh
  simp only [callStep] at h
  split at h
  case h_3 purpose entry hphase | h_12 entry hphase =>
    have hsmall := hcounts rfl entry (by rw [hphase]; rfl)
    cases hentry : s.entries[entry]? with
    | none =>
      simp [hentry] at h
    | some cached =>
      rw [hentry] at h
      cases h
      exact .counts entry cached hentry (hsmall cached hentry) rfl rfl
  case h_8 purpose challenge hphase =>
    have hfresh := hanswers rfl challenge (by rw [hphase]; rfl)
    cases h
    exact .installs (calls i).cacheKey challenge hfresh rfl rfl
  case h_14 => cases h
  case h_1 | h_2 =>
    split at h <;>
      · cases h
        exact .rests rfl rfl
  all_goals
    cases h
    exact .rests rfl rfl

-- ==== invariant

/-- The counts of each entry are those of its nonce, from 1 on. -/
structure Counted (s : Provider ι) : Prop where
  apart : ∀ (e e' : Nat) (c c' : CachedDigest), s.entries[e]? = some c →
    s.entries[e']? = some c' → c.challenge.qop.isSome = true → c'.challenge.qop.isSome = true →
    c.challenge.nonce = c'.challenge.nonce → e = e'
  counts : ∀ (e : Nat) (c : CachedDigest), s.entries[e]? = some c →
    c.challenge.qop.isSome = true → s.used c.challenge.nonce = List.range' 1 c.nonceCount
  known : ∀ nonce, s.used nonce ≠ [] →
    ∃ c ∈ s.entries, c.challenge.qop.isSome = true ∧ c.challenge.nonce = nonce

theorem used_append {sent : Sent} (hsent : s'.sent = s.sent ++ [sent]) (nonce : String) :
    s'.used nonce = s.used nonce
      ++ (if sent.challenge.qop.isSome = true ∧ sent.challenge.nonce = nonce then
            [sent.nonceCount] else []) := by
  simp only [used, carried, hsent, filterMap_append, filter_append, map_append]
  congr 1
  by_cases hqop : sent.challenge.qop.isSome = true
  case pos =>
    simp only [Sent.pair, hqop, if_true, filterMap_cons, filterMap_nil]
    by_cases hnonce : sent.challenge.nonce = nonce <;> simp [hnonce]
  case neg => simp [Sent.pair, hqop]

theorem counted_step (h : Counted s) (heffect : Effect s s') : Counted s' := by
  cases heffect with
  | rests hentries hsent =>
    have hused : s'.used = s.used := by
      funext nonce
      simp only [used, carried, hsent]
    exact ⟨hentries ▸ h.apart, hentries ▸ hused ▸ h.counts, hentries ▸ hused ▸ h.known⟩
  | counts entry cached hentry hsmall hentries hsent =>
    have hused := used_append hsent
    -- The entries are the same but for one count.
    have hbefore : ∀ (e : Nat) (c : CachedDigest), s'.entries[e]? = some c →
        ∃ n, s.entries[e]? = some ⟨c.challenge, n⟩
          ∧ (if e = entry then c.nonceCount = nextCount n else c.nonceCount = n) := by
      intro e c hc
      rw [hentries] at hc
      simp only [Provider.count, List.getElem?_set] at hc
      split at hc
      case isTrue heq =>
        subst heq
        split at hc
        case isTrue =>
          cases hc
          exact ⟨cached.nonceCount, hentry, by rw [if_pos rfl]⟩
        case isFalse => cases hc
      case isFalse hne => exact ⟨c.nonceCount, hc, by rw [if_neg (Ne.symm hne)]⟩
    refine ⟨?_, ?_, ?_⟩
    · intro e e' c c' hc hc' hqop hqop' hnonce
      obtain ⟨n, hn, -⟩ := hbefore e c hc
      obtain ⟨n', hn', -⟩ := hbefore e' c' hc'
      exact h.apart e e' _ _ hn hn' hqop hqop' hnonce
    · intro e c hc hqop
      obtain ⟨n, hn, hcount⟩ := hbefore e c hc
      have hrange := h.counts e _ hn hqop
      rw [hused, hrange]
      by_cases heq : e = entry
      · subst heq
        rw [if_pos rfl] at hcount
        cases hentry.symm.trans hn
        have hnext : nextCount n = n + 1 := Nat.mod_eq_of_lt (hsmall hqop)
        rw [if_pos ⟨hqop, rfl⟩, hcount, hnext, List.range'_concat]
        simp [Nat.add_comm]
      · rw [if_neg heq] at hcount
        rw [if_neg, append_nil, hcount]
        rintro ⟨hqop', hnonce⟩
        exact heq (h.apart e entry _ cached hn hentry hqop hqop' hnonce.symm)
    · intro nonce hne
      -- An entry is still there, with its challenge.
      have hstays : ∀ c ∈ s.entries, ∃ c' ∈ s'.entries, c'.challenge = c.challenge := by
        intro c hc
        obtain ⟨e, he⟩ := mem_iff_getElem?.1 hc
        have hlt : e < s.entries.length := (List.getElem?_eq_some_iff.1 he).1
        have hlt' : e < s'.entries.length := by
          rw [hentries]
          simpa [Provider.count] using hlt
        obtain ⟨n, hn, -⟩ := hbefore e _ (List.getElem?_eq_getElem hlt')
        rw [he] at hn
        have hsame := congrArg CachedDigest.challenge (Option.some.inj hn)
        exact ⟨_, getElem_mem hlt', hsame.symm⟩
      have hknown : ∃ c ∈ s.entries, c.challenge.qop.isSome = true ∧ c.challenge.nonce = nonce := by
        rw [hused] at hne
        by_cases hnew : cached.challenge.qop.isSome = true ∧ cached.challenge.nonce = nonce
        · exact ⟨cached, mem_of_getElem? hentry, hnew⟩
        · rw [if_neg hnew, append_nil] at hne
          exact h.known nonce hne
      obtain ⟨c, hc, hqop, hnonce⟩ := hknown
      obtain ⟨c', hc', hsame⟩ := hstays c hc
      exact ⟨c', hc', hsame ▸ hqop, hsame ▸ hnonce⟩
  | installs cacheKey challenge hfresh hentries hsent =>
    have hused := used_append hsent
    have hlast : ∀ (e : Nat) (c : CachedDigest), s'.entries[e]? = some c →
        s.entries[e]? = some c ∨ (e = s.entries.length ∧ c = ⟨challenge, 1⟩) := by
      intro e c hc
      rw [hentries] at hc
      simp only [install, List.getElem?_append] at hc
      split at hc
      case isTrue => exact .inl hc
      case isFalse hge =>
        obtain ⟨hlt, heq⟩ := List.getElem?_eq_some_iff.1 hc
        simp only [length_singleton] at hlt
        refine .inr ⟨by omega, ?_⟩
        rw [← heq, getElem_singleton]
    have hnew : ∀ (e : Nat) (c : CachedDigest), s.entries[e]? = some c →
        c.challenge.qop.isSome = true → challenge.qop.isSome = true →
        c.challenge.nonce ≠ challenge.nonce :=
      fun e c hc => hfresh c (mem_of_getElem? hc)
    refine ⟨?_, ?_, ?_⟩
    · intro e e' c c' hc hc' hqop hqop' hnonce
      rcases hlast e c hc with hold | ⟨he, rfl⟩
      · rcases hlast e' c' hc' with hold' | ⟨-, rfl⟩
        · exact h.apart e e' c c' hold hold' hqop hqop' hnonce
        · exact absurd hnonce (hnew e c hold hqop hqop')
      · rcases hlast e' c' hc' with hold' | ⟨he', rfl⟩
        · exact absurd hnonce.symm (hnew e' c' hold' hqop' hqop)
        · rw [he, he']
    · intro e c hc hqop
      rw [hused]
      rcases hlast e c hc with hold | ⟨-, rfl⟩
      · rw [h.counts e c hold hqop, if_neg, append_nil]
        rintro ⟨hqop', hnonce⟩
        exact hnew e c hold hqop hqop' hnonce.symm
      · -- The nonce has not been used before.
        have hnone : s.used challenge.nonce = [] := by
          by_contra hne
          obtain ⟨c, hmem, hqop', hnonce⟩ := h.known _ hne
          exact hfresh c hmem hqop' hqop hnonce
        rw [hnone, if_pos ⟨hqop, rfl⟩]
        rfl
    · intro nonce hne
      rw [hused] at hne
      by_cases hsame : challenge.qop.isSome = true ∧ challenge.nonce = nonce
      · refine ⟨⟨challenge, 1⟩, ?_, hsame⟩
        rw [hentries]
        exact mem_append_right _ (mem_singleton_self _)
      · rw [if_neg hsame, append_nil] at hne
        obtain ⟨c, hmem, hc⟩ := h.known nonce hne
        refine ⟨c, ?_, hc⟩
        rw [hentries]
        exact mem_append_left _ hmem

-- ==== runs

theorem nodup_of_groups {l : List (String × Nat)}
    (h : ∀ key, ((l.filter fun pair => pair.1 = key).map Prod.snd).Nodup) : l.Nodup := by
  induction l with
  | nil => exact nodup_nil
  | cons pair rest ih =>
    refine nodup_cons.2 ⟨fun hmem => ?_, ih fun key => ?_⟩
    · have hown := h pair.1
      rw [filter_cons_of_pos (by simp), map_cons] at hown
      refine (nodup_cons.1 hown).1 (mem_map.2 ⟨pair, ?_, rfl⟩)
      exact mem_filter.2 ⟨hmem, by simp⟩
    · have hall := h key
      rw [filter_cons] at hall
      split at hall
      · rw [map_cons] at hall
        exact (nodup_cons.1 hall).2
      · exact hall

theorem Counted.used_eq (h : Counted s) (nonce : String) :
    s.used nonce = List.range' 1 (s.used nonce).length := by
  by_cases hnone : s.used nonce = []
  · rw [hnone]
    rfl
  · obtain ⟨c, hmem, hqop, rfl⟩ := h.known nonce hnone
    obtain ⟨e, he⟩ := mem_iff_getElem?.1 hmem
    rw [h.counts e c he hqop, length_range']

/-- In every fresh run no two requests carry the same nonce with the same
count, and the counts that go with a nonce are 1, 2, 3 and so on. -/
theorem counts_never_repeat [DecidableEq ι] (calls : ι → Call) {acts : List (Action ι)}
    {s : Provider ι} (hrun : Run (callStep calls) Fresh .new acts s) :
    s.carried.Nodup ∧ ∀ nonce, s.used nonce = List.range' 1 (s.used nonce).length := by
  have hnew : Counted (new : Provider ι) := by
    refine ⟨?_, ?_, fun nonce hne => absurd rfl hne⟩
    · intro e e' c c' hc
      cases hc
    · intro e c hc
      cases hc
  have h : Counted s := hrun.invariant (P := Counted) hnew
    fun a hfresh hstep h => counted_step h (effect_of_step hfresh hstep)
  refine ⟨nodup_of_groups fun nonce => ?_, h.used_eq⟩
  show (s.used nonce).Nodup
  rw [h.used_eq nonce]
  exact List.nodup_range'

-- Two requests, one after another, and at the same time.

def someCalls (_ : Nat) : Call := .execute "https://dav.example"

/-- A request without a challenge in the cache, to its 401. -/
def challenged (i : Nat) : List (Action Nat) :=
  [⟨i, .start⟩, ⟨i, .look⟩,
    ⟨i, .reply (.unauthorized (some "Digest realm=\"dav\", nonce=\"n\", qop=\"auth\""))⟩]

def answered (i : Nat) : List (Action Nat) := [⟨i, .install⟩, ⟨i, .reply (.other true)⟩]

/-- A request with the challenge that is in the cache. -/
def counted (i : Nat) : List (Action Nat) :=
  [⟨i, .start⟩, ⟨i, .look⟩, ⟨i, .count⟩, ⟨i, .reply (.other true)⟩]

theorem second_request_counted :
    ∃ s : Provider Nat, s.carried = [("n", 1), ("n", 2)] ∧ s.carried.Nodup
      ∧ ∀ nonce, s.used nonce = List.range' 1 (s.used nonce).length := by
  obtain ⟨s, hrun, hcarried⟩ : ∃ s : Provider Nat,
      Run (callStep someCalls) Fresh .new (challenged 0 ++ answered 0 ++ counted 1) s
        ∧ s.carried = [("n", 1), ("n", 2)] :=
    Run.exists_of_guardedRun (by decide +kernel)
  exact ⟨s, hcarried, counts_never_repeat someCalls hrun⟩

/-- Both requests are challenged before one of them answers, with the same
nonce: both carry its first count. -/
theorem first_count_repeats :
    ∃ s : Provider Nat,
      Run (callStep someCalls) Free .new
        (challenged 0 ++ challenged 1 ++ answered 0 ++ answered 1) s
      ∧ s.carried = [("n", 1), ("n", 1)] :=
  Run.exists_of_run (by decide +kernel)

end FileManager.WebDav.Digest
