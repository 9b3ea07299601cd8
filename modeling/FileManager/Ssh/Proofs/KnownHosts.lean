/-
When the file store is the store in memory.

A change writes back all that its read gave it. So the entries of the
other keys in the file must be, when the copy is put in its place, those
that were read (`Apart`): no other call has changed them in between, and
the read has not taken an unreadable file for an empty one. Then each
write is the call's own change of what the file has.
-/
import FileManager.Ssh.KnownHosts
import Mathlib.Data.List.Induction

namespace FileManager.Ssh.KnownHosts

open Machine (Run Free)
open List
open Function (update_of_ne update_self update_apply)

variable {ι : Type} [DecidableEq ι] {calls : ι → Call} {s s' : File ι} {a : Action ι}
  {acts : List (Action ι)} {order : List ι} {i : ι} {entries e₀ : Store}

-- ==== vocabulary

/-- What `InMemoryKnownHostsStore` has after the calls. -/
def replay (calls : ι → Call) (entries : Store) (order : List ι) : Store :=
  order.foldl (fun entries i => (calls i).change entries) entries

/-- Where a call replaces the file, the other keys have in it what they
have in the file. -/
def Apart (calls : ι → Call) (s : File ι) (a : Action ι) : Prop :=
  ∀ entries, a.act = .write none → s.phases a.call = .writing entries →
    ∀ other, other ≠ (calls a.call).key → entries other = s.entries other

/-- The calls that have succeeded, in an order in which the store in
memory comes to have what the file has. -/
structure Serial (calls : ι → Call) (entries : Store) (s : File ι) (order : List ι) : Prop where
  once : order.Nodup
  succeeded : ∀ i, i ∈ order ↔ (s.phases i).succeeds = true
  entries : s.entries = replay calls entries order

-- ==== one call

omit [DecidableEq ι] in
theorem replay_append (calls : ι → Call) (entries : Store) (order : List ι) (i : ι) :
    replay calls entries (order ++ [i]) = (calls i).change (replay calls entries order) := by
  simp only [replay, foldl_append, foldl_cons, foldl_nil]

theorem change_other (call : Call) (entries : Store) {other : String} (h : other ≠ call.key) :
    call.change entries other = entries other := by
  cases call with
  | lookup key => rfl
  | accept key fingerprint now | forget key => exact update_of_ne h _ _

theorem change_key (call : Call) (entries entries' : Store)
    (h : entries call.key = entries' call.key) :
    call.change entries call.key = call.change entries' call.key := by
  cases call with
  | lookup key => exact h
  | accept key fingerprint now =>
    simp only [Call.change, Call.key, update_self]
  | forget key => simp only [Call.change, Call.key, update_self]

omit [DecidableEq ι] in
theorem replay_key (calls : ι → Call) (entries : Store) (order : List ι) (key : String) :
    replay calls entries order key
      = replay calls entries (order.filter fun i => (calls i).key = key) key := by
  induction order using List.reverseRecOn with
  | nil => rfl
  | append_singleton order i ih =>
    rw [replay_append, filter_append]
    by_cases hkey : (calls i).key = key
    · subst hkey
      simp only [filter_cons, decide_true, if_true, filter_nil]
      rw [replay_append]
      exact change_key _ _ _ ih
    · simp only [filter_cons, hkey, decide_false, filter_nil, append_nil,
        Bool.false_eq_true, if_false]
      rw [change_other _ _ (Ne.symm hkey), ih]

theorem change_of_writes (call : Call) (hcall : ∀ key, call ≠ .lookup key) {entries' : Store}
    (h : ∀ other, other ≠ call.key → call.change entries other = entries' other) :
    call.change entries = call.change entries' := by
  funext other
  by_cases hother : other = call.key
  · subst hother
    cases call with
    | lookup key => exact absurd rfl (hcall key)
    | accept key fingerprint now | forget key => simp only [Call.change, Call.key, update_self]
  · rw [h other hother, change_other _ _ hother]

-- ==== invariant

/-- What a call is about to write is its own change of what it read. -/
def Written (calls : ι → Call) (s : File ι) : Prop :=
  ∀ i entries, s.phases i = .writing entries →
    (∀ key, calls i ≠ .lookup key) ∧ ∃ read, entries = (calls i).change read

/-- What a step does. -/
inductive Effect (calls : ι → Call) (s : File ι) : Action ι → File ι → Prop
  | finds (i : ι) (reading : Reading) (found : Option StoredHostKey) {key : String}
      (hcall : calls i = .lookup key) (hphase : s.phases i = .called) :
      Effect calls s ⟨i, .read reading⟩ (s.enter i (.returned (.ok found)))
  | reads (i : ι) (reading : Reading) (hcall : ∀ key, calls i ≠ .lookup key)
      (hphase : s.phases i = .called) :
      Effect calls s ⟨i, .read reading⟩
        (s.enter i (.writing ((calls i).change (s.readAll reading))))
  | writes (i : ι) {entries : Store} (hphase : s.phases i = .writing entries) :
      Effect calls s ⟨i, .write none⟩ ({ s with entries }.enter i (.returned (.ok none)))
  | fails (i : ι) (error : SshError) {entries : Store} (hphase : s.phases i = .writing entries) :
      Effect calls s ⟨i, .write (some error)⟩ (s.enter i (.returned (.error error)))

theorem effect_of_step (h : fileStep calls a s = some s') : Effect calls s a s' := by
  obtain ⟨i, act⟩ := a
  unfold fileStep at h
  split at h
  case h_1 hact hphase hcall =>
    cases hact
    cases h
    exact .finds i _ _ hcall hphase
  case h_2 hact hphase hlookup =>
    cases hact
    cases h
    exact .reads i _ hlookup hphase
  case h_3 hact hphase =>
    cases hact
    cases h
    exact .writes i hphase
  case h_4 hact hphase =>
    cases hact
    cases h
    exact .fails i _ hphase
  case h_5 => cases h

theorem written_step (h : Written calls s) (heffect : Effect calls s a s') : Written calls s' := by
  intro j entries hj
  cases heffect with
  | reads i reading hcall hphase =>
    simp only [File.enter, update_apply] at hj
    split at hj
    · next hi =>
      subst hi
      cases hj
      exact ⟨hcall, _, rfl⟩
    · exact h j entries hj
  | _ =>
    simp only [File.enter, update_apply] at hj
    split at hj
    · cases hj
    · exact h j entries hj

theorem Serial.enter (h : Serial calls e₀ s order)
    {result : Except SshError (Option StoredHostKey)}
    (hphase : (s.phases i).succeeds = false)
    (hentries : entries = if (Phase.returned result).succeeds then (calls i).change s.entries
      else s.entries) :
    Serial calls e₀ ({ s with entries }.enter i (.returned result))
      (if (Phase.returned result).succeeds then order ++ [i] else order) := by
  have hfresh : i ∉ order := by
    rw [h.succeeded, hphase]
    exact Bool.false_ne_true
  cases hresult : (Phase.returned result).succeeds with
  | true =>
    rw [hresult, if_pos rfl] at hentries
    refine ⟨?_, fun j => ?_, ?_⟩
    · rw [if_pos rfl, ← concat_eq_append]
      exact h.once.concat hfresh
    · simp only [if_true, mem_append, mem_singleton, File.enter, update_apply]
      split
      · next hj => simp [hj, hresult]
      · next hj => simp [hj, h.succeeded]
    · show entries = replay calls e₀ (order ++ [i])
      rw [replay_append, ← h.entries, hentries]
  | false =>
    rw [hresult] at hentries
    refine ⟨h.once, fun j => ?_, hentries.trans h.entries⟩
    simp only [Bool.false_eq_true, if_false, File.enter, update_apply]
    split
    · next hj => simp [hj, hresult, hfresh]
    · exact h.succeeded j

theorem serial_step (h : Serial calls e₀ s order)
    (hwritten : Written calls s) (hapart : Apart calls s a) (heffect : Effect calls s a s') :
    ∃ order, Serial calls e₀ s' order := by
  cases heffect with
  | finds i reading found hcall hphase =>
    refine ⟨_, h.enter (by rw [hphase]; rfl) ?_⟩
    rw [hcall]
    rfl
  | reads i reading hcall hphase =>
    refine ⟨order, h.once, fun j => ?_, h.entries⟩
    simp only [File.enter, update_apply]
    split
    · next hj =>
      subst hj
      rw [h.succeeded, hphase]
      exact Iff.rfl
    · exact h.succeeded j
  | @writes i entries hphase =>
    obtain ⟨hcall, read, rfl⟩ := hwritten i entries hphase
    refine ⟨_, h.enter (by rw [hphase]; rfl) ?_⟩
    exact change_of_writes (calls i) hcall fun other hother => hapart _ rfl hphase other hother
  | fails i error hphase => exact ⟨_, h.enter (by rw [hphase]; rfl) rfl⟩

/-- In every run whose writes are apart, the file has what the store in
memory has after the calls that succeeded, in some order; and what it has
for a key is the work of the calls for that key. -/
theorem file_store_serial (calls : ι → Call) (entries : Store) {acts : List (Action ι)}
    {s : File ι} (hrun : Run (fileStep calls) (Apart calls) (.initial entries) acts s) :
    ∃ order, Serial calls entries s order ∧ ∀ key, s.entries key
        = replay calls entries (order.filter fun i => (calls i).key = key) key := by
  have hboth : Written calls s ∧ ∃ order, Serial calls entries s order := by
    have hwritten : Written calls (.initial entries) := by
      intro i entries h
      cases h
    have hserial : Serial calls entries (.initial entries) [] :=
      ⟨List.nodup_nil, fun i => ⟨nofun, nofun⟩, rfl⟩
    refine hrun.invariant (P := fun s => Written calls s ∧ ∃ order, Serial calls entries s order)
      ⟨hwritten, [], hserial⟩ ?_
    rintro s s' a hapart hstep ⟨hwritten, order, hserial⟩
    have heffect := effect_of_step hstep
    exact ⟨written_step hwritten heffect, serial_step hserial hwritten hapart heffect⟩
  obtain ⟨-, order, hserial⟩ := hboth
  refine ⟨order, hserial, fun key => ?_⟩
  rw [hserial.entries]
  exact replay_key calls entries order key

-- Two accepts.

def someCalls : Nat → Call
  | 0 => .accept "a" "f" 1
  | _ => .accept "b" "g" 2

omit [DecidableEq ι] in
theorem apart_of_current {act : Act}
    (h : s.phases i = .writing ((calls i).change s.entries)) : Apart calls s ⟨i, act⟩ := by
  intro entries _ hphase other hother
  rw [h] at hphase
  cases hphase
  exact change_other _ _ hother

omit [DecidableEq ι] in
theorem apart_of_read {reading : Reading} : Apart calls s ⟨i, .read reading⟩ := by
  intro entries hact
  cases hact

theorem one_by_one_serial :
    ∃ s : File Nat, s.entries "a" = some ⟨"f", 1⟩ ∧ s.entries "b" = some ⟨"g", 2⟩
      ∧ ∃ order, Serial someCalls (fun _ => none) s order := by
  have hstart : Run (fileStep someCalls) (Apart someCalls) (.initial fun _ => none) []
      (.initial fun _ => none) := .start
  have hfirst := (hstart.snoc ⟨0, .read .current⟩ apart_of_read rfl).snoc ⟨0, .write none⟩
    (apart_of_current rfl) rfl
  have hboth := (hfirst.snoc ⟨1, .read .current⟩ apart_of_read rfl).snoc ⟨1, .write none⟩
    (apart_of_current rfl) rfl
  obtain ⟨order, hserial, -⟩ := file_store_serial someCalls (fun _ => none) hboth
  exact ⟨_, rfl, rfl, order, hserial⟩

theorem both_kept {order : List Nat} :
    (0 ∈ order → replay someCalls entries order "a" = some ⟨"f", 1⟩)
      ∧ (1 ∈ order → replay someCalls entries order "b" = some ⟨"g", 2⟩) := by
  induction order using List.reverseRecOn with
  | nil => exact ⟨nofun, nofun⟩
  | append_singleton order i ih =>
    rw [replay_append]
    cases i with
    | zero =>
      refine ⟨fun _ => by simp [someCalls, Call.change], fun hmem => ?_⟩
      rw [change_other _ _ (show "b" ≠ "a" by decide)]
      exact ih.2 (by simpa using hmem)
    | succ n =>
      refine ⟨fun hmem => ?_, fun _ => by simp [someCalls, Call.change]⟩
      rw [change_other _ _ (show "a" ≠ "b" by decide)]
      exact ih.1 (by simpa using hmem)

/-- The first accept reads before the second one writes. -/
def overlapping : List (Action Nat) :=
  [⟨0, .read .current⟩, ⟨1, .read .current⟩, ⟨1, .write none⟩, ⟨0, .write none⟩]

/-- The second accept cannot read the file. -/
def unread : List (Action Nat) :=
  [⟨0, .read .current⟩, ⟨0, .write none⟩, ⟨1, .read .empty⟩, ⟨1, .write none⟩]

/-- Both succeed, and one entry is lost: no order of the two makes it
so. -/
theorem accepted_entry_dropped :
    (∃ s : File Nat, Run (fileStep someCalls) Free (.initial fun _ => none) overlapping s
        ∧ s.entries "b" = none ∧ ∀ order, ¬ Serial someCalls (fun _ => none) s order)
      ∧ ∃ s : File Nat, Run (fileStep someCalls) Free (.initial fun _ => none) unread s
        ∧ s.entries "a" = none ∧ ∀ order, ¬ Serial someCalls (fun _ => none) s order := by
  constructor
  · have hreached : ∃ s : File Nat, Run (fileStep someCalls) Free (.initial fun _ => none)
        overlapping s ∧ s.entries "b" = none ∧ (s.phases 1).succeeds = true :=
      Run.exists_of_run (by decide +kernel)
    obtain ⟨s, hrun, hnone, hdone⟩ := hreached
    refine ⟨s, hrun, hnone, fun order hserial => ?_⟩
    rw [hserial.entries, both_kept.2 ((hserial.succeeded 1).2 hdone)] at hnone
    cases hnone
  · have hreached : ∃ s : File Nat, Run (fileStep someCalls) Free (.initial fun _ => none)
        unread s ∧ s.entries "a" = none ∧ (s.phases 0).succeeds = true :=
      Run.exists_of_run (by decide +kernel)
    obtain ⟨s, hrun, hnone, hdone⟩ := hreached
    refine ⟨s, hrun, hnone, fun order hserial => ?_⟩
    rw [hserial.entries, both_kept.1 ((hserial.succeeded 0).2 hdone)] at hnone
    cases hnone

end FileManager.Ssh.KnownHosts
