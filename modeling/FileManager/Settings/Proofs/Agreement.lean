/-
When the settings in memory and in the file agree.

A call has its effect on the file and on the memory in two steps; between
them it is `Open`. If nobody else saves or takes the lock meanwhile, if
two saves are never under way together, and if no save of
`set_plugin_enabled` fails (`Orderly`), the calls take effect one after
another, in the order of their renames.

# The argument

Four invariants, each on top of the one before: who is open and holds the
lock (`Turns`), what the temporary holds (`Staged`), which calls have
succeeded (`Ordered`), and what memory and file have (`Agrees`).
-/
import FileManager.Settings.Sharing
import Mathlib.Data.Fintype.Basic

namespace FileManager.Settings

open Machine (Run Free)
open Workspaces (Value)
open List Shared Option Disk Nat Keyed
open Shared (afterWrite enter initial)
open String (toList_ofList)
open Function (update_self update_of_ne)

variable {ι : Type} {json : SerdeJson} {calls : ι → Call} {s s' start : Shared ι} {a : Action ι}
  {acts : List (Action ι)} {disk : Disk} {i : ι} {n : Nat}

-- ==== phases

/-- The call uses the temporary file. -/
def Phase.uses : Phase → Prop
  | .created _ _ | .written _ | .synced => True
  | _ => False

/-- The call has succeeded, or has only to return. -/
def Phase.succeeded : Phase → Prop
  | .saved | .returned (.ok _) => True
  | _ => False

/-- The call has had its effect on the memory or the file alone. -/
def Phase.open : Call → Phase → Prop
  | .updateSettings _, phase => phase = .saved
  | .setPluginEnabled _ _, phase => phase = .changed ∨ phase.uses

/-- The call holds the lock. -/
def Phase.holds : Call → Phase → Prop
  | .updateSettings _, _ => False
  | .setPluginEnabled _ _, phase => phase = .changed ∨ phase.uses ∨ phase = .saved

def Call.IsPlugin : Call → Prop
  | .updateSettings _ => False
  | .setPluginEnabled _ _ => True

/-- A save fails at this step. -/
def Act.Fails : Act → Prop
  | .create fails | .write _ fails | .sync fails | .rename fails => fails = true
  | _ => False

theorem uses_afterWrite (i : ι) (file offset : Nat) :
    (s.afterWrite json calls i file offset).uses := by
  unfold afterWrite
  split <;> exact trivial

variable {phase : Phase}

theorem ne_changed_of_uses (h : phase.uses) :
    phase ≠ .discovered ∧ phase ≠ .changed ∧ phase ≠ .saved := by
  cases phase with
  | created file offset | written file | synced => simp
  | _ => exact absurd h id

theorem not_succeeded_of_uses (h : phase.uses) : ¬ phase.succeeded := by
  cases phase with
  | created file offset | written file | synced => exact id
  | _ => exact absurd h id

-- ==== the files

theorem overwrite_take (bytes : Bytes) {offset : Nat} (count : Nat) (h : offset ≤ bytes.length) :
    overwrite (bytes.take offset) offset ((bytes.drop offset).take count)
      = bytes.take (offset + ((bytes.drop offset).take count).length) := by
  have hlength : (bytes.take offset).length = offset := by
    rw [length_take]
    omega
  have hrest : (bytes.take offset).drop (offset + ((bytes.drop offset).take count).length)
      = [] := by
    rw [drop_eq_nil_iff, hlength]
    omega
  have hdata : (bytes.drop offset).take ((bytes.drop offset).take count).length
      = (bytes.drop offset).take count := by
    rw [length_take, take_eq_take_iff]
    omega
  rw [overwrite, hrest, hlength, Nat.sub_self, replicate_zero, append_nil,
    append_nil, take_add, hdata, take_take, min_self]

/-- What a call in some phase finds in the temporary. -/
def StagedAt (disk : Disk) (bytes : Bytes) : Phase → Prop
  | .created file offset => disk.temporary = some file ∧ offset ≤ bytes.length
      ∧ disk.contents file = bytes.take offset
  | .written file => disk.temporary = some file ∧ disk.contents file = bytes
  | .synced => ∃ file, disk.temporary = some file ∧ disk.contents file = bytes
  | _ => True

theorem stagedAt_of_not_uses {bytes : Bytes} (h : ¬ phase.uses) : StagedAt disk bytes phase := by
  cases phase with
  | created file offset | written file | synced => exact absurd trivial h
  | _ => exact trivial

/-- The names refer to different files. -/
structure Disk.Sound (disk : Disk) : Prop where
  temporary : ∀ n, disk.temporary = some n → n < disk.fresh
  settings : ∀ n, disk.settings = some n → n < disk.fresh
  apart : ∀ n, disk.temporary = some n → disk.settings ≠ some n

theorem Disk.Sound.create (h : disk.Sound) :
    disk.create.2.Sound ∧ disk.create.2.temporary = some disk.create.1
      ∧ disk.create.2.contents disk.create.1 = [] ∧ disk.create.2.file = disk.file := by
  cases htemporary : disk.temporary with
  | some n =>
    rw [create_of_some htemporary]
    refine ⟨⟨h.temporary, h.settings, h.apart⟩, htemporary, update_self _ _ _, ?_⟩
    · unfold file
      cases hsettings : disk.settings with
      | none => simp
      | some m =>
        have hne : m ≠ n := by
          rintro rfl
          exact h.apart m htemporary hsettings
        simp [update_of_ne hne]
  | none =>
    rw [create_of_none htemporary]
    refine ⟨⟨?_, ?_, ?_⟩, rfl, update_self _ _ _, ?_⟩
    · intro m hm
      obtain rfl : disk.fresh = m := by simpa using hm
      exact lt_succ_self _
    · intro m hm
      exact lt_succ_of_lt (h.settings m hm)
    · intro m hm hsettings
      obtain rfl : disk.fresh = m := by simpa using hm
      exact absurd (h.settings _ hsettings) (lt_irrefl _)
    · unfold file
      cases hsettings : disk.settings with
      | none => simp
      | some m =>
        have hne : m ≠ disk.fresh := Nat.ne_of_lt (h.settings m hsettings)
        simp [update_of_ne hne]

theorem Disk.Sound.write (h : disk.Sound) (htemporary : disk.temporary = some n)
    (offset : Nat) (data : Bytes) :
    (disk.write n offset data).Sound ∧ (disk.write n offset data).file = disk.file := by
  refine ⟨⟨h.temporary, h.settings, h.apart⟩, ?_⟩
  unfold file Disk.write
  cases hsettings : disk.settings with
  | none => simp
  | some m =>
    have hne : m ≠ n := by
      rintro rfl
      exact h.apart m htemporary hsettings
    simp [update_of_ne hne]

theorem Disk.Sound.rename (h : disk.Sound) (htemporary : disk.temporary = some n) :
    ({ disk with settings := some n, temporary := none } : Disk).Sound where
  temporary m hm := by cases hm
  settings m hm := by
    obtain rfl : n = m := by simpa using hm
    exact h.temporary n htemporary
  apart m hm := by cases hm

/-- The temporary is as far as the save that uses it. -/
structure Staged (json : SerdeJson) (calls : ι → Call) (s : Shared ι) : Prop where
  disk : s.disk.Sound
  staged : ∀ i, StagedAt s.disk (s.bytes json calls i) (s.phases i)

theorem bytes_eq_of_not_holds (hdisk : s'.memory = s.memory ∨ ¬ (s.phases i).holds (calls i))
    (huses : (s.phases i).uses) : s'.bytes json calls i = s.bytes json calls i := by
  unfold bytes saving
  cases hcall : calls i with
  | updateSettings settings => rfl
  | setPluginEnabled pluginId enabled =>
    rcases hdisk with hmemory | hnot
    · simp only [hmemory]
    · rw [hcall] at hnot
      exact absurd (.inr (.inl huses)) hnot

theorem Staged.temporary_of_synced (h : Staged json calls s)
    (hphase : s.phases i = .synced) : s.disk.temporary ≠ none := by
  have hat := h.staged i
  rw [hphase] at hat
  obtain ⟨file, htemporary, -⟩ := hat
  rw [htemporary]
  simp

theorem not_rename_of_fails (h : Staged json calls s)
    (hcause : a.act.Fails ∨ (a.act = .rename false ∧ s.phases a.call = .synced
        ∧ s.disk.temporary = none)
      ∨ (a.act = .discover false ∧ s.phases a.call = .called)) : a.act ≠ .rename false := by
  intro ha
  rcases hcause with hfails | ⟨-, hphase, hnone⟩ | ⟨hdiscover, -⟩
  · rw [ha] at hfails
    cases hfails
  · exact h.temporary_of_synced hphase hnone
  · simp [ha] at hdiscover

-- ==== the order

/-- The call that replaces the file at a step. -/
def Action.commits (a : Action ι) : Option ι := if a.act = .rename false then some a.call else none

/-- The calls that have replaced the file, in this order. -/
def order (acts : List (Action ι)) : List ι := acts.filterMap Action.commits

/-- The settings after these calls, one after another. -/
def inTurn (calls : ι → Call) (memory : Settings) (done : List ι) : Settings :=
  done.foldl (fun settings i => (calls i).apply settings) memory

theorem order_snoc_of_ne (h : a.act ≠ .rename false) : order (acts ++ [a]) = order acts := by
  simp [order, Action.commits, h]

theorem order_snoc (h : a.act = .rename false) : order (acts ++ [a]) = order acts ++ [a.call] := by
  simp [order, Action.commits, h]

theorem inTurn_snoc (memory : Settings) (done : List ι) (i : ι) :
    inTurn calls memory (done ++ [i]) = (calls i).apply (inTurn calls memory done) := by
  simp [inTurn]

-- ==== steps

variable [DecidableEq ι]

/-- What one step can do. -/
inductive Steps (json : SerdeJson) (calls : ι → Call) (a : Action ι) (s s' : Shared ι) : Prop
  | discovers (hplugin : (calls a.call).IsPlugin) (ha : a.act ≠ .rename false)
      (hphase : s.phases a.call = .called) (h : s' = s.enter a.call .discovered)
  | fails (error : CallError)
      (hcause : a.act.Fails ∨ (a.act = .rename false ∧ s.phases a.call = .synced
          ∧ s.disk.temporary = none)
        ∨ (a.act = .discover false ∧ s.phases a.call = .called))
      (hphase : ¬ (s.phases a.call).succeeded) (h : s' = s.return a.call (.error error))
  | locks (pluginId : String) (enabled : Bool)
      (hcall : calls a.call = .setPluginEnabled pluginId enabled) (ha : a.act = .lock)
      (hphase : s.phases a.call = .discovered) (hfree : s.holder = none)
      (h : s' = { s with memory := (calls a.call).apply s.memory
                         holder := some a.call
                         disabled := if enabled then s.disabled.filter (· ≠ pluginId)
                                     else s.disabled }.enter a.call .changed)
  | creates (ha : a.act = .create false)
      (hphase : s.phases a.call = .called ∧ ¬ (calls a.call).IsPlugin
        ∨ s.phases a.call = .changed ∧ (calls a.call).IsPlugin)
      (h : s' = { s with disk := s.disk.create.2 }.enter a.call (.created s.disk.create.1 0))
  | writes (count file offset : Nat) (data : Bytes) (ha : a.act = .write count false)
      (hphase : s.phases a.call = .created file offset)
      (hdata : data = s.chunk json calls a.call offset count)
      (h : s' = { s with disk := s.disk.write file offset data }.enter a.call
        (s.afterWrite json calls a.call file (offset + data.length)))
  | syncs (file : Nat) (ha : a.act = .sync false) (hphase : s.phases a.call = .written file)
      (h : s' = s.enter a.call .synced)
  | renames (file : Nat) (ha : a.act = .rename false) (hphase : s.phases a.call = .synced)
      (htemporary : s.disk.temporary = some file)
      (h : s' = { s with disk := { s.disk with settings := some file, temporary := none } }.enter
        a.call .saved)
  | assigns (settings : Settings) (hcall : calls a.call = .updateSettings settings)
      (ha : a.act = .assign) (hphase : s.phases a.call = .saved) (hfree : s.holder = none)
      (h : s' = { s with memory := settings }.return a.call (.ok ()))
  | publishes (pluginId : String) (enabled : Bool)
      (hcall : calls a.call = .setPluginEnabled pluginId enabled) (ha : a.act = .publish)
      (hphase : s.phases a.call = .saved)
      (h : s' = { s with events := s.events ++ [(pluginId, enabled)] }.return a.call (.ok ()))

theorem steps_of_saveStep (hcalled : s.phases a.call = .called → ¬ (calls a.call).IsPlugin)
    (hchanged : s.phases a.call = .changed → (calls a.call).IsPlugin)
    (h : saveStep json calls a.call s a.act (s.phases a.call) = some s') :
    Steps json calls a s s' := by
  unfold saveStep at h
  split at h
  case h_1 hact hphase =>
    obtain rfl := some.inj h
    exact .creates hact (.inl ⟨hphase, hcalled hphase⟩) rfl
  case h_2 hact hphase =>
    obtain rfl := some.inj h
    exact .creates hact (.inr ⟨hphase, hchanged hphase⟩) rfl
  case h_3 count file offset hact hphase =>
    obtain rfl := some.inj h
    exact .writes count file offset _ hact hphase rfl rfl
  case h_4 file hact hphase =>
    obtain rfl := some.inj h
    exact .syncs file hact hphase rfl
  case h_5 hact hphase =>
    cases htemporary : s.disk.temporary with
    | some file =>
      simp only [rename, htemporary] at h
      obtain rfl := some.inj h
      exact .renames file hact hphase htemporary rfl
    | none =>
      simp only [rename, htemporary] at h
      obtain rfl := some.inj h
      exact .fails .internal (.inr (.inl ⟨hact, hphase, htemporary⟩))
        (by simp [hphase, Phase.succeeded])
        rfl
  case h_11 => cases h
  all_goals
    rename_i hact hphase
    obtain rfl := some.inj h
    exact .fails .internal (.inl (by rw [hact]; rfl)) (by simp [hphase, Phase.succeeded]) rfl

theorem steps_of_step (h : shareStep json calls a s = some s')
    (hreach : s.phases a.call = .changed → (calls a.call).IsPlugin) : Steps json calls a s s' := by
  unfold shareStep at h
  split at h
  case h_1 settings hcall =>
    unfold updateSettings at h
    split at h
    case h_1 hact hphase =>
      split at h
      case isTrue hfree =>
        obtain rfl := some.inj h
        exact .assigns settings hcall hact hphase hfree rfl
      case isFalse => cases h
    case h_2 =>
      refine steps_of_saveStep (fun _ => ?_) hreach h
      rw [hcall]
      exact id
  case h_2 pluginId enabled hcall =>
    unfold setPluginEnabled at h
    have hplugin : (calls a.call).IsPlugin := by
      rw [hcall]
      exact trivial
    split at h
    case h_1 hact hphase =>
      obtain rfl := some.inj h
      exact .fails .notFound (.inr (.inr ⟨hact, hphase⟩)) (by simp [hphase, Phase.succeeded]) rfl
    case h_2 hact hphase =>
      obtain rfl := some.inj h
      exact .discovers hplugin (by simp [hact]) hphase rfl
    case h_3 hact hphase =>
      split at h
      case isTrue hfree =>
        obtain rfl := some.inj h
        exact .locks pluginId enabled hcall hact hphase hfree rfl
      case isFalse => cases h
    case h_4 hact hphase =>
      obtain rfl := some.inj h
      exact .publishes pluginId enabled hcall hact hphase rfl
    case h_5 => cases h
    case h_6 hcalled _ _ _ _ =>
      exact steps_of_saveStep (fun hphase => absurd hphase hcalled) (fun _ => hplugin) h

-- ==== turns

/-- The conditions of a run. -/
structure Orderly (calls : ι → Call) (s : Shared ι) (a : Action ι) : Prop where
  /-- A save starts when no other is under way. -/
  apart : a.act = .create false → ∀ j, j ≠ a.call → ¬ (s.phases j).uses
  /-- The file is replaced, and the lock taken, when no other call has
  had its effect on one side only. -/
  alone : a.act = .rename false ∨ a.act = .lock → ∀ j, j ≠ a.call →
    ¬ (s.phases j).open (calls j)
  /-- A save under the lock does not fail. -/
  sound : (calls a.call).IsPlugin → ¬ a.act.Fails

/-- Who is open, who saves, and who holds the lock. -/
structure Turns (calls : ι → Call) (s : Shared ι) : Prop where
  plugin : ∀ i, s.phases i = .discovered ∨ s.phases i = .changed → (calls i).IsPlugin
  holder : ∀ i, s.holder = some i ↔ (s.phases i).holds (calls i)
  oneOpen : ∀ i j, (s.phases i).open (calls i) → (s.phases j).open (calls j) → i = j
  oneSave : ∀ i j, (s.phases i).uses → (s.phases j).uses → i = j

theorem atMostOne_update {P : ι → Phase → Prop} {phases : ι → Phase}
    (h : ∀ j k, P j (phases j) → P k (phases k) → j = k)
    (hnew : P i phase → P i (phases i) ∨ ∀ j, j ≠ i → ¬ P j (phases j)) (j k : ι)
    (hj : P j (Function.update phases i phase j)) (hk : P k (Function.update phases i phase k)) :
    j = k := by
  by_cases hji : j = i
  · by_cases hki : k = i
    · rw [hji, hki]
    · subst hji
      rw [update_self] at hj
      rw [update_of_ne hki] at hk
      rcases hnew hj with hold | hnone
      · exact h _ _ hold hk
      · exact absurd hk (hnone k hki)
  · rw [update_of_ne hji] at hj
    by_cases hki : k = i
    · subst hki
      rw [update_self] at hk
      rcases hnew hk with hold | hnone
      · exact h _ _ hj hold
      · exact absurd hj (hnone j hji)
    · rw [update_of_ne hki] at hk
      exact h _ _ hj hk

variable {phase : Phase}

theorem Turns.move (h : Turns calls s)
    (hphases : s'.phases = Function.update s.phases i phase)
    (hplugin : phase = .discovered ∨ phase = .changed → (calls i).IsPlugin)
    (hholder : s'.holder = s.holder ∧ (phase.holds (calls i) ↔ (s.phases i).holds (calls i))
      ∨ (s'.holder = if s.holder = some i then none else s.holder) ∧ ¬ phase.holds (calls i)
      ∨ s.holder = none ∧ s'.holder = some i ∧ phase.holds (calls i))
    (hopen : phase.open (calls i) → (s.phases i).open (calls i)
      ∨ ∀ j, j ≠ i → ¬ (s.phases j).open (calls j))
    (huses : phase.uses → (s.phases i).uses ∨ ∀ j, j ≠ i → ¬ (s.phases j).uses) :
    Turns calls s' := by
  have hself : s'.phases i = phase := by rw [hphases, update_self]
  have hother : ∀ j, j ≠ i → s'.phases j = s.phases j := by
    intro j hj
    rw [hphases, update_of_ne hj]
  refine ⟨fun j hj => ?_, fun j => ?_, ?_, ?_⟩
  · by_cases hji : j = i
    · subst hji
      rw [hself] at hj
      exact hplugin hj
    · rw [hother j hji] at hj
      exact h.plugin j hj
  · by_cases hji : j = i
    · subst hji
      rw [hself]
      rcases hholder with ⟨hsame, hiff⟩ | ⟨hfree, hnot⟩ | ⟨-, htaken, hholds⟩
      · rw [hsame, hiff]
        exact h.holder j
      · rw [hfree]
        refine iff_of_false ?_ hnot
        by_cases hmine : s.holder = some j <;> simp [hmine]
      · exact iff_of_true htaken hholds
    · rw [hother j hji, ← h.holder j]
      rcases hholder with ⟨hsame, -⟩ | ⟨hfree, -⟩ | ⟨hnone, htaken, -⟩
      · rw [hsame]
      · rw [hfree]
        by_cases hmine : s.holder = some i
        · simp [hmine, Ne.symm hji]
        · simp [hmine]
      · rw [hnone, htaken]
        simp [Ne.symm hji]
  · rw [hphases]
    exact atMostOne_update (P := fun j phase => phase.open (calls j)) h.oneOpen hopen
  · rw [hphases]
    exact atMostOne_update (P := fun _ phase => phase.uses) h.oneSave huses

theorem Turns.move_save (h : Turns calls s)
    (hphases : s'.phases = Function.update s.phases i phase) (hholder : s'.holder = s.holder)
    (hbefore : (s.phases i).uses) (hafter : phase.uses) : Turns calls s' := by
  obtain ⟨hdiscovered, hchanged, hsaved⟩ := ne_changed_of_uses hafter
  refine h.move hphases ?_ (.inl ⟨hholder, ?_⟩) (fun hopen => .inl ?_) (fun _ => .inl hbefore)
  · rintro (heq | heq)
    · exact absurd heq hdiscovered
    · exact absurd heq hchanged
  · cases hcall : calls i with
    | updateSettings settings => exact Iff.rfl
    | setPluginEnabled pluginId enabled =>
      exact iff_of_true (.inr (.inl hafter)) (.inr (.inl hbefore))
  · cases hcall : calls i with
    | updateSettings settings =>
      rw [hcall] at hopen
      exact absurd hopen hsaved
    | setPluginEnabled pluginId enabled => exact .inr hbefore

theorem Turns.return (h : Turns calls s) (i : ι) (result : Except CallError Unit)
    {memory : Settings} {events : List (String × Bool)} :
    Turns calls ({ s with memory := memory, events := events }.return i result) := by
  have hnot : ¬ (Phase.returned result).holds (calls i) := by
    cases calls i with
    | updateSettings settings => exact id
    | setPluginEnabled pluginId enabled => simp [Phase.holds, Phase.uses]
  refine h.move rfl ?_ (.inr (.inl ⟨rfl, hnot⟩)) ?_ ?_
  · rintro (heq | heq) <;> cases heq
  · intro hopen
    cases hcall : calls i with
    | updateSettings settings =>
      rw [hcall] at hopen
      cases hopen
    | setPluginEnabled pluginId enabled =>
      rw [hcall] at hopen
      simp [Phase.open, Phase.uses] at hopen
  · exact fun huses => absurd huses id

theorem Turns.step (h : Turns calls s) (hok : Orderly calls s a)
    (hsteps : Steps json calls a s s') : Turns calls s' := by
  cases hsteps with
  | discovers hplugin ha hphase heq =>
    subst heq
    refine h.move rfl (fun _ => hplugin) (.inl ⟨rfl, ?_⟩) ?_ (fun huses => absurd huses id)
    · rw [hphase]
      cases calls a.call with
      | updateSettings settings => exact Iff.rfl
      | setPluginEnabled pluginId enabled => simp [Phase.holds, Phase.uses]
    · intro hopen
      cases hcall : calls a.call with
      | updateSettings settings =>
        rw [hcall] at hopen
        cases hopen
      | setPluginEnabled pluginId enabled =>
        rw [hcall] at hopen
        simp [Phase.open, Phase.uses] at hopen
  | fails error hcause hphase heq
  | assigns settings hcall ha hphase hfree heq | publishes pluginId enabled hcall ha hphase heq =>
    subst heq
    exact h.return a.call _
  | locks pluginId enabled hcall ha hphase hfree heq =>
    subst heq
    have hplugin : (calls a.call).IsPlugin := by
      rw [hcall]
      exact trivial
    refine h.move rfl (fun _ => hplugin) (.inr (.inr ⟨hfree, rfl, ?_⟩))
      (fun _ => .inr (hok.alone (.inr ha))) (fun huses => absurd huses id)
    rw [hcall]
    exact .inl rfl
  | creates ha hphase heq =>
    subst heq
    refine h.move rfl ?_ (.inl ⟨rfl, ?_⟩) ?_ (fun _ => .inr (hok.apart ha))
    · rintro (hother | hother) <;> cases hother
    · cases hcall : calls a.call with
      | updateSettings settings => exact Iff.rfl
      | setPluginEnabled pluginId enabled =>
        rw [hcall] at hphase
        rcases hphase with ⟨-, hnot⟩ | ⟨hchanged, -⟩
        · exact absurd trivial hnot
        · exact iff_of_true (.inr (.inl trivial)) (.inl hchanged)
    · intro hopen
      cases hcall : calls a.call with
      | updateSettings settings =>
        rw [hcall] at hopen
        cases hopen
      | setPluginEnabled pluginId enabled =>
        rw [hcall] at hphase
        rcases hphase with ⟨-, hnot⟩ | ⟨hchanged, -⟩
        · exact absurd trivial hnot
        · exact .inl (.inl hchanged)
  | writes count file offset data ha hphase hdata heq =>
    subst heq
    refine h.move_save rfl rfl ?_ (uses_afterWrite _ _ _)
    rw [hphase]
    exact trivial
  | syncs file ha hphase heq =>
    subst heq
    refine h.move_save rfl rfl ?_ trivial
    rw [hphase]
    exact trivial
  | renames file ha hphase htemporary heq =>
    subst heq
    refine h.move rfl ?_ (.inl ⟨rfl, ?_⟩) (fun _ => .inr (hok.alone (.inl ha)))
      (fun huses => absurd huses id)
    · rintro (hother | hother) <;> cases hother
    · rw [hphase]
      cases calls a.call with
      | updateSettings settings => exact Iff.rfl
      | setPluginEnabled pluginId enabled =>
        exact iff_of_true (.inr (.inr rfl)) (.inr (.inl trivial))


-- ==== the saves

theorem Staged.move (h : Staged json calls s) (hturns : Turns calls s)
    (hphases : s'.phases = Function.update s.phases i phase) (hdisk : s'.disk.Sound)
    (hself : StagedAt s'.disk (s'.bytes json calls i) phase)
    (hothers : s'.disk = s.disk ∧ (s'.memory = s.memory ∨ s.holder = none)
      ∨ ∀ j, j ≠ i → ¬ (s.phases j).uses) :
    Staged json calls s' := by
  refine ⟨hdisk, fun j => ?_⟩
  rw [hphases]
  by_cases hji : j = i
  · subst hji
    rw [update_self]
    exact hself
  · rw [update_of_ne hji]
    by_cases huses : (s.phases j).uses
    · rcases hothers with ⟨hsame, hmemory⟩ | hnone
      · have hbytes : s'.bytes json calls j = s.bytes json calls j := by
          refine bytes_eq_of_not_holds ?_ huses
          rcases hmemory with hmemory | hfree
          · exact .inl hmemory
          · refine .inr fun hholds => ?_
            rw [← hturns.holder j, hfree] at hholds
            cases hholds
        rw [hsame, hbytes]
        exact h.staged j
      · exact absurd huses (hnone j hji)
    · exact stagedAt_of_not_uses huses

theorem Staged.step (h : Staged json calls s) (hturns : Turns calls s) (hok : Orderly calls s a)
    (hsteps : Steps json calls a s s') : Staged json calls s' := by
  have halone : (s.phases a.call).uses → ∀ j, j ≠ a.call → ¬ (s.phases j).uses :=
    fun huses j hj hother => hj (hturns.oneSave j a.call hother huses)
  cases hsteps with
  | discovers hplugin ha hphase heq | fails error hcause hphase heq
  | publishes pluginId enabled hcall ha hphase heq =>
    subst heq
    exact h.move hturns rfl h.disk trivial (.inl ⟨rfl, .inl rfl⟩)
  | locks pluginId enabled hcall ha hphase hfree heq | assigns settings hcall ha hphase hfree heq =>
    subst heq
    exact h.move hturns rfl h.disk trivial (.inl ⟨rfl, .inr hfree⟩)
  | creates ha hphase heq =>
    subst heq
    obtain ⟨hdisk, htemporary, hempty, -⟩ := h.disk.create
    refine h.move hturns rfl hdisk ⟨htemporary, zero_le _, ?_⟩ (.inr (hok.apart ha))
    rw [take_zero]
    exact hempty
  | writes count file offset data ha hphase hdata heq =>
    subst heq
    have hat := h.staged a.call
    rw [hphase] at hat
    obtain ⟨htemporary, hoffset, hcontents⟩ := hat
    have hdata' : data = ((s.bytes json calls a.call).drop offset).take count := hdata
    have hwritten : (s.disk.write file offset data).contents file
        = (s.bytes json calls a.call).take (offset + data.length) := by
      simp only [Disk.write, update_self, hcontents, hdata']
      exact overwrite_take _ _ hoffset
    refine h.move hturns rfl (h.disk.write htemporary offset data).1 ?_
      (.inr (halone (by rw [hphase]; exact trivial)))
    show StagedAt _ (s.bytes json calls a.call) _
    unfold afterWrite
    split
    case isTrue hmore => exact ⟨htemporary, le_of_lt hmore, hwritten⟩
    case isFalse hall =>
      refine ⟨htemporary, hwritten.trans ?_⟩
      exact take_of_length_le (Nat.le_of_not_lt hall)
  | syncs file ha hphase heq =>
    subst heq
    have hat := h.staged a.call
    rw [hphase] at hat
    exact h.move hturns rfl h.disk ⟨file, hat⟩ (.inl ⟨rfl, .inl rfl⟩)
  | renames file ha hphase htemporary heq =>
    subst heq
    exact h.move hturns rfl (h.disk.rename htemporary) trivial
      (.inr (halone (by rw [hphase]; exact trivial)))

-- ==== agreement

/-- Those that have replaced the file are those that succeed. -/
structure Ordered (acts : List (Action ι)) (s : Shared ι) : Prop where
  nodup : (order acts).Nodup
  mem : ∀ i, i ∈ order acts ↔ (s.phases i).succeeded

theorem Ordered.move (h : Ordered acts s)
    (hphases : s'.phases = Function.update s.phases i phase) (ha : a.act ≠ .rename false)
    (hphase : phase.succeeded ↔ (s.phases i).succeeded) : Ordered (acts ++ [a]) s' := by
  refine ⟨?_, fun j => ?_⟩
  · rw [order_snoc_of_ne ha]
    exact h.nodup
  · rw [order_snoc_of_ne ha, h.mem j, hphases]
    by_cases hji : j = i
    · subst hji
      rw [update_self, hphase]
    · rw [update_of_ne hji]

theorem Ordered.step (h : Ordered acts s) (hstaged : Staged json calls s)
    (hsteps : Steps json calls a s s') : Ordered (acts ++ [a]) s' := by
  cases hsteps with
  | discovers hplugin ha hphase heq =>
    subst heq
    refine h.move rfl ha ?_
    rw [hphase]
    exact Iff.rfl
  | fails error hcause hphase heq =>
    subst heq
    exact h.move rfl (not_rename_of_fails hstaged hcause) (iff_of_false id hphase)
  | locks pluginId enabled hcall ha hphase hfree heq | syncs file ha hphase heq
  | assigns settings hcall ha hphase hfree heq | publishes pluginId enabled hcall ha hphase heq =>
    subst heq
    refine h.move rfl (by simp [ha]) ?_
    rw [hphase]
    exact Iff.rfl
  | creates ha hphase heq =>
    subst heq
    refine h.move rfl (by simp [ha]) (iff_of_false id ?_)
    rcases hphase with ⟨hphase, -⟩ | ⟨hphase, -⟩
    · rw [hphase]
      exact id
    · rw [hphase]
      exact id
  | writes count file offset data ha hphase hdata heq =>
    subst heq
    refine h.move rfl (by simp [ha]) (iff_of_false ?_ ?_)
    · exact not_succeeded_of_uses (uses_afterWrite _ _ _)
    · rw [hphase]
      exact id
  | renames file ha hphase htemporary heq =>
    subst heq
    have hnew : a.call ∉ order acts := by
      rw [h.mem, hphase]
      exact id
    refine ⟨?_, fun j => ?_⟩
    · rw [order_snoc ha]
      exact nodup_append.2 ⟨h.nodup, nodup_singleton _, by
        intro j hj k hk heq
        rw [mem_singleton.1 hk] at heq
        exact hnew (heq ▸ hj)⟩
    · rw [order_snoc ha, mem_append, mem_singleton, h.mem j]
      by_cases hji : j = a.call
      · subst hji
        exact iff_of_true (.inr rfl) (by simp [enter, Phase.succeeded])
      · simp [enter, hji]

/-- Memory, file and runtime have what the calls in their order give; an
open call has one side of it. -/
structure Agrees (json : SerdeJson) (calls : ι → Call) (start : Shared ι)
    (acts : List (Action ι)) (s : Shared ι) : Prop where
  memory : (∀ i, ¬ (s.phases i).open (calls i)) →
    s.memory = inTurn calls start.memory (order acts)
  update : ∀ i settings, calls i = .updateSettings settings → (s.phases i).open (calls i) →
    inTurn calls start.memory (order acts) = settings
  plugin : ∀ i, (calls i).IsPlugin → (s.phases i).open (calls i) →
    s.memory = (calls i).apply (inTurn calls start.memory (order acts))
  file : s.disk.file = if order acts = [] then start.disk.file
    else some (savedBytes json (inTurn calls start.memory (order acts)))
  disabled : ∀ pluginId, pluginId ∈ s.disabled ↔ pluginId ∈ start.disabled
    ∧ ∀ i, (calls i).reenables = some pluginId → ¬ (s.phases i).open (calls i) ∧ i ∉ order acts

theorem Agrees.move (h : Agrees json calls start acts s)
    (hphases : s'.phases = Function.update s.phases i phase) (ha : a.act ≠ .rename false)
    (hopen : phase.open (calls i) ↔ (s.phases i).open (calls i)) (hmemory : s'.memory = s.memory)
    (hfile : s'.disk.file = s.disk.file) (hdisabled : s'.disabled = s.disabled) :
    Agrees json calls start (acts ++ [a]) s' := by
  have hsame : ∀ j, (s'.phases j).open (calls j) ↔ (s.phases j).open (calls j) := by
    intro j
    rw [hphases]
    by_cases hji : j = i
    · subst hji
      rw [update_self, hopen]
    · rw [update_of_ne hji]
  constructor
  all_goals simp only [order_snoc_of_ne ha, hsame, hmemory, hfile, hdisabled]
  · exact h.memory
  · exact h.update
  · exact h.plugin
  · exact h.file
  · exact h.disabled

variable {call : Call}

theorem not_open_of (hsaved : phase ≠ .saved) (hchanged : phase ≠ .changed)
    (huses : ¬ phase.uses) : ¬ phase.open call := by
  cases call with
  | updateSettings settings => exact hsaved
  | setPluginEnabled pluginId enabled => simp [Phase.open, hchanged, huses]

theorem open_iff_of_uses (huses : phase.uses) : phase.open call ↔ call.IsPlugin := by
  cases call with
  | updateSettings settings => exact iff_of_false (ne_changed_of_uses huses).2.2 id
  | setPluginEnabled pluginId enabled => exact iff_of_true (.inr huses) trivial

omit [DecidableEq ι] in
theorem not_open_of_fails (hstaged : Staged json calls s)
    (hok : Orderly calls s a) (hphase : ¬ (s.phases a.call).succeeded)
    (hcause : a.act.Fails ∨ (a.act = .rename false ∧ s.phases a.call = .synced
        ∧ s.disk.temporary = none) ∨ (a.act = .discover false ∧ s.phases a.call = .called)) :
    ¬ (s.phases a.call).open (calls a.call) := by
  rcases hcause with hfails | ⟨-, hsynced, hnone⟩ | ⟨-, hcalled⟩
  · cases hcall : calls a.call with
    | updateSettings settings =>
      intro hopen
      rw [show s.phases a.call = .saved from hopen] at hphase
      exact hphase trivial
    | setPluginEnabled pluginId enabled =>
      refine absurd hfails (hok.sound ?_)
      rw [hcall]
      exact trivial
  · exact absurd hnone (hstaged.temporary_of_synced hsynced)
  · rw [hcalled]
    exact not_open_of (by simp) (by simp) id

theorem Agrees.lock (h : Agrees json calls start acts s) {pluginId : String} {enabled : Bool}
    (hcall : calls a.call = .setPluginEnabled pluginId enabled) (ha : a.act ≠ .rename false)
    (hnone : ∀ j, ¬ (s.phases j).open (calls j))
    (hphases : s'.phases = Function.update s.phases a.call .changed)
    (hmemory : s'.memory = (calls a.call).apply s.memory) (hdisk : s'.disk = s.disk)
    (hdisabled : s'.disabled = if enabled then s.disabled.filter (· ≠ pluginId) else s.disabled) :
    Agrees json calls start (acts ++ [a]) s' := by
  have hopen : ∀ j, (s'.phases j).open (calls j) ↔ j = a.call := by
    intro j
    by_cases hj : j = a.call
    · subst hj
      rw [hphases, update_self, hcall]
      exact iff_of_true (.inl rfl) rfl
    · rw [hphases, update_of_ne hj]
      exact iff_of_false (hnone j) hj
  have hreenables : (calls a.call).reenables = if enabled then some pluginId else none := by
    rw [hcall]
    cases enabled with
    | true => rfl
    | false => rfl
  constructor
  all_goals simp only [order_snoc_of_ne ha, hopen]
  · intro hall
    exact absurd rfl (hall a.call)
  · rintro i settings hupdate rfl
    simp [hcall] at hupdate
  · rintro i - rfl
    rw [hmemory, h.memory hnone]
  · rw [hdisk]
    exact h.file
  · intro id
    have hbefore := h.disabled id
    simp only [hnone, not_false_eq_true, true_and] at hbefore
    rw [hdisabled]
    constructor
    · intro hid
      have hold : id ∈ s.disabled ∧ (enabled = true → id ≠ pluginId) := by
        cases enabled with
        | true => simpa using hid
        | false => exact ⟨hid, by simp⟩
      refine ⟨(hbefore.1 hold.1).1, fun i hi => ⟨?_, (hbefore.1 hold.1).2 i hi⟩⟩
      rintro rfl
      rw [hreenables] at hi
      cases enabled with
      | true => exact hold.2 rfl (some.inj hi).symm
      | false => cases hi
    · rintro ⟨hid, hall⟩
      have hold := hbefore.2 ⟨hid, fun i hi => (hall i hi).2⟩
      cases enabled with
      | false => exact hold
      | true =>
        have hne : id ≠ pluginId := by
          rintro rfl
          exact (hall a.call hreenables).1 rfl
        simpa using ⟨hold, hne⟩

theorem Agrees.rename (h : Agrees json calls start acts s) (ha : a.act = .rename false)
    (halone : ∀ j, j ≠ a.call → ¬ (s.phases j).open (calls j)) (huses : (s.phases a.call).uses)
    (hphases : s'.phases = Function.update s.phases a.call .saved) (hmemory : s'.memory = s.memory)
    (hfile : s'.disk.file = some (s.bytes json calls a.call))
    (hdisabled : s'.disabled = s.disabled) : Agrees json calls start (acts ++ [a]) s' := by
  have hother : ∀ j, j ≠ a.call → ¬ (s'.phases j).open (calls j) := by
    intro j hj
    rw [hphases, update_of_ne hj]
    exact halone j hj
  -- what the call saves is what the calls give with it
  have hsaving : s.saving (calls a.call)
      = (calls a.call).apply (inTurn calls start.memory (order acts)) := by
    cases hcall : calls a.call with
    | updateSettings settings => rfl
    | setPluginEnabled pluginId enabled =>
      have hplugin : (calls a.call).IsPlugin := by
        rw [hcall]
        exact trivial
      have hmine := h.plugin a.call hplugin ((open_iff_of_uses huses).2 hplugin)
      rw [hcall] at hmine
      exact hmine
  constructor
  all_goals simp only [order_snoc ha, inTurn_snoc, hmemory]
  · intro hall
    cases hcall : calls a.call with
    | updateSettings settings =>
      have hself := hall a.call
      rw [hphases, update_self, hcall] at hself
      exact absurd rfl hself
    | setPluginEnabled pluginId enabled =>
      rw [hcall] at hsaving
      exact hsaving
  · intro i settings hupdate hopen
    by_cases hi : i = a.call
    · subst hi
      rw [hupdate]
      rfl
    · exact absurd hopen (hother i hi)
  · intro i hplugin hopen
    by_cases hi : i = a.call
    · subst hi
      rw [hphases, update_self] at hopen
      cases hcall : calls a.call with
      | updateSettings settings =>
        rw [hcall] at hplugin
        exact absurd hplugin id
      | setPluginEnabled pluginId enabled =>
        rw [hcall] at hopen
        simp [Phase.open, Phase.uses] at hopen
    · exact absurd hopen (hother i hi)
  · rw [hfile, if_neg (by simp), ← hsaving]
    rfl
  · intro id
    rw [hdisabled, h.disabled id]
    refine and_congr_right fun _ => forall_congr' fun i => imp_congr_right fun hi => ?_
    rw [mem_append, mem_singleton]
    by_cases hmine : i = a.call
    · subst hmine
      have hplugin : (calls a.call).IsPlugin := by
        cases hcall : calls a.call with
        | updateSettings settings =>
          rw [hcall] at hi
          cases hi
        | setPluginEnabled pluginId enabled => exact trivial
      have hopen := (open_iff_of_uses huses).2 hplugin
      refine iff_of_false ?_ ?_
      · exact fun hnot => hnot.1 hopen
      · exact fun hnot => hnot.2 (.inr rfl)
    · have hbefore := halone i hmine
      have hafter := hother i hmine
      simp [hbefore, hafter, hmine]

theorem Agrees.assign (h : Agrees json calls start acts s) (hturns : Turns calls s)
    {settings : Settings} (hcall : calls a.call = .updateSettings settings)
    (ha : a.act ≠ .rename false) (hphase : s.phases a.call = .saved)
    (hphases : s'.phases = Function.update s.phases a.call (.returned (.ok ())))
    (hmemory : s'.memory = settings) (hdisk : s'.disk = s.disk)
    (hdisabled : s'.disabled = s.disabled) : Agrees json calls start (acts ++ [a]) s' := by
  have hmine : (s.phases a.call).open (calls a.call) := by
    rw [hphase, hcall]
    exact rfl
  have hothers : ∀ j, j ≠ a.call → ¬ (s.phases j).open (calls j) :=
    fun j hj hopen => hj (hturns.oneOpen j a.call hopen hmine)
  have hnone : ∀ j, ¬ (s'.phases j).open (calls j) := by
    intro j
    by_cases hj : j = a.call
    · subst hj
      rw [hphases, update_self]
      exact not_open_of (by simp) (by simp) id
    · rw [hphases, update_of_ne hj]
      exact hothers j hj
  constructor
  all_goals simp only [order_snoc_of_ne ha]
  · intro _
    rw [hmemory]
    exact (h.update a.call settings hcall hmine).symm
  · exact fun i settings _ hopen => absurd hopen (hnone i)
  · exact fun i _ hopen => absurd hopen (hnone i)
  · rw [hdisk]
    exact h.file
  · intro id
    rw [hdisabled, h.disabled id]
    refine and_congr_right fun _ => forall_congr' fun i => imp_congr_right fun hi => ?_
    have hne : i ≠ a.call := by
      rintro rfl
      rw [hcall] at hi
      cases hi
    simp [hothers i hne, hnone i]

theorem Agrees.step (h : Agrees json calls start acts s)
    (hturns : Turns calls s) (hstaged : Staged json calls s) (hok : Orderly calls s a)
    (hsteps : Steps json calls a s s') : Agrees json calls start (acts ++ [a]) s' := by
  cases hsteps with
  | discovers hplugin ha hphase heq =>
    subst heq
    refine h.move rfl ha (iff_of_false ?_ ?_) rfl rfl rfl
    · exact not_open_of (by simp) (by simp) id
    · rw [hphase]
      exact not_open_of (by simp) (by simp) id
  | fails error hcause hphase heq =>
    subst heq
    refine h.move rfl (not_rename_of_fails hstaged hcause) (iff_of_false ?_ ?_) rfl rfl rfl
    · exact not_open_of (by simp) (by simp) id
    · exact not_open_of_fails hstaged hok hphase hcause
  | locks pluginId enabled hcall ha hphase hfree heq =>
    subst heq
    refine h.lock hcall (by simp [ha]) (fun j => ?_) rfl rfl rfl rfl
    by_cases hj : j = a.call
    · rw [hj, hphase]
      exact not_open_of (by simp) (by simp) id
    · exact hok.alone (.inr ha) j hj
  | creates ha hphase heq =>
    subst heq
    obtain ⟨-, -, -, hfile⟩ := hstaged.disk.create
    refine h.move rfl (by simp [ha]) ?_ rfl hfile rfl
    rw [open_iff_of_uses (show (Phase.created _ _).uses from trivial)]
    rcases hphase with ⟨hphase, hnot⟩ | ⟨hphase, hplugin⟩
    · rw [hphase]
      exact iff_of_false hnot (not_open_of (by simp) (by simp) id)
    · refine iff_of_true hplugin ?_
      rw [hphase]
      cases hcall : calls a.call with
      | updateSettings settings =>
        rw [hcall] at hplugin
        exact absurd hplugin id
      | setPluginEnabled pluginId enabled => exact .inl rfl
  | writes count file offset data ha hphase hdata heq =>
    subst heq
    have hat := hstaged.staged a.call
    rw [hphase] at hat
    refine h.move rfl (by simp [ha]) ?_ rfl (hstaged.disk.write hat.1 offset data).2 rfl
    rw [open_iff_of_uses (uses_afterWrite _ _ _), hphase,
      open_iff_of_uses (show (Phase.created _ _).uses from trivial)]
  | syncs file ha hphase heq =>
    subst heq
    refine h.move rfl (by simp [ha]) ?_ rfl rfl rfl
    rw [hphase, open_iff_of_uses (show Phase.synced.uses from trivial),
      open_iff_of_uses (show (Phase.written file).uses from trivial)]
  | renames file ha hphase htemporary heq =>
    subst heq
    have hat := hstaged.staged a.call
    rw [hphase] at hat
    obtain ⟨file', htemporary', hcontents⟩ := hat
    obtain rfl : file = file' := some.inj (htemporary.symm.trans htemporary')
    refine h.rename ha (hok.alone (.inl ha)) (by rw [hphase]; exact trivial) rfl rfl ?_ rfl
    exact congrArg some hcontents
  | assigns settings hcall ha hphase hfree heq =>
    subst heq
    exact h.assign hturns hcall (by simp [ha]) hphase rfl rfl rfl rfl
  | publishes pluginId enabled hcall ha hphase heq =>
    subst heq
    refine h.move rfl (by simp [ha]) (iff_of_false ?_ ?_) rfl rfl rfl
    · exact not_open_of (by simp) (by simp) id
    · rw [hphase, hcall]
      simp [Phase.open, Phase.uses]

-- ==== runs

/-- The four invariants. -/
structure Kept (json : SerdeJson) (calls : ι → Call) (start : Shared ι)
    (acts : List (Action ι)) (s : Shared ι) : Prop where
  turns : Turns calls s
  staged : Staged json calls s
  ordered : Ordered acts s
  agrees : Agrees json calls start acts s

theorem Kept.step (h : Kept json calls start acts s) (hok : Orderly calls s a)
    (hstep : shareStep json calls a s = some s') : Kept json calls start (acts ++ [a]) s' := by
  have hsteps := steps_of_step hstep fun hchanged => h.turns.plugin a.call (.inr hchanged)
  exact ⟨h.turns.step hok hsteps, h.staged.step h.turns hok hsteps,
    h.ordered.step h.staged hsteps, h.agrees.step h.turns h.staged hok hsteps⟩

omit [DecidableEq ι] in
theorem kept_initial (memory : Settings) (hdisk : disk.Sound) (disabled : List String) :
    Kept json calls (initial memory disk disabled) [] (initial memory disk disabled)
    where
  turns :=
    { plugin := fun i h => by simp [initial] at h
      holder := fun i => iff_of_false (by simp [initial]) (by
        cases calls i with
        | updateSettings settings => exact id
        | setPluginEnabled pluginId enabled => simp [initial, Phase.holds, Phase.uses])
      oneOpen := fun i j h => absurd h (not_open_of (by simp [initial]) (by simp [initial]) id)
      oneSave := fun i j h => absurd h id }
  staged := ⟨hdisk, fun i => trivial⟩
  ordered := ⟨nodup_nil, fun i => iff_of_false (by simp [order]) id⟩
  agrees :=
    { memory := fun _ => rfl
      update := fun i settings _ h => absurd h (not_open_of (by simp [initial])
        (by simp [initial]) id)
      plugin := fun i _ h => absurd h (not_open_of (by simp [initial]) (by simp [initial]) id)
      file := rfl
      disabled := fun pluginId => by
        refine ⟨fun h => ⟨h, fun i _ => ⟨?_, by simp [order]⟩⟩, fun h => h.1⟩
        exact not_open_of (by simp [initial]) (by simp [initial]) id }

/-- The call was not made, or has returned. -/
def Phase.settled : Phase → Prop
  | .called | .returned _ => True
  | _ => False

theorem not_open_of_settled (h : phase.settled) : ¬ phase.open call := by
  cases phase with
  | called | returned result => exact not_open_of (by simp) (by simp) id
  | _ => exact absurd h id

theorem succeeded_iff_of_settled (h : phase.settled) :
    phase.succeeded ↔ phase = .returned (.ok ()) := by
  cases phase with
  | called => exact iff_of_false id (by simp)
  | returned result =>
    cases result with
    | ok value => exact iff_of_true trivial rfl
    | error error => exact iff_of_false id (by simp)
  | _ => exact absurd h id

/-- What these calls leave, one after another from the start, where they
are the calls that have succeeded. -/
structure Sequential (json : SerdeJson) (calls : ι → Call) (start s : Shared ι)
    (done : List ι) : Prop where
  nodup : done.Nodup
  succeeded : ∀ i, i ∈ done ↔ s.phases i = .returned (.ok ())
  memory : s.memory = inTurn calls start.memory done
  file : s.disk.file = if done = [] then start.disk.file else some (savedBytes json s.memory)
  disabled : ∀ pluginId, pluginId ∈ s.disabled
    ↔ pluginId ∈ start.disabled ∧ ∀ i ∈ done, (calls i).reenables ≠ some pluginId

/-- In every run like this, whenever no call is under way, memory, file
and runtime are what the calls that succeeded leave, one after another
in some order; those that failed have changed nothing. -/
theorem settings_agree (json : SerdeJson) (calls : ι → Call) (memory : Settings) {disk : Disk}
    (hdisk : disk.Sound) (disabled : List String)
    (hrun : Run (shareStep json calls) (Orderly calls) (initial memory disk disabled)
      acts s)
    (hsettled : ∀ i, (s.phases i).settled) :
    ∃ done, Sequential json calls (initial memory disk disabled) s done := by
  have hkept : Kept json calls (initial memory disk disabled) acts s :=
    Run.invariant_trace (kept_initial memory hdisk disabled)
      (fun a _ hok hstep hkept => hkept.step hok hstep) hrun
  have hnone : ∀ i, ¬ (s.phases i).open (calls i) := fun i => not_open_of_settled (hsettled i)
  have hmemory := hkept.agrees.memory hnone
  refine ⟨order acts, hkept.ordered.nodup, fun i => ?_, hmemory, ?_, fun pluginId => ?_⟩
  · rw [hkept.ordered.mem i, succeeded_iff_of_settled (hsettled i)]
  · rw [hmemory]
    exact hkept.agrees.file
  · rw [hkept.agrees.disabled pluginId]
    refine and_congr_right fun _ => ⟨fun h i hi heq => (h i heq).2 hi, fun h i heq => ?_⟩
    exact ⟨hnone i, fun hi => h i hi heq⟩

-- ==== examples

instance (phase : Phase) : Decidable phase.uses :=
  match phase with
  | .created _ _ | .written _ | .synced => isTrue trivial
  | .called | .discovered | .changed | .saved | .returned _ => isFalse id

instance (phase : Phase) : Decidable phase.settled :=
  match phase with
  | .called | .returned _ => isTrue trivial
  | .discovered | .changed | .created _ _ | .written _ | .synced | .saved => isFalse id

instance (call : Call) (phase : Phase) : Decidable (phase.open call) :=
  match call with
  | .updateSettings _ => inferInstanceAs (Decidable (phase = .saved))
  | .setPluginEnabled _ _ => inferInstanceAs (Decidable (phase = .changed ∨ phase.uses))

instance (call : Call) : Decidable call.IsPlugin :=
  match call with
  | .updateSettings _ => isFalse id
  | .setPluginEnabled _ _ => isTrue trivial

instance (act : Act) : Decidable act.Fails :=
  match act with
  | .create fails | .write _ fails | .sync fails | .rename fails =>
    inferInstanceAs (Decidable (fails = true))
  | .discover _ | .lock | .assign | .publish => isFalse id

instance [Fintype ι] (calls : ι → Call) (s : Shared ι) (a : Action ι) :
    Decidable (Orderly calls s a) :=
  decidable_of_iff ((a.act = .create false → ∀ j, j ≠ a.call → ¬ (s.phases j).uses)
      ∧ (a.act = .rename false ∨ a.act = .lock → ∀ j, j ≠ a.call → ¬ (s.phases j).open (calls j))
      ∧ ((calls a.call).IsPlugin → ¬ a.act.Fails))
    ⟨fun ⟨apart, alone, sound⟩ => ⟨apart, alone, sound⟩,
      fun ⟨apart, alone, sound⟩ => ⟨apart, alone, sound⟩⟩

/-- What `save` writes of the defaults with a theme and some plugins. -/
def writtenText (theme plugins : List Char) : List Char :=
  '\x7b' :: '\n' :: ("  \"schemaVersion\": 4,\n  \"theme\": \"".toList ++ theme
    ++ "\",\n  \"language\": \"en\",\n  \"fontSize\": 13,\n  \"rowHeight\": 20,\n".toList
    ++ "  \"dateFormat\": \"medium\",\n  \"sizeFormat\": \"binary\",\n".toList
    ++ "  \"showHiddenFiles\": false,\n  \"confirmPermanentDelete\": true,\n".toList
    ++ "  \"defaultConflictPolicy\": \"ask\",\n  \"operationConcurrency\": 2,\n".toList
    ++ "  \"defaultPaneLayout\": \"dual\",\n  \"defaultColumns\": [\n".toList
    ++ "    \"core.name\",\n    \"core.size\",\n    \"core.modified\"\n  ],\n".toList
    ++ "  \"columnWidths\": \x7b\x7d,\n  \"keybindings\": \x7b\x7d,\n".toList
    ++ "  \"enabledPlugins\": [".toList ++ plugins ++ "],\n  \"pluginSettings\": \x7b\x7d,\n".toList
    ++ "  \"terminalCommand\": null,\n  \"editorCommand\": null,\n".toList
    ++ "  \"defaultStartLocations\": [],\n  \"favouriteLocations\": [],\n".toList
    ++ "  \"recentLocationsByWorkspace\": \x7b\x7d,\n  \"iconTheme\": \"generic\"\n\x7d".toList)

/-- The text as a list of characters: the kernel reads a string literal
byte by byte, which is slow. -/
def writtenChars (theme plugins : List Char) :
    { text : List Char // writtenText theme plugins = text } :=
  ⟨_, by
    unfold writtenText
    rw [toList_ofList, toList_ofList, toList_ofList, toList_ofList,
      toList_ofList, toList_ofList, toList_ofList, toList_ofList,
      toList_ofList, toList_ofList, toList_ofList, toList_ofList,
      toList_ofList]⟩

def pluginsText : Option Value → List Char
  | some (.array [.string pluginId]) => "\n    \"".toList ++ pluginId.toList ++ "\"\n  ".toList
  | _ => []

def themeText : Option Value → List Char
  | some (.string theme) => theme.toList
  | _ => []

/-- `serde_json` on these settings. -/
def writingJson : SerdeJson where
  fromSlice _ := none
  toVecPretty
    | .object fields => Text.utf8 (writtenText (themeText (get fields "theme"))
        (pluginsText (get fields "enabledPlugins")))
    | _ => []

def charsJson : SerdeJson where
  fromSlice _ := none
  toVecPretty
    | .object fields => Text.utf8 (writtenChars (themeText (get fields "theme"))
        (pluginsText (get fields "enabledPlugins"))).1
    | _ => []

theorem writingJson_eq : writingJson = charsJson := by
  unfold writingJson charsJson
  refine congrArg (SerdeJson.mk _) (funext fun value => ?_)
  cases value with
  | object fields => exact congrArg Text.utf8 (writtenChars _ _).2
  | _ => rfl

def noFiles : Disk where
  contents _ := []
  fresh := 0
  temporary := none
  settings := none

theorem noFiles_sound : noFiles.Sound where
  temporary n h := by cases h
  settings n h := by cases h
  apart n h := by cases h

def darkSettings : Settings := { standard with theme := .dark }

/-- One call chooses the dark theme, the other enables a plugin. -/
def darkAndIcons : Bool → Call
  | false => .updateSettings darkSettings
  | true => .setPluginEnabled "icons" true

/-- A save of a call, up to the rename. -/
def saveActs {ι : Type} (i : ι) : List (Action ι) :=
  [⟨i, .create false⟩, ⟨i, .write 100 false⟩, ⟨i, .write 1000 false⟩, ⟨i, .sync false⟩,
    ⟨i, .rename false⟩]

/-- The plugin is looked up before the settings are saved. -/
def darkThenIcons : List (Action Bool) :=
  ⟨true, .discover true⟩ :: saveActs false ++ ⟨false, .assign⟩ :: ⟨true, .lock⟩ :: saveActs true
    ++ [⟨true, .publish⟩]

/-- Both calls have had their effect. -/
def DarkWithIcons (s : Shared Bool) : Prop :=
  (∀ i, (s.phases i).settled) ∧ s.memory.theme = .dark ∧ s.memory.enabledPlugins = ["icons"]
    ∧ s.disabled = []
    ∧ s.disk.file = some (Text.utf8 (writtenText "dark".toList "\n    \"icons\"\n  ".toList))

instance (s : Shared Bool) : Decidable (DarkWithIcons s) := inferInstanceAs (Decidable (_ ∧ _))

theorem dark_then_icons_agree :
    ∃ s, Run (shareStep writingJson darkAndIcons) (Orderly darkAndIcons)
        (initial standard noFiles ["icons"]) darkThenIcons s
      ∧ DarkWithIcons s
      ∧ ∃ done, Sequential writingJson darkAndIcons (initial standard noFiles ["icons"])
        s done := by
  obtain ⟨s, hrun, hend⟩ : ∃ s, Run (shareStep writingJson darkAndIcons) (Orderly darkAndIcons)
      (initial standard noFiles ["icons"]) darkThenIcons s ∧ DarkWithIcons s := by
    unfold DarkWithIcons
    rw [writingJson_eq, (writtenChars _ _).2]
    exact Run.exists_of_guardedRun (by decide +kernel)
  exact ⟨s, hrun, hend, settings_agree writingJson darkAndIcons standard noFiles_sound ["icons"]
    hrun hend.1⟩

def darkAndStandard : Bool → Call
  | false => .updateSettings darkSettings
  | true => .updateSettings standard

/-- The second call is done between the two steps of the first. -/
def standardWithinDark : List (Action Bool) :=
  saveActs false ++ saveActs true ++ [⟨true, .assign⟩, ⟨false, .assign⟩]

/-- A plugin whose enablement is not saved is enabled in memory and in
the runtime. Of two updates that cross the memory has the first, the
file the second. -/
theorem failed_enablement_kept_and_updates_cross :
    (∃ s, Run (shareStep writingJson darkAndIcons) Free
        (initial standard noFiles ["icons"])
        [⟨true, .discover true⟩, ⟨true, .lock⟩, ⟨true, .create true⟩] s
      ∧ ((∀ i, (s.phases i).settled) ∧ (∀ i, s.phases i ≠ .returned (.ok ()))
        ∧ s.memory.enabledPlugins = ["icons"] ∧ s.disabled = [])
      ∧ ¬ ∃ done, Sequential writingJson darkAndIcons (initial standard noFiles ["icons"])
        s done)
    ∧ ∃ s, Run (shareStep writingJson darkAndStandard) Free (initial standard noFiles [])
        standardWithinDark s
      ∧ ((∀ i, s.phases i = .returned (.ok ()))
        ∧ s.disk.file ≠ some (savedBytes writingJson s.memory))
      ∧ ¬ ∃ done, Sequential writingJson darkAndStandard (initial standard noFiles [])
        s done := by
  constructor
  · obtain ⟨s, hrun, hend⟩ : ∃ s, Run (shareStep writingJson darkAndIcons) Free
          (initial standard noFiles ["icons"])
          [⟨true, .discover true⟩, ⟨true, .lock⟩, ⟨true, .create true⟩] s
        ∧ ((∀ i, (s.phases i).settled) ∧ (∀ i, s.phases i ≠ .returned (.ok ()))
          ∧ s.memory.enabledPlugins = ["icons"] ∧ s.disabled = []) := by
      rw [writingJson_eq]
      exact Run.exists_of_run (by decide +kernel)
    refine ⟨s, hrun, hend, ?_⟩
    obtain ⟨-, hfailed, hplugins, -⟩ := hend
    rintro ⟨done, h⟩
    obtain rfl : done = [] := by
      rw [List.eq_nil_iff_forall_not_mem]
      exact fun i hi => hfailed i ((h.succeeded i).1 hi)
    rw [h.memory] at hplugins
    exact absurd hplugins (by decide)
  · obtain ⟨s, hrun, hend⟩ : ∃ s, Run (shareStep writingJson darkAndStandard) Free
          (initial standard noFiles []) standardWithinDark s
        ∧ ((∀ i, s.phases i = .returned (.ok ()))
          ∧ s.disk.file ≠ some (savedBytes writingJson s.memory)) := by
      rw [writingJson_eq]
      exact Run.exists_of_run (by decide +kernel)
    refine ⟨s, hrun, hend, ?_⟩
    obtain ⟨hok, hfile⟩ := hend
    rintro ⟨done, h⟩
    have hdone : done ≠ [] := List.ne_nil_of_mem ((h.succeeded true).2 (hok true))
    rw [h.file, if_neg hdone] at hfile
    exact hfile rfl

end FileManager.Settings
