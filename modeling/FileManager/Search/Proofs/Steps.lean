/-
The steps of a search, read off once, and what the counter of finished
traversals guarantees in every run, whatever the interleaving: each
traversal is somewhere in one flush (`Shape`), and exactly one of them
is told that it is the last, when the other has been counted
(`Counted`).
-/
import FileManager.Search.Engine
import FileManager.Lib.Machine
import FileManager.Lib.Fallible

namespace FileManager.Search

open Machine Running Search.Path List Option

variable {ctx : SearchContext} {s s' : Running} {t : Traversal} {rest : List Effect}
  {effect : Effect} {toNativePath : Location → Bool} {store : SearchResultsStore}
  {roots : List Location} {a : Action}

-- ==== paths

theorem Path.eq_or_eq_other (path q : Path) : q = path ∨ q = path.other := by
  cases path <;> cases q <;> simp [other]

theorem Path.other_ne (path : Path) : path.other ≠ path := by
  cases path <;> simp [other]

@[simp] theorem Path.other_other (path : Path) : path.other.other = path := by
  cases path <;> rfl

theorem Path.add_eq (path : Path) (f : Path → Nat) :
    f .native + f .vfs = f path + f path.other := by
  cases path with
  | native => rfl
  | vfs => exact Nat.add_comm _ _

@[simp] theorem Running.set_paths (s : Running) (path : Path) (t : Traversal) :
    (s.set path t).paths path = some t := by
  simp [set]

@[simp] theorem Running.set_paths_other (s : Running) (path : Path) (t : Traversal) :
    (s.set path t).paths path.other = s.paths path.other := by
  simp [set, other_ne]

variable {path : Path}

theorem Running.forall_set {P : Path → Traversal → Prop} (hpath : P path t)
    (hother : ∀ o, s.paths path.other = some o → P path.other o) :
    ∀ q u, (s.set path t).paths q = some u → P q u := by
  intro q u hq
  rcases eq_or_eq_other path q with rfl | rfl
  · rw [set_paths] at hq
    exact some.inj hq ▸ hpath
  · rw [set_paths_other] at hq
    exact hother u hq

-- ==== what a step is

theorem step_cases (h : step ctx a s = some s') :
    (∃ path t found failures elapsed, a = .scan path found failures elapsed
      ∧ s.paths path = some t ∧ t.todo = [] ∧ t.phase = .walking
      ∧ s' = s.set path (t.scan ctx found failures elapsed))
    ∨ (∃ path t, a = .finish path ∧ s.paths path = some t ∧ t.todo = [] ∧ t.phase = .walking
      ∧ s' = { s with finishedPaths := s.finishedPaths + 1 }.set path
          (t.finish ctx (s.finishedPaths + 1 = s.totalPaths)))
    ∨ (∃ path t effect rest, a = .perform path ∧ s.paths path = some t ∧ t.todo = effect :: rest
      ∧ s' = (s.perform ctx effect).set path { t with todo := rest })
    ∨ (a = .cancel ∧ s' = { s with store := s.store.cancel ctx.searchId }) := by
  cases a with
  | scan path found failures elapsed =>
    unfold step at h
    cases ht : s.paths path with
    | none => simp [ht] at h
    | some t =>
      simp only [ht, List.isEmpty_iff] at h
      split at h
      case isFalse => cases h
      case isTrue hcond =>
        left
        exact ⟨path, t, found, failures, elapsed, rfl, ht, hcond.1, hcond.2,
          (some.inj h).symm⟩
  | finish path =>
    unfold step at h
    cases ht : s.paths path with
    | none => simp [ht] at h
    | some t =>
      simp only [ht, List.isEmpty_iff] at h
      split at h
      case isFalse => cases h
      case isTrue hcond =>
        right; left
        exact ⟨path, t, rfl, ht, hcond.1, hcond.2, (some.inj h).symm⟩
  | perform path =>
    unfold step at h
    cases ht : s.paths path with
    | none => simp [ht] at h
    | some t =>
      cases htodo : t.todo with
      | nil => simp [ht, htodo] at h
      | cons effect rest =>
        simp only [ht, htodo, some.injEq] at h
        right; right; left
        exact ⟨path, t, effect, rest, rfl, ht, htodo, h.symm⟩
  | cancel =>
    unfold step at h
    right; right; right
    exact ⟨rfl, (some.inj h).symm⟩

-- ==== flushes

/-- No access to the results among them. -/
def Quiet (todo : List Effect) : Prop := ∀ effect ∈ todo, effect.touches = false

theorem quiet_progress (ctx : SearchContext) (matchesFound : Nat) :
    Quiet (progress ctx matchesFound) := by
  intro effect heffect
  unfold progress at heffect
  split at heffect
  case isTrue => rw [mem_singleton.mp heffect]; rfl
  case isFalse => cases heffect

theorem quiet_announce (ctx : SearchContext) (isLast : Bool) : Quiet (announce ctx isLast) := by
  intro effect heffect
  unfold announce at heffect
  split at heffect
  case isTrue => rw [mem_singleton.mp heffect]; rfl
  case isFalse => cases heffect

theorem Quiet.append {first second : List Effect} (hfirst : Quiet first)
    (hsecond : Quiet second) : Quiet (first ++ second) := by
  intro effect heffect
  rcases mem_append.mp heffect with h | h
  · exact hfirst effect h
  · exact hsecond effect h

theorem Quiet.tail (h : Quiet (effect :: rest)) : Quiet rest :=
  fun e he => h e (mem_cons_of_mem _ he)

theorem Quiet.filter {todo : List Effect} (h : Quiet todo) : todo.filter Effect.touches = [] := by
  rw [filter_eq_nil_iff]
  intro effect heffect
  rw [h effect heffect]
  exact Bool.false_ne_true

/-- How far a traversal is in its flush. -/
inductive Shape (t : Traversal) : Prop
  | quiet : Quiet t.todo → Shape t
  | appending (buffer : List Found) (warningsCount : UInt32) (rest : List Effect) :
      t.phase ≠ .ended true →
      t.todo = .append (buffer.map Found.entry) warningsCount
        :: .publishBatch ⟨buffer, false, warningsCount⟩ :: rest →
      Quiet rest → Shape t
  | publishing (buffer : List Found) (warningsCount : UInt32) (rest : List Effect) :
      t.phase ≠ .ended true →
      t.todo = .publishBatch ⟨buffer, false, warningsCount⟩ :: rest →
      Quiet rest → Shape t
  | closing (buffer : List Found) (rest : List Effect) :
      t.phase = .ended true →
      t.todo = .append (buffer.map Found.entry) t.warningsCount :: .markComplete
        :: .publishBatch ⟨buffer, true, t.warningsCount⟩ :: rest →
      Quiet rest → Shape t
  | marking (buffer : List Found) (rest : List Effect) :
      t.phase = .ended true →
      t.todo = .markComplete :: .publishBatch ⟨buffer, true, t.warningsCount⟩ :: rest →
      Quiet rest → Shape t
  | completing (buffer : List Found) (rest : List Effect) :
      t.phase = .ended true →
      t.todo = .publishBatch ⟨buffer, true, t.warningsCount⟩ :: rest →
      Quiet rest → Shape t

theorem shape_scan (htodo : t.todo = []) (hphase : t.phase = .walking) (found : List Found)
    (failures : UInt32) (elapsed : Bool) : Shape (t.scan ctx found failures elapsed) := by
  have hquiet : Quiet t.todo := by
    intro effect heffect
    simp [htodo] at heffect
  unfold Traversal.scan
  simp only
  split
  case isFalse => exact .quiet hquiet
  case isTrue =>
    unfold flush
    split
    case isFalse => exact .quiet (quiet_progress _ _)
    case isTrue =>
      exact .appending _ _ _ (by rw [hphase]; exact Phase.noConfusion) rfl (quiet_progress _ _)

theorem shape_finish (t : Traversal) (isLast : Bool) : Shape (t.finish ctx isLast) := by
  have hrest := (quiet_progress ctx t.matchesFound).append (quiet_announce ctx isLast)
  cases isLast with
  | true =>
    refine .closing t.buffer _ rfl ?_ hrest
    unfold Traversal.finish flush
    simp
  | false =>
    unfold Traversal.finish flush
    cases hbuffer : t.buffer with
    | nil => exact .quiet (by simpa using hrest)
    | cons first more =>
      refine .appending (first :: more) t.warningsCount _ (by simp) ?_ hrest
      simp

theorem Shape.tail (h : Shape t) (htodo : t.todo = effect :: rest) : Shape { t with todo := rest } := by
  cases h with
  | quiet hquiet =>
    rw [htodo] at hquiet
    exact .quiet hquiet.tail
  | appending buffer warningsCount more hphase heq hquiet =>
    obtain ⟨-, rfl⟩ := cons.inj (htodo.symm.trans heq)
    exact .publishing buffer warningsCount more hphase rfl hquiet
  | publishing buffer warningsCount more hphase heq hquiet
  | completing buffer more hphase heq hquiet =>
    obtain ⟨-, rfl⟩ := cons.inj (htodo.symm.trans heq)
    exact .quiet hquiet
  | closing buffer more hphase heq hquiet =>
    obtain ⟨-, rfl⟩ := cons.inj (htodo.symm.trans heq)
    exact .marking buffer more hphase rfl hquiet
  | marking buffer more hphase heq hquiet =>
    obtain ⟨-, rfl⟩ := cons.inj (htodo.symm.trans heq)
    exact .completing buffer more hphase rfl hquiet

-- ==== the counter

/-- Whether a path has a traversal, as the search counts it. -/
def Running.spawned (s : Running) (path : Path) : Nat :=
  match s.paths path with
  | some _ => 1
  | none => 0

/-- Whether the traversal of a path has been counted. -/
def Running.ended (s : Running) (path : Path) : Nat :=
  match s.paths path with
  | some t => if t.phase = .walking then 0 else 1
  | none => 0

/-- The counter tells exactly one traversal that it is the last, and
that one only when the other has been counted. -/
structure Counted (s : Running) : Prop where
  shapes : ∀ path t, s.paths path = some t → Shape t
  total : s.totalPaths = s.spawned .native + s.spawned .vfs
  finished : s.finishedPaths = s.ended .native + s.ended .vfs
  last : ∀ path t, s.paths path = some t → t.phase = .ended true →
    ∀ o, s.paths path.other = some o → o.phase = .ended false
  someone : ∀ path t, s.paths path = some t →
    s.ended .native + s.ended .vfs = s.spawned .native + s.spawned .vfs →
    t.phase = .ended true ∨ ∃ o, s.paths path.other = some o ∧ o.phase = .ended true

theorem Running.ended_le_spawned (s : Running) (path : Path) : s.ended path ≤ s.spawned path := by
  unfold ended spawned
  cases s.paths path with
  | none => exact Nat.le_refl 0
  | some t =>
    simp only
    split <;> omega

theorem Counted.of_phases (t' : Traversal) (h : Counted s)
    (ht : s.paths path = some t) (hphase : t'.phase = t.phase) (hshape : Shape t')
    (hpaths : s'.paths = (s.set path t').paths) (htotal : s'.totalPaths = s.totalPaths)
    (hfinished : s'.finishedPaths = s.finishedPaths) : Counted s' := by
  have hended : ∀ q, s'.ended q = s.ended q := by
    intro q
    unfold ended
    rw [hpaths]
    rcases eq_or_eq_other path q with rfl | rfl
    · rw [set_paths, ht]
      simp only [hphase]
    · rw [set_paths_other]
  have hspawned : ∀ q, s'.spawned q = s.spawned q := by
    intro q
    unfold spawned
    rw [hpaths]
    rcases eq_or_eq_other path q with rfl | rfl
    · rw [set_paths, ht]
    · rw [set_paths_other]
  -- every traversal of the new state stands for one of the old with the same phase
  have hback : ∀ q u, s'.paths q = some u → ∃ v, s.paths q = some v ∧ v.phase = u.phase := by
    rw [hpaths]
    exact forall_set ⟨t, ht, hphase.symm⟩ fun o ho => ⟨o, ho, rfl⟩
  refine ⟨?_, ?_, ?_, ?_, ?_⟩
  · rw [hpaths]
    exact forall_set hshape fun o ho => h.shapes _ o ho
  · rw [htotal, h.total, hspawned, hspawned]
  · rw [hfinished, h.finished, hended, hended]
  · intro q u hu hlast o ho
    obtain ⟨v, hv, hvu⟩ := hback q u hu
    obtain ⟨w, hw, hwo⟩ := hback q.other o ho
    rw [← hwo]
    exact h.last q v hv (hvu.trans hlast) w hw
  · intro q u hu hall
    rw [hended, hended, hspawned, hspawned] at hall
    obtain ⟨v, hv, hvu⟩ := hback q u hu
    rcases h.someone q v hv hall with hlast | ⟨o, ho, hlast⟩
    · exact .inl (hvu ▸ hlast)
    · right
      rcases eq_or_eq_other path q.other with hq | hq
      · rw [hq, ht] at ho
        refine ⟨t', by rw [hpaths, hq, set_paths], ?_⟩
        rw [hphase, some.inj ho]
        exact hlast
      · exact ⟨o, by rw [hpaths, hq, set_paths_other, ← hq, ho], hlast⟩

theorem Counted.finish (h : Counted s) (ht : s.paths path = some t) (hphase : t.phase = .walking) :
    Counted ({ s with finishedPaths := s.finishedPaths + 1 }.set path
      (t.finish ctx (s.finishedPaths + 1 = s.totalPaths))) := by
  have hself : s.ended path = 0 := by simp [ended, ht, hphase]
  have hone : s.spawned path = 1 := by simp [spawned, ht]
  have hfinished := h.finished
  have htotal := h.total
  rw [add_eq path s.ended] at hfinished
  rw [add_eq path s.spawned] at htotal
  have hle := s.ended_le_spawned path.other
  -- the other traversal was not told that it is the last while this one still walked
  have hother : ∀ o, s.paths path.other = some o → o.phase ≠ .ended true := by
    intro o ho hlast
    have hwalks := h.last path.other o ho hlast t (by rw [other_other]; exact ht)
    simp [hphase] at hwalks
  generalize hs₁ : { s with finishedPaths := s.finishedPaths + 1 } = s₁
  have hpaths : s₁.paths = s.paths := by rw [← hs₁]
  have htotal₁ : s₁.totalPaths = s.totalPaths := by rw [← hs₁]
  have hfinished₁ : s₁.finishedPaths = s.finishedPaths + 1 := by rw [← hs₁]
  generalize ht' : t.finish ctx (s.finishedPaths + 1 = s.totalPaths) = t'
  have hphase' : t'.phase = .ended (s.finishedPaths + 1 = s.totalPaths) := by rw [← ht']; rfl
  have hself' : (s₁.set path t').ended path = 1 := by simp [ended, hphase']
  have hended' : (s₁.set path t').ended path.other = s.ended path.other := by
    simp [ended, hpaths]
  have hone' : (s₁.set path t').spawned path = 1 := by simp [spawned]
  have hspawned' : (s₁.set path t').spawned path.other = s.spawned path.other := by
    simp [spawned, hpaths]
  refine ⟨?_, ?_, ?_, ?_, ?_⟩
  · refine forall_set (ht' ▸ shape_finish t _) fun o ho => ?_
    exact h.shapes _ o (by rw [← hpaths]; exact ho)
  · rw [add_eq path, hone', hspawned']
    show s₁.totalPaths = _
    omega
  · rw [add_eq path, hself', hended']
    show s₁.finishedPaths = _
    omega
  · refine forall_set ?_ ?_
    · intro hlast o ho
      rw [set_paths_other, hpaths] at ho
      have hcounted : s.finishedPaths + 1 = s.totalPaths := by
        rw [hphase'] at hlast
        simpa using hlast
      have hspawned : s.spawned path.other = 1 := by simp [spawned, ho]
      have hended : s.ended path.other = 1 := by omega
      cases hp : o.phase with
      | walking => simp [ended, ho, hp] at hended
      | ended isLast =>
        cases isLast with
        | true => exact absurd hp (hother o ho)
        | false => rfl
    · intro o ho hlast
      rw [hpaths] at ho
      exact absurd hlast (hother o ho)
  · intro q u hu hall
    rw [add_eq path, add_eq path (spawned _), hself', hended', hone', hspawned'] at hall
    have hcounted : s.finishedPaths + 1 = s.totalPaths := by omega
    have hlast : t'.phase = .ended true := by rw [hphase']; simp [hcounted]
    rcases eq_or_eq_other path q with rfl | rfl
    · rw [set_paths] at hu
      exact .inl (some.inj hu ▸ hlast)
    · exact .inr ⟨t', by rw [other_other, set_paths], hlast⟩

theorem counted_step (h : Counted s) (hstep : step ctx a s = some s') : Counted s' := by
  obtain ⟨path, t, found, failures, elapsed, -, ht, htodo, hphase, rfl⟩
    | ⟨path, t, -, ht, -, hphase, rfl⟩ | ⟨path, t, effect, rest, -, ht, htodo, rfl⟩
    | ⟨-, rfl⟩ := step_cases hstep
  · refine h.of_phases (t.scan ctx found failures elapsed) ht ?_
      (shape_scan htodo hphase found failures elapsed) rfl rfl rfl
    unfold Traversal.scan
    simp only
    split <;> rfl
  · exact h.finish ht hphase
  · exact h.of_phases { t with todo := rest } ht rfl ((h.shapes path t ht).tail htodo) rfl rfl rfl
  · exact ⟨h.shapes, h.total, h.finished, h.last, h.someone⟩

-- ==== the start

variable {s₀ : Running}

theorem spawn_eq (h : spawn roots = some t) : t = {} := by
  unfold spawn at h
  obtain ⟨-, h⟩ := Fallible.passed h nofun
  exact (some.inj h).symm

theorem start_fresh (hstart : start toNativePath store ctx roots = .ok s₀) :
    ∀ path t, s₀.paths path = some t → t = {} := by
  unfold start at hstart
  obtain ⟨-, hstart⟩ := Fallible.passed hstart nofun
  cases hstart
  intro path t ht
  cases path with
  | native | vfs => exact spawn_eq ht

theorem Running.spawned_of_spawn (path : Path)
    (h : s.paths path = spawn roots) : s.spawned path = (!roots.isEmpty).toNat := by
  unfold spawned
  rw [h]
  cases roots <;> rfl

theorem toNat_not_isEmpty_pos {root : Location} (h : root ∈ roots) :
    0 < (!roots.isEmpty).toNat := by
  cases roots with
  | nil => cases h
  | cons first rest => exact Nat.one_pos

theorem start_total (hstart : start toNativePath store ctx roots = .ok s₀) :
    s₀.totalPaths = s₀.spawned .native + s₀.spawned .vfs
    ∧ 0 < s₀.spawned .native + s₀.spawned .vfs := by
  unfold start at hstart
  obtain ⟨hroots, hstart⟩ := Fallible.passed hstart nofun
  cases hstart
  rw [spawned_of_spawn .native rfl, spawned_of_spawn .vfs rfl]
  refine ⟨rfl, ?_⟩
  -- a root is on one of the two sides
  obtain ⟨root, hroot⟩ := exists_mem_of_ne_nil roots (by simpa using hroots)
  cases hside : toNativePath root with
  | true =>
    have hpos := toNat_not_isEmpty_pos (mem_filter.mpr ⟨hroot, hside⟩)
    omega
  | false =>
    have hmem : root ∈ roots.filter fun root => !toNativePath root :=
      mem_filter.mpr ⟨hroot, by simp [hside]⟩
    have hpos := toNat_not_isEmpty_pos hmem
    omega

theorem counted_start (hstart : start toNativePath store ctx roots = .ok s₀) : Counted s₀ := by
  have hfresh := start_fresh hstart
  have hended : ∀ path, s₀.ended path = 0 := by
    intro path
    unfold ended
    cases hpath : s₀.paths path with
    | none => rfl
    | some t => rw [hfresh path t hpath]; rfl
  have hzero : s₀.finishedPaths = 0 := by
    unfold start at hstart
    obtain ⟨-, hstart⟩ := Fallible.passed hstart nofun
    cases hstart; rfl
  refine ⟨?_, (start_total hstart).1, ?_, ?_, ?_⟩
  · intro path t ht
    rw [hfresh path t ht]
    exact .quiet fun _ h => nomatch h
  · rw [hzero, hended, hended]
  · intro path t ht hlast
    rw [hfresh path t ht] at hlast
    cases hlast
  · intro path t ht hall
    have hpos := (start_total hstart).2
    rw [hended, hended] at hall
    omega

end FileManager.Search
