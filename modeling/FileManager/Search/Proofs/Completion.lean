/-
The completion of a search against the interleaving of its two
traversals.

# Where the order breaks

A traversal adds itself to the counter of finished ones before its final
flush. The last to be counted marks the search complete and publishes the
completing batch; the other may then still store and publish its own last
batch (`completion_overtaken`). Nor is the order of the store that of the
batches, and the store keeps the warnings of whoever appended last.

# When it holds

`orderly` excludes exactly the steps that get in between: an append
between the other traversal's append and publication, and a final flush
that starts before the other traversal has made its last access to the
results, or after that has met failures. Along a run of orderly steps
what the last traversal has made and what it has still to make add up to
a history that ends with the completion (`Progress`).
-/
import FileManager.Search.Proofs.Steps

namespace FileManager.Search

open Machine Effect Option Running List Search.Path Traversal
open Vfs (EntrySummary)
open List (mem_cons_self append_nil)
open Running (perform)
open SearchResultsStore (cancel_searches register_searches empty)

variable {ctx : SearchContext} {s s' : Running} {path : Path} {rest : List Effect}
  {entries : List EntrySummary} {warningsCount : UInt32} {effect : Effect}
  {toNativePath : Location → Bool} {store : SearchResultsStore} {roots : List Location}
  {acts : List Action} {a : Action}

-- ==== the orderly steps

/-- The entries a traversal has stored and not yet published. -/
def owed : List Effect → List EntrySummary
  | [] => []
  | .append _ _ :: _ => []
  | .publishBatch batch :: _ => batch.summaries
  | _ :: rest => owed rest

def Running.owed (s : Running) (path : Path) : List EntrySummary :=
  match s.paths path with
  | some t => Search.owed t.todo
  | none => []

/-- The traversal has made its last access to the results and met no
failure. -/
def Traversal.settled (t : Traversal) : Bool :=
  t.phase ≠ .walking && t.todo.all (fun effect => !effect.touches) && t.warningsCount = 0

/-- An append does not come between the other traversal's append and
publication, and the final one only when the other traversal has
settled. -/
def Running.orderly (s : Running) : Action → Bool
  | .perform path =>
    match s.paths path with
    | some t =>
      match t.todo with
      | .append entries _ :: _ =>
        if t.phase = .ended true then (s.paths path.other).all settled
        else entries.isEmpty || (s.owed path.other).isEmpty
      | _ => true
    | none => true
  | _ => true

def Orderly (s : Running) (a : Action) : Prop := s.orderly a = true

instance (s : Running) (a : Action) : Decidable (Orderly s a) :=
  inferInstanceAs (Decidable (s.orderly a = true))

/-- The other path has no traversal, or a settled one. -/
def OtherSettled (s : Running) (path : Path) : Prop :=
  ∀ o, s.paths path.other = some o →
    o.phase ≠ .walking ∧ Quiet o.todo ∧ o.warningsCount = 0

variable {t : Traversal}

theorem otherSettled_of_orderly (hok : Orderly s (.perform path))
    (ht : s.paths path = some t) (htodo : t.todo = .append entries warningsCount :: rest)
    (hlast : t.phase = .ended true) : OtherSettled s path := by
  intro o ho
  simp only [Orderly, orderly, ht, htodo, hlast, ho, if_true, all_some] at hok
  simp only [settled, Bool.and_eq_true, decide_eq_true_eq, List.all_eq_true,
    Bool.not_eq_true'] at hok
  exact ⟨hok.1.1, hok.1.2, hok.2⟩

theorem Quiet.owed {todo : List Effect} (h : Quiet todo) : owed todo = [] := by
  induction todo with
  | nil => rfl
  | cons effect rest ih =>
    have heffect := h effect mem_cons_self
    cases effect with
    | publishProgress completedItems | publishStateChanged state => exact ih h.tail
    | _ => cases heffect

theorem OtherSettled.owed (h : OtherSettled s path) : s.owed path.other = [] := by
  unfold Running.owed
  cases ho : s.paths path.other with
  | none => rfl
  | some o => exact (h o ho).2.1.owed

theorem owed_of_orderly (hok : Orderly s (.perform path))
    (ht : s.paths path = some t) (htodo : t.todo = .append entries warningsCount :: rest) :
    entries = [] ∨ s.owed path.other = [] := by
  by_cases hlast : t.phase = .ended true
  · exact .inr (otherSettled_of_orderly hok ht htodo hlast).owed
  · simp only [Orderly, orderly, ht, htodo, hlast, if_false, Bool.or_eq_true,
      List.isEmpty_iff] at hok
    exact hok

@[simp] theorem Running.set_owed (s : Running) (path : Path) (t : Traversal) :
    (s.set path t).owed path = Search.owed t.todo := by
  simp [Running.owed]

@[simp] theorem Running.set_owed_other (s : Running) (path : Path) (t : Traversal) :
    (s.set path t).owed path.other = s.owed path.other := by
  simp [Running.owed]

@[simp] theorem Running.perform_owed (s : Running) (effect : Effect) (path : Path) :
    (s.perform ctx effect).owed path = s.owed path := rfl

-- ==== the stored entries

/-- The store holds the published batches, and behind them what one of
the traversals has stored and not yet published. -/
structure Stored (ctx : SearchContext) (s : Running) : Prop where
  registered : ∃ state, s.store.searches ctx.searchId = some state
  exclusive : ∀ path, s.owed path = [] ∨ s.owed path.other = []
  entries : ∀ path, (s.results ctx).entries
    = s.batches.flatMap Batch.summaries ++ (s.owed path ++ s.owed path.other)

theorem Running.batches_perform (s : Running) (effect : Effect) :
    (s.perform ctx effect).batches = s.batches ++ (effect.batch?).toList := by
  unfold batches perform
  rw [filterMap_append]
  congr 1
  cases effect <;> rfl

theorem Stored.of_path (path : Path)
    (hregistered : ∃ state, s.store.searches ctx.searchId = some state)
    (hexclusive : s.owed path = [] ∨ s.owed path.other = []) (hentries : (s.results ctx).entries
      = s.batches.flatMap Batch.summaries ++ (s.owed path ++ s.owed path.other)) :
    Stored ctx s := by
  refine ⟨hregistered, ?_, ?_⟩
  · intro q
    rcases eq_or_eq_other path q with rfl | rfl
    · exact hexclusive
    · rw [other_other]
      exact hexclusive.symm
  · intro q
    rcases eq_or_eq_other path q with rfl | rfl
    · exact hentries
    · rw [other_other, hentries]
      rcases hexclusive with h | h <;> simp [h]

theorem Stored.set (h : Stored ctx s)
    (howed : Search.owed t.todo = s.owed path) : Stored ctx (s.set path t) := by
  refine Stored.of_path path h.registered ?_ ?_
  · rw [set_owed, set_owed_other, howed]
    exact h.exclusive path
  · rw [set_owed, set_owed_other, howed]
    exact h.entries path

theorem owed_flush (ctx : SearchContext) (buffer : List Found) (warningsCount : UInt32) (isComplete
    : Bool)
    (matchesFound : Nat) (rest : List Effect) (hrest : Quiet rest) :
    owed (flush ctx buffer warningsCount isComplete matchesFound ++ rest) = [] := by
  unfold flush
  split
  case isTrue => rfl
  case isFalse => exact ((quiet_progress ctx matchesFound).append hrest).owed

theorem owed_scan (htodo : t.todo = []) (found : List Found) (failures : UInt32) (elapsed : Bool) :
    owed (t.scan ctx found failures elapsed).todo = [] := by
  have hnil : Quiet [] := fun _ h => nomatch h
  unfold scan
  simp only
  split
  case isTrue =>
    have h := owed_flush ctx (t.buffer ++ found) (t.warningsCount + failures) false
      (t.matchesFound + found.length) [] hnil
    rwa [append_nil] at h
  case isFalse =>
    show owed t.todo = []
    rw [htodo]
    rfl

theorem Shape.owed_tail (h : Shape t) (htodo : t.todo = effect :: rest) :
    (∃ entries warningsCount, effect = .append entries warningsCount
      ∧ owed t.todo = [] ∧ owed rest = entries)
    ∨ (∃ batch, effect = .publishBatch batch ∧ owed t.todo = batch.summaries ∧ owed rest = [])
    ∨ ((∀ entries warningsCount, effect ≠ .append entries warningsCount)
      ∧ effect.batch? = none ∧ owed t.todo = owed rest) := by
  cases h with
  | quiet hquiet =>
    rw [htodo] at hquiet
    have heffect := hquiet effect mem_cons_self
    refine .inr (.inr ⟨?_, ?_, ?_⟩)
    · rintro entries warningsCount rfl
      cases heffect
    · cases effect <;> first | rfl | cases heffect
    · rw [htodo, hquiet.owed, hquiet.tail.owed]
  | appending buffer warningsCount more hphase heq hquiet | closing buffer more hphase heq hquiet =>
    obtain ⟨rfl, rfl⟩ := cons.inj (htodo.symm.trans heq)
    exact .inl ⟨_, _, rfl, by rw [htodo]; rfl, rfl⟩
  | publishing buffer warningsCount more hphase heq hquiet
  | completing buffer more hphase heq hquiet =>
    obtain ⟨rfl, rfl⟩ := cons.inj (htodo.symm.trans heq)
    exact .inr (.inl ⟨_, rfl, by rw [htodo]; rfl, hquiet.owed⟩)
  | marking buffer more hphase heq hquiet =>
    obtain ⟨rfl, rfl⟩ := cons.inj (htodo.symm.trans heq)
    exact .inr (.inr ⟨by simp, rfl, by rw [htodo]; rfl⟩)

theorem Running.results_append (state : SearchState) (entries : List EntrySummary)
    (warningsCount : UInt32) (h : s.store.searches ctx.searchId = some state) :
    (s.perform ctx (.append entries warningsCount)).results ctx
      = { state with entries := state.entries ++ entries, warningsCount := warningsCount } := by
  simp [results, perform, h]

theorem Running.results_perform (s : Running) (effect : Effect)
    (h : ∀ entries warningsCount, effect ≠ .append entries warningsCount) :
    ((s.perform ctx effect).results ctx).entries = (s.results ctx).entries
    ∧ ((s.perform ctx effect).results ctx).warningsCount = (s.results ctx).warningsCount := by
  cases effect with
  | append entries warningsCount => exact absurd rfl (h entries warningsCount)
  | markComplete =>
    simp only [results, perform, SearchResultsStore.markComplete_searches]
    cases s.store.searches ctx.searchId <;> exact ⟨rfl, rfl⟩
  | _ => exact ⟨rfl, rfl⟩

theorem Running.registered_perform (s : Running) (effect : Effect)
    (h : ∃ state, s.store.searches ctx.searchId = some state) :
    ∃ state, (s.perform ctx effect).store.searches ctx.searchId = some state := by
  obtain ⟨state, hstate⟩ := h
  cases effect with
  | append entries warningsCount | markComplete => simp [perform, hstate]
  | _ => exact ⟨state, hstate⟩

theorem Stored.perform (h : Stored ctx s) (hshape : Shape t) (hok : Orderly s (.perform path))
    (ht : s.paths path = some t) (htodo : t.todo = effect :: rest) :
    Stored ctx ((s.perform ctx effect).set path { t with todo := rest }) := by
  have howed : s.owed path = owed t.todo := by simp [Running.owed, ht]
  have hbefore := h.entries path
  have hresults : ∀ u, ((s.perform ctx effect).set path u).results ctx
      = (s.perform ctx effect).results ctx := fun _ => rfl
  have hbatches : ∀ u, ((s.perform ctx effect).set path u).batches
      = s.batches ++ (effect.batch?).toList := fun _ => s.batches_perform effect
  refine Stored.of_path path (s.registered_perform effect h.registered) ?_ ?_
  · rw [set_owed, set_owed_other, perform_owed]
    obtain ⟨entries, warningsCount, rfl, -, hrest⟩ | ⟨batch, rfl, -, hrest⟩ | ⟨-, -, hrest⟩ :=
      hshape.owed_tail htodo
    · rw [hrest]
      exact owed_of_orderly hok ht htodo
    · exact .inl hrest
    · rw [← hrest, ← howed]
      exact h.exclusive path
  · rw [set_owed, set_owed_other, perform_owed, hresults, hbatches]
    obtain ⟨entries, warningsCount, rfl, hnone, hrest⟩ | ⟨batch, rfl, hthis, hrest⟩
      | ⟨hno, hbatch, hrest⟩ := hshape.owed_tail htodo
    · obtain ⟨state, hstate⟩ := h.registered
      have hentries : (s.results ctx).entries = state.entries := by simp [results, hstate]
      rw [results_append state entries warningsCount hstate, ← hentries, hbefore, howed,
        hnone, hrest]
      -- the new entries stand behind what the other owes, and one of the two is empty
      rcases owed_of_orderly hok ht htodo with hnil | hnil <;> simp [hnil, batch?]
    · rw [(s.results_perform _ (by simp)).1, hbefore, howed, hthis, hrest]
      simp [batch?]
    · rw [(s.results_perform effect hno).1, hbefore, howed, hbatch, hrest]
      simp

theorem stored_step (hcounted : Counted s) (h : Stored ctx s)
    (hok : Orderly s a) (hstep : step ctx a s = some s') : Stored ctx s' := by
  obtain ⟨path, t, found, failures, elapsed, -, ht, htodo, hphase, rfl⟩
    | ⟨path, t, -, ht, htodo, hphase, rfl⟩ | ⟨path, t, effect, rest, rfl, ht, htodo, rfl⟩
    | ⟨-, rfl⟩ := step_cases hstep
  · refine h.set ?_
    rw [owed_scan htodo]
    simp [Running.owed, ht, htodo, owed]
  · refine Stored.set (s := { s with finishedPaths := s.finishedPaths + 1 }) ?_ ?_
    · exact ⟨h.registered, h.exclusive, h.entries⟩
    · have hnone : s.owed path = [] := by simp [Running.owed, ht, htodo, owed]
      exact (owed_flush ctx _ _ _ _ _ (quiet_announce ctx _)).trans hnone.symm
  · exact h.perform (hcounted.shapes path t ht) hok ht htodo
  · obtain ⟨state, hstate⟩ := h.registered
    refine ⟨by simp [hstate], h.exclusive, ?_⟩
    intro path
    have hentries := h.entries path
    simp only [results, hstate, getD_some] at hentries
    simp only [results, cancel_searches, hstate, map_some, getD_some]
    exact hentries

-- ==== the completion

/-- How far the completion is: not begun, or with the accesses that
complete the search at the end of what has been made and of what the
last traversal has still to make. -/
inductive Progress (ctx : SearchContext) (s : Running) : Prop
  | running :
      (∀ effect ∈ s.history, effect.closes = false) →
      (∀ path t, s.paths path = some t → t.phase = .ended true →
        ∃ entries warningsCount rest, t.todo = .append entries warningsCount :: rest) →
      Progress ctx s
  | closing (path : Path) (t : Traversal) (before : List Effect) (batch : Batch) :
      s.paths path = some t → t.phase = .ended true → OtherSettled s path →
      (s.results ctx).warningsCount = t.warningsCount →
      (∀ entries warningsCount, .append entries warningsCount ∉ t.todo) →
      s.history.filter touches ++ t.todo.filter touches
        = before ++ [.markComplete, .publishBatch batch] →
      batch.isComplete = true → batch.warningsCount = t.warningsCount →
      (∀ effect ∈ before, effect.closes = false) →
      Progress ctx s

theorem Running.touched_perform (ctx : SearchContext) (s : Running) (effect : Effect) (rest : List
    Effect) :
    (s.perform ctx effect).history.filter touches ++ rest.filter touches
      = s.history.filter touches ++ (effect :: rest).filter touches := by
  simp only [perform, filter_append, filter_cons, filter_nil]
  cases effect <;> simp [made, touches]

theorem Running.closes_perform (effect : Effect) (h : ∀ e ∈ s.history, e.closes = false)
    (heffect : effect.closes = false) : ∀ e ∈ (s.perform ctx effect).history, e.closes = false := by
  intro e he
  rcases mem_append.mp he with hold | hnew
  · exact h e hold
  · rw [mem_singleton] at hnew
    subst hnew
    cases effect <;> exact heffect

theorem OtherSettled.set (t : Traversal) (h : OtherSettled s path) :
    OtherSettled (s.set path t) path := by
  intro o ho
  rw [set_paths_other] at ho
  exact h o ho

theorem Progress.perform_running (hcounted : Counted s) (hstored : Stored ctx s)
    (hhistory : ∀ effect ∈ s.history, effect.closes = false)
    (hlast : ∀ path t, s.paths path = some t → t.phase = .ended true →
      ∃ entries warningsCount rest, t.todo = .append entries warningsCount :: rest)
    (hok : Orderly s (.perform path)) (ht : s.paths path = some t) (htodo : t.todo
      = effect :: rest) :
    Progress ctx ((s.perform ctx effect).set path { t with todo := rest }) := by
  -- a traversal that is not the last leaves the completion open
  have hopen : t.phase ≠ .ended true → effect.closes = false →
      Progress ctx ((s.perform ctx effect).set path { t with todo := rest }) := by
    intro hphase heffect
    refine .running (closes_perform effect hhistory heffect) ?_
    refine forall_set ?_ ?_
    · intro hended
      exact absurd hended hphase
    · intro o ho hended
      exact hlast path.other o ho hended
  cases hcounted.shapes path t ht with
  | quiet hquiet =>
    refine hopen ?_ ?_
    · intro hended
      obtain ⟨entries, warningsCount, more, heq⟩ := hlast path t ht hended
      rw [heq] at hquiet
      cases hquiet _ mem_cons_self
    · rw [htodo] at hquiet
      have heffect := hquiet effect mem_cons_self
      cases effect <;> first | rfl | cases heffect
  | appending buffer warningsCount more hphase heq hquiet
  | publishing buffer warningsCount more hphase heq hquiet =>
    obtain ⟨rfl, -⟩ := cons.inj (htodo.symm.trans heq)
    exact hopen hphase rfl
  | closing buffer more hphase heq hquiet =>
    obtain ⟨rfl, rfl⟩ := cons.inj (htodo.symm.trans heq)
    obtain ⟨state, hstate⟩ := hstored.registered
    have hsettled : OtherSettled s path := otherSettled_of_orderly hok ht htodo hphase
    refine .closing path _
      ((s.perform ctx (.append (buffer.map Found.entry) t.warningsCount)).history.filter touches)
      ⟨buffer, true, t.warningsCount⟩ (set_paths _ _ _) hphase
      (OtherSettled.set _ hsettled) ?_ ?_ ?_ rfl rfl ?_
    · exact congrArg SearchState.warningsCount (results_append state _ _ hstate)
    · intro entries warningsCount hmem
      simp only [mem_cons, reduceCtorEq, false_or] at hmem
      cases hquiet _ hmem
    · show _ ++ filter touches (.markComplete :: .publishBatch _ :: more) = _
      rw [filter_cons_of_pos rfl, filter_cons_of_pos rfl, hquiet.filter]
      rfl
    · intro effect heffect
      exact closes_perform _ hhistory rfl effect (mem_of_mem_filter heffect)
  | marking buffer more hphase heq hquiet | completing buffer more hphase heq hquiet =>
    obtain ⟨entries, warningsCount, others, hhead⟩ := hlast path t ht hphase
    simp [heq] at hhead

theorem progress_step (hcounted : Counted s) (hstored : Stored ctx s) (h : Progress ctx s)
    (hok : Orderly s a) (hstep : step ctx a s = some s') : Progress ctx s' := by
  cases h with
  | running hhistory hlast =>
    obtain ⟨path, t, found, failures, elapsed, -, ht, htodo, hphase, rfl⟩
      | ⟨path, t, -, ht, htodo, hphase, rfl⟩ | ⟨path, t, effect, rest, rfl, ht, htodo, rfl⟩
      | ⟨-, rfl⟩ := step_cases hstep
    · refine .running hhistory (forall_set ?_ fun o ho => hlast path.other o ho)
      intro hended
      have hwalks : (t.scan ctx found failures elapsed).phase = .walking := by
        unfold scan
        simp only
        split <;> exact hphase
      simp [hwalks] at hended
    · refine .running hhistory (forall_set ?_ fun o ho => hlast path.other o ho)
      intro hended
      have hcount : decide (s.finishedPaths + 1 = s.totalPaths) = true := by
        simpa [finish] using hended
      refine ⟨t.buffer.map Found.entry, t.warningsCount, ?_⟩
      rw [hcount]
      simp [finish, flush]
    · exact .perform_running hcounted hstored hhistory hlast hok ht htodo
    · exact .running hhistory hlast
  | closing last t before batch ht hphase hsettled hwarnings hno htouched hcomplete hcount
      hbefore =>
      -- both traversals have been counted, so the only steps left are accesses
      have hdone : ∀ q u, s.paths q = some u → u.phase ≠ .walking := by
        intro q u hu hwalks
        rcases eq_or_eq_other last q with rfl | rfl
        · rw [ht] at hu
          rw [← Option.some.inj hu, hphase] at hwalks
          cases hwalks
        · exact (hsettled u hu).1 hwalks
      obtain ⟨path, u, found, failures, elapsed, -, hu, -, hwalks, -⟩
        | ⟨path, u, -, hu, -, hwalks, -⟩ | ⟨path, u, effect, rest, rfl, hu, htodo, rfl⟩
        | ⟨-, rfl⟩ := step_cases hstep
      · exact absurd hwalks (hdone path u hu)
      · exact absurd hwalks (hdone path u hu)
      · rcases eq_or_eq_other last path with rfl | rfl
        · obtain rfl : t = u := Option.some.inj (ht.symm.trans hu)
          rw [htodo] at hno htouched
          have heffect : ∀ entries warningsCount, effect ≠ .append entries warningsCount := by
            rintro entries warningsCount rfl
            exact hno entries warningsCount mem_cons_self
          refine .closing path _ before batch (set_paths _ _ _) hphase
            (OtherSettled.set _ hsettled) ?_ ?_ ?_ hcomplete hcount hbefore
          · exact (s.results_perform effect heffect).2.trans hwarnings
          · intro entries warningsCount hmem
            exact hno entries warningsCount (mem_cons_of_mem _ hmem)
          · exact (s.touched_perform ctx effect rest).trans htouched
        · obtain ⟨hended, hquiet, hzero⟩ := hsettled u hu
          rw [htodo] at hquiet
          have heffect : ∀ entries warningsCount, effect ≠ .append entries warningsCount := by
            rintro entries warningsCount rfl
            cases hquiet _ mem_cons_self
          refine .closing last t before batch ?_ hphase ?_ ?_ hno ?_ hcomplete hcount hbefore
          · have hkept := (s.perform ctx effect).set_paths_other last.other { u with todo := rest }
            rw [other_other] at hkept
            exact hkept.trans ht
          · intro o ho
            rw [set_paths] at ho
            obtain rfl := Option.some.inj ho
            exact ⟨hended, hquiet.tail, hzero⟩
          · exact (s.results_perform effect heffect).2.trans hwarnings
          · have hsame := s.touched_perform ctx effect rest
            rw [hquiet.filter, hquiet.tail.filter, append_nil, append_nil] at hsame
            show (s.perform ctx effect).history.filter _ ++ _ = _
            rw [hsame]
            exact htouched
      · refine .closing last t before batch ht hphase hsettled ?_ hno htouched hcomplete hcount
          hbefore
        obtain ⟨state, hstate⟩ := hstored.registered
        simp only [results, hstate, getD_some] at hwarnings
        simp only [results, cancel_searches, hstate, map_some, getD_some]
        exact hwarnings

-- ==== whole runs

variable {s₀ : Running}

theorem stored_start (hstart : start toNativePath store ctx roots = .ok s₀) : Stored ctx s₀ := by
  have howed : ∀ path, s₀.owed path = [] := by
    intro path
    unfold Running.owed
    cases hpath : s₀.paths path with
    | none => rfl
    | some t => rw [start_fresh hstart path t hpath]; rfl
  refine ⟨?_, fun path => .inl (howed path), ?_⟩
  · unfold start at hstart
    obtain ⟨-, hstart⟩ := Fallible.passed hstart nofun
    cases hstart; exact ⟨{}, store.register_searches ctx.searchId⟩
  · intro path
    rw [howed, howed]
    unfold start at hstart
    obtain ⟨-, hstart⟩ := Fallible.passed hstart nofun
    cases hstart
    simp only [results, register_searches]
    rfl

theorem progress_start (hstart : start toNativePath store ctx roots = .ok s₀) :
    Progress ctx s₀ := by
  refine .running ?_ ?_
  · unfold start at hstart
    obtain ⟨-, hstart⟩ := Fallible.passed hstart nofun
    cases hstart
    intro effect heffect
    cases heffect
  · intro path t ht hlast
    rw [start_fresh hstart path t ht] at hlast
    cases hlast

theorem orderly_invariant (hstart : start toNativePath store ctx roots = .ok s₀)
    (hrun : Run (step ctx) Orderly s₀ acts s) : Counted s ∧ Stored ctx s ∧ Progress ctx s := by
  refine Run.invariant (P := fun s => Counted s ∧ Stored ctx s ∧ Progress ctx s) ?_ ?_ hrun
  · exact ⟨counted_start hstart, stored_start hstart, progress_start hstart⟩
  · rintro s s' a hok hstep ⟨hcounted, hstored, hprogress⟩
    exact ⟨counted_step hcounted hstep, stored_step hcounted hstored hok hstep,
      progress_step hcounted hstored hprogress hok hstep⟩

/-- Nothing touches the results once the completing batch is out. -/
def NothingAfterCompletion (history : List Effect) : Prop :=
  ∀ before batch after, history = before ++ .publishBatch batch :: after →
    batch.isComplete = true → Quiet after

theorem Running.Finished.ended (hfinished : s.Finished) (path : Path) :
    s.ended path = s.spawned path := by
  unfold Running.ended spawned
  cases hpath : s.paths path with
  | none => rfl
  | some t =>
    obtain ⟨⟨isLast, hphase⟩, -⟩ := hfinished path t hpath
    simp [hphase]

theorem eq_nil_of_append_cons_eq {α : Type} {xs ys kept : List α} {x final : α}
    (h : xs ++ x :: ys = kept ++ [final]) (hx : x ∉ kept) : ys = [] := by
  rcases eq_nil_or_concat ys with hnil | ⟨init, last, hconcat⟩
  · exact hnil
  · rw [hconcat, concat_eq_append, ← cons_append, ← append_assoc] at h
    have hkept : xs ++ x :: init = kept := append_inj_left' h rfl
    exact absurd (by rw [← hkept]; simp) hx

theorem Progress.nothingAfterCompletion (h : Progress ctx s) :
    NothingAfterCompletion s.history := by
  intro before batch after hhistory hcomplete
  have hcloses : closes (.publishBatch batch) = true := hcomplete
  cases h with
  | running hopen hlast =>
    have hthis := hopen (.publishBatch batch) (by rw [hhistory]; simp)
    simp [hcloses] at hthis
  | closing last t kept final ht hphase hsettled hwarnings hno htouched hfinal hcount hkept =>
    -- the completing batch closes the search, so it can only be the last access of the list
    rw [hhistory, filter_append, filter_cons_of_pos rfl, append_assoc,
      cons_append, append_cons kept] at htouched
    have hnot : publishBatch batch ∉ kept ++ [.markComplete] := by
      intro hmem
      rcases mem_append.mp hmem with h | h
      · rw [hkept _ h] at hcloses
        cases hcloses
      · cases mem_singleton.mp h
    have hnil := eq_nil_of_append_cons_eq htouched hnot
    intro effect heffect
    cases htouches : effect.touches with
    | false => rfl
    | true =>
      have hmem : effect ∈ after.filter touches := mem_filter.mpr ⟨heffect, htouches⟩
      rw [(append_eq_nil_iff.mp hnil).1] at hmem
      cases hmem

theorem countP_batches_of_closes {effects : List Effect}
    (h : ∀ effect ∈ effects, effect.closes = false) :
    (effects.filterMap batch?).countP Batch.isComplete = 0 := by
  rw [countP_eq_zero]
  intro batch hbatch
  obtain ⟨effect, heffect, heq⟩ := mem_filterMap.mp hbatch
  have hopen := h effect heffect
  cases effect with
  | publishBatch inner =>
    rw [← Option.some.inj heq, show inner.isComplete = false from hopen]
    exact Bool.false_ne_true
  | _ => cases heq

theorem filterMap_batch_touches (effects : List Effect) :
    (effects.filter touches).filterMap batch? = effects.filterMap batch? := by
  rw [filterMap_filter]
  congr 1
  funext effect
  cases effect <;> rfl

theorem OtherSettled.warnings (h : OtherSettled s path) : s.warnings path.other = 0 := by
  unfold Running.warnings
  cases ho : s.paths path.other with
  | none => rfl
  | some o =>
    show o.warningsCount.toNat = 0
    rw [(h o ho).2.2]
    rfl

theorem Progress.completedLast (h : Progress ctx s) (hcounted : Counted s)
    (hstored : Stored ctx s) (hfinished : s.Finished)
    (hsome : 0 < s.spawned .native + s.spawned .vfs) : CompletedLast ctx s := by
  have howed : ∀ path, s.owed path = [] := by
    intro path
    unfold Running.owed
    cases hpath : s.paths path with
    | none => rfl
    | some t => simp [(hfinished path t hpath).2, owed]
  cases h with
  | running hhistory hlast =>
    -- the last traversal would still have its final append to make
    exfalso
    have hall : s.ended .native + s.ended .vfs = s.spawned .native + s.spawned .vfs := by
      rw [hfinished.ended, hfinished.ended]
    obtain ⟨path, t, ht⟩ : ∃ path t, s.paths path = some t := by
      by_contra hnone
      have hzero : ∀ path, s.spawned path = 0 := by
        intro path
        unfold spawned
        cases hpath : s.paths path with
        | none => rfl
        | some t => exact absurd ⟨path, t, hpath⟩ hnone
      rw [hzero, hzero] at hsome
      omega
    have hcontra : ∀ q u, s.paths q = some u → u.phase ≠ .ended true := by
      intro q u hu hended
      obtain ⟨entries, warningsCount, rest, htodo⟩ := hlast q u hu hended
      rw [(hfinished q u hu).2] at htodo
      cases htodo
    rcases hcounted.someone path t ht hall with hended | ⟨o, ho, hended⟩
    · exact hcontra path t ht hended
    · exact hcontra path.other o ho hended
  | closing last t before batch ht hphase hsettled hwarnings hno htouched hcomplete hcount
      hbefore =>
      rw [(hfinished last t ht).2, filter_nil, append_nil] at htouched
      have hsum : t.warningsCount.toNat = s.warnings .native + s.warnings .vfs := by
        rw [add_eq last s.warnings, hsettled.warnings, Nat.add_zero]
        simp [Running.warnings, ht]
      refine ⟨?_, ⟨before, batch, htouched, hcomplete, hbefore, ?_⟩, ?_, ?_⟩
      · unfold batches
        rw [← filterMap_batch_touches, htouched, filterMap_append, countP_append,
          countP_batches_of_closes hbefore]
        simp [filterMap_cons, batch?, hcomplete]
      · rw [hcount, hsum]
      · rw [hstored.entries .native, howed, howed]
        simp
      · rw [hwarnings, hsum]

theorem spawned_run {ok : Running → Action → Prop} (hrun : Run (step ctx) ok s₀ acts s)
    (path : Path) : s.spawned path = s₀.spawned path := by
  refine Run.invariant (P := fun s => s.spawned path = s₀.spawned path) rfl ?_ hrun
  intro s s' a hok hstep h
  have hset : ∀ (before : Running) (q : Path) (t u : Traversal), before.paths q = some t →
      (before.set q u).spawned path = before.spawned path := by
    intro before q t u ht
    unfold spawned
    rcases eq_or_eq_other q path with rfl | rfl
    · rw [set_paths, ht]
    · rw [set_paths_other]
  obtain ⟨q, t, found, failures, elapsed, -, ht, htodo, hphase, rfl⟩
    | ⟨q, t, -, ht, htodo, hphase, rfl⟩ | ⟨q, t, effect, rest, rfl, ht, htodo, rfl⟩
    | ⟨-, rfl⟩ := step_cases hstep
  · exact (hset s q t _ ht).trans h
  · exact (hset { s with finishedPaths := s.finishedPaths + 1 } q t _ ht).trans h
  · exact (hset (s.perform ctx effect) q t _ ht).trans h
  · exact h

/-- Along every orderly run the completing batch is published exactly
once and last, the store holds the batches in order, and the warnings
are those of both traversals. -/
theorem completion_comes_last (hstart : start toNativePath store ctx roots = .ok s₀)
    (hrun : Run (step ctx) Orderly s₀ acts s) :
    NothingAfterCompletion s.history ∧ (s.Finished → CompletedLast ctx s) := by
  obtain ⟨hcounted, hstored, hprogress⟩ := orderly_invariant hstart hrun
  refine ⟨hprogress.nothingAfterCompletion, ?_⟩
  intro hfinished
  refine hprogress.completedLast hcounted hstored hfinished ?_
  rw [spawned_run hrun, spawned_run hrun]
  exact (start_total hstart).2

-- ==== concrete runs

/-- A search over a local root and one of another provider. -/
def bothRoots : List Location := [⟨"local", ⟨"", ["home"]⟩⟩, ⟨"sftp", ⟨"host", ["srv"]⟩⟩]

def isLocal (location : Location) : Bool := location.providerId = "local"

def trackedSearch : SearchContext where
  searchId := 1
  operationId := some 1

def bothSides : Running where
  store := empty.register 1
  totalPaths := 2
  paths := fun _ => some {}

theorem start_bothRoots : start isLocal .empty trackedSearch bothRoots = .ok bothSides := by
  have hpaths : spawnPaths (bothRoots.filter isLocal) (bothRoots.filter fun root => !isLocal root)
      = fun _ => some {} := by
    funext path
    cases path <;> rfl
  unfold start
  rw [if_neg (by decide)]
  simp only [hpaths]
  rfl

/-- A file named `name` that the search matched by name. -/
def foundFile (id : Nat) (name : String) : Found where
  entry := ⟨id, ⟨"local", ⟨"", ["home", name]⟩⟩, name, .file, some 1, none, false⟩
  contentMatches := none

/-- Every traversal has ended and has nothing left to do. -/
def Running.idle (s : Running) : Bool :=
  [native, .vfs].all fun path =>
    (s.paths path).all fun t => t.phase ≠ .walking && t.todo.isEmpty

theorem Running.finished_of_idle (h : s.idle = true) : s.Finished := by
  intro path t ht
  have hpath : (s.paths path).all (fun t => t.phase ≠ .walking && t.todo.isEmpty) = true := by
    refine List.all_eq_true.mp h path ?_
    cases path <;> simp
  rw [ht, all_some, Bool.and_eq_true, decide_eq_true_eq, List.isEmpty_iff] at hpath
  refine ⟨?_, hpath.2⟩
  cases hphase : t.phase with
  | walking => exact absurd hphase hpath.1
  | ended isLast => exact ⟨isLast, rfl⟩

/-- An orderly run of both traversals, with failures on the side that
ends last. -/
theorem completion_comes_last_bothSides :
    ∃ acts s, Run (step trackedSearch) Orderly bothSides acts s ∧ s.Finished
      ∧ s.batches.length = 3 ∧ s.warnings .vfs = 2
      ∧ NothingAfterCompletion s.history ∧ CompletedLast trackedSearch s := by
  have hreached : ∃ s, Run (step trackedSearch) Orderly bothSides
      [.scan .native [foundFile 1 "a"] 0 false, .finish .native, .perform .native,
        .perform .native, .scan .vfs [foundFile 2 "b"] 2 true, .perform .vfs, .perform .native,
        .perform .vfs, .perform .vfs, .finish .vfs, .perform .vfs, .perform .vfs, .perform .vfs,
        .perform .vfs, .perform .vfs] s
      ∧ s.idle = true ∧ s.batches.length = 3 ∧ s.warnings .vfs = 2 :=
    Run.exists_of_guardedRun (by decide)
  obtain ⟨s, hrun, hidle, hbatches, hwarnings⟩ := hreached
  have hfinished := finished_of_idle hidle
  obtain ⟨hnothing, hlast⟩ := completion_comes_last start_bothRoots hrun
  exact ⟨_, s, hrun, hfinished, hbatches, hwarnings, hnothing, hlast hfinished⟩

/-- The native traversal is counted first and stores its last batch
after the other has completed the search. -/
theorem completion_overtaken :
    ∃ acts s, start isLocal .empty trackedSearch bothRoots = .ok bothSides
      ∧ Run (step trackedSearch) Free bothSides acts s ∧ s.Finished
      ∧ ¬ NothingAfterCompletion s.history ∧ ¬ CompletedLast trackedSearch s := by
  have hreached : ∃ s, Run (step trackedSearch) Free bothSides
      [.scan .native [foundFile 1 "a"] 0 false, .finish .native, .finish .vfs,
        .perform .vfs, .perform .vfs, .perform .vfs, .perform .vfs, .perform .vfs,
        .perform .native, .perform .native, .perform .native] s
      ∧ s.idle = true ∧ s.history =
        [.append [] 0, .markComplete, .publishBatch ⟨[], true, 0⟩, .publishProgress 0,
          .publishStateChanged (some .completed),
          .append [(foundFile 1 "a").entry] 0, .publishBatch ⟨[foundFile 1 "a"], false, 0⟩,
          .publishProgress 1] :=
    Run.exists_of_run (by decide)
  obtain ⟨s, hrun, hidle, hhistory⟩ := hreached
  refine ⟨_, s, start_bothRoots, hrun, finished_of_idle hidle, ?_, ?_⟩
  · intro hnothing
    have hquiet := hnothing [.append [] 0, .markComplete] ⟨[], true, 0⟩ _ hhistory rfl
    cases hquiet (.append [(foundFile 1 "a").entry] 0) (by simp)
  · intro hcompleted
    obtain ⟨before, batch, htouched, hcomplete, -, -⟩ := hcompleted.last
    rw [hhistory] at htouched
    have hlast := congrArg getLast? htouched
    rw [getLast?_append] at hlast
    have hbatch : publishBatch ⟨[foundFile 1 "a"], false, 0⟩ = .publishBatch batch :=
      Option.some.inj hlast
    obtain rfl := publishBatch.inj hbatch
    cases hcomplete

end FileManager.Search
