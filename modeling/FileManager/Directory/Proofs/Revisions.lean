/-
The revisions of a pane: every page and every delta takes a revision of
its own under the lock, each above all before it, and the snapshot that a
change leaves has the revision of its last delta. On the event bus the
deltas come in that order as long as a task that publishes one has no
earlier one waiting in another task: they are published after the lock is
let go, each task at its own pace.
-/
import FileManager.Directory.Proofs.Options

namespace FileManager.Directory.Tasks

open Machine List World Nat

variable {lowercase : String → String} {w w' : World} {i t : Nat} {deltas : List DirectoryDelta}
  {entries : List EntrySummary} {location : Location} {delta : DirectoryDelta} {task new : Task}
  {a : Action} {pane : PaneRequest}

-- ==== lists of slots

theorem flatMap_set_perm {α β : Type} (f : α → List β) {slots : List α} {old : α}
    (h : slots[i]? = some old) :
    ∃ rest, (slots.flatMap f).Perm (f old ++ rest)
      ∧ ∀ new, ((slots.set i new).flatMap f).Perm (f new ++ rest) := by
  induction slots generalizing i with
  | nil => cases h
  | cons head tail ih =>
    cases i with
    | zero =>
      cases h
      exact ⟨tail.flatMap f, .refl _, fun new => .refl _⟩
    | succ i =>
      obtain ⟨rest, hold, hnew⟩ := ih h
      refine ⟨f head ++ rest, ?_, fun new => ?_⟩
      · exact (hold.append_left (f head)).trans (perm_append_comm_assoc ..)
      · exact ((hnew new).append_left (f head)).trans (perm_append_comm_assoc ..)

-- ==== what a change takes

theorem Stores.numbers {stored : PaneRequest} (h : Stores pane location entries stored deltas) :
    deltas.map DirectoryDelta.revision = List.range' (pane.revision + 1) deltas.length
      ∧ pane.revision + 1 ≤ stored.revision ∧ pane.revision + deltas.length ≤ stored.revision := by
  rw [h.revision]
  rcases h.kind with ⟨snapshot, rfl, hrevision⟩ | ⟨previous, rfl⟩
  · simp only [finalRevision, List.getLast?_singleton, DirectoryDelta.revision, hrevision,
      map_cons, map_nil, length_singleton]
    exact ⟨rfl, le_rfl, le_rfl⟩
  · rw [finalRevision_diffEntries]
    refine ⟨map_revision_diffEntries .., ?_, ?_⟩ <;> omega

theorem Stores.revision_mem {stored : PaneRequest} (h : Stores pane location entries stored deltas)
    (hmem : delta ∈ deltas) : pane.revision < delta.revision
      ∧ delta.revision ≤ stored.revision := by
  obtain ⟨hmap, -, hlast⟩ := h.numbers
  have hrevision := mem_map_of_mem (f := DirectoryDelta.revision) hmem
  rw [hmap, mem_range'_1] at hrevision
  omega

/-- The order of two deltas by their revisions. -/
def Earlier (first second : DirectoryDelta) : Prop := first.revision < second.revision

theorem Stores.rise {stored : PaneRequest}
    (h : Stores pane location entries stored deltas) : deltas.Pairwise Earlier := by
  have hsorted : (deltas.map DirectoryDelta.revision).Pairwise (· < ·) := by
    rw [h.numbers.1]
    exact pairwise_lt_range'
  rw [pairwise_map] at hsorted
  exact hsorted

theorem Stores.last {stored : PaneRequest} (h : Stores pane location entries stored deltas) :
    ∀ last ∈ deltas.getLast?, last.revision = stored.revision := by
  intro last hlast
  rw [h.revision, finalRevision, hlast]

-- ==== the invariant

def World.revision (w : World) : Nat :=
  match w.pane with
  | some pane => pane.revision
  | none => 0

/-- The deltas of all changes, in the order in which they were stored. -/
def World.stored (w : World) : List DirectoryDelta := w.stores.flatMap Store.deltas

/-- The deltas that are still to be published. -/
def World.pending (w : World) : List DirectoryDelta := w.tasks.flatMap Task.pending

/-- The call has stored a page, which it returns if it gets its watch. -/
def Call.Stored (call : Call) (snapshot : DirectorySnapshot) : Prop :=
  call.phase = .returned (.ok snapshot) ∨ ∃ token, call.phase = .acquiring snapshot token

structure Numbered (w : World) : Prop where
  commits : ∀ commit ∈ w.commits, commit.revision ≤ w.revision
  deltas : ∀ delta ∈ w.stored, delta.revision ≤ w.revision
  pages : w.commits.Pairwise fun first second => first.revision < second.revision
  rise : w.stored.Pairwise Earlier
  apart : ∀ commit ∈ w.commits, ∀ delta ∈ w.stored, commit.revision ≠ delta.revision
  returned : ∀ i call snapshot, w.calls[i]? = some call → call.Stored snapshot →
    ∃ commit ∈ w.commits, commit.call = i ∧ commit.revision = snapshot.revision
  published : (w.bus ++ w.pending).Perm w.stored
  last : ∀ change ∈ w.stores, ∀ delta ∈ change.deltas.getLast?, delta.revision = change.revision

theorem Numbered.initial : Numbered World.initial where
  commits := by simp [World.initial]
  deltas := by simp [World.initial, World.stored]
  pages := .nil
  rise := .nil
  apart := by simp [World.initial]
  returned := by
    intro i call snapshot hcall
    cases hcall
  published := .refl _
  last := by simp [World.initial]

theorem Numbered.goes_on (h : Numbered w) (hrevision : w'.revision = w.revision)
    (hcommits : w'.commits = w.commits) (hstores : w'.stores = w.stores) (hbus : w'.bus = w.bus)
    (hpending : w'.pending.Perm w.pending)
    (hcalls : ∀ (i : Nat) (call : Call) snapshot, w'.calls[i]? = some call →
      call.Stored snapshot → ∃ old, w.calls[i]? = some old ∧ old.Stored snapshot) :
    Numbered w' := by
  have hstored : w'.stored = w.stored := by rw [World.stored, hstores, World.stored]
  refine ⟨?_, ?_, ?_, ?_, ?_, ?_, ?_, ?_⟩
  · rw [hcommits, hrevision]
    exact h.commits
  · rw [hstored, hrevision]
    exact h.deltas
  · rw [hcommits]
    exact h.pages
  · rw [hstored]
    exact h.rise
  · rw [hcommits, hstored]
    exact h.apart
  · intro i call snapshot hcall hreturned
    obtain ⟨old, hold, hwas⟩ := hcalls i call snapshot hcall hreturned
    rw [hcommits]
    exact h.returned i old snapshot hold hwas
  · rw [hbus, hstored]
    exact (hpending.append_left _).trans h.published
  · rw [hstores]
    exact h.last

theorem stored_of_set {call new : Call} (hcall : w.calls[i]? = some call)
    (hnew : ∀ snapshot, new.Stored snapshot → call.Stored snapshot) (j : Nat) (other : Call)
    (snapshot : DirectorySnapshot) (hother : (w.calls.set i new)[j]? = some other)
    (hstored : other.Stored snapshot) : ∃ old, w.calls[j]? = some old ∧ old.Stored snapshot := by
  by_cases hij : i = j
  · subst hij
    rw [List.getElem?_set_self (List.getElem?_eq_some_iff.mp hcall).1] at hother
    cases hother
    exact ⟨call, hcall, hnew snapshot hstored⟩
  · rw [List.getElem?_set_ne hij] at hother
    exact ⟨other, hother, hstored⟩

theorem stored_of_append {new : Call} (hnew : ∀ snapshot, ¬ new.Stored snapshot) (i : Nat)
    (call : Call) (snapshot : DirectorySnapshot) (hcall : (w.calls ++ [new])[i]? = some call)
    (hstored : call.Stored snapshot) : ∃ old, w.calls[i]? = some old ∧ old.Stored snapshot := by
  rcases lt_or_ge i w.calls.length with hlt | hge
  · rw [List.getElem?_append_left hlt] at hcall
    exact ⟨call, hcall, hstored⟩
  · rw [List.getElem?_append_right hge] at hcall
    cases mem_singleton.mp (mem_of_getElem? hcall)
    exact absurd hstored (hnew snapshot)

theorem pending_set (htask : w.tasks[t]? = some task) (hold : task.pending = [])
    (hnew : new.pending = []) : ((w.tasks.set t new).flatMap Task.pending).Perm w.pending := by
  obtain ⟨rest, hbefore, hafter⟩ := flatMap_set_perm Task.pending htask
  have hset := hafter new
  rw [hnew] at hset
  rw [hold] at hbefore
  exact hset.trans hbefore.symm

theorem Numbered.commit (h : Numbered w) {call : Call} {full : List EntrySummary}
    {snapshot : DirectorySnapshot} {phase : CallPhase} (hcall : w.calls[i]? = some call)
    (hpane : w.pane = some pane) (hrevision : snapshot.revision = pane.revision + 1)
    (hphase : ∀ other, Call.Stored { call with phase := phase } other → other = snapshot) :
    Numbered { w with
      pane := some { pane with
        revision := pane.revision + 1, fullEntries := some full, snapshot := some snapshot }
      calls := w.calls.set i { call with phase := phase }
      commits := w.commits
        ++ [{ call := i, registered := w.calls.length, revision := pane.revision + 1 }] } := by
  have hat : w.revision = pane.revision := by rw [revision, hpane]
  have hcommits := h.commits
  have hdeltas := h.deltas
  rw [hat] at hcommits hdeltas
  refine ⟨?_, ?_, ?_, h.rise, ?_, ?_, h.published, h.last⟩
  · intro commit hcommit
    rcases mem_append.mp hcommit with hold | hnew
    · exact le_succ_of_le (hcommits commit hold)
    · rw [mem_singleton.mp hnew]
      exact le_rfl
  · intro delta hdelta
    exact le_succ_of_le (hdeltas delta hdelta)
  · refine pairwise_append.mpr ⟨h.pages, pairwise_singleton .., ?_⟩
    intro commit hcommit new hnew
    rw [mem_singleton.mp hnew]
    exact lt_succ_of_le (hcommits commit hcommit)
  · intro commit hcommit delta hdelta
    rcases mem_append.mp hcommit with hold | hnew
    · exact h.apart commit hold delta hdelta
    · rw [mem_singleton.mp hnew]
      exact ne_of_gt (lt_succ_of_le (hdeltas delta hdelta))
  · intro j other shown hother hstored
    by_cases hij : i = j
    · subst hij
      simp only [List.getElem?_set_self (List.getElem?_eq_some_iff.mp hcall).1] at hother
      cases hother
      rw [hphase shown hstored]
      exact ⟨_, mem_append_right _ mem_cons_self, rfl, hrevision.symm⟩
    · simp only [List.getElem?_set_ne hij] at hother
      obtain ⟨commit, hcommit, hboth⟩ := h.returned j other shown hother hstored
      exact ⟨commit, mem_append_left _ hcommit, hboth⟩

theorem Numbered.store (h : Numbered w) {stored : PaneRequest}
    (htask : w.tasks[t]? = some task) (hpending : task.pending = []) (hpane : w.pane = some pane)
    (hstores : Stores pane task.location entries stored deltas) :
    Numbered { w with
      pane := some stored
      tasks := w.tasks.set t { task with phase := .publishing deltas }
      stores := w.stores ++ [{ deltas := deltas, revision := stored.revision }] } := by
  have hat : w.revision = pane.revision := by rw [revision, hpane]
  have hcommits := h.commits
  have hdeltas := h.deltas
  have hup : pane.revision < stored.revision := hstores.numbers.2.1
  rw [hat] at hcommits hdeltas
  refine ⟨?_, ?_, h.pages, ?_, ?_, h.returned, ?_, ?_⟩
  · intro commit hcommit
    exact le_of_lt (lt_of_le_of_lt (hcommits commit hcommit) hup)
  · intro delta hdelta
    simp only [World.stored, flatMap_append, flatMap_singleton] at hdelta
    rcases mem_append.mp hdelta with hold | hnew
    · exact le_of_lt (lt_of_le_of_lt (hdeltas delta hold) hup)
    · exact (hstores.revision_mem hnew).2
  · simp only [World.stored, flatMap_append, flatMap_singleton]
    refine pairwise_append.mpr ⟨h.rise, hstores.rise, ?_⟩
    intro old hold new hnew
    exact lt_of_le_of_lt (hdeltas old hold) (hstores.revision_mem hnew).1
  · intro commit hcommit delta hdelta
    simp only [World.stored, flatMap_append, flatMap_singleton] at hdelta
    rcases mem_append.mp hdelta with hold | hnew
    · exact h.apart commit hcommit delta hold
    · exact Nat.ne_of_lt (lt_of_le_of_lt (hcommits commit hcommit) (hstores.revision_mem hnew).1)
  · obtain ⟨rest, hbefore, hafter⟩ := flatMap_set_perm Task.pending htask
    rw [hpending, nil_append] at hbefore
    simp only [World.stored, pending, flatMap_append, flatMap_singleton]
    refine (((hafter _).trans perm_append_comm).append_left w.bus).trans ?_
    rw [← append_assoc]
    exact ((hbefore.symm.append_left w.bus).trans h.published).append_right deltas
  · intro change hchange delta hdelta
    rcases mem_append.mp hchange with hold | hnew
    · exact h.last change hold delta hdelta
    · cases mem_singleton.mp hnew
      exact hstores.last delta hdelta

theorem Numbered.publish (h : Numbered w) {rest : List DirectoryDelta}
    (htask : w.tasks[t]? = some task) (hphase : task.phase = .publishing (delta :: rest)) :
    Numbered { w with
      tasks := w.tasks.set t { task with phase := .publishing rest }
      bus := w.bus ++ [delta] } := by
  refine ⟨h.commits, h.deltas, h.pages, h.rise, h.apart, h.returned, ?_, h.last⟩
  obtain ⟨others, hbefore, hafter⟩ := flatMap_set_perm Task.pending htask
  rw [show task.pending = delta :: rest by rw [Task.pending, hphase]] at hbefore
  simp only [pending, append_assoc, singleton_append]
  refine List.Perm.trans ?_ h.published
  refine List.Perm.append_left w.bus ?_
  exact ((hafter _).cons delta).trans hbefore.symm

theorem Numbered.step (h : Numbered w) (hstep : Step lowercase w a w') : Numbered w' := by
  cases hstep with
  | request request =>
    refine h.goes_on ?_ rfl rfl rfl (.refl _) ?_
    · rcases registerPane_cases w.pane w.tokens request with
        ⟨previous, snapshot, hprevious, -, -, -, heq⟩ | heq
      · simp only [revision, heq]
        rw [hprevious]
      · exact congrArg PaneRequest.revision heq
    · refine stored_of_append ?_
      rintro snapshot (hnot | ⟨token, hnot⟩) <;> cases hnot
  | failed error result more hcall hphase
  | enumerated enumeration offset hcall hphase hlocation hcached
  | reused offset result hcall hphase | superseded writable tracking hcall hphase hnewer
  | unwatched error hcall hphase =>
    refine h.goes_on rfl rfl rfl rfl (.refl _) (stored_of_set hcall ?_)
    rintro snapshot (hnot | ⟨token, hnot⟩) <;> cases hnot
  | committed writable tracking hcall hphase hsnapshot hpane hid hended =>
    refine h.commit hcall hpane (by rw [hsnapshot]; rfl) ?_
    rintro other (hstored | ⟨token, hstored⟩) <;> rcases hended with rfl | rfl <;> cases hstored
    · rfl
    · rfl
  | acquired hcall hphase =>
    refine h.goes_on rfl rfl rfl rfl ?_ (stored_of_set hcall ?_)
    · simp [pending, Task.pending]
    · intro snapshot hcase
      rcases hcase with hstored | ⟨token, hnot⟩
      · cases hstored
        exact .inr ⟨_, hphase⟩
      · cases hnot
  | refresh hpane hsnapshot =>
    refine h.goes_on rfl rfl rfl rfl ?_ fun i call snapshot hcall hstored =>
      ⟨call, hcall, hstored⟩
    simp [pending, Task.pending]
  | @quiet _ t task phase htasks htask hpending hphase =>
    refine h.goes_on rfl rfl rfl rfl (pending_set htask hpending ?_)
      fun i call snapshot hcall hstored => ⟨call, hcall, hstored⟩
    rcases hphase with rfl | rfl | rfl | ⟨change, rfl⟩ <;> rfl
  | listed enumeration htask hphase hlocation =>
    refine h.goes_on rfl rfl rfl rfl (pending_set htask ?_ rfl)
      fun i call snapshot hcall hstored => ⟨call, hcall, hstored⟩
    rw [Task.pending, hphase]
  | stored htask hphase hpane hstore =>
    exact h.store htask (by rw [Task.pending, hphase]) hpane (storeChanges_eq_some hstore)
  | published htask hphase => exact h.publish htask hphase

-- ==== the event bus

/-- A task publishes a delta only when no earlier one is still to be
published. -/
def InTurn (w : World) : Action → Prop
  | .publish t => ∀ task ∈ w.tasks[t]?, ∀ delta ∈ task.pending.head?, ∀ next ∈ w.pending,
      delta.revision ≤ next.revision
  | _ => True

instance (w : World) (a : Action) : Decidable (InTurn w a) :=
  match a with
  | .publish .. => inferInstanceAs (Decidable (∀ _ ∈ _, ∀ _ ∈ _, ∀ _ ∈ _, _))
  | .request .. | .enumerate .. | .commit .. | .acquire .. | .refresh | .receive .. | .stop ..
  | .listed .. | .store .. => .isTrue trivial

/-- What is published comes before what is not. -/
structure Ordered (w : World) : Prop where
  numbered : Numbered w
  bus : w.bus.Pairwise Earlier
  ahead : ∀ delta ∈ w.bus, ∀ next ∈ w.pending, Earlier delta next

theorem pending_of_set (htask : w.tasks[t]? = some task)
    {next : DirectoryDelta} (hnext : next ∈ (w.tasks.set t new).flatMap Task.pending) :
    next ∈ w.pending ∨ next ∈ new.pending := by
  obtain ⟨rest, hbefore, hafter⟩ := flatMap_set_perm Task.pending htask
  rcases mem_append.mp ((hafter new).mem_iff.mp hnext) with hnew | hrest
  · exact .inr hnew
  · exact .inl (hbefore.mem_iff.mpr (mem_append_right _ hrest))

theorem Step.bus_cases (hstep : Step lowercase w a w') :
    (∃ t task delta rest, a = .publish t ∧ w.tasks[t]? = some task
      ∧ task.phase = .publishing (delta :: rest) ∧ w' = { w with
          tasks := w.tasks.set t { task with phase := .publishing rest }
          bus := w.bus ++ [delta] })
    ∨ (w'.bus = w.bus ∧ ∀ next ∈ w'.pending, next ∈ w.pending ∨ w.revision < next.revision) := by
  cases hstep with
  | enumerated enumeration offset hcall hphase hlocation hcached
  | superseded writable tracking hcall hphase hnewer
  | committed writable tracking hcall hphase hsnapshot hpane hid hended =>
    exact .inr ⟨rfl, fun next hnext => .inl hnext⟩
  | acquired hcall hphase | refresh hpane hsnapshot =>
    refine .inr ⟨rfl, fun next hnext => .inl ?_⟩
    simpa [pending, Task.pending] using hnext
  | @quiet _ t task phase htasks htask hpending hphase =>
    refine .inr ⟨rfl, fun next hnext => .inl ?_⟩
    refine (pending_of_set htask hnext).resolve_right ?_
    rcases hphase with rfl | rfl | rfl | ⟨change, rfl⟩ <;> exact not_mem_nil
  | listed enumeration htask hphase hlocation =>
    refine .inr ⟨rfl, fun next hnext => .inl ?_⟩
    exact (pending_of_set htask hnext).resolve_right not_mem_nil
  | stored htask hphase hpane hstore =>
    refine .inr ⟨rfl, fun next hnext => (pending_of_set htask hnext).imp_right fun hnew => ?_⟩
    rw [revision, hpane]
    exact ((storeChanges_eq_some hstore).revision_mem hnew).1
  | published htask hphase => exact .inl ⟨_, _, _, _, rfl, htask, hphase, rfl⟩
  | _ => exact .inr ⟨rfl, fun next hnext => .inl hnext⟩

theorem Ordered.step (h : Ordered w) (hok : InTurn w a)
    (hstep : Step lowercase w a w') : Ordered w' := by
  have hnumbered := h.numbered.step hstep
  rcases hstep.bus_cases with ⟨t, task, delta, rest, rfl, htask, hphase, rfl⟩ | ⟨hbus, hpending⟩
  · have hhead : task.pending = delta :: rest := by rw [Task.pending, hphase]
    obtain ⟨others, hbefore, hafter⟩ := flatMap_set_perm Task.pending htask
    rw [hhead] at hbefore
    have hwas : delta ∈ w.pending := hbefore.mem_iff.mpr (mem_append_left _ mem_cons_self)
    -- what is left to publish was so before, and is another delta
    have hleft : ∀ next ∈ rest ++ others, Earlier delta next := by
      have hdistinct := (h.numbered.published.pairwise_iff
        (fun {first second} hne => Ne.symm hne)).mpr
        (h.numbered.rise.imp fun {first second} hlt => (Nat.ne_of_lt hlt))
      have hpending := (pairwise_append.mp hdistinct).2.1
      have hcons := (hbefore.pairwise_iff (fun {first second} hne => Ne.symm hne)).mp hpending
      intro next hnext
      have hne := (pairwise_cons.mp hcons).1 next hnext
      have hle := hok task htask delta (by rw [hhead]; rfl) next
        (hbefore.mem_iff.mpr (mem_cons_of_mem _ hnext))
      exact lt_of_le_of_ne hle hne
    refine ⟨hnumbered, ?_, ?_⟩
    · refine pairwise_append.mpr ⟨h.bus, pairwise_singleton .., ?_⟩
      intro old hold new hnew
      rw [mem_singleton.mp hnew]
      exact h.ahead old hold delta hwas
    · intro old hold next hnext
      have hrest := (hafter _).mem_iff.mp hnext
      rcases mem_append.mp hold with hbus | hnew
      · exact h.ahead old hbus next (hbefore.mem_iff.mpr (mem_cons_of_mem _ hrest))
      · rw [mem_singleton.mp hnew]
        exact hleft next hrest
  · refine ⟨hnumbered, hbus ▸ h.bus, ?_⟩
    rw [hbus]
    intro delta hdelta next hnext
    rcases hpending next hnext with hold | hnew
    · exact h.ahead delta hdelta next hold
    · have hstored := h.numbered.published.mem_iff.mp (mem_append_left _ hdelta)
      exact lt_of_le_of_lt (h.numbered.deltas delta hstored) hnew

/-- The deltas and answers of a pane are told apart by their revisions,
and come in the order in which they were stored. -/
structure RevisionsOrder (w : World) : Prop where
  rise : (w.bus.map DirectoryDelta.revision).Pairwise (· < ·)
  stored : w.bus.Sublist (w.stores.flatMap Store.deltas)
  answers : ∀ (i j : Nat) (first second : Call) (page other : DirectorySnapshot),
    w.calls[i]? = some first → w.calls[j]? = some second → i ≠ j →
    first.phase = .returned (.ok page) → second.phase = .returned (.ok other) →
    page.revision ≠ other.revision
  apart : ∀ call ∈ w.calls, ∀ page, call.phase = .returned (.ok page) → ∀ delta ∈ w.bus,
    page.revision ≠ delta.revision
  last : ∀ change ∈ w.stores, ∀ delta ∈ change.deltas.getLast?, delta.revision = change.revision

theorem Numbered.commit_eq (h : Numbered w) {first second : Commit} (hfirst : first ∈ w.commits)
    (hsecond : second ∈ w.commits) (heq : first.revision = second.revision) : first = second := by
  have hnodup : (w.commits.map Commit.revision).Nodup := pairwise_map.mpr (h.pages.imp Nat.ne_of_lt)
  exact Keyed.functional_of_nodup hnodup first hfirst second hsecond heq

instance : Std.Antisymm Earlier where
  antisymm _ _ h h' := absurd h (lt_asymm h')

theorem Ordered.revisionsOrder (h : Ordered w) : RevisionsOrder w where
  rise := pairwise_map.mpr h.bus
  stored := by
    refine sublist_of_subperm_of_pairwise ?_ h.bus h.numbered.rise
    exact (sublist_append_left ..).subperm.trans h.numbered.published.subperm
  answers := by
    intro i j first second page other hfirst hsecond hij hpage hother heq
    obtain ⟨commit, hcommit, hi, hrevision⟩ := h.numbered.returned i first page hfirst (.inl hpage)
    obtain ⟨commit', hcommit', hj, hrevision'⟩ :=
      h.numbered.returned j second other hsecond (.inl hother)
    have hsame := h.numbered.commit_eq hcommit hcommit'
      (hrevision.trans (heq.trans hrevision'.symm))
    exact hij (hi.symm.trans ((congrArg Commit.call hsame).trans hj))
  apart := by
    intro call hcall page hpage delta hdelta
    obtain ⟨i, hi⟩ := mem_iff_getElem?.mp hcall
    obtain ⟨commit, hcommit, -, hrevision⟩ := h.numbered.returned i call page hi (.inl hpage)
    rw [← hrevision]
    refine h.numbered.apart commit hcommit delta ?_
    exact h.numbered.published.mem_iff.mp (mem_append_left _ hdelta)
  last := h.numbered.last

/-- In every run in which a task publishes a delta only when no earlier
one is waiting, the deltas of a pane come in the order in which they
were stored, and no two share a revision. -/
theorem pane_revisions_order {acts : List Action}
    (hrun : Run (apply lowercase) InTurn World.initial acts w) : RevisionsOrder w := by
  refine Ordered.revisionsOrder (Run.invariant ⟨Numbered.initial, .nil, ?_⟩ ?_ hrun)
  · intro delta hdelta
    cases hdelta
  · intro w w' a hok hstep h
    exact h.step hok (step_of_apply hstep)

/-- A listing, a change that its watch publishes, and another page. -/
theorem pane_revisions_order_one_change :
    ∃ acts w, Run (apply id) InTurn World.initial acts w ∧ w.bus.map DirectoryDelta.revision = [2]
      ∧ w.pane.map PaneRequest.revision = some 3 ∧ RevisionsOrder w := by
  obtain ⟨w, hrun, hbus, hrevision⟩ := Run.exists_of_guardedRun
    (show (guardedRun (apply id) InTurn World.initial (listScript (sampleRequest 1 none) 0 2
        ++ [.receive 0 .changed, .listed 0 (.ok (sampleEnumeration 3)), .store 0, .publish 0]
        ++ listScript (sampleRequest 2 none) 1 3)).any
      (fun w => decide (w.bus.map DirectoryDelta.revision = [2]
        ∧ w.pane.map PaneRequest.revision = some 3)) = true from by decide +kernel)
  exact ⟨_, w, hrun, hbus, hrevision, pane_revisions_order hrun⟩

/-- A watch stores a new file, a refresh stores the listing and
publishes it, and then the watch publishes: the later revision comes
first. -/
theorem refresh_overtakes_watch :
    ∃ w, Run (apply id) Free World.initial (listScript (sampleRequest 1 none) 0 2
          ++ [.receive 0 .changed, .listed 0 (.ok (sampleEnumeration 3)), .store 0,
            .refresh, .listed 1 (.ok (sampleEnumeration 3)), .store 1, .publish 1, .publish 0]) w
      ∧ w.bus.map DirectoryDelta.revision = [3, 2] ∧ ¬ RevisionsOrder w := by
  obtain ⟨w, hrun, hbus⟩ := Run.exists_of_run (show (Machine.run (apply id) World.initial
      (listScript (sampleRequest 1 none) 0 2
        ++ [.receive 0 .changed, .listed 0 (.ok (sampleEnumeration 3)), .store 0,
          .refresh, .listed 1 (.ok (sampleEnumeration 3)), .store 1, .publish 1, .publish 0])).any
      (fun w => decide (w.bus.map DirectoryDelta.revision = [3, 2])) = true
      from by decide +kernel)
  refine ⟨w, hrun, hbus, fun horder => ?_⟩
  have hrise := horder.rise
  rw [hbus] at hrise
  exact absurd hrise (by decide)

end FileManager.Directory.Tasks
