/-
Optimistic concurrency of `apply_command` over the file repository.

# The argument

`save` compares the expected revision with the file it has just read and
then renames its own file into place; nothing holds the two together.
When the rename lands on the very file that was compared
(`WritesWhatItRead`), the calls whose file was put in place form a linear
history of the stored workspace (`Chain.Linear`): each found what the one
before it left.

Without the condition two calls that both compared before either renamed
both succeed, and the second rename drops the first one's change.
-/
import FileManager.Workspaces.Proofs.Commands
import FileManager.Lib.Chain

namespace FileManager.Workspaces

open Machine List Call

variable {home : TabLocation} {first : Workspace} {s s' : State} {i : Nat}

-- ==== the condition

/-- The workspace that a call at its rename was compared with. -/
def State.compared (s : State) (i : Nat) : Option Workspace :=
  match s.calls[i]? with
  | some call =>
    match call.position with
    | .writing _ existing _ => some existing
    | _ => none
  | none => none

/-- The rename of a call lands on the file its comparison read, whose
revision has a successor. -/
def WritesWhatItRead (s : State) : Action → Prop
  | .access i none _ =>
    match s.compared i with
    | some existing =>
      s.file = .valid existing ∧ existing.revision + 1 < 2 ^ 64
    | none => True
  | _ => True

instance (s : State) (a : Action) : Decidable (WritesWhatItRead s a) :=
  match a with
  | .access i none _ =>
    match h : s.compared i with
    | some existing =>
      decidable_of_iff (s.file = .valid existing ∧ existing.revision + 1 < 2 ^ 64)
        (by simp only [WritesWhatItRead, h])
    | none => .isTrue (by simp only [WritesWhatItRead, h])
  | .access _ (some _) _ | .start .. | .tick _ => .isTrue trivial

-- ==== the invariant

/-- The call returned the workspace it persisted. -/
def Call.succeeded (call : Call) : Bool :=
  match call.position with
  | .returned (.ok _) => true
  | _ => false

/-- What a committed call did: it changed the revision it expected, and
`save` stamped the result. -/
structure Entry.Commits (home : TabLocation) (e : Entry) : Prop where
  expected : e.loaded.revision = e.command.expectedRevision
  applied : ∃ mutated now, applyMutation e.fresh home e.loaded e.command.mutation = .ok mutated
      ∧ e.persisted = stamp mutated e.loaded now

/-- What a call holds at each position. -/
def Call.Sound (home : TabLocation) (first : Workspace) (log : List Entry)
    (i : Nat) (call : Call) : Prop :=
  let versions := first :: log.map Entry.persisted
  match call.position with
  | .loading => True
  | .naming _ loaded =>
    loaded ∈ versions ∧ loaded.revision = call.command.expectedRevision
  | .saving loaded mutated =>
    (loaded ∈ versions ∧ loaded.revision = call.command.expectedRevision)
      ∧ applyMutation call.fresh home loaded call.command.mutation = .ok mutated
  | .writing loaded existing persisted =>
    loaded = existing ∧ loaded.revision = call.command.expectedRevision ∧ ∃ mutated now,
        applyMutation call.fresh home loaded call.command.mutation = .ok mutated
          ∧ persisted = stamp mutated loaded now
  | .returned (.ok persisted) =>
    ∃ e ∈ log, e.call = i ∧ e.command = call.command ∧ e.persisted = persisted
  | .returned (.error _) => True

/-- The committed calls form a linear history of the file, and are the
calls that succeeded. -/
structure Serial (home : TabLocation) (first : Workspace) (s : State) : Prop where
  history : ∃ stored, s.file = .valid stored
    ∧ Chain.Linear Entry.loaded Entry.persisted Workspace.revision first s.log stored
  calls : ∀ i (call : Call), s.calls[i]? = some call → call.Sound home first s.log i
  commits : ∀ e ∈ s.log, e.Commits home
  entries : ∀ e ∈ s.log, ∃ call, s.calls[e.call]? = some call ∧ call.succeeded = true
  count : s.calls.countP succeeded = s.log.length

theorem serial_initial (now : Nat) : Serial home first (initial first now) where
  history := ⟨first, rfl, .start⟩
  calls := by intro i call h; simp [initial] at h
  commits := by intro e he; cases he
  entries := by intro e he; cases he
  count := rfl

theorem Call.Sound.mono {log log' : List Entry} {call : Call}
    (h : call.Sound home first log i) (hsub : log ⊆ log') : call.Sound home first log' i := by
  have hversions : first :: log.map Entry.persisted ⊆ first :: log'.map Entry.persisted :=
    cons_subset_cons first (map_subset _ hsub)
  unfold Sound at h ⊢
  split
  case h_1 | h_6 => trivial
  case h_2 hp => rw [hp] at h; exact ⟨hversions h.1, h.2⟩
  case h_3 hp => rw [hp] at h; exact ⟨⟨hversions h.1.1, h.1.2⟩, h.2⟩
  case h_4 hp => rw [hp] at h; exact h
  case h_5 hp =>
    rw [hp] at h
    obtain ⟨e, he, hrest⟩ := h
    exact ⟨e, hsub he, hrest⟩

-- ==== moving a call

section Move

variable {i : Nat} {call call' : Call} {position : Position}

theorem sound_set {calls : List Call} {log log' : List Entry}
    (h : ∀ j (c : Call), calls[j]? = some c → c.Sound home first log j)
    (hsub : log ⊆ log') (hnew : call'.Sound home first log' i) :
    ∀ j (c : Call), (calls.set i call')[j]? = some c → c.Sound home first log' j := by
  intro j c hc
  rw [List.getElem?_set] at hc
  split at hc
  case isTrue hij =>
    split at hc
    case isTrue => cases hc; exact hij ▸ hnew
    case isFalse => cases hc
  case isFalse => exact (h j c hc).mono hsub

theorem entry_set (hcall : s.calls[i]? = some call) (hopen : call.succeeded = false) {e : Entry}
    (h : ∃ c, s.calls[e.call]? = some c ∧ c.succeeded = true) :
    ∃ c, (s.calls.set i call')[e.call]? = some c ∧ c.succeeded = true := by
  obtain ⟨c, hc, hsucceeded⟩ := h
  have hne : i ≠ e.call := by
    intro heq
    subst heq
    rw [hcall] at hc
    cases hc
    simp [hopen] at hsucceeded
  exact ⟨c, by rw [List.getElem?_set_ne hne]; exact hc, hsucceeded⟩

theorem countP_set_call (call' : Call) (hcall : s.calls[i]? = some call)
    (hopen : call.succeeded = false) :
    (s.calls.set i call').countP succeeded
      = s.calls.countP succeeded + (if call'.succeeded then 1 else 0) := by
  obtain ⟨hi, hget⟩ := List.getElem?_eq_some_iff.mp hcall
  rw [countP_set hi, hget, hopen]
  rfl

theorem Serial.move (h : Serial home first s)
    (hcall : s.calls[i]? = some call) (hopen : call.succeeded = false)
    (hsound : Sound home first s.log i { call with position := position })
    (hnot : succeeded { call with position := position } = false) :
    Serial home first (s.move i call position) where
  history := h.history
  calls := sound_set h.calls (List.Subset.refl _) hsound
  commits := h.commits
  entries := fun e he => entry_set hcall hopen (h.entries e he)
  count := by
    have hcount := countP_set_call { call with position := position } hcall hopen
    rw [hnot] at hcount
    exact hcount.trans h.count

theorem Serial.fail (h : Serial home first s) (hcall : s.calls[i]? = some call)
    (hopen : call.succeeded = false) (error : WorkspaceError) :
    Serial home first (s.move i call (.returned (.error error))) :=
  h.move hcall hopen trivial rfl

end Move

-- ==== the accesses

section Access

variable {i : Nat} {call : Call} {fault : Option String}
  {stored loaded persisted existing mutated w : Workspace}
  {read : Except WorkspaceError (Option Workspace)}

/-- What a read of a valid file returns. -/
def readStored (stored : Workspace) : Option String →
    Except WorkspaceError (Option Workspace)
  | some message => .error (.io message)
  | none => .ok (some stored)

theorem readWorkspaceFile_valid {id : WorkspaceId} {file : WorkspaceFile}
    (h : file = .valid stored) :
    readWorkspaceFile id file fault = (readStored stored fault, file) := by
  subst h
  cases fault <;> rfl

theorem readStored_ok (h : readStored stored fault = .ok (some w)) : w = stored := by
  cases fault with
  | some message => cases h
  | none => cases h; rfl

theorem checkLoaded_ok {command : WorkspaceCommand} (h : checkLoaded command read = .ok w) :
    read = .ok (some w) ∧ w.revision = command.expectedRevision := by
  unfold checkLoaded at h
  split at h
  case h_1 | h_2 => cases h
  case h_3 w₁ =>
    split at h
    case h_1 => cases h
    case h_2 =>
      split at h
      case isTrue hrevision => cases h; exact ⟨rfl, hrevision⟩
      case isFalse => cases h

theorem compareForSave_ok {expected now : Nat}
    (h : compareForSave mutated expected now read = .ok (existing, persisted)) :
    read = .ok (some existing) ∧ existing.revision = expected
      ∧ persisted = stamp mutated existing now := by
  unfold compareForSave at h
  split at h
  case h_1 w =>
    split at h
    case isTrue hrevision => cases h; exact ⟨rfl, hrevision.symm, rfl⟩
    case isFalse => cases h
  case h_2 | h_3 | h_4 => cases h

theorem Serial.afterCheck (h : Serial home first s) (hcall : s.calls[i]? = some call)
    (hopen : call.succeeded = false) (hversion : loaded ∈ first :: s.log.map Entry.persisted)
    (hrevision : loaded.revision = call.command.expectedRevision) :
    Serial home first (s.move i call (afterCheck home call loaded)) := by
  unfold Workspaces.afterCheck
  cases hm : applyMutation call.fresh home loaded call.command.mutation with
  | error error => exact h.fail hcall hopen error
  | ok mutated => exact h.move hcall hopen ⟨⟨hversion, hrevision⟩, hm⟩ rfl

theorem stored_mem_versions (h : Chain.Linear Entry.loaded Entry.persisted
    Workspace.revision first s.log stored) :
    stored ∈ first :: s.log.map Entry.persisted := by
  rw [← h.handover]
  exact mem_append_right _ (mem_singleton_self _)

theorem Serial.load (h : Serial home first s) (hcall : s.calls[i]? = some call)
    (hopen : call.succeeded = false) : Serial home first (load home s i call fault) := by
  obtain ⟨stored, hfile, hlinear⟩ := h.history
  unfold Workspaces.load
  rw [readWorkspaceFile_valid hfile]
  dsimp only
  cases hcheck : checkLoaded call.command (readStored stored fault) with
  | error error => exact h.fail hcall hopen error
  | ok loaded =>
    obtain ⟨hread, hrevision⟩ := checkLoaded_ok hcheck
    have hloaded := readStored_ok hread
    subst hloaded
    have hversion := stored_mem_versions hlinear
    dsimp only
    split
    case h_1 name _ => exact h.move hcall hopen ⟨hversion, hrevision⟩ rfl
    case h_2 => exact h.afterCheck hcall hopen hversion hrevision

theorem Serial.checkName (h : Serial home first s) (hcall : s.calls[i]? = some call)
    {name : String} (hposition : call.position = .naming name loaded)
    (summaries : List WorkspaceSummary) :
    Serial home first (checkName home s i call name loaded fault summaries) := by
  have hopen : call.succeeded = false := by simp only [succeeded, hposition]
  have hsound := h.calls i call hcall
  simp only [Sound, hposition] at hsound
  obtain ⟨stored, hfile, -⟩ := h.history
  unfold Workspaces.checkName
  cases fault with
  | some message => exact h.fail hcall hopen _
  | none =>
    dsimp only
    rw [if_neg (by rw [hfile]; exact nofun)]
    cases hname : ensureNameAvailable summaries name call.command.workspaceId with
    | error error => exact h.fail hcall hopen error
    | ok _ => exact h.afterCheck hcall hopen hsound.1 hsound.2

theorem Serial.compare (h : Serial home first s) (hcall : s.calls[i]? = some call)
    (hposition : call.position = .saving loaded mutated) :
    Serial home first (compare s i call loaded mutated fault) := by
  have hopen : call.succeeded = false := by simp only [succeeded, hposition]
  have hsound := h.calls i call hcall
  simp only [Sound, hposition] at hsound
  obtain ⟨⟨hversion, hrevision⟩, hmutated⟩ := hsound
  obtain ⟨stored, hfile, hlinear⟩ := h.history
  unfold Workspaces.compare
  rw [readWorkspaceFile_valid hfile]
  dsimp only
  cases hcompare : compareForSave mutated call.command.expectedRevision s.now
      (readStored stored fault) with
  | error error => exact h.fail hcall hopen error
  | ok compared =>
    obtain ⟨existing, persisted⟩ := compared
    obtain ⟨hread, hexpected, hpersisted⟩ := compareForSave_ok hcompare
    have hexisting := readStored_ok hread
    -- both reads found the expected revision, which names one version
    have hsame : loaded = existing := by
      rw [hexisting]
      refine hlinear.eq_last hversion ?_
      rw [← hexisting, hexpected, hrevision]
    refine h.move hcall hopen ⟨hsame, hrevision, mutated, s.now, hmutated, ?_⟩ rfl
    rw [hpersisted, hsame]

theorem Serial.write (h : Serial home first s) (hcall : s.calls[i]? = some call)
    (hposition : call.position = .writing loaded existing persisted)
    (hok : fault = none → s.file = .valid existing ∧ existing.revision + 1 < 2 ^ 64) :
    Serial home first (write s i call loaded persisted fault) := by
  have hopen : call.succeeded = false := by simp only [succeeded, hposition]
  have hsound := h.calls i call hcall
  simp only [Sound, hposition] at hsound
  obtain ⟨rfl, hrevision, mutated, now, hmutated, hpersisted⟩ := hsound
  unfold Workspaces.write
  cases fault with
  | some message => exact h.fail hcall hopen _
  | none =>
    obtain ⟨hloaded, hbound⟩ := hok rfl
    obtain ⟨event, hevent⟩ := commandEvent_ok loaded now hmutated
    rw [← hpersisted] at hevent
    dsimp only
    rw [hevent]
    dsimp only [State.move]
    have hnew : ∀ e ∈ s.log ++ [Entry.mk i call.command call.fresh loaded persisted],
        e ∈ s.log ∨ e = Entry.mk i call.command call.fresh loaded persisted := by
      intro e he
      rcases mem_append.mp he with hold | hnew
      · exact .inl hold
      · exact .inr (mem_singleton.mp hnew)
    constructor
    · -- the file the rename replaces is the last version
      obtain ⟨stored, hfile, hlinear⟩ := h.history
      rw [hloaded] at hfile
      cases hfile
      refine ⟨persisted, rfl, .snoc
        (Entry.mk i call.command call.fresh loaded persisted) hlinear ?_⟩
      show persisted.revision = loaded.revision + 1
      rw [hpersisted]
      exact Nat.mod_eq_of_lt hbound
    · refine sound_set h.calls (subset_append_left _ _) ?_
      exact ⟨⟨i, call.command, call.fresh, loaded, persisted⟩,
        mem_append_right _ (mem_singleton_self _), rfl, rfl, rfl⟩
    · intro e he
      rcases hnew e he with hold | rfl
      · exact h.commits e hold
      · exact ⟨hrevision, mutated, now, hmutated, hpersisted⟩
    · intro e he
      rcases hnew e he with hold | rfl
      · exact entry_set hcall hopen (h.entries e hold)
      · refine ⟨_, List.getElem?_set_self ?_, rfl⟩
        exact (List.getElem?_eq_some_iff.mp hcall).1
    · refine (countP_set_call _ hcall hopen).trans ?_
      rw [h.count]
      simp [succeeded]

end Access

-- ==== the runs

theorem Serial.start (h : Serial home first s) (command : WorkspaceCommand) (fresh : TabId) :
    Serial home first { s with calls := s.calls
      ++ [{ command := command, fresh := fresh, position := .loading }] } where
  history := h.history
  calls := by
    intro i call hcall
    rw [List.getElem?_append] at hcall
    split at hcall
    case isTrue => exact h.calls i call hcall
    case isFalse =>
      rw [mem_singleton.mp (mem_of_getElem? hcall)]
      trivial
  commits := h.commits
  entries := by
    intro e he
    obtain ⟨call, hcall, hsucceeded⟩ := h.entries e he
    refine ⟨call, ?_, hsucceeded⟩
    rw [List.getElem?_append_left (List.getElem?_eq_some_iff.mp hcall).1]
    exact hcall
  count := by
    rw [countP_append, h.count]
    rfl

theorem serial_step {id : WorkspaceId} {a : Action} (hok : WritesWhatItRead s a)
    (hs : apply id home a s = some s') (h : Serial home first s) : Serial home first s' := by
  cases a with
  | start command fresh =>
    unfold apply at hs
    dsimp only at hs
    split at hs
    case isTrue => cases hs; exact h.start command fresh
    case isFalse => cases hs
  | tick now =>
    cases hs
    exact ⟨h.history, h.calls, h.commits, h.entries, h.count⟩
  | access i fault summaries =>
    unfold apply at hs
    dsimp only at hs
    cases hcall : s.calls[i]? with
    | none => rw [hcall] at hs; cases hs
    | some call =>
      rw [hcall] at hs
      dsimp only at hs
      split at hs
      case h_1 hposition =>
        cases hs
        exact h.load hcall (by simp only [succeeded, hposition])
      case h_2 hposition => cases hs; exact h.checkName hcall hposition summaries
      case h_3 hposition => cases hs; exact h.compare hcall hposition
      case h_4 existing _ hposition =>
        cases hs
        refine h.write hcall hposition fun hfault => ?_
        subst hfault
        simpa only [WritesWhatItRead, State.compared, hcall, hposition] using hok
      case h_5 => cases hs

theorem serial_run {now : Nat} {acts : List Action}
    (hrun : Run (apply first.id home) WritesWhatItRead (initial first now) acts s) :
    Serial home first s :=
  Run.invariant (serial_initial now) (fun _ hok hs h => serial_step hok hs h) hrun

theorem Serial.same_call (h : Serial home first s) {j : Nat} {call call' : Call}
    (hi : s.calls[i]? = some call) (hj : s.calls[j]? = some call')
    (hsucceeded : call.succeeded = true) (hsucceeded' : call'.succeeded = true)
    (hexpected : call.command.expectedRevision = call'.command.expectedRevision) : i = j := by
  have hentry : ∀ (k : Nat) (c : Call), s.calls[k]? = some c → c.succeeded = true →
      ∃ e ∈ s.log, e.call = k ∧ e.command = c.command := by
    intro k c hk hc
    have hsound := h.calls k c hk
    unfold succeeded at hc
    split at hc
    case h_1 hposition =>
      simp only [Sound, hposition] at hsound
      obtain ⟨e, he, hcall, hcommand, -⟩ := hsound
      exact ⟨e, he, hcall, hcommand⟩
    case h_2 => cases hc
  obtain ⟨e, he, rfl, hcommand⟩ := hentry i call hi hsucceeded
  obtain ⟨e', he', rfl, hcommand'⟩ := hentry j call' hj hsucceeded'
  obtain ⟨stored, -, hlinear⟩ := h.history
  have hsame : e = e' := by
    refine hlinear.write_unique he he' ?_
    rw [(h.commits e he).expected, (h.commits e' he').expected, hcommand, hcommand', hexpected]
  rw [hsame]

/-- Of concurrent commands whose renames land on the file they compared,
every success starts from what the one before it left, and at most one
succeeds on a revision. -/
theorem updates_are_serial {now : Nat} {acts : List Action}
    (hrun : Run (apply first.id home) WritesWhatItRead (initial first now) acts s) :
    ∃ stored, s.file = .valid stored
      ∧ stored.revision = first.revision + s.calls.countP succeeded
      ∧ s.log.map Entry.loaded ++ [stored] = first :: s.log.map Entry.persisted
      ∧ (∀ e ∈ s.log, e.Commits home ∧ e.persisted.revision = e.loaded.revision + 1
          ∧ ∃ call, s.calls[e.call]? = some call ∧ call.succeeded = true)
      ∧ (∀ (i : Nat) (call : Call) persisted, s.calls[i]? = some call →
          call.position = .returned (.ok persisted) →
          ∃ e ∈ s.log, e.call = i ∧ e.command = call.command ∧ e.persisted = persisted)
      ∧ (∀ (i j : Nat) (call call' : Call), s.calls[i]? = some call →
          s.calls[j]? = some call' →
          call.succeeded = true → call'.succeeded = true →
          call.command.expectedRevision = call'.command.expectedRevision →
          i = j) := by
  have h := serial_run hrun
  obtain ⟨stored, hfile, hlinear⟩ := h.history
  refine ⟨stored, hfile, ?_, hlinear.handover, ?_, ?_, ?_⟩
  · rw [h.count]
    exact hlinear.rank_last
  · intro e he
    exact ⟨h.commits e he, hlinear.rank_after he, h.entries e he⟩
  · intro i call persisted hcall hposition
    have hsound := h.calls i call hcall
    simpa only [Sound, hposition] using hsound
  · intro i j call call' hi hj hsucceeded hsucceeded' hexpected
    exact h.same_call hi hj hsucceeded hsucceeded' hexpected

-- ==== the samples

def sampleHome : TabLocation where
  providerId := "local"
  uri := "/home"

/-- One pane with one tab, at its first revision. -/
def sampleWorkspace : Workspace where
  schemaVersion := currentSchemaVersion
  id := 0
  name := "work"
  layout := .pane 1
  panes := [{ id := 1, title := none, tabs := [buildTab 10 sampleHome]
              activeTabId := 10, defaultView := defaultDirectoryView }]
  activePaneId := 1
  operationCentre := { visible := true, height := 240 }
  createdAt := 0
  updatedAt := 0
  revision := 1

def sampleCommand (expectedRevision : Nat) : WorkspaceCommand where
  workspaceId := 0
  expectedRevision := expectedRevision
  mutation := .addTab 1 sampleHome

/-- The accesses of an undisturbed call. -/
def wholeCall (i : Nat) : List Action := [.access i none [], .access i none [], .access i none []]

/-- Two calls, one after the other: each of them opens its tab. -/
theorem updates_are_serial_two_calls :
    ∃ acts s, Run (apply sampleWorkspace.id sampleHome) WritesWhatItRead
        (initial sampleWorkspace 0) acts s
      ∧ s.log.length = 2
      ∧ ∃ stored, s.file = .valid stored ∧ stored.revision
          = sampleWorkspace.revision + s.calls.countP succeeded := by
  obtain ⟨s, hrun, hlog⟩ := Run.exists_of_guardedRun
    (show (guardedRun (apply sampleWorkspace.id sampleHome) WritesWhatItRead
      (initial sampleWorkspace 0)
      (.start (sampleCommand 1) 11 :: wholeCall 0
        ++ .start (sampleCommand 2) 12 :: wholeCall 1)).any
      (fun s => decide (s.log.length = 2)) = true
      from by decide +kernel)
  obtain ⟨stored, hfile, hrevision, -⟩ := updates_are_serial hrun
  exact ⟨_, s, hrun, hlog, stored, hfile, hrevision⟩

/-- The tabs the file shows. -/
def State.tabIds (s : State) : List TabId :=
  match s.file with
  | .valid workspace => workspace.panes.flatMap fun pane => pane.tabs.map TabState.id
  | _ => []

/-- Two calls that expect one revision compare before either renames:
both succeed, and the tab of the first is lost. -/
theorem first_update_lost :
    ∃ acts s, Run (apply sampleWorkspace.id sampleHome) Free (initial sampleWorkspace 0) acts s
      ∧ s.calls.map (fun call => (call.command.expectedRevision, call.succeeded))
        = [(1, true), (1, true)]
      ∧ s.log.map (fun e => e.persisted.revision) = [2, 2]
      ∧ s.tabIds = [10, 12] := by
  obtain ⟨s, hrun, hend⟩ := Run.exists_of_run
    (show (Machine.run (apply sampleWorkspace.id sampleHome) (initial sampleWorkspace 0)
      [.start (sampleCommand 1) 11, .start (sampleCommand 1) 12,
        .access 0 none [], .access 0 none [], .access 1 none [], .access 1 none [],
        .access 0 none [], .access 1 none []]).any
      (fun s => decide (s.calls.map (fun call => (call.command.expectedRevision, call.succeeded))
          = [(1, true), (1, true)]
        ∧ s.log.map (fun e => e.persisted.revision) = [2, 2]
        ∧ s.tabIds = [10, 12])) = true
      from by decide +kernel)
  exact ⟨_, s, hrun, hend⟩

end FileManager.Workspaces
