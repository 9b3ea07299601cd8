/-
A command that fails leaves no trace. Everything in `apply_command`
before the write of the new file only reads (`OnlyReads`), a failed
write leaves the file as it was, and after the write nothing fails: an
applied command finds the pane and the tab that its event names.

A command that succeeds has written the workspace that is loaded next,
one revision further, where the workspace is stored under its own
identifier, its revision is not the last `u64`, and a new layout does not
nest deeper than `serde_json` reads.
-/
import FileManager.Workspaces.Proofs.Stored
import FileManager.Workspaces.Proofs.Invariant
import FileManager.Workspaces.Proofs.Concurrency
import FileManager.Workspaces.Proofs.Inhabitation

namespace FileManager.Workspaces

open Fallible Option

variable {json : Json} {mutation : Mutation} {fresh : TabId} {home : TabLocation}
  {w w' first : Workspace} {r : Except WorkspaceError Workspace} {command : WorkspaceCommand}
  {service : Service}

-- ==== events

def WorkspaceEvent.revision : WorkspaceEvent → Nat
  | .renamed revision _ => revision
  | .activePaneChanged revision _ => revision
  | .tabAdded revision _ _ _ => revision
  | .tabClosed revision _ _ => revision
  | .tabActivated revision _ _ => revision
  | .tabNavigated revision _ _ _ => revision
  | .tabViewChanged revision _ _ _ => revision
  | .layoutChanged revision _ => revision

theorem commandEvent_revision {persisted : Workspace} {event : WorkspaceEvent}
    (h : commandEvent mutation persisted = .ok event) : event.revision = persisted.revision := by
  unfold commandEvent at h
  dsimp only at h
  split at h
  case h_3 | h_6 | h_7 =>
    split at h
    · cases h
      rfl
    · cases h
  all_goals
    cases h
    rfl

-- ==== mutations

def Mutation.layout : Mutation → Option WorkspaceLayout
  | .updateLayout layout => some layout
  | _ => none

theorem Effect.keeps (h : Effect fresh home w mutation w') :
    w'.id = w.id ∧ w'.schemaVersion = w.schemaVersion
      ∧ w'.layout = mutation.layout.getD w.layout := by
  cases h <;> exact ⟨rfl, rfl, rfl⟩

theorem validate_of_applyMutation
    (h : applyMutation fresh home w mutation = .ok w') : w'.validate = .ok () := by
  unfold applyMutation at h
  split at h
  case h_1 => cases h
  case h_2 =>
    split at h
    case h_1 => cases h
    case h_2 hvalid =>
      cases h
      exact hvalid

theorem validate_stamp (w existing : Workspace) (now : Nat) :
    (stamp w existing now).validate = w.validate := rfl

-- ==== loads

/-- What `WorkspaceService::load` returns where nothing fails. -/
def Loads (s : Disk json) (id : WorkspaceId) (w : Workspace) : Prop :=
  ∃ s', Yields (Service.load id) { s with faults := [] } (.ok w) s'

theorem yields_serviceLoad {id : WorkspaceId} {w : Workspace} {s s' : Disk json}
    (h : Yields (Service.load id) s (.ok w) s') :
    s.read (.workspace id) = some (.ok w) ∧ w.validate = .ok () := by
  unfold Service.load at h
  obtain ⟨found, s₁, hload, h⟩ := yields_bind_ok.mp h
  cases found with
  | none => cases (yields_throw.mp h).1
  | some w' =>
    -- the workspace that was read is the one that is returned
    unfold validateOrError at h
    obtain ⟨_, hvalid, h⟩ | ⟨e, -, h, -⟩ := yields_reads_bind.mp h
    · cases (yields_pure.mp h).1
      have hread : s.read (.workspace id) = some (.ok w) := by
        obtain ⟨file, s₂, hfile, h⟩ := yields_bind_ok.mp hload
        obtain ⟨-, ⟨message, hr⟩ | ⟨hr, -⟩ | ⟨hr, -⟩ | ⟨w', hr, hread⟩⟩ := yields_readFile hfile
        · cases hr
        · cases hr
          cases (yields_pure.mp h).1
        · cases hr
          cases (yields_throw.mp h).1
        · cases hr
          cases (yields_pure.mp h).1
          exact hread
      refine ⟨hread, ?_⟩
      split at hvalid
      · assumption
      · cases hvalid
    · cases h

theorem serviceLoad_of_noFault {s : Disk json} (hs : s.faults = []) {id : WorkspaceId}
    {w : Workspace} (hread : s.read (.workspace id) = some (.ok w))
    (hvalid : w.validate = .ok ()) : Yields (Service.load id) s (.ok w) s := by
  refine yields_bind_ok.mpr ⟨some w, s, repositoryLoad_workspace hs hread, ?_⟩
  refine yields_reads_bind.mpr (.inl ⟨⟨⟩, ?_, yields_pure.mpr ⟨rfl, rfl⟩⟩)
  rw [hvalid]

theorem loads_iff {s : Disk json} {id : WorkspaceId} :
    Loads s id w ↔ s.read (.workspace id) = some (.ok w) ∧ w.validate = .ok () := by
  constructor
  · intro hfound
    obtain ⟨s', h⟩ := hfound
    exact @yields_serviceLoad json id w { s with faults := [] } s' h
  · intro hboth
    obtain ⟨hread, hvalid⟩ := hboth
    exact ⟨_, @serviceLoad_of_noFault json { s with faults := [] } rfl id w hread hvalid⟩

-- ==== saves

variable {s s' : Disk json}

theorem yields_save {workspace : Workspace} {expected : Nat}
    (h : Yields (FileRepository.save workspace (some expected)) s r s') :
    (Leaves s s' ∧ ∃ e, r = .error e)
    ∨ ∃ existing s₁, Leaves s s₁ ∧ s.read (.workspace workspace.id) = some (.ok existing)
      ∧ existing.revision = expected ∧ r = .ok (stamp workspace existing s.now)
      ∧ s' = s₁.store workspace.id (stamp workspace existing s.now) := by
  unfold FileRepository.save at h
  rcases yields_bind.mp h with ⟨found, s₁, hfile, h⟩ | ⟨e, hfile, rfl⟩
  · obtain ⟨hleaves, hfound⟩ := yields_readFile hfile
    obtain ⟨persisted, hcopy, h⟩ | ⟨e, -, rfl, rfl⟩ := yields_reads_bind.mp h
    · obtain ⟨faults, h | ⟨message, rfl, rfl⟩⟩ := yields_access_bind h
      · -- the write is made, over a workspace that was found
        have h := yields_writes_bind.mp h
        obtain ⟨rfl, rfl⟩ := yields_pure.mp h
        rw [hleaves.now] at hcopy
        unfold persistedCopy at hcopy
        split at hcopy
        case h_2 => cases hcopy
        case h_1 existing hexisting =>
          obtain ⟨hrevision, hcopy⟩ := passed hcopy nofun
          cases hcopy
          have hread : s.read (.workspace workspace.id) = some (.ok existing) := by
            obtain ⟨message, hr⟩ | ⟨hr, -⟩ | ⟨hr, -⟩ | ⟨w, hr, hread⟩ := hfound
            · cases hr
            · cases hr
              cases hexisting
            · cases hr
              cases hexisting
            · cases hr
              cases hexisting
              exact hread
          refine .inr ⟨existing, { s₁ with faults := faults },
            hleaves.trans (leaves_faults s₁ faults), hread, ?_, rfl, rfl⟩
          have hrevision : expected = existing.revision := by simpa using hrevision
          exact hrevision.symm
      · exact .inl ⟨hleaves.trans (leaves_faults s₁ faults), _, rfl⟩
    · exact .inl ⟨hleaves, _, rfl⟩
  · exact .inl ⟨(yields_readFile hfile).1, _, rfl⟩

-- ==== commands

/-- A command that was applied: the workspace it was applied to, the one
that was written over, and the directory before the write. -/
structure Applied (service : Service) (fresh : TabId) (command : WorkspaceCommand)
    (s s' : Disk json) (w previous : Workspace) : Prop where
  loaded : s.read (.workspace command.workspaceId) = some (.ok previous)
  valid : previous.validate = .ok ()
  revision : previous.revision = command.expectedRevision
  written : ∃ mutated existing s₁ event,
    applyMutation fresh (locationFor json.isUuid service.homeDirectory) previous
      command.mutation = .ok mutated
    ∧ Leaves s s₁
    ∧ s.read (.workspace mutated.id) = some (.ok existing)
    ∧ existing.revision = command.expectedRevision
    ∧ w = stamp mutated existing s.now
    ∧ commandEvent command.mutation w = .ok event
    ∧ s' = { s₁.store mutated.id w with
        published := s.published ++ [(w.id, .command event)] }

theorem yields_applyCommand (h : Yields (service.applyCommand fresh command) s r s') :
    (Leaves s s' ∧ ∃ e, r = .error e)
      ∨ ∃ w previous, r = .ok w ∧ Applied service fresh command s s' w previous := by
  unfold Service.applyCommand at h
  -- the load and the two checks
  rcases yields_bind.mp h with ⟨previous, s₁, hload, h⟩ | ⟨e, hload, rfl⟩
  case inr => exact .inl ⟨(onlyReads_serviceLoad _ _ _ _ hload).1, e, rfl⟩
  have h₁ := (onlyReads_serviceLoad _ _ _ _ hload).1
  obtain ⟨hread, hvalid⟩ := yields_serviceLoad hload
  have hcheck : OnlyReads (onlyIf (previous.revision ≠ command.expectedRevision)
      (throw (.revisionConflict command.workspaceId
        (some command.expectedRevision) previous.revision)) : Prog json PUnit) :=
    Keeps.onlyIf Leaves.refl (onlyReads_throw _)
  rcases yields_bind.mp h with ⟨_, s₂, hrevision, h⟩ | ⟨e, hrevision, rfl⟩
  case inr => exact .inl ⟨h₁.trans (hcheck _ _ _ hrevision).1, e, rfl⟩
  have h₂ := h₁.trans (hcheck _ _ _ hrevision).1
  have hrevision : previous.revision = command.expectedRevision := by
    rcases yields_onlyIf.mp hrevision with ⟨-, hthrow⟩ | ⟨hsame, -⟩
    · cases (yields_throw.mp hthrow).1
    · simpa using hsame
  rcases yields_bind.mp h with ⟨_, s₃, hname, h⟩ | ⟨e, hname, rfl⟩
  case inr => exact .inl ⟨h₂.trans (onlyReads_checkCommandName _ _ _ _ hname).1, e, rfl⟩
  have h₃ := h₂.trans (onlyReads_checkCommandName _ _ _ _ hname).1
  -- the mutation and the save
  obtain ⟨mutated, hmutated, h⟩ | ⟨e, -, rfl, rfl⟩ := yields_reads_bind.mp h
  case inr => exact .inl ⟨h₃, e, rfl⟩
  rcases yields_bind.mp h with ⟨persisted, s₄, hsave, h⟩ | ⟨e, hsave, rfl⟩
  case inr =>
    obtain ⟨h₄, -⟩ | ⟨_, _, -, -, -, hr, -⟩ := yields_save hsave
    · exact .inl ⟨h₃.trans h₄, e, rfl⟩
    · cases hr
  obtain ⟨-, _, hr⟩ | ⟨existing, s₅, h₅, hexisting, hexpected, hr, rfl⟩ := yields_save hsave
  · cases hr
  cases hr
  -- the event is there
  obtain ⟨event, hevent⟩ := commandEvent_ok existing s₃.now hmutated
  obtain ⟨event', hevent', h⟩ | ⟨e, hfails, -, -⟩ := yields_reads_bind.mp h
  case inr =>
    simp [hevent] at hfails
  have h := yields_writes_bind.mp h
  obtain ⟨rfl, rfl⟩ := yields_pure.mp h
  refine .inr ⟨_, previous, rfl, hread, hvalid, hrevision, mutated, existing, s₅, event',
    hmutated, h₃.trans h₅, h₃.read_of_some hexisting, hexpected, ?_, hevent', ?_⟩
  · rw [h₃.now]
  · rw [← (h₃.trans h₅).published]
    rfl

theorem read_store (s : Disk json) (id : WorkspaceId) (w : Workspace) (name : FileName) :
    (s.store id w).read name
      = if name = .workspace id then some (parseAndMigrate json s.now (json.toVec w))
        else s.read name := by
  unfold Disk.read Disk.store
  rw [Keyed.get_put]
  split <;> rfl

/-- The command's workspace is stored under its own identifier, has a
revision left, and gets no layout that is too deep to be read. -/
structure Advances (json : Json) (command : WorkspaceCommand) (previous : Workspace) :
    Prop where
  id : previous.id = command.workspaceId
  revision : previous.revision + 1 < 2 ^ 64
  layout : ∀ layout, command.mutation = .updateLayout layout →
    layout.depth ≤ json.layoutLimit

theorem parse_stamp (hjson : json.Lawful) {existing : Workspace} (now : Nat)
    (hvalid : w.validate = .ok ()) (hversion : w.schemaVersion = currentSchemaVersion)
    (hdepth : w.layout.depth ≤ json.layoutLimit) :
    parseAndMigrate json now (json.toVec (stamp w existing now)) = .ok (stamp w existing now) := by
  obtain ⟨value, hslice, hvalue⟩ := hjson.reads_back w hvalid hdepth existing.createdAt now
    ((existing.revision + 1) % 2 ^ 64) (Nat.mod_lt _ (by decide))
  exact parseAndMigrate_written hjson.version now hversion hslice hvalue

theorem Applied.advances_iff (hjson : json.Lawful)
    {previous : Workspace} (h : Applied service fresh command s s' w previous) :
    Loads s' command.workspaceId w ∧ w.revision = previous.revision + 1
      ↔ Advances json command previous := by
  obtain ⟨hread, -, hrevision, mutated, existing, s₁, event, hmutated, hleaves,
    -, hexpected, rfl, -, hs'⟩ := h
  obtain ⟨hid, hversion, hlayout⟩ := (effect_of_mutate (mutate_of_applyMutation hmutated)).keeps
  have hvalid := validate_of_applyMutation hmutated
  have hstored : ∀ name, s'.read name = (s₁.store mutated.id (stamp mutated existing s.now)).read
      name := by
    intro name
    rw [hs']
    rfl
  have hrev : (stamp mutated existing s.now).revision = (previous.revision + 1) % 2 ^ 64 := by
    rw [hrevision, ← hexpected]
    rfl
  have hkept : s₁.read (.workspace command.workspaceId) = some (.ok previous) := by
    rw [hleaves.read (by rw [hread]; simp), hread]
  constructor
  · intro hboth
    obtain ⟨hloads, hnext⟩ := hboth
    obtain ⟨hnow, -⟩ := loads_iff.mp hloads
    rw [hstored, read_store] at hnow
    have hsame : mutated.id = command.workspaceId := by
      by_contra hne
      -- the command's own file is as it was, one revision behind
      rw [if_neg (by simpa using Ne.symm hne), hkept] at hnow
      injection hnow with hnow
      injection hnow with hnow
      rw [← hnow] at hnext
      omega
    refine ⟨hid.symm.trans hsame, ?_, ?_⟩
    · rw [hrev] at hnext
      have := Nat.mod_lt (previous.revision + 1) (show 0 < 2 ^ 64 by decide)
      omega
    · intro layout hmutation
      rw [if_pos (by rw [hsame])] at hnow
      injection hnow with hnow
      have hdepth := hjson.depth _ _ _ hnow
      have heq : (stamp mutated existing s.now).layout = layout := by
        show mutated.layout = layout
        rw [hlayout, hmutation]
        rfl
      rw [heq] at hdepth
      exact hdepth
  · intro hboth
    obtain ⟨hsame, hbound, hdepth⟩ := hboth
    have hdepth' : mutated.layout.depth ≤ json.layoutLimit := by
      rw [hlayout]
      cases hnew : command.mutation.layout with
      | some layout =>
        refine hdepth layout ?_
        cases hm : command.mutation <;> rw [hm] at hnew <;> cases hnew
        rfl
      | none =>
        obtain ⟨bytes, -, hparsed⟩ := map_eq_some_iff.mp hread
        exact hjson.depth _ _ _ hparsed
    have hcurrent : mutated.schemaVersion = currentSchemaVersion := by
      obtain ⟨bytes, -, hparsed⟩ := map_eq_some_iff.mp hread
      rw [hversion, parseAndMigrate_version hjson.version hparsed]
    refine ⟨loads_iff.mpr ⟨?_, ?_⟩, ?_⟩
    · rw [hstored, read_store, if_pos (by rw [hid, hsame]), hleaves.now,
        parse_stamp hjson s.now hvalid hcurrent hdepth']
    · rw [validate_stamp]
      exact hvalid
    · rw [hrev, Nat.mod_eq_of_lt hbound]

theorem failed_commands_leave_no_trace (hjson : json.Lawful) {service : Service}
    {fresh : TabId} {command : WorkspaceCommand} {s s' : Disk json}
    {r : Except WorkspaceError Workspace}
    (h : Yields (service.applyCommand fresh command) s r s') :
    (∀ error, r = .error error →
      (∀ name w, s.read name = some (.ok w) →
        Keyed.get s'.files name = Keyed.get s.files name)
      ∧ s'.published = s.published)
    ∧ ∀ w, r = .ok w → ∃ previous event,
        Loads s command.workspaceId previous
        ∧ s'.published = s.published ++ [(w.id, .command event)]
        ∧ event.revision = w.revision
        ∧ (Loads s' command.workspaceId w ∧ w.revision = previous.revision + 1
          ↔ Advances json command previous) := by
  rcases yields_applyCommand h with ⟨hleaves, e, rfl⟩ | ⟨w, previous, rfl, happlied⟩
  · refine ⟨fun error _ => ⟨fun name w hread => hleaves.files name ?_, hleaves.published⟩, ?_⟩
    · rw [hread]
      simp
    · intro w hw
      cases hw
  · refine ⟨fun error herror => (by cases herror), fun w' hw' => ?_⟩
    cases hw'
    obtain ⟨mutated, existing, s₁, event, -, -, -, -, -, hevent, hs'⟩ := happlied.written
    refine ⟨previous, event, loads_iff.mpr ⟨happlied.loaded, happlied.valid⟩, ?_,
      commandEvent_revision hevent, happlied.advances_iff hjson⟩
    rw [hs']

-- ==== the samples

def sampleService : Service where
  homeDirectory := "/home".toUTF8.toList
  secondaryLocation := none

/-- A directory with one workspace. -/
def sampleDisk (workspace : Workspace) : Disk plainJson where
  files := [(.workspace workspace.id, workspace.write)]
  lastActive := .missing
  faults := []
  now := 5
  published := []

/-- A command that opens a second tab is loaded next. -/
theorem failed_commands_leave_no_trace_second_tab :
    ∃ w s', Yields (sampleService.applyCommand 11 (sampleCommand 1))
        (sampleDisk sampleWorkspace) (.ok w) s'
      ∧ Loads s' sampleWorkspace.id w ∧ w.revision = 2 := by
  obtain ⟨w, s', hrun, hrevision⟩ := @Yields.exists_of_run _ _ _
    (sampleService.applyCommand 11 (sampleCommand 1)) (sampleDisk sampleWorkspace)
    (fun w _ => w.revision = 2) _ (by decide +kernel)
  obtain ⟨previous, -, hprevious, -, -, hiff⟩ :=
    (failed_commands_leave_no_trace plainJson_lawful hrun).2 w rfl
  have hsame : previous = sampleWorkspace := by
    have hread := (loads_iff.mp hprevious).1
    have hstored : (sampleDisk sampleWorkspace).read (.workspace 0)
        = some (.ok sampleWorkspace) :=
      congrArg some (@parseAndMigrate_written plainJson sampleWorkspace.write
        sampleWorkspace plainJson_versioned 5 rfl rfl (Workspace.read_write rfl (by decide)))
    rw [show (sampleCommand 1).workspaceId = 0 from rfl, hstored] at hread
    cases hread
    rfl
  have hadvances : Advances plainJson (sampleCommand 1) previous := by
    subst hsame
    exact ⟨rfl, by decide, fun layout hlayout => by cases hlayout⟩
  exact ⟨w, s', hrun, (hiff.mpr hadvances).1, hrevision⟩

/-- After the last revision comes the first one. -/
theorem last_revision_wraps :
    ∃ w s', Yields (sampleService.applyCommand 11 (sampleCommand (2 ^ 64 - 1)))
        (sampleDisk { sampleWorkspace with revision := 2 ^ 64 - 1 }) (.ok w) s'
      ∧ w.revision ≠ (2 ^ 64 - 1) + 1 := by
  exact Yields.exists_of_run (by decide +kernel)

-- ==== concurrent calls and failing accesses

open Machine List

variable {s s' : State}

/-- What a call writes or returns passes its check. -/
def Call.WritesValid (call : Call) : Prop :=
  match call.position with
  | .saving _ w | .writing _ _ w | .returned (.ok w) => w.validate = .ok ()
  | _ => True

/-- The file is the first one or passes its check, and so does all that
is on its way to it. -/
structure StoresValid (first : Workspace) (s : State) : Prop where
  file : ∀ w, s.file = .valid w → w = first ∨ w.validate = .ok ()
  calls : ∀ call ∈ s.calls, call.WritesValid

theorem StoresValid.move (h : StoresValid first s) {i : Nat} {call : Call} {position : Position}
    (hposition : { call with position := position : Call }.WritesValid) :
    StoresValid first (s.move i call position) := by
  refine ⟨h.file, fun other hother => ?_⟩
  rcases mem_or_eq_of_mem_set hother with hother | rfl
  · exact h.calls other hother
  · exact hposition

theorem afterCheck_writesValid (home : TabLocation) (call : Call) (loaded : Workspace) :
    { call with position := afterCheck home call loaded : Call }.WritesValid := by
  unfold afterCheck
  split
  case h_1 happly => exact validate_of_applyMutation happly
  case h_2 => trivial

/-- A read leaves the file, or moves a corrupt one away. -/
theorem StoresValid.read (h : StoresValid first s) (id : WorkspaceId) (fault : Option String) :
    StoresValid first { s with file := (readWorkspaceFile id s.file fault).2 } := by
  refine ⟨fun w hw => h.file w ?_, h.calls⟩
  revert hw
  unfold readWorkspaceFile
  split <;> simp_all

theorem StoresValid.step {a : Action} (h : StoresValid first s)
    (hstep : apply first.id home a s = some s') : StoresValid first s' := by
  cases a with
  | start command fresh =>
    simp only [apply, ite_none_right_eq_some] at hstep
    obtain ⟨-, hstep⟩ := hstep
    obtain rfl := some.inj hstep
    exact ⟨h.file, forall_mem_append.mpr ⟨h.calls, forall_mem_singleton.mpr trivial⟩⟩
  | tick now =>
    obtain rfl := some.inj hstep
    exact ⟨h.file, h.calls⟩
  | access i fault summaries =>
    simp only [apply] at hstep
    split at hstep
    case h_1 => cases hstep
    case h_2 call hcall =>
      have hvalid := h.calls call (mem_of_getElem? hcall)
      unfold Call.WritesValid at hvalid
      split at hstep
      case h_5 => cases hstep
      all_goals obtain rfl := some.inj hstep
      case h_1 =>
        refine (h.read call.command.workspaceId fault).move ?_
        split
        case h_1 => trivial
        case h_2 =>
          split
          case h_1 => trivial
          case h_2 => exact afterCheck_writesValid home call _
      case h_2 name loaded _ =>
        unfold checkName
        split
        case h_1 => exact h.move trivial
        case h_2 =>
          have hfile : StoresValid first
              { s with file := if s.file = .corrupt then .missing else s.file } :=
            ⟨fun w hw => h.file w (by split at hw <;> [cases hw; exact hw]), h.calls⟩
          refine hfile.move ?_
          split
          case h_1 => trivial
          case h_2 => exact afterCheck_writesValid home call loaded
      case h_3 loaded mutated hposition =>
        rw [hposition] at hvalid
        refine (h.read mutated.id fault).move ?_
        split
        case h_1 => trivial
        case h_2 hcompare =>
          obtain ⟨-, -, rfl⟩ := compareForSave_ok hcompare
          exact hvalid
      case h_4 loaded existing persisted hposition =>
        rw [hposition] at hvalid
        unfold write
        split
        case h_1 => exact h.move trivial
        case h_2 =>
          have hwritten : ∀ published log, StoresValid first
              { s with file := .valid persisted, published := published, log := log } :=
            fun _ _ => ⟨fun w hw => .inr (WorkspaceFile.valid.inj hw ▸ hvalid), h.calls⟩
          dsimp only
          split
          case h_1 => exact (hwritten _ _).move trivial
          case h_2 => exact (hwritten _ _).move hvalid

/-- However commands interleave and their accesses fail, also where one
overwrites the other, no workspace is stored or returned that fails its
check. -/
theorem stored_workspaces_valid {now : Nat} {acts : List Action}
    (hrun : Run (apply first.id home) Free (initial first now) acts s) :
    (∀ w, s.file = .valid w → w = first ∨ w.validate = .ok ())
      ∧ ∀ call ∈ s.calls, ∀ w, call.position = .returned (.ok w) → w.validate = .ok () := by
  have h : StoresValid first s :=
    hrun.invariant ⟨fun w hw => .inl (WorkspaceFile.valid.inj hw).symm, by simp [initial]⟩
      fun a _ hstep h => h.step hstep
  refine ⟨h.file, fun call hcall w hposition => ?_⟩
  simpa only [Call.WritesValid, hposition] using h.calls call hcall

/-- The second of two calls overwrites the tab of the first. -/
theorem overwritten_workspace_valid :
    ∃ acts s, Run (apply sampleWorkspace.id sampleHome) Free (initial sampleWorkspace 0) acts s
      ∧ s.tabIds = [10, 12]
      ∧ (∀ w, s.file = .valid w → w = sampleWorkspace ∨ w.validate = .ok ()) := by
  obtain ⟨s, hrun, hend⟩ := Run.exists_of_run
    (show (Machine.run (apply sampleWorkspace.id sampleHome) (initial sampleWorkspace 0)
      [.start (sampleCommand 1) 11, .start (sampleCommand 1) 12,
        .access 0 none [], .access 0 none [], .access 1 none [], .access 1 none [],
        .access 0 none [], .access 1 none []]).any
      (fun s => decide (s.tabIds = [10, 12])) = true from by decide +kernel)
  exact ⟨_, s, hrun, hend, (stored_workspaces_valid hrun).1⟩

end FileManager.Workspaces
