/-
Workspace names stay unique while calls of the service come one at a
time: a name is written only after a listing that does not have it, and
nothing comes between the listing and the write.

# The search

`unique_name` numbers its candidates with a `u32`. It finds a free one
where there is one, and goes round for ever where all are taken.
-/
import FileManager.Workspaces.Proofs.Refinement
import FileManager.Workspaces.Proofs.Startup

namespace FileManager.Workspaces

open Fallible List Keyed Leaves
open FileRepository (list save setLastActiveWorkspaceId)
open OnlyReads (bind)
open Option (map_eq_some_iff)
open Keeps (onlyIf stuck writes)

variable {json : Json}

-- ==== stored workspaces

/-- What was written is read back, or `serde_json` refuses it. -/
def Json.Rereads (json : Json) : Prop :=
  ∀ w : Workspace, w.validate = .ok () → w.revision < 2 ^ 64 →
    json.fromSlice (json.toVec w) = none
      ∨ ∃ value, json.fromSlice (json.toVec w) = some value ∧ json.fromValue value = some w

/-- A file's bytes: a workspace with that identifier, or nothing that is
read. -/
def Json.Holds (json : Json) (bytes : json.Bytes) (id : WorkspaceId) : Prop :=
  (∃ w : Workspace, w.id = id ∧ ∀ now, parseAndMigrate json now bytes = .ok w)
    ∨ ∀ now, parseAndMigrate json now bytes = .error .rejected

/-- Every file is a workspace's own, and their names differ. -/
structure Unique (s : Disk json) : Prop where
  written : ∀ name bytes, Keyed.get s.files name = some bytes →
    ∃ id, name = .workspace id ∧ json.Holds bytes id
  names : ∀ name name' w w', s.read name = some (.ok w) → s.read name' = some (.ok w') →
    nameKey w.name = nameKey w'.name → name = name'

/-- No stored workspace has the name. -/
def Disk.Free (s : Disk json) (name : String) : Prop :=
  ∀ file w, s.read file = some (.ok w) → nameKey w.name ≠ nameKey name

/-- What the service writes. -/
structure Workspace.Storable (w : Workspace) : Prop where
  valid : w.validate = .ok ()
  version : w.schemaVersion = currentSchemaVersion
  revision : w.revision < 2 ^ 64

variable {s s' : Disk json} {w : Workspace}

theorem Unique.place (h : Unique s) {name : FileName}
    (hread : s.read name = some (.ok w)) : name = .workspace w.id := by
  obtain ⟨bytes, hget, hparse⟩ := map_eq_some_iff.mp hread
  obtain ⟨id, rfl, ⟨w', rfl, hok⟩ | hrejected⟩ := h.written name bytes hget
  · rw [hok] at hparse
    cases hparse
    rfl
  · simp [hrejected] at hparse

theorem Unique.not_panicked (h : Unique s) (name : FileName) :
    s.read name ≠ some (.error .panicked) := by
  intro hread
  obtain ⟨bytes, hget, hparse⟩ := map_eq_some_iff.mp hread
  obtain ⟨id, -, ⟨w, -, hok⟩ | hrejected⟩ := h.written name bytes hget
  · cases (hok s.now).symm.trans hparse
  · cases (hrejected s.now).symm.trans hparse

theorem Unique.mono (h : Unique s) (hfiles : ∀ name bytes,
    Keyed.get s'.files name = some bytes → Keyed.get s.files name = some bytes) :
    Unique s' := by
  have hreads : ∀ name w, s'.read name = some (.ok w) → s.read name = some (.ok w) := by
    intro name w hread
    obtain ⟨bytes, hget, hparse⟩ := map_eq_some_iff.mp hread
    refine map_eq_some_iff.mpr ⟨bytes, hfiles name bytes hget, ?_⟩
    obtain ⟨id, -, ⟨w', -, hok⟩ | hrejected⟩ := h.written name bytes (hfiles name bytes hget)
    · rw [hok] at hparse ⊢
      exact hparse
    · simp [hrejected] at hparse
  exact {
    written := fun name bytes hget => h.written name bytes (hfiles name bytes hget)
    names := fun name name' w w' hw hw' =>
      h.names name name' w w' (hreads name w hw) (hreads name' w' hw') }

theorem Unique.leaves (h : Unique s) (hleaves : Leaves s s') : Unique s' := by
  refine h.mono fun name bytes hget => ?_
  cases hleaves.only name with
  | inl hgone =>
    simp [hgone] at hget
  | inr hsame => rwa [hsame] at hget

theorem Unique.without (h : Unique s) (name : FileName) : Unique (s.without name) := by
  refine h.mono fun other bytes hget => ?_
  have hget : Keyed.get (keep s.files fun n => n ≠ name) other = some bytes := hget
  rw [get_keep] at hget
  split at hget
  · exact hget
  · cases hget

theorem parse_written (hversion : json.Versioned) (hjson : json.Rereads)
    (hw : w.Storable) : (∀ now, parseAndMigrate json now (json.toVec w) = .ok w)
      ∨ ∀ now, parseAndMigrate json now (json.toVec w) = .error .rejected := by
  obtain hnone | ⟨value, hslice, hvalue⟩ := hjson w hw.valid hw.revision
  · refine .inr fun now => ?_
    unfold parseAndMigrate
    rw [hnone]
    rfl
  · exact .inl fun now => parseAndMigrate_written hversion now hw.version hslice hvalue

theorem Unique.store (hversion : json.Versioned) (hjson : json.Rereads) (h : Unique s)
    (hw : w.Storable)
    (hfree : ∀ file w', s.read file = some (.ok w') → nameKey w'.name = nameKey w.name →
      file = .workspace w.id) : Unique (s.store w.id w) := by
  have hparse := parse_written hversion hjson hw
  have hwritten : ∀ w', some (parseAndMigrate json s.now (json.toVec w)) = some (.ok w') →
      w'.name = w.name := by
    intro w' hread
    rw [Option.some.injEq] at hread
    obtain hok | hrejected := hparse
    · rw [hok] at hread
      cases hread
      rfl
    · simp [hrejected] at hread
  refine { written := fun name bytes hget => ?_, names := ?_ }
  · have hget : Keyed.get (put s.files (.workspace w.id) (json.toVec w)) name
        = some bytes := hget
    rw [get_put] at hget
    split at hget
    case isTrue hname =>
      cases hget
      exact ⟨w.id, hname, hparse.imp_left fun hok => ⟨w, rfl, hok⟩⟩
    case isFalse => exact h.written name bytes hget
  · intro name name' w₁ w₂ hread hread' hkey
    rw [read_store] at hread hread'
    split at hread
    case isTrue hname =>
      split at hread'
      case isTrue hname' => rw [hname, hname']
      case isFalse =>
        rw [hwritten w₁ hread] at hkey
        rw [hname, hfree name' w₂ hread' hkey.symm]
    case isFalse =>
      split at hread'
      case isTrue hname' =>
        rw [hwritten w₂ hread'] at hkey
        rw [hname', hfree name w₁ hread hkey]
      case isFalse => exact h.names name name' w₁ w₂ hread hread' hkey

-- ==== listings

variable {summaries : List Listed}

theorem mem_listFiles {names : List FileName}
    (h : Yields (listFiles names) s (.ok summaries) s') {name : FileName} (hname : name ∈ names)
    (hread : s.read name = some (.ok w)) : Listed.of w ∈ summaries := by
  induction names generalizing s s' summaries with
  | nil => cases hname
  | cons first rest ih =>
    obtain ⟨_, s₁, haccess, h⟩ := yields_bind_ok.mp h
    obtain ⟨faults, rfl, -⟩ := yields_access haccess
    obtain ⟨found, s₂, hfile, h⟩ := yields_bind_ok.mp h
    obtain ⟨later, s₃, hlater, h⟩ := yields_bind_ok.mp h
    obtain ⟨heq, -⟩ := yields_pure.mp h
    cases heq
    obtain ⟨hleaves, hfound⟩ := yields_readFile hfile
    have hread₁ : ({ s with faults := faults } : Disk json).read name = some (.ok w) := hread
    rw [mem_append]
    by_cases hfirst : name = first
    · subst hfirst
      rw [hread₁] at hfound
      obtain ⟨message, hr⟩ | ⟨-, hr⟩ | ⟨-, hr⟩ | ⟨w', hr, hw'⟩ := hfound
      · cases hr
      · cases hr
      · cases hr
      · cases hr
        cases hw'
        exact .inl (mem_singleton_self _)
    · refine .inr (ih hlater ((mem_cons.mp hname).resolve_left hfirst) ?_)
      rw [hleaves.read (by rw [hread₁]; simp), hread₁]

theorem mem_list (h : Yields list s (.ok summaries) s') {name : FileName}
    (hread : s.read name = some (.ok w)) : Listed.of w ∈ summaries := by
  obtain ⟨_, s₁, haccess, h⟩ := yields_bind_ok.mp h
  obtain ⟨faults, rfl, -⟩ := yields_access haccess
  obtain ⟨names, hnames, h⟩ | ⟨e, -, hr, -⟩ := yields_reads_bind.mp h
  · cases hnames
    exact mem_listFiles h (mem_names_of_read hread) hread
  · cases hr

theorem free_of_not_taken {name : String} (h : Yields list s (.ok summaries) s')
    (hfree : taken summaries name = false) : s.Free name := by
  intro file w hread hkey
  have htaken : taken summaries name = true := by
    rw [taken_iff, ← hkey]
    exact mem_map.mpr ⟨_, mem_list h hread, rfl⟩
  simp [hfree] at htaken

variable {file : FileName}

theorem yields_ensureNameAvailable {name : String} {excluding : Option WorkspaceId}
    (h : Yields (Service.ensureNameAvailable name excluding) s (.ok ⟨⟩) s')
    (hread : s.read file = some (.ok w))
    (hkey : nameKey w.name = nameKey name) : some w.id = excluding := by
  obtain ⟨summaries, s₁, hlist, h⟩ := yields_bind_ok.mp h
  obtain ⟨-, h⟩ | ⟨hnone, -⟩ := yields_onlyIf.mp h
  · cases (yields_throw.mp h).1
  · by_contra hother
    rw [any_eq_false] at hnone
    refine hnone _ (mem_list hlist hread) (decide_eq_true ⟨hother, ?_⟩)
    exact decide_eq_true hkey

theorem not_taken_of_freeName {base name : String} {rounds suffix : Nat}
    (h : freeName summaries base rounds suffix = some name) : taken summaries name = false := by
  induction rounds generalizing suffix with
  | zero => cases h
  | succ rounds ih =>
    unfold freeName at h
    split at h
    case isTrue => exact ih h
    case isFalse hfree =>
      cases h
      exact eq_false_of_ne_true hfree

theorem yields_uniqueName {base name : String}
    (h : Yields (Service.uniqueName base) s (.ok name) s') : s.Free name := by
  obtain ⟨summaries, s₁, hlist, h⟩ := yields_bind_ok.mp h
  split at h
  case isFalse hfree =>
    obtain ⟨heq, -⟩ := yields_pure.mp h
    cases heq
    exact free_of_not_taken hlist (eq_false_of_ne_true hfree)
  case isTrue =>
    split at h
    case h_2 => exact absurd h not_yields_stuck
    case h_1 found hfound =>
      obtain ⟨heq, -⟩ := yields_pure.mp h
      cases heq
      exact free_of_not_taken hlist (not_taken_of_freeName hfound)

-- ==== writes

variable {r : Except WorkspaceError Workspace} {workspace : Workspace}

theorem yields_saveNew (h : Yields (save workspace none) s r s') :
    (Leaves s s' ∧ ∃ message, r = .error (.io message))
      ∨ ∃ w s₁, Leaves s s₁ ∧ r = .ok w ∧ s' = s₁.store w.id w ∧ w.id = workspace.id
        ∧ w.name = workspace.name ∧ w.schemaVersion = workspace.schemaVersion
        ∧ w.validate = workspace.validate ∧ w.revision < 2 ^ 64 := by
  unfold save at h
  rcases yields_bind.mp h with ⟨found, s₁, hfile, h⟩ | ⟨e, hfile, rfl⟩
  case inr =>
    obtain ⟨hleaves, ⟨message, hr⟩ | ⟨hr, -⟩ | ⟨hr, -⟩ | ⟨w, hr, -⟩⟩ := yields_readFile hfile
    · cases hr
      exact .inl ⟨hleaves, message, rfl⟩
    all_goals cases hr
  have hleaves := (yields_readFile hfile).1
  -- without an expected revision the copy is made
  have hcopy : ∃ w, persistedCopy workspace none s₁.now found.existing = .ok w
      ∧ w.id = workspace.id ∧ w.name = workspace.name
      ∧ w.schemaVersion = workspace.schemaVersion ∧ w.validate = workspace.validate
      ∧ w.revision < 2 ^ 64 := by
    cases hexisting : found.existing with
    | none => exact ⟨_, rfl, rfl, rfl, rfl, rfl, Nat.one_lt_two_pow (by decide)⟩
    | some existing =>
      exact ⟨_, rfl, rfl, rfl, rfl, rfl, Nat.mod_lt _ (by decide)⟩
  obtain ⟨w, hcopy, hid, hrest⟩ := hcopy
  obtain ⟨persisted, hpersisted, h⟩ | ⟨e, hfails, -⟩ := yields_reads_bind.mp h
  case inr =>
    simp [hcopy] at hfails
  rw [hcopy] at hpersisted
  cases hpersisted
  obtain ⟨faults, h | ⟨message, rfl, rfl⟩⟩ := yields_access_bind h
  · have h := yields_writes_bind.mp h
    obtain ⟨rfl, rfl⟩ := yields_pure.mp h
    rw [← hid]
    exact .inr ⟨w, _, hleaves.trans (leaves_faults s₁ faults), rfl, rfl, rfl, hrest⟩
  · exact .inl ⟨hleaves.trans (leaves_faults s₁ faults), message, rfl⟩

-- ==== calls

variable {service : Service} {ids : NewIds}

theorem onlyReads_newName (workspace : Workspace) (name : Option String) :
    OnlyReads (Service.newName workspace name : Prog json String) := by
  cases name with
  | some name =>
    refine bind ?_ fun _ => onlyReads_pure _
    exact bind onlyReads_list fun summaries =>
      onlyIf refl (onlyReads_throw _)
  | none =>
    refine bind onlyReads_list fun summaries => ?_
    split
    · split
      · exact onlyReads_pure _
      · exact stuck
    · exact onlyReads_pure _

theorem yields_newName {name : Option String} {found : String}
    (h : Yields (Service.newName workspace name) s (.ok found) s') : s.Free found := by
  cases name with
  | none => exact yields_uniqueName h
  | some name =>
    obtain ⟨_, s₁, hensure, h⟩ := yields_bind_ok.mp h
    obtain ⟨heq, -⟩ := yields_pure.mp h
    cases heq
    intro file w hread hkey
    cases yields_ensureNameAvailable hensure hread hkey

theorem yields_create {name : Option String} (h : Yields (service.create ids name) s r s') :
    Leaves s s' ∨ ∃ w s₁ published, Leaves s s₁ ∧ w.Storable ∧ s.Free w.name
      ∧ s' = { s₁.store w.id w with published := published } := by
  unfold Service.create at h
  obtain ⟨base, hbase, h⟩ | ⟨e, -, -, rfl⟩ := yields_reads_bind.mp h
  case inr => exact .inl (refl _)
  cases hbase
  rcases yields_bind.mp h with ⟨found, s₁, hname, h⟩ | ⟨e, hname, -⟩
  case inr => exact .inl (onlyReads_newName _ _ _ _ _ hname).1
  have hleaves := (onlyReads_newName _ _ _ _ _ hname).1
  obtain ⟨_, hvalid, h⟩ | ⟨e, -, -, rfl⟩ := yields_reads_bind.mp h
  case inr => exact .inl hleaves
  rcases yields_bind.mp h with ⟨persisted, s₂, hsave, h⟩ | ⟨e, hsave, -⟩
  · obtain ⟨-, message, hr⟩ | ⟨w, s₃, h₃, hr, rfl, hid, hwname, hversion, hsame, hrevision⟩ :=
      yields_saveNew hsave
    · cases hr
    cases hr
    have h := yields_writes_bind.mp h
    obtain ⟨-, rfl⟩ := yields_pure.mp h
    refine .inr ⟨_, s₃, _, hleaves.trans h₃, ⟨?_, hversion, hrevision⟩, ?_, rfl⟩
    · rw [hsame]
      split at hvalid
      case h_1 hok => exact hok
      case h_2 => cases hvalid
    · rw [hwname]
      exact yields_newName hname
  · obtain ⟨h₂, -⟩ | ⟨_, _, -, hr, -⟩ := yields_saveNew hsave
    · exact .inl (hleaves.trans h₂)
    · cases hr

variable {fresh : TabId}

theorem Effect.name {home : TabLocation} {w w' : Workspace}
    {mutation : Mutation} (h : Effect fresh home w mutation w') :
    mutation = .renameWorkspace w'.name ∨ w'.name = w.name := by
  cases h with
  | rename name => exact .inl rfl
  | _ => exact .inr rfl

variable {command : WorkspaceCommand}

theorem checked_of_applyCommand (h : Yields (service.applyCommand fresh command) s (.ok w) s')
    {name : String} (hrename : command.mutation = .renameWorkspace name) {w' : Workspace}
    (hread : s.read file = some (.ok w')) (hkey : nameKey w'.name = nameKey name) :
    w'.id = command.workspaceId := by
  obtain ⟨previous, s₁, hload, h⟩ := yields_bind_ok.mp h
  obtain ⟨_, s₂, hrevision, h⟩ := yields_bind_ok.mp h
  obtain ⟨_, s₃, hcheck, -⟩ := yields_bind_ok.mp h
  have h₁ := (onlyReads_serviceLoad _ _ _ _ hload).1
  obtain ⟨-, hthrow⟩ | ⟨-, -, rfl⟩ := yields_onlyIf.mp hrevision
  · cases (yields_throw.mp hthrow).1
  rw [Service.checkCommandName, hrename] at hcheck
  rw [← h₁.read (by rw [hread]; simp)] at hread
  exact Option.some.inj (yields_ensureNameAvailable hcheck hread hkey)

theorem Unique.applyCommand (hversion : json.Versioned) (hjson : json.Rereads) (h : Unique s)
    (hyields : Yields (service.applyCommand fresh command) s r s') : Unique s' := by
  obtain ⟨hleaves, -⟩ | ⟨w, previous, rfl, happlied⟩ := yields_applyCommand hyields
  · exact h.leaves hleaves
  obtain ⟨hloaded, -, -, mutated, existing, s₁, event, hmutated, hleaves, -, -, rfl, -, rfl⟩ :=
    happlied
  have heffect := effect_of_mutate (mutate_of_applyMutation hmutated)
  obtain ⟨hid, hschema, -⟩ := heffect.keeps
  have hplace := h.place hloaded
  rw [FileName.workspace.injEq] at hplace
  obtain ⟨bytes, -, hparse⟩ := map_eq_some_iff.mp hloaded
  have hstorable : (stamp mutated existing s.now).Storable := {
    valid := (validate_stamp mutated existing s.now).trans (validate_of_applyMutation hmutated)
    version := hschema.trans (parseAndMigrate_version hversion hparse)
    revision := Nat.mod_lt _ (by decide) }
  refine ((h.leaves hleaves).store hversion hjson hstorable ?_).mono fun _ _ hget => hget
  intro file w' hread hkey
  have hread := hleaves.read_of_some hread
  show file = .workspace mutated.id
  rw [hid, ← hplace]
  cases heffect.name with
  | inl hrename =>
    rw [h.place hread, checked_of_applyCommand hyields hrename hread hkey]
  | inr hsame =>
    exact h.names file _ w' previous hread hloaded (hkey.trans (congrArg nameKey hsame))

/-- A program that keeps the names apart. -/
abbrev KeepsUnique {α : Type} (p : Prog json α) : Prop :=
  Keeps (fun s s' => Unique s → Unique s') (fun _ => True) p

theorem KeepsUnique.bind {α β : Type} {p : Prog json α} {f : α → Prog json β}
    (hp : KeepsUnique p) (hf : ∀ a, KeepsUnique (f a)) : KeepsUnique (p >>= f) :=
  Keeps.bind (fun _ _ _ h h' hs => h' (h hs)) hp hf

variable {α : Type}

theorem keepsUnique_of_onlyReads {p : Prog json α} (h : OnlyReads p) : KeepsUnique p :=
  fun s r s' hyields => ⟨fun hs => hs.leaves (h s r s' hyields).1, fun _ _ => trivial⟩

theorem keepsUnique_caught {p : Prog json α} (h : KeepsUnique p) : KeepsUnique (caught p) := by
  intro s r s' hyields
  obtain ⟨r', rfl, hp⟩ := yields_caught.mp hyields
  exact ⟨(h s r' s' hp).1, fun _ _ => trivial⟩

theorem keepsUnique_setLastActive (id : Option WorkspaceId) :
    KeepsUnique (setLastActiveWorkspaceId id : Prog json PUnit) :=
  KeepsUnique.bind (keepsUnique_of_onlyReads onlyReads_access) fun _ =>
    writes fun _ h => h.mono fun _ _ hget => hget

theorem keepsUnique_publish (id : WorkspaceId) (event : ServiceEvent) :
    KeepsUnique (publish id event : Prog json PUnit) :=
  writes fun _ h => h.mono fun _ _ hget => hget

theorem keepsUnique_pure (a : α) : KeepsUnique (pure a : Prog json α) :=
  keepsUnique_of_onlyReads (onlyReads_pure a)

theorem keepsUnique_select (w : Workspace) :
    KeepsUnique (do
      setLastActiveWorkspaceId (some w.id)
      publish w.id (.opened w.revision)
      return w : Prog json Workspace) :=
  KeepsUnique.bind (keepsUnique_setLastActive _) fun _ =>
    KeepsUnique.bind (keepsUnique_publish _ _) fun _ => keepsUnique_pure _

section Calls

variable (hversion : json.Versioned) (hjson : json.Rereads)

include hversion hjson

theorem keepsUnique_create (name : Option String) :
    KeepsUnique (service.create ids name : Prog json Workspace) := by
  intro s r s' hyields
  refine ⟨fun h => ?_, fun _ _ => trivial⟩
  obtain hleaves | ⟨w, s₁, published, hleaves, hstorable, hfree, rfl⟩ := yields_create hyields
  · exact h.leaves hleaves
  · refine ((h.leaves hleaves).store hversion hjson hstorable ?_).mono fun _ _ hget => hget
    intro file w' hread hkey
    exact absurd hkey (hfree file w' (hleaves.read_of_some hread))

theorem keepsUnique_createDefault : KeepsUnique (service.createDefault ids : Prog json Workspace) :=
  KeepsUnique.bind (keepsUnique_create hversion hjson none) keepsUnique_select

theorem keepsUnique_start (requested : Option WorkspaceId) :
    KeepsUnique (service.start ids requested : Prog json Workspace) := by
  refine KeepsUnique.bind ?_ fun selected => ?_
  · cases requested with
    | some id => exact keepsUnique_pure _
    | none =>
      refine keepsUnique_of_onlyReads (bind onlyReads_access fun _ => ?_)
      exact Keeps.reads refl fun _ _ _ => trivial
  · cases selected with
    | none => exact keepsUnique_createDefault hversion hjson
    | some id =>
      refine KeepsUnique.bind
        (keepsUnique_caught (keepsUnique_of_onlyReads (onlyReads_serviceLoad id))) ?_
      intro loaded
      split
      · exact keepsUnique_select _
      · exact keepsUnique_createDefault hversion hjson
      · exact keepsUnique_createDefault hversion hjson
      · exact keepsUnique_of_onlyReads (onlyReads_throw _)

end Calls

theorem keepsUnique_openWorkspace (id : WorkspaceId) :
    KeepsUnique (Service.openWorkspace id : Prog json Workspace) := by
  refine KeepsUnique.bind (keepsUnique_of_onlyReads
    (bind onlyReads_access fun _ => onlyReads_reads _)) fun previous => ?_
  refine KeepsUnique.bind (keepsUnique_of_onlyReads (onlyReads_serviceLoad id)) fun w => ?_
  refine KeepsUnique.bind (keepsUnique_setLastActive _) fun _ => ?_
  refine KeepsUnique.bind ?_ fun _ =>
    KeepsUnique.bind (keepsUnique_publish _ _) fun _ => keepsUnique_pure _
  unfold Service.closePrevious
  split
  case h_1 => exact keepsUnique_pure _
  case h_2 previousId =>
    split
    · refine KeepsUnique.bind
        (keepsUnique_caught (keepsUnique_of_onlyReads (onlyReads_load previousId))) ?_
      intro loaded
      split
      · exact keepsUnique_publish _ _
      · exact keepsUnique_pure _
      · exact keepsUnique_pure _
    · exact keepsUnique_pure _

theorem keepsUnique_delete (id : WorkspaceId) (expected : Option Nat) :
    KeepsUnique (Service.delete id expected : Prog json PUnit) := by
  refine KeepsUnique.bind (keepsUnique_caught (keepsUnique_of_onlyReads (onlyReads_load id))) ?_
  intro loaded
  refine KeepsUnique.bind ?_ fun _ => keepsUnique_publish _ _
  refine KeepsUnique.bind (keepsUnique_of_onlyReads (onlyReads_readFile _)) fun found => ?_
  cases found with
  | absent | corrupt => exact keepsUnique_of_onlyReads (onlyReads_throw _)
  | workspace existing =>
    refine KeepsUnique.bind (keepsUnique_of_onlyReads
      (onlyIf refl (onlyReads_throw _))) fun _ => ?_
    refine KeepsUnique.bind (keepsUnique_of_onlyReads onlyReads_access) fun _ => ?_
    exact writes fun _ h => h.without _

theorem keepsUnique_call (hversion : json.Versioned) (hjson : json.Rereads)
    (call : ServiceCall) : KeepsUnique (call.run service : Prog json PUnit) := by
  cases call with
  | create ids name =>
    exact KeepsUnique.bind (keepsUnique_create hversion hjson name) fun _ => keepsUnique_pure _
  | createDefault ids =>
    exact KeepsUnique.bind (keepsUnique_createDefault hversion hjson) fun _ =>
      keepsUnique_pure _
  | start ids requested =>
    exact KeepsUnique.bind (keepsUnique_start hversion hjson requested) fun _ =>
      keepsUnique_pure _
  | applyCommand fresh command =>
    refine KeepsUnique.bind (fun s r s' hyields => ⟨fun h => ?_, fun _ _ => trivial⟩) fun _ =>
      keepsUnique_pure _
    exact h.applyCommand hversion hjson hyields
  | openWorkspace id =>
    exact KeepsUnique.bind (keepsUnique_openWorkspace id) fun _ => keepsUnique_pure _
  | delete id expected => exact keepsUnique_delete id expected

theorem Unique.serve (hversion : json.Versioned) (hjson : json.Rereads) (h : Unique s)
    {request : Request} (hserve : service.serve s request = some s') : Unique s' := by
  obtain ⟨⟨r, s₁⟩, hrun, rfl⟩ := map_eq_some_iff.mp hserve
  have hstart : Unique { s with now := request.now, faults := request.faults } :=
    h.mono fun _ _ hget => hget
  exact (keepsUnique_call hversion hjson request.call _ _ _ hrun).1 hstart

theorem Unique.run (hversion : json.Versioned) (hjson : json.Rereads) {requests : List Request}
    (h : Unique s) (hrun : requests.foldlM service.serve s = some s') : Unique s' := by
  induction requests generalizing s with
  | nil =>
    cases hrun
    exact h
  | cons request rest ih =>
    rw [foldlM_cons] at hrun
    obtain ⟨s₁, hserve, hrest⟩ := Option.bind_eq_some_iff.mp hrun
    exact ih (h.serve hversion hjson hserve) hrest

-- ==== creation without a name

/-- A program that does not fail with a duplicate name. -/
abbrev NoDuplicateName {α : Type} (p : Prog json α) : Prop :=
  Keeps (fun _ _ => True) (fun e => ∀ name, e ≠ .duplicateName name) p

theorem NoDuplicateName.bind {α β : Type} {p : Prog json α} {f : α → Prog json β}
    (hp : NoDuplicateName p) (hf : ∀ a, NoDuplicateName (f a)) : NoDuplicateName (p >>= f) :=
  Keeps.bind (fun _ _ _ _ _ => trivial) hp hf

theorem noDuplicateName_pure (a : α) : NoDuplicateName (pure a : Prog json α) :=
  Keeps.pure fun _ => trivial

theorem noDuplicateName_reads (g : Disk json → α) : NoDuplicateName (reads fun s => .ok (g s)) := by
  refine Keeps.reads (fun _ => trivial) fun s e he => ?_
  cases he

theorem noDuplicateName_access : NoDuplicateName (access : Prog json PUnit) := by
  intro s r s' h
  refine ⟨trivial, fun e he name heq => ?_⟩
  obtain ⟨faults, -, hr | ⟨message, hr⟩⟩ := yields_access h
  · cases hr.symm.trans he
  · cases hr.symm.trans (he.trans (congrArg _ heq))

theorem noDuplicateName_readFile (name : FileName) :
    NoDuplicateName (readFile name : Prog json FoundFile) := by
  intro s r s' h
  refine ⟨trivial, fun e he name heq => ?_⟩
  have hr := he.trans (congrArg _ heq)
  obtain ⟨-, ⟨message, hr'⟩ | ⟨hr', -⟩ | ⟨hr', -⟩ | ⟨w, hr', -⟩⟩ := yields_readFile h
  all_goals cases hr'.symm.trans hr

theorem noDuplicateName_list : NoDuplicateName (list : Prog json (List Listed)) := by
  refine NoDuplicateName.bind noDuplicateName_access fun _ => ?_
  refine NoDuplicateName.bind (noDuplicateName_reads _) fun names => ?_
  induction names with
  | nil => exact NoDuplicateName.bind noDuplicateName_access fun _ => noDuplicateName_pure _
  | cons name rest ih =>
    refine NoDuplicateName.bind noDuplicateName_access fun _ => ?_
    refine NoDuplicateName.bind (noDuplicateName_readFile name) fun found => ?_
    exact NoDuplicateName.bind ih fun summaries => noDuplicateName_pure _

theorem noDuplicateName_create :
    NoDuplicateName (service.create ids none : Prog json Workspace) := by
  refine NoDuplicateName.bind (noDuplicateName_reads _) fun base => ?_
  refine NoDuplicateName.bind ?_ fun name => ?_
  · refine NoDuplicateName.bind noDuplicateName_list fun summaries => ?_
    split
    · split
      · exact noDuplicateName_pure _
      · exact stuck
    · exact noDuplicateName_pure _
  · refine NoDuplicateName.bind (Keeps.reads (fun _ => trivial) fun s e he name heq => ?_)
      fun _ => ?_
    · unfold Workspace.validate at he
      split at he
      case h_1 => cases he
      case h_2 hinvalid =>
        split at hinvalid
        · cases hinvalid
        · cases hinvalid
          cases he.trans (congrArg _ heq)
    · refine NoDuplicateName.bind (fun s r s' h => ⟨trivial, fun e he name heq => ?_⟩)
        fun w => NoDuplicateName.bind (writes fun _ => trivial) fun _ =>
          noDuplicateName_pure _
      have hr := he.trans (congrArg _ heq)
      obtain ⟨-, message, hr'⟩ | ⟨w, s₁, -, hr', -⟩ := yields_saveNew h
      all_goals cases hr'.symm.trans hr

-- ==== the search

theorem uniqueName_iff (hs : s.faults = []) (hok : ∀ name, s.read name ≠ some (.error .panicked)) :
    (∃ name s', Yields (Service.uniqueName "Default") s (.ok name) s' ∧ s.Free name)
      ↔ s.Free "Default" ∨ ∃ suffix < 2 ^ 32, s.Free (candidate "Default" suffix) := by
  have hlist := list_of_noFault hs fun name _ => hok name
  generalize hsummaries : (s.files.map Prod.fst).filterMap s.listed = summaries at hlist
  have htaken : ∀ name, taken summaries name = false ↔ s.Free name := by
    refine fun name => ⟨free_of_not_taken hlist, fun hfree => ?_⟩
    by_contra htaken
    rw [Bool.not_eq_false, taken_iff, ← hsummaries] at htaken
    obtain ⟨summary, hmem, hkey⟩ := mem_map.mp htaken
    obtain ⟨file, -, hlisted⟩ := mem_filterMap.mp hmem
    unfold Disk.listed at hlisted
    split at hlisted
    case h_1 w hread =>
      cases hlisted
      exact hfree file w hread hkey
    case h_2 => cases hlisted
  have hleft : NameLeft summaries
      ↔ s.Free "Default" ∨ ∃ suffix < 2 ^ 32, s.Free (candidate "Default" suffix) := by
    unfold NameLeft
    simp only [htaken]
  rw [← hleft]
  constructor
  · intro hfound
    obtain ⟨name, s', hyields, -⟩ := hfound
    exact nameLeft_of_uniqueName hlist hyields
  · intro hleft
    obtain ⟨name, hyields⟩ := uniqueName_of_list hlist hleft
    exact ⟨name, _, hyields, yields_uniqueName hyields⟩

-- ==== runs

/-- From an empty directory, every run leaves workspaces of different
names, and one without a name is never refused for its name. -/
theorem names_stay_unique (hversion : json.Versioned) (hjson : json.Rereads)
    {requests : List Request}
    (hrun : requests.foldlM service.serve (emptyDisk : Disk json) = some s) :
    (∀ file file' w w', s.read file = some (.ok w) → s.read file' = some (.ok w') →
        nameKey w.name = nameKey w'.name → file = file')
      ∧ (∀ ids name faults s',
        ¬Yields (service.create ids none) { s with faults := faults }
          (.error (.duplicateName name)) s')
      ∧ ((∃ name s', Yields (Service.uniqueName "Default") { s with faults := [] }
            (.ok name) s' ∧ s.Free name)
          ↔ s.Free "Default" ∨ ∃ suffix < 2 ^ 32, s.Free (candidate "Default" suffix)) := by
  have hempty : Unique (emptyDisk : Disk json) := by
    refine ⟨fun name bytes hget => ?_, fun name name' w w' hread => ?_⟩
    · have hnone : (none : Option json.Bytes) = some bytes := hget
      cases hnone
    · have hnone : (none : Option (Migrated Workspace)) = some (.ok w) := hread
      cases hnone
  have h := hempty.run hversion hjson hrun
  refine ⟨h.names, fun ids name faults s' hyields => ?_, ?_⟩
  · exact (noDuplicateName_create _ _ _ hyields).2 _ rfl name rfl
  · exact uniqueName_iff rfl h.not_panicked

-- ==== the samples

/-- Files that are what was written, where it does not nest too deep. -/
def typedJson : Json where
  Bytes := Workspace
  fromSlice := fun w => if w.layout.depth ≤ 126 then some w.write else none
  toVec := id
  fromValue := Workspace.read 126
  toRfc3339 := Nat.repr
  isUuid := fun _ => false
  layoutLimit := 126

theorem typedJson_versioned : typedJson.Versioned := plainJson_versioned

theorem typedJson_rereads : typedJson.Rereads := by
  intro w hvalid _
  by_cases hdepth : w.layout.depth ≤ 126
  · refine .inr ⟨w.write, if_pos hdepth, ?_⟩
    exact Workspace.read_write (validate_eq_ok.mp hvalid).layout.ratios hdepth
  · exact .inl (if_neg hdepth)

/-- Two workspaces without a name are created in turn. -/
def sampleRequests : List Request :=
  [{ call := .create sampleIds none, now := 1, faults := [] },
    { call := .create { sampleIds with workspace := 1 } none, now := 2, faults := [none] }]

theorem names_stay_unique_two_creations :
    ∃ s, sampleRequests.foldlM sampleService.serve (emptyDisk : Disk typedJson) = some s
      ∧ ∀ file file' w w', s.read file = some (.ok w) → s.read file' = some (.ok w') →
        nameKey w.name = nameKey w'.name → file = file' := by
  have hsome : (sampleRequests.foldlM sampleService.serve
      (emptyDisk : Disk typedJson)).isSome = true := by decide +kernel
  obtain ⟨s, hrun⟩ := Option.isSome_iff_exists.mp hsome
  exact ⟨s, hrun, (names_stay_unique typedJson_versioned typedJson_rereads hrun).1⟩

def namedWorkspace (id : WorkspaceId) (name : String) : Workspace :=
  { sampleDefault with id := id, name := name }

/-- A workspace of every candidate's name, and one of the default name. -/
def crowdedDisk (candidates : Nat) : Disk typedJson where
  files := (FileName.workspace 0, namedWorkspace 0 "Default")
    :: (range candidates).map fun k =>
      (FileName.workspace (k + 1), namedWorkspace (k + 1) (candidate "Default" k))
  lastActive := .missing
  faults := []
  now := 0
  published := []

theorem parse_namedWorkspace (id : WorkspaceId) (name : String) :
    parseAndMigrate typedJson 0 (namedWorkspace id name) = .ok (namedWorkspace id name) := by
  have hdepth : (namedWorkspace id name).layout.depth ≤ 126 := by
    show WorkspaceLayout.depth (.split _ _ (.pane _) (.pane _)) ≤ 126
    simp [WorkspaceLayout.depth]
  have hratios : (namedWorkspace id name).layout.errors = [] :=
    (@defaultWorkspace_wellFormed Locations.isHyphenatedUuid
      (Text.utf8 "/home/erik".toList) none sampleIds 0).layout.ratios
  have hslice : typedJson.fromSlice (namedWorkspace id name)
      = some (namedWorkspace id name).write := by
    show (if (namedWorkspace id name).layout.depth ≤ 126
      then some (namedWorkspace id name).write else none) = _
    rw [if_pos hdepth]
  exact parseAndMigrate_written typedJson_versioned 0 rfl hslice
    (Workspace.read_write hratios hdepth)

variable {candidates : Nat}

theorem crowdedDisk_nodup : ((crowdedDisk candidates).files.map Prod.fst).Nodup := by
  rw [crowdedDisk, map_cons, map_map, nodup_cons]
  refine ⟨by simp, nodup_range.map fun i j hij => ?_⟩
  simpa using hij

theorem read_crowdedDisk (h : (file, w) ∈ (crowdedDisk candidates).files) :
    (crowdedDisk candidates).read file = some (.ok w) := by
  refine map_eq_some_iff.mpr ⟨w, (mem_iff_get crowdedDisk_nodup).mp h, ?_⟩
  rcases mem_cons.mp h with heq | hmem
  · cases heq
    exact parse_namedWorkspace _ _
  · obtain ⟨k, -, heq⟩ := mem_map.mp hmem
    cases heq
    exact parse_namedWorkspace _ _

theorem crowdedDisk_taken {id : WorkspaceId} {name : String}
    (h : (file, namedWorkspace id name) ∈ (crowdedDisk candidates).files) :
    ¬(crowdedDisk candidates).Free name :=
  fun hfree => hfree file (namedWorkspace id name) (read_crowdedDisk h) rfl

theorem crowdedDisk_not_panicked (file : FileName) :
    (crowdedDisk candidates).read file ≠ some (.error .panicked) := by
  intro hread
  obtain ⟨w, hget, -⟩ := map_eq_some_iff.mp hread
  cases (read_crowdedDisk ((mem_iff_get crowdedDisk_nodup).mpr hget)).symm.trans hread

/-- All names are taken: the search does not end. -/
theorem taken_names_stop_search :
    ¬∃ name s', Yields (Service.uniqueName "Default") (crowdedDisk (2 ^ 32)) (.ok name) s'
      ∧ (crowdedDisk (2 ^ 32)).Free name := by
  generalize hcandidates : 2 ^ 32 = candidates
  have hiff := uniqueName_iff (show (crowdedDisk candidates).faults = [] from rfl)
    crowdedDisk_not_panicked
  rw [hiff, hcandidates]
  intro hleft
  obtain hfree | ⟨k, hk, hfree⟩ := hleft
  · exact crowdedDisk_taken mem_cons_self hfree
  · refine crowdedDisk_taken (mem_cons_of_mem _ (mem_map.mpr ⟨k, ?_, rfl⟩)) hfree
    exact mem_range.mpr hk

end FileManager.Workspaces
