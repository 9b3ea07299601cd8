/-
What a file reads as: a migrated workspace is of the current version,
whatever it was stored as.

What reading leaves of the directory: a file that is not rejected stays
where it is (`Leaves`), also where an access fails, and where none does
the calls are equations.
-/
import FileManager.Workspaces.Sequential

namespace FileManager.Workspaces

open Fallible Keyed Disk
open FileRepository (save list)

variable {json : Json} {key other : String} {value value' : Value} {s s' s₁ : Disk json} {α : Type}
  {name : FileName} {found : FoundFile} {names : List FileName} {summaries : List Listed}
  {version now : Nat} {fields : Fields} {w : Workspace}

-- ==== versions

theorem get_orInsert_of_ne (h : other ≠ key) (value : Value)
    (fields : Fields) : get (orInsert key value fields) other = get fields other := by
  unfold orInsert
  split
  · rfl
  · rw [get_put, if_neg h]

theorem get_changeField_of_ne {change : Value → Migrated Value} {fields' : Fields}
    (h : other ≠ key) (hchange : changeField key change fields = .ok fields') :
    get fields' other = get fields other := by
  unfold changeField at hchange
  split at hchange
  · cases hchange
    rfl
  · obtain ⟨value', -, heq⟩ := bind_eq_ok.mp hchange
    cases heq
    rw [get_put, if_neg h]

theorem schemaVersion_object (h : get fields "schema_version" = some (.natural version)) :
    (Value.object fields).schemaVersion = version := by
  unfold Value.schemaVersion
  show ((get fields "schema_version").bind Value.asU64).getD 0 = version
  rw [h]
  rfl

theorem migrateLocations_version {change : Value → Value}
    (h : migrateLocations version change value = .ok value') : value'.schemaVersion = version := by
  cases value with
  | object fields =>
    obtain ⟨fields', hfields, heq⟩ := bind_eq_ok.mp h
    cases heq
    apply schemaVersion_object
    rw [get_changeField_of_ne (by decide) hfields, get_put, if_pos rfl]
  | _ => cases h

theorem migrateV0ToV1_version {now : String}
    (h : migrateV0ToV1 now value = .ok value') : value'.schemaVersion = 1 := by
  cases value with
  | object fields =>
    obtain ⟨fields', hfields, heq⟩ := bind_eq_ok.mp h
    cases heq
    apply schemaVersion_object
    rw [get_changeField_of_ne (by decide) hfields, get_orInsert_of_ne (by decide),
      get_orInsert_of_ne (by decide), get_orInsert_of_ne (by decide),
      get_orInsert_of_ne (by decide), get_put, if_pos rfl]
  | _ => cases h

theorem migrateFrom_version
    (h : migrateFrom json now version value = .ok value') : value'.schemaVersion = version + 1 := by
  unfold migrateFrom at h
  split at h
  · exact migrateV0ToV1_version h
  · exact migrateLocations_version h
  · exact migrateLocations_version h
  · cases h

theorem migrateRounds_version {rounds : Nat} (hversion : value.schemaVersion = version)
    (h : migrateRounds json now rounds version value = .ok value') :
    value'.schemaVersion = version + rounds := by
  induction rounds generalizing version value with
  | zero =>
    cases h
    exact hversion
  | succ rounds ih =>
    obtain ⟨next, hnext, hrest⟩ := bind_eq_ok.mp h
    rw [ih (migrateFrom_version hnext) hrest]
    omega

theorem parseAndMigrate_version (hversion : json.Versioned) {bytes : json.Bytes}
    (h : parseAndMigrate json now bytes = .ok w) : w.schemaVersion = currentSchemaVersion := by
  obtain ⟨value, -, h⟩ := bind_eq_ok.mp h
  obtain ⟨migrated, hmigrated, h⟩ := bind_eq_ok.mp h
  have hread : json.fromValue migrated = some w := by
    unfold orReject at h
    split at h
    · cases h
      assumption
    · cases h
  rw [hversion migrated w hread]
  unfold migrateWorkspaceJson at hmigrated
  dsimp only at hmigrated
  obtain ⟨hle, hmigrated⟩ := passed hmigrated nofun
  rw [migrateRounds_version rfl hmigrated]
  omega

theorem parseAndMigrate_written (hversion : json.Versioned) (now : Nat)
    (hcurrent : w.schemaVersion = currentSchemaVersion)
    (hslice : json.fromSlice (json.toVec w) = some value) (hvalue : json.fromValue value = some w) :
    parseAndMigrate json now (json.toVec w) = .ok w := by
  have hmigrated : migrateWorkspaceJson json now value = .ok value := by
    unfold migrateWorkspaceJson
    rw [← hversion value w hvalue, hcurrent]
    rfl
  unfold parseAndMigrate
  rw [hslice]
  refine bind_eq_ok.mpr ⟨value, rfl, bind_eq_ok.mpr ⟨value, hmigrated, ?_⟩⟩
  rw [hvalue]
  rfl

-- ==== faults

theorem yields_access {r : Except WorkspaceError PUnit} (h : Yields access s r s') :
    ∃ faults, s' = { s with faults := faults }
      ∧ (r = .ok ⟨⟩ ∨ ∃ message, r = .error (.io message)) := by
  have hrun : access s = some (r, s') := h
  unfold access at hrun
  split at hrun
  · cases hrun
    exact ⟨s.faults, rfl, .inl rfl⟩
  · rename_i rest hfaults
    cases hrun
    exact ⟨rest, rfl, .inl rfl⟩
  · rename_i message rest hfaults
    cases hrun
    exact ⟨rest, rfl, .inr ⟨message, rfl⟩⟩

theorem yields_access_bind {f : PUnit → Prog json α} {r : Except WorkspaceError α}
    (h : Yields (access >>= f) s r s') :
    ∃ faults, Yields (f ⟨⟩) { s with faults := faults } r s'
      ∨ ∃ message, r = .error (.io message) ∧ s' = { s with faults := faults } := by
  rcases yields_bind.mp h with ⟨_, s₁, haccess, h⟩ | ⟨e, haccess, rfl⟩
  · obtain ⟨faults, rfl, -⟩ := yields_access haccess
    exact ⟨faults, .inl h⟩
  · obtain ⟨faults, rfl, hr | ⟨message, hr⟩⟩ := yields_access haccess
    · cases hr
    · cases hr
      exact ⟨faults, .inr ⟨message, rfl, rfl⟩⟩

/-- What a call leaves: every file that is not rejected, no other file,
and all but the files and the faults. -/
structure Leaves (s s' : Disk json) : Prop where
  files : ∀ name, s.read name ≠ some (.error .rejected) →
    get s'.files name = get s.files name
  only : ∀ name, get s'.files name = none ∨ get s'.files name = get s.files name
  now : s'.now = s.now
  lastActive : s'.lastActive = s.lastActive
  published : s'.published = s.published

open Leaves

theorem Leaves.refl (s : Disk json) : Leaves s s :=
  ⟨fun _ _ => rfl, fun _ => .inr rfl, rfl, rfl, rfl⟩

theorem Leaves.read (h : Leaves s s')
    (hname : s.read name ≠ some (.error .rejected)) : s'.read name = s.read name := by
  unfold Disk.read
  rw [h.files name hname, h.now]

theorem Leaves.read_of_some (h : Leaves s s') {found : Migrated Workspace}
    (hname : s'.read name = some found) : s.read name = some found := by
  unfold Disk.read at hname ⊢
  rcases h.only name with hgone | hsame
  · simp [hgone] at hname
  · rw [← hsame, ← h.now]
    exact hname

theorem Leaves.trans {s₂ s₃ : Disk json} (h : Leaves s₁ s₂) (h' : Leaves s₂ s₃) :
    Leaves s₁ s₃ where
  files := fun name hname => by
    have hnext : s₂.read name ≠ some (.error .rejected) := by
      rw [h.read hname]
      exact hname
    rw [h'.files name hnext, h.files name hname]
  only := fun name => by
    rcases h'.only name with hgone | hsame
    · exact .inl hgone
    · rw [hsame]
      exact h.only name
  now := h'.now.trans h.now
  lastActive := h'.lastActive.trans h.lastActive
  published := h'.published.trans h.published

theorem leaves_faults (s : Disk json) (faults : List (Option String)) :
    Leaves s { s with faults := faults } :=
  ⟨fun _ _ => rfl, fun _ => .inr rfl, rfl, rfl, rfl⟩

theorem leaves_without (h : s.read name = some (.error .rejected)) (faults : List (Option String)) :
    Leaves s { s.without name with faults := faults } where
  files := fun other hother => by
    have hne : other ≠ name := by
      intro heq
      exact hother (heq ▸ h)
    show get (keep s.files fun n => n ≠ name) other = _
    rw [get_keep, if_pos (by simpa using hne)]
  only := fun other => by
    have hget := get_keep s.files (fun n => n ≠ name) other
    split at hget
    case isTrue => exact .inr hget
    case isFalse => exact .inl hget
  now := rfl
  lastActive := rfl
  published := rfl

theorem yields_readFile {r : Except WorkspaceError FoundFile} (h : Yields (readFile name) s r s') :
    Leaves s s' ∧ ((∃ message, r = .error (.io message)) ∨ (r = .ok .absent ∧ s.read name = none)
      ∨ (r = .ok .corrupt ∧ s.read name = some (.error .rejected))
      ∨ ∃ w, r = .ok (.workspace w) ∧ s.read name = some (.ok w)) := by
  unfold readFile at h
  obtain ⟨faults, h | ⟨message, rfl, rfl⟩⟩ := yields_access_bind h
  · obtain ⟨read, hread, h⟩ | ⟨e, hread, -, -⟩ := yields_reads_bind.mp h
    · injection hread with hread
      have hread : s.read name = read := hread
      subst hread
      split at h
      case h_1 hread =>
        obtain ⟨rfl, rfl⟩ := yields_pure.mp h
        exact ⟨leaves_faults s faults, .inr (.inl ⟨rfl, hread⟩)⟩
      case h_2 w hread =>
        obtain ⟨rfl, rfl⟩ := yields_pure.mp h
        exact ⟨leaves_faults s faults, .inr (.inr (.inr ⟨w, rfl, hread⟩))⟩
      case h_3 => exact absurd h not_yields_stuck
      case h_4 hread =>
        obtain ⟨faults', h | ⟨message, rfl, rfl⟩⟩ := yields_access_bind h
        · have h := yields_writes_bind.mp h
          obtain ⟨rfl, rfl⟩ := yields_pure.mp h
          exact ⟨leaves_without hread faults', .inr (.inr (.inl ⟨rfl, hread⟩))⟩
        · exact ⟨leaves_faults s faults', .inl ⟨message, rfl⟩⟩
    · cases hread
  · exact ⟨leaves_faults s faults, .inl ⟨message, rfl⟩⟩

-- ==== without faults

section NoFault

variable {s : Disk json} (hs : s.faults = []) {name : FileName} {id : WorkspaceId} {w : Workspace}

include hs

theorem yields_access_of_noFault : Yields access s (.ok ⟨⟩) s := by
  show access s = some (.ok ⟨⟩, s)
  unfold access
  rw [hs]

theorem access_bind_of_noFault {α : Type} {f : PUnit → Prog json α} {r : Except WorkspaceError α}
    {s' : Disk json} : Yields (access >>= f) s r s' ↔ Yields (f ⟨⟩) s r s' :=
  yields_bind_of (yields_access_of_noFault hs)

theorem readFile_absent (h : s.read name = none) : Yields (readFile name) s (.ok .absent) s := by
  refine (access_bind_of_noFault hs).mpr ?_
  refine yields_reads_bind.mpr (.inl ⟨none, congrArg Except.ok h, ?_⟩)
  exact yields_pure.mpr ⟨rfl, rfl⟩

theorem readFile_workspace (h : s.read name = some (.ok w)) :
    Yields (readFile name) s (.ok (.workspace w)) s := by
  refine (access_bind_of_noFault hs).mpr ?_
  refine yields_reads_bind.mpr (.inl ⟨some (.ok w), congrArg Except.ok h, ?_⟩)
  exact yields_pure.mpr ⟨rfl, rfl⟩

theorem readFile_corrupt (h : s.read name = some (.error .rejected)) :
    Yields (readFile name) s (.ok .corrupt) (s.without name) := by
  refine (access_bind_of_noFault hs).mpr ?_
  refine yields_reads_bind.mpr (.inl ⟨some (.error .rejected), congrArg Except.ok h, ?_⟩)
  refine (access_bind_of_noFault hs).mpr (yields_writes_bind.mpr ?_)
  exact yields_pure.mpr ⟨rfl, rfl⟩

theorem repositoryLoad_absent (h : s.read (.workspace id) = none) :
    Yields (FileRepository.load id) s (.ok none) s :=
  yields_bind_ok.mpr ⟨.absent, s, readFile_absent hs h, yields_pure.mpr ⟨rfl, rfl⟩⟩

theorem repositoryLoad_workspace (h : s.read (.workspace id) = some (.ok w)) :
    Yields (FileRepository.load id) s (.ok (some w)) s :=
  yields_bind_ok.mpr ⟨.workspace w, s, readFile_workspace hs h, yields_pure.mpr ⟨rfl, rfl⟩⟩

theorem repositoryLoad_corrupt (h : s.read (.workspace id) = some (.error .rejected)) :
    Yields (FileRepository.load id) s (.error (.corrupt id)) (s.without (.workspace id)) :=
  yields_bind.mpr (.inl ⟨.corrupt, _, readFile_corrupt hs h, yields_throw.mpr ⟨rfl, rfl⟩⟩)

end NoFault

theorem save_of_found {workspace : Workspace} {expected : Option Nat}
    (hs₁ : s₁.faults = []) (hfile : Yields (readFile (.workspace workspace.id)) s (.ok found) s₁) :
    (∀ e, persistedCopy workspace expected s₁.now found.existing = .error e →
      Yields (save workspace expected) s (.error e) s₁)
    ∧ ∀ w, persistedCopy workspace expected s₁.now found.existing = .ok w →
      Yields (save workspace expected) s (.ok w) (s₁.store workspace.id w) := by
  constructor
  · intro e he
    refine yields_bind.mpr (.inl ⟨found, s₁, hfile, ?_⟩)
    exact yields_reads_bind.mpr (.inr ⟨e, he, rfl, rfl⟩)
  · intro w hw
    refine yields_bind.mpr (.inl ⟨found, s₁, hfile, ?_⟩)
    refine yields_reads_bind.mpr (.inl ⟨w, hw, ?_⟩)
    refine (access_bind_of_noFault hs₁).mpr (yields_writes_bind.mpr ?_)
    exact yields_pure.mpr ⟨rfl, rfl⟩

theorem readFile_panicked
    (h : s.read name = some (.error .panicked)) : ¬ Yields (readFile name) s (.ok found) s' := by
  intro hfile
  obtain ⟨-, ⟨message, hr⟩ | ⟨-, hread⟩ | ⟨-, hread⟩ | ⟨w, -, hread⟩⟩ := yields_readFile hfile
  · cases hr
  all_goals
    simp [h] at hread

-- ==== calls that only read

/-- Whatever the call answers, it leaves what is not rejected. -/
abbrev OnlyReads {α : Type} (p : Prog json α) : Prop := Keeps Leaves (fun _ => True) p

theorem onlyReads_access : OnlyReads (access : Prog json PUnit) := by
  intro s r s' h
  obtain ⟨faults, rfl, -⟩ := yields_access h
  exact ⟨leaves_faults s faults, fun _ _ => trivial⟩

theorem onlyReads_readFile (name : FileName) : OnlyReads (readFile name : Prog json FoundFile) :=
  fun _ _ _ h => ⟨(yields_readFile h).1, fun _ _ => trivial⟩

theorem onlyReads_pure (a : α) : OnlyReads (pure a : Prog json α) :=
  Keeps.pure refl

theorem onlyReads_throw (e : WorkspaceError) : OnlyReads (throw e : Prog json α) :=
  Keeps.throw refl trivial

theorem onlyReads_reads (g : Disk json → Except WorkspaceError α) : OnlyReads (reads g) :=
  Keeps.reads refl fun _ _ _ => trivial

theorem OnlyReads.bind {β : Type} {p : Prog json α} {f : α → Prog json β}
    (hp : OnlyReads p) (hf : ∀ a, OnlyReads (f a)) : OnlyReads (p >>= f) :=
  Keeps.bind (fun _ _ _ => trans) hp hf

theorem onlyReads_listFiles (names : List FileName) :
    OnlyReads (listFiles names : Prog json (List Listed)) := by
  induction names with
  | nil => exact OnlyReads.bind onlyReads_access fun _ => onlyReads_pure _
  | cons name rest ih =>
    refine OnlyReads.bind onlyReads_access fun _ => ?_
    refine OnlyReads.bind (onlyReads_readFile name) fun found => ?_
    exact OnlyReads.bind ih fun summaries => onlyReads_pure _

theorem onlyReads_list : OnlyReads (list : Prog json (List Listed)) := by
  refine OnlyReads.bind onlyReads_access fun _ => ?_
  exact OnlyReads.bind (onlyReads_reads _) onlyReads_listFiles

theorem onlyReads_load (id : WorkspaceId) :
    OnlyReads (FileRepository.load id : Prog json (Option Workspace)) := by
  refine OnlyReads.bind (onlyReads_readFile _) fun found => ?_
  cases found with
  | corrupt => exact onlyReads_throw _
  | absent | workspace w => exact onlyReads_pure _

theorem onlyReads_serviceLoad (id : WorkspaceId) :
    OnlyReads (Service.load id : Prog json Workspace) := by
  refine OnlyReads.bind (onlyReads_load id) fun found => ?_
  cases found with
  | none => exact onlyReads_throw _
  | some w => exact OnlyReads.bind (onlyReads_reads _) fun _ => onlyReads_pure _

theorem onlyReads_checkCommandName (command : WorkspaceCommand) :
    OnlyReads (Service.checkCommandName command : Prog json PUnit) := by
  unfold Service.checkCommandName
  split
  · refine OnlyReads.bind onlyReads_list fun summaries => ?_
    exact Keeps.onlyIf refl (onlyReads_throw _)
  · exact onlyReads_pure _

-- ==== listings

/-- The summary of a file that is read. -/
def Disk.listed (s : Disk json) (name : FileName) : Option Listed :=
  match s.read name with
  | some (.ok workspace) => some (Listed.of workspace)
  | _ => none

/-- A file that is moved away when it is read. -/
def Disk.rejects (s : Disk json) (name : FileName) : Bool :=
  match s.read name with
  | some (.error .rejected) => true
  | _ => false

/-- The directory after the named files were read. -/
def Disk.swept (s : Disk json) (names : List FileName) : Disk json :=
  { s with files := keep s.files fun n => ¬ (n ∈ names ∧ s.rejects n = true) }

theorem read_without (s : Disk json) (name other : FileName) :
    (s.without name).read other = if other = name then none else s.read other := by
  unfold Disk.read without
  rw [get_keep]
  by_cases h : other = name
  · rw [if_neg (by simpa using h), if_pos h]
    rfl
  · rw [if_pos (by simpa using h), if_neg h]

theorem listed_without (h : s.rejects name = true) : (s.without name).listed = s.listed := by
  funext n
  unfold listed
  rw [read_without]
  by_cases hn : n = name
  · rw [if_pos hn, hn]
    unfold rejects at h
    split at h
    case h_1 hread => rw [hread]
    case h_2 => cases h
  · rw [if_neg hn]

theorem swept_eq_self (h : ∀ name ∈ names, s.rejects name = false) : s.swept names = s := by
  have hfiles : keep s.files (fun n => ¬ (n ∈ names ∧ s.rejects n = true)) = s.files := by
    refine List.filter_eq_self.mpr fun pair _ => ?_
    rw [decide_eq_true_eq]
    intro hboth
    obtain ⟨hmem, hrejects⟩ := hboth
    rw [h _ hmem] at hrejects
    cases hrejects
  unfold swept
  rw [hfiles]

theorem swept_cons_of_kept (rest : List FileName)
    (h : s.rejects name = false) : s.swept (name :: rest) = s.swept rest := by
  unfold swept
  congr 2
  funext n
  rw [decide_eq_decide]
  refine not_congr (and_congr_left fun hrejects => ?_)
  rw [List.mem_cons]
  refine ⟨fun hmem => hmem.resolve_left ?_, .inr⟩
  intro heq
  rw [heq, h] at hrejects
  cases hrejects

theorem swept_cons_of_rejects (rest : List FileName) (h : s.rejects name = true) :
    s.swept (name :: rest) = (s.without name).swept rest := by
  have hrejects : ∀ n, n ≠ name → (s.without name).rejects n = s.rejects n := by
    intro n hne
    unfold rejects
    rw [read_without, if_neg hne]
  have hfiles : keep (s.without name).files
        (fun n => ¬ (n ∈ rest ∧ (s.without name).rejects n = true))
      = keep s.files (fun n => ¬ (n ∈ name :: rest ∧ s.rejects n = true)) := by
    have hwithout : (s.without name).files
        = s.files.filter (fun pair => decide (pair.1 ≠ name)) := rfl
    unfold keep
    rw [hwithout, List.filter_filter]
    refine List.filter_congr fun pair _ => ?_
    rw [← Bool.decide_and, decide_eq_decide, List.mem_cons]
    by_cases hname : pair.1 = name
    · simp [hname, h]
    · simp [hname, hrejects pair.1 hname]
  unfold swept
  rw [hfiles]
  rfl

theorem readFile_listed (hs : s.faults = []) (h : s.read name ≠ some (.error .panicked))
    (rest : List FileName) :
    ∃ found s₁, Yields (readFile name) s (.ok found) s₁
      ∧ found.existing.map Listed.of = s.listed name ∧ s₁.faults = [] ∧ s₁.listed = s.listed
      ∧ (∀ n, s.read n ≠ some (.error .panicked) → s₁.read n ≠ some (.error .panicked))
      ∧ s₁.swept rest = s.swept (name :: rest) := by
  cases hread : s.read name with
  | none =>
    have hkept : s.rejects name = false := by unfold rejects; rw [hread]
    refine ⟨.absent, s, readFile_absent hs hread, ?_, hs, rfl, fun _ hn => hn,
      (swept_cons_of_kept rest hkept).symm⟩
    unfold listed
    rw [hread]
    rfl
  | some found =>
    match found with
    | .ok w =>
      have hkept : s.rejects name = false := by unfold rejects; rw [hread]
      refine ⟨.workspace w, s, readFile_workspace hs hread, ?_, hs, rfl, fun _ hn => hn,
        (swept_cons_of_kept rest hkept).symm⟩
      unfold listed
      rw [hread]
      rfl
    | .error .panicked => exact absurd hread h
    | .error .rejected =>
      have hgone : s.rejects name = true := by unfold rejects; rw [hread]
      refine ⟨.corrupt, s.without name, readFile_corrupt hs hread, ?_, hs,
        listed_without hgone, fun n hn => ?_, (swept_cons_of_rejects rest hgone).symm⟩
      · unfold listed
        rw [hread]
        rfl
      · rw [read_without]
        split
        case isTrue => simp
        case isFalse => exact hn

theorem listFiles_of_noFault (hs : s.faults = [])
    (h : ∀ name ∈ names, s.read name ≠ some (.error .panicked)) :
    Yields (listFiles names) s (.ok (names.filterMap s.listed)) (s.swept names) := by
  induction names generalizing s with
  | nil =>
    rw [swept_eq_self (by simp)]
    exact (access_bind_of_noFault hs).mpr (yields_pure.mpr ⟨rfl, rfl⟩)
  | cons name rest ih =>
    refine (access_bind_of_noFault hs).mpr ?_
    obtain ⟨found, s₁, hfile, hfound, hs₁, hlisted, hok, hswept⟩ :=
      readFile_listed hs (h name List.mem_cons_self) rest
    have hrest : ∀ n ∈ rest, s₁.read n ≠ some (.error .panicked) := fun n hn =>
      hok n (h n (List.mem_cons_of_mem _ hn))
    refine yields_bind_ok.mpr ⟨found, s₁, hfile, ?_⟩
    refine yields_bind_ok.mpr ⟨_, _, ih hs₁ hrest, yields_pure.mpr ⟨?_, hswept.symm⟩⟩
    rw [hlisted, hfound, List.filterMap_cons]
    cases s.listed name <;> rfl

theorem list_of_noFault (hs : s.faults = [])
    (h : ∀ name ∈ s.files.map Prod.fst, s.read name ≠ some (.error .panicked)) :
    Yields list s (.ok ((s.files.map Prod.fst).filterMap s.listed))
      (s.swept (s.files.map Prod.fst)) := by
  refine (access_bind_of_noFault hs).mpr ?_
  exact yields_reads_bind.mpr (.inl ⟨_, rfl, listFiles_of_noFault hs h⟩)

theorem listFiles_panicked (hmem : name ∈ names) (h : s.read name = some (.error .panicked)) :
    ¬ Yields (listFiles names) s (.ok summaries) s' := by
  induction names generalizing s s' summaries with
  | nil => cases hmem
  | cons first rest ih =>
    intro hlist
    unfold listFiles at hlist
    obtain ⟨_, s₁, haccess, hlist⟩ := yields_bind_ok.mp hlist
    obtain ⟨faults, rfl, -⟩ := yields_access haccess
    obtain ⟨found, s₂, hfile, hlist⟩ := yields_bind_ok.mp hlist
    obtain ⟨summaries', s₃, hrest, -⟩ := yields_bind_ok.mp hlist
    have h : ({ s with faults := faults } : Disk json).read name = some (.error .panicked) := h
    rcases List.mem_cons.mp hmem with rfl | hmem
    · exact readFile_panicked h hfile
    · refine ih hmem ?_ hrest
      rw [(yields_readFile hfile).1.read (by rw [h]; simp), h]

theorem list_panicked (hmem : name ∈ s.files.map Prod.fst)
    (h : s.read name = some (.error .panicked)) : ¬ Yields list s (.ok summaries) s' := by
  intro hlist
  unfold list at hlist
  obtain ⟨_, s₁, haccess, hlist⟩ := yields_bind_ok.mp hlist
  obtain ⟨faults, rfl, -⟩ := yields_access haccess
  obtain ⟨names, s₂, hnames, hlist⟩ := yields_bind_ok.mp hlist
  obtain ⟨hnames, rfl⟩ := yields_reads.mp hnames
  cases hnames
  have h : ({ s with faults := faults } : Disk json).read name = some (.error .panicked) := h
  exact listFiles_panicked hmem h hlist

end FileManager.Workspaces
