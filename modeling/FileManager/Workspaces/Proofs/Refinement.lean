/-
The repository of files refines the one in memory: started empty, both
answer every sequence of calls alike, up to the time stamp of the last
save and the order of a listing.

The two are in step (`Mirrors`) while every file holds what the map
holds under the same identifier, written by `save`, so that it is read
back; no file is ever moved away.
-/
import FileManager.Workspaces.Proofs.Stored
import FileManager.Workspaces.Proofs.Inhabitation
import FileManager.Workspaces.Proofs.Concurrency

namespace FileManager.Workspaces

open Fallible List Keyed Listed FileRepository Except

variable {json : Json} {file : FileName × json.Bytes} {s : Disk json} {m : Memory}

-- ==== answers

/-- A workspace without the time of its last save. -/
def Workspace.untimed (workspace : Workspace) : Workspace := { workspace with updatedAt := 0 }

/-- A summary without the time of the last save. -/
def Listed.untimed (summary : Listed) : Listed := { summary with updatedAt := 0 }

/-- The same answer, up to time stamps and the order of a listing. -/
inductive SameAnswer : Except WorkspaceError Answer → Except WorkspaceError Answer → Prop
  | error (e : WorkspaceError) : SameAnswer (.error e) (.error e)
  | listed {l l' : List Listed} (h : (l.map untimed).Perm (l'.map untimed)) :
      SameAnswer (.ok (.listed l)) (.ok (.listed l'))
  | loaded {w w' : Option Workspace}
      (h : w.map Workspace.untimed = w'.map Workspace.untimed) :
      SameAnswer (.ok (.loaded w)) (.ok (.loaded w'))
  | saved {w w' : Workspace} (h : w.untimed = w'.untimed) :
      SameAnswer (.ok (.saved w)) (.ok (.saved w'))
  | done : SameAnswer (.ok .done) (.ok .done)
  | active (id : Option WorkspaceId) : SameAnswer (.ok (.active id)) (.ok (.active id))

/-- A call, with the time at which either repository makes it. -/
structure TimedCall where
  call : RepositoryCall
  fileTime : Nat
  memoryTime : Nat

def fileStep (call : TimedCall) (s : Disk json) :
    Option (Except WorkspaceError Answer × Disk json) :=
  call.call.onFiles.run.run { s with now := call.fileTime }

def memoryStep (call : TimedCall) (m : Memory) : Option (Except WorkspaceError Answer × Memory) :=
  call.call.onMemory.run.run { m with now := call.memoryTime }

/-- A directory with nothing in it, and no failure ahead. -/
def emptyDisk : Disk json where
  files := []
  lastActive := .missing
  faults := []
  now := 0
  published := []

def emptyMemory : Memory where
  workspaces := []
  lastActive := none
  now := 0

/-- What is saved is of the current version, and `serde_json` reads it
back. -/
def Readable (json : Json) : RepositoryCall → Prop
  | .save workspace _ =>
    workspace.schemaVersion = currentSchemaVersion ∧ json.ReadsBack workspace
  | _ => True

-- ==== the relation

structure Holds (file : FileName × json.Bytes) (entry : WorkspaceId × Workspace) :
    Prop where
  name : file.1 = .workspace entry.1
  stored : ∃ w, w.untimed = entry.2.untimed ∧ ∀ now, parseAndMigrate json now file.2 = .ok w

structure Mirrors (s : Disk json) (m : Memory) : Prop where
  faults : s.faults = []
  names : (s.files.map Prod.fst).Nodup
  files : Forall₂ Holds s.files m.workspaces
  lastActive : s.lastActive.id = m.lastActive

theorem Holds.key {entry : WorkspaceId × Workspace} (h : Holds file entry) (id : WorkspaceId) :
    file.1 = .workspace id ↔ entry.1 = id := by
  rw [h.name]
  exact ⟨fun heq => by injection heq, fun heq => by rw [heq]⟩

theorem Mirrors.found (h : Mirrors s m) (id : WorkspaceId) :
    (s.read (.workspace id) = none ∧ get m.workspaces id = none)
      ∨ ∃ w w', s.read (.workspace id) = some (.ok w)
        ∧ get m.workspaces id = some w' ∧ w.untimed = w'.untimed := by
  rcases get_related h.files (fun _ _ hx => hx.key id) with
    ⟨hnone, hnone'⟩ | ⟨bytes, w', hbytes, hget, hholds⟩
  · refine .inl ⟨?_, hnone'⟩
    unfold Disk.read
    rw [hnone]
    rfl
  · obtain ⟨w, hsame, hparse⟩ := hholds.stored
    refine .inr ⟨w, w', ?_, hget, hsame⟩
    unfold Disk.read
    rw [hbytes]
    exact congrArg some (hparse s.now)

theorem Mirrors.read_mem (h : Mirrors s m) (hmem : file ∈ s.files) :
    s.read file.1 = some (parseAndMigrate json s.now file.2) := by
  unfold Disk.read
  rw [(mem_iff_get h.names).mp (show (file.1, file.2) ∈ s.files from hmem)]
  rfl

-- ==== the calls

theorem listed_related {files : List (FileName × json.Bytes)}
    {entries : List (WorkspaceId × Workspace)} (h : Forall₂ Holds files entries)
    (hread : ∀ file ∈ files, s.read file.1 = some (parseAndMigrate json s.now file.2)) :
    ((files.map Prod.fst).filterMap s.listed).map untimed
      = (entries.map fun entry => of entry.2).map untimed := by
  induction h with
  | nil => rfl
  | @cons file entry files entries hholds _ ih =>
    obtain ⟨w, hsame, hparse⟩ := hholds.stored
    have hlisted : s.listed file.1 = some (of w) := by
      unfold Disk.listed
      rw [hread file mem_cons_self, hparse]
    have huntimed : (of w).untimed = (of entry.2).untimed := by
      show of w.untimed = of entry.2.untimed
      rw [hsame]
    rw [map_cons, filterMap_cons_some hlisted, map_cons, map_cons,
      map_cons, huntimed,
      ih fun file hmem => hread file (mem_cons_of_mem _ hmem)]

theorem Mirrors.list (h : Mirrors s m) :
    ∃ l l', Yields list s (.ok l) s ∧ Yields MemoryRepository.list m (.ok l') m
      ∧ (l.map untimed).Perm (l'.map untimed) := by
  have hread : ∀ name ∈ s.files.map Prod.fst, ∃ w, s.read name = some (.ok w) := by
    intro name hname
    obtain ⟨file, hmem, rfl⟩ := mem_map.mp hname
    obtain ⟨entry, -, hholds⟩ := exists_related h.files hmem
    obtain ⟨w, -, hparse⟩ := hholds.stored
    exact ⟨w, by rw [h.read_mem hmem, hparse]⟩
  have hlist := list_of_noFault h.faults fun name hname hpanics => by
    obtain ⟨w, hw⟩ := hread name hname
    simp [hw] at hpanics
  rw [swept_eq_self fun name hname => by
    obtain ⟨w, hw⟩ := hread name hname
    unfold Disk.rejects
    rw [hw]] at hlist
  refine ⟨_, _, hlist, yields_reads.mpr ⟨rfl, rfl⟩, Perm.of_eq ?_⟩
  exact listed_related h.files fun file hmem => h.read_mem hmem

theorem Mirrors.load (h : Mirrors s m) (id : WorkspaceId) :
    ∃ w w', Yields (FileRepository.load id) s (.ok w) s
      ∧ Yields (MemoryRepository.load id) m (.ok w') m
      ∧ w.map Workspace.untimed = w'.map Workspace.untimed := by
  rcases h.found id with ⟨hread, hget⟩ | ⟨w, w', hread, hget, hsame⟩
  · exact ⟨none, none, repositoryLoad_absent h.faults hread,
      yields_reads.mpr ⟨congrArg ok hget.symm, rfl⟩, rfl⟩
  · exact ⟨some w, some w', repositoryLoad_workspace h.faults hread,
      yields_reads.mpr ⟨congrArg ok hget.symm, rfl⟩, congrArg some hsame⟩

theorem revision_of_untimed {w w' : Workspace} (h : w.untimed = w'.untimed) :
    w.revision = w'.revision := by
  show w.untimed.revision = w'.untimed.revision
  rw [h]

variable {workspace : Workspace}

theorem persistedCopy_related (hversion : json.Versioned)
    (hcurrent : workspace.schemaVersion = currentSchemaVersion) (hback : json.ReadsBack workspace)
    {expected : Option Nat} {now now' : Nat} {existing existing' : Option Workspace}
    (h : existing.map Workspace.untimed = existing'.map Workspace.untimed) :
    (∃ e, persistedCopy workspace expected now existing = .error e
      ∧ persistedCopy workspace expected now' existing' = .error e)
    ∨ ∃ w w', persistedCopy workspace expected now existing = .ok w
      ∧ persistedCopy workspace expected now' existing' = .ok w'
      ∧ w.untimed = w'.untimed ∧ w'.id = workspace.id
      ∧ ∀ time, parseAndMigrate json time (json.toVec w) = .ok w := by
  have hparse : ∀ createdAt updatedAt revision time, revision < 2 ^ 64 →
      let written : Workspace := { workspace with
        createdAt := createdAt, updatedAt := updatedAt, revision := revision }
      parseAndMigrate json time (json.toVec written) = .ok written := by
    intro createdAt updatedAt revision time hbound written
    obtain ⟨value, hslice, hvalue⟩ := hback createdAt updatedAt revision hbound
    exact parseAndMigrate_written hversion time hcurrent hslice hvalue
  cases existing with
  | none =>
    cases existing' with
    | some e' => cases h
    | none =>
      unfold persistedCopy
      by_cases hexpected : expected.isSome = true
      · exact .inl ⟨_, if_pos hexpected, if_pos hexpected⟩
      · refine .inr ⟨_, _, if_neg hexpected, if_neg hexpected, rfl, rfl, fun time => ?_⟩
        exact hparse workspace.createdAt now 1 time (by decide)
  | some e =>
    cases existing' with
    | none => cases h
    | some e' =>
      have hsame : e.untimed = e'.untimed := Option.some.inj h
      have hrevision := revision_of_untimed hsame
      have hcreated : e.createdAt = e'.createdAt := by
        show e.untimed.createdAt = e'.untimed.createdAt
        rw [hsame]
      unfold persistedCopy
      dsimp only
      rw [hrevision]
      by_cases hconflict :
          expected.any (fun revision => revision ≠ e'.revision) = true
      · exact .inl ⟨_, if_pos hconflict, if_pos hconflict⟩
      · refine .inr ⟨_, _, if_neg hconflict, if_neg hconflict, ?_, rfl, fun time => ?_⟩
        · unfold stamp Workspace.untimed
          rw [hrevision, hcreated]
        · exact hparse e.createdAt now _ time (Nat.mod_lt _ (by decide))

theorem Mirrors.readFile (h : Mirrors s m) (id : WorkspaceId) :
    ∃ found, Yields (readFile (.workspace id)) s (.ok found) s
      ∧ found.existing.map Workspace.untimed = (get m.workspaces id).map Workspace.untimed
      ∧ (found = .absent ∨ ∃ w, found = .workspace w) := by
  rcases h.found id with ⟨hread, hget⟩ | ⟨w, w', hread, hget, hsame⟩
  · exact ⟨.absent, readFile_absent h.faults hread, by rw [hget]; rfl, .inl rfl⟩
  · refine ⟨.workspace w, readFile_workspace h.faults hread, ?_, .inr ⟨w, rfl⟩⟩
    rw [hget]
    exact congrArg some hsame

theorem Mirrors.save (hversion : json.Versioned) (h : Mirrors s m)
    (hcurrent : workspace.schemaVersion = currentSchemaVersion) (hback : json.ReadsBack workspace)
    (expected : Option Nat) :
    ∃ r s' r' m', Yields (save workspace expected) s r s'
      ∧ Yields (MemoryRepository.save workspace expected) m r' m' ∧ Mirrors s' m'
      ∧ ((∃ e, r = .error e ∧ r' = .error e)
        ∨ ∃ w w', r = .ok w ∧ r' = .ok w' ∧ w.untimed = w'.untimed) := by
  obtain ⟨found, hfile, hsame, -⟩ := h.readFile workspace.id
  obtain ⟨hfails, hsaves⟩ := @save_of_found json s s found workspace expected h.faults hfile
  rcases persistedCopy_related hversion hcurrent hback hsame with
    ⟨e, he, he'⟩ | ⟨w, w', hw, hw', huntimed, hid, hparse⟩
  · refine ⟨.error e, s, .error e, m, hfails e he, ?_, h, .inl ⟨e, rfl, rfl⟩⟩
    exact yields_reads_bind.mpr (.inr ⟨e, he', rfl, rfl⟩)
  · refine ⟨.ok w, _, .ok w', { m with workspaces := put m.workspaces workspace.id w' },
      hsaves w hw, ?_, ?_, .inr ⟨w, w', rfl, rfl, huntimed⟩⟩
    · refine yields_reads_bind.mpr (.inl ⟨w', hw', yields_writes_bind.mpr ?_⟩)
      rw [hid]
      exact yields_pure.mpr ⟨rfl, rfl⟩
    · refine ⟨h.faults, nodup_put h.names _ _, ?_, h.lastActive⟩
      exact put_related h.files (fun _ _ hx => hx.key workspace.id) ⟨rfl, w, huntimed, hparse⟩

theorem Mirrors.delete (h : Mirrors s m) (id : WorkspaceId) (expected : Option Nat) :
    ∃ r s' m', Yields (delete id expected) s r s'
      ∧ Yields (MemoryRepository.delete id expected) m r m' ∧ Mirrors s' m' := by
  rcases h.found id with ⟨hread, hget⟩ | ⟨w, w', hread, hget, hsame⟩
  · refine ⟨.error (.notFound id), s, m, ?_, ?_, h⟩
    · exact yields_bind.mpr (.inl ⟨.absent, s, readFile_absent h.faults hread,
        yields_throw.mpr ⟨rfl, rfl⟩⟩)
    · refine yields_reads_bind.mpr (.inl ⟨none, congrArg ok hget, ?_⟩)
      exact yields_throw.mpr ⟨rfl, rfl⟩
  · have hrevision := revision_of_untimed hsame
    by_cases hconflict : expected.any (fun revision => revision ≠ w.revision) = true
    · have hconflict' : expected.any (fun revision => revision ≠ w'.revision) = true := by
        rw [← hrevision]
        exact hconflict
      refine ⟨.error (.revisionConflict id expected w.revision), s, m, ?_, ?_, h⟩
      · refine yields_bind.mpr (.inl ⟨.workspace w, s, readFile_workspace h.faults hread, ?_⟩)
        refine yields_bind.mpr (.inr ⟨_, ?_, rfl⟩)
        exact yields_onlyIf.mpr (.inl ⟨hconflict, yields_throw.mpr ⟨rfl, rfl⟩⟩)
      · refine yields_reads_bind.mpr (.inl ⟨some w', congrArg ok hget, ?_⟩)
        refine yields_bind.mpr (.inr ⟨_, ?_, rfl⟩)
        rw [hrevision]
        exact yields_onlyIf.mpr (.inl ⟨hconflict', yields_throw.mpr ⟨rfl, rfl⟩⟩)
    · have hfree : expected.any (fun revision => revision ≠ w.revision) = false := by
        simpa using hconflict
      have hfree' : expected.any (fun revision => revision ≠ w'.revision) = false := by
        rw [← hrevision]
        exact hfree
      refine ⟨.ok ⟨⟩, s.without (.workspace id),
        { m with workspaces := keep m.workspaces (fun k => k ≠ id) }, ?_, ?_, ?_⟩
      · refine yields_bind.mpr (.inl ⟨.workspace w, s, readFile_workspace h.faults hread, ?_⟩)
        refine yields_bind.mpr (.inl ⟨⟨⟩, s, yields_onlyIf.mpr (.inr ⟨hfree, rfl, rfl⟩), ?_⟩)
        exact (access_bind_of_noFault h.faults).mpr (yields_writes.mpr ⟨rfl, rfl⟩)
      · refine yields_reads_bind.mpr (.inl ⟨some w', congrArg ok hget, ?_⟩)
        refine yields_bind.mpr (.inl ⟨⟨⟩, m, yields_onlyIf.mpr (.inr ⟨hfree', rfl, rfl⟩), ?_⟩)
        exact yields_writes.mpr ⟨rfl, rfl⟩
      · have hfiles : Forall₂ Holds (keep s.files (fun n => n ≠ .workspace id))
            (keep m.workspaces (fun k => k ≠ id)) := by
          refine keep_related h.files fun x x' hx => ?_
          rw [decide_eq_decide]
          exact not_congr (hx.key id)
        exact ⟨h.faults, nodup_keep h.names (fun n => n ≠ .workspace id), hfiles,
          h.lastActive⟩

-- ==== whole runs

theorem Mirrors.call (hversion : json.Versioned) (h : Mirrors s m) {call : RepositoryCall}
    (hcall : Readable json call) :
    ∃ r s' r' m', Yields call.onFiles s r s' ∧ Yields call.onMemory m r' m'
      ∧ Mirrors s' m' ∧ SameAnswer r r' := by
  cases call with
  | list =>
    obtain ⟨l, l', hfiles, hmemory, hperm⟩ := h.list
    exact ⟨_, s, _, m, yields_bind.mpr (.inl ⟨l, s, hfiles, yields_pure.mpr ⟨rfl, rfl⟩⟩),
      yields_bind.mpr (.inl ⟨l', m, hmemory, yields_pure.mpr ⟨rfl, rfl⟩⟩), h, .listed hperm⟩
  | load id =>
    obtain ⟨w, w', hfiles, hmemory, hsame⟩ := h.load id
    exact ⟨_, s, _, m, yields_bind.mpr (.inl ⟨w, s, hfiles, yields_pure.mpr ⟨rfl, rfl⟩⟩),
      yields_bind.mpr (.inl ⟨w', m, hmemory, yields_pure.mpr ⟨rfl, rfl⟩⟩), h, .loaded hsame⟩
  | save workspace expected =>
    obtain ⟨r, s', r', m', hfiles, hmemory, hnext, hr⟩ := h.save hversion hcall.1 hcall.2 expected
    rcases hr with ⟨e, rfl, rfl⟩ | ⟨w, w', rfl, rfl, hsame⟩
    · exact ⟨_, s', _, m', yields_bind.mpr (.inr ⟨e, hfiles, rfl⟩),
        yields_bind.mpr (.inr ⟨e, hmemory, rfl⟩), hnext, .error e⟩
    · exact ⟨_, s', _, m', yields_bind.mpr (.inl ⟨w, s', hfiles, yields_pure.mpr ⟨rfl, rfl⟩⟩),
        yields_bind.mpr (.inl ⟨w', m', hmemory, yields_pure.mpr ⟨rfl, rfl⟩⟩), hnext, .saved hsame⟩
  | delete id expected =>
    obtain ⟨r, s', m', hfiles, hmemory, hnext⟩ := h.delete id expected
    cases r with
    | error e =>
      exact ⟨_, s', _, m', yields_bind.mpr (.inr ⟨e, hfiles, rfl⟩),
        yields_bind.mpr (.inr ⟨e, hmemory, rfl⟩), hnext, .error e⟩
    | ok u =>
      exact ⟨_, s', _, m', yields_bind.mpr (.inl ⟨u, s', hfiles, yields_pure.mpr ⟨rfl, rfl⟩⟩),
        yields_bind.mpr (.inl ⟨u, m', hmemory, yields_pure.mpr ⟨rfl, rfl⟩⟩), hnext, .done⟩
  | lastActive =>
    refine ⟨_, s, .ok (.active m.lastActive), m, ?_, yields_reads_bind.mpr (.inl ⟨_, rfl,
      yields_pure.mpr ⟨rfl, rfl⟩⟩), h, .active m.lastActive⟩
    refine yields_bind.mpr (.inl ⟨m.lastActive, s, ?_, yields_pure.mpr ⟨rfl, rfl⟩⟩)
    refine (access_bind_of_noFault h.faults).mpr (yields_reads.mpr ⟨?_, rfl⟩)
    rw [h.lastActive]
  | setLastActive id =>
    refine ⟨_, { s with lastActive := .recorded id }, _, { m with lastActive := id }, ?_,
      yields_writes_bind.mpr (yields_pure.mpr ⟨rfl, rfl⟩), ⟨h.faults, h.names, h.files, rfl⟩, .done⟩
    refine yields_bind.mpr (.inl ⟨⟨⟩, _, ?_, yields_pure.mpr ⟨rfl, rfl⟩⟩)
    exact (access_bind_of_noFault h.faults).mpr (yields_writes.mpr ⟨rfl, rfl⟩)

theorem mirrors_empty : Mirrors (emptyDisk : Disk json) emptyMemory where
  faults := rfl
  names := nodup_nil
  files := .nil
  lastActive := rfl

theorem file_repository_refines_memory (hversion : json.Versioned) (calls : List TimedCall)
    (hcalls : ∀ call ∈ calls, Readable json call.call) :
    ∃ answers answers', Simulation.answers fileStep (emptyDisk : Disk json) calls = some answers
      ∧ Simulation.answers memoryStep emptyMemory calls = some answers'
      ∧ Forall₂ SameAnswer answers answers' := by
  refine Simulation.answers_related (fun call s m hcall h => ?_) mirrors_empty calls hcalls
  have h : Mirrors { s with now := call.fileTime } { m with now := call.memoryTime } :=
    ⟨h.faults, h.names, h.files, h.lastActive⟩
  exact h.call hversion hcall

/-- A workspace is saved, saved again with a revision that is gone,
listed, deleted and looked for. -/
def sampleCalls : List TimedCall :=
  [{ call := .save sampleWorkspace none, fileTime := 1, memoryTime := 2 },
    { call := .save sampleWorkspace (some 7), fileTime := 3, memoryTime := 4 },
    { call := .list, fileTime := 5, memoryTime := 6 },
    { call := .delete sampleWorkspace.id (some 1), fileTime := 7, memoryTime := 8 },
    { call := .load sampleWorkspace.id, fileTime := 9, memoryTime := 10 }]

theorem file_repository_refines_memory_five_calls :
    ∃ answers answers',
      Simulation.answers fileStep (emptyDisk : Disk plainJson) sampleCalls = some answers
      ∧ Simulation.answers memoryStep emptyMemory sampleCalls = some answers'
      ∧ Forall₂ SameAnswer answers answers' := by
  have hsample : Readable plainJson (.save sampleWorkspace none) :=
    ⟨rfl, plainJson_readsBack rfl (by decide)⟩
  refine file_repository_refines_memory plainJson_versioned sampleCalls ?_
  intro call hcall
  simp only [sampleCalls, mem_cons, not_mem_nil, or_false] at hcall
  rcases hcall with rfl | rfl | rfl | rfl | rfl
  · exact hsample
  · exact hsample
  all_goals exact trivial

end FileManager.Workspaces
