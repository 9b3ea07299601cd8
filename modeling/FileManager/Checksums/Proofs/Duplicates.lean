/-
Staged duplicate detection against the naive definition: the groups of a
completed scan without warnings are the classes of two and more
candidates with the same bytes.

# The argument

Each stage takes the classes of the stage before and splits them by one
more key: the size, a digest of the first bytes, a digest of all bytes.
The last two may come from another path of the same file, which has the
same bytes (`Filled.known`). Splitting class by class gives the classes
under all three keys (`Buckets.Classes.refine`), and since sizes are true
and no two contents share a digest these are the classes of equal
contents.
-/
import FileManager.Checksums.Duplicates
import FileManager.Checksums.Proofs.Streams

namespace FileManager.Checksums

open Buckets (Classes group_append classes_group push having)
open List Buckets DuplicateGroup Vfs HardlinkCluster Except List.Forall₂
open List.Pairwise (imp_of_mem filter)

variable {env : DuplicateEnv} {content : Location → Vfs.Bytes} {options : DuplicateOptions}
  {candidates : List DuplicateCandidate} {hashing : Hashing} {tally tally' : Tally}
  {member x y : Resolved} {stage' stage : Stage} {key : Resolved → String}
  {done group : List Resolved} {look look' : Nat} {β : Type} {groups : List (List Resolved)}
  {file : FileEntry} {known : List (FileIdentity × List FileEntry)}
  {finish : Nat → List (String × List Resolved) → List β} {results : List β}

-- ==== the naive definition

/-- Every path of a group, with the distinct files first. -/
def DuplicateGroup.members (group : DuplicateGroup) : List FileEntry :=
  group.distinctFiles ++ group.hardlinkClusters.flatMap HardlinkCluster.files

/-- The candidates that take part and have the same bytes as `c`. -/
def sameBytes (content : Location → Vfs.Bytes) (options : DuplicateOptions)
    (candidates : List DuplicateCandidate) (c : DuplicateCandidate) : List DuplicateCandidate :=
  (candidates.filter options.counts).filter fun d =>
    content d.entry.location = content c.entry.location

/-- The groups are the classes of two and more candidates with the same
bytes, and every path stands in one place of one group. -/
structure ReportsClasses (env : DuplicateEnv) (content : Location → Vfs.Bytes)
    (options : DuplicateOptions) (candidates : List DuplicateCandidate)
    (groups : List DuplicateGroup) : Prop where
  classes : ∀ g ∈ groups, ∃ c ∈ candidates, options.counts c
    ∧ 2 ≤ (sameBytes content options candidates c).length
    ∧ g.members.Perm
      ((sameBytes content options candidates c).map fun d => fileEntry (resolve env d))
    ∧ g.fullHash = env.digests options.algorithm (content c.entry.location)
    ∧ g.size = c.size
  reported : ∀ c ∈ candidates, options.counts c →
    2 ≤ (sameBytes content options candidates c).length →
    ∃ g ∈ groups, g.members.Perm
      ((sameBytes content options candidates c).map fun d => fileEntry (resolve env d))
  once : ∀ c ∈ candidates,
    ((groups.flatMap members).map fun file => file.entry.location).count
        c.entry.location
      = if options.counts c ∧ 2 ≤ (sameBytes content options candidates c).length then 1 else 0

/-- What the hashing stages rely on: readers deliver the bytes of their
files, and one file has one content. -/
structure Truthful (env : DuplicateEnv) (content : Location → Vfs.Bytes)
    (candidates : List DuplicateCandidate) : Prop where
  delivers : ∀ look, ∀ c ∈ candidates, ∀ chunks,
    (env.providers look).chunks c.entry.location = .ok chunks →
    Delivers chunks (content c.entry.location)
  identities : ∀ c ∈ candidates, ∀ d ∈ candidates, ∀ identity,
    env.identityOf c.entry = some identity → env.identityOf d.entry = some identity →
    content c.entry.location = content d.entry.location

/-- What a scan relies on: besides, the sizes are true and no two
contents share a digest. -/
structure Sound (env : DuplicateEnv) (content : Location → Vfs.Bytes) (options : DuplicateOptions)
    (candidates : List DuplicateCandidate) : Prop extends Truthful env content candidates where
  sizes : ∀ c ∈ candidates, c.size = (content c.entry.location).length
  digests : Set.InjOn (env.digests options.algorithm)
    { bytes | ∃ c ∈ candidates, bytes = content c.entry.location }

-- ==== what a step does

theorem takeDigest_cases {result : Except ChecksumError ChecksumSet} {algorithm : ChecksumAlgorithm}
    {candidate : DuplicateCandidate} {outcome : Outcome}
    (h : takeDigest result algorithm candidate tally = (outcome, tally')) :
    (∃ set digest, result = .ok set ∧ set.get algorithm = some digest
      ∧ outcome = .digest digest ∧ tally'.warnings = tally.warnings)
    ∨ (outcome = .skipped ∧ tally'.warnings ≠ []) ∨ outcome = .cancelled := by
  have hfail : ∀ tally warning, (Tally.fail tally warning).warnings ≠ [] := by
    intro tally warning
    simp [Tally.fail]
  unfold takeDigest at h
  cases result with
  | ok set =>
    simp only at h
    cases hget : set.get algorithm with
    | some digest =>
      rw [hget] at h
      obtain ⟨rfl, rfl⟩ := Prod.mk.inj h
      exact .inl ⟨set, digest, rfl, hget, rfl, rfl⟩
    | none =>
      rw [hget] at h
      obtain ⟨rfl, rfl⟩ := Prod.mk.inj h
      exact .inr (.inl ⟨rfl, hfail _ _⟩)
  | error error =>
    cases error with
    | cancelled =>
      obtain ⟨rfl, -⟩ := Prod.mk.inj h
      exact .inr (.inr rfl)
    | _ =>
      obtain ⟨rfl, rfl⟩ := Prod.mk.inj h
      exact .inr (.inl ⟨rfl, hfail _ _⟩)

theorem hashMembers_cons {rest : List Resolved}
    (h : hashMembers env options hashing (member :: rest) stage = .ok stage') :
    (∃ digest, stage.cached member.identity = some digest ∧ hashMembers env options hashing rest
        ({ stage with look := stage.look + 1 }.push digest member) = .ok stage')
    ∨ (∃ set digest tally look, hashEntryBounded env.digests (env.providers (stage.look + 1))
        env.token member.candidate.entry [options.algorithm] hashing.limit (stage.look + 1)
          = (.ok set, look)
      ∧ set.get options.algorithm = some digest ∧ tally.warnings = stage.tally.warnings
      ∧ hashMembers env options hashing rest
        (({ stage with tally := tally, look := look }.remember member.identity digest).push digest
          member) = .ok stage')
    ∨ (∃ tally look, tally.warnings ≠ []
      ∧ hashMembers env options hashing rest { stage with tally := tally, look := look }
        = .ok stage') := by
  unfold hashMembers at h
  obtain ⟨-, h⟩ := Fallible.passed h nofun
  cases hcached : stage.cached member.identity with
  | some digest =>
    rw [hcached] at h
    exact .inl ⟨digest, rfl, h⟩
  | none =>
    rw [hcached] at h
    simp only at h
    generalize hhash : hashEntryBounded env.digests (env.providers (stage.look + 1))
      env.token member.candidate.entry [options.algorithm] hashing.limit
      (stage.look + 1) = hashed at h
    obtain ⟨result, look⟩ := hashed
    simp only at h
    generalize htake : takeDigest result options.algorithm member.candidate
      stage.tally = taken at h
    obtain ⟨outcome, tally⟩ := taken
    obtain ⟨set, digest, rfl, hget, rfl, hwarnings⟩ | ⟨rfl, hwarnings⟩ | rfl :=
      takeDigest_cases htake
    · refine .inr (.inl ⟨set, digest, { tally with stats := hashing.count tally.stats }, look,
        rfl, hget, hwarnings, h⟩)
    · exact .inr (.inr ⟨tally, look, hwarnings, h⟩)
    · cases h

@[simp] theorem Stage.push_tally (stage : Stage) (digest : String) (member : Resolved) :
    (stage.push digest member).tally = stage.tally := rfl

@[simp] theorem Stage.remember_tally (stage : Stage) (identity : Option FileIdentity)
    (digest : String) : (stage.remember identity digest).tally = stage.tally := by
  cases identity <;> rfl

theorem warnings_of_hashMembers {members : List Resolved}
    (h : hashMembers env options hashing members stage = .ok stage')
    (hnone : stage'.tally.warnings = []) : stage.tally.warnings = [] := by
  induction members generalizing stage with
  | nil =>
    obtain rfl := ok.inj h
    exact hnone
  | cons member rest ih =>
    obtain ⟨digest, -, hrest⟩ | ⟨set, digest, tally, look, -, -, hwarnings, hrest⟩
      | ⟨tally, look, hwarnings, hrest⟩ := hashMembers_cons h
    · simpa using ih hrest
    · have hthen := ih hrest
      rw [Stage.push_tally, Stage.remember_tally] at hthen
      exact hwarnings ▸ hthen
    · exact absurd (ih hrest) hwarnings

-- ==== one group's loop

/-- The digest a stage should find for a member. -/
def digestOf (env : DuplicateEnv) (content : Location → Vfs.Bytes) (options : DuplicateOptions)
    (limit : Option Nat) (member : Resolved) : String :=
  env.digests options.algorithm (bounded limit (content member.candidate.entry.location))

/-- A group's loop after the members `done`: they are in the buckets of
their digests, and a remembered digest is that of one of them. -/
structure Filled (key : Resolved → String) (done : List Resolved) (stage : Stage) : Prop where
  buckets : stage.buckets = Buckets.group key done
  known : ∀ known ∈ stage.digestByIdentity, ∃ m ∈ done,
    m.identity = some known.1 ∧ key m = known.2

/-- The members of the groups, for what the scan relies on. -/
def Known (env : DuplicateEnv) (candidates : List DuplicateCandidate) (member : Resolved) : Prop :=
  ∃ c ∈ candidates, member = resolve env c

theorem Filled.push (h : Filled key done stage) :
    Filled key (done ++ [member]) (stage.push (key member) member) where
  buckets := by
    rw [group_append, ← h.buckets]
    rfl
  known := by
    intro known hknown
    obtain ⟨m, hm, hidentity⟩ := h.known known hknown
    exact ⟨m, mem_append_left _ hm, hidentity⟩

theorem Filled.cached (htruthful : Truthful env content candidates) {limit : Option Nat}
    {digest : String} (h : Filled (digestOf env content options limit) done stage)
    (hdone : ∀ m ∈ done, Known env candidates m) (hmember : Known env candidates member)
    (hcached : stage.cached member.identity = some digest) :
    digest = digestOf env content options limit member := by
  obtain ⟨c, hc, rfl⟩ := hmember
  cases hidentity : (resolve env c).identity with
  | none =>
    rw [hidentity] at hcached
    cases hcached
  | some identity =>
    rw [hidentity] at hcached
    obtain ⟨known, hfind, rfl⟩ := Option.map_eq_some_iff.mp hcached
    have hfound := List.find?_some hfind
    have heq : known.1 = identity := of_decide_eq_true hfound
    obtain ⟨m, hm, hm_identity, hkey⟩ := h.known known (mem_of_find?_eq_some hfind)
    obtain ⟨d, hd, rfl⟩ := hdone m hm
    rw [heq] at hm_identity
    have hcontent := htruthful.identities c hc d hd identity hidentity hm_identity
    rw [← hkey]
    unfold digestOf
    rw [show (resolve env c).candidate = c from rfl, show (resolve env d).candidate = d from rfl,
      hcontent]

theorem Filled.remember (h : Filled key done stage) :
    Filled key (done ++ [member])
      ((stage.remember member.identity (key member)).push (key member) member) where
  buckets := by
    rw [group_append, ← h.buckets]
    cases hidentity : member.identity <;> rfl
  known := by
    intro known hknown
    have hcases : known ∈ stage.digestByIdentity
        ∨ (member.identity = some known.1 ∧ key member = known.2) := by
      cases hidentity : member.identity with
      | none =>
        rw [hidentity] at hknown
        exact .inl hknown
      | some identity =>
        rw [hidentity] at hknown
        rcases mem_cons.mp hknown with rfl | hold
        · exact .inr ⟨rfl, rfl⟩
        · exact .inl hold
    rcases hcases with hold | hnew
    · obtain ⟨m, hm, hidentity⟩ := h.known known hold
      exact ⟨m, mem_append_left _ hm, hidentity⟩
    · exact ⟨member, by simp, hnew⟩

theorem filled_of_hashMembers (htruthful : Truthful env content candidates)
    {members : List Resolved}
    (hmembers : ∀ m ∈ members, Known env candidates m) (hdone : ∀ m ∈ done, Known env candidates m)
    (hfilled : Filled (digestOf env content options hashing.limit) done stage)
    (h : hashMembers env options hashing members stage = .ok stage')
    (hnone : stage'.tally.warnings = []) :
    Filled (digestOf env content options hashing.limit) (done ++ members) stage' := by
  induction members generalizing done stage with
  | nil =>
    obtain rfl := ok.inj h
    rw [append_nil]
    exact hfilled
  | cons member rest ih =>
    have hmember := hmembers member mem_cons_self
    have hrest : ∀ m ∈ rest, Known env candidates m := fun m hm => hmembers m (mem_cons_of_mem _ hm)
    have hdone' : ∀ m ∈ done ++ [member], Known env candidates m := by
      intro m hm
      rcases mem_append.mp hm with hm | hm
      · exact hdone m hm
      · exact mem_singleton.mp hm ▸ hmember
    rw [append_cons]
    obtain ⟨digest, hcached, hthen⟩ | ⟨set, digest, tally, look, hhash, hget, -, hthen⟩
      | ⟨tally, look, hwarnings, hthen⟩ := hashMembers_cons h
    · -- the digest of another path of the same file
      rw [hfilled.cached htruthful hdone hmember hcached] at hthen
      have hstage : Filled (digestOf env content options hashing.limit) done
          { stage with look := stage.look + 1 } := ⟨hfilled.buckets, hfilled.known⟩
      exact ih hrest hdone' hstage.push hthen
    · have hdigest : digest = digestOf env content options hashing.limit member := by
        obtain ⟨c, hc, rfl⟩ := hmember
        have htrue := get_of_hashEntryBounded (htruthful.delivers _ c hc) hhash
        rw [hget] at htrue
        exact Option.some.inj htrue
      rw [hdigest] at hthen
      have hstage : Filled (digestOf env content options hashing.limit) done
          { stage with tally := tally, look := look } := ⟨hfilled.buckets, hfilled.known⟩
      exact ih hrest hdone' hstage.remember hthen
    · exact absurd (warnings_of_hashMembers hthen hnone) hwarnings

theorem buckets_of_hashMembers (htruthful : Truthful env content candidates)
    (hgroup : ∀ m ∈ group, Known env candidates m)
    (h : hashMembers env options hashing group (.new tally look) = .ok stage)
    (hnone : stage.tally.warnings = []) :
    stage.buckets = Buckets.group (digestOf env content options hashing.limit) group := by
  have hnew : Filled (digestOf env content options hashing.limit) [] (.new tally look) :=
    ⟨rfl, fun known hknown => nomatch hknown⟩
  have hfilled := filled_of_hashMembers htruthful hgroup (by simp) hnew h hnone
  rw [hfilled.buckets, nil_append]

-- ==== whole stages

theorem hashGroups_cons
    {rest : List (List Resolved)}
    (h : hashGroups env options hashing finish (group :: rest) tally look
      = .ok (results, tally', look')) :
    ∃ stage more, hashMembers env options hashing group (.new tally look) = .ok stage
      ∧ hashGroups env options hashing finish rest stage.tally stage.look
        = .ok (more, tally', look') ∧ results = finish stage.look stage.buckets ++ more := by
  unfold hashGroups at h
  cases hgroup : hashMembers env options hashing group (.new tally look) with
  | error tally =>
    simp [hgroup] at h
  | ok stage =>
    rw [hgroup] at h
    simp only at h
    cases hmore : hashGroups env options hashing finish rest stage.tally stage.look with
    | error tally =>
      simp [hmore] at h
    | ok outcome =>
      obtain ⟨more, tally₂, look₂⟩ := outcome
      rw [hmore] at h
      obtain ⟨rfl, hrest⟩ := Prod.mk.inj (ok.inj h)
      obtain ⟨rfl, rfl⟩ := Prod.mk.inj hrest
      exact ⟨stage, more, rfl, hmore, rfl⟩

theorem warnings_of_hashGroups
    (h : hashGroups env options hashing finish groups tally look = .ok (results, tally', look'))
    (hnone : tally'.warnings = []) : tally.warnings = [] := by
  induction groups generalizing tally look results with
  | nil =>
    obtain ⟨-, hrest⟩ := Prod.mk.inj (ok.inj h)
    obtain ⟨rfl, -⟩ := Prod.mk.inj hrest
    exact hnone
  | cons group rest ih =>
    obtain ⟨stage, more, hgroup, hmore, -⟩ := hashGroups_cons h
    exact warnings_of_hashMembers hgroup (ih hmore)

theorem hashGroups_ok (htruthful : Truthful env content candidates)
    (hgroups : ∀ group ∈ groups, ∀ m ∈ group, Known env candidates m)
    (h : hashGroups env options hashing finish groups tally look = .ok (results, tally', look'))
    (hnone : tally'.warnings = []) :
    ∃ parts, results = parts.flatten ∧ List.Forall₂ (fun group part => ∃ look, part = finish look
          (Buckets.group (digestOf env content options hashing.limit) group)) groups parts := by
  induction groups generalizing tally look results with
  | nil =>
    obtain ⟨rfl, -⟩ := Prod.mk.inj (ok.inj h)
    exact ⟨[], rfl, nil⟩
  | cons group rest ih =>
    obtain ⟨stage, more, hgroup, hmore, rfl⟩ := hashGroups_cons h
    obtain ⟨parts, rfl, hparts⟩ := ih (fun g hg => hgroups g (mem_cons_of_mem _ hg)) hmore
    refine ⟨finish stage.look stage.buckets :: parts, rfl, cons ?_ hparts⟩
    refine ⟨stage.look, ?_⟩
    rw [buckets_of_hashMembers htruthful (hgroups group mem_cons_self) hgroup
      (warnings_of_hashGroups hmore hnone)]

theorem classes_groupBySize (env : DuplicateEnv) (candidates : List DuplicateCandidate)
    (options : DuplicateOptions) (look : Nat) :
    Classes DuplicateCandidate.size (candidates.filter options.counts)
      (groupBySize env candidates options look) := by
  unfold groupBySize
  exact (classes_group _ _ (env.iterate_perm look _)).perm (perm_insertionSort _ _)

theorem classes_prefixBuckets (env : DuplicateEnv) (look : Nat) (key : Resolved → String)
    (group : List Resolved) :
    Classes key group (prefixBuckets env look (Buckets.group key group)) := by
  unfold prefixBuckets
  exact (classes_group _ _ (env.iterate_perm look _)).arrange _
    fun c => perm_insertionSort _ c

-- ==== one group

theorem byIdentity_append_some {identity : FileIdentity} (h : file.identity = some identity)
    (files : List FileEntry) :
    byIdentity (files ++ [file]) = push identity file (byIdentity files) := by
  unfold byIdentity
  rw [foldl_append]
  simp only [foldl_cons, foldl_nil, h]

theorem byIdentity_append_none (h : file.identity = none) (files : List FileEntry) :
    byIdentity (files ++ [file]) = byIdentity files := by
  unfold byIdentity
  rw [foldl_append]
  simp only [foldl_cons, foldl_nil, h]

theorem perm_byIdentity (files : List FileEntry) :
    ((byIdentity files).flatMap Prod.snd).Perm
      (files.filter fun file => !file.identity.isNone) := by
  induction files using List.reverseRecOn with
  | nil => exact List.Perm.refl _
  | append_singleton files file ih =>
    rw [filter_append]
    cases hidentity : file.identity with
    | none =>
      rw [byIdentity_append_none hidentity]
      simpa [hidentity] using ih
    | some identity =>
      rw [byIdentity_append_some hidentity]
      simp only [filter_cons, hidentity, Option.isNone_some, Bool.not_false, if_true, filter_nil]
      exact (perm_flatMap_push identity file _).trans (ih.append_right _)

theorem nodup_keys_byIdentity (files : List FileEntry) :
    ((byIdentity files).map Prod.fst).Nodup := by
  induction files using List.reverseRecOn with
  | nil => exact nodup_nil
  | append_singleton files file ih =>
    cases hidentity : file.identity with
    | none => rwa [byIdentity_append_none hidentity]
    | some identity =>
      rw [byIdentity_append_some hidentity]
      exact nodup_keys_push ih identity file

theorem identity_of_mem_byIdentity (files : List FileEntry) :
    ∀ bucket ∈ byIdentity files, ∀ file ∈ bucket.2, file.identity = some bucket.1 := by
  induction files using List.reverseRecOn with
  | nil => intro bucket hbucket; cases hbucket
  | append_singleton files file ih =>
    cases hidentity : file.identity with
    | none => rwa [byIdentity_append_none hidentity]
    | some identity =>
      rw [byIdentity_append_some hidentity]
      exact forall_push (P := fun identity (file : FileEntry) => file.identity = some identity)
        ih hidentity

/-- The copies a group shows: the distinct files and the clusters. -/
def DuplicateGroup.copies (group : DuplicateGroup) : List (List FileEntry) :=
  group.distinctFiles.map (fun file => [file]) ++ group.hardlinkClusters.map HardlinkCluster.files

theorem DuplicateGroup.flatten_copies (group : DuplicateGroup) :
    group.copies.flatten = group.members := by
  unfold copies members
  rw [flatten_append, ← flatMap_def, ← flatMap_def]
  congr 1
  exact flatMap_singleton' group.distinctFiles

/-- Two files that are known to be one. -/
def OneFile (file file' : FileEntry) : Prop := file.identity ≠ none ∧ file.identity = file'.identity

/-- Files that are known to be one stand in one cluster. -/
structure Clustered (group : DuplicateGroup) : Prop where
  identities : ∀ cluster ∈ group.hardlinkClusters, ∀ file ∈ cluster.files,
    file.identity = some cluster.identity
  apart : group.copies.Pairwise fun copy copy' =>
    ∀ file ∈ copy, ∀ file' ∈ copy', ¬ OneFile file file'

theorem perm_members_buildGroup (env : DuplicateEnv) (look : Nat) (fullHash : String)
    (members : List Resolved) :
    (buildGroup env look fullHash members).members.Perm (members.map fileEntry) := by
  generalize hfiles : members.map fileEntry = files
  have hknown : ((env.iterate look (byIdentity files)).flatMap Prod.snd).Perm
      (files.filter fun file => !file.identity.isNone) :=
    ((env.iterate_perm look _).flatMap_right _).trans (perm_byIdentity files)
  generalize hbuckets : env.iterate look (byIdentity files) = known at hknown
  have hclusters : ((((known.filter fun bucket => 1 < bucket.2.length).map fun bucket =>
        mk bucket.1 (sortFiles env bucket.2)).insertionSort
        fun left right => left.identity.le right.identity).flatMap HardlinkCluster.files).Perm
      ((known.filter fun bucket => 1 < bucket.2.length).flatMap Prod.snd) := by
    refine ((perm_insertionSort _ _).flatMap_right _).trans ?_
    rw [flatMap_map]
    exact List.Perm.flatMap_left _ fun bucket _ => perm_insertionSort _ _
  -- the buckets with one file and those with more are all buckets
  have hsplit : ((known.filter fun bucket => !(1 < bucket.2.length)).flatMap Prod.snd
      ++ (known.filter fun bucket => 1 < bucket.2.length).flatMap Prod.snd).Perm
      (known.flatMap Prod.snd) := by
    rw [← flatMap_append]
    refine List.Perm.flatMap_right _ ?_
    exact perm_append_comm.trans (filter_append_perm _ known)
  have hshape : (buildGroup env look fullHash members).members
      = sortFiles env ((files.filter fun file => file.identity.isNone)
          ++ (known.filter fun bucket => !(1 < bucket.2.length)).flatMap Prod.snd)
        ++ (((known.filter fun bucket => 1 < bucket.2.length).map fun bucket =>
          mk bucket.1 (sortFiles env bucket.2)).insertionSort
          fun left right => left.identity.le right.identity).flatMap HardlinkCluster.files := by
    rw [← hbuckets, ← hfiles]
    rfl
  rw [hshape]
  refine ((perm_insertionSort _ _).append hclusters).trans ?_
  rw [append_assoc]
  refine (hsplit.append_left _).trans ?_
  exact (hknown.append_left _).trans (filter_append_perm _ files)

theorem not_oneFile_of_ne (hkeys : (known.map Prod.fst).Nodup)
    (hidentity : ∀ bucket ∈ known, ∀ file ∈ bucket.2, file.identity = some bucket.1)
    {bucket bucket' : FileIdentity × List FileEntry} (hbucket : bucket ∈ known)
    (hbucket' : bucket' ∈ known) (hne : bucket ≠ bucket') {file' : FileEntry}
    (hfile : file ∈ bucket.2) (hfile' : file' ∈ bucket'.2) : ¬ OneFile file file' := by
  rintro ⟨-, heq⟩
  rw [hidentity bucket hbucket file hfile, hidentity bucket' hbucket' file' hfile'] at heq
  exact hne (inj_on_of_nodup_map hkeys hbucket hbucket' (Option.some.inj heq))

theorem pairwise_alone (hkeys : (known.map Prod.fst).Nodup)
    (hidentity : ∀ bucket ∈ known, ∀ file ∈ bucket.2, file.identity = some bucket.1)
    {unknown : List FileEntry} (hunknown : ∀ file ∈ unknown, file.identity = none) :
    (unknown ++ (known.filter fun bucket => !(1 < bucket.2.length)).flatMap Prod.snd).Pairwise
      fun file file' => ¬ OneFile file file' := by
  have hleft : ∀ file ∈ unknown, ∀ file', ¬ OneFile file file' := by
    intro file hfile file' hone
    exact hone.1 (hunknown file hfile)
  rw [pairwise_append]
  refine ⟨?_, ?_, fun file hfile file' _ => hleft file hfile file'⟩
  · exact pairwise_of_forall_mem_list fun file hfile file' _ => hleft file hfile file'
  · rw [pairwise_flatMap]
    constructor
    · intro bucket hbucket
      have hone := (mem_filter.mp hbucket).2
      simp only [Bool.not_eq_true', decide_eq_false_iff_not] at hone
      obtain hnil | ⟨file, hsingle⟩ : bucket.2 = [] ∨ ∃ file, bucket.2 = [file] := by
        cases hfiles : bucket.2 with
        | nil => exact .inl rfl
        | cons file rest =>
          cases rest with
          | nil => exact .inr ⟨file, rfl⟩
          | cons second more =>
            rw [hfiles, length_cons, length_cons] at hone
            omega
      · rw [hnil]
        exact List.Pairwise.nil
      · rw [hsingle]
        exact pairwise_singleton _ _
    · refine imp_of_mem ?_ (filter _ (hkeys.of_map _))
      intro bucket bucket' hbucket hbucket' hne file hfile file' hfile'
      exact not_oneFile_of_ne hkeys hidentity (mem_of_mem_filter hbucket)
        (mem_of_mem_filter hbucket') hne hfile hfile'

theorem clustered_buildGroup (env : DuplicateEnv) (look : Nat) (fullHash : String)
    (members : List Resolved) : Clustered (buildGroup env look fullHash members) := by
  generalize hfiles : members.map fileEntry = files
  have hperm := env.iterate_perm look (byIdentity files)
  have hkeys : ((env.iterate look (byIdentity files)).map Prod.fst).Nodup :=
    (hperm.map Prod.fst).nodup_iff.mpr (nodup_keys_byIdentity files)
  have hidentity : ∀ bucket ∈ env.iterate look (byIdentity files), ∀ file ∈ bucket.2,
      file.identity = some bucket.1 :=
    fun bucket hbucket => identity_of_mem_byIdentity files bucket (hperm.mem_iff.mp hbucket)
  generalize hbuckets : env.iterate look (byIdentity files) = known at hkeys hidentity
  have hclusters : (buildGroup env look fullHash members).hardlinkClusters
      = ((known.filter fun bucket => 1 < bucket.2.length).map fun bucket =>
          mk bucket.1 (sortFiles env bucket.2)).insertionSort
          fun left right => left.identity.le right.identity := by
    rw [← hbuckets, ← hfiles]
    rfl
  have hdistinct : (buildGroup env look fullHash members).distinctFiles
      = sortFiles env ((files.filter fun file => file.identity.isNone)
          ++ (known.filter fun bucket => !(1 < bucket.2.length)).flatMap Prod.snd) := by
    rw [← hbuckets, ← hfiles]
    rfl
  -- a cluster is a bucket with two files or more
  have hcluster : ∀ cluster ∈ (buildGroup env look fullHash members).hardlinkClusters,
      ∃ bucket ∈ known, 1 < bucket.2.length ∧ cluster.identity = bucket.1
        ∧ ∀ file, file ∈ cluster.files ↔ file ∈ bucket.2 := by
    intro cluster hmem
    rw [hclusters, (perm_insertionSort _ _).mem_iff] at hmem
    obtain ⟨bucket, hbucket, rfl⟩ := mem_map.mp hmem
    obtain ⟨hin, hmany⟩ := mem_filter.mp hbucket
    exact ⟨bucket, hin, of_decide_eq_true hmany, rfl, fun file => (perm_insertionSort _ _).mem_iff⟩
  have hsymm : ∀ {file file' : FileEntry}, ¬ OneFile file file' → ¬ OneFile file' file := by
    rintro file file' hnot ⟨hsome, heq⟩
    exact hnot ⟨heq ▸ hsome, heq.symm⟩
  refine ⟨?_, ?_⟩
  · intro cluster hmem file hfile
    obtain ⟨bucket, hbucket, -, hsame, hiff⟩ := hcluster cluster hmem
    rw [hsame]
    exact hidentity bucket hbucket file ((hiff file).mp hfile)
  · unfold copies
    rw [pairwise_append, pairwise_map, pairwise_map]
    refine ⟨?_, ?_, ?_⟩
    · have hpairwise : (buildGroup env look fullHash members).distinctFiles.Pairwise
          fun file file' => ¬ OneFile file file' := by
        rw [hdistinct]
        refine ((perm_insertionSort _ _).pairwise_iff hsymm).mpr ?_
        refine pairwise_alone hkeys hidentity ?_
        intro file hfile
        exact Option.isNone_iff_eq_none.mp (mem_filter.mp hfile).2
      refine hpairwise.imp ?_
      intro file file' hnot f hf f' hf'
      rw [mem_singleton.mp hf, mem_singleton.mp hf']
      exact hnot
    · rw [hclusters]
      refine ((perm_insertionSort _ _).pairwise_iff ?_).mpr ?_
      · intro cluster cluster' hnot file hfile file' hfile'
        exact hsymm (hnot file' hfile' file hfile)
      · rw [pairwise_map]
        refine imp_of_mem ?_ (filter _ (hkeys.of_map _))
        intro bucket bucket' hbucket hbucket' hne file hfile file' hfile'
        exact not_oneFile_of_ne hkeys hidentity (mem_of_mem_filter hbucket)
          (mem_of_mem_filter hbucket') hne ((perm_insertionSort _ _).mem_iff.mp hfile)
          ((perm_insertionSort _ _).mem_iff.mp hfile')
    · intro copy hcopy copy' hcopy' file hfile file' hfile'
      obtain ⟨distinct, hmem, rfl⟩ := mem_map.mp hcopy
      obtain ⟨cluster, hmem', rfl⟩ := mem_map.mp hcopy'
      obtain rfl := mem_singleton.mp hfile
      obtain ⟨bucket', hbucket', hmany, -, hiff⟩ := hcluster cluster hmem'
      rw [hdistinct, sortFiles, (perm_insertionSort _ _).mem_iff] at hmem
      rcases mem_append.mp hmem with hunknown | halone
      · intro hone
        exact hone.1 (Option.isNone_iff_eq_none.mp (mem_filter.mp hunknown).2)
      · obtain ⟨bucket, hbucket, hin⟩ := mem_flatMap.mp halone
        obtain ⟨hknown, hfew⟩ := mem_filter.mp hbucket
        refine not_oneFile_of_ne hkeys hidentity hknown hbucket' ?_ hin ((hiff file').mp hfile')
        rintro rfl
        simp only [Bool.not_eq_true', decide_eq_false_iff_not] at hfew
        exact hfew hmany

-- ==== stage 3

/-- A group that was made from the class `c`. -/
structure Describes (key : Resolved → String) (group : DuplicateGroup) (c : List Resolved) :
    Prop where
  members : group.members.Perm (c.map fileEntry)
  fullHash : ∀ m ∈ c, group.fullHash = key m
  size : ∃ m ∈ c, group.size = m.candidate.size
  clustered : Clustered group

theorem classes_digestBuckets (env : DuplicateEnv) (look : Nat) (key : Resolved → String)
    (group : List Resolved) :
    ∃ classes, Classes key group classes
      ∧ List.Forall₂ (Describes key) (digestBuckets env look (Buckets.group key group)) classes :=
      by
  have hperm := env.iterate_perm look (Buckets.group key group)
  refine ⟨_, classes_group key group hperm, ?_⟩
  have hmany : (fun bucket : String × List Resolved => !decide (bucket.2.length < 2))
      = (fun c : List Resolved => decide (1 < c.length)) ∘ Prod.snd := by
    funext bucket
    rw [← decide_not]
    exact decide_eq_decide.mpr (by omega)
  unfold digestBuckets
  rw [filter_map, ← hmany, forall₂_map_left_iff, forall₂_map_right_iff, forall₂_same]
  rintro ⟨digest, members⟩ hbucket
  obtain ⟨hmem, -⟩ := mem_filter.mp hbucket
  obtain ⟨hhaving, hne⟩ := mem_group.mp (hperm.mem_iff.mp hmem)
  refine ⟨perm_members_buildGroup env look digest members, ?_, ?_,
    clustered_buildGroup env look digest members⟩
  · intro m hm
    rw [hhaving] at hm
    exact (mem_having.mp hm).2.symm
  · obtain ⟨first, rest, rfl⟩ := exists_cons_of_ne_nil hne
    exact ⟨first, mem_cons_self, rfl⟩

theorem classes_parts {parts : List (List DuplicateGroup)}
    (h : List.Forall₂ (fun group part => ∃ look,
      part = digestBuckets env look (Buckets.group key group)) groups parts) :
    ∃ classes, List.Forall₂ (Classes key) groups classes
      ∧ List.Forall₂ (Describes key) parts.flatten classes.flatten := by
  induction h with
  | nil => exact ⟨[], nil, nil⟩
  | cons hhead _ ih =>
    obtain ⟨look, rfl⟩ := hhead
    obtain ⟨classes, hclasses, hparts⟩ := ih
    obtain ⟨first, hfirst, hdescribes⟩ := classes_digestBuckets env look key _
    exact ⟨first :: classes, cons hfirst hclasses, rel_append hdescribes hparts⟩

-- ==== the scan

theorem findDuplicates_completed
    (hcompleted : (findDuplicates env candidates options look).outcome = .completed) :
    ∃ tally prefixGroups tally₂ look₂ groups tally₃ look₃,
      partialHashStage env options (groupBySize env candidates options look) tally (look + 1)
        = .ok (prefixGroups, tally₂, look₂)
      ∧ hashGroups env options fullHashing (digestBuckets env) prefixGroups tally₂ look₂
        = .ok (groups, tally₃, look₃) ∧ (findDuplicates env candidates options look).groups
        = groups.insertionSort le
      ∧ (findDuplicates env candidates options look).warnings = tally₃.warnings := by
  unfold findDuplicates at hcompleted ⊢
  simp only at hcompleted ⊢
  split at hcompleted
  case isTrue => cases hcompleted
  case isFalse hidle =>
    rw [if_neg hidle]
    generalize htally : Tally.mk _ [] = tally at hcompleted ⊢
    refine ⟨tally, ?_⟩
    cases hstage : partialHashStage env options (groupBySize env candidates options look) tally
        (look + 1) with
    | error tally =>
      rw [hstage] at hcompleted
      cases hcompleted
    | ok outcome =>
      obtain ⟨prefixGroups, tally₂, look₂⟩ := outcome
      rw [hstage] at hcompleted
      simp only at hcompleted ⊢
      unfold fullHashStage at hcompleted ⊢
      cases hfull : hashGroups env options fullHashing (digestBuckets env) prefixGroups tally₂
          look₂ with
      | error tally =>
        rw [hfull] at hcompleted
        cases hcompleted
      | ok outcome =>
        obtain ⟨groups, tally₃, look₃⟩ := outcome
        exact ⟨prefixGroups, tally₂, look₂, groups, tally₃, look₃, rfl, hfull, rfl, rfl⟩

/-- The bytes of a member. -/
def contentOf (content : Location → Vfs.Bytes) (member : Resolved) : Vfs.Bytes :=
  content member.candidate.entry.location

/-- The candidates that take part, with their identities. -/
def counted (env : DuplicateEnv) (options : DuplicateOptions)
    (candidates : List DuplicateCandidate) : List Resolved :=
  (candidates.filter options.counts).map (resolve env)

theorem known_of_mem_counted
    (h : member ∈ counted env options candidates) : Known env candidates member := by
  obtain ⟨c, hc, rfl⟩ := mem_map.mp h
  exact ⟨c, mem_of_mem_filter hc, rfl⟩

theorem known_of_classes {κ : Type} [DecidableEq κ] {key : Resolved → κ}
    {classes : List (List Resolved)} (h : Classes key (counted env options candidates) classes) :
    ∀ group ∈ classes, ∀ m ∈ group, Known env candidates m :=
  fun _ hgroup _ hm => known_of_mem_counted (h.perm_having hgroup hm).1

def stageKeys (env : DuplicateEnv) (content : Location → Vfs.Bytes) (options : DuplicateOptions)
    (member : Resolved) : (Nat × String) × String :=
  ((member.candidate.size, digestOf env content options (partialHashing options).limit member),
    digestOf env content options none member)

theorem stageKeys_congr (hsize : x.candidate.size = y.candidate.size)
    (hcontent : contentOf content x = contentOf content y) :
    stageKeys env content options x = stageKeys env content options y := by
  unfold contentOf at hcontent
  unfold stageKeys digestOf
  rw [hsize, hcontent]

theorem Sound.keys_iff (hsound : Sound env content options candidates)
    (hx : Known env candidates x) (hy : Known env candidates y) :
    stageKeys env content options x = stageKeys env content options y
    ↔ contentOf content x = contentOf content y := by
  obtain ⟨c, hc, rfl⟩ := hx
  obtain ⟨d, hd, rfl⟩ := hy
  constructor
  · intro h
    exact hsound.digests ⟨c, hc, rfl⟩ ⟨d, hd, rfl⟩ (Prod.mk.inj h).2
  · intro h
    have hsize : c.size = d.size := by
      rw [hsound.sizes c hc, hsound.sizes d hd]
      exact congrArg List.length h
    exact stageKeys_congr hsize h

/-- The groups of a completed scan without warnings, before they are
sorted, describe the classes of equal size and digests. -/
theorem describes_keys (htruthful : Truthful env content candidates)
    (hcompleted : (findDuplicates env candidates options look).outcome = .completed)
    (hnone : (findDuplicates env candidates options look).warnings = []) :
    ∃ groups classes, (findDuplicates env candidates options look).groups.Perm groups
      ∧ Classes (stageKeys env content options) (counted env options candidates) classes
      ∧ List.Forall₂ (Describes (digestOf env content options none)) groups classes := by
  obtain ⟨tally, prefixGroups, tally₂, look₂, groups, tally₃, look₃, hstage, hfull, hgroups,
    hwarnings⟩ := findDuplicates_completed hcompleted
  rw [hwarnings] at hnone
  -- stage 1
  have hsize : Classes (fun m : Resolved => m.candidate.size) (counted env options candidates)
      ((groupBySize env candidates options look).map (List.map (resolve env))) :=
    (classes_groupBySize env candidates options look).map (resolve env) fun _ => rfl
  -- stage 2, which left no warning because stage 3 kept none
  have hnone₂ := warnings_of_hashGroups hfull hnone
  obtain ⟨parts, rfl, hparts⟩ := hashGroups_ok htruthful (known_of_classes hsize) hstage hnone₂
  have hclasses₂ : List.Forall₂
      (Classes (digestOf env content options (partialHashing options).limit))
      ((groupBySize env candidates options look).map (List.map (resolve env))) parts := by
    refine hparts.imp ?_
    rintro group part ⟨look, rfl⟩
    exact classes_prefixBuckets env look _ group
  have hprefix := hsize.refine hclasses₂
  -- stage 3
  obtain ⟨parts₃, rfl, hparts₃⟩ := hashGroups_ok htruthful (known_of_classes hprefix) hfull hnone
  obtain ⟨classes, hclasses, hdescribes⟩ := classes_parts hparts₃
  refine ⟨parts₃.flatten, classes.flatten, ?_, ?_, hdescribes⟩
  · rw [hgroups]
    exact perm_insertionSort _ _
  · exact hprefix.refine hclasses

theorem describes_classes (hsound : Sound env content options candidates)
    (hcompleted : (findDuplicates env candidates options look).outcome = .completed)
    (hnone : (findDuplicates env candidates options look).warnings = []) :
    ∃ groups classes, (findDuplicates env candidates options look).groups.Perm groups
      ∧ Classes (contentOf content) (counted env options candidates) classes
      ∧ List.Forall₂ (Describes (digestOf env content options none)) groups classes := by
  obtain ⟨groups, classes, hperm, hclasses, hdescribes⟩ :=
    describes_keys hsound.toTruthful hcompleted hnone
  refine ⟨groups, classes, hperm, hclasses.congr ?_, hdescribes⟩
  intro x hx y hy
  exact hsound.keys_iff (known_of_mem_counted hx) (known_of_mem_counted hy)

theorem having_counted (env : DuplicateEnv) (content : Location → Vfs.Bytes)
    (options : DuplicateOptions) (candidates : List DuplicateCandidate) (c : DuplicateCandidate) :
    having (contentOf content) (contentOf content (resolve env c))
        (counted env options candidates)
      = (sameBytes content options candidates c).map (resolve env) :=
  having_map (fun _ => rfl) _ _

theorem mem_counted {c : DuplicateCandidate} :
    resolve env c ∈ counted env options candidates ↔ c ∈ candidates ∧ options.counts c := by
  unfold counted
  rw [mem_map]
  constructor
  · rintro ⟨d, hd, heq⟩
    obtain rfl : d = c := congrArg Resolved.candidate heq
    exact mem_filter.mp hd
  · intro h
    exact ⟨c, mem_filter.mpr h, rfl⟩

section Reports

variable {groups : List DuplicateGroup} {classes : List (List Resolved)} {c : DuplicateCandidate}

theorem class_of_describes
    (hclasses : Classes (contentOf content) (counted env options candidates) classes)
    (hdescribes : List.Forall₂ (Describes (digestOf env content options none)) groups classes)
    {g : DuplicateGroup} (hg : g ∈ groups) :
    ∃ c ∈ candidates, options.counts c ∧ 2 ≤ (sameBytes content options candidates c).length
      ∧ g.members.Perm
        ((sameBytes content options candidates c).map fun d => fileEntry (resolve env d))
      ∧ g.fullHash = env.digests options.algorithm (content c.entry.location)
      ∧ g.size = c.size := by
  obtain ⟨class₁, hclass₁, hdescribed⟩ := exists_left_of_forall₂ hdescribes.flip hg
  obtain ⟨hmembers, hhash, ⟨m, hm, hsize⟩, -⟩ := hdescribed
  obtain ⟨hmem, hperm⟩ := hclasses.perm_having hclass₁ hm
  obtain ⟨c, hc, rfl⟩ := mem_map.mp hmem
  rw [having_counted] at hperm
  refine ⟨c, mem_of_mem_filter hc, (mem_filter.mp hc).2, ?_, ?_, hhash _ hm, hsize⟩
  · rw [← length_map (resolve env), ← hperm.length_eq]
    exact (hclasses.whole class₁ hclass₁).1
  · have hfiles := hmembers.trans (hperm.map fileEntry)
    rw [map_map] at hfiles
    exact hfiles

theorem describes_of_class
    (hclasses : Classes (contentOf content) (counted env options candidates) classes)
    (hdescribes : List.Forall₂ (Describes (digestOf env content options none)) groups classes)
    (hc : c ∈ candidates) (hcounts : options.counts c)
    (hmany : 2 ≤ (sameBytes content options candidates c).length) :
    ∃ g ∈ groups, g.members.Perm
      ((sameBytes content options candidates c).map fun d => fileEntry (resolve env d)) := by
  obtain ⟨class₁, hclass₁, hmem⟩ := hclasses.all (resolve env c) (mem_counted.mpr ⟨hc, hcounts⟩)
    (by rw [having_counted, length_map]; exact hmany)
  obtain ⟨-, hperm⟩ := hclasses.perm_having hclass₁ hmem
  obtain ⟨g, hg, hdescribed⟩ := exists_left_of_forall₂ hdescribes hclass₁
  rw [having_counted] at hperm
  have hfiles := hdescribed.members.trans (hperm.map fileEntry)
  rw [map_map] at hfiles
  exact ⟨g, hg, hfiles⟩

theorem perm_places {key : Resolved → String}
    (hdescribes : List.Forall₂ (Describes key) groups classes) :
    (groups.flatMap members).Perm (classes.flatten.map fileEntry) := by
  induction hdescribes with
  | nil => exact List.Perm.refl _
  | cons hhead _ ih =>
    rw [flatMap_cons, flatten_cons, map_append]
    exact hhead.members.append ih

theorem count_places (hdistinct : (candidates.map fun c => c.entry.location).Nodup)
    (hclasses : Classes (contentOf content) (counted env options candidates) classes)
    (hc : c ∈ candidates) :
    (classes.flatten.map fun m => m.candidate.entry.location).count c.entry.location
      = if options.counts c ∧ 2 ≤ (sameBytes content options candidates c).length
        then 1 else 0 := by
  have hinj := inj_on_of_nodup_map hdistinct
  have hcounted : (counted env options candidates).Nodup := by
    refine List.Nodup.map_on ?_ ((hdistinct.of_map _).filter _)
    intro d _ e _ heq
    exact congrArg Resolved.candidate heq
  have hflat := hclasses.nodup_flatten hcounted
  -- the location of a member tells which candidate it is
  have hmember : ∀ m ∈ classes.flatten, ∃ d ∈ candidates, m = resolve env d :=
    fun m hm => known_of_mem_counted (hclasses.mem_flatten.mp hm).1
  have hnodup : (classes.flatten.map fun m => m.candidate.entry.location).Nodup := by
    refine List.Nodup.map_on ?_ hflat
    intro m hm m' hm' heq
    obtain ⟨d, hd, rfl⟩ := hmember m hm
    obtain ⟨e, he, rfl⟩ := hmember m' hm'
    rw [hinj hd he heq]
  have hmem : c.entry.location ∈ classes.flatten.map (fun m => m.candidate.entry.location)
      ↔ options.counts c ∧ 2 ≤ (sameBytes content options candidates c).length := by
    rw [mem_map]
    have hiff := hclasses.mem_flatten (x := resolve env c)
    rw [mem_counted, having_counted, length_map] at hiff
    constructor
    · rintro ⟨m, hm, heq⟩
      obtain ⟨d, hd, rfl⟩ := hmember m hm
      obtain rfl := hinj hd hc heq
      exact ⟨(hiff.mp hm).1.2, (hiff.mp hm).2⟩
    · rintro ⟨hcounts, hmany⟩
      exact ⟨resolve env c, hiff.mpr ⟨⟨hc, hcounts⟩, hmany⟩, rfl⟩
  split
  case isTrue h => exact count_eq_one_of_mem hnodup (hmem.mpr h)
  case isFalse h => exact count_eq_zero.mpr fun hin => h (hmem.mp hin)

end Reports

/-- A completed scan without warnings reports exactly the classes of two
and more candidates with the same bytes, each path in one place. -/
theorem duplicates_are_classes (hsound : Sound env content options candidates)
    (hdistinct : (candidates.map fun c => c.entry.location).Nodup) (look : Nat)
    (hcompleted : (findDuplicates env candidates options look).outcome = .completed)
    (hnone : (findDuplicates env candidates options look).warnings = []) :
    ReportsClasses env content options candidates
      (findDuplicates env candidates options look).groups := by
  obtain ⟨groups, classes, hperm, hclasses, hdescribes⟩ :=
    describes_classes hsound hcompleted hnone
  refine ⟨?_, ?_, ?_⟩
  · intro g hg
    exact class_of_describes hclasses hdescribes (hperm.mem_iff.mp hg)
  · intro c hc hcounts hmany
    obtain ⟨g, hg, hmembers⟩ := describes_of_class hclasses hdescribes hc hcounts hmany
    exact ⟨g, hperm.mem_iff.mpr hg, hmembers⟩
  · intro c hc
    have hplaces := ((hperm.flatMap_right members).trans
      (perm_places hdescribes)).map fun file => file.entry.location
    rw [List.map_map] at hplaces
    rw [hplaces.count_eq]
    exact count_places hdistinct hclasses hc

-- ==== a concrete scan

/-- Four files in one directory: `a`, its hard link `b`, a copy `c` and
another file `d` of the same length and first byte. -/
def scanned (name : String) : EntryRef where
  id := 0
  location := ⟨"local", ⟨"", [name]⟩⟩

def scannedContent (location : Location) : Vfs.Bytes :=
  if location.uri.segments = ["d"] then [97, 99] else [97, 98]

/-- The SHA-256 digests of `ab`, of `ac` and of `a`. -/
def scannedDigests : Digests := fun _ bytes =>
  if bytes = [97, 98] then "fb8e20fc2e4c3f248c60c39bd652f3c1347298bb977b8b4d5903b85055620603"
  else if bytes = [97, 99] then "f45de51cdef30991551e41e882dd7b5404799648a0a00753f44fc966e6153fc1"
  else "ca978112ca1bbdcafac231b39a23dc4da786eff8147c4e72b9807785afee48bb"

def scannedIdentity (entry : EntryRef) : Option FileIdentity :=
  if entry.location.uri.segments = ["a"] ∨ entry.location.uri.segments = ["b"] then some ⟨1, 1⟩
  else if entry.location.uri.segments = ["c"] then some ⟨1, 2⟩
  else none

def scannedEnv : DuplicateEnv where
  providers := fun _ => {
    lists := fun _ => true
    pages := fun _ => .last []
    chunks := fun location => .ok [.ok (scannedContent location)]
    looks := fun _ => 1 }
  digests := scannedDigests
  token := .idle
  identityOf := scannedIdentity
  uriText := fun uri => uri.segments.foldl (fun text segment => text ++ "/" ++ segment) "file://"
  iterate := fun _ _ l => l.reverse
  iterate_perm := fun _ _ l => reverse_perm l

def scannedFiles : List DuplicateCandidate :=
  [⟨scanned "a", 2⟩, ⟨scanned "b", 2⟩, ⟨scanned "c", 2⟩, ⟨scanned "d", 2⟩]

def scannedOptions : DuplicateOptions where
  algorithm := .sha256
  partialHashBytes := 1

theorem sound_scanned : Sound scannedEnv scannedContent scannedOptions scannedFiles where
  sizes := by decide
  delivers := by
    intro look c hc chunks hchunks
    obtain rfl := ok.inj hchunks
    have hne : scannedContent c.entry.location ≠ [] := by
      unfold scannedContent
      split <;> exact cons_ne_nil _ _
    unfold Delivers
    rw [if_neg hne]
    exact ⟨[], (append_nil _).symm, rfl⟩
  identities := by decide
  digests := by
    rintro _ ⟨c, hc, rfl⟩ _ ⟨d, hd, rfl⟩ heq
    revert c d
    decide

theorem findDuplicates_scanned :
    findDuplicates scannedEnv scannedFiles scannedOptions 0
      = { outcome := .completed
          groups := [{
            fullHash := "fb8e20fc2e4c3f248c60c39bd652f3c1347298bb977b8b4d5903b85055620603"
            size := 2
            hardlinkClusters :=
              [⟨⟨1, 1⟩, [⟨scanned "a", 2, some ⟨1, 1⟩⟩, ⟨scanned "b", 2, some ⟨1, 1⟩⟩]⟩]
            distinctFiles := [⟨scanned "c", 2, some ⟨1, 2⟩⟩] }]
          stats := {
            candidates := 4
            sizeSurvivors := 4
            partiallyHashed := 3
            fullyHashed := 3
            bytesHashed := 9 }
          warnings := [] } := by
  decide +kernel

theorem duplicates_are_classes_scanned :
    ReportsClasses scannedEnv scannedContent scannedOptions scannedFiles
      (findDuplicates scannedEnv scannedFiles scannedOptions 0).groups :=
  duplicates_are_classes sound_scanned (by decide) 0 (by rw [findDuplicates_scanned])
    (by rw [findDuplicates_scanned])

end FileManager.Checksums
