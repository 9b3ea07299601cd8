/-
Staged duplicate detection (`fm-checksum`, `duplicates.rs`).

# What is open

`std`'s hash maps list their entries in an order of their own, which
differs from map to map: `iterate` is any rearrangement, and may depend
on the moment. The moments are the looks at the cancellation token.

# The walk

A scan (`engine.rs`) collects its candidates from the roots on. A
directory is remembered by its URI text. Here the segments of a URI are
the segments as written, so two spellings of one location are two URIs;
which location a spelling denotes is not known to the walk.
-/
import FileManager.Checksums.Hash
import FileManager.Lib.Buckets
import Mathlib.Algebra.GroupWithZero.Nat
import Mathlib.Data.List.Sort

namespace FileManager.Checksums

open Vfs (EntrySummary Providers Token)

-- ==== data

structure DuplicateCandidate where
  entry : EntryRef
  size : Nat

structure FileIdentity where
  device : Nat
  inode : Nat
deriving DecidableEq

structure FileEntry where
  entry : EntryRef
  size : Nat
  identity : Option FileIdentity
deriving DecidableEq

structure HardlinkCluster where
  identity : FileIdentity
  files : List FileEntry
deriving DecidableEq

structure DuplicateGroup where
  fullHash : String
  size : Nat
  hardlinkClusters : List HardlinkCluster
  distinctFiles : List FileEntry
deriving DecidableEq

structure DuplicateStats where
  candidates : Nat := 0
  sizeSurvivors : Nat := 0
  partiallyHashed : Nat := 0
  fullyHashed : Nat := 0
  bytesHashed : Nat := 0
  failed : Nat := 0
deriving DecidableEq

/-- The texts of `warnings`, by what they say: a file whose digest is
missing, or that could not be hashed. -/
inductive DuplicateWarning
  | noDigest (location : Location) (algorithm : ChecksumAlgorithm)
  | failed (location : Location) (error : ChecksumError)
deriving DecidableEq

inductive ScanOutcome
  | completed
  | cancelled
deriving DecidableEq

structure DuplicateScan where
  outcome : ScanOutcome
  groups : List DuplicateGroup
  stats : DuplicateStats
  warnings : List DuplicateWarning
deriving DecidableEq

structure DuplicateOptions where
  algorithm : ChecksumAlgorithm := .blake3
  partialHashBytes : Nat := 64 * 1024
  includeEmptyFiles : Bool := false

/-- What a scan runs against. -/
structure DuplicateEnv where
  providers : Nat → Providers
  digests : Digests
  token : Token
  /-- `FileIdentity::of`: the device and inode of a local file. -/
  identityOf : EntryRef → Option FileIdentity
  uriText : Uri → String
  /-- The order in which a hash map lists its entries. -/
  iterate : Nat → {α : Type} → List α → List α
  iterate_perm : ∀ (look : Nat) {α : Type} (l : List α), (iterate look l).Perm l

-- ==== stage 1

def firstSize (group : List DuplicateCandidate) : Nat :=
  (group.head?.map DuplicateCandidate.size).getD 0

/-- Whether a candidate takes part: empty files only if asked for. -/
def DuplicateOptions.counts (options : DuplicateOptions) (candidate : DuplicateCandidate) : Bool :=
  !(candidate.size = 0 && !options.includeEmptyFiles)

/-- `group_by_size`, without its counter. -/
def groupBySize (env : DuplicateEnv) (candidates : List DuplicateCandidate)
    (options : DuplicateOptions) (look : Nat) : List (List DuplicateCandidate) :=
  let bySize := Buckets.group DuplicateCandidate.size (candidates.filter options.counts)
  let groups := ((env.iterate look bySize).map Prod.snd).filter fun group => 1 < group.length
  groups.insertionSort fun left right => firstSize right ≤ firstSize left

-- ==== stages 2 and 3

structure Resolved where
  candidate : DuplicateCandidate
  identity : Option FileIdentity

def resolve (env : DuplicateEnv) (candidate : DuplicateCandidate) : Resolved where
  candidate := candidate
  identity := env.identityOf candidate.entry

/-- `stats` and `warnings`, which the stages write to. -/
structure Tally where
  stats : DuplicateStats
  warnings : List DuplicateWarning

inductive Outcome
  | digest (digest : String)
  | skipped
  | cancelled

/-- A file that is passed over, with a warning. -/
def Tally.fail (tally : Tally) (warning : DuplicateWarning) : Tally where
  stats := { tally.stats with failed := tally.stats.failed + 1 }
  warnings := tally.warnings ++ [warning]

def takeDigest (result : Except ChecksumError ChecksumSet) (algorithm : ChecksumAlgorithm)
    (candidate : DuplicateCandidate) (tally : Tally) : Outcome × Tally :=
  match result with
  | .ok set =>
    let tally := { tally with
      stats := { tally.stats with bytesHashed := tally.stats.bytesHashed + set.bytesHashed } }
    match set.get algorithm with
    | some digest => (.digest digest, tally)
    | none => (.skipped, tally.fail (.noDigest candidate.entry.location algorithm))
  | .error .cancelled => (.cancelled, tally)
  | .error error => (.skipped, tally.fail (.failed candidate.entry.location error))

/-- How a stage hashes a file, and the counter it keeps. -/
structure Hashing where
  limit : Option Nat
  count : DuplicateStats → DuplicateStats

/-- Within one group: the buckets, the digests known by identity, and
the tally. -/
structure Stage where
  buckets : List (String × List Resolved)
  digestByIdentity : List (FileIdentity × String)
  tally : Tally
  look : Nat

def Stage.push (stage : Stage) (digest : String) (member : Resolved) : Stage :=
  { stage with buckets := Buckets.push digest member stage.buckets }

/-- The digest known for an identity. -/
def Stage.cached (stage : Stage) (identity : Option FileIdentity) : Option String :=
  identity.bind fun identity =>
    (stage.digestByIdentity.find? fun known => known.1 = identity).map Prod.snd

/-- A new digest is kept under the identity of its file. -/
def Stage.remember (stage : Stage) (identity : Option FileIdentity) (digest : String) : Stage :=
  match identity with
  | some identity =>
    { stage with digestByIdentity := (identity, digest) :: stage.digestByIdentity }
  | none => stage

/-- The loop over one group, in `partial_hash_stage` and in
`full_hash_stage`; an error is a cancellation. -/
def hashMembers (env : DuplicateEnv) (options : DuplicateOptions) (hashing : Hashing) :
    List Resolved → Stage → Except Tally Stage
  | [], stage => .ok stage
  | member :: rest, stage =>
    if env.token.isCancelled stage.look then .error stage.tally
    else
      match stage.cached member.identity with
      | some digest =>
        hashMembers env options hashing rest
          ({ stage with look := stage.look + 1 }.push digest member)
      | none =>
        let now := stage.look + 1
        match hashEntryBounded env.digests (env.providers now) env.token
            member.candidate.entry [options.algorithm] hashing.limit now with
        | (result, look) =>
          match takeDigest result options.algorithm member.candidate stage.tally with
          | (.digest digest, tally) =>
            let tally := { tally with stats := hashing.count tally.stats }
            let stage := { stage with tally := tally, look := look }
            hashMembers env options hashing rest
              ((stage.remember member.identity digest).push digest member)
          | (.skipped, tally) =>
            hashMembers env options hashing rest { stage with tally := tally, look := look }
          | (.cancelled, tally) => .error tally

/-- A group at the beginning of its loop. -/
def Stage.new (tally : Tally) (look : Nat) : Stage where
  buckets := []
  digestByIdentity := []
  tally := tally
  look := look

/-- The groups of a stage, one after the other; `finish` makes the
results of a group from its buckets. -/
def hashGroups {β : Type} (env : DuplicateEnv) (options : DuplicateOptions) (hashing : Hashing)
    (finish : Nat → List (String × List Resolved) → List β) :
    List (List Resolved) → Tally → Nat → Except Tally (List β × Tally × Nat)
  | [], tally, look => .ok ([], tally, look)
  | group :: rest, tally, look =>
    match hashMembers env options hashing group (.new tally look) with
    | .error tally => .error tally
    | .ok stage =>
      match hashGroups env options hashing finish rest stage.tally stage.look with
      | .error tally => .error tally
      | .ok (more, tally, look) => .ok (finish stage.look stage.buckets ++ more, tally, look)

/-- The order of two URIs. -/
def DuplicateEnv.uriLe (env : DuplicateEnv) (left right : EntryRef) : Prop :=
  env.uriText left.location.uri ≤ env.uriText right.location.uri

instance (env : DuplicateEnv) (left right : EntryRef) : Decidable (env.uriLe left right) :=
  inferInstanceAs (Decidable (_ ≤ _))

/-- What stage 2 keeps of a group. -/
def prefixBuckets (env : DuplicateEnv) (look : Nat) (byPrefix : List (String × List Resolved)) :
    List (List Resolved) :=
  (((env.iterate look byPrefix).map Prod.snd).filter fun bucket => 1 < bucket.length).map
    (List.insertionSort fun left right => env.uriLe left.candidate.entry right.candidate.entry)

/-- The first bytes, counted as partially hashed. -/
def partialHashing (options : DuplicateOptions) : Hashing where
  limit := some options.partialHashBytes
  count := fun stats => { stats with partiallyHashed := stats.partiallyHashed + 1 }

def partialHashStage (env : DuplicateEnv) (options : DuplicateOptions)
    (sizeGroups : List (List DuplicateCandidate)) (tally : Tally) (look : Nat) :
    Except Tally (List (List Resolved) × Tally × Nat) :=
  hashGroups env options (partialHashing options) (prefixBuckets env)
    (sizeGroups.map (List.map (resolve env))) tally look

-- ==== groups

def fileEntry (member : Resolved) : FileEntry where
  entry := member.candidate.entry
  size := member.candidate.size
  identity := member.identity

def sortFiles (env : DuplicateEnv) (files : List FileEntry) : List FileEntry :=
  files.insertionSort fun left right => env.uriLe left.entry right.entry

/-- The order of the clusters: by device, then by inode. -/
def FileIdentity.le (left right : FileIdentity) : Prop :=
  left.device < right.device ∨ (left.device = right.device ∧ left.inode ≤ right.inode)

instance (left right : FileIdentity) : Decidable (left.le right) :=
  inferInstanceAs (Decidable (_ ∨ _))

def byIdentity (files : List FileEntry) : List (FileIdentity × List FileEntry) :=
  (files.foldl (fun buckets file =>
    match file.identity with
    | some identity => Buckets.push identity file buckets
    | none => buckets) [])

def buildGroup (env : DuplicateEnv) (look : Nat) (fullHash : String) (members : List Resolved) :
    DuplicateGroup :=
  let files := members.map fileEntry
  let unknown := files.filter fun file => file.identity.isNone
  let known := env.iterate look (byIdentity files)
  let clusters := known.filter fun bucket => 1 < bucket.2.length
  let alone := known.filter fun bucket => !(1 < bucket.2.length)
  { fullHash := fullHash
    size := (members.head?.map fun first => first.candidate.size).getD 0
    hardlinkClusters :=
      (clusters.map fun bucket => ⟨bucket.1, sortFiles env bucket.2⟩).insertionSort
        fun left right => left.identity.le right.identity
    distinctFiles := sortFiles env (unknown ++ alone.flatMap Prod.snd) }

/-- What stage 3 makes of a group. -/
def digestBuckets (env : DuplicateEnv) (look : Nat) (byDigest : List (String × List Resolved)) :
    List DuplicateGroup :=
  ((env.iterate look byDigest).filter fun bucket => !(bucket.2.length < 2)).map fun bucket =>
    buildGroup env look bucket.1 bucket.2

def fullHashing : Hashing where
  limit := none
  count := fun stats => { stats with fullyHashed := stats.fullyHashed + 1 }

/-- The order of the groups: the largest first, then by digest. -/
def DuplicateGroup.le (left right : DuplicateGroup) : Prop :=
  right.size < left.size ∨ (right.size = left.size ∧ left.fullHash ≤ right.fullHash)

instance (left right : DuplicateGroup) : Decidable (left.le right) :=
  inferInstanceAs (Decidable (_ ∨ _))

def fullHashStage (env : DuplicateEnv) (options : DuplicateOptions)
    (prefixGroups : List (List Resolved)) (tally : Tally) (look : Nat) :
    Except Tally (List DuplicateGroup × Tally × Nat) :=
  match hashGroups env options fullHashing (digestBuckets env) prefixGroups tally look with
  | .error tally => .error tally
  | .ok (groups, tally, look) => .ok (groups.insertionSort DuplicateGroup.le, tally, look)

-- ==== the scan

/-- `cancelled`: without groups. -/
def cancelledScan (tally : Tally) : DuplicateScan where
  outcome := .cancelled
  groups := []
  stats := tally.stats
  warnings := tally.warnings

/-- `find_duplicates`, from a look at the token on. -/
def findDuplicates (env : DuplicateEnv) (candidates : List DuplicateCandidate)
    (options : DuplicateOptions) (look : Nat) : DuplicateScan :=
  let sizeGroups := groupBySize env candidates options look
  let tally : Tally :=
    { stats := {
        candidates := candidates.length
        sizeSurvivors := (sizeGroups.map List.length).sum }
      warnings := [] }
  if env.token.isCancelled look then cancelledScan tally
  else
    match partialHashStage env options sizeGroups tally (look + 1) with
    | .error tally => cancelledScan tally
    | .ok (prefixGroups, tally, look) =>
      match fullHashStage env options prefixGroups tally look with
      | .error tally => cancelledScan tally
      | .ok (groups, tally, _) =>
        { outcome := .completed
          groups := groups
          stats := tally.stats
          warnings := tally.warnings }

-- ==== the walk

structure DuplicateScanOptions where
  detection : DuplicateOptions
  showHidden : Bool

/-- The state of `collect_candidates`; the top of the stack comes
first. -/
structure CandidateWalk where
  pending : List Location
  visited : List Uri
  candidates : List DuplicateCandidate
  look : Nat

open CandidateWalk

/-- An entry of a listed directory. -/
def CandidateWalk.meet (showHidden : Bool) (walk : CandidateWalk) (entry : EntrySummary) :
    CandidateWalk :=
  if !showHidden && entry.hidden then walk
  else
    match entry.kind with
    | .directory => { walk with pending := entry.location :: walk.pending }
    | .file => { walk with
        candidates := walk.candidates ++ [⟨entry.entry, entry.size.getD 0⟩] }
    | .symlink => walk

/-- A location whose turn it is: a directory that cannot be listed is
passed over. -/
def CandidateWalk.enter (env : DuplicateEnv) (showHidden : Bool) (walk : CandidateWalk)
    (location : Location) : CandidateWalk :=
  match (env.providers walk.look).listAll env.token location walk.look with
  | (none, look) => { walk with look := look }
  | (some entries, look) => entries.foldl (meet showHidden) { walk with look := look }

/-- The loop of `collect_candidates`; nothing if the fuel does not
last. -/
def CandidateWalk.loop (env : DuplicateEnv) (showHidden : Bool) :
    Nat → CandidateWalk → Option CandidateWalk
  | 0, _ => none
  | fuel + 1, walk =>
    match walk.pending with
    | [] => some walk
    | location :: pending =>
      if env.token.isCancelled walk.look then
        some { walk with pending := pending, look := walk.look + 1 }
      else if location.uri ∈ walk.visited then
        loop env showHidden fuel
          { walk with pending := pending, look := walk.look + 1 }
      else
        loop env showHidden fuel ({ walk with
            pending := pending
            visited := location.uri :: walk.visited
            look := walk.look + 1 }.enter env showHidden location)

/-- The start of the walk: the last root is on top. -/
def CandidateWalk.start (roots : List Location) : CandidateWalk where
  pending := roots.reverse
  visited := []
  candidates := []
  look := 0

def collectCandidates (env : DuplicateEnv) (showHidden : Bool) (roots : List Location)
    (fuel : Nat) : Option CandidateWalk :=
  loop env showHidden fuel (.start roots)

end FileManager.Checksums
