/-
What a completed duplicate scan without warnings says about the tree
below its roots.

# Three silences

The walk passes over a directory that it cannot list and gives a file of
unknown size the size zero; neither leaves a warning. It remembers
directories by their text, so a directory that is spelled in two ways is
walked twice, and its files are reported as copies of themselves unless
the system tells their identity. Where none of this occurs
(`Scannable`), the scan is safe to act on, and only there
(`safe_to_act_iff`).

# The argument

A scan that completes never saw its token fired, so its walk was
undisturbed (`walked_of_loop`) and expanded exactly the directories below
the roots (`Lib/Worklist`).
-/
import FileManager.Checksums.Proofs.Duplicates
import FileManager.Lib.Worklist
import Mathlib.Data.List.Pairwise

namespace FileManager.Checksums

open Vfs (EntrySummary)
open List
open CandidateWalk (meet enter loop)

variable {α : Type} {env : DuplicateEnv} {options : DuplicateScanOptions} {showHidden : Bool}
  {roots done : List Location} {walk walk' : CandidateWalk} {candidates : List DuplicateCandidate}
  {detection : DuplicateOptions} {x : FileEntry} {fuel look : Nat}

-- ==== the tree

/-- What is there: the entries of the directories, which of them can be
listed, which location a spelling denotes, and the contents. -/
structure ScanTree (α : Type) where
  children : Location → List EntrySummary
  listable : Location → Bool
  address : Location → α
  content : Location → Vfs.Bytes

/-- An entry that the scan is to look at. -/
def shown (showHidden : Bool) (entry : EntrySummary) : Bool := !(!showHidden && entry.hidden)

namespace ScanTree

variable {α : Type} (tree : ScanTree α) (showHidden : Bool)

/-- The directories in a directory. -/
def folders (location : Location) : List Location :=
  ((tree.children location).filter fun entry =>
    shown showHidden entry && entry.kind = .directory).map EntrySummary.location

/-- The regular files in a directory. -/
def files (location : Location) : List EntrySummary :=
  (tree.children location).filter fun entry => shown showHidden entry && entry.kind = .file

/-- The directories below the roots. -/
def Below (roots : List Location) : Location → Prop :=
  Worklist.Reaches (tree.folders showHidden) roots

end ScanTree

/-- The providers and the system show the tree: listings are whole or
fail, sizes are true where they are known, the entries of a directory
are different locations, and contents and identities belong to
locations, however these are spelled. -/
structure Presented (env : DuplicateEnv) (tree : ScanTree α) (showHidden : Bool)
    (roots : List Location) : Prop where
  listing : ∀ look location, (env.providers look).listing location
    = if tree.listable location then some (tree.children location) else none
  sizes : ∀ location, ∀ entry ∈ tree.children location, ∀ size, entry.kind = .file →
    entry.size = some size → size = (tree.content entry.location).length
  siblings : ∀ location,
    ((tree.children location).map fun entry => tree.address entry.location).Nodup
  delivers : ∀ look location chunks, (env.providers look).chunks location = .ok chunks →
    Delivers chunks (tree.content location)
  contents : ∀ location location', tree.address location = tree.address location' →
    tree.content location = tree.content location'
  identities : ∀ entry entry' : EntryRef,
    tree.address entry.location = tree.address entry'.location →
    env.identityOf entry = env.identityOf entry'
  links : ∀ (entry entry' : EntryRef) identity, env.identityOf entry = some identity →
    env.identityOf entry' = some identity →
    tree.content entry.location = tree.content entry'.location
  /-- A URI tells its provider. -/
  providers : ∀ location location', tree.Below showHidden roots location →
    tree.Below showHidden roots location' → location.uri = location'.uri → location = location'

def candidateOf (entry : EntrySummary) : DuplicateCandidate := ⟨entry.entry, entry.size.getD 0⟩

/-- A scan that may be acted on: every regular file below the roots has
been considered with its size, no group shows one location as two
copies, and what could not be listed or sized has left a warning. -/
structure SafeToAct (tree : ScanTree α) (showHidden : Bool) (roots : List Location)
    (candidates : List DuplicateCandidate) (scan : DuplicateScan) : Prop where
  considered : ∀ location, tree.Below showHidden roots location →
    ∀ entry ∈ tree.files showHidden location,
      ∃ c ∈ candidates, c.entry = entry.entry ∧ entry.size = some c.size
  copies : ∀ group ∈ scan.groups, group.copies.Pairwise fun copy copy' =>
    ∀ file ∈ copy, ∀ file' ∈ copy',
      tree.address file.entry.location ≠ tree.address file'.entry.location
  unlisted : ∀ location, tree.Below showHidden roots location →
    tree.listable location = false → scan.warnings ≠ []
  unsized : ∀ location, tree.Below showHidden roots location →
    ∀ entry ∈ tree.files showHidden location, entry.size = none → scan.warnings ≠ []

/-- The trees and roots a scan can be trusted on: everything below the
roots is listed and sized, and a file that is below them under two
directory texts has an identity. -/
structure Scannable (env : DuplicateEnv) (tree : ScanTree α) (options : DuplicateScanOptions)
    (roots : List Location) : Prop where
  listed : ∀ location, tree.Below options.showHidden roots location →
    tree.listable location = true
  sized : ∀ location, tree.Below options.showHidden roots location →
    ∀ entry ∈ tree.files options.showHidden location, entry.size ≠ none
  told : ∀ location location', tree.Below options.showHidden roots location →
    tree.Below options.showHidden roots location' → location ≠ location' →
    ∀ entry ∈ tree.files options.showHidden location,
    ∀ entry' ∈ tree.files options.showHidden location',
      options.detection.counts (candidateOf entry) →
      options.detection.counts (candidateOf entry') →
      tree.address entry.location = tree.address entry'.location →
      env.identityOf entry.entry ≠ none

variable {tree : ScanTree α}

-- ==== the walk

/-- The directories the walk finds in a directory, the last on top. -/
def foundFolders (tree : ScanTree α) (showHidden : Bool) (location : Location) : List Location :=
  if tree.listable location then (tree.folders showHidden location).reverse else []

/-- The candidates it finds there. -/
def foundFiles (tree : ScanTree α) (showHidden : Bool) (location : Location) :
    List DuplicateCandidate :=
  if tree.listable location then (tree.files showHidden location).map candidateOf else []

theorem foldl_meet (showHidden : Bool) (entries : List EntrySummary) (walk : CandidateWalk) :
    entries.foldl (meet showHidden) walk = { walk with
          pending := ((entries.filter fun entry =>
            shown showHidden entry && entry.kind = .directory).map EntrySummary.location).reverse
              ++ walk.pending
          candidates := walk.candidates ++ (entries.filter fun entry =>
            shown showHidden entry && entry.kind = .file).map candidateOf } := by
  induction entries generalizing walk with
  | nil => simp
  | cons entry rest ih =>
    rw [foldl_cons, ih]
    unfold meet
    by_cases hhidden : (!showHidden && entry.hidden) = true
    · have hshown : shown showHidden entry = false := by
        unfold shown
        rw [hhidden]
        rfl
      simp [hhidden, hshown]
    · have hshown : shown showHidden entry = true := by
        unfold shown
        rw [Bool.not_eq_true] at hhidden
        rw [hhidden]
        rfl
      rw [if_neg hhidden]
      cases hkind : entry.kind <;> simp [hshown, hkind, candidateOf]

/-- The walk after it has entered the directories `done`. -/
structure Walked (tree : ScanTree α) (showHidden : Bool) (roots : List Location)
    (walk : CandidateWalk) (done : List Location) : Prop where
  inv : Worklist.Inv Location.uri (foundFolders tree showHidden) roots.reverse ⟨walk.pending, done⟩
  visited : ∀ uri, uri ∈ walk.visited ↔ uri ∈ done.map Location.uri
  candidates : walk.candidates = done.flatMap (foundFiles tree showHidden)

theorem le_enter (env : DuplicateEnv) (showHidden : Bool) (walk : CandidateWalk) (location :
    Location) :
    walk.look ≤ (walk.enter env showHidden location).look := by
  have hle := (env.providers walk.look).le_listAll location env.token walk.look
  unfold enter
  generalize (env.providers walk.look).listAll env.token location walk.look = listed at hle ⊢
  obtain ⟨entries, look⟩ := listed
  cases entries with
  | none => exact hle
  | some entries =>
    simp only
    rw [foldl_meet]
    exact hle

theorem le_loop (h : walk.loop env showHidden fuel = some walk') : walk.look ≤ walk'.look := by
  induction fuel generalizing walk with
  | zero => cases h
  | succ fuel ih =>
    unfold loop at h
    cases hpending : walk.pending with
    | nil =>
      rw [hpending] at h
      obtain rfl := Option.some.inj h
      exact le_rfl
    | cons location pending =>
      rw [hpending] at h
      simp only at h
      split at h
      case isTrue =>
        obtain rfl := Option.some.inj h
        exact Nat.le_succ _
      case isFalse =>
        split at h
        case isTrue => exact Nat.le_of_succ_le (ih h)
        case isFalse =>
          have hentered := le_enter env showHidden { walk with
              pending := pending
              visited := location.uri :: walk.visited
              look := walk.look + 1 } location
          exact Nat.le_of_succ_le (Nat.le_trans hentered (ih h))

theorem enter_eq (hlisting : ∀ look location, (env.providers look).listing location
      = if tree.listable location then some (tree.children location) else none)
    (walk : CandidateWalk) (location : Location)
    (hidle : env.token.isCancelled (walk.enter env showHidden location).look = false) :
    (walk.enter env showHidden location).pending
        = foundFolders tree showHidden location ++ walk.pending
      ∧ (walk.enter env showHidden location).candidates
        = walk.candidates ++ foundFiles tree showHidden location
      ∧ (walk.enter env showHidden location).visited = walk.visited := by
  have hdisturbed := (env.providers walk.look).undisturbed_listAll location env.token walk.look
  have hidleList := (env.providers walk.look).listAll_idle location walk.look
  rw [hlisting] at hidleList
  have hlook : (walk.enter env showHidden location).look
      = ((env.providers walk.look).listAll env.token location walk.look).2 := by
    unfold enter
    generalize (env.providers walk.look).listAll env.token location walk.look = listed
    obtain ⟨entries, look⟩ := listed
    cases entries with
    | none => rfl
    | some entries => simp only; rw [foldl_meet]
  rw [hlook] at hidle
  rcases hdisturbed with hsame | hfired
  · rw [← hsame] at hidleList
    unfold enter foundFolders foundFiles
    generalize (env.providers walk.look).listAll env.token location walk.look = listed
      at hidleList ⊢
    obtain ⟨entries, look⟩ := listed
    simp only at hidleList
    subst hidleList
    cases hlistable : tree.listable location with
    | false => simp
    | true =>
      simp only [if_true]
      rw [foldl_meet]
      exact ⟨rfl, rfl, rfl⟩
  · simp [hfired] at hidle

theorem walked_of_loop
    (hlisting : ∀ look location, (env.providers look).listing location
      = if tree.listable location then some (tree.children location) else none)
    (hwalked : Walked tree showHidden roots walk done)
    (h : walk.loop env showHidden fuel = some walk')
    (hidle : env.token.isCancelled walk'.look = false) :
    walk'.pending = [] ∧ ∃ done', Walked tree showHidden roots walk' done' := by
  have hnever : ∀ look, look ≤ walk'.look → env.token.isCancelled look = false := by
    intro look hle
    cases hfired : env.token.isCancelled look with
    | false => rfl
    | true => rw [env.token.isCancelled_mono hle hfired] at hidle; cases hidle
  induction fuel generalizing walk done with
  | zero => cases h
  | succ fuel ih =>
    have hle := le_loop h
    unfold loop at h
    cases hpending : walk.pending with
    | nil =>
      rw [hpending] at h
      obtain rfl := Option.some.inj h
      exact ⟨hpending, done, hwalked⟩
    | cons location pending =>
      rw [hpending] at h
      simp only at h
      rw [if_neg (by rw [hnever _ hle]; exact Bool.false_ne_true)] at h
      have hstate : (⟨walk.pending, done⟩ : Worklist.State Location).pending
          = location :: pending := hpending
      have hinv := hwalked.inv.step
      rcases Worklist.step_cases Location.uri (foundFolders tree showHidden) hstate with
        ⟨hvisited, hstep⟩ | ⟨hnew, hstep⟩
      · rw [if_pos ((hwalked.visited _).mpr hvisited)] at h
        rw [hstep] at hinv
        have hnext : Walked tree showHidden roots
            { walk with pending := pending, look := walk.look + 1 } done :=
          ⟨hinv, hwalked.visited, hwalked.candidates⟩
        exact ih hnext h
      · rw [if_neg fun hin => hnew ((hwalked.visited _).mp hin)] at h
        rw [hstep] at hinv
        obtain ⟨hfolders, hfiles, hsame⟩ := enter_eq hlisting _ location (hnever _ (le_loop h))
        refine ih (?_ : Walked tree showHidden roots _ (done ++ [location])) h
        refine ⟨?_, ?_, ?_⟩
        · rw [hfolders]
          exact hinv
        · intro uri
          rw [hsame, mem_cons, hwalked.visited]
          simp [or_comm]
        · rw [hfiles, flatMap_append, ← hwalked.candidates]
          simp

theorem idle_of_completed
    (h : (findDuplicates env candidates detection look).outcome = .completed) :
    env.token.isCancelled look = false := by
  cases hfired : env.token.isCancelled look with
  | false => rfl
  | true =>
    unfold findDuplicates at h
    simp only [hfired, if_true] at h
    cases h

/-- Where everything can be listed, the walk has entered exactly the
directories below the roots. -/
structure Entered (tree : ScanTree α) (showHidden : Bool) (roots : List Location)
    (candidates : List DuplicateCandidate) (done : List Location) : Prop where
  below : ∀ location, location ∈ done ↔ tree.Below showHidden roots location
  nodup : done.Nodup
  candidates : candidates
    = done.flatMap fun location => (tree.files showHidden location).map candidateOf

theorem reaches_iff_below
    (hlisted : ∀ location, tree.Below showHidden roots location → tree.listable location = true)
    (location : Location) :
    Worklist.Reaches (foundFolders tree showHidden) roots.reverse location
      ↔ tree.Below showHidden roots location := by
  constructor
  · refine Worklist.Reaches.mono (fun _ h => mem_reverse.mp h) ?_
    intro folder _ child hchild
    unfold foundFolders at hchild
    split at hchild
    case isTrue => exact mem_reverse.mp hchild
    case isFalse => cases hchild
  · refine Worklist.Reaches.mono (fun _ h => mem_reverse.mpr h) ?_
    intro folder hfolder child hchild
    unfold foundFolders
    rw [if_pos (hlisted folder hfolder)]
    exact mem_reverse.mpr hchild

theorem entered_of_walked (hpresented : Presented env tree showHidden roots)
    (hlisted : ∀ location, tree.Below showHidden roots location → tree.listable location = true)
    (hwalked : Walked tree showHidden roots walk done) (hempty : walk.pending = []) :
    Entered tree showHidden roots walk.candidates done := by
  have hbelow : ∀ location, location ∈ done ↔ tree.Below showHidden roots location := by
    intro location
    rw [← reaches_iff_below hlisted]
    refine hwalked.inv.mem_done_iff hempty ?_ location
    intro d d' hd hd' huri
    exact hpresented.providers d d' ((reaches_iff_below hlisted d).mp hd)
      ((reaches_iff_below hlisted d').mp hd') huri
  refine ⟨hbelow, hwalked.inv.nodup.of_map _, ?_⟩
  rw [hwalked.candidates]
  refine flatMap_congr ?_
  intro location hlocation
  unfold foundFiles
  rw [if_pos (hlisted location ((hbelow location).mp hlocation))]

-- ==== the copies

/-- Two paths of one location that the system can tell to be one. -/
def Told (tree : ScanTree α) (x y : FileEntry) : Prop :=
  tree.address x.entry.location = tree.address y.entry.location →
    x.identity ≠ none ∧ y.identity ≠ none

theorem Told.symm {y : FileEntry} (h : Told tree x y) : Told tree y x := fun heq =>
  (h heq.symm).symm

/-- A group shows no location as two copies exactly if its paths of one
location have an identity. -/
theorem copies_iff_told {group : DuplicateGroup} (hclustered : Clustered group)
    (hidentity : ∀ x ∈ group.members, ∀ y ∈ group.members,
      tree.address x.entry.location = tree.address y.entry.location → x.identity = y.identity) :
    (group.copies.Pairwise fun copy copy' => ∀ file ∈ copy, ∀ file' ∈ copy',
        tree.address file.entry.location ≠ tree.address file'.entry.location)
      ↔ group.members.Pairwise (Told tree) := by
  rw [← group.flatten_copies, pairwise_flatten]
  constructor
  · intro hcopies
    refine ⟨?_, hcopies.imp fun hne x hx y hy heq => absurd heq (hne x hx y hy)⟩
    intro copy hcopy
    rcases mem_append.mp hcopy with hdistinct | hcluster
    · obtain ⟨file, -, rfl⟩ := mem_map.mp hdistinct
      exact pairwise_singleton _ _
    · obtain ⟨cluster, hmem, rfl⟩ := mem_map.mp hcluster
      refine pairwise_of_forall_mem_list ?_
      intro x hx y hy _
      rw [hclustered.identities cluster hmem x hx, hclustered.identities cluster hmem y hy]
      exact ⟨Option.some_ne_none _, Option.some_ne_none _⟩
  · rintro ⟨-, htold⟩
    refine List.Pairwise.imp_of_mem ?_ (htold.and hclustered.apart)
    intro copy copy' hcopy hcopy' h x hx y hy heq
    have hx' : x ∈ group.members := by
      rw [← group.flatten_copies]
      exact mem_flatten.mpr ⟨copy, hcopy, hx⟩
    have hy' : y ∈ group.members := by
      rw [← group.flatten_copies]
      exact mem_flatten.mpr ⟨copy', hcopy', hy⟩
    exact h.2 x hx y hy ⟨(h.1 x hx y hy heq).1, hidentity x hx' y hy' heq⟩

theorem truthful_of_presented (hpresented : Presented env tree showHidden roots)
    (candidates : List DuplicateCandidate) : Truthful env tree.content candidates where
  delivers look c _ chunks hchunks := hpresented.delivers look c.entry.location chunks hchunks
  identities c _ d _ identity hc hd := hpresented.links c.entry d.entry identity hc hd

theorem identity_of_fileEntry (h : x ∈ (counted env detection candidates).map fileEntry) :
    x.identity = env.identityOf x.entry := by
  obtain ⟨m, hm, rfl⟩ := mem_map.mp h
  obtain ⟨c, -, rfl⟩ := mem_map.mp hm
  rfl

/-- The groups show no location as two copies exactly if all candidates
of one location have an identity: two of them have the same bytes, so
they are in one group. -/
theorem groups_iff_counted (hpresented : Presented env tree showHidden roots)
    (hsizes : ∀ c ∈ candidates, c.size = (tree.content c.entry.location).length)
    (hcompleted : (findDuplicates env candidates detection look).outcome = .completed)
    (hnone : (findDuplicates env candidates detection look).warnings = []) :
    (∀ group ∈ (findDuplicates env candidates detection look).groups,
        group.copies.Pairwise fun copy copy' => ∀ file ∈ copy, ∀ file' ∈ copy',
          tree.address file.entry.location ≠ tree.address file'.entry.location)
      ↔ (counted env detection candidates).Pairwise
        fun x y => Told tree (fileEntry x) (fileEntry y) := by
  obtain ⟨groups, classes, hperm, hclasses, hdescribes⟩ :=
    describes_keys (truthful_of_presented hpresented candidates) hcompleted hnone
  rw [← hclasses.pairwise_iff (fun h => h.symm) ?_]
  · -- group by group and class by class
    have hgroup : ∀ {group : DuplicateGroup} {c : List Resolved}, c ∈ classes →
        Describes (digestOf env tree.content detection none) group c →
        ((group.copies.Pairwise fun copy copy' => ∀ file ∈ copy, ∀ file' ∈ copy',
          tree.address file.entry.location ≠ tree.address file'.entry.location)
          ↔ c.Pairwise fun x y => Told tree (fileEntry x) (fileEntry y)) := by
      intro group c hc hdescribed
      rw [copies_iff_told hdescribed.clustered, hdescribed.members.pairwise_iff fun h => h.symm,
        pairwise_map]
      intro x hx y hy heq
      have hmember : ∀ z ∈ group.members, z.identity = env.identityOf z.entry := by
        intro z hz
        obtain ⟨m, hm, rfl⟩ := mem_map.mp (hdescribed.members.mem_iff.mp hz)
        exact identity_of_fileEntry (mem_map_of_mem (hclasses.perm_having hc hm).1)
      rw [hmember x hx, hmember y hy]
      exact hpresented.identities x.entry y.entry heq
    constructor
    · intro hcopies c hc
      obtain ⟨group, hmem, hdescribed⟩ := Buckets.exists_left_of_forall₂ hdescribes hc
      exact (hgroup hc hdescribed).mp (hcopies group (hperm.mem_iff.mpr hmem))
    · intro htold group hmem
      obtain ⟨c, hc, hdescribed⟩ :=
        Buckets.exists_left_of_forall₂ hdescribes.flip (hperm.mem_iff.mp hmem)
      exact (hgroup hc hdescribed).mpr (htold c hc)
  · intro x hx y hy hne heq
    obtain ⟨c, hc, rfl⟩ := known_of_mem_counted hx
    obtain ⟨d, hd, rfl⟩ := known_of_mem_counted hy
    have hcontent := hpresented.contents _ _ heq
    refine absurd (stageKeys_congr ?_ hcontent) hne
    show c.size = d.size
    rw [hsizes c hc, hsizes d hd]
    exact congrArg List.length hcontent

theorem counted_iff_told (hpresented : Presented env tree options.showHidden roots)
    (hentered : Entered tree options.showHidden roots candidates done) :
    ((counted env options.detection candidates).Pairwise
        fun x y => Told tree (fileEntry x) (fileEntry y))
      ↔ ∀ location location', tree.Below options.showHidden roots location →
        tree.Below options.showHidden roots location' → location ≠ location' →
        ∀ entry ∈ tree.files options.showHidden location,
        ∀ entry' ∈ tree.files options.showHidden location',
          options.detection.counts (candidateOf entry) →
          options.detection.counts (candidateOf entry') →
          tree.address entry.location = tree.address entry'.location →
          env.identityOf entry.entry ≠ none := by
  unfold counted
  rw [hentered.candidates, pairwise_map, filter_flatMap, pairwise_flatMap]
  have hmem : ∀ {location : Location} {c : DuplicateCandidate},
      c ∈ ((tree.files options.showHidden location).map candidateOf).filter
        options.detection.counts
      ↔ ∃ entry ∈ tree.files options.showHidden location,
        c = candidateOf entry ∧ options.detection.counts (candidateOf entry) := by
    intro location c
    rw [mem_filter, mem_map]
    constructor
    · rintro ⟨⟨entry, hentry, rfl⟩, hcounts⟩
      exact ⟨entry, hentry, rfl, hcounts⟩
    · rintro ⟨entry, hentry, rfl, hcounts⟩
      exact ⟨⟨entry, hentry, rfl⟩, hcounts⟩
  constructor
  · rintro ⟨-, hacross⟩ location location' hbelow hbelow' hne entry hentry entry' hentry' hcounts
      hcounts' heq
    have : Std.Symm fun location location' : Location =>
        ∀ x ∈ ((tree.files options.showHidden location).map candidateOf).filter
          options.detection.counts,
        ∀ y ∈ ((tree.files options.showHidden location').map candidateOf).filter
          options.detection.counts,
          Told tree (fileEntry (resolve env x)) (fileEntry (resolve env y)) :=
      ⟨fun _ _ h x hx y hy => (h y hy x hx).symm⟩
    exact (hacross.forall ((hentered.below location).mpr hbelow)
      ((hentered.below location').mpr hbelow') hne (candidateOf entry)
      (hmem.mpr ⟨entry, hentry, rfl, hcounts⟩) (candidateOf entry')
      (hmem.mpr ⟨entry', hentry', rfl, hcounts'⟩) heq).1
  · intro htold
    refine ⟨?_, ?_⟩
    · -- the entries of one directory are different locations
      intro location _
      refine List.Pairwise.filter _ ?_
      rw [pairwise_map]
      have hdifferent := pairwise_map.mp (hpresented.siblings location)
      exact (hdifferent.filter _).imp fun hne heq => absurd heq hne
    · refine List.Pairwise.imp_of_mem ?_ hentered.nodup
      intro location location' hlocation hlocation' hne x hx y hy heq
      obtain ⟨entry, hentry, rfl, hcounts⟩ := hmem.mp hx
      obtain ⟨entry', hentry', rfl, hcounts'⟩ := hmem.mp hy
      have hknown := htold location location' ((hentered.below location).mp hlocation)
        ((hentered.below location').mp hlocation') hne entry hentry entry' hentry' hcounts
        hcounts' heq
      refine ⟨hknown, ?_⟩
      have hsame := hpresented.identities entry.entry entry'.entry heq
      show env.identityOf entry'.entry ≠ none
      rw [← hsame]
      exact hknown

-- ==== the result

/-- A completed scan without warnings may be acted on exactly if the
tree and the roots are such that nothing is passed over in silence. -/
theorem safe_to_act_iff (hpresented : Presented env tree options.showHidden roots) {fuel : Nat}
    {walk : CandidateWalk}
    (hwalk : collectCandidates env options.showHidden roots fuel = some walk)
    (hcompleted :
      (findDuplicates env walk.candidates options.detection walk.look).outcome = .completed)
    (hnone : (findDuplicates env walk.candidates options.detection walk.look).warnings = []) :
    SafeToAct tree options.showHidden roots walk.candidates
        (findDuplicates env walk.candidates options.detection walk.look)
      ↔ Scannable env tree options roots := by
  have hstart : Walked tree options.showHidden roots (.start roots) [] :=
    ⟨Worklist.Inv.start _ _ _, fun uri => by simp [CandidateWalk.start], rfl⟩
  obtain ⟨hempty, done, hwalked⟩ := walked_of_loop hpresented.listing hstart hwalk
    (idle_of_completed hcompleted)
  -- with everything listed and sized, the candidates are the files below the roots
  have hcopies : (∀ location, tree.Below options.showHidden roots location →
        tree.listable location = true) →
      (∀ location, tree.Below options.showHidden roots location →
        ∀ entry ∈ tree.files options.showHidden location, entry.size ≠ none) →
      Entered tree options.showHidden roots walk.candidates done
      ∧ ∀ c ∈ walk.candidates, c.size = (tree.content c.entry.location).length := by
    intro hlisted hsized
    have hentered := entered_of_walked hpresented hlisted hwalked hempty
    refine ⟨hentered, ?_⟩
    intro c hc
    rw [hentered.candidates] at hc
    obtain ⟨location, hlocation, hmem⟩ := List.mem_flatMap.mp hc
    obtain ⟨entry, hentry, rfl⟩ := List.mem_map.mp hmem
    obtain ⟨size, hsize⟩ := Option.ne_none_iff_exists'.mp
      (hsized location ((hentered.below location).mp hlocation) entry hentry)
    obtain ⟨hchild, hkind⟩ := List.mem_filter.mp hentry
    simp only [Bool.and_eq_true, decide_eq_true_eq] at hkind
    show entry.size.getD 0 = _
    rw [hsize]
    exact hpresented.sizes location entry hchild size hkind.2 hsize
  constructor
  · intro hsafe
    have hlisted : ∀ location, tree.Below options.showHidden roots location →
        tree.listable location = true := by
      intro location hbelow
      cases hlistable : tree.listable location with
      | true => rfl
      | false => exact absurd hnone (hsafe.unlisted location hbelow hlistable)
    have hsized : ∀ location, tree.Below options.showHidden roots location →
        ∀ entry ∈ tree.files options.showHidden location, entry.size ≠ none :=
      fun location hbelow entry hentry hsize =>
        hsafe.unsized location hbelow entry hentry hsize hnone
    obtain ⟨hentered, hsizes⟩ := hcopies hlisted hsized
    refine ⟨hlisted, hsized, ?_⟩
    exact (counted_iff_told hpresented hentered).mp
      ((groups_iff_counted hpresented hsizes hcompleted hnone).mp hsafe.copies)
  · intro hscannable
    obtain ⟨hentered, hsizes⟩ := hcopies hscannable.listed hscannable.sized
    refine ⟨?_, ?_, ?_, ?_⟩
    · intro location hbelow entry hentry
      refine ⟨candidateOf entry, ?_, rfl, ?_⟩
      · rw [hentered.candidates]
        exact List.mem_flatMap.mpr ⟨location, (hentered.below location).mpr hbelow,
          List.mem_map_of_mem hentry⟩
      · obtain ⟨size, hsize⟩ := Option.ne_none_iff_exists'.mp
          (hscannable.sized location hbelow entry hentry)
        show entry.size = some (entry.size.getD 0)
        rw [hsize]
        rfl
    · exact (groups_iff_counted hpresented hsizes hcompleted hnone).mpr
        ((counted_iff_told hpresented hentered).mpr hscannable.told)
    · intro location hbelow hunlisted
      rw [hscannable.listed location hbelow] at hunlisted
      cases hunlisted
    · intro location hbelow entry hentry hunsized
      exact absurd hunsized (hscannable.sized location hbelow entry hentry)

-- ==== concrete scans

def scanRoot : Location := ⟨"local", ⟨"", ["r"]⟩⟩

def rootFile (name : String) : EntrySummary where
  id := 0
  location := ⟨"local", ⟨"", ["r", name]⟩⟩
  name := name
  kind := .file
  size := some 2
  modifiedAt := none
  hidden := false

/-- One directory with two files `ab`. -/
def rootTree (listable : Bool) : ScanTree (List String) where
  children := fun location =>
    if location = scanRoot then [rootFile "a", rootFile "b"] else []
  listable := fun _ => listable
  address := fun location => location.uri.segments
  content := fun _ => [97, 98]

/-- The local provider over it, which may be refused the directory. -/
def rootEnv (listable : Bool) : DuplicateEnv where
  providers := fun _ => {
    lists := fun _ => true
    pages := fun location =>
      if listable then .last ((rootTree listable).children location)
      else .fails (.permissionDenied location)
    chunks := fun _ => .ok [.ok [97, 98]]
    looks := fun _ => 1 }
  digests := scannedDigests
  token := .idle
  identityOf := fun entry => if entry.location.uri.segments = ["r", "a"] then some ⟨1, 1⟩ else none
  uriText := fun uri => uri.segments.foldl (fun text segment => text ++ "/" ++ segment) "file://"
  iterate := fun _ _ l => l
  iterate_perm := fun _ _ l => List.Perm.refl l

def rootOptions : DuplicateScanOptions where
  detection := scannedOptions
  showHidden := true

theorem below_rootTree {listable : Bool} {location : Location}
    (h : (rootTree listable).Below true [scanRoot] location) : location = scanRoot := by
  have hfolders : ∀ location, (rootTree listable).folders true location = [] := by
    intro location
    unfold ScanTree.folders rootTree
    simp only
    split <;> rfl
  cases h with
  | root hmem => exact mem_singleton.mp hmem
  | child _ hmem =>
    simp [hfolders] at hmem

theorem presented_root (listable : Bool) :
    Presented (rootEnv listable) (rootTree listable) true [scanRoot] where
  listing := by
    intro look location
    cases listable <;> rfl
  sizes := by
    intro location entry hentry size _ hsize
    unfold rootTree at hentry
    simp only at hentry
    split at hentry
    case isFalse => cases hentry
    case isTrue =>
      have htwo : entry.size = some 2 := by
        simp only [mem_cons, not_mem_nil, or_false] at hentry
        rcases hentry with rfl | rfl <;> rfl
      rw [htwo] at hsize
      exact (Option.some.inj hsize).symm
  siblings := by
    intro location
    unfold rootTree
    simp only
    split
    case isTrue => decide
    case isFalse => exact nodup_nil
  delivers := by
    intro look location chunks hchunks
    obtain rfl := Except.ok.inj hchunks
    exact ⟨[], rfl, rfl⟩
  contents := fun _ _ _ => rfl
  identities := by
    intro entry entry' heq
    unfold rootEnv
    simp only
    rw [show entry.location.uri.segments = entry'.location.uri.segments from heq]
  links := fun _ _ _ _ _ => rfl
  providers := by
    intro location location' h h' _
    rw [below_rootTree h, below_rootTree h']

theorem scannable_root : Scannable (rootEnv true) (rootTree true) rootOptions [scanRoot] where
  listed := fun _ _ => rfl
  sized := by
    intro location hbelow entry hentry
    rw [below_rootTree hbelow] at hentry
    revert entry
    decide
  told := by
    intro location location' h h' hne
    rw [below_rootTree h, below_rootTree h'] at hne
    exact absurd rfl hne

/-- A directory with two equal files is scanned, and the result may be
acted on. -/
theorem safe_to_act_two_files : ∃ walk,
    collectCandidates (rootEnv true) rootOptions.showHidden [scanRoot] 2 = some walk
      ∧ walk.candidates = [⟨(rootFile "a").entry, 2⟩, ⟨(rootFile "b").entry, 2⟩]
      ∧ SafeToAct (rootTree true) rootOptions.showHidden [scanRoot] walk.candidates
        (findDuplicates (rootEnv true) walk.candidates rootOptions.detection walk.look) := by
  have hwalk : collectCandidates (rootEnv true) rootOptions.showHidden [scanRoot] 2 = some {
          pending := []
          visited := [scanRoot.uri]
          candidates := [⟨(rootFile "a").entry, 2⟩, ⟨(rootFile "b").entry, 2⟩]
          look := 3 } := rfl
  refine ⟨_, hwalk, rfl, ?_⟩
  refine (safe_to_act_iff (presented_root true) hwalk ?_ ?_).mpr scannable_root <;> decide +kernel

/-- A directory that may not be listed is passed over without a word: the
scan completes without warnings and has considered nothing. -/
theorem locked_directory_unnoticed : ∃ walk,
    Presented (rootEnv false) (rootTree false) true [scanRoot]
      ∧ collectCandidates (rootEnv false) true [scanRoot] 2 = some walk
      ∧ (findDuplicates (rootEnv false) walk.candidates scannedOptions walk.look).outcome
        = .completed
      ∧ (findDuplicates (rootEnv false) walk.candidates scannedOptions walk.look).warnings = []
      ∧ ¬ SafeToAct (rootTree false) true [scanRoot] walk.candidates
        (findDuplicates (rootEnv false) walk.candidates scannedOptions walk.look) := by
  refine ⟨_, presented_root false, rfl, rfl, rfl, ?_⟩
  intro hsafe
  exact hsafe.unlisted scanRoot (.root (List.mem_singleton.mpr rfl)) rfl rfl

end FileManager.Checksums
