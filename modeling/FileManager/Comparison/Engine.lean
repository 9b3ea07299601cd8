/-
The comparison engine (`fm-comparison`, `engine.rs` and `store.rs`): the
traversal of two trees in step, directory pair by directory pair.

Hash maps are lists without repeated keys. Of the clock, `elapsed` says
after which entries the batch interval has passed. The progress events
of an operation are left out, they carry the count of entries only.
-/
import FileManager.Comparison.Model
import FileManager.Checksums.Hash

namespace FileManager.Comparison

open Vfs (EntrySummary Providers Token)
open Checksums (Digests)

def batchSize : Nat := 500

structure ComparisonOptions where
  criteria : ComparisonCriteria
  showHidden : Bool

structure PendingDir where
  relativePath : String
  left : Location
  right : Location

/-- `ComparisonResultsBatch`. -/
structure Batch where
  entries : List ComparisonEntry
  isComplete : Bool
  warningsCount : Nat

/-- `ComparisonState`, as far as the traversal writes it. -/
structure ComparisonState where
  entries : List ComparisonEntry
  complete : Bool
  warningsCount : Nat

/-- `ComparisonResultsStore::append`. -/
def ComparisonState.append (state : ComparisonState) (entries : List ComparisonEntry)
    (warningsCount : Nat) : ComparisonState :=
  { state with entries := state.entries ++ entries, warningsCount := warningsCount }

/-- `ComparisonResultsStore::mark_complete`. -/
def ComparisonState.markComplete (state : ComparisonState) : ComparisonState :=
  { state with complete := true }

/-- What a comparison runs against. -/
structure Env where
  providers : Providers
  digests : Digests
  token : Token
  /-- Whether the batch interval has passed after this many entries. -/
  elapsed : Nat → Bool

/-- The variables of `run_comparison`, the store's state and the batches
published. -/
structure Traversal where
  stack : List PendingDir
  visited : List (Location × Location)
  buffer : List ComparisonEntry
  warningsCount : Nat
  comparedCount : Nat
  store : ComparisonState
  batches : List Batch
  /-- The number of the next look at the token. -/
  look : Nat

/-- `index_by_name`: of two entries with one name the later. -/
def indexByName (entries : List EntrySummary) (showHidden : Bool) : List (String × EntrySummary) :=
  (entries.filter fun entry => showHidden || !entry.hidden).foldl
    (fun index entry => Keyed.put index entry.name entry) []

/-- The names of both maps, in order. -/
def namesOf (left right : List (String × EntrySummary)) : List String :=
  (left.map Prod.fst ++ right.map Prod.fst).dedup.mergeSort fun a b => a ≤ b

def sideFrom (entry : EntrySummary) (contentHash : Option String) : ComparisonEntrySide where
  kind := entry.kind
  size := entry.size
  modifiedAt := entry.modifiedAt
  contentHash := contentHash

/-- `hash_entry`: whatever goes wrong, there is no digest. -/
def hashEntry (env : Env) (entry : EntrySummary) (look : Nat) : Option String × Nat :=
  match Checksums.hashEntry env.digests env.providers env.token entry.entry [.sha256] look with
  | (.ok set, look) => (set.get .sha256, look)
  | (.error _, look) => (none, look)

def Traversal.flush (isComplete : Bool) (t : Traversal) : Traversal :=
  if t.buffer ≠ [] ∨ isComplete then
    let appended := t.store.append t.buffer t.warningsCount
    { t with
      buffer := []
      store := if isComplete then appended.markComplete else appended
      batches := t.batches ++ [⟨t.buffer, isComplete, t.warningsCount⟩] }
  else t

/-- Count and buffer an entry. -/
def Traversal.record (entry : ComparisonEntry) (t : Traversal) : Traversal :=
  { t with buffer := t.buffer ++ [entry], comparedCount := t.comparedCount + 1 }

/-- Flush a full batch, or one that has waited. -/
def Traversal.flushIfDue (env : Env) (t : Traversal) : Traversal :=
  if batchSize ≤ t.buffer.length ∨ env.elapsed t.comparedCount then t.flush false else t

/-- The digests of a pair, with a warning where one is missing. -/
def Traversal.hashPair (env : Env) (left right : EntrySummary) (t : Traversal) :
    (Option String × Option String) × Traversal :=
  match hashEntry env left t.look with
  | (leftHash, look) =>
    match hashEntry env right look with
    | (rightHash, look) =>
      ((leftHash, rightHash), { t with
          look := look
          warningsCount := t.warningsCount + if leftHash = none ∨ rightHash = none then 1 else 0 })

/-- The body of the loop over the names of a directory pair. -/
def Traversal.compareName (env : Env) (options : ComparisonOptions) (dir : PendingDir)
    (leftByName rightByName : List (String × EntrySummary)) (name : String)
    (t : Traversal) : Traversal :=
  let relativePath := relativeJoin dir.relativePath name
  match Keyed.get leftByName name, Keyed.get rightByName name with
  | some left, none =>
    (t.record { relativePath := relativePath
                left := some (sideFrom left none)
                right := none
                status := .onlyLeft }).flushIfDue env
  | none, some right =>
    (t.record { relativePath := relativePath
                left := none
                right := some (sideFrom right none)
                status := .onlyRight }).flushIfDue env
  | some left, some right =>
    if left.kind = .directory ∧ right.kind = .directory then
      -- the next name comes without a flush
      { t with stack := ⟨relativePath, left.location, right.location⟩ :: t.stack }.record
        { relativePath := relativePath
          left := some (sideFrom left none)
          right := some (sideFrom right none)
          status := .identical }
    else
      let hashed :=
        if options.criteria = .contentHash ∧ left.kind = .file ∧ right.kind = .file then
          t.hashPair env left right
        else ((none, none), t)
      let leftSide := sideFrom left hashed.1.1
      let rightSide := sideFrom right hashed.1.2
      (hashed.2.record { relativePath := relativePath
                         left := some leftSide
                         right := some rightSide
                         status := classify leftSide rightSide options.criteria }).flushIfDue env
  | none, none => t

/-- The loop over the names of a directory pair. -/
def Traversal.compareNames (env : Env) (options : ComparisonOptions) (dir : PendingDir)
    (leftByName rightByName : List (String × EntrySummary)) :
    List String → Traversal → Traversal
  | [], t => t
  | name :: rest, t =>
    if env.token.isCancelled t.look then { t with look := t.look + 1 }
    else
      Traversal.compareNames env options dir leftByName rightByName rest
        ({ t with look := t.look + 1 }.compareName env options dir leftByName rightByName name)

/-- What follows a directory pair that could not be listed. -/
def Traversal.warn (t : Traversal) : Traversal := { t with warningsCount := t.warningsCount + 1 }

/-- A directory pair that has not been visited. -/
def Traversal.compareDir (env : Env) (options : ComparisonOptions) (dir : PendingDir)
    (t : Traversal) : Traversal :=
  match env.providers.listAll env.token dir.left t.look with
  | (none, look) => { t with look := look }.warn
  | (some leftChildren, look) =>
    match env.providers.listAll env.token dir.right look with
    | (none, look) => { t with look := look }.warn
    | (some rightChildren, look) =>
      let leftByName := indexByName leftChildren options.showHidden
      let rightByName := indexByName rightChildren options.showHidden
      { t with look := look }.compareNames env options dir leftByName rightByName
        (namesOf leftByName rightByName)

/-- What one turn of the loop over the stack comes to. -/
inductive Turn
  /-- The loop goes on. -/
  | next (t : Traversal)
  /-- It has ended. -/
  | leave (t : Traversal)

/-- A pair of directories is looked up among the visited ones. -/
instance : LawfulBEq (Location × Location) := inferInstance

/-- One turn of the loop over the stack. -/
def Traversal.turn (env : Env) (options : ComparisonOptions) (t : Traversal) : Turn :=
  match t.stack with
  | [] => .leave t
  | dir :: stack =>
    if env.token.isCancelled t.look then .leave { t with stack := stack, look := t.look + 1 }
    else if (dir.left, dir.right) ∈ t.visited then
      .next { t with stack := stack, look := t.look + 1 }
    else
      .next ({ t with
        stack := stack
        visited := (dir.left, dir.right) :: t.visited
        look := t.look + 1 }.compareDir env options dir)

/-- The loop over the stack; nothing if the fuel does not last. -/
def Traversal.loop (env : Env) (options : ComparisonOptions) : Nat → Traversal → Option Traversal
  | 0, _ => none
  | fuel + 1, t =>
    match t.turn env options with
    | .leave t => some t
    | .next t => Traversal.loop env options fuel t

/-- The start of `run_comparison`, after `register`. -/
def Traversal.start (leftRoot rightRoot : Location) : Traversal where
  stack := [⟨"", leftRoot, rightRoot⟩]
  visited := []
  buffer := []
  warningsCount := 0
  comparedCount := 0
  store := ⟨[], false, 0⟩
  batches := []
  look := 0

def runComparison (env : Env) (options : ComparisonOptions) (leftRoot rightRoot : Location)
    (fuel : Nat) : Option Traversal :=
  (Traversal.loop env options fuel (.start leftRoot rightRoot)).map (·.flush true)

end FileManager.Comparison
