/-
The two traversals of one search (`fm-search`, `engine.rs`): a native
one over the local roots and one over the other providers, on different
threads, which share the result store, the event bus and one atomic
counter.

# Atomic steps

A traversal's buffer and counters are its own, so what it does between
two accesses to shared state is one step. `flush` is the list of the
shared accesses of a flush, and any step of the other traversal may come
between two of them. At its end a traversal adds itself to the counter of
finished ones and learns from the same step whether it is the last; its
final flush only starts then.

# What a walk finds

Between two flush checks a walk has found any entries and met any number
of failures. A walk may end at any time, because its roots are exhausted
or because the search was cancelled.

# The store

The accumulator of streamed results (`store.rs`) is a map from search
identifiers to what has been found, written by the traversals and read
page by page. Every operation holds the one lock and is one step.
-/
import FileManager.Vfs

namespace FileManager.Search

open Vfs (EntrySummary)

-- ==== the store

abbrev SearchId := Nat

/-- `SearchState`. The cancellation token is shared with the
traversals. -/
structure SearchState where
  entries : List EntrySummary := []
  complete : Bool := false
  warningsCount : UInt32 := 0
  cancelled : Bool := false

structure SearchResultsStore where
  searches : SearchId → Option SearchState

namespace SearchResultsStore

def empty : SearchResultsStore where
  searches := fun _ => none

def register (store : SearchResultsStore) (searchId : SearchId) : SearchResultsStore where
  searches := fun id => if id = searchId then some {} else store.searches id

/-- Change a search in place; nothing happens if it is not tracked. -/
def modify (store : SearchResultsStore) (searchId : SearchId)
    (change : SearchState → SearchState) : SearchResultsStore where
  searches := fun id =>
    if id = searchId then (store.searches id).map change else store.searches id

def append (store : SearchResultsStore) (searchId : SearchId) (entries : List EntrySummary)
    (warningsCount : UInt32) : SearchResultsStore :=
  store.modify searchId fun state =>
    { state with entries := state.entries ++ entries, warningsCount := warningsCount }

def markComplete (store : SearchResultsStore) (searchId : SearchId) : SearchResultsStore :=
  store.modify searchId fun state => { state with complete := true }

/-- `cancel`, where the search is tracked. -/
def cancel (store : SearchResultsStore) (searchId : SearchId) : SearchResultsStore :=
  store.modify searchId fun state => { state with cancelled := true }

@[simp] theorem register_searches (store : SearchResultsStore) (searchId : SearchId) :
    (store.register searchId).searches searchId = some {} := by
  simp [register]

@[simp] theorem append_searches (store : SearchResultsStore) (searchId : SearchId)
    (entries : List EntrySummary) (warningsCount : UInt32) :
    (store.append searchId entries warningsCount).searches searchId
      = (store.searches searchId).map fun state =>
          { state with entries := state.entries ++ entries, warningsCount := warningsCount } := by
  simp [append, modify]

@[simp] theorem markComplete_searches (store : SearchResultsStore) (searchId : SearchId) :
    (store.markComplete searchId).searches searchId
      = (store.searches searchId).map fun state => { state with complete := true } := by
  simp [markComplete, modify]

@[simp] theorem cancel_searches (store : SearchResultsStore) (searchId : SearchId) :
    (store.cancel searchId).searches searchId
      = (store.searches searchId).map fun state => { state with cancelled := true } := by
  simp [cancel, modify]

end SearchResultsStore

-- ==== data

abbrev OperationId := Nat

def batchSize : Nat := 500

structure ContentMatchSummary where
  lineNumber : Nat
  offset : Nat
  length : Nat
deriving DecidableEq

/-- One buffered match: the entry, and where its content matched. -/
structure Found where
  entry : EntrySummary
  contentMatches : Option (List ContentMatchSummary)
deriving DecidableEq

/-- `SearchResultsBatch`, as published. -/
structure Batch where
  entries : List Found
  isComplete : Bool
  warningsCount : UInt32
deriving DecidableEq

def Batch.summaries (batch : Batch) : List EntrySummary := batch.entries.map Found.entry

/-- `OperationStatePayload`, as far as a search publishes it. -/
inductive OperationStatePayload
  | cancelled
  | completed
deriving DecidableEq

/-- The accesses to shared state of a flush and of what follows it. The
state to publish is read when it is published. -/
inductive Effect
  | append (entries : List EntrySummary) (warningsCount : UInt32)
  | markComplete
  | publishBatch (batch : Batch)
  | publishProgress (completedItems : Nat)
  | publishStateChanged (state : Option OperationStatePayload)
deriving DecidableEq

/-- `SearchContext`: the search and the operation that tracks it. -/
structure SearchContext where
  searchId : SearchId
  operationId : Option OperationId

-- ==== flush

/-- The progress event, published only for a tracked search. -/
def progress (ctx : SearchContext) (matchesFound : Nat) : List Effect :=
  if ctx.operationId.isSome then [.publishProgress matchesFound] else []

/-- `flush`: a batch is stored before it is published, and the search is
marked complete in between. -/
def flush (ctx : SearchContext) (buffer : List Found) (warningsCount : UInt32)
    (isComplete : Bool) (matchesFound : Nat) : List Effect :=
  (if !buffer.isEmpty || isComplete then
    [.append (buffer.map Found.entry) warningsCount] ++ (if isComplete then [.markComplete] else [])
      ++ [.publishBatch ⟨buffer, isComplete, warningsCount⟩]
  else []) ++ progress ctx matchesFound

/-- The state event of the last traversal. -/
def announce (ctx : SearchContext) (isLast : Bool) : List Effect :=
  if isLast && ctx.operationId.isSome then [.publishStateChanged none] else []

-- ==== traversals

/-- The two traversal paths. -/
inductive Path
  | native
  | vfs
deriving DecidableEq

def Path.other : Path → Path
  | native => vfs
  | vfs => native

/-- Where a traversal is: in its walk, or past the counter. -/
inductive Phase
  | walking
  | ended (isLast : Bool)
deriving DecidableEq

/-- The local state of `run_search_native` and of `run_search_vfs`, with
the shared accesses it has still to make before it goes on. -/
structure Traversal where
  buffer : List Found := []
  warningsCount : UInt32 := 0
  matchesFound : Nat := 0
  phase : Phase := .walking
  todo : List Effect := []

/-- The walk up to its next flush check: what it found, the failures it
met, and whether `BATCH_INTERVAL` has passed. -/
def Traversal.scan (ctx : SearchContext) (t : Traversal) (found : List Found)
    (failures : UInt32) (elapsed : Bool) : Traversal :=
  let buffer := t.buffer ++ found
  let warningsCount := t.warningsCount + failures
  let matchesFound := t.matchesFound + found.length
  if batchSize ≤ buffer.length ∨ elapsed then
    { t with
      buffer := []
      warningsCount := warningsCount
      matchesFound := matchesFound
      todo := flush ctx buffer warningsCount false matchesFound }
  else
    { t with
      buffer := buffer
      warningsCount := warningsCount
      matchesFound := matchesFound }

/-- The tail of a traversal, from what the counter told it. -/
def Traversal.finish (ctx : SearchContext) (t : Traversal) (isLast : Bool) : Traversal :=
  { t with
    buffer := []
    phase := .ended isLast
    todo := flush ctx t.buffer t.warningsCount isLast t.matchesFound ++ announce ctx isLast }

-- ==== the search

/-- A running search. `history` lists the shared accesses made so far;
no step reads it. -/
structure Running where
  store : SearchResultsStore
  totalPaths : Nat
  finishedPaths : Nat := 0
  paths : Path → Option Traversal
  history : List Effect := []

def Running.set (s : Running) (path : Path) (t : Traversal) : Running :=
  { s with paths := fun p => if p = path then some t else s.paths p }

/-- `SearchError`, as far as `start` returns it here. -/
inductive SearchError
  | noRoots

/-- A traversal is spawned where it has a root. -/
def spawn (roots : List Location) : Option Traversal :=
  if roots.isEmpty then none else some {}

def spawnPaths (rootPaths vfsRoots : List Location) : Path → Option Traversal
  | .native => spawn rootPaths
  | .vfs => spawn vfsRoots

/-- `SearchEngine::start`: the roots with a native path are walked
natively, the others through their providers. -/
def start (toNativePath : Location → Bool) (store : SearchResultsStore)
    (ctx : SearchContext) (roots : List Location) : Except SearchError Running :=
  if roots.isEmpty then .error .noRoots
  else
    let rootPaths := roots.filter toNativePath
    let vfsRoots := roots.filter fun root => !toNativePath root
    .ok {
      store := store.register ctx.searchId
      totalPaths := (!rootPaths.isEmpty).toNat + (!vfsRoots.isEmpty).toNat
      paths := spawnPaths rootPaths vfsRoots }

/-- What the store holds for the search. -/
def Running.results (ctx : SearchContext) (s : Running) : SearchState :=
  (s.store.searches ctx.searchId).getD {}

/-- An access as it is made: a state event shows whether the token is
cancelled. -/
def Effect.made (cancelled : Bool) : Effect → Effect
  | .publishStateChanged _ =>
    .publishStateChanged (some (if cancelled then .cancelled else .completed))
  | effect => effect

/-- Make one shared access. -/
def Running.perform (ctx : SearchContext) (s : Running) (effect : Effect) : Running :=
  { s with
    store :=
      match effect with
      | .append entries warningsCount => s.store.append ctx.searchId entries warningsCount
      | .markComplete => s.store.markComplete ctx.searchId
      | _ => s.store
    history := s.history ++ [effect.made (s.results ctx).cancelled] }

inductive Action
  | scan (path : Path) (found : List Found) (failures : UInt32) (elapsed : Bool)
  | finish (path : Path)
  | perform (path : Path)
  | cancel

/-- One step of the search: `none` where an action is not open. -/
def step (ctx : SearchContext) : Action → Running → Option Running
  | .scan path found failures elapsed, s =>
    match s.paths path with
    | some t =>
      if t.todo.isEmpty ∧ t.phase = .walking then
        some (s.set path (t.scan ctx found failures elapsed))
      else none
    | none => none
  | .finish path, s =>
    match s.paths path with
    | some t =>
      if t.todo.isEmpty ∧ t.phase = .walking then
        -- `fetch_add` returns the old value
        let finished := s.finishedPaths + 1
        some ({ s with finishedPaths := finished }.set path
          (t.finish ctx (finished = s.totalPaths)))
      else none
    | none => none
  | .perform path, s =>
    match s.paths path with
    | some t =>
      match t.todo with
      | effect :: rest => some ((s.perform ctx effect).set path { t with todo := rest })
      | [] => none
    | none => none
  | .cancel, s => some { s with store := s.store.cancel ctx.searchId }

-- ==== its ends

/-- Every traversal has made its last access. -/
def Running.Finished (s : Running) : Prop :=
  ∀ path t, s.paths path = some t → (∃ isLast, t.phase = .ended isLast) ∧ t.todo = []

/-- The accesses that readers of the results see: appends, the completion
mark and the batches. -/
def Effect.touches : Effect → Bool
  | .append _ _ => true
  | .markComplete => true
  | .publishBatch _ => true
  | .publishProgress _ => false
  | .publishStateChanged _ => false

/-- The accesses that say the search is complete. -/
def Effect.closes : Effect → Bool
  | .markComplete => true
  | .publishBatch batch => batch.isComplete
  | _ => false

def Effect.batch? : Effect → Option Batch
  | .publishBatch batch => some batch
  | _ => none

/-- The batches published so far. -/
def Running.batches (s : Running) : List Batch := s.history.filterMap Effect.batch?

/-- The warnings of a path; none if it has no traversal. -/
def Running.warnings (s : Running) (path : Path) : Nat :=
  match s.paths path with
  | some t => t.warningsCount.toNat
  | none => 0

/-- The completion of a search comes last and is exact. -/
structure CompletedLast (ctx : SearchContext) (s : Running) : Prop where
  once : s.batches.countP Batch.isComplete = 1
  last : ∃ before batch, s.history.filter Effect.touches
      = before ++ [.markComplete, .publishBatch batch]
    ∧ batch.isComplete = true
    ∧ (∀ effect ∈ before, effect.closes = false)
    ∧ batch.warningsCount.toNat = s.warnings .native + s.warnings .vfs
  stored : (s.results ctx).entries = s.batches.flatMap Batch.summaries
  warnings : (s.results ctx).warningsCount.toNat = s.warnings .native + s.warnings .vfs

-- ==== the matcher

/-- What is left of the pattern behind its last star, and of the name
where that star was met. -/
abbrev Star := List Char × List Char

/-- The loop of `glob_match` (`matcher.rs`), and the one over the trailing
stars. An index into a name or a pattern is what is left of it. -/
def globLoop (name pattern : List Char) (star : Option Star) : Bool :=
  match name, pattern with
  | [], pattern => (pattern.dropWhile (· = '*')).isEmpty
  | c :: name, p :: pattern =>
    if p = '?' ∨ p = c then globLoop name pattern star
    else if p = '*' then globLoop (c :: name) pattern (some (pattern, c :: name))
    else
      match star with
      | some (pattern, matchFrom) => globLoop matchFrom.tail pattern (some (pattern, matchFrom.tail))
      | none => false
  | _ :: _, [] =>
    match star with
    | some (pattern, matchFrom) => globLoop matchFrom.tail pattern (some (pattern, matchFrom.tail))
    | none => false
-- a retry goes on in the name, and so does a match; a star shortens the pattern
termination_by (max name.length (star.elim 0 fun star => star.2.length), name.length,
  pattern.length)
decreasing_by all_goals simp [Prod.lex_def]; omega

def globMatch (name pattern : List Char) : Bool := globLoop name pattern none

end FileManager.Search
