/-
What one turn of the traversal does, and what an undisturbed traversal
comes to.

# The argument

Whatever the token does, a name of a directory pair adds one row to what
has been recorded (stored or still buffered), and at most one directory
pair to the stack (`compareName_spec`). With an idle token all names are
gone through, so a directory pair adds all its rows and its directory
pairs (`compareDir_idle`), and the loop is the worklist traversal of the
graph of directory pairs (`Simulates`).
-/
import FileManager.Checksums.Proofs.Streams
import FileManager.Comparison.Engine
import FileManager.Lib.Worklist

namespace FileManager.Comparison

open Vfs (EntrySummary Providers Token)
open Traversal (flush record hashPair compareNames warn)
open Traversal Keyed Worklist

variable {env : Env} {options : ComparisonOptions} {left right : Option EntrySummary}
  {criteria : ComparisonCriteria} {hashes : Option String × Option String} {relativePath : String}
  {row : ComparisonEntry}

/-- What has been stored or waits to be. -/
def Traversal.recorded (t : Traversal) : List ComparisonEntry := t.store.entries ++ t.buffer

-- ==== rows

/-- The files of such a pair are hashed. -/
def Hashed (criteria : ComparisonCriteria) (left right : EntrySummary) : Prop :=
  criteria = .contentHash ∧ left.kind = .file ∧ right.kind = .file

instance (criteria : ComparisonCriteria) (left right : EntrySummary) :
    Decidable (Hashed criteria left right) :=
  inferInstanceAs (Decidable (_ ∧ _ ∧ _))

/-- The row of a name, given the digests of a hashed pair. -/
def rowWith (criteria : ComparisonCriteria) (relativePath : String)
    (hashes : Option String × Option String) :
    Option EntrySummary → Option EntrySummary → Option ComparisonEntry
  | some left, none =>
    some ⟨relativePath, some (sideFrom left none), none, .onlyLeft⟩
  | none, some right =>
    some ⟨relativePath, none, some (sideFrom right none), .onlyRight⟩
  | some left, some right =>
    if left.kind = .directory ∧ right.kind = .directory then
      some ⟨relativePath, some (sideFrom left none), some (sideFrom right none), .identical⟩
    else
      let hashes := if Hashed criteria left right then hashes else (none, none)
      some ⟨relativePath, some (sideFrom left hashes.1), some (sideFrom right hashes.2),
        classify (sideFrom left hashes.1) (sideFrom right hashes.2) criteria⟩
  | none, none => none

theorem relativePath_rowWith (h : rowWith criteria relativePath hashes left right = some row) :
    row.relativePath = relativePath := by
  cases left with
  | none =>
    cases right with
    | none => cases h
    | some right =>
      injection h with h
      rw [← h]
  | some left =>
    cases right with
    | none =>
      injection h with h
      rw [← h]
    | some right =>
      simp only [rowWith] at h
      split at h
      case isTrue | isFalse =>
        injection h with h
        rw [← h]

theorem exists_rowWith (criteria : ComparisonCriteria) (relativePath : String)
    (hashes : Option String × Option String) (h : left ≠ none ∨ right ≠ none) :
    ∃ row, rowWith criteria relativePath hashes left right = some row := by
  cases left with
  | none =>
    cases right with
    | none => exact absurd h (by simp)
    | some right => exact ⟨_, rfl⟩
  | some left =>
    cases right with
    | none => exact ⟨_, rfl⟩
    | some right =>
      simp only [rowWith]
      split <;> exact ⟨_, rfl⟩

theorem some_of_rowWith (h : rowWith criteria relativePath hashes left right = some row) :
    left ≠ none ∨ right ≠ none := by
  cases left with
  | none =>
    cases right with
    | none => cases h
    | some right => exact .inr (Option.some_ne_none _)
  | some left => exact .inl (Option.some_ne_none _)

/-- The directory pair a name adds to the stack. -/
def childWith (relativePath : String) :
    Option EntrySummary → Option EntrySummary → Option PendingDir
  | some left, some right =>
    if left.kind = .directory ∧ right.kind = .directory then
      some ⟨relativePath, left.location, right.location⟩
    else none
  | _, _ => none

/-- The digests that a pair gets at a look. -/
def pairHashes (env : Env) (look : Nat) :
    Option EntrySummary → Option EntrySummary → Option String × Option String
  | some left, some right =>
    ((hashEntry env left look).1, (hashEntry env right (hashEntry env left look).2).1)
  | _, _ => (none, none)

-- ==== names

theorem flush_spec (isComplete : Bool) (t : Traversal) :
    (t.flush isComplete).recorded = t.recorded ∧ (t.flush isComplete).stack = t.stack
      ∧ (t.flush isComplete).visited = t.visited ∧ (t.flush isComplete).look = t.look := by
  unfold flush recorded
  split
  case isTrue => cases isComplete <;> simp [ComparisonState.append, ComparisonState.markComplete]
  case isFalse => exact ⟨rfl, rfl, rfl, rfl⟩

theorem flushIfDue_spec (env : Env) (t : Traversal) :
    (t.flushIfDue env).recorded = t.recorded ∧ (t.flushIfDue env).stack = t.stack
      ∧ (t.flushIfDue env).visited = t.visited ∧ (t.flushIfDue env).look = t.look := by
  unfold flushIfDue
  split
  case isTrue => exact flush_spec false t
  case isFalse => exact ⟨rfl, rfl, rfl, rfl⟩

theorem recorded_record (entry : ComparisonEntry) (t : Traversal) :
    (t.record entry).recorded = t.recorded ++ [entry] := by
  unfold recorded record
  simp

theorem flushIfDue_record_spec (env : Env) (entry : ComparisonEntry) (t : Traversal) :
    ((t.record entry).flushIfDue env).recorded = t.recorded ++ [entry]
      ∧ ((t.record entry).flushIfDue env).stack = t.stack
      ∧ ((t.record entry).flushIfDue env).visited = t.visited
      ∧ ((t.record entry).flushIfDue env).look = t.look := by
  obtain ⟨hrecorded, hstack, hvisited, hlook⟩ := flushIfDue_spec env (t.record entry)
  rw [recorded_record] at hrecorded
  exact ⟨hrecorded, hstack, hvisited, hlook⟩

theorem hashPair_spec (env : Env) (left right : EntrySummary) (t : Traversal) :
    (t.hashPair env left right).1 = pairHashes env t.look (some left) (some right)
      ∧ (t.hashPair env left right).2.recorded = t.recorded
      ∧ (t.hashPair env left right).2.stack = t.stack
      ∧ (t.hashPair env left right).2.visited = t.visited := by
  unfold hashPair pairHashes recorded
  exact ⟨rfl, rfl, rfl, rfl⟩

theorem compareName_spec (env : Env) (options : ComparisonOptions) (dir : PendingDir)
    (leftByName rightByName : List (String × EntrySummary)) (name : String) (t : Traversal) :
    (t.compareName env options dir leftByName rightByName name).recorded
        = t.recorded ++ (rowWith options.criteria (relativeJoin dir.relativePath name)
          (pairHashes env t.look (get leftByName name) (get rightByName name))
          (get leftByName name) (get rightByName name)).toList
      ∧ (t.compareName env options dir leftByName rightByName name).stack
        = (childWith (relativeJoin dir.relativePath name) (get leftByName name)
          (get rightByName name)).toList ++ t.stack
      ∧ (t.compareName env options dir leftByName rightByName name).visited = t.visited := by
  unfold compareName
  cases hleft : get leftByName name with
  | none =>
    cases hright : get rightByName name with
    | none => simp [rowWith, childWith]
    | some right =>
      obtain ⟨hrecorded, hstack, hvisited, -⟩ := flushIfDue_record_spec env _ t
      exact ⟨hrecorded, hstack, hvisited⟩
  | some left =>
    cases hright : get rightByName name with
    | none =>
      obtain ⟨hrecorded, hstack, hvisited, -⟩ := flushIfDue_record_spec env _ t
      exact ⟨hrecorded, hstack, hvisited⟩
    | some right =>
      simp only [rowWith, childWith]
      by_cases hdirs : left.kind = .directory ∧ right.kind = .directory
      · simp only [if_pos hdirs]
        rw [recorded_record]
        exact ⟨rfl, rfl, rfl⟩
      · simp only [if_neg hdirs]
        obtain ⟨hhashes, hsame, hstack, hvisited⟩ := hashPair_spec env left right t
        by_cases hhashed : Hashed options.criteria left right
        · have hcondition : options.criteria = .contentHash ∧ left.kind = .file
              ∧ right.kind = .file := hhashed
          simp only [if_pos hcondition, if_pos hhashed]
          obtain ⟨hrecorded, hstack', hvisited', -⟩ := flushIfDue_record_spec
            env _ (t.hashPair env left right).2
          rw [hrecorded, hstack', hvisited', hsame, hhashes]
          exact ⟨rfl, hstack, hvisited⟩
        · have hcondition : ¬ (options.criteria = .contentHash ∧ left.kind = .file
              ∧ right.kind = .file) := hhashed
          simp only [if_neg hcondition, if_neg hhashed]
          obtain ⟨hrecorded, hstack', hvisited', -⟩ := flushIfDue_record_spec env _ t
          exact ⟨hrecorded, hstack', hvisited'⟩

-- ==== idle traversals

/-- The same, with a token that never fires. -/
def Env.idle (env : Env) : Env := { env with token := .idle }

/-- The digest of a file that is read undisturbed. -/
def digestOf (env : Env) (entry : EntrySummary) : Option String := (hashEntry env.idle entry 0).1

theorem hashEntry_idle (hidle : env.token = .idle) (entry : EntrySummary) (look : Nat) :
    (hashEntry env entry look).1 = digestOf env entry := by
  unfold digestOf hashEntry Env.idle
  rw [hidle]
  simp only
  have hlook := Checksums.hashEntryBounded_idle env.digests env.providers entry.entry [.sha256]
    none look 0
  unfold Checksums.hashEntry
  generalize Checksums.hashEntryBounded env.digests env.providers .idle entry.entry [.sha256]
    none look = first at hlook ⊢
  generalize Checksums.hashEntryBounded env.digests env.providers .idle entry.entry [.sha256]
    none 0 = second at hlook ⊢
  obtain ⟨result, look⟩ := first
  obtain ⟨result', look'⟩ := second
  subst hlook
  cases result <;> rfl

/-- The digests of a pair that is read undisturbed. -/
def digestsOf (env : Env) : Option EntrySummary → Option EntrySummary →
    Option String × Option String
  | some left, some right => (digestOf env left, digestOf env right)
  | _, _ => (none, none)

theorem pairHashes_idle (hidle : env.token = .idle) (look : Nat)
    (left right : Option EntrySummary) :
    pairHashes env look left right = digestsOf env left right := by
  cases left with
  | none => rfl
  | some left =>
    cases right with
    | none => rfl
    | some right =>
      simp only [pairHashes, digestsOf, hashEntry_idle hidle]

/-- The row of a name in a directory pair. -/
def rowAt (env : Env) (options : ComparisonOptions) (dir : PendingDir)
    (leftByName rightByName : List (String × EntrySummary)) (name : String) :
    Option ComparisonEntry :=
  rowWith options.criteria (relativeJoin dir.relativePath name)
    (digestsOf env (get leftByName name) (get rightByName name))
    (get leftByName name) (get rightByName name)

/-- The directory pair of a name in a directory pair. -/
def childAt (dir : PendingDir) (leftByName rightByName : List (String × EntrySummary))
    (name : String) : Option PendingDir :=
  childWith (relativeJoin dir.relativePath name) (get leftByName name)
    (get rightByName name)

theorem compareNames_idle (hidle : env.token = .idle) (dir : PendingDir)
    (leftByName rightByName : List (String × EntrySummary)) (names : List String) (t : Traversal) :
    (t.compareNames env options dir leftByName rightByName names).recorded
        = t.recorded ++ names.filterMap (rowAt env options dir leftByName rightByName)
      ∧ (t.compareNames env options dir leftByName rightByName names).stack
        = (names.filterMap (childAt dir leftByName rightByName)).reverse ++ t.stack
      ∧ (t.compareNames env options dir leftByName rightByName names).visited = t.visited := by
  induction names generalizing t with
  | nil =>
    unfold compareNames
    simp
  | cons name rest ih =>
    unfold compareNames
    rw [hidle, Token.isCancelled_idle, if_neg (by simp)]
    obtain ⟨hrecorded, hstack, hvisited⟩ := compareName_spec env options dir
      leftByName rightByName name { t with look := t.look + 1 }
    obtain ⟨hrecorded', hstack', hvisited'⟩ := ih
      ({ t with look := t.look + 1 }.compareName env options dir leftByName rightByName name)
    rw [pairHashes_idle hidle] at hrecorded
    rw [hrecorded', hstack', hvisited', hrecorded, hstack, hvisited]
    refine ⟨?_, ?_, rfl⟩
    · show t.recorded ++ (rowAt env options dir leftByName rightByName name).toList ++ _ = _
      cases hrow : rowAt env options dir leftByName rightByName name with
      | none | some row => simp [hrow]
    · show _ ++ ((childAt dir leftByName rightByName name).toList ++ t.stack) = _
      cases hchild : childAt dir leftByName rightByName name with
      | none | some child => simp [hchild]

/-- The maps by name of a directory pair, if both directories can be
listed. -/
def mapsOf (env : Env) (options : ComparisonOptions) (dir : PendingDir) :
    Option (List (String × EntrySummary) × List (String × EntrySummary)) :=
  match env.providers.listing dir.left, env.providers.listing dir.right with
  | some left, some right =>
    some (indexByName left options.showHidden, indexByName right options.showHidden)
  | _, _ => none

/-- The rows a directory pair adds. -/
def rowsOf (env : Env) (options : ComparisonOptions) (dir : PendingDir) : List ComparisonEntry :=
  match mapsOf env options dir with
  | some (left, right) => (namesOf left right).filterMap (rowAt env options dir left right)
  | none => []

/-- The directory pairs it adds to the stack. -/
def childrenOf (env : Env) (options : ComparisonOptions) (dir : PendingDir) : List PendingDir :=
  match mapsOf env options dir with
  | some (left, right) => ((namesOf left right).filterMap (childAt dir left right)).reverse
  | none => []

theorem compareDir_idle (options : ComparisonOptions) (hidle : env.token
    = .idle) (dir : PendingDir) (t : Traversal) :
    (t.compareDir env options dir).recorded = t.recorded ++ rowsOf env options dir
      ∧ (t.compareDir env options dir).stack = childrenOf env options dir ++ t.stack
      ∧ (t.compareDir env options dir).visited = t.visited := by
  unfold compareDir rowsOf childrenOf mapsOf
  rw [hidle]
  have hleft := Providers.listAll_idle env.providers dir.left t.look
  generalize env.providers.listAll .idle dir.left t.look = listed at hleft ⊢
  obtain ⟨left, look⟩ := listed
  simp only at hleft
  rw [← hleft]
  cases left with
  | none => simp [warn, recorded]
  | some left =>
    simp only
    have hright := Providers.listAll_idle env.providers dir.right look
    generalize env.providers.listAll .idle dir.right look = listed at hright ⊢
    obtain ⟨right, look'⟩ := listed
    simp only at hright
    rw [← hright]
    cases right with
    | none => simp [warn, recorded]
    | some right =>
      exact compareNames_idle hidle dir _ _ _ { t with look := look' }

-- ==== the worklist

/-- What `visited` keeps of a directory pair. -/
def PendingDir.key (dir : PendingDir) : Location × Location := (dir.left, dir.right)

/-- The traversal is where the worklist is. -/
structure Simulates (env : Env) (options : ComparisonOptions) (t : Traversal)
    (s : State PendingDir) : Prop where
  stack : t.stack = s.pending
  visited : ∀ key, key ∈ t.visited ↔ key ∈ s.done.map PendingDir.key
  recorded : t.recorded = s.done.flatMap (rowsOf env options)

theorem Simulates.start (leftRoot rightRoot : Location) :
    Simulates env options (.start leftRoot rightRoot) ⟨[⟨"", leftRoot, rightRoot⟩], []⟩ :=
  ⟨rfl, fun _ => Iff.rfl, rfl⟩

variable {s : State PendingDir}

theorem Simulates.turn (hidle : env.token = .idle) {t : Traversal} (h : Simulates env options t s)
    (hne : s.pending ≠ []) :
    ∃ t', t.turn env options = .next t'
      ∧ Simulates env options t' (step PendingDir.key (childrenOf env options) s) := by
  obtain ⟨dir, rest, hpending⟩ := List.exists_cons_of_ne_nil hne
  unfold Traversal.turn
  rw [h.stack, hpending]
  simp only
  rw [hidle, Token.isCancelled_idle, if_neg (by simp)]
  rcases step_cases PendingDir.key (childrenOf env options) hpending with
    ⟨hvisited, heq⟩ | ⟨hnew, heq⟩
  · have hseen : (dir.left, dir.right) ∈ t.visited := (h.visited dir.key).mpr hvisited
    rw [if_pos hseen, heq]
    exact ⟨_, rfl, rfl, h.visited, h.recorded⟩
  · have hunseen : (dir.left, dir.right) ∉ t.visited := fun hmem =>
      hnew ((h.visited dir.key).mp hmem)
    rw [if_neg hunseen, heq]
    refine ⟨_, rfl, ?_⟩
    obtain ⟨hrecorded, hstack, hseen⟩ := compareDir_idle options hidle dir
      { t with stack := rest, visited := (dir.left, dir.right) :: t.visited, look := t.look + 1 }
    refine ⟨hstack, ?_, ?_⟩
    · intro key
      rw [hseen, List.mem_cons, h.visited, List.map_append, List.mem_append]
      exact or_comm.trans (or_congr Iff.rfl List.mem_singleton.symm)
    · rw [hrecorded, List.flatMap_append]
      show t.recorded ++ _ = _
      rw [h.recorded]
      simp

theorem Simulates.of_loop (hidle : env.token = .idle) {fuel : Nat} {t t' : Traversal}
    (h : Simulates env options t s) (hloop : loop env options fuel t = some t') :
    ∃ turns, (run PendingDir.key (childrenOf env options) turns s).pending = []
      ∧ Simulates env options t' (run PendingDir.key (childrenOf env options) turns s) :=
      by
  induction fuel generalizing t s with
  | zero => cases hloop
  | succ fuel ih =>
    unfold loop at hloop
    by_cases hempty : s.pending = []
    · have hturn : t.turn env options = .leave t := by
        unfold Traversal.turn
        rw [h.stack, hempty]
      rw [hturn] at hloop
      cases hloop
      exact ⟨0, hempty, h⟩
    · obtain ⟨next, hturn, hnext⟩ := h.turn hidle hempty
      rw [hturn] at hloop
      obtain ⟨turns, hturns⟩ := ih hnext hloop
      exact ⟨turns + 1, hturns⟩

theorem Simulates.finishes (hidle : env.token = .idle) {turns : Nat} {t : Traversal}
    (h : Simulates env options t s)
    (hempty : (run PendingDir.key (childrenOf env options) turns s).pending = []) :
    ∃ fuel t', loop env options fuel t = some t' := by
  induction turns generalizing t s with
  | zero =>
    refine ⟨1, t, ?_⟩
    unfold loop Traversal.turn
    rw [h.stack, show s.pending = [] from hempty]
  | succ turns ih =>
    by_cases hnow : s.pending = []
    · refine ⟨1, t, ?_⟩
      unfold loop Traversal.turn
      rw [h.stack, hnow]
    · obtain ⟨next, hturn, hnext⟩ := h.turn hidle hnow
      obtain ⟨fuel, t', hfuel⟩ := ih hnext hempty
      refine ⟨fuel + 1, t', ?_⟩
      unfold loop
      rw [hturn]
      exact hfuel

end FileManager.Comparison
