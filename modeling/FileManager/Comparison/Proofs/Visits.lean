/-
The names a comparison goes through, and how a cancelled comparison
relates to the undisturbed one.

# The argument

What a comparison records is a function of its visits: the names it has
gone through, each with the entries found under it and the look at which
its turn came (`recorded_loop`). A step that is not over before the token
fires is the last one (`Ended`). So the visits of a cancelled comparison
are the first ones of the undisturbed comparison (`Follows`,
`visits_start`).
-/
import FileManager.Comparison.Proofs.Turns

namespace FileManager.Comparison

open Vfs (EntrySummary)
open List Checksums
open Traversal (compareNames recorded compareDir warn loop turn flush start hashPair)

variable {fuel : Nat} {t t' : Traversal} {leftRoot rightRoot : Location}
  {leftByName rightByName : List (String × EntrySummary)} {dir : PendingDir}

-- ==== visits

/-- A name whose turn has come. -/
structure Visit where
  relativePath : String
  left : Option EntrySummary
  right : Option EntrySummary
  /-- The number of the next look at the token. -/
  look : Nat

def Visit.row (env : Env) (criteria : ComparisonCriteria) (visit : Visit) :
    Option ComparisonEntry :=
  rowWith criteria visit.relativePath (pairHashes env visit.look visit.left visit.right)
    visit.left visit.right

variable (env : Env) (options : ComparisonOptions)

/-- The visits of the loop over the names of a directory pair. -/
def nameVisits (dir : PendingDir) (leftByName rightByName : List (String × EntrySummary)) :
    List String → Traversal → List Visit
  | [], _ => []
  | name :: rest, t =>
    if env.token.isCancelled t.look then []
    else
      ⟨relativeJoin dir.relativePath name, Keyed.get leftByName name,
          Keyed.get rightByName name, t.look + 1⟩
        :: nameVisits dir leftByName rightByName rest
          ({ t with look := t.look + 1 }.compareName env options dir leftByName rightByName name)

/-- The visits of a directory pair. -/
def dirVisits (dir : PendingDir) (t : Traversal) : List Visit :=
  match env.providers.listAll env.token dir.left t.look with
  | (none, _) => []
  | (some leftChildren, look) =>
    match env.providers.listAll env.token dir.right look with
    | (none, _) => []
    | (some rightChildren, look) =>
      nameVisits env options dir (indexByName leftChildren options.showHidden)
        (indexByName rightChildren options.showHidden)
        (namesOf (indexByName leftChildren options.showHidden)
          (indexByName rightChildren options.showHidden)) { t with look := look }

/-- The visits of one turn of the loop over the stack. -/
def turnVisits (t : Traversal) : List Visit :=
  match t.stack with
  | [] => []
  | dir :: stack =>
    if env.token.isCancelled t.look then []
    else if (dir.left, dir.right) ∈ t.visited then []
    else
      dirVisits env options dir { t with
        stack := stack
        visited := (dir.left, dir.right) :: t.visited
        look := t.look + 1 }

/-- The visits of the loop over the stack. -/
def visits : Nat → Traversal → List Visit
  | 0, _ => []
  | fuel + 1, t =>
    match t.turn env options with
    | .leave _ => []
    | .next t' => turnVisits env options t ++ visits fuel t'

variable {env options}

-- ==== rows are of visits

theorem recorded_compareNames (dir : PendingDir)
    (leftByName rightByName : List (String × EntrySummary)) (names : List String) (t : Traversal) :
    (t.compareNames env options dir leftByName rightByName names).recorded
      = t.recorded ++ (nameVisits env options dir leftByName rightByName names t).filterMap
        (Visit.row env options.criteria) := by
  induction names generalizing t with
  | nil =>
    unfold compareNames nameVisits
    simp
  | cons name rest ih =>
    unfold compareNames nameVisits
    by_cases hcancelled : env.token.isCancelled t.look = true
    · rw [if_pos hcancelled, if_pos hcancelled]
      simp [recorded]
    · rw [if_neg hcancelled, if_neg hcancelled, ih,
        (compareName_spec env options dir leftByName rightByName name
          { t with look := t.look + 1 }).1, filterMap_cons]
      unfold Visit.row
      simp only
      split
      case h_1 hrow | h_2 row hrow =>
        rw [hrow]
        simp [recorded]

theorem recorded_compareDir (dir : PendingDir) (t : Traversal) :
    (t.compareDir env options dir).recorded = t.recorded ++ (dirVisits env options dir t).filterMap
        (Visit.row env options.criteria) := by
  unfold compareDir dirVisits
  generalize env.providers.listAll env.token dir.left t.look = listed
  obtain ⟨left, look⟩ := listed
  cases left with
  | none => simp [warn, recorded]
  | some left =>
    simp only
    generalize env.providers.listAll env.token dir.right look = listed
    obtain ⟨right, look'⟩ := listed
    cases right with
    | none => simp [warn, recorded]
    | some right => exact recorded_compareNames dir _ _ _ { t with look := look' }

theorem recorded_loop (hloop : loop env options fuel t = some t') :
    t'.recorded = t.recorded ++ (visits env options fuel t).filterMap
      (Visit.row env options.criteria) := by
  induction fuel generalizing t with
  | zero => cases hloop
  | succ fuel ih =>
    unfold loop at hloop
    unfold visits
    cases hstack : t.stack with
    | nil =>
      have hturn : t.turn env options = .leave t := by
        unfold turn
        rw [hstack]
      rw [hturn] at hloop ⊢
      injection hloop with heq
      rw [heq]
      simp
    | cons dir stack =>
      unfold turnVisits
      rw [hstack]
      simp only
      unfold turn at hloop ⊢
      rw [hstack] at hloop ⊢
      by_cases hcancelled : env.token.isCancelled t.look = true
      · simp only [if_pos hcancelled] at hloop ⊢
        injection hloop with heq
        rw [← heq]
        simp [recorded]
      · by_cases hvisited : (dir.left, dir.right) ∈ t.visited
        · simp only [if_neg hcancelled, if_pos hvisited] at hloop ⊢
          rw [ih hloop]
          simp [recorded]
        · simp only [if_neg hcancelled, if_neg hvisited] at hloop ⊢
          rw [ih hloop, recorded_compareDir, filterMap_append, ← append_assoc]
          rfl

theorem entries_eq_rows (hrun : runComparison env options leftRoot rightRoot fuel = some t) :
    t.store.entries = (visits env options fuel (.start leftRoot rightRoot)).filterMap
      (Visit.row env options.criteria) := by
  unfold runComparison at hrun
  obtain ⟨last, hloop, rfl⟩ := Option.map_eq_some_iff.mp hrun
  have hflushed : (last.flush true).store.entries = (last.flush true).recorded := by
    unfold recorded flush
    simp
  rw [hflushed, (flush_spec true last).1, recorded_loop hloop]
  simp [recorded, start]

-- ==== a token that fires

/-- A step does what it does with an idle token, or the token is seen
cancelled after it. -/
def Ended (env : Env) (t idle : Traversal) : Prop := t = idle ∨ env.token.isCancelled t.look = true

theorem le_hashEntry (env : Env) (entry : EntrySummary) (look : Nat) :
    look ≤ (hashEntry env entry look).2 := by
  have hle := le_hashEntryBounded env.digests env.providers env.token entry.entry
    [.sha256] none look
  unfold hashEntry Checksums.hashEntry
  generalize hashEntryBounded env.digests env.providers env.token entry.entry
    [.sha256] none look = hashed at hle ⊢
  obtain ⟨result, after⟩ := hashed
  cases result <;> exact hle

theorem undisturbed_hashEntry (env : Env) (entry : EntrySummary) (look : Nat) :
    env.token.Undisturbed (hashEntry env entry look) (hashEntry env.idle entry look) := by
  unfold hashEntry Checksums.hashEntry
  rcases undisturbed_hashEntryBounded env.digests env.providers env.token entry.entry
    [.sha256] none look with heq | hcancelled
  · rw [heq]
    exact .inl rfl
  · refine .inr ?_
    generalize hashEntryBounded env.digests env.providers env.token entry.entry
      [.sha256] none look = hashed at hcancelled ⊢
    obtain ⟨result, after⟩ := hashed
    cases result <;> exact hcancelled

theorem hashPair_ended (env : Env) (left right : EntrySummary) (t : Traversal) :
    t.hashPair env left right = t.hashPair env.idle left right
      ∨ env.token.isCancelled (t.hashPair env left right).2.look = true := by
  unfold hashPair
  rcases undisturbed_hashEntry env left t.look with hleft | hleft
  · rw [hleft]
    generalize hashEntry env.idle left t.look = hashed
    obtain ⟨leftHash, look⟩ := hashed
    simp only
    rcases undisturbed_hashEntry env right look with hright | hright
    · rw [hright]
      exact .inl rfl
    · exact .inr hright
  · refine .inr ?_
    generalize hashEntry env left t.look = hashed at hleft ⊢
    obtain ⟨leftHash, look⟩ := hashed
    exact env.token.isCancelled_mono (le_hashEntry env right look) hleft

theorem compareName_ended (env : Env) (options : ComparisonOptions) (dir : PendingDir)
    (leftByName rightByName : List (String × EntrySummary)) (name : String) (t : Traversal) :
    Ended env (t.compareName env options dir leftByName rightByName name)
      (t.compareName env.idle options dir leftByName rightByName name) := by
  unfold Traversal.compareName
  cases Keyed.get leftByName name with
  | none => cases Keyed.get rightByName name <;> exact .inl rfl
  | some left =>
    cases Keyed.get rightByName name with
    | none => exact .inl rfl
    | some right =>
      simp only
      split
      case isTrue => exact .inl rfl
      case isFalse =>
        split
        case isFalse => exact .inl rfl
        case isTrue =>
          rcases hashPair_ended env left right t with heq | hcancelled
          · rw [heq]
            exact .inl rfl
          · refine .inr ?_
            rw [(flushIfDue_record_spec env _ _).2.2.2]
            exact hcancelled

theorem nameVisits_cancelled (names : List String) (h : env.token.isCancelled t.look = true) :
    nameVisits env options dir leftByName rightByName names t = [] := by
  cases names with
  | nil => rfl
  | cons name rest =>
    unfold nameVisits
    rw [if_pos h]

theorem compareNames_cancelled (names : List String) (h : env.token.isCancelled t.look = true) :
    env.token.isCancelled
      (t.compareNames env options dir leftByName rightByName names).look = true := by
  cases names with
  | nil => exact h
  | cons name rest =>
    unfold compareNames
    rw [if_pos h]
    exact env.token.isCancelled_mono (Nat.le_succ t.look) h

/-- The same with an idle token, or the token is seen cancelled
afterwards, with no visits but first ones of the idle token's. -/
def Follows (env : Env) (t idle : Traversal) (made wouldMake : List Visit) : Prop :=
  (t = idle ∧ made = wouldMake) ∨ (env.token.isCancelled t.look = true ∧ made <+: wouldMake)

theorem follows_of_cancelled (names : List String) {idle : Traversal} {wouldMake : List Visit}
    (h : env.token.isCancelled t.look = true) :
    Follows env (t.compareNames env options dir leftByName rightByName names) idle
      (nameVisits env options dir leftByName rightByName names t) wouldMake := by
  refine .inr ⟨compareNames_cancelled names h, ?_⟩
  rw [nameVisits_cancelled names h]
  exact nil_prefix

theorem compareNames_follows (dir : PendingDir)
    (leftByName rightByName : List (String × EntrySummary)) (names : List String) (t : Traversal) :
    Follows env (t.compareNames env options dir leftByName rightByName names)
      (t.compareNames env.idle options dir leftByName rightByName names)
      (nameVisits env options dir leftByName rightByName names t)
      (nameVisits env.idle options dir leftByName rightByName names t) := by
  induction names generalizing t with
  | nil => exact .inl ⟨rfl, rfl⟩
  | cons name rest ih =>
    by_cases hcancelled : env.token.isCancelled t.look = true
    · exact follows_of_cancelled _ hcancelled
    · unfold compareNames nameVisits
      have hidle : ¬ env.idle.token.isCancelled t.look = true := by simp [Env.idle]
      rw [if_neg hcancelled, if_neg hcancelled, if_neg hidle, if_neg hidle]
      rcases compareName_ended env options dir leftByName rightByName name
        { t with look := t.look + 1 } with heq | hended
      · rw [heq]
        rcases ih ({ t with look := t.look + 1 }.compareName env.idle options dir leftByName
          rightByName name) with ⟨hsame, hvisits⟩ | ⟨hended, hvisits⟩
        · exact .inl ⟨hsame, by rw [hvisits]⟩
        · exact .inr ⟨hended, (prefix_cons_inj _).mpr hvisits⟩
      · refine .inr ⟨compareNames_cancelled rest hended, ?_⟩
        rw [nameVisits_cancelled rest hended]
        exact (prefix_cons_inj _).mpr nil_prefix

theorem compareDir_follows (env : Env) (options : ComparisonOptions) (dir : PendingDir)
    (t : Traversal) :
    Follows env (t.compareDir env options dir) (t.compareDir env.idle options dir)
      (dirVisits env options dir t) (dirVisits env.idle options dir t) := by
  unfold compareDir dirVisits
  rcases env.providers.undisturbed_listAll dir.left env.token t.look with hleft | hleft
  · rw [hleft]
    simp only [show env.idle.providers = env.providers from rfl,
      show env.idle.token = .idle from rfl]
    generalize env.providers.listAll .idle dir.left t.look = listed
    obtain ⟨left, look⟩ := listed
    cases left with
    | none => exact .inl ⟨rfl, rfl⟩
    | some left =>
      simp only
      rcases env.providers.undisturbed_listAll dir.right env.token look with hright | hright
      · rw [hright]
        generalize env.providers.listAll .idle dir.right look = listed
        obtain ⟨right, look'⟩ := listed
        cases right with
        | none => exact .inl ⟨rfl, rfl⟩
        | some right => exact compareNames_follows dir _ _ _ _
      · generalize env.providers.listAll env.token dir.right look = listed at hright ⊢
        obtain ⟨right, look'⟩ := listed
        cases right with
        | none => exact .inr ⟨hright, nil_prefix⟩
        | some right => exact follows_of_cancelled _ hright
  · generalize env.providers.listAll env.token dir.left t.look = listed at hleft ⊢
    obtain ⟨left, look⟩ := listed
    cases left with
    | none => exact .inr ⟨hleft, nil_prefix⟩
    | some left =>
      have hright := env.token.isCancelled_mono
        (env.providers.le_listAll dir.right env.token look) hleft
      simp only
      generalize env.providers.listAll env.token dir.right look = listed at hright ⊢
      obtain ⟨right, look'⟩ := listed
      cases right with
      | none => exact .inr ⟨hright, nil_prefix⟩
      | some right => exact follows_of_cancelled _ hright

theorem visits_cancelled (fuel : Nat)
    (h : env.token.isCancelled t.look = true) : visits env options fuel t = [] := by
  cases fuel with
  | zero => rfl
  | succ fuel =>
    unfold visits turn
    cases t.stack with
    | nil => rfl
    | cons dir stack =>
      simp only
      rw [if_pos h]

theorem visits_start (fuel : Nat) (t : Traversal) :
    visits env options fuel t <+: visits env.idle options fuel t := by
  induction fuel generalizing t with
  | zero => exact prefix_refl _
  | succ fuel ih =>
    by_cases hcancelled : env.token.isCancelled t.look = true
    · rw [visits_cancelled _ hcancelled]
      exact nil_prefix
    · have hidle : ¬ env.idle.token.isCancelled t.look = true := by simp [Env.idle]
      unfold visits turn turnVisits
      cases t.stack with
      | nil => exact prefix_refl _
      | cons dir stack =>
        simp only
        rw [if_neg hcancelled, if_neg hcancelled, if_neg hidle, if_neg hidle]
        by_cases hvisited : (dir.left, dir.right) ∈ t.visited
        · simp only [if_pos hvisited, nil_append]
          exact ih _
        · simp only [if_neg hvisited]
          rcases compareDir_follows env options dir { t with
            stack := stack
            visited := (dir.left, dir.right) :: t.visited
            look := t.look + 1 } with ⟨hsame, hmade⟩ | ⟨hended, hmade⟩
          · rw [hsame, hmade]
            exact (prefix_append_right_inj _).mpr (ih _)
          · rw [visits_cancelled fuel hended, append_nil]
            exact hmade.trans (prefix_append _ _)

theorem visits_of_loop (hloop : loop env options fuel t = some t')
    (other : Nat) : visits env options other t <+: visits env options fuel t := by
  induction fuel generalizing t other with
  | zero => cases hloop
  | succ fuel ih =>
    cases other with
    | zero => exact nil_prefix
    | succ other =>
      unfold loop at hloop
      unfold visits
      cases hturn : t.turn env options with
      | leave last => exact nil_prefix
      | next next =>
        rw [hturn] at hloop
        exact (prefix_append_right_inj _).mpr (ih hloop other)

theorem visits_of_run
    (hrun : runComparison env.idle options leftRoot rightRoot fuel = some t) (other : Nat) :
    visits env options other (.start leftRoot rightRoot)
      <+: visits env.idle options fuel (.start leftRoot rightRoot) := by
  unfold runComparison at hrun
  obtain ⟨last, hloop, -⟩ := Option.map_eq_some_iff.mp hrun
  exact (visits_start other _).trans (visits_of_loop hloop other)

end FileManager.Comparison
