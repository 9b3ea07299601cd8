/-
Where the items of an operation go: planning writes down, for every
entry it reaches, the destination of its last occurrence, and `execute`
asks the first member that knows the entry. So every occurrence is
executed against its own destination exactly if no entry occurs twice
with different ones.

The proof runs the planning loop beside the walk of `Occurrences.lean`:
their stacks correspond, and what the loop has written down is, for
every entry, one of its occurrences (`planLoop_walk`).
-/
import FileManager.Transfers.Occurrences
import FileManager.Transfers.Proofs.Cleanup

namespace FileManager

open List Option

theorem Location.descend_nil (location : Location) : location.descend [] = location := by
  unfold Location.descend
  rw [append_nil]

theorem Location.join_descend {location : Location} {path : List String}
    {name : String} (h : validateName name = .ok ()) :
    (location.descend path).join name = .ok (location.descend (path ++ [name])) := by
  unfold Location.join Location.descend
  rw [h]
  simp

namespace Transfers

open Fallible Machine
open Scheduler (ExecutionError OperationPlan PlanItem)

-- ==== the walk

namespace CopyExecutor

variable {copy : CopyExecutor} {env : Env} {files : Files} {root source : Location}
  {path : List String} {entries : List (Location × List String)} {summary : EntrySummary}
  {fuel : Nat} {rest : List (EntrySummary × List String)} {operation : Operation} {α : Type}
  {st : Planning} {w' w : World}

/-- The planning stack for what is still to be visited. -/
def aimed (root : Location) (stack : List (EntrySummary × List String)) :
    List (EntrySummary × Location) :=
  stack.map fun entry => (entry.1, root.descend entry.2)

theorem aimed_root (root : Location) (summary : EntrySummary) :
    [(summary, root)] = aimed root [(summary, [])] := by
  rw [aimed, map_singleton, Location.descend_nil]

theorem pushPage_aimed (root : Location) (path : List String)
    (children : List EntrySummary) (stack : List (EntrySummary × List String)) :
    ((∀ child ∈ children, validateName child.name = .ok ())
      ∧ pushPage (root.descend path) children (aimed root stack)
        = .ok (aimed root (children.reverse.map (fun child =>
            (child, path ++ [child.name])) ++ stack)))
    ∨ ((∃ child ∈ children, validateName child.name ≠ .ok ())
      ∧ ∃ e, pushPage (root.descend path) children (aimed root stack) = .error e) := by
  induction children generalizing stack with
  | nil => exact .inl ⟨by simp, rfl⟩
  | cons child rest ih =>
    unfold pushPage
    by_cases hvalid : validateName child.name = .ok ()
    · rw [Location.join_descend hvalid]
      rcases ih ((child, path ++ [child.name]) :: stack) with
        ⟨hrest, heq⟩ | ⟨⟨other, hmem, hother⟩, e, heq⟩
      · refine .inl ⟨?_, ?_⟩
        · intro other hmem
          rcases mem_cons.mp hmem with rfl | hmem
          · exact hvalid
          · exact hrest other hmem
        · simp only [aimed, map_cons] at heq ⊢
          rw [heq]
          simp
      · exact .inr ⟨⟨other, mem_cons_of_mem _ hmem, hother⟩, e, heq⟩
    · refine .inr ⟨⟨child, mem_cons_self, hvalid⟩, ?_⟩
      unfold Location.join
      cases hname : validateName child.name with
      | ok u => exact absurd hname hvalid
      | error error => exact ⟨_, rfl⟩

theorem pushPages_aimed (root : Location) (path : List String) (round page : Nat)
    (pages : List (List EntrySummary)) (stack : List (EntrySummary × List String)) :
    (((∀ k < pages.length, env.fault (.list round (page + k)) = none)
        ∧ ∀ child ∈ pages.flatten, validateName child.name = .ok ())
      ∧ pushPages env round (root.descend path) page pages (aimed root stack)
        = .ok (aimed root (pages.reverse.flatten.map (fun child =>
            (child, path ++ [child.name])) ++ stack)))
    ∨ (¬ ((∀ k < pages.length, env.fault (.list round (page + k)) = none)
        ∧ ∀ child ∈ pages.flatten, validateName child.name = .ok ())
      ∧ ∃ e, pushPages env round (root.descend path) page pages (aimed root stack) = .error e) := by
  induction pages generalizing page stack with
  | nil => exact .inl ⟨⟨by simp, by simp⟩, rfl⟩
  | cons entries rest ih =>
    unfold pushPages
    cases hfault : env.fault (.list round page) with
    | some fault =>
      refine .inr ⟨?_, _, rfl⟩
      intro hall
      have := hall.1 0 (by simp)
      rw [Nat.add_zero, hfault] at this
      cases this
    | none =>
      simp only
      rcases pushPage_aimed root path entries.reverse stack with
        ⟨hvalid, heq⟩ | ⟨⟨child, hmem, hchild⟩, e, heq⟩
      · rw [heq, reverse_reverse]
        -- the pages after this one, above its entries
        have hpages : (∀ k < rest.length, env.fault (.list round (page + 1 + k)) = none)
            ↔ ∀ k < (entries :: rest).length, env.fault (.list round (page + k)) = none := by
          constructor
          · intro hrest k hk
            cases k with
            | zero => exact hfault
            | succ k =>
              rw [show page + (k + 1) = page + 1 + k by omega]
              exact hrest k (by simpa using hk)
          · intro hall k hk
            rw [show page + 1 + k = page + (k + 1) by omega]
            exact hall (k + 1) (by simpa using hk)
        have hnames : (∀ child ∈ (entries :: rest).flatten, validateName child.name = .ok ())
            ↔ ∀ child ∈ rest.flatten, validateName child.name = .ok () := by
          rw [flatten_cons, forall_mem_append]
          exact and_iff_right fun child hmem =>
            hvalid child (mem_reverse.mpr hmem)
        rw [← hpages, hnames]
        rcases ih (page + 1) (entries.map (fun child => (child, path ++ [child.name]))
          ++ stack) with ⟨hok, hpush⟩ | ⟨hnot, e, hpush⟩
        · refine .inl ⟨hok, ?_⟩
          show pushPages env round (root.descend path) (page + 1) rest _ = _
          rw [hpush]
          simp
        · exact .inr ⟨hnot, e, hpush⟩
      · rw [heq]
        refine .inr ⟨fun hall => hchild (hall.2 child ?_), e, rfl⟩
        rw [flatten_cons]
        exact mem_append_left _ (mem_reverse.mp hmem)

theorem pushPages_below {round : Nat} {source : EntrySummary} (hkind : source.kind = .directory)
    (stack : List (EntrySummary × List String)) :
    (∃ children, below env files round source = some children
      ∧ pushPages env round (root.descend path) 0 (list env files source.location)
          (aimed root stack) = .ok (aimed root (children.map (fun child =>
            (child, path ++ [child.name])) ++ stack)))
    ∨ (below env files round source = none ∧ ∃ e, pushPages env round (root.descend path) 0
          (list env files source.location) (aimed root stack) = .error e) := by
  unfold below
  rw [if_pos hkind]
  rcases pushPages_aimed root path round 0 (list env files source.location) stack
    with ⟨hok, hpush⟩ | ⟨hnot, e, hpush⟩
  · simp only [Nat.zero_add] at hok
    exact .inl ⟨_, if_pos hok, hpush⟩
  · simp only [Nat.zero_add] at hnot
    exact .inr ⟨if_neg hnot, e, hpush⟩

/-- An entry is planned for one of the places it is reached at. -/
structure PlansAt (root : Location) (entries : List (Location × List String))
    (before after : List (Location × PlannedCopyEntry)) (l : Location) : Prop where
  reached : l ∈ entries.map Prod.fst → ∃ path, (l, path) ∈ entries
    ∧ (Keyed.get after l).map PlannedCopyEntry.destination = some (root.descend path)
  left : l ∉ entries.map Prod.fst → Keyed.get after l = Keyed.get before l

theorem PlansAt.cons {before after : List (Location × PlannedCopyEntry)} {l k : Location}
    {entry : PlannedCopyEntry} (h : PlansAt root entries (Keyed.put before k entry) after l)
    (hentry : entry.destination = root.descend path) :
    PlansAt root ((k, path) :: entries) before after l := by
  by_cases hmem : l ∈ entries.map Prod.fst
  · refine ⟨fun _ => ?_, fun hnot => ?_⟩
    · obtain ⟨path', hpath, hget⟩ := h.reached hmem
      exact ⟨path', mem_cons_of_mem _ hpath, hget⟩
    · exact absurd (mem_cons_of_mem _ hmem) hnot
  · have hget := h.left hmem
    rw [Keyed.get_put] at hget
    by_cases hk : l = k
    · rw [if_pos hk] at hget
      refine ⟨fun _ => ⟨path, ?_, ?_⟩, fun hnot => ?_⟩
      · rw [hk]
        exact mem_cons_self
      · rw [hget, map_some, hentry]
      · exact absurd (by rw [hk]; exact mem_cons_self) hnot
    · rw [if_neg hk] at hget
      refine ⟨fun hcons => ?_, fun _ => hget⟩
      rcases mem_cons.mp hcons with heq | hcons
      · exact absurd heq hk
      · exact absurd hcons hmem

/-- A round that succeeds is a step of the walk. -/
inductive Round (copy : CopyExecutor) (env : Env) (files : Files) (root : Location)
    (fuel : Nat) (summary : EntrySummary) (path : List String)
    (rest : List (EntrySummary × List String)) (st st' : Planning) : Prop
  | skipped
      (stack : st'.stack = aimed root rest)
      (items : st'.items = st.items)
      (planned : st'.planned = st.planned)
      (walk : copy.walk env files (fuel + 1) ((summary, path) :: rest) st.followed
        = copy.walk env files fuel rest st'.followed)
  | planned (next : List (EntrySummary × List String)) (entry : PlannedCopyEntry)
      (stack : st'.stack = aimed root next)
      (destination : entry.destination = root.descend path)
      (items : st'.items.map (·.entry.location)
        = st.items.map (·.entry.location) ++ [summary.location])
      (planned : st'.planned = Keyed.put st.planned summary.location entry)
      (walk : copy.walk env files (fuel + 1) ((summary, path) :: rest) st.followed
        = (copy.walk env files fuel next st'.followed).map ((summary.location, path) :: ·))

theorem visit_error (st : Planning) (hstack : st.stack = aimed root rest) {e : ExecutionError}
    (h : copy.visit env files source fuel summary (root.descend path) st = .error e) :
    copy.walk env files (fuel + 1) ((summary, path) :: rest) st.followed = none := by
  unfold visit at h
  unfold walk
  split at h
  case isTrue hcancelled => rw [if_pos hcancelled]
  case isFalse hcancelled =>
    rw [if_neg hcancelled]
    cases hfollow : copy.follow env files fuel summary st.followed with
    | error error => rfl
    | ok found =>
      rw [hfollow] at h
      cases found with
      | none => cases h
      | some found =>
        obtain ⟨target, followed⟩ := found
        simp only [planEntry] at h ⊢
        split at h
        case isFalse => cases h
        case isTrue hkind =>
          rw [hstack] at h
          rcases pushPages_below hkind rest with
            ⟨children, hbelow, hpush⟩ | ⟨hbelow, e', hpush⟩
          · rw [hpush] at h
            cases h
          · rw [hbelow]

theorem visit_ok (st : Planning) {st' : Planning} (hstack : st.stack = aimed root rest)
    (h : copy.visit env files source fuel summary (root.descend path) st = .ok st') :
    Round copy env files root fuel summary path rest st st' := by
  unfold visit at h
  obtain ⟨hcancelled, h⟩ := passed h nofun
  split at h
  case h_1 error hfollow => cases h
  case h_2 hfollow =>
    cases h
    refine .skipped hstack rfl rfl ?_
    rw [walk, if_neg hcancelled, hfollow]
  case h_3 target followed hfollow =>
    simp only [planEntry] at h
    split at h
    case isFalse hkind =>
      cases h
      refine .planned rest _ hstack rfl (by simp [EntrySummary.entry]) rfl ?_
      rw [walk, if_neg hcancelled, hfollow]
      simp [below, hkind]
    case isTrue hkind =>
      rw [hstack] at h
      rcases pushPages_below hkind rest with ⟨children, hbelow, hpush⟩ | ⟨hbelow, e', hpush⟩
      · rw [hpush] at h
        cases h
        refine .planned _ _ rfl rfl (by simp [EntrySummary.entry]) rfl ?_
        rw [walk, if_neg hcancelled, hfollow]
        simp only [hbelow]
      · simp [hpush] at h

/-- What the loop returns, beside what the walk returns. -/
def Follows (root : Location) (walked : Option (List (Location × List String)))
    (st : Planning) : Except ExecutionError Planning → Prop
  | .error _ => walked = none
  | .ok st' => ∃ entries, walked = some entries
      ∧ st'.items.map (·.entry.location) = st.items.map (·.entry.location) ++ entries.map Prod.fst
      ∧ ∀ l, PlansAt root entries st.planned st'.planned l

theorem follows_nil : Follows root (some []) st (.ok st) := by
  refine ⟨[], rfl, by simp, fun l => ⟨?_, fun _ => rfl⟩⟩
  intro hmem
  cases hmem

theorem planLoop_walk (fuel : Nat) (stack : List (EntrySummary × List String))
    (hstack : st.stack = aimed root stack) {result : Except ExecutionError Planning}
    (h : copy.planLoop env files source fuel st = some result) :
    Follows root (copy.walk env files fuel stack st.followed) st result := by
  induction fuel generalizing stack st with
  | zero =>
    unfold planLoop at h
    rw [hstack] at h
    cases stack with
    | nil =>
      cases h
      unfold walk
      exact follows_nil
    | cons top rest => cases h
  | succ fuel ih =>
    unfold planLoop at h
    rw [hstack] at h
    cases stack with
    | nil =>
      cases h
      unfold walk
      exact follows_nil
    | cons top rest =>
      obtain ⟨summary, path⟩ := top
      simp only [aimed, map_cons] at h
      split at h
      case h_1 error hvisit =>
        cases h
        exact visit_error { st with stack := aimed root rest } rfl hvisit
      case h_2 st₁ hvisit =>
        cases visit_ok { st with stack := aimed root rest } rfl hvisit with
        | skipped hnext hitems hplanned hwalk =>
          have hrest := ih rest hnext h
          rw [← hwalk] at hrest
          unfold Follows at hrest ⊢
          rw [hitems, hplanned] at hrest
          exact hrest
        | planned next entry hnext hdestination hitems hplanned hwalk =>
          have hrest := ih next hnext h
          cases result with
          | error error => exact hwalk.trans (by rw [hrest]; rfl)
          | ok st' =>
            obtain ⟨entries, hentries, hlocations, hplans⟩ := hrest
            rw [hitems] at hlocations
            refine ⟨(summary.location, path) :: entries, ?_, ?_, ?_⟩
            · exact hwalk.trans (by rw [hentries]; rfl)
            · rw [hlocations]
              simp
            · intro l
              have := hplans l
              rw [hplanned] at this
              exact this.cons hdestination

/-- What a call of `plan` returns, beside what the copy reaches. -/
inductive PlansReach (reached : Option Reach) (w : World) :
    Except ExecutionError OperationPlan → World → Prop
  | failed {e : ExecutionError} (none : reached = none) : PlansReach reached w (.error e) w
  | planned {plan : OperationPlan} {w' : World} (reach : Reach)
      (some : reached = some reach)
      (items : plan.items.map (·.entry.location) = reach.entries.map Prod.fst)
      (disk : w'.disk = w.disk) (fallback : w'.fallback = w.fallback)
      (planned : ∀ l, PlansAt reach.root reach.entries [] w'.cells.planned l) :
      PlansReach reached w (.ok plan) w'

/-- What a call that only reads answers. -/
def Answers {α : Type} (p : Exec α) (answer : World → Option α) : Prop :=
  ∀ w r w', Yields p w r w' → w' = w ∧ r.toOption = answer w

theorem answers_consult {call : Call} {answer : Files → Except VfsError α} :
    Answers (consult env call answer) fun w => (env.ask call (answer w.disk.files)).toOption := by
  intro w r w' h
  obtain ⟨rfl, rfl⟩ := yields_reads.mp h
  refine ⟨rfl, ?_⟩
  simp only
  cases env.ask call (answer w'.disk.files) <;> rfl

theorem answers_orFail {ε : Type} {message : ε → String} {result : Except ε α} :
    Answers (orFail message result) fun _ => result.toOption := by
  intro w r w' h
  cases result with
  | ok a =>
    obtain ⟨rfl, rfl⟩ := yields_pure.mp h
    exact ⟨rfl, rfl⟩
  | error e =>
    obtain ⟨rfl, rfl⟩ := yields_throw.mp h
    exact ⟨rfl, rfl⟩

theorem answers_sourceOf :
    Answers (copy.sourceOf operation) fun _ =>
      copy.sourceOverride.or (operation.sources.head?.map EntryRef.location) := by
  intro w r w' h
  unfold sourceOf at h
  split at h
  case h_1 hover =>
    obtain ⟨rfl, rfl⟩ := yields_pure.mp h
    rw [hover]
    exact ⟨rfl, rfl⟩
  case h_2 hover hsources =>
    obtain ⟨rfl, rfl⟩ := yields_pure.mp h
    rw [hover, hsources]
    exact ⟨rfl, rfl⟩
  case h_3 hover hsources =>
    obtain ⟨rfl, rfl⟩ := yields_throw.mp h
    rw [hover, hsources]
    exact ⟨rfl, rfl⟩

theorem Answers.bind {β : Type} {p : Exec α} {f : α → Exec β} {answer : World → Option α}
    (hp : Answers p answer) {r : Except ExecutionError β} (h : Yields (p >>= f) w r w') :
    (∃ a, answer w = some a ∧ Yields (f a) w r w')
      ∨ (answer w = none ∧ w' = w ∧ ∃ e, r = .error e) := by
  rw [yields_bind] at h
  rcases h with ⟨a, w₁, hfirst, h⟩ | ⟨e, hfirst, rfl⟩
  · obtain ⟨rfl, hanswer⟩ := hp _ _ _ hfirst
    exact .inl ⟨a, hanswer.symm, h⟩
  · obtain ⟨rfl, hanswer⟩ := hp _ _ _ hfirst
    exact .inr ⟨hanswer.symm, rfl, e, rfl⟩

theorem plan_reach {r : Except ExecutionError OperationPlan}
    (h : Yields (copy.plan env operation fuel) w r w') :
    PlansReach (copy.reach env w.disk.files operation w.cells.rootName fuel) w r w' := by
  unfold plan at h
  unfold reach
  replace h := answers_sourceOf.bind h
  rcases h with ⟨source, hsource, h⟩ | ⟨hnone, rfl, e, rfl⟩
  case inr =>
    rw [hnone]
    exact .failed rfl
  rw [hsource]
  simp only [bind_eq_bind, bind_some]
  replace h := answers_consult.bind h
  rcases h with ⟨summary, hsummary, h⟩ | ⟨hnone, rfl, e, rfl⟩
  case inr =>
    rw [hnone]
    exact .failed rfl
  rw [hsummary]
  simp only [bind_some]
  rw [yields_gets_bind] at h
  replace h := answers_orFail.bind h
  rcases h with ⟨root, hroot, h⟩ | ⟨hnone, rfl, e, rfl⟩
  case inr =>
    rw [hnone]
    exact .failed rfl
  rw [hroot]
  simp only [bind_some]
  rw [yields_bind] at h
  -- the paths are checked where both are of one provider
  rcases h with ⟨_, w₂, hpaths, h⟩ | ⟨e, hpaths, rfl⟩
  case inr =>
    rcases yields_onlyIf.mp hpaths with ⟨hsame, hpaths⟩ | ⟨-, heq, -⟩
    case inr => cases heq
    obtain ⟨rfl, hnone⟩ := answers_orFail _ _ _ hpaths
    refine .failed (if_pos ⟨of_decide_eq_true hsame, ?_⟩)
    intro hok
    rw [hok] at hnone
    cases hnone
  have hvalid : w₂ = w ∧ ¬ (source.providerId = root.providerId
      ∧ validatePaths source root ≠ .ok ()) := by
    rcases yields_onlyIf.mp hpaths with ⟨-, hpaths⟩ | ⟨hother, -, hw⟩
    · obtain ⟨hw, hok⟩ := answers_orFail _ _ _ hpaths
      refine ⟨hw, fun ⟨_, hbad⟩ => hbad ?_⟩
      cases hcheck : validatePaths source root with
      | ok u => rfl
      | error e =>
        rw [hcheck] at hok
        cases hok
    · exact ⟨hw, fun ⟨hsame, _⟩ => of_decide_eq_false hother hsame⟩
  obtain ⟨rfl, hvalid⟩ := hvalid
  rw [if_neg hvalid]
  rw [yields_bind] at h
  rcases h with ⟨st, w₃, hplanning, h⟩ | ⟨e, hplanning, rfl⟩
  case inr =>
    obtain ⟨rfl, hloop⟩ := yields_runPlanning hplanning
    have hwalk : copy.walk env _ fuel [(summary, [])] [] = none :=
      planLoop_walk fuel [(summary, [])] (aimed_root _ _) hloop
    rw [hwalk]
    exact .failed rfl
  obtain ⟨rfl, hloop⟩ := yields_runPlanning hplanning
  obtain ⟨entries, hwalk, hitems, hplans⟩ :=
    planLoop_walk fuel [(summary, [])] (aimed_root root summary) hloop
  replace h := yields_writes_bind.mp h
  split at h
  case isFalse => exact absurd h not_yields_stuck
  case isTrue fits =>
    obtain ⟨rfl, rfl⟩ := yields_pure.mp h
    refine .planned { root := root, entries := entries } ?_ hitems rfl rfl hplans
    rw [hwalk]
    rfl

theorem follow_root : copy.follow env files fuel summary [] ≠ .ok none := by
  intro h
  unfold follow at h
  split at h
  case isTrue =>
    split at h
    case h_1 => cases h
    case h_2 target _ =>
      split at h
      case isTrue => simp at h
      case isFalse => cases h
  case isFalse =>
    split at h <;> cases h

theorem mem_walk_root (h : copy.walk env files fuel [(summary, [])] [] = some entries) :
    (summary.location, []) ∈ entries := by
  cases fuel with
  | zero => unfold walk at h; cases h
  | succ fuel =>
    unfold walk at h
    obtain ⟨-, h⟩ := passed h nofun
    split at h
    case h_1 => cases h
    case h_2 hfollow => exact absurd hfollow follow_root
    case h_3 source followed hfollow =>
      split at h
      case h_1 => cases h
      case h_2 children hbelow =>
        obtain ⟨rest, -, rfl⟩ := map_eq_some_iff.mp h
        exact mem_cons_self

theorem mem_reach_source {rootName : Option String} (hsource : copy.sourceOverride = some source)
    {reach : Reach} (h : copy.reach env files operation rootName fuel = some reach) :
    source ∈ reach.entries.map Prod.fst := by
  unfold CopyExecutor.reach at h
  rw [hsource] at h
  simp only [some_or, bind_eq_bind, bind_some, bind_eq_some_iff] at h
  obtain ⟨summary, hsummary, root, -, h⟩ := h
  obtain ⟨-, h⟩ := passed h nofun
  obtain ⟨entries, hwalk, rfl⟩ := map_eq_some_iff.mp h
  have hlocation : summary.location = source := by
    unfold Env.ask at hsummary
    split at hsummary
    case h_1 => cases hsummary
    case h_2 =>
      cases hinspect : inspect env files source with
      | error e => rw [hinspect] at hsummary; cases hsummary
      | ok found =>
        rw [hinspect] at hsummary
        injection hsummary with hsummary
        rw [← hsummary]
        exact (inspect_eq_ok hinspect).1
  rw [← hlocation]
  exact mem_map_of_mem (mem_walk_root hwalk)

end CopyExecutor

-- ==== the members

namespace Member

variable {member : Member} {env : Env} {operation : Operation} {fuel : Nat}
  {r : Except ExecutionError OperationPlan} {w w' : World} {name : String}

/-- What a member has written down, beside what it reaches: it knows what
it reaches, each entry for one of its places. One that reaches nothing
knows at most its source. -/
def Holds (member : Member) (seat : Seat) : Option Reach → Prop
  | some reach =>
    (∀ l, member.knows l seat.cells = true ↔ l ∈ reach.entries.map Prod.fst)
    ∧ ∀ l ∈ reach.entries.map Prod.fst, ∃ path, (l, path) ∈ reach.entries
        ∧ member.destinationOf seat l = some (reach.root.descend path)
  | none => ∀ l, member.knows l seat.cells = true → member.staleSource = some (.ok l)

structure PlansMember (member : Member) (reached : Option Reach) (disk : Disk)
    (r : Except ExecutionError OperationPlan) (w' : World) : Prop where
  disk : w'.disk = disk
  holds : member.Holds { cells := w'.cells, fallback := w'.fallback } reached
  failed : ∀ e, r = .error e → reached = none
  planned : ∀ plan, r = .ok plan → ∃ reach, reached = some reach
    ∧ plan.items.map (·.entry.location) = reach.entries.map Prod.fst

theorem planned_isSome {reach : Reach} {planned : List (Location × PlannedCopyEntry)}
    (h : ∀ l, CopyExecutor.PlansAt reach.root reach.entries [] planned l) (l : Location) :
    (Keyed.get planned l).isSome = true ↔ l ∈ reach.entries.map Prod.fst := by
  by_cases hmem : l ∈ reach.entries.map Prod.fst
  · obtain ⟨path, -, hget⟩ := (h l).reached hmem
    obtain ⟨entry, hentry, -⟩ := map_eq_some_iff.mp hget
    rw [hentry]
    exact ⟨fun _ => hmem, fun _ => rfl⟩
  · rw [(h l).left hmem]
    exact ⟨fun hsome => Bool.noConfusion hsome, fun hmem' => absurd hmem' hmem⟩

theorem plansMember_of_planned {reached : Option Reach} {disk : Disk}
    (hplan : CopyExecutor.PlansReach reached w r w') (hdisk : w.disk = disk)
    (hfresh : w.cells.planned = []) (hknown : ∀ l, (Keyed.get w'.cells.planned l).isSome = true →
      member.knows l w'.cells = true) (hknows : ∀ l, member.knows l w'.cells = true →
      (Keyed.get w'.cells.planned l).isSome = true ∨ (member.staleSource = some (.ok l)
          ∧ ∀ reach, reached = some reach → l ∈ reach.entries.map Prod.fst)) (hdestination : ∀ l,
      member.destinationOf { cells := w'.cells, fallback := w'.fallback } l
        = (Keyed.get w'.cells.planned l).map PlannedCopyEntry.destination) :
    PlansMember member reached disk r w' := by
  cases hplan with
  | failed hnone =>
    subst hnone
    refine ⟨hdisk, ?_, fun _ _ => rfl, fun plan hplan => by cases hplan⟩
    intro l hl
    rcases hknows l hl with hsome | ⟨hstale, -⟩
    · rw [hfresh] at hsome
      cases hsome
    · exact hstale
  | planned reach hsome hitems hsame hfallback hplanned =>
    subst hsome
    refine ⟨hsame.trans hdisk, ⟨fun l => ⟨fun hl => ?_, fun hl => ?_⟩, fun l hl => ?_⟩, ?_, ?_⟩
    · rcases hknows l hl with hsome | ⟨-, hmem⟩
      · exact (planned_isSome hplanned l).mp hsome
      · exact hmem reach rfl
    · exact hknown l ((planned_isSome hplanned l).mpr hl)
    · obtain ⟨path, hpath, hget⟩ := (hplanned l).reached hl
      exact ⟨path, hpath, (hdestination l).trans hget⟩
    · intro e he
      cases he
    · intro plan hplan
      cases hplan
      exact ⟨reach, rfl, hitems⟩

variable {executor : CopyExecutor}

theorem plansMember_copy (hfresh : w.cells = {})
    (h : Yields ((Member.copy executor).plan env operation fuel) w r w') :
    PlansMember (.copy executor)
      ((Member.copy executor).reach env w.disk.files operation fuel) w.disk r w' := by
  have hplan := CopyExecutor.plan_reach h
  rw [hfresh] at hplan
  exact plansMember_of_planned hplan rfl (by rw [hfresh]) (fun _ hl => hl)
    (fun _ hl => .inl hl) fun _ => rfl

theorem answers_duplicateFrom {directory : Location} (fuel index : Nat) :
    CopyExecutor.Answers (duplicateFrom env directory name fuel index) fun w =>
      freeName env w.disk.files directory name fuel index := by
  induction fuel generalizing index with
  | zero => exact fun _ _ _ h => absurd h not_yields_stuck
  | succ fuel ih =>
    intro w r w' h
    unfold duplicateFrom at h
    simp only [freeName]
    replace h := CopyExecutor.answers_orFail.bind h
    rcases h with ⟨destination, hjoin, h⟩ | ⟨hnone, rfl, e, rfl⟩
    case inr =>
      refine ⟨rfl, ?_⟩
      cases hjoin : directory.join (duplicateName name index) with
      | ok destination => rw [hjoin] at hnone; cases hnone
      | error e' => rfl
    cases hjoin' : directory.join (duplicateName name index) with
    | error e => rw [hjoin'] at hjoin; cases hjoin
    | ok destination' =>
      rw [hjoin'] at hjoin
      injection hjoin with hjoin
      subst hjoin
      rw [yields_gets_bind] at h
      dsimp only
      cases hask : env.ask (.probe index) (inspect env w.disk.files destination') with
      | ok existing =>
        rw [hask] at h
        exact ih _ _ _ _ h
      | error error =>
        rw [hask] at h
        cases error
        case notFound location =>
          obtain ⟨rfl, rfl⟩ := yields_pure.mp h
          exact ⟨rfl, rfl⟩
        all_goals
          obtain ⟨rfl, rfl⟩ := yields_throw.mp h
          exact ⟨rfl, rfl⟩

theorem plansMember_duplicate (hfresh : w.cells = {})
    (h : Yields ((Member.duplicate executor).plan env operation fuel) w r w') :
    PlansMember (.duplicate executor)
      ((Member.duplicate executor).reach env w.disk.files operation fuel) w.disk r w' := by
  have hsource : CopyExecutor.Answers (duplicateSource executor)
      fun _ => executor.sourceOverride := by
    intro w r w' h
    unfold duplicateSource at h
    split at h
    case h_1 hover =>
      obtain ⟨rfl, rfl⟩ := yields_pure.mp h
      rw [hover]
      exact ⟨rfl, rfl⟩
    case h_2 hover =>
      obtain ⟨rfl, rfl⟩ := yields_throw.mp h
      rw [hover]
      exact ⟨rfl, rfl⟩
  -- before the copy is planned nothing is written but the name
  have hfailed : ∀ e, PlansMember (.duplicate executor) none w.disk (.error e) w := by
    intro e
    refine ⟨rfl, fun l hl => ?_, fun _ _ => rfl, fun plan hplan => by cases hplan⟩
    unfold knows at hl
    rw [hfresh] at hl
    cases hl
  unfold Member.plan planDuplicate at h
  simp only [Member.reach, bind_eq_bind]
  replace h := hsource.bind h
  rcases h with ⟨source, hover, h⟩ | ⟨hnone, rfl, e, rfl⟩
  case inr =>
    rw [hnone]
    exact hfailed e
  simp only [hover, bind_some]
  replace h := CopyExecutor.answers_orFail.bind h
  rcases h with ⟨name, hname, h⟩ | ⟨hnone, rfl, e, rfl⟩
  case inr =>
    rw [hnone]
    exact hfailed e
  simp only [hname, bind_some]
  replace h := (answers_duplicateFrom fuel 1).bind h
  rcases h with ⟨rootName, hfree, h⟩ | ⟨hnone, rfl, e, rfl⟩
  case inr =>
    rw [hnone]
    exact hfailed e
  simp only [hfree, bind_some]
  replace h := yields_writes_bind.mp h
  have hplan := CopyExecutor.plan_reach h
  exact plansMember_of_planned hplan rfl (by simp only [hfresh])
    (fun _ hl => hl) (fun _ hl => .inl hl) fun _ => rfl

theorem ok_of_toOption {ε α : Type} {result : Except ε α} {a : α}
    (h : result.toOption = some a) : result = .ok a := by
  cases result with
  | ok b => injection h with h; rw [h]
  | error e => cases h

variable {executor : MoveExecutor}

theorem answers_onSameFilesystem :
    CopyExecutor.Answers (executor.onSameFilesystem env) fun _ => renames env executor := by
  unfold MoveExecutor.onSameFilesystem renames
  split
  case isTrue => exact CopyExecutor.answers_consult
  case isFalse =>
    intro w r w' h
    obtain ⟨rfl, rfl⟩ := yields_pure.mp h
    exact ⟨rfl, rfl⟩

theorem holds_renamed {seat : Seat} {root : Location} (hfallback : seat.fallback = false)
    (hfresh : seat.cells.planned = []) (hname : executor.source.name = .ok name)
    (hroot : executor.destinationDirectory.join name = .ok root) :
    (Member.move executor).Holds seat
      (some { root := root, entries := [(executor.source, [])] }) := by
  refine ⟨fun l => ?_, fun l hl => ?_⟩
  · simp [knows, hfresh, Keyed.get]
  · rw [map_singleton, mem_singleton] at hl
    subst hl
    refine ⟨[], mem_singleton.mpr rfl, ?_⟩
    simp only [destinationOf, hfallback, hname, hroot, Location.descend_nil]
    rfl

theorem plansMember_move (hfresh : w.cells = {})
    (h : Yields ((Member.move executor).plan env operation fuel) w r w') :
    PlansMember (.move executor)
      ((Member.move executor).reach env w.disk.files operation fuel) w.disk r w' := by
  have hfailed : ∀ e, PlansMember (.move executor) none w.disk (.error e) w := by
    intro e
    refine ⟨rfl, fun l hl => ?_, fun _ _ => rfl, fun plan hplan => by cases hplan⟩
    simp [knows, hfresh, Keyed.get] at hl
    rw [hl]
    rfl
  unfold Member.plan MoveExecutor.plan at h
  simp only [Member.reach, bind_eq_bind]
  replace h := CopyExecutor.answers_orFail.bind h
  rcases h with ⟨name, hname, h⟩ | ⟨hnone, rfl, e, rfl⟩
  case inr =>
    rw [hnone]
    exact hfailed e
  simp only [hname, bind_some]
  replace h := CopyExecutor.answers_orFail.bind h
  rcases h with ⟨root, hroot, h⟩ | ⟨hnone, rfl, e, rfl⟩
  case inr =>
    rw [hnone]
    exact hfailed e
  simp only [hroot, bind_some]
  replace h := CopyExecutor.answers_orFail.bind h
  rcases h with ⟨_, hpaths, h⟩ | ⟨hnone, rfl, e, rfl⟩
  case inr =>
    rw [hnone]
    exact hfailed e
  simp only [hpaths, bind_some]
  replace h := answers_onSameFilesystem.bind h
  rcases h with ⟨same, hsame, h⟩ | ⟨hnone, rfl, e, rfl⟩
  case inr =>
    rw [hnone]
    exact hfailed e
  simp only [hsame, bind_some]
  replace h := yields_writes_bind.mp h
  cases same with
  | true =>
    obtain ⟨rfl, rfl⟩ := yields_pure.mp h
    refine ⟨rfl, ?_, (by intro e he; cases he), fun plan hplan => ?_⟩
    · exact holds_renamed rfl (by simp only [hfresh]) (ok_of_toOption hname) (ok_of_toOption hroot)
    · cases hplan
      exact ⟨_, rfl, rfl⟩
  | false =>
    have hplan := CopyExecutor.plan_reach h
    simp only [hfresh] at hplan
    have hfallback : w'.fallback = true := by
      cases hplan with
      | failed => rfl
      | planned reach _ _ _ hfallback => exact hfallback
    refine plansMember_of_planned hplan rfl rfl ?_ ?_ ?_
    · intro l hl
      exact Bool.or_eq_true_iff.mpr (.inr hl)
    · intro l hl
      rcases Bool.or_eq_true_iff.mp hl with hl | hl
      · refine .inr ⟨by rw [of_decide_eq_true hl]; rfl, fun reach hreach => ?_⟩
        rw [of_decide_eq_true hl]
        exact CopyExecutor.mem_reach_source rfl hreach
      · exact .inl hl
    · intro l
      simp only [destinationOf, hfallback, if_true]

theorem plansMember (hfresh : w.cells = {}) (h : Yields (member.plan env operation fuel) w r w') :
    PlansMember member (member.reach env w.disk.files operation fuel) w.disk r w' := by
  cases member with
  | copy executor => exact plansMember_copy hfresh h
  | move executor => exact plansMember_move hfresh h
  | duplicate executor => exact plansMember_duplicate hfresh h

end Member

-- ==== the groups

namespace Group

variable {group : Group} {envs : Nat → Env} {operation : Operation} {fuel i : Nat} {files : Files}
  {g g' : GroupWorld} {items : List PlanItem} {member : Member} {members : List Member}
  {reaches : List (Member × Option Reach)} {o : Occurrence} {plan : OperationPlan}

theorem occurrencesOf_cons (pair : Member × Option Reach) (rest : List (Member × Option Reach)) :
    occurrencesOf (pair :: rest) = occurrencesOf [pair] ++ occurrencesOf rest := by
  simp [occurrencesOf]

theorem goneOf_cons (pair : Member × Option Reach) (rest : List (Member × Option Reach)) :
    goneOf (pair :: rest) = goneOf [pair] ++ goneOf rest := by
  unfold goneOf
  rw [← filterMap_append]
  rfl

/-- What one member's planning does to the group. -/
structure Contributes (pair : Member × Option Reach) (i : Nat) (g : GroupWorld)
    (items : List PlanItem) (g' : GroupWorld) : Prop where
  disk : g'.disk = g.disk
  seat : ∃ seat, g'.seats = g.seats.set i seat ∧ pair.1.Holds seat pair.2
  stale : ∀ l, l ∈ g'.stale ↔ l ∈ goneOf [pair] ∨ l ∈ g.stale
  items : items.map (·.entry.location)
    = (occurrencesOf [pair]).map Occurrence.entry ++ goneOf [pair]

theorem planMember_ok {env : Env} (hseat : g.seats[i]? = some {})
    (h : Yields (planMember env operation fuel i member) g (.ok items) g') :
    Contributes (member, member.reach env g.disk.files operation fuel) i g items g' := by
  unfold planMember at h
  obtain ⟨result, g₁, hcaught, h⟩ := yields_bind_ok.mp h
  obtain ⟨r, heq, hcall⟩ := yields_caught.mp hcaught
  cases heq
  obtain ⟨seat, w, hget, hplan, rfl⟩ := yields_onSeat.mp hcall
  rw [hseat] at hget
  cases hget
  have hmember := Member.plansMember rfl hplan
  rw [GroupWorld.at_disk] at hmember
  split at h
  case h_1 plan =>
    obtain ⟨heq, rfl⟩ := yields_pure.mp h
    cases heq
    obtain ⟨reach, hreach, hitems⟩ := hmember.planned plan rfl
    have hholds := hmember.holds
    rw [hreach] at hholds
    rw [hreach]
    refine ⟨hmember.disk, ⟨_, rfl, hholds⟩, ?_, ?_⟩
    · intro l
      simp [goneOf]
    · rw [hitems]
      simp [occurrencesOf, goneOf, Reach.occurrences]
  case h_2 location =>
    have hnone := hmember.failed _ rfl
    have hholds := hmember.holds
    rw [hnone] at hholds
    rw [hnone]
    split at h
    case h_1 => cases (yields_throw.mp h).1
    case h_2 => cases (yields_throw.mp h).1
    case h_3 source hstale =>
      obtain ⟨_, g₂, hwrite, h⟩ := yields_bind_ok.mp h
      obtain ⟨-, rfl⟩ := yields_writes.mp hwrite
      obtain ⟨heq, rfl⟩ := yields_pure.mp h
      cases heq
      refine ⟨hmember.disk, ⟨_, rfl, hholds⟩, ?_, ?_⟩
      · intro l
        simp [goneOf, hstale]
      · simp [occurrencesOf, goneOf, hstale]
  case h_3 => cases (yields_throw.mp h).1

/-- What the planning of all members does to the group. -/
structure ContributesAll (envs : Nat → Env) (operation : Operation) (fuel : Nat)
    (i : Nat) (members : List Member) (g : GroupWorld) (items : List PlanItem)
    (g' : GroupWorld) : Prop where
  disk : g'.disk = g.disk
  before : ∀ j < i, g'.seats[j]? = g.seats[j]?
  seats : ∀ j member, members[j]? = some member → ∃ seat, g'.seats[i + j]? = some seat
    ∧ member.Holds seat (member.reach (envs (i + j)) g.disk.files operation fuel)
  stale : ∀ l, l ∈ g'.stale
    ↔ l ∈ goneOf (reachFrom envs g.disk.files operation fuel i members) ∨ l ∈ g.stale
  items : (items.map (·.entry.location)).Perm
    ((occurrencesOf (reachFrom envs g.disk.files operation fuel i members)).map
        Occurrence.entry
      ++ goneOf (reachFrom envs g.disk.files operation fuel i members))

theorem planMembers_ok (hseats : ∀ j < members.length, g.seats[i + j]? = some {})
    (h : Yields (planMembers envs operation fuel i members) g (.ok items) g') :
    ContributesAll envs operation fuel i members g items g' := by
  induction members generalizing i g items with
  | nil =>
    obtain ⟨heq, rfl⟩ := yields_pure.mp h
    cases heq
    refine ⟨rfl, fun _ _ => rfl, fun j member hj => by simp at hj, fun l => ?_, ?_⟩
    · simp [reachFrom, goneOf]
    · simp [reachFrom, goneOf, occurrencesOf]
  | cons member rest ih =>
    unfold planMembers at h
    obtain ⟨first, g₁, hfirst, h⟩ := yields_bind_ok.mp h
    obtain ⟨more, g₂, hmore, h⟩ := yields_bind_ok.mp h
    obtain ⟨heq, rfl⟩ := yields_pure.mp h
    cases heq
    have hone := planMember_ok (hseats 0 (by simp)) hfirst
    obtain ⟨seat, hset, hholds⟩ := hone.seat
    have hrest : ContributesAll envs operation fuel (i + 1) rest g₁ more g' := by
      refine ih ?_ hmore
      intro j hj
      rw [hset, List.getElem?_set_ne (by omega), Nat.add_assoc, Nat.add_comm 1]
      exact hseats (j + 1) (by simpa using hj)
    have hlt : i < g.seats.length := (List.getElem?_eq_some_iff.mp (hseats 0 (by simp))).1
    have hdisk := hone.disk
    refine ⟨hrest.disk.trans hdisk, ?_, ?_, ?_, ?_⟩
    · intro j hj
      rw [hrest.before j (by omega), hset, List.getElem?_set_ne (by omega)]
    · intro j other hj
      cases j with
      | zero =>
        simp only [List.getElem?_cons_zero, Option.some.injEq] at hj
        subst hj
        refine ⟨seat, ?_, hholds⟩
        rw [Nat.add_zero, hrest.before i (by omega), hset]
        exact List.getElem?_set_self hlt
      | succ j =>
        rw [List.getElem?_cons_succ] at hj
        have hother := hrest.seats j other hj
        rw [hdisk, show i + 1 + j = i + (j + 1) by omega] at hother
        exact hother
    · intro l
      rw [reachFrom, goneOf_cons, mem_append, hrest.stale, hone.stale, hdisk]
      tauto
    · rw [reachFrom, goneOf_cons, occurrencesOf_cons, map_append, map_append, hone.items]
      have hperm := hrest.items
      rw [hdisk] at hperm
      refine (hperm.append_left _).trans ?_
      rw [append_assoc, append_assoc]
      exact (perm_append_comm_assoc _ _ _).append_left _

theorem ownerFrom_ne_none {location : Location} {seats : List Seat} {j : Nat}
    {seat : Seat} (hmember : members[j]? = some member) (hseat : seats[i + j]? = some seat)
    (hknows : member.knows location seat.cells = true) :
    ownerFrom location seats i members ≠ none := by
  induction members generalizing i j with
  | nil => simp at hmember
  | cons head rest ih =>
    unfold ownerFrom
    split
    case isTrue => exact some_ne_none _
    case isFalse hnot =>
      cases j with
      | zero =>
        simp only [List.getElem?_cons_zero, Option.some.injEq] at hmember
        subst hmember
        rw [Nat.add_zero] at hseat
        exact absurd ((any_eq_true _ _).mpr ⟨seat, hseat, hknows⟩) hnot
      | succ j =>
        rw [List.getElem?_cons_succ] at hmember
        exact ih hmember (by rw [← hseat]; congr 1; omega)

theorem mem_reachFrom {pair : Member × Option Reach} :
    pair ∈ reachFrom envs files operation fuel i members ↔ ∃ j member, members[j]? = some member
        ∧ pair = (member, member.reach (envs (i + j)) files operation fuel) := by
  induction members generalizing i with
  | nil => simp [reachFrom]
  | cons head rest ih =>
    rw [reachFrom, mem_cons, ih]
    constructor
    · intro hcase
      rcases hcase with rfl | ⟨j, member, hj, rfl⟩
      · exact ⟨0, head, rfl, rfl⟩
      · exact ⟨j + 1, member, hj, by rw [show i + (j + 1) = i + 1 + j by omega]⟩
    · intro hfound
      obtain ⟨j, member, hj, rfl⟩ := hfound
      cases j with
      | zero =>
        simp only [List.getElem?_cons_zero, Option.some.injEq] at hj
        subst hj
        exact .inl rfl
      | succ j =>
        exact .inr ⟨j, member, hj, by rw [show i + (j + 1) = i + 1 + j by omega]⟩

theorem mem_occurrencesOf :
    o ∈ occurrencesOf reaches ↔ ∃ member reach, (member, some reach) ∈ reaches
      ∧ o.root = reach.root ∧ (o.entry, o.path) ∈ reach.entries := by
  unfold occurrencesOf
  rw [mem_flatMap]
  constructor
  · intro hfound
    obtain ⟨⟨member, reached⟩, hmem, ho⟩ := hfound
    cases reached with
    | none => cases ho
    | some reach =>
      obtain ⟨entry, hentry, rfl⟩ := mem_map.mp ho
      exact ⟨member, reach, hmem, rfl, hentry⟩
  · intro hfound
    obtain ⟨member, reach, hmem, hroot, hentry⟩ := hfound
    refine ⟨(member, some reach), hmem, mem_map.mpr ⟨_, hentry, ?_⟩⟩
    rw [← hroot]

theorem mem_goneOf {l : Location} :
    l ∈ goneOf reaches
      ↔ ∃ member, (member, none) ∈ reaches ∧ member.staleSource = some (.ok l) := by
  unfold goneOf
  rw [mem_filterMap]
  constructor
  · intro hfound
    obtain ⟨⟨member, reached⟩, hmem, hgone⟩ := hfound
    split at hgone
    case h_1 source hreached hstale =>
      simp only at hreached hstale
      subst hreached
      cases hgone
      exact ⟨member, hmem, hstale⟩
    case h_2 => cases hgone
  · intro hfound
    obtain ⟨member, hmem, hstale⟩ := hfound
    exact ⟨(member, none), hmem, by simp [hstale]⟩

theorem plan_ok (h : Yields (group.plan envs operation fuel) (group.fresh files) (.ok plan) g') :
    ContributesAll envs operation fuel 0 group.members (group.fresh files) plan.items g' := by
  unfold Group.plan at h
  obtain ⟨items, g₁, hitems, h⟩ := yields_bind_ok.mp h
  split at h
  case isFalse => exact absurd h not_yields_stuck
  case isTrue fits =>
    obtain ⟨heq, rfl⟩ := yields_pure.mp h
    cases heq
    refine planMembers_ok ?_ hitems
    intro j hj
    simp [fresh, hj]

theorem executedAt_of_mem
    (h : Yields (group.plan envs operation fuel) (group.fresh files) (.ok plan) g')
    (ho : o ∈ occurrencesOf (group.reaches envs files operation fuel))
    (hgone : o.entry ∉ goneOf (group.reaches envs files operation fuel)) :
    ∃ o' ∈ occurrencesOf (group.reaches envs files operation fuel),
      o'.entry = o.entry ∧ group.executedAt g' o.entry = some o'.destination := by
  have hplan := plan_ok h
  have hstale : o.entry ∉ g'.stale := by
    intro hmem
    rcases (hplan.stale o.entry).mp hmem with hmem | hmem
    · exact hgone hmem
    · cases hmem
  -- some member knows the entry, so there is a first one
  obtain ⟨member, reach, hmem, hroot, hentry⟩ := mem_occurrencesOf.mp ho
  obtain ⟨j, member', hj, heq⟩ := mem_reachFrom.mp hmem
  injection heq with hmember hreach
  subst hmember
  obtain ⟨seat, hseat, hholds⟩ := hplan.seats j member hj
  rw [show (group.fresh files).disk.files = files from rfl, ← hreach] at hholds
  have hknows := (hholds.1 o.entry).mpr (mem_map_of_mem hentry)
  cases howner : group.owner g' o.entry with
  | none => exact absurd howner (ownerFrom_ne_none hj hseat hknows)
  | some first =>
    obtain ⟨i, owner⟩ := first
    obtain ⟨-, -, hget, seat', hseat', hknows'⟩ := ownerFrom_eq_some howner
    rw [Nat.sub_zero] at hget
    have hexecuted : group.executedAt g' o.entry = owner.destinationOf seat' o.entry := by
      unfold executedAt
      rw [if_neg hstale, howner]
      simp only [hseat', bind_some]
    obtain ⟨seat'', hseat'', hholds'⟩ := hplan.seats i owner hget
    rw [Nat.zero_add, hseat'] at hseat''
    injection hseat'' with hseat''
    subst hseat''
    have howns : (owner, owner.reach (envs (0 + i)) files operation fuel)
        ∈ group.reaches envs files operation fuel :=
      mem_reachFrom.mpr ⟨i, owner, hget, rfl⟩
    cases hreached : owner.reach (envs (0 + i)) files operation fuel with
    | none =>
      -- a member that reaches nothing knows its source only
      rw [show (group.fresh files).disk.files = files from rfl, hreached] at hholds'
      rw [hreached] at howns
      exact absurd (mem_goneOf.mpr ⟨owner, howns, hholds' _ hknows'⟩) hgone
    | some reach' =>
      rw [show (group.fresh files).disk.files = files from rfl, hreached] at hholds'
      rw [hreached] at howns
      obtain ⟨path, hpath, hdestination⟩ := hholds'.2 o.entry ((hholds'.1 o.entry).mp hknows')
      refine ⟨{ entry := o.entry, root := reach'.root, path := path }, ?_, rfl, ?_⟩
      · exact mem_occurrencesOf.mpr ⟨owner, reach', howns, rfl, hpath⟩
      · exact hexecuted.trans hdestination

/-- Plan and execution agree on where the occurrences go. -/
structure DestinationsAgree (group : Group) (g : GroupWorld)
    (occurrences : List Occurrence) : Prop where
  own : ∀ o ∈ occurrences, group.executedAt g o.entry = some o.destination
  apart : ∀ o ∈ occurrences, ∀ o' ∈ occurrences, ∀ destination,
    group.executedAt g o.entry = some destination →
    group.executedAt g o'.entry = some destination → o.destination = o'.destination
  executed : ∀ o ∈ occurrences, ∃ o' ∈ occurrences, group.executedAt g o'.entry = some o.destination

theorem DestinationsAgree.of_own {occurrences : List Occurrence}
    (h : ∀ o ∈ occurrences, group.executedAt g o.entry = some o.destination) :
    group.DestinationsAgree g occurrences := by
  refine ⟨h, ?_, fun o ho => ⟨o, ho, h o ho⟩⟩
  intro o ho o' ho' destination heq heq'
  rw [h o ho] at heq
  rw [h o' ho'] at heq'
  injection heq with heq
  injection heq' with heq'
  rw [heq, heq']

/-- The items of a plan are the occurrences of what the operation
reaches, and the sources that were gone. They are executed at their own
destinations exactly if no entry occurs with two, or is both reached and
gone. -/
theorem destinations_agree_iff {plan : OperationPlan} {g : GroupWorld}
    (h : Yields (group.plan envs operation fuel) (group.fresh files) (.ok plan) g) :
    (plan.items.map (·.entry.location)).Perm
      ((occurrencesOf (group.reaches envs files operation fuel)).map Occurrence.entry
        ++ goneOf (group.reaches envs files operation fuel))
    ∧ (group.DestinationsAgree g (occurrencesOf (group.reaches envs files operation fuel))
      ↔ ∀ o ∈ occurrencesOf (group.reaches envs files operation fuel),
          o.entry ∉ goneOf (group.reaches envs files operation fuel)
          ∧ ∀ o' ∈ occurrencesOf (group.reaches envs files operation fuel),
            o'.entry = o.entry → o'.destination = o.destination) := by
  refine ⟨(plan_ok h).items, fun hagree o ho => ⟨fun hgone => ?_, fun o' ho' heq => ?_⟩,
    fun hcondition => .of_own fun o ho => ?_⟩
  · -- an entry that is gone is skipped
    have hstale : o.entry ∈ g.stale := ((plan_ok h).stale o.entry).mpr (.inl hgone)
    have hown := hagree.own o ho
    unfold executedAt at hown
    rw [if_pos hstale] at hown
    cases hown
  · have hown := hagree.own o ho
    have hown' := hagree.own o' ho'
    rw [heq, hown] at hown'
    injection hown' with hown'
    exact hown'.symm
  · obtain ⟨hgone, hsame⟩ := hcondition o ho
    obtain ⟨o', ho', hentry, hexecuted⟩ := executedAt_of_mem h ho hgone
    rw [hexecuted, hsame o' ho' hentry]

end Group

-- ==== sample groups

def sampleOperation : Operation := (Scheduler.startOperation (sampleCopyRequest .ask) 0).operation

/-- The copies of the directory `/src/d` and of the file in it, both
selected, into `/dst`. -/
def nestedCopyGroup : Group :=
  .copyGroup
    [{ destinationDirectory := localPath ["dst"]
       symlinkPolicy := .copyLink
       sourceOverride := some (localPath ["src", "d"])
       continueOnError := true
       transfer := sampleMove.transfer },
      { destinationDirectory := localPath ["dst"]
        symlinkPolicy := .copyLink
        sourceOverride := some (localPath ["src", "d", "f"])
        continueOnError := true
        transfer := sampleMove.transfer }]

/-- The copy of a directory of one file: both items go where they are
planned to. -/
theorem destinations_agree_iff_one_directory :
    ∃ plan g, Yields (sampleCopyGroup.plan (fun _ => .quiet) sampleOperation 5)
        (sampleCopyGroup.fresh sampleTree.nodes) (.ok plan) g
      ∧ plan.items.map (·.entry.location)
        = [localPath ["src", "d"], localPath ["src", "d", "f"]]
      ∧ sampleCopyGroup.DestinationsAgree g (Group.occurrencesOf
        (sampleCopyGroup.reaches (fun _ => .quiet) sampleTree.nodes sampleOperation 5)) := by
  obtain ⟨plan, g, hplan, hitems⟩ : ∃ plan g,
      Yields (sampleCopyGroup.plan (fun _ => .quiet) sampleOperation 5)
        (sampleCopyGroup.fresh sampleTree.nodes) (.ok plan) g
      ∧ plan.items.map (·.entry.location)
        = [localPath ["src", "d"], localPath ["src", "d", "f"]] :=
    Yields.exists_of_run (by decide +kernel)
  exact ⟨plan, g, hplan, hitems, (Group.destinations_agree_iff hplan).2.mpr (by decide +kernel)⟩

/-- A directory selected together with the file in it: the file is
executed twice at the place below the directory. -/
theorem nested_source_loses_destination :
    ∃ plan g, Yields (nestedCopyGroup.plan (fun _ => .quiet) sampleOperation 5)
        (nestedCopyGroup.fresh sampleTree.nodes) (.ok plan) g
      ∧ plan.items.map (·.entry.location) = [localPath ["src", "d"],
        localPath ["src", "d", "f"], localPath ["src", "d", "f"]]
      ∧ (Group.occurrencesOf (nestedCopyGroup.reaches (fun _ => .quiet)
          sampleTree.nodes sampleOperation 5)).map Occurrence.destination
        = [localPath ["dst", "d"], localPath ["dst", "d", "f"], localPath ["dst", "f"]]
      ∧ nestedCopyGroup.executedAt g (localPath ["src", "d", "f"])
        = some (localPath ["dst", "d", "f"])
      ∧ ¬ nestedCopyGroup.DestinationsAgree g (Group.occurrencesOf
        (nestedCopyGroup.reaches (fun _ => .quiet) sampleTree.nodes sampleOperation 5)) := by
  obtain ⟨plan, g, hplan, hitems, hexecuted⟩ : ∃ plan g,
      Yields (nestedCopyGroup.plan (fun _ => .quiet) sampleOperation 5)
        (nestedCopyGroup.fresh sampleTree.nodes) (.ok plan) g
      ∧ (plan.items.map (·.entry.location) = [localPath ["src", "d"],
          localPath ["src", "d", "f"], localPath ["src", "d", "f"]]
        ∧ nestedCopyGroup.executedAt g (localPath ["src", "d", "f"])
          = some (localPath ["dst", "d", "f"])) :=
    Yields.exists_of_run (by decide +kernel)
  refine ⟨plan, g, hplan, hitems, by decide +kernel, hexecuted, fun hagree => ?_⟩
  have hown := hagree.own
    { entry := localPath ["src", "d", "f"], root := localPath ["dst", "f"], path := [] }
    (by decide +kernel)
  simp only [hexecuted] at hown
  exact absurd hown (by decide +kernel)

end Transfers

end FileManager
