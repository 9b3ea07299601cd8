/-
When a move over an existing entry loses nothing
(`MoveExecutor::execute`, `Overwrite`, on one filesystem).

# The defect

The entry that is there is removed before the source is renamed to its
place, by a call of its own. Between the two nothing stands at the
destination, and a rename that then fails leaves it so. Where the source
lies inside the directory that it replaces, it is removed with it, and no
call has to fail for that: the paths are only checked the other way
round.

# The argument

The call ends in one of four ways (`Ends`), by the first of its provider
calls that fails. Only after a removal has begun is anything changed
without the move being made.
-/
import FileManager.Transfers.Proofs.Enumeration

namespace FileManager.Transfers

open Fallible Keyed Location
open Scheduler (ExecutionError ExecutionOutcome OperationPlan PlanItem)
open CopyExecutor (effectiveResolution examine)

variable {env : Env} {tree : FileTree} {source destination base l base' : Location}
  {operation : Operation} {resolution : Option ConflictResolution} {existing node : Node}

-- ==== the paths

theorem startsWith_iff_descend : l.startsWith base = true ↔ ∃ path, l = base.descend path := by
  obtain ⟨provider, authority, segments⟩ := l
  obtain ⟨provider', authority', segments'⟩ := base
  unfold startsWith descend
  simp only [Bool.and_eq_true, decide_eq_true_eq, List.isPrefixOf_iff_prefix,
    mk.injEq, Uri.mk.injEq]
  constructor
  · rintro ⟨⟨hprovider, hauthority⟩, path, hpath⟩
    exact ⟨path, hprovider, hauthority, hpath.symm⟩
  · rintro ⟨path, hprovider, hauthority, hpath⟩
    exact ⟨⟨hprovider, hauthority⟩, path, hpath.symm⟩

theorem startsWith_descend (base : Location) (path : List String) :
    (base.descend path).startsWith base = true :=
  startsWith_iff_descend.mpr ⟨path, rfl⟩

theorem startsWith_self (l : Location) : l.startsWith l = true :=
  startsWith_iff_descend.mpr ⟨[], (descend_nil l).symm⟩

theorem startsWith_comparable (h : l.startsWith base = true) (h' : l.startsWith base' = true) :
    base.startsWith base' = true ∨ base'.startsWith base = true := by
  unfold startsWith at h h' ⊢
  simp only [Bool.and_eq_true, decide_eq_true_eq, List.isPrefixOf_iff_prefix] at h h' ⊢
  obtain ⟨⟨hprovider, hauthority⟩, hprefix⟩ := h
  obtain ⟨⟨hprovider', hauthority'⟩, hprefix'⟩ := h'
  rcases List.prefix_or_prefix_of_prefix hprefix hprefix' with hle | hle
  · exact .inr ⟨⟨hprovider'.symm.trans hprovider, hauthority'.symm.trans hauthority⟩, hle⟩
  · exact .inl ⟨⟨hprovider.symm.trans hprovider', hauthority.symm.trans hauthority'⟩, hle⟩

theorem descend_inj {path path' : List String} :
    base.descend path = base.descend path' ↔ path = path' := by
  unfold descend
  simp

theorem rebase_from (base base' : Location) (hprovider : base.providerId = base'.providerId)
    (path : List String) : rebase base base' (base.descend path) = base'.descend path := by
  unfold rebase
  rw [if_pos (startsWith_descend base path)]
  unfold descend
  simp [hprovider]

theorem rebase_other (h : l.startsWith base = false) : rebase base base' l = l := by
  unfold rebase
  rw [if_neg (by rw [h]; exact Bool.false_ne_true)]

theorem parent_not_startsWith {parent : Location} (h : l.parent = some parent) :
    parent.startsWith l = false := by
  rw [Bool.eq_false_iff]
  intro hstarts
  exact acyclic l parent h (under_of_startsWith hstarts)

theorem eq_of_startsWith (hbase : get tree.nodes base = some node) (hnode : node ≠ .directory)
    (hl : l.startsWith base = true) (hthere : There tree l) : l = base := by
  by_contra hne
  have hdirectory := ((under_of_startsWith hl).exists_child tree.closed
    (fun heq => hne heq.symm) hthere).1
  rw [hbase] at hdirectory
  injection hdirectory with hdirectory
  exact hnode hdirectory

-- ==== the statements

/-- The move has been made: the source's tree stands at the destination,
nothing is left where it was, and all else is as it was. -/
structure Moved (before after : Files) (source destination : Location) : Prop where
  arrived : ∀ path, get after (destination.descend path) = get before (source.descend path)
  left : ∀ l, l.startsWith source = true → l.startsWith destination = false →
    get after l = none
  others : ∀ l, l.startsWith source = false → l.startsWith destination = false →
    get after l = get before l

/-- The source's entry stands, and the destination's with all that is
below it. -/
structure BothStand (before after : Files) (source destination : Location) : Prop where
  source : get after source = get before source
  destination : ∀ l, l.startsWith destination = true →
    get after l = get before l

/-- What a failing removal leaves of the destination has the shape of the
source. -/
def LeavesShape (env : Env) (tree : FileTree) (source destination : Location) : Prop :=
  ∀ path, (if env.survives (destination.descend path) then
      get tree.nodes (destination.descend path) else none)
    = get tree.nodes (source.descend path)

/-- A move over an existing entry that loses nothing: it does not get as
far as the removal; or the removal fails and takes nothing away, or takes
a source that lies inside away and happens to leave its shape; or the
source lies outside of what is removed, and the rename takes effect. -/
def SafeOver (env : Env) (tree : FileTree) (source destination : Location) : Prop :=
  env.fault .inspectDestination ≠ none ∨ env.fault .inspectSource ≠ none
    ∨ (env.fault .removeDestination ≠ none
      ∧ ((∀ entry ∈ tree.nodes, entry.1.startsWith destination = true →
          env.survives entry.1 = true)
        ∨ (source.startsWith destination = true ∧ LeavesShape env tree source destination)))
    ∨ (env.fault .removeDestination = none ∧ source.startsWith destination = false
      ∧ (env.fault .rename).all Fault.applied = true)

-- ==== the calls' ends

theorem examine_over {files : Files} (hsource : get files source = some node)
    (hdestination : get files destination = some existing) (hkind : node.kind = existing.kind)
    (hover : effectiveResolution operation.conflictPolicy resolution = some .overwrite) :
    (env.fault .inspectDestination ≠ none
        ∧ examine env operation.conflictPolicy resolution source destination files
          = .ok .free) ∨ (env.fault .inspectDestination = none ∧ env.fault .inspectSource ≠ none
        ∧ ∃ e, examine env operation.conflictPolicy resolution source destination
          files = .error e)
      ∨ (env.fault .inspectDestination = none ∧ env.fault .inspectSource = none
        ∧ examine env operation.conflictPolicy resolution source destination files
          = .ok .overwrite) := by
  unfold examine Env.ask inspect
  rw [hsource, hdestination, hover]
  cases hfirst : env.fault .inspectDestination with
  | some fault => exact .inl ⟨nofun, rfl⟩
  | none =>
    cases hsecond : env.fault .inspectSource with
    | some fault => exact .inr (.inl ⟨rfl, nofun, _, rfl⟩)
    | none =>
      refine .inr (.inr ⟨rfl, rfl, ?_⟩)
      show (if node.kind ≠ existing.kind then _ else _) = _
      rw [if_neg (fun h => h hkind)]

theorem removalOf_over (hdestination : get tree.nodes destination = some existing) :
    ∃ gone, removalOf tree.nodes destination
        (decide (get tree.nodes destination = some Node.directory)) = .ok gone
      ∧ (∀ l, gone l = true → l.startsWith destination = true)
      ∧ ∀ l, l.startsWith destination = true → There tree l → gone l = true := by
  unfold removalOf
  rw [hdestination]
  cases existing with
  | directory =>
    simp only [decide_true, if_true]
    exact ⟨_, rfl, fun _ h => h, fun _ h _ => h⟩
  | file content | symlink target =>
    refine ⟨_, rfl, fun l hl => ?_, fun l hl hthere => ?_⟩
    · rw [of_decide_eq_true hl]
      exact startsWith_self destination
    · exact decide_eq_true (eq_of_startsWith hdestination nofun hl hthere)

-- ==== the disks

section Disks

variable {gone : Location → Bool} {node existing : Node} {disk : Disk}

theorem get_cleared (hfiles : disk.files = tree.nodes)
    (hbelow : ∀ l, gone l = true → l.startsWith destination = true)
    (hall : ∀ l, l.startsWith destination = true → There tree l → gone l = true)
    (l : Location) :
    get (takeAway gone disk).files l
      = if l.startsWith destination then none else get tree.nodes l := by
  show get (keep disk.files fun l => !gone l) l = _
  rw [get_keep, hfiles]
  by_cases hl : l.startsWith destination = true
  · rw [if_pos hl]
    by_cases hthere : There tree l
    · rw [hall l hl hthere]
      rfl
    · unfold There at hthere
      rw [not_not.mp hthere]
      exact ite_self none
  · have hkept : gone l = false := by
      rw [Bool.eq_false_iff]
      exact fun hgone => hl (hbelow l hgone)
    rw [if_neg hl, hkept]
    rfl

theorem rename_cleared (hfiles : disk.files = tree.nodes)
    (hbelow : ∀ l, gone l = true → l.startsWith destination = true)
    (hall : ∀ l, l.startsWith destination = true → There tree l → gone l = true)
    (hsource : get tree.nodes source = some node)
    (hdestination : get tree.nodes destination = some existing)
    (houtside : source.startsWith destination = false) {parent : Location}
    (hparent : destination.parent = some parent) :
    rename source destination (takeAway gone disk) = .ok { takeAway gone disk with
          files := (takeAway gone disk).files.map fun entry =>
            (rebase source destination entry.1, entry.2) } := by
  have hcleared := get_cleared hfiles hbelow hall
  have hdirectory : get tree.nodes parent = some Node.directory :=
    tree.closed destination (by rw [hdestination]; exact nofun) parent hparent
  have hcheck : checkParent (takeAway gone disk).files destination = .ok () := by
    unfold checkParent
    rw [hparent]
    simp only [hcleared, parent_not_startsWith hparent, Bool.false_eq_true, if_false, hdirectory]
  unfold rename
  rw [hcleared source, if_neg (by rw [houtside]; exact Bool.false_ne_true), hsource, hcheck,
    hcleared destination, if_pos (startsWith_self destination)]

theorem rename_swallowed (hfiles : disk.files = tree.nodes)
    (hbelow : ∀ l, gone l = true → l.startsWith destination = true)
    (hall : ∀ l, l.startsWith destination = true → There tree l → gone l = true)
    (hinside : source.startsWith destination = true) :
    rename source destination (takeAway gone disk) = .error (.notFound source) := by
  unfold rename
  rw [get_cleared hfiles hbelow hall source, if_pos hinside]

theorem moved_of_rename (hfiles : disk.files = tree.nodes)
    (hbelow : ∀ l, gone l = true → l.startsWith destination = true)
    (hall : ∀ l, l.startsWith destination = true → There tree l → gone l = true)
    (hprovider : source.providerId = destination.providerId)
    (houtside : source.startsWith destination = false)
    (hinside : destination.startsWith source = false) :
    Moved tree.nodes ((takeAway gone disk).files.map fun entry =>
      (rebase source destination entry.1, entry.2)) source destination := by
  have hcleared := get_cleared hfiles hbelow hall
  -- nothing that is left starts with the destination
  have hleft : ∀ pair ∈ (takeAway gone disk).files,
      pair.1.startsWith destination = false := by
    intro pair hpair
    rw [Bool.eq_false_iff]
    intro hstarts
    have hthere := mem_keys_iff.mp (List.mem_map_of_mem (f := Prod.fst) hpair)
    rw [hcleared, if_pos hstarts] at hthere
    exact hthere rfl
  -- what is renamed comes to start with it, what is not stays
  have hcases : ∀ pair ∈ (takeAway gone disk).files,
      (∃ path, pair.1 = source.descend path
        ∧ rebase source destination pair.1 = destination.descend path)
      ∨ (pair.1.startsWith source = false ∧ rebase source destination pair.1 = pair.1) := by
    intro pair _
    cases hstarts : pair.1.startsWith source with
    | true =>
      obtain ⟨path, hpath⟩ := startsWith_iff_descend.mp hstarts
      exact .inl ⟨path, hpath, hpath ▸ rebase_from source destination hprovider path⟩
    | false => exact .inr ⟨rfl, rebase_other hstarts⟩
  refine ⟨fun path => ?_, fun l hl hnot => ?_, fun l hl hnot => ?_⟩
  · rw [get_mapKeys (k := source.descend path)]
    · have hstays : (source.descend path).startsWith destination = false := by
        rw [Bool.eq_false_iff]
        intro hstarts
        rcases startsWith_comparable hstarts (startsWith_descend source path) with h | h
        · simp [hinside] at h
        · simp [houtside] at h
      rw [hcleared, if_neg (by rw [hstays]; exact Bool.false_ne_true)]
    · intro pair hpair
      rcases hcases pair hpair with ⟨path', hpath, hrebase⟩ | ⟨hother, hrebase⟩
      · rw [hrebase, hpath, descend_inj, descend_inj]
      · rw [hrebase]
        constructor
        · intro heq
          have := hleft pair hpair
          rw [heq, startsWith_descend] at this
          cases this
        · intro heq
          rw [heq, startsWith_descend] at hother
          cases hother
  · refine get_mapKeys_none fun pair hpair heq => ?_
    rcases hcases pair hpair with ⟨path, -, hrebase⟩ | ⟨hother, hrebase⟩
    · rw [← heq, hrebase, startsWith_descend] at hnot
      cases hnot
    · rw [← heq, hrebase, hother] at hl
      cases hl
  · rw [get_mapKeys (k := l), hcleared, if_neg (by rw [hnot]; exact Bool.false_ne_true)]
    intro pair hpair
    rcases hcases pair hpair with ⟨path, hpath, hrebase⟩ | ⟨-, hrebase⟩
    · constructor
      · intro heq
        rw [← heq, hrebase, startsWith_descend] at hnot
        cases hnot
      · intro heq
        rw [← heq, hpath, startsWith_descend] at hl
        cases hl
    · rw [hrebase]

end Disks

-- ==== the call

/-- How the call ends: nothing has changed, or the removal has failed, or
the entry that was there is gone, or the source stands in its place. -/
inductive Ends (env : Env) (tree : FileTree) (source destination : Location)
    (gone : Location → Bool) (disk : Disk) : Files → Prop
  | unchanged (inspected : env.fault .inspectDestination ≠ none
        ∨ env.fault .inspectSource ≠ none) :
      Ends env tree source destination gone disk tree.nodes
  | broken (found : env.fault .inspectDestination = none)
      (inspected : env.fault .inspectSource = none)
      (removal : env.fault .removeDestination ≠ none) :
      Ends env tree source destination gone disk
        (takeAway (fun l => gone l && !env.survives l) disk).files
  | cleared (found : env.fault .inspectDestination = none)
      (inspected : env.fault .inspectSource = none)
      (removal : env.fault .removeDestination = none)
      (stays : source.startsWith destination = true
        ∨ (env.fault .rename).all Fault.applied = false) :
      Ends env tree source destination gone disk (takeAway gone disk).files
  | renamed (removal : env.fault .removeDestination = none)
      (outside : source.startsWith destination = false)
      (takes : (env.fault .rename).all Fault.applied = true) :
      Ends env tree source destination gone disk
        ((takeAway gone disk).files.map fun entry =>
          (rebase source destination entry.1, entry.2))

section Ends

variable {gone : Location → Bool} {node existing : Node} {disk : Disk} {after : Files}

theorem get_broken (hfiles : disk.files = tree.nodes)
    (hbelow : ∀ l, gone l = true → l.startsWith destination = true)
    (hall : ∀ l, l.startsWith destination = true → There tree l → gone l = true)
    (l : Location) :
    get (takeAway (fun l => gone l && !env.survives l) disk).files l
      = if l.startsWith destination && !env.survives l then none
        else get tree.nodes l := by
  show get (keep disk.files fun l => !(gone l && !env.survives l)) l = _
  rw [get_keep, hfiles]
  by_cases hthere : There tree l
  · have hgone : gone l = l.startsWith destination := by
      rw [Bool.eq_iff_iff]
      exact ⟨hbelow l, fun hl => hall l hl hthere⟩
    rw [hgone]
    cases (l.startsWith destination && !env.survives l) <;> rfl
  · unfold There at hthere
    rw [not_not.mp hthere, ite_self, ite_self]

theorem broken_safe_iff (hfiles : disk.files = tree.nodes)
    (hbelow : ∀ l, gone l = true → l.startsWith destination = true)
    (hall : ∀ l, l.startsWith destination = true → There tree l → gone l = true)
    (hsource : get tree.nodes source = some node)
    (hafter : after = (takeAway (fun l => gone l && !env.survives l) disk).files) :
    (Moved tree.nodes after source destination ∨ BothStand tree.nodes after source destination)
      ↔ (∀ entry ∈ tree.nodes, entry.1.startsWith destination = true → env.survives entry.1 = true)
        ∨ (source.startsWith destination = true ∧ LeavesShape env tree source destination) := by
  have hleft := @get_broken env _ _ _ _ hfiles hbelow hall
  rw [← hafter] at hleft
  have hthere : ∀ l, l.startsWith destination = true → get after l
      = if env.survives l then get tree.nodes l else none := by
    intro l hl
    rw [hleft, hl]
    cases env.survives l <;> rfl
  have hother : ∀ l, l.startsWith destination = false →
      get after l = get tree.nodes l := by
    intro l hl
    rw [hleft, hl]
    rfl
  constructor
  · intro hcase
    rcases hcase with hmoved | hboth
    · cases hinside : source.startsWith destination with
      | true =>
        refine .inr ⟨rfl, fun path => ?_⟩
        rw [← hmoved.arrived path, hthere _ (startsWith_descend destination path)]
      | false =>
        -- the source still stands where it was
        have hnone := hmoved.left source (startsWith_self source) hinside
        rw [hother source hinside, hsource] at hnone
        cases hnone
    · refine .inl fun entry hentry hl => ?_
      have hstands := hboth.destination entry.1 hl
      rw [hthere entry.1 hl] at hstands
      by_contra hgone
      rw [if_neg hgone] at hstands
      exact mem_keys_iff.mp (List.mem_map_of_mem (f := Prod.fst) hentry) hstands.symm
  · intro hcase
    rcases hcase with hsurvives | ⟨hinside, hshape⟩
    · have hkept : ∀ l, l.startsWith destination = true →
          get after l = get tree.nodes l := by
        intro l hl
        rw [hthere l hl]
        by_cases hstood : There tree l
        · obtain ⟨entry, hentry, rfl⟩ := List.mem_map.mp (mem_keys_iff.mpr hstood)
          rw [if_pos (hsurvives entry hentry hl)]
        · unfold There at hstood
          rw [not_not.mp hstood, ite_self]
      refine .inr ⟨?_, hkept⟩
      cases hinside : source.startsWith destination with
      | true => exact hkept source hinside
      | false => exact hother source hinside
    · refine .inl ⟨fun path => ?_, fun l hl hnot => ?_, fun l _ hnot => hother l hnot⟩
      · rw [hthere _ (startsWith_descend destination path)]
        exact hshape path
      · obtain ⟨path, rfl⟩ := startsWith_iff_descend.mp hl
        obtain ⟨path', hpath'⟩ := startsWith_iff_descend.mp hinside
        rw [startsWith_iff_descend.mpr ⟨path' ++ path, ?_⟩] at hnot
        · cases hnot
        · rw [hpath']
          unfold descend
          simp

theorem Ends.safe_iff (h : Ends env tree source destination gone disk after)
    (hfiles : disk.files = tree.nodes)
    (hbelow : ∀ l, gone l = true → l.startsWith destination = true)
    (hall : ∀ l, l.startsWith destination = true → There tree l → gone l = true)
    (hsource : get tree.nodes source = some node)
    (hdestination : get tree.nodes destination = some existing)
    (hprovider : source.providerId = destination.providerId)
    (hinside : destination.startsWith source = false) :
    (Moved tree.nodes after source destination ∨ BothStand tree.nodes after source destination)
      ↔ SafeOver env tree source destination := by
  unfold SafeOver
  cases h with
  | unchanged inspected =>
    refine ⟨fun _ => ?_, fun _ => .inr ⟨rfl, fun _ _ => rfl⟩⟩
    rcases inspected with hfault | hfault
    · exact .inl hfault
    · exact .inr (.inl hfault)
  | broken found inspected removal =>
    rw [broken_safe_iff hfiles hbelow hall hsource rfl]
    constructor
    · exact fun hleft => .inr (.inr (.inl ⟨removal, hleft⟩))
    · intro hcase
      rcases hcase with hfault | hfault | ⟨-, hleft⟩ | ⟨hnone, -⟩
      · exact absurd found hfault
      · exact absurd inspected hfault
      · exact hleft
      · exact absurd hnone removal
  | cleared found inspected removal stays =>
    have hgone : get (takeAway gone disk).files destination = none := by
      rw [get_cleared hfiles hbelow hall, if_pos (startsWith_self destination)]
    constructor
    · intro hcase
      rcases hcase with hmoved | hboth
      · have harrived := hmoved.arrived []
        rw [descend_nil, descend_nil, hgone, hsource] at harrived
        cases harrived
      · have hstands := hboth.destination destination (startsWith_self destination)
        rw [hgone, hdestination] at hstands
        cases hstands
    · intro hcase
      rcases hcase with hfault | hfault | ⟨hfault, -⟩ | ⟨-, houtside, htakes⟩
      · exact absurd found hfault
      · exact absurd inspected hfault
      · exact absurd removal hfault
      · rcases stays with hstarts | hnot
        · simp [hstarts] at houtside
        · simp [hnot] at htakes
  | renamed removal outside takes =>
    refine ⟨fun _ => .inr (.inr (.inr ⟨removal, outside, takes⟩)), fun _ => .inl ?_⟩
    exact moved_of_rename hfiles hbelow hall hprovider outside hinside

end Ends

-- ==== its calls

section Calls

variable {call : Call} {w w' : World} {effect : Disk → Except VfsError Disk}
  {gone : Location → Bool} {location : Location} {recursive : Bool}

theorem perform_made {d : Disk} (heffect : effect w.disk = .ok d) :
    ∃ r, Yields (perform env call effect) w r
      { w with disk := if (env.fault call).all Fault.applied then d else w.disk } := by
  cases hfault : env.fault call with
  | none =>
    have hattempt : Yields (attempt env call effect) w (.ok (.ok ()))
        { w with disk := d } := by
      show attempt env call effect w = _
      unfold attempt
      rw [heffect, hfault]
    exact ⟨_, (yields_bind_of hattempt).mpr (yields_pure.mpr ⟨rfl, rfl⟩)⟩
  | some fault =>
    have hattempt : Yields (attempt env call effect) w (.ok (.error fault.error))
        { w with disk := if fault.applied then d else w.disk } := by
      show attempt env call effect w = _
      unfold attempt
      rw [heffect, hfault]
      show some (_, if fault.applied then { w with disk := d } else w) = _
      cases fault.applied <;> rfl
    exact ⟨_, (yields_bind_of hattempt).mpr (yields_throw.mpr ⟨rfl, rfl⟩)⟩

theorem perform_refused {e : VfsError} (heffect : effect w.disk = .error e) :
    ∃ r, Yields (perform env call effect) w r w := by
  obtain ⟨e', hattempt⟩ : ∃ e', Yields (attempt env call effect) w (.ok (.error e')) w := by
    show ∃ e', attempt env call effect w = some (.ok (.error e'), w)
    unfold attempt
    rw [heffect]
    cases env.fault call with
    | none => exact ⟨e, rfl⟩
    | some fault => exact ⟨fault.error, rfl⟩
  exact ⟨_, (yields_bind_of hattempt).mpr (yields_throw.mpr ⟨rfl, rfl⟩)⟩

theorem remove_made (hgone : removalOf w.disk.files location recursive = .ok gone)
    (hfault : env.fault call = none) :
    Yields (remove env call location recursive) w (.ok ⟨⟩)
      { w with disk := takeAway gone w.disk } := by
  show remove env call location recursive w = _
  unfold remove
  rw [hgone, hfault]

theorem remove_broken (hgone : removalOf w.disk.files location recursive = .ok gone)
    (hfault : env.fault call ≠ none) :
    ∃ e, Yields (remove env call location recursive) w (.error e)
      { w with disk := takeAway (fun l => gone l && !env.survives l) w.disk } := by
  obtain ⟨fault, hfault⟩ := Option.ne_none_iff_exists'.mp hfault
  refine ⟨.provider fault.error, ?_⟩
  show remove env call location recursive w = _
  unfold remove
  rw [hgone, hfault]

theorem completes {p : Exec PUnit} {r : Except ExecutionError PUnit} (h : Yields p w r w') :
    ∃ r', Yields (do p; pure .completed : Exec ExecutionOutcome) w r' w' := by
  cases r with
  | ok u => exact ⟨_, (yields_bind_of h).mpr (yields_pure.mpr ⟨rfl, rfl⟩)⟩
  | error e => exact ⟨_, yields_bind.mpr (.inr ⟨e, h, rfl⟩)⟩

end Calls

namespace MoveExecutor

variable {move : MoveExecutor} {item : PlanItem} {fuel : Nat} {node existing : Node}
  {name : String} {w w' : World}

theorem yields_plan_server {plan : OperationPlan}
    (h : Yields (move.plan env operation fuel) w (.ok plan) w')
    (hserver : w'.fallback = false) (hname : move.source.name = .ok name)
    (hjoin : move.destinationDirectory.join name = .ok destination) :
    plan.items.map (·.entry.location) = [move.source]
      ∧ validatePaths move.source destination = .ok () := by
  unfold MoveExecutor.plan at h
  rw [yields_bind_of (orFail_ok hname w), yields_bind_of (orFail_ok hjoin w), yields_bind_ok] at h
  obtain ⟨_, w₁, hcheck, h⟩ := h
  obtain ⟨rfl, ⟨_, hvalid, -⟩ | ⟨_, -, heq⟩⟩ := yields_orFail hcheck
  case inr => cases heq
  obtain ⟨same, w₂, hsame, h⟩ := yields_bind_ok.mp h
  rw [yields_writes_bind] at h
  cases same with
  | true =>
    obtain ⟨heq, -⟩ := yields_pure.mp h
    injection heq with heq
    rw [heq]
    exact ⟨rfl, hvalid⟩
  | false =>
    -- a plan of the copy leaves the mark that it is one
    obtain ⟨_, _, _, _, _, rfl⟩ := (CopyExecutor.yields_plan_iff rfl).mp h
    cases hserver

section Execution

variable {disposition : CopyExecutor.Disposition} {r : Except ExecutionError ExecutionOutcome}

theorem yields_execute_rename (hfallback : w.fallback = false) :
    Yields (move.execute env operation item resolution fuel) w r w'
      ↔ Yields (move.executeRename env operation item resolution fuel) w r w' := by
  have hread : Yields (reads fun w => .ok w.fallback : Exec Bool) w (.ok false) w :=
    yields_reads.mpr ⟨by rw [hfallback], rfl⟩
  unfold execute
  rw [yields_bind_of hread, if_neg Bool.false_ne_true]

theorem executeRename_refused (hlocation : item.entry.location = source)
    (hname : source.name = .ok name)
    (hjoin : move.destinationDirectory.join name = .ok destination) {e : ExecutionError}
    (hexamined : examine env operation.conflictPolicy resolution source destination
      w.disk.files = .error e) :
    Yields (move.executeRename env operation item resolution fuel) w (.error e) w := by
  unfold executeRename
  rw [hlocation, yields_bind_of (orFail_ok hname w), yields_bind_of (orFail_ok hjoin w)]
  exact yields_bind.mpr (.inr ⟨e, yields_reads.mpr ⟨hexamined.symm, rfl⟩, rfl⟩)

theorem yields_executeRename (hlocation : item.entry.location = source)
    (hname : source.name = .ok name)
    (hjoin : move.destinationDirectory.join name = .ok destination)
    (hexamined : examine env operation.conflictPolicy resolution source destination
      w.disk.files = .ok disposition) (hskip : disposition ≠ .skip) :
    Yields (move.executeRename env operation item resolution fuel) w r w'
      ↔ Yields (do
          let destination' ← makeRoom env fuel destination
            (decide (get w.disk.files destination = some Node.directory)) disposition
          perform env .rename (rename source destination')
          pure .completed) w r w' := by
  have hread : Yields (reads fun w => examine env operation.conflictPolicy
      resolution source destination w.disk.files) w (.ok disposition) w :=
    yields_reads.mpr ⟨hexamined.symm, rfl⟩
  have hrecursive : Yields (reads fun w =>
      .ok (get w.disk.files destination = some Node.directory : Bool) : Exec Bool) w
      (.ok (decide (get w.disk.files destination = some Node.directory))) w :=
    yields_reads.mpr ⟨rfl, rfl⟩
  unfold executeRename
  rw [hlocation, yields_bind_of (orFail_ok hname w), yields_bind_of (orFail_ok hjoin w),
    yields_bind_of hread, if_neg hskip, yields_bind_of hrecursive]

theorem execute_ends {existing : Node} (hfallback : w.fallback = false)
    (hfiles : w.disk.files = tree.nodes) (hlocation : item.entry.location = source)
    (hsource : get tree.nodes source = some node) (hname : source.name = .ok name)
    (hjoin : move.destinationDirectory.join name = .ok destination)
    (hdestination : get tree.nodes destination = some existing) (hkind : node.kind = existing.kind)
    (hover : effectiveResolution operation.conflictPolicy resolution = some .overwrite)
    {gone : Location → Bool}
    (hgone : removalOf tree.nodes destination (decide (get tree.nodes destination
      = some Node.directory)) = .ok gone)
    (hbelow : ∀ l, gone l = true → l.startsWith destination = true)
    (hall : ∀ l, l.startsWith destination = true → There tree l → gone l = true) :
    ∃ r w', Yields (move.execute env operation item resolution fuel) w r w'
      ∧ Ends env tree source destination gone w.disk w'.disk.files := by
  simp only [yields_execute_rename hfallback]
  rw [← hfiles] at hgone hsource hdestination
  have hparent := parent_of_join hjoin
  rcases examine_over hsource hdestination hkind hover with
    ⟨hfault, hexamined⟩ | ⟨-, hfault, e, hexamined⟩ | ⟨hfound, hinspected, hexamined⟩
  · -- the destination counts as free, and the rename finds it there
    have hrefused : ∃ e, rename source destination w.disk = .error e := by
      unfold rename
      rw [hsource, hdestination]
      cases checkParent w.disk.files destination with
      | ok _ => exact ⟨_, rfl⟩
      | error e => exact ⟨e, rfl⟩
    obtain ⟨e, hrefused⟩ := hrefused
    obtain ⟨r, hrename⟩ := perform_refused hrefused
    obtain ⟨r', hends⟩ := completes hrename
    refine ⟨r', w, (yields_executeRename hlocation hname hjoin hexamined nofun).mpr ?_, ?_⟩
    · exact (yields_bind_of (yields_pure.mpr ⟨rfl, rfl⟩)).mpr hends
    · rw [hfiles]
      exact .unchanged (.inl hfault)
  · refine ⟨_, w, executeRename_refused hlocation hname hjoin hexamined, ?_⟩
    rw [hfiles]
    exact .unchanged (.inr hfault)
  · simp only [yields_executeRename hlocation hname hjoin hexamined nofun]
    rw [hfiles] at hsource hdestination
    by_cases hremoval : env.fault .removeDestination = none
    · have hremoved := remove_made hgone hremoval
      have hroom : Yields (makeRoom env fuel destination
          (decide (get w.disk.files destination = some Node.directory)) .overwrite) w
          (.ok destination) { w with disk := takeAway gone w.disk } :=
        (yields_bind_of hremoved).mpr (yields_pure.mpr ⟨rfl, rfl⟩)
      simp only [yields_bind_of hroom]
      cases hinside : source.startsWith destination with
      | true =>
        obtain ⟨r, hrename⟩ := perform_refused (w := { w with disk := takeAway gone w.disk })
          (rename_swallowed hfiles hbelow hall hinside)
        obtain ⟨r', hends⟩ := completes hrename
        exact ⟨r', _, hends, .cleared hfound hinspected hremoval (.inl hinside)⟩
      | false =>
        obtain ⟨r, hrename⟩ := perform_made (w := { w with disk := takeAway gone w.disk })
          (rename_cleared hfiles hbelow hall hsource hdestination hinside hparent)
        obtain ⟨r', hends⟩ := completes hrename
        refine ⟨r', _, hends, ?_⟩
        cases htakes : (env.fault .rename).all Fault.applied with
        | true => exact .renamed hremoval hinside htakes
        | false => exact .cleared hfound hinspected hremoval (.inr htakes)
    · obtain ⟨e, hbroken⟩ := remove_broken hgone hremoval
      refine ⟨.error e, _, yields_bind.mpr (.inr ⟨e, yields_bind.mpr (.inr ⟨e, hbroken, rfl⟩),
        rfl⟩), .broken hfound hinspected hremoval⟩

end Execution

/-- A move over an existing entry of the same kind is made, or leaves
both entries, exactly if it is one of those that lose nothing. -/
theorem overwriting_move_safe_iff {planEnv : Env} {planFuel : Nat} {plan : OperationPlan}
    {before planned : World}
    (hplan : Yields (move.plan planEnv operation planFuel) before (.ok plan) planned)
    (hserver : planned.fallback = false) (hitem : item ∈ plan.items)
    (hfallback : w.fallback = false) (hfiles : w.disk.files = tree.nodes)
    (hsource : get tree.nodes move.source = some node)
    (hname : move.source.name = .ok name)
    (hjoin : move.destinationDirectory.join name = .ok destination)
    (hdestination : get tree.nodes destination = some existing)
    (hkind : node.kind = existing.kind)
    (hover : CopyExecutor.effectiveResolution operation.conflictPolicy resolution
      = some .overwrite) :
    ∃ r w', Yields (move.execute env operation item resolution fuel) w r w'
      ∧ ((Moved tree.nodes w'.disk.files move.source destination
          ∨ BothStand tree.nodes w'.disk.files move.source destination)
        ↔ SafeOver env tree move.source destination) := by
  obtain ⟨hitems, hvalid⟩ := yields_plan_server hplan hserver hname hjoin
  have hlocation : item.entry.location = move.source :=
    List.mem_singleton.mp (hitems ▸ List.mem_map_of_mem hitem)
  obtain ⟨hprovider, hinside⟩ : move.source.providerId = destination.providerId
      ∧ destination.startsWith move.source = false := by
    unfold validatePaths at hvalid
    obtain ⟨hprovider, hvalid⟩ := passed hvalid nofun
    obtain ⟨-, hvalid⟩ := passed hvalid nofun
    obtain ⟨hstarts, hvalid⟩ := passed hvalid nofun
    exact ⟨not_not.mp hprovider, Bool.eq_false_iff.mpr hstarts⟩
  obtain ⟨gone, hgone, hbelow, hall⟩ := removalOf_over hdestination
  obtain ⟨r, w', hyields, hends⟩ := execute_ends hfallback hfiles
    hlocation hsource hname hjoin hdestination hkind hover hgone hbelow hall
  exact ⟨r, w', hyields, hends.safe_iff hfiles hbelow hall hsource hdestination hprovider
    hinside⟩

end MoveExecutor

-- ==== sample moves

def twoFiles : FileTree :=
  .ofNodes
    [(localPath [], .directory), (localPath ["src"], .directory),
      (localPath ["src", "f"], .file [1]), (localPath ["dst"], .directory),
      (localPath ["dst", "f"], .file [2])]
    (by decide +kernel) (by decide +kernel)

/-- A directory inside one of its own name. -/
def nestedNames : FileTree :=
  .ofNodes
    [(localPath [], .directory), (localPath ["a"], .directory),
      (localPath ["a", "b"], .directory), (localPath ["a", "b", "a"], .directory),
      (localPath ["a", "b", "a", "f"], .file [1])]
    (by decide +kernel) (by decide +kernel)

/-- The move of a source into a directory of its filesystem. -/
def moveOver (source directory : Location) : MoveExecutor where
  source := source
  destinationDirectory := directory
  symlinkPolicy := .copyLink
  forceFallback := false
  transfer := { serverSideCopy := true, serverSideMove := true, sameEndpoint := true }

def moveOverOperation (move : MoveExecutor) : Operation :=
  (Scheduler.startOperation
    { id := 1
      kind := .move
      sources := [{ id := 0, location := move.source }]
      destination := some move.destinationDirectory
      conflictPolicy := .overwrite } 0).operation

/-- One filesystem; the renames fail as told. -/
def oneFilesystem (rename : Option Fault) : Env :=
  { Env.quiet with
    sameFilesystem := true
    fault := fun call => if call = .rename then rename else none }

/-- The plan of a move, and its one item. -/
def planAndExecute (move : MoveExecutor) (env : Env) : Exec ExecutionOutcome := do
  let plan ← move.plan env (moveOverOperation move) 1
  match plan.items with
  | item :: _ => move.execute env (moveOverOperation move) item none 1
  | [] => stuck

/-- A file that is moved over another takes its place. -/
theorem overwriting_move_of_file :
    ∃ (item : PlanItem) (r : Except ExecutionError ExecutionOutcome) (w' : World),
      Yields ((moveOver (localPath ["src", "f"]) (localPath ["dst"])).execute
          (oneFilesystem none)
          (moveOverOperation (moveOver (localPath ["src", "f"]) (localPath ["dst"]))) item none 1)
        (idleOn twoFiles) r w'
      ∧ (Moved twoFiles.nodes w'.disk.files (localPath ["src", "f"]) (localPath ["dst", "f"])
        ∨ BothStand twoFiles.nodes w'.disk.files (localPath ["src", "f"])
          (localPath ["dst", "f"])) := by
  let move := moveOver (localPath ["src", "f"]) (localPath ["dst"])
  obtain ⟨plan, w₁, hplan, hitems, hserver⟩ := Yields.exists_of_run
    (P := fun (plan : OperationPlan) (w' : World) =>
      plan.items.map (·.entry.location) = [move.source] ∧ w'.fallback = false)
    (show ((move.plan (oneFilesystem none) (moveOverOperation move) 1).run.run
        (idleOn twoFiles)).any _ = true from by decide +kernel)
  obtain ⟨item, hitem, -⟩ := List.mem_map.mp (hitems ▸ List.mem_singleton_self move.source)
  obtain ⟨r, w', hyields, hsafe⟩ := @MoveExecutor.overwriting_move_safe_iff
    _ _ (localPath ["dst", "f"]) _ none _ _ _ (.file [1])
    (.file [2]) _ (idleOn twoFiles) _ _ _ _ _ hplan hserver hitem rfl rfl (by decide) rfl
    (by decide +kernel) (by decide) rfl rfl
  exact ⟨item, r, w', hyields, hsafe.mpr (.inr (.inr (.inr ⟨rfl, by decide, rfl⟩)))⟩

/-- A rename that fails after the removal leaves nothing at the
destination; and a directory that is moved over one that it lies in is
lost. -/
theorem overwritten_entry_lost :
    (∃ w', Yields (planAndExecute (moveOver (localPath ["src", "f"]) (localPath ["dst"]))
          (oneFilesystem (some { error := .io "", applied := false }))) (idleOn twoFiles)
          (.error (.provider (.io ""))) w'
      ∧ w'.disk.files = [(localPath [], .directory), (localPath ["src"], .directory),
        (localPath ["src", "f"], .file [1]), (localPath ["dst"], .directory)]
      ∧ ¬ Moved twoFiles.nodes w'.disk.files (localPath ["src", "f"])
          (localPath ["dst", "f"])
      ∧ ¬ BothStand twoFiles.nodes w'.disk.files (localPath ["src", "f"])
          (localPath ["dst", "f"]))
    ∧ ∃ w', Yields (planAndExecute (moveOver (localPath ["a", "b", "a"]) (localPath []))
          (oneFilesystem none)) (idleOn nestedNames)
          (.error (.provider (.notFound (localPath ["a", "b", "a"])))) w'
      ∧ w'.disk.files = [(localPath [], .directory)]
      ∧ ¬ Moved nestedNames.nodes w'.disk.files (localPath ["a", "b", "a"])
          (localPath ["a"])
      ∧ ¬ BothStand nestedNames.nodes w'.disk.files (localPath ["a", "b", "a"])
          (localPath ["a"]) := by
  constructor
  · let w' : World :=
      { disk := { files := [(localPath [], .directory), (localPath ["src"], .directory),
            (localPath ["src", "f"], .file [1]), (localPath ["dst"], .directory)]
                  staged := []
                  log := [.removed (localPath ["dst", "f"]) [2]] }
        cells := {}
        fallback := false }
    refine ⟨w', ?_, rfl, fun h => ?_, fun h => ?_⟩
    · unfold Yields
      decide +kernel
    · exact absurd (h.arrived []) (by decide)
    · exact absurd (h.destination (localPath ["dst", "f"]) (by decide)) (by decide)
  · let w' : World :=
      { disk := { files := [(localPath [], .directory)]
                  staged := []
                  log := [.removed (localPath ["a", "b", "a", "f"]) [1]] }
        cells := {}
        fallback := false }
    refine ⟨w', ?_, rfl, fun h => ?_, fun h => ?_⟩
    · unfold Yields
      decide +kernel
    · exact absurd (h.arrived []) (by decide)
    · exact absurd h.source (by decide)

end FileManager.Transfers
