/-
What applying a sync plan starts: exactly where a plan that fails has
started nothing, and what it starts lies below the roots.

Every row that is before the first refused one is started, so a refused
row must come before all that are not skipped. A row's path is joined
name by name, and every name is a valid one; but the empty path is the
root itself.
-/
import FileManager.Comparison.Apply
import FileManager.Locations.Proofs.Paths

namespace FileManager.Comparison.Apply

open Locations (Names Place)
open Fallible (bind_eq_ok)
open List

variable {isUuid : List Char → Bool} {service : Service} {roots : Roots}
  {root l child : Locations.Location} {names : List (List Char)} {name path : List Char}
  {item : SyncPlanItem} {operation : Started} {items before after : List SyncPlanItem}
  {started : List Started}

/-- A location lies some valid names below another. -/
structure Below (isUuid : List Char → Bool) (root : Locations.Location)
    (names : List (List Char)) (l : Locations.Location) : Prop where
  valid : ∀ name ∈ names, Locations.validateName name = .ok ()
  place : ∃ place : Place, place.WellFormed isUuid ∧ Names isUuid root place
    ∧ Names isUuid l { place with segments := place.segments ++ names.map Text.utf8 }

def StrictlyBelow (isUuid : List Char → Bool) (root l : Locations.Location) : Prop :=
  ∃ names ≠ [], Below isUuid root names l

/-- The root of the side that a row takes from, or deletes on, and of the
side that it writes on. -/
def sides (roots : Roots) : SyncAction → Locations.Location × Locations.Location
  | .copyRightToLeft | .deleteRight => (roots.right, roots.left)
  | .copyLeftToRight | .deleteLeft | .skip => (roots.left, roots.right)

/-- The sources of an operation, and the entries that it writes. -/
structure Contained (service : Service) (roots : Roots) (operation : Started) : Prop where
  sources : ∀ source ∈ operation.2.sources,
    StrictlyBelow service.isUuid (sides roots operation.1.action).1 source
  destinations : ∀ source ∈ operation.2.sources, ∀ directory ∈ operation.2.destination,
    ∀ name entry, source.name service.isUuid = .ok name →
      directory.join service.isUuid name = .ok entry →
        StrictlyBelow service.isUuid (sides roots operation.1.action).2 entry

/-- What is asked of applying a plan. -/
structure Submits (service : Service) (roots : Roots) (items : List SyncPlanItem) :
    Prop where
  whole : ∀ error started, applySyncPlan service (some roots) items
    = (.error error, started) → started = []
  contained : ∀ operation ∈ (applySyncPlan service (some roots) items).2,
    Contained service roots operation

-- ==== locations

theorem Below.join (h : Below isUuid root names l)
    (hjoin : l.join isUuid name = .ok child) : Below isUuid root (names ++ [name]) child := by
  obtain ⟨place, hplace, hroot, hnames⟩ := h.place
  obtain ⟨hname, other, hother, hwell⟩ := Locations.join_spec hjoin
  obtain rfl := hother.unique hnames
  rw [Locations.join_eq hnames hwell hname] at hjoin
  obtain rfl := Except.ok.inj hjoin
  refine ⟨?_, place, hplace, hroot, ?_⟩
  · intro other hmem
    rcases mem_append.mp hmem with hmem | hmem
    · exact h.valid other hmem
    · rwa [mem_singleton.mp hmem]
  · simpa [Place.child] using Locations.names_location (hwell.child hname)

theorem below_self (h : l.join isUuid name = .ok child) : Below isUuid l [] l := by
  obtain ⟨-, place, hnames, hplace⟩ := Locations.join_spec h
  exact ⟨nofun, place, hplace, hnames, by simpa using hnames⟩

theorem not_strictlyBelow_self : ¬ StrictlyBelow isUuid l l := by
  rintro ⟨names, hne, -, place, -, hroot, hnames⟩
  have hsegments := congrArg Place.segments (hroot.unique hnames)
  simp [hne] at hsegments

theorem below_of_joinAll {segments : List (List Char)} {current : Locations.Location}
    (h : Below service.isUuid root names current)
    (hjoin : joinAll service current segments = .ok l) :
    Below service.isUuid root (names ++ segments) l := by
  induction segments generalizing names current with
  | nil =>
    obtain rfl := Except.ok.inj hjoin
    simpa using h
  | cons segment rest ih =>
    obtain ⟨next, hnext, hjoin⟩ := bind_eq_ok.mp hjoin
    simpa using ih (h.join hnext) hjoin

theorem strictlyBelow_of_resolve (hpath : path ≠ [])
    (h : resolveRelative service root path = .ok l) : StrictlyBelow service.isUuid root l := by
  rw [resolveRelative, if_neg hpath] at h
  cases hsplit : path.splitOn '/' with
  | nil => exact absurd hsplit (splitOn_ne_nil _ _)
  | cons segment rest =>
    rw [hsplit] at h
    obtain ⟨next, hnext, -⟩ := bind_eq_ok.mp h
    exact ⟨_, cons_ne_nil _ _, below_of_joinAll (below_self hnext) h⟩

theorem strictlyBelow_in_resolved {directory entry : Locations.Location}
    (h : resolveRelative service root path = .ok directory)
    (hjoin : directory.join service.isUuid name = .ok entry) :
    StrictlyBelow service.isUuid root entry := by
  by_cases hpath : path = []
  · rw [resolveRelative, if_pos hpath] at h
    obtain rfl := Except.ok.inj h
    exact ⟨_, by simp, (below_self hjoin).join hjoin⟩
  · obtain ⟨names, -, hbelow⟩ := strictlyBelow_of_resolve hpath h
    exact ⟨_, by simp, hbelow.join hjoin⟩

-- ==== rows

theorem mapError_eq_ok {α ε ε' : Type} {x : Except ε α} {f : ε → ε'} {a : α} :
    x.mapError f = .ok a ↔ x = .ok a := by
  cases x <;> simp [Except.mapError]

theorem resolved_of_applyRow (h : applyRow service roots item = .ok (some operation)) :
    operation.1 = item ∧ ∃ source, operation.2.sources = [source]
      ∧ resolveRelative service (sides roots item.action).1 item.relativePath.toList = .ok source
      ∧ ∀ directory ∈ operation.2.destination, ∃ path,
        resolveRelative service (sides roots item.action).2 path = .ok directory := by
  unfold applyRow at h
  cases hmade : rowRequest service roots item with
  | none => simp [hmade] at h
  | some made =>
    simp only [hmade] at h
    obtain ⟨request, rfl, hstart⟩ := bind_eq_ok.mp h
    obtain ⟨u, -, hpure⟩ := bind_eq_ok.mp hstart
    cases hpure
    refine ⟨rfl, ?_⟩
    unfold rowRequest at hmade
    cases haction : item.action with
    | skip => simp [haction] at hmade
    | copyLeftToRight | copyRightToLeft =>
      simp only [haction, Option.some.injEq] at hmade
      obtain ⟨source, hsource, hmade⟩ := bind_eq_ok.mp hmade
      obtain ⟨directory, hdirectory, hmade⟩ := bind_eq_ok.mp hmade
      cases hmade
      refine ⟨source, rfl, mapError_eq_ok.mp hsource, ?_⟩
      rintro _ ⟨⟩
      exact ⟨_, mapError_eq_ok.mp hdirectory⟩
    | deleteLeft | deleteRight =>
      simp only [haction, Option.some.injEq] at hmade
      obtain ⟨source, hsource, hmade⟩ := bind_eq_ok.mp hmade
      cases hmade
      exact ⟨source, rfl, mapError_eq_ok.mp hsource, nofun⟩

theorem contained_iff (h : applyRow service roots item = .ok (some operation)) :
    Contained service roots operation ↔ item.relativePath ≠ "" := by
  obtain ⟨rfl, source, hsources, hsource, hdestination⟩ := resolved_of_applyRow h
  constructor
  · intro hcontained hempty
    have hroot := hcontained.sources source (by simp [hsources])
    rw [resolveRelative, hempty, if_pos (by rfl)] at hsource
    rw [← Except.ok.inj hsource] at hroot
    exact not_strictlyBelow_self hroot
  · intro hpath
    constructor
    · intro other hother
      obtain rfl : other = source := by simpa [hsources] using hother
      exact strictlyBelow_of_resolve (by simpa using hpath) hsource
    · intro other _ directory hdirectory name entry _ hjoin
      obtain ⟨path, hresolved⟩ := hdestination directory hdirectory
      exact strictlyBelow_in_resolved hresolved hjoin

-- ==== plans

/-- What the turn of a row starts. -/
def startedBy (service : Service) (roots : Roots) (item : SyncPlanItem) : Option Started :=
  match applyRow service roots item with
  | .ok operation => operation
  | .error _ => none

/-- The rows that come before the first refused one. -/
def Accepted (service : Service) (roots : Roots) (items : List SyncPlanItem) : Prop :=
  ∀ item ∈ items, ∃ operation, applyRow service roots item = .ok operation

/-- The first row that is refused comes after one that is not skipped. -/
def Interrupted (service : Service) (roots : Roots) (items : List SyncPlanItem) : Prop :=
  ∃ before item after error, items = before ++ item :: after ∧ Accepted service roots before
    ∧ applyRow service roots item = .error error
    ∧ ∃ earlier ∈ before, earlier.action ≠ .skip

/-- A row with the empty path is accepted, and all before it are. -/
def StartsRoot (service : Service) (roots : Roots) (items : List SyncPlanItem) : Prop :=
  ∃ before item after operation, items = before ++ item :: after ∧ Accepted service roots before
    ∧ applyRow service roots item = .ok (some operation)
    ∧ item.relativePath = ""

theorem applyRows_append (h : Accepted service roots before) :
    applyRows service roots (before ++ after) started = applyRows service roots after
        (started ++ before.filterMap (startedBy service roots)) := by
  induction before generalizing started with
  | nil => simp
  | cons item rest ih =>
    obtain ⟨operation, hitem⟩ := h item (by simp)
    have hrest : Accepted service roots rest :=
      fun other hmem => h other (mem_cons_of_mem _ hmem)
    rw [cons_append, applyRows]
    simp only [hitem]
    rw [ih hrest]
    cases operation <;> simp [startedBy, hitem]

theorem applyRows_spec (items : List SyncPlanItem) (started : List Started) :
    ∃ before after, items = before ++ after ∧ Accepted service roots before
      ∧ (applyRows service roots items started).2
        = started ++ before.filterMap (startedBy service roots)
      ∧ ∀ error, (applyRows service roots items started).1 = .error error →
        ∃ item rest, after = item :: rest ∧ applyRow service roots item = .error error := by
  induction items generalizing started with
  | nil => exact ⟨[], [], rfl, by simp [Accepted], by simp [applyRows], by simp [applyRows]⟩
  | cons item rest ih =>
    cases hitem : applyRow service roots item with
    | error error =>
      refine ⟨[], item :: rest, rfl, by simp [Accepted], by simp [applyRows, hitem], ?_⟩
      intro other hother
      obtain rfl : error = other := by simpa [applyRows, hitem] using hother
      exact ⟨item, rest, rfl, hitem⟩
    | ok operation =>
      obtain ⟨before, after, hitems, hbefore, hstarted, hfailed⟩ := ih (started ++ operation.toList)
      have hturn : applyRows service roots (item :: rest) started
          = applyRows service roots rest (started ++ operation.toList) := by
        simp [applyRows, hitem]
      refine ⟨item :: before, after, by simp [hitems], ?_, ?_, hturn ▸ hfailed⟩
      · intro other hmem
        rcases mem_cons.mp hmem with rfl | hmem
        · exact ⟨operation, hitem⟩
        · exact hbefore other hmem
      · rw [hturn, hstarted]
        cases operation <;> simp [startedBy, hitem]

theorem startedBy_eq_none_iff {operation : Option Started}
    (h : applyRow service roots item = .ok operation) :
    startedBy service roots item = none ↔ item.action = .skip := by
  unfold startedBy
  rw [h]
  unfold applyRow at h
  cases hmade : rowRequest service roots item with
  | none =>
    simp only [hmade] at h
    cases h
    unfold rowRequest at hmade
    cases haction : item.action <;> simp [haction] at hmade ⊢
  | some made =>
    simp only [hmade] at h
    obtain ⟨request, -, hstart⟩ := bind_eq_ok.mp h
    obtain ⟨u, -, hpure⟩ := bind_eq_ok.mp hstart
    cases hpure
    have hskip : item.action ≠ .skip := fun hskip => by simp [rowRequest, hskip] at hmade
    simp [hskip]

/-- A plan is submitted as a whole and below the roots just if no
refused row follows one that is not skipped, and no started row has the
empty path. -/
theorem sync_plan_submits_iff (service : Service) (roots : Roots) (items : List SyncPlanItem) :
    Submits service roots items ↔ ¬ Interrupted service roots items
        ∧ ¬ StartsRoot service roots items := by
  constructor
  · intro h
    constructor
    · rintro ⟨before, item, after, error, rfl, hbefore, hitem, earlier, hearlier, haction⟩
      have hrun : applyRows service roots (before ++ item :: after) []
          = (.error error, before.filterMap (startedBy service roots)) := by
        rw [applyRows_append hbefore]
        simp [applyRows, hitem]
      have hnone := filterMap_eq_nil_iff.mp (h.whole _ _ hrun) earlier hearlier
      obtain ⟨operation, haccepted⟩ := hbefore earlier hearlier
      exact haction ((startedBy_eq_none_iff haccepted).mp hnone)
    · rintro ⟨before, item, after, operation, rfl, hbefore, hitem, hempty⟩
      have hmem : operation ∈ (applyRows service roots (before ++ item :: after) []).2 := by
        rw [applyRows_append hbefore, applyRows]
        simp only [hitem]
        obtain ⟨_, _, -, -, hstarted, -⟩ := @applyRows_spec service roots after
          ([] ++ before.filterMap (startedBy service roots) ++ [operation])
        exact hstarted ▸ by simp
      exact (contained_iff hitem).mp (h.contained operation hmem) hempty
  · rintro ⟨hwhole, hroot⟩
    obtain ⟨before, after, rfl, hbefore, hstarted, hfailed⟩ :=
      @applyRows_spec service roots items []
    rw [nil_append] at hstarted
    constructor
    · intro error started hrun
      obtain ⟨item, rest, rfl, hitem⟩ := hfailed error (congrArg Prod.fst hrun)
      obtain rfl := hstarted.symm.trans (congrArg Prod.snd hrun)
      refine filterMap_eq_nil_iff.mpr fun earlier hearlier => ?_
      obtain ⟨operation, haccepted⟩ := hbefore earlier hearlier
      refine (startedBy_eq_none_iff haccepted).mpr (by_contra fun haction => ?_)
      exact hwhole ⟨before, item, rest, error, rfl, hbefore, hitem, earlier, hearlier, haction⟩
    · intro operation hmem
      obtain ⟨item, hitem, hstart⟩ := mem_filterMap.mp (hstarted ▸ hmem)
      obtain ⟨made, haccepted⟩ := hbefore item hitem
      obtain rfl : made = some operation := by simpa [startedBy, haccepted] using hstart
      refine (contained_iff haccepted).mpr fun hempty => hroot ?_
      obtain ⟨front, back, rfl⟩ := append_of_mem hitem
      exact ⟨front, item, back ++ after, operation, by simp,
        fun earlier hearlier => hbefore earlier (by simp [hearlier]), haccepted, hempty⟩

-- A deletion that is started before a row with `..` is refused.

def obliging : Service where
  isUuid := Locations.isHyphenatedUuid
  canRead _ := .ok ()
  canWrite _ := .ok ()
  canDelete _ := .ok ()
  resolveTransfer _ _ := .ok ()

def twoSides : Roots where
  left := ⟨"local", "file:///l".toList⟩
  right := ⟨"local", "file:///r".toList⟩

def deletion (relativePath : String) : SyncPlanItem where
  relativePath := relativePath
  status := .onlyLeft
  action := .deleteLeft
  left := none
  right := none

theorem deletion_started_before_refused_row :
    ¬ Submits obliging twoSides [deletion "a", deletion ".."] := by
  intro h
  have hwhole := h.whole
  have hrun : (applySyncPlan obliging (some twoSides) [deletion "a", deletion ".."]).1.toBool = false
      ∧ (applySyncPlan obliging (some twoSides) [deletion "a", deletion ".."]).2 ≠ [] := by
    decide +kernel
  generalize applySyncPlan _ _ _ = result at hwhole hrun
  obtain ⟨outcome, started⟩ := result
  cases outcome with
  | ok => cases hrun.1
  | error error => exact hrun.2 (hwhole error started rfl)

end FileManager.Comparison.Apply
