/-
What the check against the accessible roots decides.

A path lands where the system resolves it to; one that is not there
lands below its parent, wherever that lands (`Lands`). The check passes
exactly the paths that land below a root, if every root is there
(`validateWithinAccessibleRoots_ok_iff`).
-/
import FileManager.Server.Roots
import FileManager.Lib.Fallible

namespace FileManager.Server

open Locations (Segment)
open Archives.Reading (toNativePath)
open List Option Fallible

variable {files : FileSystem} {roots : List (List Segment)} {path : List Segment}
  {found : List Segment} {location : LocationDto}

/-- Where a path ends, links resolved: a missing path ends below the
nearest ancestor that is there. -/
inductive Lands (files : FileSystem) : List Segment → List Segment → Prop
  | there {path found : List Segment} (h : canonicalize files path = some found) :
      Lands files path found
  | pending {path above found : List Segment} {name : Segment}
      (hmissing : canonicalize files path = none) (hname : fileName path = some name)
      (hparent : parent path = some above) (habove : Lands files above found) :
      Lands files path (found ++ [name])

/-- A true path at one of the roots or below it. -/
def Below (files : FileSystem) (roots : List (List Segment)) (found : List Segment) : Prop :=
  ∃ root ∈ roots, ∃ canonical, canonicalize files root = some canonical ∧ canonical <+: found

/-- Every root is there. -/
def Rooted (files : FileSystem) (roots : List (List Segment)) : Prop :=
  ∀ root ∈ roots, ∃ canonical, canonicalize files root = some canonical

theorem Below.mono {further : List Segment} (h : Below files roots found)
    (hfurther : found <+: further) : Below files roots further := by
  obtain ⟨root, hroot, canonical, hcanonical, hprefix⟩ := h
  exact ⟨root, hroot, canonical, hcanonical, hprefix.trans hfurther⟩

-- ==== landing

theorem Lands.unique {other : List Segment} (h : Lands files path found)
    (hother : Lands files path other) : found = other := by
  induction h generalizing other with
  | there h =>
    cases hother with
    | there hother => exact some.inj (h.symm.trans hother)
    | pending hmissing => simp [h] at hmissing
  | pending hmissing hname hparent _ ih =>
    cases hother with
    | there hother => simp [hother] at hmissing
    | pending _ hname' hparent' habove =>
      obtain rfl := some.inj (hname.symm.trans hname')
      obtain rfl := some.inj (hparent.symm.trans hparent')
      rw [ih habove]

theorem length_trimmed_le (path : List Segment) : (trimmed path).length ≤ path.length := by
  have hsub : (path.reverse.dropWhile (· = dot)).Sublist path.reverse := dropWhile_sublist _
  simpa [trimmed] using hsub.length_le

theorem length_parent_lt {above : List Segment} (h : parent path = some above) :
    above.length < path.length := by
  simp only [parent] at h
  obtain ⟨hne, h⟩ := passed h nofun
  obtain rfl := some.inj h
  have hpos := length_pos_of_ne_nil hne
  have hinner := length_trimmed_le (trimmed path).dropLast
  have houter := length_trimmed_le path
  rw [length_dropLast] at hinner
  omega

theorem climb_spec (rounds : Nat) (path pendingSuffix : List Segment)
    (hrounds : path.length ≤ rounds) (hmissing : canonicalize files path = none) :
    (∃ above names resolved,
      climb files rounds path pendingSuffix = .ok (above, names ++ pendingSuffix)
        ∧ canonicalize files above = some resolved ∧ Lands files path (resolved ++ names))
      ∨ climb files rounds path pendingSuffix = .error (.resolutionFailed .noExistingAncestor)
        ∧ ∀ found, ¬ Lands files path found := by
  induction rounds generalizing path pendingSuffix with
  | zero =>
    -- The root is always there.
    obtain rfl : path = [] := length_eq_zero_iff.1 (by omega)
    cases hmissing
  | succ rounds ih =>
    cases hname : fileName path with
    | none =>
      right
      refine ⟨by simp [climb, hname], ?_⟩
      intro found hlands
      cases hlands with
      | there h => simp [h] at hmissing
      | pending _ hname' => simp [hname] at hname'
    | some name =>
      cases hparent : parent path with
      | none =>
        right
        refine ⟨by simp [climb, hname, hparent], ?_⟩
        intro found hlands
        cases hlands with
        | there h => simp [h] at hmissing
        | pending _ _ hparent' => simp [hparent] at hparent'
      | some above =>
        cases habove : canonicalize files above with
        | some resolved =>
          left
          refine ⟨above, [name], resolved, ?_, habove, ?_⟩
          · simp [climb, hname, hparent, pathExists, habove]
          · exact .pending hmissing hname hparent (.there habove)
        | none =>
          have hclimb : climb files (rounds + 1) path pendingSuffix
              = climb files rounds above (name :: pendingSuffix) := by
            simp [climb, hname, hparent, pathExists, habove]
          have hlt := length_parent_lt hparent
          rcases ih above (name :: pendingSuffix) (by omega) habove with
            ⟨nearest, names, resolved, hok, hresolved, hlands⟩ | ⟨herror, hnone⟩
          · left
            refine ⟨nearest, names ++ [name], resolved, ?_, hresolved, ?_⟩
            · rw [hclimb, hok]
              simp
            · rw [← append_assoc]
              exact .pending hmissing hname hparent hlands
          · right
            refine ⟨by rw [hclimb, herror], ?_⟩
            intro found hlands
            cases hlands with
            | there h => simp [h] at hmissing
            | pending _ _ hparent' hlands' =>
              obtain rfl := some.inj (hparent.symm.trans hparent')
              exact hnone _ hlands'

theorem canonicalizeExistingOrPending_ok_iff :
    canonicalizeExistingOrPending files path = .ok found ↔ Lands files path found := by
  cases hpath : canonicalize files path with
  | some canonical =>
    have heq : canonicalizeExistingOrPending files path = .ok canonical := by
      simp [canonicalizeExistingOrPending, hpath]
    rw [heq]
    constructor
    · intro h
      obtain rfl := Except.ok.inj h
      exact .there hpath
    · intro h
      rw [h.unique (.there hpath)]
  | none =>
    rcases climb_spec path.length path [] le_rfl hpath with
      ⟨above, names, resolved, hok, hresolved, hlands⟩ | ⟨herror, hnone⟩
    · have heq : canonicalizeExistingOrPending files path = .ok (resolved ++ names) := by
        simp [canonicalizeExistingOrPending, hpath, hok, hresolved, bind, Except.bind, pure,
          Except.pure]
      rw [heq]
      constructor
      · intro h
        rw [← Except.ok.inj h]
        exact hlands
      · intro h
        rw [h.unique hlands]
    · have heq : canonicalizeExistingOrPending files path
          = .error (.resolutionFailed .noExistingAncestor) := by
        simp [canonicalizeExistingOrPending, hpath, herror, bind, Except.bind]
      rw [heq]
      constructor
      · intro h
        cases h
      · intro h
        exact absurd h (hnone found)

-- ==== checks

theorem canonicalRoots_of_rooted (h : Rooted files roots) :
    ∃ canonical, canonicalRoots files roots = .ok canonical
      ∧ ∀ c, c ∈ canonical ↔ ∃ root ∈ roots, canonicalize files root = some c := by
  have hmap : ∃ canonical, roots.mapM (canonicalize files) = some canonical
      ∧ ∀ c, c ∈ canonical ↔ ∃ root ∈ roots, canonicalize files root = some c := by
    induction roots with
    | nil => exact ⟨[], by simp⟩
    | cons root rest ih =>
      obtain ⟨first, hfirst⟩ := h root (by simp)
      obtain ⟨others, hothers, hmem⟩ := ih fun other hother => h other (by simp [hother])
      refine ⟨first :: others, by simp [hfirst, hothers], ?_⟩
      intro c
      simp [hmem, hfirst, eq_comm]
  obtain ⟨canonical, hcanonical, hmem⟩ := hmap
  exact ⟨canonical, by simp [canonicalRoots, hcanonical], hmem⟩

theorem rooted_of_canonicalRoots {canonical : List (List Segment)}
    (h : canonicalRoots files roots = .ok canonical) : Rooted files roots := by
  have hmap : ∃ canonical, roots.mapM (canonicalize files) = some canonical := by
    simp only [canonicalRoots] at h
    split at h
    · cases h
    · exact ⟨_, by assumption⟩
  clear h
  induction roots with
  | nil =>
    intro root hroot
    cases hroot
  | cons root rest ih =>
    obtain ⟨canonical, hcanonical⟩ := hmap
    simp only [mapM_cons, bind_eq_bind, bind_eq_some_iff] at hcanonical
    obtain ⟨first, hfirst, others, hothers, -⟩ := hcanonical
    intro other hother
    rcases mem_cons.1 hother with rfl | hrest
    · exact ⟨first, hfirst⟩
    · exact ih ⟨others, hothers⟩ other hrest

theorem validateWithinAccessibleRoots_ok_iff (hroots : roots ≠ []) :
    validateWithinAccessibleRoots files path roots = .ok found
      ↔ Rooted files roots ∧ Lands files path found ∧ Below files roots found := by
  rw [validateWithinAccessibleRoots, if_neg hroots]
  constructor
  · intro h
    obtain ⟨canonicalPath, hpath, h⟩ := bind_eq_ok.1 h
    obtain ⟨canonical, hcanonical, h⟩ := bind_eq_ok.1 h
    split at h
    case isFalse => cases h
    case isTrue hany =>
      obtain rfl : canonicalPath = found := Except.ok.inj h
      have hrooted := rooted_of_canonicalRoots hcanonical
      obtain ⟨other, hother, hmem⟩ := canonicalRoots_of_rooted hrooted
      obtain rfl : other = canonical := Except.ok.inj (hother.symm.trans hcanonical)
      obtain ⟨c, hc, hprefix⟩ := any_eq_true.1 hany
      obtain ⟨root, hroot, hat⟩ := (hmem c).1 hc
      refine ⟨hrooted, canonicalizeExistingOrPending_ok_iff.1 hpath, root, hroot, c, hat, ?_⟩
      exact isPrefixOf_iff_prefix.1 hprefix
  · rintro ⟨hrooted, hlands, root, hroot, c, hat, hprefix⟩
    obtain ⟨canonical, hcanonical, hmem⟩ := canonicalRoots_of_rooted hrooted
    have hany : (canonical.any fun root => root.isPrefixOf found) = true :=
      any_eq_true.2 ⟨c, (hmem c).2 ⟨root, hroot, hat⟩, isPrefixOf_iff_prefix.2 hprefix⟩
    rw [canonicalizeExistingOrPending_ok_iff.2 hlands, hcanonical]
    simp [bind, Except.bind, hany, pure, Except.pure]

/-- What the check asks of a location: one of the machine's own files
lands below a root; one of another provider is let through. -/
def Admitted (files : FileSystem) (roots : List (List Segment)) (location : LocationDto) : Prop :=
  location.providerId = "local" → Rooted files roots
    ∧ ∃ path found, toNativePath location = some path ∧ Lands files path found
      ∧ Below files roots found

theorem requireWithinRoots_ok_iff (hroots : roots ≠ []) :
    requireWithinRoots files roots location = .ok () ↔ Admitted files roots location := by
  have hvalid : requireWithinRoots files roots location = .ok ()
      ↔ validateLocation files location roots = .ok () := by
    simp only [requireWithinRoots]
    cases validateLocation files location roots with
    | ok | error => simp
  rw [hvalid, validateLocation]
  split
  case isTrue hforeign => simp [Admitted, hforeign]
  case isFalse hlocal =>
    have hlocal : location.providerId = "local" := not_not.1 hlocal
    cases hpath : toNativePath location with
    | none => simp [Admitted, hlocal, hpath]
    | some path =>
      constructor
      · intro h _
        obtain ⟨found, hfound, -⟩ := bind_eq_ok.1 h
        obtain ⟨hrooted, hlands, hbelow⟩ := (validateWithinAccessibleRoots_ok_iff hroots).1 hfound
        exact ⟨hrooted, path, found, hpath, hlands, hbelow⟩
      · intro h
        obtain ⟨hrooted, path', found, hpath', hlands, hbelow⟩ := h hlocal
        obtain rfl := some.inj (hpath.symm.trans hpath')
        refine bind_eq_ok.2 ⟨found, ?_, rfl⟩
        exact (validateWithinAccessibleRoots_ok_iff hroots).2 ⟨hrooted, hlands, hbelow⟩

theorem requireWithinRoots_denied (h : requireWithinRoots files roots location ≠ .ok ()) :
    requireWithinRoots files roots location = .error .permissionDenied := by
  simp only [requireWithinRoots] at h ⊢
  split
  · simp_all
  · rfl

end FileManager.Server
