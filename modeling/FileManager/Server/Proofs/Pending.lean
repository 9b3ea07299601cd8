/-
The check against the roots, for paths that are opened or made.

A path that is there is checked where it resolves to. For one that is
not, the check looks for the nearest ancestor that is there, and takes
the names below it as they stand. The system does as well, but for the
last one: a link that leads nowhere is followed, and what it names is
made. So the check is sound but for links like that to places out of the
roots.
-/
import FileManager.Server.Proofs.Confinement

namespace FileManager.Server

open Locations (Segment)
open Links (opens_append openTo opens_init opens_stays)
open List (replicate)
open Option List

variable {files : FileSystem} {roots : List (List Segment)} {path touched above : List Segment}
  {name : Segment}

/-- The file that the system opens at a path, or makes. -/
def opened (files : FileSystem) (path : List Segment) : Option (List Segment) :=
  Links.opens files maxLinks [] (path.map stepOf)

/-- What is asked of the check for a path. -/
structure Guards (files : FileSystem) (roots : List (List Segment)) (path : List Segment) :
    Prop where
  sound : ∀ found, validateWithinAccessibleRoots files path roots = .ok found →
    ∀ touched, opened files path = some touched → Below files roots touched
  complete : ∀ found, canonicalize files path = some found → Below files roots found →
    validateWithinAccessibleRoots files path roots = .ok found

/-- In a directory at or below a root, the path ends in a link that leads
nowhere, and what it names would be made out of the roots. The system
opens the path: it does not take too many links. -/
structure DanglesOut (files : FileSystem) (roots : List (List Segment)) (path : List Segment) :
    Prop where
  missing : canonicalize files path = none
  opens : (opened files path).isSome
  out : ∃ name above directory absolute target touched, fileName path = some name
    ∧ parent path = some above ∧ canonicalize files above = some directory
    ∧ Below files roots (directory ++ [name])
    ∧ files (directory ++ [name]) = some (.link absolute target)
    ∧ Links.opens files maxLinks (if absolute then [] else directory) target = some touched
    ∧ ¬Below files roots touched

-- ==== steps

theorem canonicalize_opened {found : List Segment} (h : canonicalize files path = some found) :
    opened files path = some found := by
  obtain ⟨left, -, hrest⟩ := opens_append h
  have hend := hrest []
  rw [append_nil] at hend
  rw [opened, hend]
  cases left <;> rfl

theorem trimmed_split (path : List Segment) : ∃ n, path = trimmed path ++ replicate n dot := by
  induction path using reverseRecOn with
  | nil => exact ⟨0, rfl⟩
  | append_singleton rest last ih =>
    by_cases hdot : last = dot
    · obtain ⟨n, hn⟩ := ih
      refine ⟨n + 1, ?_⟩
      have htrimmed : trimmed (rest ++ [last]) = trimmed rest := by simp [trimmed, hdot]
      rw [htrimmed, replicate_succ', ← append_assoc, ← hn, hdot]
    · exact ⟨0, by simp [trimmed, hdot]⟩

theorem getLast?_trimmed_ne_dot {last : Segment} (h : (trimmed path).getLast? = some last) :
    last ≠ dot := by
  rw [trimmed, getLast?_reverse] at h
  simpa [h] using head?_dropWhile_not (· = dot) path.reverse

theorem steps_split (hname : fileName path = some name)
    (hparent : parent path = some above) : ∃ m n, path.map stepOf
      = above.map stepOf ++ (replicate m .stay ++ (.down name :: replicate n .stay)) := by
  obtain ⟨n, hpath⟩ := trimmed_split path
  obtain ⟨hlast, hdots⟩ := filter_eq_some_iff.mp hname
  have hfront := dropLast_append_getLast? name hlast
  have hne : trimmed path ≠ [] := by
    intro hnil
    simp [hnil] at hlast
  rw [parent, if_neg hne, some.injEq] at hparent
  obtain ⟨m, hinit⟩ := trimmed_split (trimmed path).dropLast
  rw [hparent] at hinit
  -- a name is neither of the dots
  have hstep : stepOf name = .down name := by
    rw [stepOf, if_neg (getLast?_trimmed_ne_dot hlast), if_neg (by simpa using hdots)]
  have hstay : stepOf dot = .stay := rfl
  refine ⟨m, n, ?_⟩
  rw [hpath, ← hfront, hinit]
  simp [hstep, hstay]

theorem opens_last {left n : Nat} {directory : List Segment} (hnew : files touched = none)
    (h : Links.opens files left directory (.down name :: replicate n .stay) = some touched) :
    (files (directory ++ [name]) = none ∧ touched = directory ++ [name])
      ∨ ∃ absolute target, ∃ fewer ≤ left,
      files (directory ++ [name]) = some (.link absolute target)
        ∧ Links.opens files fewer (if absolute then [] else directory) target = some touched := by
  have hopen : Links.open_ files directory = true := by
    by_contra hclosed
    cases left <;> simp [Links.opens, openTo, hclosed] at h
  cases hnode : files (directory ++ [name]) with
  | none =>
    left
    refine ⟨rfl, ?_⟩
    cases left <;> simp [Links.opens, openTo, hopen, hnode] at h <;> exact h.2.symm
  | some node =>
    cases node with
    | link absolute target =>
      cases left with
      | zero => simp [Links.opens, openTo, hopen, hnode] at h
      | succ left =>
        right
        refine ⟨absolute, target, left, Nat.le_succ left, rfl, ?_⟩
        have hturn : Links.opens files left (if absolute then [] else directory)
            (target ++ replicate n .stay) = some touched := by
          simpa [Links.opens, openTo, hopen, hnode] using h
        -- no directory is made, so nothing stays in it
        cases n with
        | zero => simpa using hturn
        | succ n =>
          obtain ⟨found, hwalk⟩ := opens_init (by simp) hturn
          obtain ⟨fewer, -, hrest⟩ := opens_append hwalk
          rw [hrest, ← append_nil (replicate _ _)] at hturn
          obtain ⟨hend, hthere⟩ := opens_stays hturn
          have hsame : found = touched := by
            cases fewer <;> simpa [Links.opens, openTo] using hend
          exact absurd hnew (hsame ▸ hthere (Nat.succ_ne_zero n))
    | file | directory =>
      have hend : Links.opens files left (directory ++ [name]) (replicate n .stay ++ [])
          = some touched := by
        cases left <;> simpa [Links.opens, openTo, hopen, hnode] using h
      have hsame : directory ++ [name] = touched := by
        have hstayed := (opens_stays hend).1
        cases left <;> simpa [Links.opens, openTo] using hstayed
      rw [hsame, hnew] at hnode
      cases hnode

theorem opened_pending (hmissing : canonicalize files path = none)
    (hname : fileName path = some name) (hparent : parent path = some above)
    (hopened : opened files path = some touched) :
    ∃ directory, canonicalize files above = some directory
      ∧ ((files (directory ++ [name]) = none ∧ touched = directory ++ [name])
        ∨ ∃ absolute target, files (directory ++ [name]) = some (.link absolute target)
          ∧ Links.opens files maxLinks (if absolute then [] else directory) target
            = some touched) := by
  have hnew : files touched = none := by
    by_contra hthere
    cases hmissing.symm.trans (Links.walk_of_opens hthere hopened)
  obtain ⟨m, n, hsteps⟩ := steps_split hname hparent
  rw [opened, hsteps] at hopened
  obtain ⟨directory, habove⟩ := opens_init (by simp) hopened
  obtain ⟨left, hleft, hrest⟩ := opens_append habove
  rw [hrest] at hopened
  refine ⟨directory, habove, ?_⟩
  obtain hplain | ⟨absolute, target, fewer, hfewer, hlink, htarget⟩ :=
    opens_last hnew (opens_stays hopened).1
  · exact .inl hplain
  · exact .inr ⟨absolute, target, hlink, Links.opens_mono (hfewer.trans hleft) htarget⟩

-- ==== the check

/-- The check keeps the system below the roots, on just the paths that
are no link out to what is not there. -/
theorem pending_check_sound_iff (hroots : roots ≠ []) (hrooted : Rooted files roots) :
    Guards files roots path ↔ ¬DanglesOut files roots path := by
  constructor
  · intro hguards hdangles
    obtain ⟨name, above, directory, absolute, target, touched, hname, hparent, habove, hbelow,
      hlink, htarget, hout⟩ := hdangles.out
    obtain ⟨made, hmade⟩ := isSome_iff_exists.1 hdangles.opens
    have hlands : Lands files path (directory ++ [name]) :=
      .pending hdangles.missing hname hparent (.there habove)
    have haccepted := (validateWithinAccessibleRoots_ok_iff hroots).2 ⟨hrooted, hlands, hbelow⟩
    obtain ⟨other, hother, hplace⟩ := opened_pending hdangles.missing hname hparent hmade
    obtain rfl := some.inj (habove.symm.trans hother)
    obtain ⟨hnone, -⟩ | ⟨absolute', target', hlink', htarget'⟩ := hplace
    · cases hlink.symm.trans hnone
    · cases hlink.symm.trans hlink'
      obtain rfl := some.inj (htarget.symm.trans htarget')
      exact hout (hguards.sound _ haccepted _ hmade)
  · intro hsafe
    constructor
    · intro found haccepted touched hopened
      obtain ⟨-, hlands, hbelow⟩ := (validateWithinAccessibleRoots_ok_iff hroots).1 haccepted
      cases hlands with
      | there hfound =>
        obtain rfl := some.inj ((canonicalize_opened hfound).symm.trans hopened)
        exact hbelow
      | pending hmissing hname hparent hlands =>
        obtain ⟨directory, hdirectory, hplace⟩ := opened_pending hmissing hname hparent hopened
        obtain rfl := hlands.unique (.there hdirectory)
        obtain ⟨-, rfl⟩ | ⟨absolute, target, hlink, htarget⟩ := hplace
        · exact hbelow
        · by_contra hout
          exact hsafe ⟨hmissing, by simp [hopened], _, _, _, absolute, target, touched, hname,
            hparent, hdirectory, hbelow, hlink, htarget, hout⟩
    · intro found hfound hbelow
      exact (validateWithinAccessibleRoots_ok_iff hroots).2 ⟨hrooted, .there hfound, hbelow⟩

-- A shared directory with a link to what is not there yet.

def awaiting : FileSystem := fun path =>
  [([], .directory), ([named "srv"], .directory),
    ([named "srv", named "new"], .link true [.down (named "home"), .down (named "new")]),
    ([named "home"], .directory)].lookup path

theorem rooted_awaiting : Rooted awaiting [[named "srv"]] := by
  intro root hroot
  obtain rfl := mem_singleton.1 hroot
  exact ⟨[named "srv"], by decide +kernel⟩

theorem pending_check_sound_at_a_plain_path :
    [[named "srv"]] ≠ ([] : List (List Segment)) ∧ Rooted awaiting [[named "srv"]]
      ∧ Guards awaiting [[named "srv"]] [named "srv", named "made"] := by
  refine ⟨by decide, rooted_awaiting, ?_⟩
  refine (pending_check_sound_iff (by decide) rooted_awaiting).2 fun hdangles => ?_
  obtain ⟨name, above, directory, absolute, target, touched, hname, hparent, habove, -, hlink, -⟩ :=
    hdangles.out
  have hat : fileName [named "srv", named "made"] = some (named "made")
      ∧ parent [named "srv", named "made"] = some [named "srv"]
      ∧ canonicalize awaiting [named "srv"] = some [named "srv"]
      ∧ awaiting [named "srv", named "made"] = none := by
    decide +kernel
  obtain rfl := some.inj (hat.1.symm.trans hname)
  obtain rfl := some.inj (hat.2.1.symm.trans hparent)
  obtain rfl := some.inj (hat.2.2.1.symm.trans habove)
  cases hlink.symm.trans hat.2.2.2

theorem link_to_nothing_is_made_outside :
    ¬ Guards awaiting [[named "srv"]] [named "srv", named "new"] := by
  intro hguards
  have haccepted : validateWithinAccessibleRoots awaiting [named "srv", named "new"]
      [[named "srv"]] = .ok [named "srv", named "new"] := by
    decide +kernel
  have hmade : opened awaiting [named "srv", named "new"]
      = some [named "home", named "new"] := by
    decide +kernel
  obtain ⟨root, hroot, canonical, hcanonical, hbelow⟩ := hguards.sound _ haccepted _ hmade
  obtain rfl := mem_singleton.1 hroot
  have hsrv : canonicalize awaiting [named "srv"] = some [named "srv"] := by
    decide +kernel
  obtain rfl := some.inj (hsrv.symm.trans hcanonical)
  revert hbelow
  decide +kernel

end FileManager.Server
