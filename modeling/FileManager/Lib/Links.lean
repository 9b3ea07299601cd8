/-
Paths in a tree with symbolic links.

A path is a list of steps: stay, go up, or go down to a name. A walk
takes the steps one after the other and turns aside at a link, to what
the link says; how many links it may take is bounded. What it arrives at
is a true path, the names from the root down.
-/
import Mathlib.Data.List.Basic

namespace Links

open List

variable {N : Type} {start found : List N} {name : N}

/-- One component of a path. -/
inductive Step (N : Type)
  | stay
  | up
  | down (name : N)

/-- What stands at a true path; a link holds a path of its own. -/
inductive Node (N : Type)
  | file
  | directory
  | link (absolute : Bool) (path : List (Step N))

def Node.isDirectory : Node N → Bool
  | .directory => true
  | _ => false

def Node.isLink : Node N → Bool
  | .link _ _ => true
  | _ => false

/-- The nodes of a tree, by their true paths. -/
abbrev Tree (N : Type) := List N → Option (Node N)

variable (tree : Tree N)

/-- There is a directory to take a step in. -/
def open_ (here : List N) : Bool := (tree here).any Node.isDirectory

-- ==== walks

/-- The steps up to the next link; `turn` goes on from there. -/
def walkTo (turn : List N → List (Step N) → Option (List N)) :
    List N → List (Step N) → Option (List N)
  | here, [] => some here
  | here, step :: rest =>
    if open_ tree here then
      match step with
      | .stay => walkTo turn here rest
      | .up => walkTo turn here.dropLast rest
      | .down name =>
        match tree (here ++ [name]) with
        | none => none
        | some (.link absolute path) => turn (if absolute then [] else here) (path ++ rest)
        | some _ => walkTo turn (here ++ [name]) rest
    else none

/-- A walk over at most so many links. -/
def walk : Nat → List N → List (Step N) → Option (List N)
  | 0 => walkTo tree fun _ _ => none
  | links + 1 => walkTo tree (walk links)

-- ==== opening

/-- The steps up to the next link, to what may have to be made: the last
name can be missing. -/
def openTo (turn : List N → List (Step N) → Option (List N)) :
    List N → List (Step N) → Option (List N)
  | here, [] => some here
  | here, step :: rest =>
    if open_ tree here then
      match step with
      | .stay => openTo turn here rest
      | .up => openTo turn here.dropLast rest
      | .down name =>
        match tree (here ++ [name]) with
        | none => if rest.isEmpty then some (here ++ [name]) else none
        | some (.link absolute path) => turn (if absolute then [] else here) (path ++ rest)
        | some _ => openTo turn (here ++ [name]) rest
    else none

/-- Where a path is opened or made, over at most so many links. -/
def opens : Nat → List N → List (Step N) → Option (List N)
  | 0 => openTo tree fun _ _ => none
  | links + 1 => openTo tree (opens links)

-- ==== reaching

/-- What is found below a true path by going down from directory to
directory, no link taken. -/
inductive Reaches (start : List N) : List N → Prop
  | here : Reaches start start
  | down {at_ : List N} {name : N} {node : Node N} (above : Reaches start at_)
      (hopen : open_ tree at_ = true) (hnode : tree (at_ ++ [name]) = some node)
      (hlink : node.isLink = false) : Reaches start (at_ ++ [name])

variable {tree}

theorem Reaches.starts (h : Reaches tree start found) : start <+: found := by
  induction h with
  | here => exact prefix_refl start
  | down _ _ _ _ ih => exact ih.trans (prefix_append _ _)

/-- One more step down, at the end of a walk, to what is no link. -/
theorem walkTo_down {turn : List N → List (Step N) → Option (List N)} {node : Node N}
    (hopen : open_ tree found = true)
    (hnode : tree (found ++ [name]) = some node) (hlink : node.isLink = false)
    (hturn : ∀ here path, turn here path = some found →
      turn here (path ++ [.down name]) = some (found ++ [name]))
    (here : List N) (path : List (Step N)) (h : walkTo tree turn here path = some found) :
    walkTo tree turn here (path ++ [.down name]) = some (found ++ [name]) := by
  induction path generalizing here with
  | nil =>
    obtain rfl : here = found := by simpa [walkTo] using h
    cases node with
    | link absolute path => cases hlink
    | _ => simp [walkTo, hopen, hnode]
  | cons step rest ih =>
    simp only [cons_append, walkTo] at h ⊢
    split at h
    case isFalse => cases h
    case isTrue hhere =>
      rw [if_pos hhere]
      cases step with
      | stay => exact ih here h
      | up => exact ih here.dropLast h
      | down other =>
        cases hother : tree (here ++ [other]) with
        | none => simp [hother] at h
        | some there =>
          cases there with
          | link absolute path =>
            simp only [hother] at h ⊢
            rw [← append_assoc]
            exact hturn _ _ h
          | _ =>
            simp only [hother] at h ⊢
            exact ih _ h

theorem walk_down {node : Node N} (hopen : open_ tree found = true)
    (hnode : tree (found ++ [name]) = some node) (hlink : node.isLink = false) (links : Nat)
    (here : List N) (path : List (Step N)) (h : walk tree links here path = some found) :
    walk tree links here (path ++ [.down name]) = some (found ++ [name]) := by
  induction links generalizing here path with
  | zero =>
    refine walkTo_down hopen hnode hlink ?_ here path h
    intro _ _ hnone
    cases hnone
  | succ links ih => exact walkTo_down hopen hnode hlink ih here path h

/-- What is reached from the end of a path is the end of the path with
the names on the way after it. -/
theorem Reaches.walk (hreach : Reaches tree start found) (links : Nat)
    (here : List N) (path : List (Step N)) (h : walk tree links here path = some start) :
    ∃ names : List N, found = start ++ names
      ∧ Links.walk tree links here (path ++ names.map Step.down) = some found := by
  induction hreach with
  | here => exact ⟨[], by simp, by simpa using h⟩
  | @down at_ name node _ hopen hnode hlink ih =>
    obtain ⟨names, rfl, hwalk⟩ := ih
    refine ⟨names ++ [name], by simp, ?_⟩
    have hlast := walk_down hopen hnode hlink links here _ hwalk
    rw [map_append, ← append_assoc]
    exact hlast

-- ==== opening after a walk

section Opening

variable {turn turn' : List N → List (Step N) → Option (List N)} {links : Nat}
  {here found made : List N} {steps rest : List (Step N)}

theorem openTo_append (hlevel : opens tree links = openTo tree turn')
    (hturn : ∀ here path, turn here path = some found →
      ∃ left ≤ links, ∀ rest, turn' here (path ++ rest) = opens tree left found rest)
    (h : walkTo tree turn here steps = some found) :
    ∃ left ≤ links, ∀ rest,
      openTo tree turn' here (steps ++ rest) = opens tree left found rest := by
  induction steps generalizing here with
  | nil =>
    obtain rfl : here = found := by simpa [walkTo] using h
    exact ⟨links, Nat.le_refl _, fun rest => by rw [hlevel]; rfl⟩
  | cons step steps ih =>
    simp only [cons_append, walkTo, openTo] at h ⊢
    split at h
    case isFalse => cases h
    case isTrue hopen =>
      simp only [if_pos hopen]
      cases step with
      | stay | up => exact ih h
      | down name =>
        cases hnode : tree (here ++ [name]) with
        | none => simp [hnode] at h
        | some node =>
          cases node with
          | link absolute path =>
            simp only [hnode] at h ⊢
            simp only [← append_assoc]
            exact hturn _ _ h
          | _ =>
            simp only [hnode] at h ⊢
            exact ih h

/-- Opening goes on where a walk over the first steps ends, with the
links that it left. -/
theorem opens_append (h : walk tree links here steps = some found) :
    ∃ left ≤ links, ∀ rest, opens tree links here (steps ++ rest) = opens tree left found rest := by
  induction links generalizing here steps with
  | zero => exact openTo_append rfl (fun _ _ hnone => by cases hnone) h
  | succ links ih =>
    refine openTo_append rfl (fun here path hpath => ?_) h
    obtain ⟨left, hleft, hrest⟩ := ih hpath
    exact ⟨left, Nat.le_succ_of_le hleft, hrest⟩

theorem openTo_mono (hturn : ∀ here path, turn here path = some made → turn' here path = some made)
    (h : openTo tree turn here steps = some made) : openTo tree turn' here steps = some made := by
  induction steps generalizing here with
  | nil => exact h
  | cons step steps ih =>
    simp only [openTo] at h ⊢
    split at h
    case isFalse => cases h
    case isTrue hopen =>
      rw [if_pos hopen]
      cases step with
      | stay | up => exact ih h
      | down name =>
        cases hnode : tree (here ++ [name]) with
        | none => simpa only [hnode] using h
        | some node =>
          cases node with
          | link absolute path =>
            simp only [hnode] at h ⊢
            exact hturn _ _ h
          | _ =>
            simp only [hnode] at h ⊢
            exact ih h

theorem opens_mono {more : Nat} (hmore : links ≤ more)
    (h : opens tree links here steps = some made) : opens tree more here steps = some made := by
  induction links generalizing here steps more with
  | zero =>
    cases more with
    | zero => exact h
    | succ more => exact openTo_mono (fun _ _ hnone => by cases hnone) h
  | succ links ih =>
    obtain ⟨more, rfl⟩ := Nat.exists_eq_add_of_lt hmore
    exact openTo_mono (fun _ _ hpath => ih (by omega) hpath) h

theorem openTo_init (hrest : rest ≠ [])
    (hturn : ∀ here path, turn' here (path ++ rest) = some made →
      ∃ found, turn here path = some found)
    (h : openTo tree turn' here (steps ++ rest) = some made) :
    ∃ found, walkTo tree turn here steps = some found := by
  induction steps generalizing here with
  | nil => exact ⟨here, rfl⟩
  | cons step steps ih =>
    simp only [cons_append, walkTo, openTo] at h ⊢
    split at h
    case isFalse => cases h
    case isTrue hopen =>
      simp only [if_pos hopen]
      cases step with
      | stay | up => exact ih h
      | down name =>
        cases hnode : tree (here ++ [name]) with
        | none => simp [hnode, hrest] at h
        | some node =>
          cases node with
          | link absolute path =>
            simp only [hnode, ← append_assoc] at h ⊢
            exact hturn _ _ h
          | _ =>
            simp only [hnode] at h ⊢
            exact ih h

/-- What comes before the last steps is there. -/
theorem opens_init (hrest : rest ≠ []) (h : opens tree links here (steps ++ rest) = some made) :
    ∃ found, walk tree links here steps = some found := by
  induction links generalizing here steps with
  | zero => exact openTo_init hrest (fun _ _ hnone => by cases hnone) h
  | succ links ih => exact openTo_init hrest (fun _ _ hpath => ih hpath) h

theorem walkTo_of_openTo (hthere : tree made ≠ none)
    (hturn : ∀ here path, turn' here path = some made → turn here path = some made)
    (h : openTo tree turn' here steps = some made) : walkTo tree turn here steps = some made := by
  induction steps generalizing here with
  | nil => exact h
  | cons step steps ih =>
    simp only [walkTo, openTo] at h ⊢
    split at h
    case isFalse => cases h
    case isTrue hopen =>
      rw [if_pos hopen]
      cases step with
      | stay | up => exact ih h
      | down name =>
        cases hnode : tree (here ++ [name]) with
        | none =>
          simp only [hnode] at h
          split at h
          · cases h
            exact absurd hnode hthere
          · cases h
        | some node =>
          cases node with
          | link absolute path =>
            simp only [hnode] at h ⊢
            exact hturn _ _ h
          | _ =>
            simp only [hnode] at h ⊢
            exact ih h

/-- What is opened and not made is walked to. -/
theorem walk_of_opens (hthere : tree made ≠ none)
    (h : opens tree links here steps = some made) : walk tree links here steps = some made := by
  induction links generalizing here steps with
  | zero => exact walkTo_of_openTo hthere (fun _ _ hnone => hnone) h
  | succ links ih => exact walkTo_of_openTo hthere (fun _ _ hpath => ih hpath) h

/-- Staying opens the directory. -/
theorem opens_stays {n : Nat}
    (h : opens tree links here (List.replicate n .stay ++ rest) = some made) :
    opens tree links here rest = some made ∧ (n ≠ 0 → tree here ≠ none) := by
  induction n with
  | zero => exact ⟨h, fun hne => absurd rfl hne⟩
  | succ n ih =>
    have hstay : open_ tree here = true
        ∧ opens tree links here (List.replicate n .stay ++ rest) = some made := by
      cases links <;> simpa [opens, openTo, replicate_succ] using h
    refine ⟨(ih hstay.2).1, fun _ hnone => ?_⟩
    rw [open_, hnone] at hstay
    cases hstay.1

end Opening

end Links
