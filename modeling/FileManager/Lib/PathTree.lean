/-
A tree that is given by the paths of its items. A directory is an item
of its own, or only what the paths of other items pass through, so a
listing of a directory is what the items show of themselves there.

# Clashes

Two items may show one name as a file and as a directory. Whether they
do in some directory depends on their paths alone: one of them is a file
that the other is a directory at, or that it is below of
(`agree_iff_no_clash`).

# Tables

The first item to show a name settles what is listed under it; a later
one of another kind stops the pass.

# Written paths

What begins with a directory and the separator is what has the names of
the directory first (`append_leading_iff`).
-/
import FileManager.Lib.Fallible
import FileManager.Lib.Keyed
import Mathlib.Data.List.Count

namespace PathTree

open List Option

universe u v w

variable {ν : Type u}

-- ==== items

structure Item (ν : Type u) where
  path : List ν
  isDirectory : Bool

/-- In the directory `dir` the item shows `name`, as a directory if it
goes on below it. -/
def Shows (dir : List ν) (item : Item ν) (name : ν) (isDirectory : Bool) : Prop :=
  ∃ rest, item.path = dir ++ name :: rest ∧ isDirectory = (!rest.isEmpty || item.isDirectory)

section Clashes

variable (named : ν → Prop) {items : List (Item ν)} {file other : Item ν}

/-- No directory shows a name as two kinds. -/
def Agree (items : List (Item ν)) : Prop :=
  ∀ dir, (∀ n ∈ dir, named n) → ∀ name, named name →
    ∀ item ∈ items, ∀ other ∈ items, ∀ kind kind',
      Shows dir item name kind → Shows dir other name kind' → kind = kind'

/-- The first item is a file where the other is, or passes through, a
directory. -/
structure Clash (file other : Item ν) : Prop where
  isFile : file.isDirectory = false
  nonempty : file.path ≠ []
  named : ∀ n ∈ file.path, named n
  within : (other.path = file.path ∧ other.isDirectory = true)
    ∨ ∃ name rest, other.path = file.path ++ name :: rest

variable {named}

/-- Of two kinds under one name, one is a file and clashes. -/
theorem clash_of_shows {dir : List ν} {name : ν}
    (hdir : ∀ n ∈ dir, named n) (hname : named name) (hfile : Shows dir file name false)
    (hother : Shows dir other name true) : Clash named file other := by
  obtain ⟨rest, hpath, hkind⟩ := hfile
  obtain ⟨rest', hpath', hkind'⟩ := hother
  have hfile := Bool.or_eq_false_iff.mp hkind.symm
  have hrest : rest = [] := by simpa using hfile.1
  subst hrest
  refine ⟨hfile.2, by rw [hpath]; simp, fun n hn => ?_, ?_⟩
  · rw [hpath, mem_append, mem_singleton] at hn
    rcases hn with hn | rfl
    · exact hdir n hn
    · exact hname
  · cases rest' with
    | nil => exact .inl ⟨hpath'.trans hpath.symm, by simpa using hkind'.symm⟩
    | cons next below =>
      refine .inr ⟨next, below, ?_⟩
      rw [hpath', hpath, append_assoc]
      rfl

/-- A clash shows in the directory of its file. -/
theorem Clash.shows (h : Clash named file other) :
    ∃ dir name, (∀ n ∈ dir, named n) ∧ named name
      ∧ Shows dir file name false ∧ Shows dir other name true := by
  obtain ⟨dir, name, hpath⟩ : ∃ dir name, file.path = dir ++ [name] :=
    ⟨_, _, (dropLast_append_getLast h.nonempty).symm⟩
  have hnamed := h.named
  rw [hpath] at hnamed
  refine ⟨dir, name, fun n hn => hnamed n (mem_append_left _ hn),
    hnamed name (mem_append_right _ (mem_singleton_self _)),
    ⟨[], hpath, by rw [h.isFile]; rfl⟩, ?_⟩
  rcases h.within with ⟨hother, hdirectory⟩ | ⟨next, rest, hother⟩
  · exact ⟨[], hother.trans hpath, by rw [hdirectory]; rfl⟩
  · refine ⟨next :: rest, ?_, rfl⟩
    rw [hother, hpath, append_assoc]
    rfl

theorem agree_iff_no_clash :
    Agree named items ↔ ∀ file ∈ items, ∀ other ∈ items, ¬ Clash named file other := by
  constructor
  · intro h file hfile other hother hclash
    obtain ⟨dir, name, hdir, hname, hshows, hshows'⟩ := hclash.shows
    cases h dir hdir name hname file hfile other hother _ _ hshows hshows'
  · intro h dir hdir name hname item hitem other hother kind kind' hshows hshows'
    cases kind with
    | true =>
      cases kind' with
      | true => rfl
      | false => exact (h other hother item hitem (clash_of_shows hdir hname hshows' hshows)).elim
    | false =>
      cases kind' with
      | true => exact (h item hitem other hother (clash_of_shows hdir hname hshows hshows')).elim
      | false => rfl

/-- No item clashes with itself. -/
theorem not_clash_self (item : Item ν) : ¬ Clash named item item := by
  intro h
  rcases h.within with ⟨-, hdirectory⟩ | ⟨name, rest, hpath⟩
  · simp [h.isFile] at hdirectory
  · simp at hpath

end Clashes

-- ==== tables

section Tables

variable {ε : Type u} {κ : Type u} [DecidableEq κ] {α : Type u} {δ : Type w} [DecidableEq δ]
  (kind : α → δ) (conflict : ε) {table table' pairs : List (κ × α)} {pair : κ × α}

/-- Enter a value under a key; what is there already stays if it is of
the same kind. -/
def enter (table : List (κ × α)) (pair : κ × α) : Except ε (List (κ × α)) :=
  match Keyed.get table pair.1 with
  | some existing => if kind existing = kind pair.2 then .ok table else .error conflict
  | none => .ok (Keyed.put table pair.1 pair.2)

variable {kind conflict}

theorem enter_ok (h : enter kind conflict table pair = .ok table') (k : κ) :
    Keyed.get table' k = (Keyed.get table k).or (if pair.1 = k then some pair.2 else none) := by
  unfold enter at h
  split at h
  case h_1 existing hget =>
    split at h
    case isTrue =>
      cases h
      by_cases hk : pair.1 = k
      · rw [← hk, hget]
        rfl
      · rw [if_neg hk, or_none]
    case isFalse => cases h
  case h_2 hget =>
    cases h
    rw [Keyed.get_put]
    by_cases hk : pair.1 = k
    · rw [if_pos hk.symm, if_pos hk, ← hk, hget]
      rfl
    · rw [if_neg (Ne.symm hk), if_neg hk, or_none]

theorem get_cons (pair : κ × α) (rest : List (κ × α)) (k : κ) :
    Keyed.get (pair :: rest) k = (if pair.1 = k then some pair.2 else none).or
      (Keyed.get rest k) := by
  unfold Keyed.get
  by_cases hk : pair.1 = k
  · rw [if_pos hk, List.find?_cons_of_pos (by simpa using hk)]
    rfl
  · rw [if_neg hk, List.find?_cons_of_neg (by simpa using hk), none_or]

/-- Entering a pair leaves what is first under each key. -/
theorem first_enter {rest : List (κ × α)} (h : enter kind conflict table pair = .ok table')
    (k : κ) :
    (Keyed.get table' k).or (Keyed.get rest k)
      = (Keyed.get table k).or (Keyed.get (pair :: rest) k) := by
  rw [enter_ok h, get_cons, Option.or_assoc]

theorem enter_ok_iff :
    (∃ table', enter kind conflict table pair = .ok table')
      ↔ ∀ first, Keyed.get table pair.1 = some first → kind first = kind pair.2 := by
  unfold enter
  cases hget : Keyed.get table pair.1 with
  | none => exact ⟨fun _ => nofun, fun _ => ⟨_, rfl⟩⟩
  | some existing =>
    dsimp only
    by_cases hkind : kind existing = kind pair.2
    · rw [if_pos hkind]
      refine ⟨fun _ first hfirst => ?_, fun _ => ⟨_, rfl⟩⟩
      cases hfirst
      exact hkind
    · rw [if_neg hkind]
      refine ⟨fun ⟨_, h⟩ => ?_, fun h => absurd (h existing rfl) hkind⟩
      cases h

theorem foldlM_ok_iff_first :
    (∃ table', pairs.foldlM (enter kind conflict) table = .ok table') ↔ ∀ pair ∈ pairs, ∀ first,
          (Keyed.get table pair.1).or (Keyed.get pairs pair.1) = some first →
          kind first = kind pair.2 := by
  induction pairs generalizing table with
  | nil => exact ⟨fun _ => nofun, fun _ => ⟨table, rfl⟩⟩
  | cons pair rest ih =>
    rw [foldlM_cons]
    constructor
    · intro h
      obtain ⟨table', h⟩ := h
      obtain ⟨next, hnext, h⟩ := Fallible.bind_eq_ok.mp h
      intro other hother first hfirst
      rcases mem_cons.mp hother with rfl | hother
      · rw [get_cons, if_pos rfl] at hfirst
        cases hget : Keyed.get table other.1 with
        | none =>
          rw [hget] at hfirst
          cases hfirst
          rfl
        | some existing =>
          rw [hget] at hfirst
          cases hfirst
          exact enter_ok_iff.mp ⟨next, hnext⟩ _ hget
      · rw [← first_enter hnext] at hfirst
        exact ih.mp ⟨table', h⟩ other hother first hfirst
    · intro h
      have hentered : ∃ next, enter kind conflict table pair = .ok next := by
        refine enter_ok_iff.mpr fun first hfirst => h pair mem_cons_self first ?_
        rw [hfirst]
        rfl
      obtain ⟨next, hnext⟩ := hentered
      obtain ⟨table', h⟩ := ih.mpr fun other hother first hfirst =>
        h other (mem_cons_of_mem _ hother) first (by rw [← first_enter hnext, hfirst])
      exact ⟨table', by rw [hnext]; exact h⟩

theorem foldlM_ok_iff :
    (∃ table', pairs.foldlM (enter kind conflict) [] = .ok table')
      ↔ ∀ pair ∈ pairs, ∀ other ∈ pairs, pair.1 = other.1 → kind pair.2 = kind other.2 := by
  rw [foldlM_ok_iff_first]
  have hnone : ∀ k, (Keyed.get ([] : List (κ × α)) k).or (Keyed.get pairs k)
      = Keyed.get pairs k := fun k => none_or
  constructor
  · intro h pair hpair other hother hkey
    obtain ⟨first, hfirst⟩ := ne_none_iff_exists'.mp
      (Keyed.mem_keys_iff.mp (mem_map_of_mem hpair))
    refine (h pair hpair first (by rw [hnone, hfirst])).symm.trans ?_
    exact h other hother first (by rw [hnone, ← hkey, hfirst])
  · intro h pair hpair first hfirst
    rw [hnone] at hfirst
    obtain ⟨found, hfound, rfl⟩ := map_eq_some_iff.mp hfirst
    exact h found (mem_of_find?_eq_some hfound) pair hpair (by simpa using List.find?_some hfound)

end Tables

-- ==== written paths

section Written

variable {α : Type u} {sep : α} {dir : List (List α)} {text name : List α}

/-- The names of a directory, each followed by the separator. -/
def leading (sep : α) (dir : List (List α)) : List α := dir.flatMap (· ++ [sep])

theorem leading_cons (sep : α) (name : List α) (dir : List (List α)) :
    leading sep (name :: dir) = name ++ sep :: leading sep dir := by
  unfold leading
  rw [flatMap_cons, append_assoc]
  rfl

/-- Between names the separator stands once, and at the end of a
directory once more. -/
theorem leading_eq (hdir : dir ≠ []) : leading sep dir = [sep].intercalate dir ++ [sep] := by
  induction dir with
  | nil => exact absurd rfl hdir
  | cons name rest ih =>
    cases rest with
    | nil => simp [leading, List.intercalate]
    | cons next below =>
      rw [leading_cons, ih (cons_ne_nil _ _), intercalate_cons_cons]
      simp

variable [DecidableEq α]

theorem splitOn_leading (hdir : ∀ name ∈ dir, sep ∉ name) (below : List α) :
    (leading sep dir ++ below).splitOn sep = dir ++ below.splitOn sep := by
  induction dir with
  | nil => rfl
  | cons name rest ih =>
    rw [leading_cons, append_assoc, cons_append]
    rw [splitOn_append_cons_self_of_not_mem (hdir name mem_cons_self),
      ih fun other hother => hdir other (mem_cons_of_mem _ hother)]
    rfl

/-- The names of a text are without the separator. -/
theorem not_mem_of_mem_splitOn (h : name ∈ text.splitOn sep) : sep ∉ name := by
  induction text generalizing name with
  | nil =>
    rw [splitOn_nil, mem_singleton] at h
    rw [h]
    exact not_mem_nil
  | cons c rest ih =>
    rw [splitOn_cons_eq_if_modifyHead] at h
    split at h
    case isTrue =>
      rcases mem_cons.mp h with rfl | h
      · exact not_mem_nil
      · exact ih h
    case isFalse hc =>
      obtain ⟨first, others, hsplit⟩ := exists_cons_of_ne_nil (splitOn_ne_nil sep rest)
      rw [hsplit, modifyHead_cons] at h
      rw [hsplit] at ih
      rcases mem_cons.mp h with rfl | h
      · rw [mem_cons, not_or]
        refine ⟨fun heq => hc ?_, ih mem_cons_self⟩
        rw [heq, beq_self_eq_true]
      · exact ih (mem_cons_of_mem _ h)

/-- What stands below a directory are the names after its own. -/
theorem append_leading_iff (hdir : ∀ name ∈ dir, sep ∉ name) {below : List α} :
    leading sep dir ++ below = text ↔ text.splitOn sep = dir ++ below.splitOn sep := by
  constructor
  · intro h
    rw [← h]
    exact splitOn_leading hdir below
  · intro h
    rw [← splitOn_leading hdir below] at h
    have hjoined := congrArg [sep].intercalate h
    rw [intercalate_splitOn, intercalate_splitOn] at hjoined
    exact hjoined.symm

/-- The names after those of a directory are written below it. -/
theorem exists_below {rest : List (List α)} (h : text.splitOn sep = dir ++ name :: rest) :
    ∃ below, leading sep dir ++ below = text ∧ below.splitOn sep = name :: rest := by
  have hnames : ∀ other ∈ dir ++ name :: rest, sep ∉ other := by
    intro other hother
    rw [← h] at hother
    exact not_mem_of_mem_splitOn hother
  have hbelow : ([sep].intercalate (name :: rest)).splitOn sep = name :: rest :=
    splitOn_intercalate sep (fun other hother => hnames other (mem_append_right _ hother))
      (cons_ne_nil _ _)
  refine ⟨[sep].intercalate (name :: rest), ?_, hbelow⟩
  rw [append_leading_iff fun other hother => hnames other (mem_append_left _ hother), h, hbelow]

end Written

end PathTree
