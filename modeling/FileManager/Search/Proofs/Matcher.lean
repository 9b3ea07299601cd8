/-
What the wildcard matcher of the file name search decides.

The loop tests for a literal match before it tests for a star: so a star
of the pattern that meets one of the name is taken for that character,
and is no point to come back to.

A later star may take the place of an earlier one as that point: what can
be read from the earlier one on can then be read from here on as well
(`Reachable`), even where a star was read as a character on the way.
-/
import FileManager.Search.Engine
import Mathlib.Data.List.Infix

namespace FileManager.Search

open List

-- ==== what a pattern means

/-- A star stands for any run of characters, a question mark for any one;
in the narrow reading, a star that meets one of the name, for this one. -/
def Matches (narrow : Bool) : List Char → List Char → Prop
  | [], name => name = []
  | p :: pattern, name =>
    if p = '*' ∧ ¬ (narrow = true ∧ name.head? = some '*') then
      ∃ rest, rest <:+ name ∧ Matches narrow pattern rest
    else ∃ c rest, name = c :: rest ∧ (p = '?' ∨ p = c) ∧ Matches narrow pattern rest

variable {narrow : Bool} {c p : Char} {name pattern : List Char} {star : Option Star}

theorem matches_star : Matches narrow ('*' :: pattern) name
    ↔ if narrow = true ∧ name.head? = some '*' then Matches narrow pattern name.tail
      else ∃ rest, rest <:+ name ∧ Matches narrow pattern rest := by
  rw [Matches]
  by_cases hbound : narrow = true ∧ name.head? = some '*'
  · rw [if_neg (by simp [hbound]), if_pos hbound]
    obtain ⟨rest, rfl⟩ := head?_eq_some_iff.1 hbound.2
    constructor
    · rintro ⟨c, rest', heq, -, h⟩
      rw [heq]
      exact h
    · exact fun h => ⟨'*', rest, rfl, .inr rfl, h⟩
  · rw [if_pos ⟨rfl, hbound⟩, if_neg hbound]

theorem matches_char (hp : p ≠ '*') : Matches narrow (p :: pattern) name
    ↔ ∃ c rest, name = c :: rest ∧ (p = '?' ∨ p = c) ∧ Matches narrow pattern rest := by
  rw [Matches, if_neg fun h => hp h.1]

/-- The narrow reading is one of the readings. -/
theorem Matches.of_narrow (h : Matches true pattern name) : Matches false pattern name := by
  induction pattern generalizing name with
  | nil => exact h
  | cons p pattern ih =>
    by_cases hp : p = '*'
    · subst hp
      rw [matches_star, if_neg (by simp)]
      rw [matches_star] at h
      split at h
      case isTrue => exact ⟨_, tail_suffix name, ih h⟩
      case isFalse =>
        obtain ⟨rest, hrest, h⟩ := h
        exact ⟨rest, hrest, ih h⟩
    · rw [matches_char hp] at h ⊢
      obtain ⟨c, rest, hname, hc, h⟩ := h
      exact ⟨c, rest, hname, hc, ih h⟩

theorem matches_nil : Matches narrow pattern [] ↔ pattern.dropWhile (· = '*') = [] := by
  induction pattern with
  | nil => simp [Matches]
  | cons p pattern ih =>
    by_cases hp : p = '*'
    · subst hp
      rw [matches_star, if_neg (by simp), dropWhile_cons_of_pos (by simp), ← ih]
      simp
    · rw [matches_char hp, dropWhile_cons_of_neg (by simpa using hp)]
      simp

-- ==== the points to come back to

/-- The rest of a pattern can be read here, or further on. -/
def Ahead (pattern name : List Char) : Prop := ∃ rest, rest <:+ name ∧ Matches true pattern rest

theorem ahead_nil : Ahead pattern [] ↔ Matches true pattern [] := by
  simp [Ahead]

theorem ahead_iff : Ahead pattern name ↔ Matches true pattern name ∨ Ahead pattern name.tail := by
  constructor
  · rintro ⟨rest, hrest, h⟩
    cases name with
    | nil => exact .inl (suffix_nil.1 hrest ▸ h)
    | cons c name =>
      rcases suffix_cons_iff.1 hrest with rfl | hrest
      · exact .inl h
      · exact .inr ⟨rest, hrest, h⟩
  · rintro (h | ⟨rest, hrest, h⟩)
    · exact ⟨name, suffix_refl name, h⟩
    · exact ⟨rest, hrest.trans (tail_suffix name), h⟩

/-- Behind a star is ahead of it. -/
theorem Ahead.of_star (h : Ahead ('*' :: pattern) name) : Ahead pattern name := by
  obtain ⟨rest, hrest, h⟩ := h
  rw [matches_star] at h
  split at h
  case isTrue => exact ⟨_, (tail_suffix rest).trans hrest, h⟩
  case isFalse =>
    obtain ⟨more, hmore, h⟩ := h
    exact ⟨more, hmore.trans hrest, h⟩

theorem matches_cons (hc : p = '?' ∨ p = c) :
    Matches true (p :: pattern) (c :: name) ↔ Matches true pattern name := by
  by_cases hp : p = '*'
  · obtain rfl : p = c := hc.resolve_left (hp ▸ by decide)
    subst hp
    rw [matches_star, if_pos ⟨rfl, rfl⟩, tail_cons]
  · rw [matches_char hp]
    constructor
    · rintro ⟨_, _, heq, -, h⟩
      exact (cons.inj heq).2 ▸ h
    · exact fun h => ⟨c, name, rfl, hc, h⟩

theorem Ahead.of_cons (hc : p = '?' ∨ p = c) (h : Ahead (p :: pattern) (c :: name)) :
    Ahead pattern name := by
  rcases ahead_iff.1 h with h | ⟨rest, hrest, h⟩
  · exact ⟨name, suffix_refl name, (matches_cons hc).1 h⟩
  · by_cases hp : p = '*'
    · subst hp
      exact Ahead.of_star ⟨rest, hrest, h⟩
    · obtain ⟨_, more, rfl, -, h⟩ := (matches_char hp).1 h
      exact ⟨more, (suffix_cons _ more).trans hrest, h⟩

/-- What can be read from the point to come back to can be read here. -/
def Reachable (star : Option Star) (pattern name : List Char) : Prop :=
  ∀ last, star = some last → Ahead last.1 last.2.tail → Ahead pattern name

theorem reachable_some : Reachable (some (pattern, name)) pattern name := by
  intro last hlast h
  obtain rfl := Option.some.inj hlast
  exact ahead_iff.2 (.inr h)

theorem globLoop_iff (h : Reachable star pattern name) :
    globLoop name pattern star = true
      ↔ Matches true pattern name ∨ ∃ last, star = some last ∧ Ahead last.1 last.2.tail := by
  have hretry : ∀ {pattern matchFrom : List Char} {b : Bool},
      (b = true ↔ Matches true pattern matchFrom.tail
        ∨ ∃ last, some (pattern, matchFrom.tail) = some last ∧ Ahead last.1 last.2.tail) →
      (b = true ↔ Ahead pattern matchFrom.tail) := by
    intro pattern matchFrom b ih
    rw [ih, ahead_iff]
    simp
  fun_induction globLoop name pattern star with
  | case1 star pattern =>
    rw [List.isEmpty_iff, ← @matches_nil true]
    refine (or_iff_left_of_imp ?_).symm
    rintro ⟨last, hlast, hahead⟩
    exact ahead_nil.1 (h last hlast hahead)
  | case2 star c name p pattern hc ih =>
    rw [matches_cons hc]
    exact ih fun last hlast hahead => (h last hlast hahead).of_cons hc
  | case3 star c name pattern hc ih =>
    have hfree : ¬ (true = true ∧ (c :: name).head? = some '*') :=
      fun hbound => hc (.inr (Option.some.inj hbound.2).symm)
    rw [@hretry pattern (c :: c :: name) _ (ih reachable_some), matches_star, if_neg hfree]
    refine (or_iff_left_of_imp ?_).symm
    rintro ⟨last, hlast, hahead⟩
    exact (h last hlast hahead).of_star
  | case4 c name p pattern hc hp later matchFrom ih =>
    rw [hretry (ih reachable_some), matches_char hp]
    simp [hc]
  | case5 c name p pattern hc hp =>
    rw [matches_char hp]
    simp [hc]
  | case6 c name later matchFrom ih =>
    rw [hretry (ih reachable_some)]
    simp [Matches]
  | case7 c name => simp [Matches]

theorem globMatch_iff : globMatch name pattern = true ↔ Matches true pattern name := by
  unfold globMatch
  rw [globLoop_iff fun _ hlast => by cases hlast]
  simp

theorem Matches.narrow_of_plain (hname : '*' ∉ name) (h : Matches false pattern name) :
    Matches true pattern name := by
  induction pattern generalizing name with
  | nil => exact h
  | cons p pattern ih =>
    by_cases hp : p = '*'
    · subst hp
      have hfree : ¬ (true = true ∧ name.head? = some '*') :=
        fun hbound => hname (mem_of_head? hbound.2)
      rw [matches_star, if_neg (by simp)] at h
      rw [matches_star, if_neg hfree]
      obtain ⟨rest, hrest, h⟩ := h
      exact ⟨rest, hrest, ih (fun hstar => hname (hrest.mem hstar)) h⟩
    · rw [matches_char hp] at h ⊢
      obtain ⟨c, rest, rfl, hc, h⟩ := h
      exact ⟨c, rest, rfl, hc, ih (fun hstar => hname (mem_cons_of_mem c hstar)) h⟩

/-- The matcher decides the narrow reading. So it is exact where this
reading misses nothing, and always on a name without a star. -/
theorem glob_match_exact (name pattern : List Char) :
    (globMatch name pattern = true ↔ Matches true pattern name)
      ∧ ((globMatch name pattern = true ↔ Matches false pattern name)
        ↔ (Matches false pattern name → Matches true pattern name))
      ∧ ('*' ∉ name → (globMatch name pattern = true ↔ Matches false pattern name)) := by
  refine ⟨globMatch_iff, ?_, fun hname => ?_⟩
  · rw [globMatch_iff]
    exact ⟨fun h => h.2, fun h => ⟨Matches.of_narrow, h⟩⟩
  · rw [globMatch_iff]
    exact ⟨Matches.of_narrow, Matches.narrow_of_plain hname⟩

/-- The matcher decides what a pattern means exactly where this has a
narrow reading too. -/
theorem glob_match_usual_iff (name pattern : List Char) :
    (globMatch name pattern = true ↔ Matches false pattern name)
      ↔ (Matches false pattern name → Matches true pattern name) := by
  rw [globMatch_iff]
  exact ⟨Iff.mpr, fun h => ⟨Matches.of_narrow, h⟩⟩

/-- The star of the pattern is used up by that of the name. -/
theorem star_meets_star : ¬ (globMatch "*ab".toList "*b".toList = true
    ↔ Matches false "*b".toList "*ab".toList) := by
  have hmatches : Matches false "*b".toList "*ab".toList := by
    refine matches_star.2 ((if_neg nofun).mpr ⟨['b'], ⟨['*', 'a'], rfl⟩, ?_⟩)
    exact (matches_char (by decide)).2 ⟨'b', [], rfl, .inr rfl, rfl⟩
  intro h
  have hmatch := h.mpr hmatches
  simp [globMatch, globLoop] at hmatch

end FileManager.Search
