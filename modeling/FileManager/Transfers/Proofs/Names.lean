/-
Names that `join` accepts, and why the names `copy_name` makes of them
are accepted too: the suffix brings in no separator, and a reserved
device name ends before the first dot, where a suffixed name differs
from it or the name had been refused itself.
-/
import FileManager.Transfers.Files
import Mathlib.Data.List.TakeWhile

namespace FileManager

open List (mem_cons not_mem_nil append_assoc mem_append)
open List

-- ==== joining

variable {name : String} {parent l : Location} {front back : List Char} {c : Char}

theorem join_of_validateName (parent : Location)
    (h : validateName name = .ok ()) : ∃ l, parent.join name = .ok l := by
  unfold Location.join
  rw [h]
  exact ⟨_, rfl⟩

theorem validateName_of_join (h : parent.join name = .ok l) : validateName name = .ok () := by
  unfold Location.join at h
  split at h
  case h_1 => cases h
  case h_2 hname => exact hname

theorem join_eq (h : parent.join name = .ok l) :
    l = { parent with uri := { parent.uri with segments := parent.uri.segments ++ [name] } } := by
  unfold Location.join at h
  split at h
  case h_1 => cases h
  case h_2 => injection h with h; exact h.symm

theorem parent_of_join (h : parent.join name = .ok l) : l.parent = some parent := by
  rw [join_eq h]
  simp [Location.parent]

theorem name_of_join (h : parent.join name = .ok l) : l.name = .ok name := by
  rw [join_eq h]
  simp [Location.name]

theorem name_of_parent (h : l.parent = some parent) : ∃ name, l.name = .ok name := by
  unfold Location.parent at h
  unfold Location.name
  cases hlast : l.uri.segments.getLast? with
  | none =>
    rw [getLast?_eq_none_iff] at hlast
    rw [if_pos hlast] at h
    cases h
  | some name => exact ⟨name, rfl⟩

-- ==== device names

/-- What `reject_windows_device_name` trims from a name's end. -/
def isTrimmed (c : Char) : Bool := decide (c = ' ' ∨ c = '.')

/-- The part of a name that is compared with the reserved names. -/
def deviceStem (name : List Char) : List Char :=
  ((name.reverse.dropWhile isTrimmed).reverse.takeWhile (· ≠ '.')).map Char.toUpper

/-- The reserved names. -/
def IsDeviceStem (stem : List Char) : Prop :=
  stem ∈ [['C', 'O', 'N'], ['P', 'R', 'N'], ['A', 'U', 'X'], ['N', 'U', 'L'],
      ['C', 'L', 'O', 'C', 'K', '$']]
    ∨ ∃ d ∈ ['1', '2', '3', '4', '5', '6', '7', '8', '9'],
        stem = ['C', 'O', 'M', d] ∨ stem = ['L', 'P', 'T', d]

theorem isWindowsDeviceName_iff (name : String) :
    isWindowsDeviceName name = true ↔ IsDeviceStem (deviceStem name.toList) := by
  unfold isWindowsDeviceName IsDeviceStem deviceStem isTrimmed
  simp only [Bool.or_eq_true, decide_eq_true_eq, any_eq_true, contains_iff_mem]

theorem IsDeviceStem.last {stem : List Char} (h : IsDeviceStem stem) :
    ∃ c, stem.getLast? = some c ∧ c ≠ ')' ∧ isTrimmed c = false := by
  rcases h with h | ⟨d, hd, h⟩
  · simp only [mem_cons, not_mem_nil, or_false] at h
    rcases h with rfl | rfl | rfl | rfl | rfl <;> exact ⟨_, rfl, by decide, by decide⟩
  · have hlast : stem.getLast? = some d := by rcases h with rfl | rfl <;> rfl
    refine ⟨d, hlast, ?_⟩
    simp only [mem_cons, not_mem_nil, or_false] at hd
    rcases hd with rfl | rfl | rfl | rfl | rfl | rfl | rfl | rfl | rfl <;>
      exact ⟨by decide, by decide⟩

theorem trim_append (front back : List Char) (hc : isTrimmed c = false) :
    ∃ rest, rest <+: back ∧ ((front ++ [c] ++ back).reverse.dropWhile isTrimmed).reverse
        = front ++ [c] ++ rest := by
  have hsuffix := dropWhile_suffix isTrimmed (l := back.reverse)
  refine ⟨(back.reverse.dropWhile isTrimmed).reverse, ?_, ?_⟩
  · rw [← reverse_suffix, reverse_reverse]
    exact hsuffix
  · rw [reverse_append, dropWhile_append]
    split
    case isTrue hempty =>
      rw [List.isEmpty_iff] at hempty
      rw [hempty, reverse_append]
      simp [hc]
    case isFalse => simp

theorem takeWhile_append_dot {rest : List Char} (hfront : '.' ∉ front)
    (hrest : rest <+: '.' :: back) : (front ++ rest).takeWhile (· ≠ '.') = front := by
  have hall : front.takeWhile (· ≠ '.') = front := by
    rw [takeWhile_eq_self_iff]
    intro c hc
    simp only [decide_eq_true_eq]
    exact fun heq => hfront (heq ▸ hc)
  rw [takeWhile_append, hall, if_pos rfl]
  cases rest with
  | nil => simp
  | cons c rest =>
    obtain ⟨after, heq⟩ := hrest
    cases heq
    simp

theorem not_isDeviceStem_bracket (hfront : '.' ∉ front)
    (hback : back = [] ∨ ∃ rest, back = '.' :: rest) :
    ¬ IsDeviceStem (deviceStem (front ++ [')'] ++ back)) := by
  intro h
  obtain ⟨rest, hbegins, htrim⟩ := trim_append front back (show isTrimmed ')' = false by decide)
  obtain ⟨tail, htail⟩ : ∃ tail, rest <+: '.' :: tail := by
    rcases hback with rfl | ⟨tail, rfl⟩
    · exact ⟨[], by rw [prefix_nil.mp hbegins]; exact nil_prefix⟩
    · exact ⟨tail, hbegins⟩
  have hstem : deviceStem (front ++ [')'] ++ back) = (front ++ [')']).map Char.toUpper := by
    unfold deviceStem
    rw [htrim, takeWhile_append_dot (by simp [hfront]) htail]
  rw [hstem] at h
  obtain ⟨c, hlast, hne, -⟩ := h.last
  rw [map_append, getLast?_append] at hlast
  simp at hlast
  exact hne (hlast ▸ by decide)

theorem isDeviceStem_of_dot {back' : List Char} (hfront : '.' ∉ front)
    (h : IsDeviceStem (deviceStem (front ++ '.' :: back ++ [')'] ++ back'))) (rest : List Char) :
    IsDeviceStem (deviceStem (front ++ '.' :: rest)) := by
  obtain ⟨tail, -, htrim⟩ := trim_append (front ++ '.' :: back) back'
    (show isTrimmed ')' = false by decide)
  have hstem : deviceStem (front ++ '.' :: back ++ [')'] ++ back') = front.map Char.toUpper := by
    unfold deviceStem
    rw [htrim, append_assoc, append_assoc, cons_append,
      takeWhile_append_dot hfront (prefix_refl _)]
  rw [hstem] at h
  -- it ends in a character that is not trimmed
  obtain ⟨c, hlast, -, hc⟩ := h.last
  obtain ⟨init, last, rfl⟩ : ∃ init last, front = init ++ [last] := by
    rcases eq_nil_or_concat front with rfl | ⟨init, last, rfl⟩
    · simp at hlast
    · exact ⟨init, last, by simp⟩
  have hkept : isTrimmed last = false := by
    simp only [map_append, map_cons, map_nil, getLast?_append,
      getLast?_singleton, Option.some_or, Option.some.injEq] at hlast
    by_contra htrimmed
    have hsame : last.toUpper = last := by
      unfold isTrimmed at htrimmed
      simp only [Bool.not_eq_false, decide_eq_true_eq] at htrimmed
      rcases htrimmed with rfl | rfl <;> decide
    rw [hsame] at hlast
    rw [hlast, hc] at htrimmed
    exact htrimmed rfl
  obtain ⟨tail', hbegins, htrim'⟩ := trim_append init ('.' :: rest) hkept
  unfold deviceStem
  rw [htrim', takeWhile_append_dot hfront hbegins]
  exact h

-- ==== copy names

/-- The suffix of a copy's name. -/
def copyMark (suffix : Nat) : List Char :=
  [' ', '(', 'c', 'o', 'p', 'y', ' '] ++ Nat.toDigits 10 suffix

theorem dot_notMem_copyMark (suffix : Nat) : '.' ∉ copyMark suffix := by
  intro h
  rcases mem_append.mp h with h | h
  · revert h
    decide
  · have := Nat.isDigit_of_mem_toDigits (by decide) (by decide) h
    revert this
    decide

theorem mem_copyMark {suffix : Nat} (h : c ∈ copyMark suffix) :
    c ≠ '/' ∧ c ≠ '\\' ∧ c ≠ Char.ofNat 0 := by
  rcases mem_append.mp h with h | h
  · simp only [mem_cons, not_mem_nil, or_false] at h
    rcases h with rfl | rfl | rfl | rfl | rfl | rfl | rfl <;> decide
  · have hdigit := Nat.isDigit_of_mem_toDigits (by decide) (by decide) h
    refine ⟨?_, ?_, ?_⟩ <;> intro heq <;> rw [heq] at hdigit <;> revert hdigit <;> decide

theorem toList_copyName (name : String) (suffix : Nat) :
    ((copyName name suffix).toList = name.toList ++ copyMark suffix ++ [')']
      ∧ ('.' ∉ name.toList ∨ ∃ rest, name.toList = '.' :: rest))
    ∨ ∃ stem extension, stem ≠ [] ∧ name.toList = stem ++ '.' :: extension
        ∧ (copyName name suffix).toList = stem ++ copyMark suffix ++ [')'] ++ '.' :: extension := by
  have hmark : (" (copy " ++ toString suffix ++ ")").toList = copyMark suffix ++ [')'] := by
    rw [String.toList_append, String.toList_append, Nat.toString_eq_repr, Nat.toList_repr]
    rfl
  -- the extension is what follows the last dot
  have hsplit := takeWhile_append_dropWhile (p := (· ≠ '.')) (l := name.toList.reverse)
  generalize hext : (name.toList.reverse.takeWhile (· ≠ '.')) = ext at hsplit
  generalize hrest : (name.toList.reverse.dropWhile (· ≠ '.')) = rest at hsplit
  have hname : name.toList = rest.reverse ++ ext.reverse := by
    rw [← reverse_append, hsplit, reverse_reverse]
  have hdot : '.' ∉ ext := by
    rw [← hext]
    intro hmem
    have := mem_takeWhile_imp hmem
    simp at this
  have hlength : name.length = rest.length + ext.length := by
    rw [← String.length_toList, hname]
    simp
  unfold copyName
  simp only [hext, hlength, length_reverse]
  cases rest with
  | nil =>
    refine .inl ⟨?_, .inl ?_⟩
    · rw [show [].length + ext.length - ext.length - 1 = 0 by simp, take_zero,
        if_pos rfl, String.toList_append, hmark, append_assoc]
    · rw [hname]
      simpa using hdot
  | cons c more =>
    -- what is dropped begins with the last dot
    have hc : c = '.' := by
      have hhead := head?_dropWhile_not (· ≠ '.') name.toList.reverse
      rw [hrest] at hhead
      simpa using hhead
    subst hc
    have hname' : name.toList = more.reverse ++ '.' :: ext.reverse := by
      rw [hname]
      simp
    have hstem : name.toList.take (('.' :: more).length + ext.length - ext.length - 1)
        = more.reverse := by
      rw [hname', show ('.' :: more).length + ext.length - ext.length - 1
        = more.reverse.length by simp, take_left]
    rw [hstem]
    by_cases hmore : more.reverse = []
    · refine .inl ⟨?_, .inr ⟨ext.reverse, ?_⟩⟩
      · rw [if_pos hmore, String.toList_append, hmark, append_assoc]
      · rw [hname', hmore]
        rfl
    · refine .inr ⟨more.reverse, ext.reverse, hmore, hname', ?_⟩
      rw [if_neg hmore]
      simp only [String.toList_append, String.toList_ofList, hmark]
      simp

theorem validateName_iff (name : String) :
    validateName name = .ok () ↔ name ≠ "" ∧ name ≠ "." ∧ name ≠ ".."
      ∧ '/' ∉ name.toList ∧ '\\' ∉ name.toList ∧ Char.ofNat 0 ∉ name.toList
      ∧ ¬ IsDeviceStem (deviceStem name.toList) := by
  rw [← isWindowsDeviceName_iff]
  unfold validateName
  by_cases hempty : name = ""
  · simp [hempty]
  by_cases hdots : name = "." ∨ name = ".." ∨ '/' ∈ name.toList ∨ '\\' ∈ name.toList
  · rw [if_neg hempty, if_pos hdots]
    constructor
    · intro h
      cases h
    · intro hboth
      obtain ⟨-, h₁, h₂, h₃, h₄, -⟩ := hboth
      rcases hdots with h | h | h | h
      · exact absurd h h₁
      · exact absurd h h₂
      · exact absurd h h₃
      · exact absurd h h₄
  rw [if_neg hempty, if_neg hdots]
  simp only [not_or] at hdots
  obtain ⟨h₁, h₂, h₃, h₄⟩ := hdots
  by_cases hnull : Char.ofNat 0 ∈ name.toList
  · rw [if_pos hnull]
    simp [hnull]
  rw [if_neg hnull]
  by_cases hdevice : isWindowsDeviceName name = true
  · simp [hdevice]
  · simp [hdevice, hempty, h₁, h₂, h₃, h₄, hnull]

theorem validateName_copyName (suffix : Nat)
    (h : validateName name = .ok ()) : validateName (copyName name suffix) = .ok () := by
  rw [validateName_iff] at h ⊢
  obtain ⟨-, -, -, hslash, hback, hnull, hdevice⟩ := h
  have hmem : ∀ c ∈ (copyName name suffix).toList,
      c ∈ name.toList ∨ c ∈ copyMark suffix ∨ c = ')' ∨ c = '.' := by
    intro c hc
    rcases toList_copyName name suffix with ⟨heq, -⟩ | ⟨stem, ext, -, hname, heq⟩
    · rw [heq] at hc
      simp only [mem_append, mem_singleton] at hc
      rcases hc with (hc | hc) | hc
      · exact .inl hc
      · exact .inr (.inl hc)
      · exact .inr (.inr (.inl hc))
    · rw [heq] at hc
      rw [hname]
      simp only [mem_append, mem_cons, not_mem_nil, or_false] at hc ⊢
      rcases hc with ((hc | hc) | hc) | hc | hc
      · exact .inl (.inl hc)
      · exact .inr (.inl hc)
      · exact .inr (.inr (.inl hc))
      · exact .inr (.inr (.inr hc))
      · exact .inl (.inr (.inr hc))
  have hbracket : ')' ∈ (copyName name suffix).toList := by
    rcases toList_copyName name suffix with ⟨heq, -⟩ | ⟨stem, ext, -, -, heq⟩ <;>
      · rw [heq]
        simp
  have hne : ∀ other : String, ')' ∉ other.toList → copyName name suffix ≠ other := by
    intro other hother heq
    exact hother (heq ▸ hbracket)
  refine ⟨hne _ (by decide), hne _ (by decide), hne _ (by decide), ?_, ?_, ?_, ?_⟩
  · intro hc
    rcases hmem _ hc with hc | hc | hc | hc
    · exact hslash hc
    · exact (mem_copyMark hc).1 rfl
    · exact absurd hc (by decide)
    · exact absurd hc (by decide)
  · intro hc
    rcases hmem _ hc with hc | hc | hc | hc
    · exact hback hc
    · exact (mem_copyMark hc).2.1 rfl
    · exact absurd hc (by decide)
    · exact absurd hc (by decide)
  · intro hc
    rcases hmem _ hc with hc | hc | hc | hc
    · exact hnull hc
    · exact (mem_copyMark hc).2.2 rfl
    · exact absurd hc (by decide)
    · exact absurd hc (by decide)
  · rcases toList_copyName name suffix with ⟨heq, hplain⟩ | ⟨stem, ext, hstem, hname, heq⟩
    · rw [heq]
      rcases hplain with hdot | ⟨rest, hname⟩
      · have hfront : '.' ∉ name.toList ++ copyMark suffix := by simp [hdot, dot_notMem_copyMark]
        simpa using not_isDeviceStem_bracket hfront (.inl rfl)
      · intro h
        rw [hname, show ('.' :: rest ++ copyMark suffix) ++ [')']
          = [] ++ '.' :: (rest ++ copyMark suffix) ++ [')'] ++ [] by simp] at h
        rw [hname] at hdevice
        exact hdevice (isDeviceStem_of_dot (by simp) h rest)
    · rw [heq]
      by_cases hdot : '.' ∈ stem
      · obtain ⟨front, more, hmore, hfront⟩ := eq_append_cons_of_mem hdot
        intro h
        rw [hmore, show front ++ '.' :: more ++ copyMark suffix ++ [')'] ++ '.' :: ext
          = front ++ '.' :: (more ++ copyMark suffix) ++ [')'] ++ '.' :: ext by simp] at h
        rw [hname, hmore, append_assoc, cons_append] at hdevice
        exact hdevice (isDeviceStem_of_dot hfront h _)
      · have hfront : '.' ∉ stem ++ copyMark suffix := by simp [hdot, dot_notMem_copyMark]
        have := not_isDeviceStem_bracket hfront (.inr ⟨ext, rfl⟩)
        simpa using this

end FileManager
