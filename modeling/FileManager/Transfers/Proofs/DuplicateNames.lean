/-
The names of duplicates (`duplicate_name`): what comes before the first
dot that is not the first character, a mark that says the how-manieth
duplicate it is, and the rest. The mark ends in a letter for the first
duplicate and in a digit for the others, and the part before it can be
told from it, so a name says which duplicate of which name it is. A name
that may not be joined for one duplicate may not be for any.
-/
import FileManager.Transfers.Groups
import FileManager.Transfers.Proofs.Names

namespace FileManager.Transfers

open List Nat
open Char (isDigit ofNat)
open Nat (toDigits)

variable {stem : List Char} {i j : Nat}

-- ==== parts

/-- What `duplicate_name` puts the suffix behind. -/
def stemOf (name : List Char) : List Char := name.take 1 ++ (name.drop 1).takeWhile (· ≠ '.')

/-- What it leaves behind the suffix. -/
def extensionOf (name : List Char) : List Char := (name.drop 1).dropWhile (· ≠ '.')

/-- The suffix. -/
def duplicateMark (index : Nat) : List Char :=
  if index ≤ 1 then [' ', 'c', 'o', 'p', 'y']
  else [' ', 'c', 'o', 'p', 'y', ' '] ++ toDigits 10 index

theorem stemOf_append_extensionOf (name : List Char) : stemOf name ++ extensionOf name = name := by
  unfold stemOf extensionOf
  rw [append_assoc, takeWhile_append_dropWhile, take_append_drop]

theorem toList_duplicateName (name : String) (index : Nat) :
    (duplicateName name index).toList
      = stemOf name.toList ++ duplicateMark index ++ extensionOf name.toList := by
  have hdrop : name.toList.drop (stemOf name.toList).length = extensionOf name.toList := by
    have := congrArg (List.drop (stemOf name.toList).length) (stemOf_append_extensionOf name.toList)
    rw [drop_left] at this
    exact this.symm
  have hmark : (if index ≤ 1 then " copy" else " copy " ++ toString index).toList
      = duplicateMark index := by
    unfold duplicateMark
    by_cases hfirst : index ≤ 1
    · rw [if_pos hfirst, if_pos hfirst]
      rfl
    · rw [if_neg hfirst, if_neg hfirst, String.toList_append, toString_eq_repr, toList_repr]
      rfl
  unfold duplicateName
  show (String.ofList (stemOf name.toList) ++ _
    ++ String.ofList (name.toList.drop (stemOf name.toList).length)).toList = _
  rw [hdrop, String.toList_append, String.toList_append, String.toList_ofList,
    String.toList_ofList, hmark]

theorem dot_notMem_duplicateMark (index : Nat) : '.' ∉ duplicateMark index := by
  unfold duplicateMark
  split
  case isTrue => decide
  case isFalse =>
    intro h
    rcases mem_append.mp h with h | h
    · revert h
      decide
    · have := isDigit_of_mem_toDigits (by decide) (by decide) h
      revert this
      decide

theorem duplicateMark_eq_cons (index : Nat) : ∃ rest, duplicateMark index = ' ' :: 'c' :: rest := by
  unfold duplicateMark
  split <;> exact ⟨_, rfl⟩

theorem duplicateMark_eq_concat (index : Nat) :
    ∃ front c, duplicateMark index = front ++ [c] ∧ (c = 'y' ∨ c.isDigit = true)
      ∧ (index ≤ 1 ↔ c = 'y') := by
  unfold duplicateMark
  by_cases hfirst : index ≤ 1
  · rw [if_pos hfirst]
    exact ⟨[' ', 'c', 'o', 'p'], 'y', rfl, .inl rfl, by simp [hfirst]⟩
  · rw [if_neg hfirst]
    have hne : toDigits 10 index ≠ [] := toDigits_ne_nil
    obtain ⟨init, last, hlast⟩ : ∃ init last, toDigits 10 index = init ++ [last] :=
      ⟨_, _, (dropLast_append_getLast hne).symm⟩
    have hdigit : last.isDigit = true :=
      isDigit_of_mem_toDigits (by decide) (by decide)
        (show last ∈ toDigits 10 index by rw [hlast]; simp)
    refine ⟨[' ', 'c', 'o', 'p', 'y', ' '] ++ init, last, ?_, .inr hdigit, ?_⟩
    · rw [hlast, append_assoc]
    · refine ⟨fun h => absurd h hfirst, fun hy => ?_⟩
      rw [hy] at hdigit
      exact absurd hdigit (by decide)

-- ==== injective

theorem stemOf_mark_append {extension : List Char} {index : Nat} (hstem : '.' ∉ stem.drop 1)
    (hextension : extension = [] ∨ ∃ rest, extension = '.' :: rest) :
    stemOf (stem ++ duplicateMark index ++ extension) = stem ++ duplicateMark index := by
  obtain ⟨rest, hmark⟩ := duplicateMark_eq_cons index
  have hdot := dot_notMem_duplicateMark index
  have hcut : ∀ front : List Char, '.' ∉ front →
      (front ++ extension).takeWhile (· ≠ '.') = front := by
    intro front hfront
    rcases hextension with rfl | ⟨tail, rfl⟩
    · exact @takeWhile_append_dot _ [] _ hfront nil_prefix
    · exact takeWhile_append_dot hfront (prefix_refl _)
  unfold stemOf
  cases stem with
  | nil =>
    rw [nil_append, hmark]
    rw [hmark] at hdot
    simp only [cons_append, take_succ_cons, take_zero, drop_succ_cons, drop_zero]
    rw [show 'c' :: (rest ++ extension) = ('c' :: rest) ++ extension from rfl,
      hcut _ (fun h => hdot (mem_cons_of_mem _ h))]
    rfl
  | cons c more =>
    simp only [cons_append, take_succ_cons, take_zero, drop_succ_cons,
      drop_zero, nil_append] at hstem ⊢
    rw [hcut]
    simp [hstem, hdot]

theorem dot_notMem_stemOf (name : List Char) : '.' ∉ (stemOf name).drop 1 := by
  unfold stemOf
  cases name with
  | nil => simp
  | cons c rest =>
    simp only [take_succ_cons, take_zero, drop_succ_cons, drop_zero, singleton_append]
    intro h
    have := mem_takeWhile_imp h
    simp at this

theorem extensionOf_cases (name : List Char) :
    extensionOf name = [] ∨ ∃ rest, extensionOf name = '.' :: rest := by
  unfold extensionOf
  cases hrest : (name.drop 1).dropWhile (· ≠ '.') with
  | nil => exact .inl rfl
  | cons c rest =>
    have hhead := List.head?_dropWhile_not (· ≠ '.') (name.drop 1)
    rw [hrest] at hhead
    have hc : c = '.' := by simpa using hhead
    exact .inr ⟨rest, by rw [hc]⟩

theorem takeWhile_digits {front digits : List Char} (h : ∀ c ∈ digits, c.isDigit = true) :
    (front ++ [' '] ++ digits).reverse.takeWhile isDigit = digits.reverse := by
  have hall : digits.reverse.takeWhile isDigit = digits.reverse := by
    rw [takeWhile_eq_self_iff]
    exact fun c hc => h c (mem_reverse.mp hc)
  rw [reverse_append, takeWhile_append, hall, if_pos rfl, reverse_append]
  simp [show isDigit ' ' = false by decide]

theorem append_mark_injective {stem' : List Char} (hi : 1 ≤ i) (hj : 1 ≤ j)
    (h : stem ++ duplicateMark i = stem' ++ duplicateMark j) : stem = stem' ∧ i = j := by
  -- both are first duplicates, or none is
  have hfirst : i ≤ 1 ↔ j ≤ 1 := by
    obtain ⟨front, c, hmark, -, hc⟩ := duplicateMark_eq_concat i
    obtain ⟨front', c', hmark', -, hc'⟩ := duplicateMark_eq_concat j
    have hlast := congrArg List.getLast? h
    rw [hmark, hmark', ← append_assoc, ← append_assoc, List.getLast?_concat,
      List.getLast?_concat] at hlast
    injection hlast with hlast
    rw [hc, hc', hlast]
  have hij : i = j := by
    by_cases hone : i ≤ 1
    · have := hfirst.mp hone
      omega
    · have hmore := mt hfirst.mpr hone
      unfold duplicateMark at h
      rw [if_neg hone, if_neg hmore] at h
      have hdigits : ∀ k, ∀ c ∈ toDigits 10 k, c.isDigit = true := fun k c hc =>
        isDigit_of_mem_toDigits (by decide) (by decide) hc
      have hcut : ∀ (front : List Char) k,
          (front ++ ([' ', 'c', 'o', 'p', 'y', ' '] ++ toDigits 10 k)).reverse.takeWhile
            isDigit = (toDigits 10 k).reverse := by
        intro front k
        have := @takeWhile_digits (front ++ [' ', 'c', 'o', 'p', 'y']) _ (hdigits k)
        simpa only [append_assoc, cons_append, nil_append] using this
      have hsame := congrArg (fun l => l.reverse.takeWhile isDigit) h
      simp only [hcut] at hsame
      have hvalue := congrArg (fun digits => ofDigitChars 10 digits 0) (reverse_injective hsame)
      simpa only [ofDigitChars_toDigits (show 1 < 10 by decide) (le_refl 10)] using hvalue
  subst hij
  exact ⟨append_cancel_right h, rfl⟩

theorem duplicateName_injective {name name' : String} (hi : 1 ≤ i) (hj : 1 ≤ j)
    (h : duplicateName name i = duplicateName name' j) : name = name' ∧ i = j := by
  have hlist := congrArg String.toList h
  rw [toList_duplicateName, toList_duplicateName] at hlist
  have hstems := congrArg stemOf hlist
  rw [stemOf_mark_append (dot_notMem_stemOf _) (extensionOf_cases _),
    stemOf_mark_append (dot_notMem_stemOf _) (extensionOf_cases _)] at hstems
  rw [hstems] at hlist
  have hextensions := append_cancel_left hlist
  obtain ⟨hstem, hij⟩ := append_mark_injective hi hj hstems
  refine ⟨?_, hij⟩
  rw [← String.toList_inj, ← stemOf_append_extensionOf name.toList, hstem, hextensions,
    stemOf_append_extensionOf]

-- ==== accepted

theorem blank_notMem_of_isDeviceStem (h : IsDeviceStem stem) : ' ' ∉ stem := by
  rcases h with h | ⟨d, hd, h⟩
  · simp only [mem_cons, not_mem_nil, or_false] at h
    rcases h with rfl | rfl | rfl | rfl | rfl <;> decide
  · simp only [mem_cons, not_mem_nil, or_false] at hd
    rcases h with rfl | rfl
    all_goals rcases hd with rfl | rfl | rfl | rfl | rfl | rfl | rfl | rfl | rfl <;> decide

theorem not_isDeviceStem_duplicate (name : List Char) (index : Nat) :
    ¬ IsDeviceStem (deviceStem (stemOf name ++ duplicateMark index ++ extensionOf name)) := by
  obtain ⟨front, c, hmark, hc, -⟩ := duplicateMark_eq_concat index
  have hkept : isTrimmed c = false := by
    rcases hc with rfl | hdigit
    · decide
    · unfold isTrimmed
      rw [decide_eq_false_iff_not]
      intro h
      rcases h with rfl | rfl <;> revert hdigit <;> decide
  obtain ⟨rest, hbegins, htrim⟩ := trim_append (stemOf name ++ front) (extensionOf name) hkept
  obtain ⟨tail, htail⟩ : ∃ tail, rest <+: '.' :: tail := by
    rcases extensionOf_cases name with hnone | ⟨tail, htail⟩
    · rw [hnone] at hbegins
      exact ⟨[], by rw [prefix_nil.mp hbegins]; exact nil_prefix⟩
    · exact ⟨tail, htail ▸ hbegins⟩
  have hstem : deviceStem (stemOf name ++ duplicateMark index ++ extensionOf name)
      = (((stemOf name ++ duplicateMark index) ++ rest).takeWhile (· ≠ '.')).map
        Char.toUpper := by
    unfold deviceStem
    rw [hmark, ← append_assoc, htrim]
  rw [hstem]
  intro h
  cases hname : stemOf name with
  | nil =>
    rw [hname, nil_append, takeWhile_append_dot (dot_notMem_duplicateMark index) htail] at h
    obtain ⟨more, hcons⟩ := duplicateMark_eq_cons index
    rw [hcons] at h
    exact blank_notMem_of_isDeviceStem h (mem_map.mpr ⟨' ', by simp, by decide⟩)
  | cons first more =>
    have hdot := dot_notMem_stemOf name
    rw [hname] at h hdot
    by_cases hfirst : first = '.'
    · subst hfirst
      obtain ⟨last, hlast, -⟩ := h.last
      simp at hlast
    · have hfront : '.' ∉ first :: more ++ duplicateMark index := by
        have := dot_notMem_duplicateMark index
        simp only [drop_succ_cons, drop_zero] at hdot
        simp [hdot, this, Ne.symm hfirst]
      rw [takeWhile_append_dot hfront htail] at h
      obtain ⟨others, hcons⟩ := duplicateMark_eq_cons index
      refine blank_notMem_of_isDeviceStem h (mem_map.mpr ⟨' ', ?_, by decide⟩)
      rw [hcons]
      simp

theorem validateName_duplicateName (name : String) (index : Nat) :
    validateName (duplicateName name index) = .ok ()
      ↔ '/' ∉ name.toList ∧ '\\' ∉ name.toList ∧ ofNat 0 ∉ name.toList := by
  have hmem : ∀ c, c ≠ ' ' → c ≠ 'c' → c ≠ 'o' → c ≠ 'p' → c ≠ 'y' → c.isDigit = false →
      (c ∈ (duplicateName name index).toList ↔ c ∈ name.toList) := by
    intro c h₁ h₂ h₃ h₄ h₅ hdigit
    have hmark : c ∉ duplicateMark index := by
      unfold duplicateMark
      split
      case isTrue => simp [h₁, h₂, h₃, h₄, h₅]
      case isFalse =>
        intro h
        rcases mem_append.mp h with h | h
        · simp [h₁, h₂, h₃, h₄, h₅] at h
        · have := isDigit_of_mem_toDigits (by decide) (by decide) h
          simp [hdigit] at this
    rw [toList_duplicateName, mem_append, mem_append]
    conv_rhs => rw [← stemOf_append_extensionOf name.toList, mem_append]
    simp [hmark]
  have hblank : ' ' ∈ (duplicateName name index).toList := by
    obtain ⟨rest, hcons⟩ := duplicateMark_eq_cons index
    rw [toList_duplicateName, hcons]
    simp
  have hne : ∀ other : String, ' ' ∉ other.toList → duplicateName name index ≠ other := by
    intro other hother heq
    exact hother (heq ▸ hblank)
  rw [validateName_iff, hmem '/' (by decide) (by decide) (by decide) (by decide) (by decide)
    (by decide), hmem '\\' (by decide) (by decide) (by decide) (by decide) (by decide)
    (by decide), hmem (ofNat 0) (by decide) (by decide) (by decide) (by decide)
    (by decide) (by decide)]
  constructor
  · rintro ⟨-, -, -, hslash, hback, hnull, -⟩
    exact ⟨hslash, hback, hnull⟩
  · rintro ⟨hslash, hback, hnull⟩
    refine ⟨hne _ (by decide), hne _ (by decide), hne _ (by decide), hslash, hback, hnull, ?_⟩
    rw [toList_duplicateName]
    exact not_isDeviceStem_duplicate _ _

end FileManager.Transfers
