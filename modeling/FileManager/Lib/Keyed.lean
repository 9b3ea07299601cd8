/-
Lists of records with a key: the entries that have a given key, and the
update that replaces the first of them or appends. Where at most one
entry has the key, the update leaves exactly the new one; where every
key has at most one entry, the list is a map and the update its `set`.
-/
import Mathlib.Data.List.Nodup

namespace Keyed

open List Prod

universe u v

variable {α : Type u} {κ : Type v} [DecidableEq κ] (key : α → κ) {l changes : List α} {x y : α}
  {k : κ}

/-- The entries of `l` whose key is `k`. -/
def having (k : κ) (l : List α) : List α := l.filter fun x => key x = k

/-- Replace the first entry with the key of `x`, or append `x`. -/
def upsert (x : α) : List α → List α
  | [] => [x]
  | y :: rest => if key y = key x then x :: rest else y :: upsert x rest

theorem length_upsert_le (x : α) (l : List α) : (upsert key x l).length ≤ l.length + 1 := by
  induction l with
  | nil => simp [upsert]
  | cons y rest ih =>
    unfold upsert
    split
    case isTrue => simp
    case isFalse => simpa using ih

variable {key}

theorem mem_having : x ∈ having key k l ↔ x ∈ l ∧ key x = k := by
  unfold having
  rw [mem_filter, decide_eq_true_eq]

theorem having_sublist {l' : List α} (h : l.Sublist l') :
    (having key k l).Sublist (having key k l') :=
  h.filter _

theorem length_le_one_of_sublist {o : Option α} (h : l.Sublist o.toList) : l.length ≤ 1 := by
  have hlen := h.length_le
  cases o with
  | none => simp at hlen; simp [hlen]
  | some x => simpa using hlen

/-- An update under another key is not seen. -/
theorem having_upsert_of_ne (hx : key x ≠ k) (l : List α) :
    having key k (upsert key x l) = having key k l := by
  induction l with
  | nil => simp [upsert, having, hx]
  | cons y rest ih =>
    unfold upsert
    by_cases hy : key y = key x
    · rw [if_pos hy]
      have hy' : key y ≠ k := fun h => hx (hy.symm.trans h)
      simp [having, hx, hy']
    · rw [if_neg hy]
      simp only [having, filter_cons] at ih ⊢
      rw [ih]

theorem having_upsert_self (h : (having key (key x) l).length ≤ 1) :
    having key (key x) (upsert key x l) = [x] := by
  induction l with
  | nil => simp [upsert, having]
  | cons y rest ih =>
    unfold upsert
    by_cases hy : key y = key x
    · rw [if_pos hy]
      have hrest : having key (key x) rest = [] := by
        have hlen : (having key (key x) rest).length + 1 ≤ 1 := by simpa [having, hy] using h
        exact length_eq_zero_iff.mp (by omega)
      simp only [having, filter_cons, decide_true, if_true] at hrest ⊢
      rw [hrest]
    · rw [if_neg hy]
      have hcons : having key (key x) (y :: rest) = having key (key x) rest := by simp [having, hy]
      rw [hcons] at h
      have hnext := ih h
      simpa [having, hy] using hnext

-- ==== maps with one entry a key

/-- Two entries with one key are one entry. -/
def Functional (key : α → κ) (l : List α) : Prop := ∀ x ∈ l, ∀ y ∈ l, key x = key y → x = y

omit [DecidableEq κ] in
theorem functional_of_nodup (h : (l.map key).Nodup) : Functional key l :=
  fun _ hx _ hy hkey => inj_on_of_nodup_map h hx hy hkey

/-- The entry with a key, where there is one at most. -/
theorem find?_eq_some_iff (h : (l.map key).Nodup) :
    l.find? (fun y => key y = k) = some x ↔ x ∈ l ∧ key x = k := by
  constructor
  · intro hfind
    exact ⟨mem_of_find?_eq_some hfind, by simpa using List.find?_some hfind⟩
  · intro hx
    cases hfind : l.find? (fun y => key y = k) with
    | none =>
      have hnone := List.find?_eq_none.mp hfind x hx.1
      simp [hx.2] at hnone
    | some y =>
      have hkey : key y = k := by simpa using List.find?_some hfind
      rw [functional_of_nodup h y (mem_of_find?_eq_some hfind) x hx.1 (hkey.trans hx.2.symm)]

/-- An entry is the only one with its key, where there is one at most. -/
theorem having_eq_singleton (h : (l.map key).Nodup) (hx : x ∈ l) : having key (key x) l = [x] := by
  induction l with
  | nil => cases hx
  | cons y rest ih =>
    rw [map_cons, nodup_cons] at h
    unfold having at ih ⊢
    rcases mem_cons.mp hx with rfl | hmem
    · rw [filter_cons_of_pos (by simp), filter_eq_nil_iff.mpr]
      intro z hz
      rw [decide_eq_true_eq]
      intro heq
      exact h.1 (heq ▸ mem_map_of_mem hz)
    · rw [filter_cons_of_neg, ih h.2 hmem]
      rw [decide_eq_true_eq]
      intro heq
      exact h.1 (heq ▸ mem_map_of_mem hmem)

theorem mem_upsert (h : (l.map key).Nodup) :
    y ∈ upsert key x l ↔ y = x ∨ (y ∈ l ∧ key y ≠ key x) := by
  induction l with
  | nil => simp [upsert]
  | cons z rest ih =>
    rw [map_cons, nodup_cons] at h
    unfold upsert
    by_cases hz : key z = key x
    · rw [if_pos hz]
      have hrest : ∀ w ∈ rest, key w ≠ key x := by
        intro w hw hkey
        exact h.1 (mem_map.mpr ⟨w, hw, hkey.trans hz.symm⟩)
      constructor
      · intro hy
        rcases mem_cons.mp hy with rfl | hy
        · exact .inl rfl
        · exact .inr ⟨mem_cons_of_mem _ hy, hrest y hy⟩
      · intro hcase
        rcases hcase with rfl | ⟨hy, hne⟩
        · exact mem_cons_self
        · rcases mem_cons.mp hy with rfl | hy
          · exact absurd hz hne
          · exact mem_cons_of_mem _ hy
    · rw [if_neg hz, mem_cons, mem_cons, ih h.2]
      constructor
      · intro hcase
        rcases hcase with rfl | rfl | ⟨hy, hne⟩
        · exact .inr ⟨.inl rfl, hz⟩
        · exact .inl rfl
        · exact .inr ⟨.inr hy, hne⟩
      · intro hcase
        rcases hcase with rfl | ⟨rfl | hy, hne⟩
        · exact .inr (.inl rfl)
        · exact .inl rfl
        · exact .inr (.inr ⟨hy, hne⟩)

theorem nodup_upsert (h : (l.map key).Nodup) : ((upsert key x l).map key).Nodup := by
  induction l with
  | nil => simp [upsert]
  | cons z rest ih =>
    rw [map_cons, nodup_cons] at h
    unfold upsert
    by_cases hz : key z = key x
    · rw [if_pos hz, map_cons, nodup_cons, ← hz]
      exact h
    · rw [if_neg hz, map_cons, nodup_cons]
      refine ⟨?_, ih h.2⟩
      intro hmem
      obtain ⟨w, hw, hkey⟩ := mem_map.mp hmem
      rcases (mem_upsert h.2).mp hw with rfl | ⟨hw, -⟩
      · exact hz hkey.symm
      · exact h.1 (mem_map.mpr ⟨w, hw, hkey⟩)

/-- A run of updates. -/
def upserts (key : α → κ) (changes l : List α) : List α :=
  changes.foldl (fun map x => upsert key x map) l

theorem nodup_upserts (h : (l.map key).Nodup) : ((upserts key changes l).map key).Nodup := by
  induction changes generalizing l with
  | nil => exact h
  | cons x rest ih => exact ih (nodup_upsert h)

theorem mem_upserts (h : (l.map key).Nodup) (hchanges : Functional key changes) :
    y ∈ upserts key changes l ↔ y ∈ changes ∨ (y ∈ l ∧ key y ∉ changes.map key) := by
  induction changes generalizing l with
  | nil => simp [upserts]
  | cons x rest ih =>
    have hrest : Functional key rest := fun a ha b hb =>
      hchanges a (mem_cons_of_mem _ ha) b (mem_cons_of_mem _ hb)
    have hnext := ih (nodup_upsert (x := x) h) hrest
    rw [show upserts key (x :: rest) l = upserts key rest (upsert key x l) from rfl,
      hnext, mem_upsert h, map_cons, mem_cons, mem_cons]
    constructor
    · intro hcase
      rcases hcase with hy | ⟨rfl | ⟨hy, hne⟩, hnot⟩
      · exact .inl (.inr hy)
      · exact .inl (.inl rfl)
      · exact .inr ⟨hy, fun h => h.elim hne hnot⟩
    · intro hcase
      rcases hcase with (rfl | hy) | ⟨hy, hnot⟩
      · by_cases hlater : key y ∈ rest.map key
        · -- a later update under the same key is this one
          obtain ⟨z, hz, hkey⟩ := mem_map.mp hlater
          have hzy : z = y := hchanges z (mem_cons_of_mem _ hz) y mem_cons_self hkey
          exact .inl (hzy ▸ hz)
        · exact .inr ⟨.inl rfl, hlater⟩
      · exact .inl hy
      · exact .inr ⟨.inr ⟨hy, fun h => hnot (.inl h)⟩, fun h => hnot (.inr h)⟩

-- ==== pairs as a map

section Map

variable {ν : Type u} {m : List (κ × ν)} {k : κ} {κ' : Type v} {k' : κ'} {v : ν}

/-- The value under a key: that of the first pair with it. -/
def get (m : List (κ × ν)) (k : κ) : Option ν := (m.find? fun pair => pair.1 = k).map snd

/-- Put a value under a key. -/
def put (m : List (κ × ν)) (k : κ) (v : ν) : List (κ × ν) := upsert fst (k, v) m

/-- Keep what is under the selected keys only. -/
def keep (m : List (κ × ν)) (p : κ → Bool) : List (κ × ν) := m.filter fun pair => p pair.1

theorem get_put (m : List (κ × ν)) (k : κ) (v : ν) (l : κ) :
    get (put m k v) l = if l = k then some v else get m l := by
  unfold put get
  induction m with
  | nil =>
    by_cases h : l = k
    · simp [upsert, h]
    · simp [upsert, h, Ne.symm h]
  | cons pair rest ih =>
    unfold upsert
    by_cases hkey : pair.1 = k
    · rw [if_pos hkey]
      by_cases h : l = k
      · simp [h]
      · have hne : ¬ k = l := fun hl => h hl.symm
        have hne' : ¬ pair.1 = l := fun hl => h (hl.symm.trans hkey)
        simp [h, hne, hne']
    · rw [if_neg hkey]
      by_cases h : pair.1 = l
      · have hne : ¬ l = k := fun hl => hkey (h.trans hl)
        simp [h, hne]
      · rw [List.find?_cons_of_neg (by simpa using h), List.find?_cons_of_neg (by simpa using h)]
        exact ih

theorem mem_put {pair : κ × ν} (h : pair ∈ put m k v) : pair = (k, v) ∨ pair ∈ m := by
  unfold put at h
  induction m with
  | nil => exact .inl (mem_singleton.mp h)
  | cons head rest ih =>
    unfold upsert at h
    split at h
    case isTrue =>
      rcases mem_cons.mp h with h | h
      · exact .inl h
      · exact .inr (mem_cons_of_mem _ h)
    case isFalse =>
      rcases mem_cons.mp h with h | h
      · exact .inr (h ▸ mem_cons_self)
      · rcases ih h with h | h
        · exact .inl h
        · exact .inr (mem_cons_of_mem _ h)

theorem get_keep (m : List (κ × ν)) (p : κ → Bool) (l : κ) :
    get (keep m p) l = if p l then get m l else none := by
  unfold keep get
  induction m with
  | nil => simp
  | cons pair rest ih =>
    rw [filter_cons]
    by_cases hp : p pair.1 = true
    · rw [if_pos hp]
      by_cases h : pair.1 = l
      · rw [List.find?_cons_of_pos (by simpa using h),
          List.find?_cons_of_pos (by simpa using h), if_pos (h ▸ hp)]
      · rw [List.find?_cons_of_neg (by simpa using h), List.find?_cons_of_neg (by simpa using h)]
        exact ih
    · rw [if_neg hp, ih]
      by_cases h : pair.1 = l
      · rw [if_neg (h ▸ hp), if_neg (h ▸ hp)]
      · rw [List.find?_cons_of_neg (by simpa using h)]

theorem get_map (m : List (κ × ν)) (f : ν → ν) (l : κ) :
    get (m.map fun pair => (pair.1, f pair.2)) l = (get m l).map f := by
  unfold get
  rw [List.find?_map]
  cases h : m.find? ((fun pair => decide (pair.1 = l)) ∘ fun pair => (pair.1, f pair.2)) with
  | none =>
    have h' : m.find? (fun pair => pair.1 = l) = none := h
    rw [h']
    rfl
  | some pair =>
    have h' : m.find? (fun pair => pair.1 = l) = some pair := h
    rw [h']
    rfl

/-- Under a new name stands what stood under the only key that gets it. -/
theorem get_mapKeys [DecidableEq κ'] {f : κ → κ'} (h : ∀ pair ∈ m, f pair.1 = k' ↔ pair.1 = k) :
    get (m.map fun pair => (f pair.1, pair.2)) k' = get m k := by
  unfold get
  induction m with
  | nil => rfl
  | cons pair rest ih =>
    have hpair := h pair mem_cons_self
    have hrest := ih fun other hother => h other (mem_cons_of_mem _ hother)
    by_cases hk : pair.1 = k
    · rw [map_cons, List.find?_cons_of_pos (by simpa using hpair.mpr hk),
        List.find?_cons_of_pos (by simpa using hk)]
      rfl
    · rw [map_cons, List.find?_cons_of_neg (by simpa using fun heq => hk (hpair.mp heq)),
        List.find?_cons_of_neg (by simpa using hk)]
      exact hrest

omit [DecidableEq κ] in
/-- Under a name that no key gets stands nothing. -/
theorem get_mapKeys_none [DecidableEq κ'] {f : κ → κ'}
    (h : ∀ pair ∈ m, f pair.1 ≠ k') : get (m.map fun pair => (f pair.1, pair.2)) k' = none := by
  unfold get
  rw [Option.map_eq_none_iff, List.find?_eq_none]
  intro pair hpair
  obtain ⟨before, hbefore, rfl⟩ := mem_map.mp hpair
  simpa using h before hbefore

theorem mem_iff_get (h : (m.map fst).Nodup) : (k, v) ∈ m ↔ get m k = some v := by
  unfold get
  rw [Option.map_eq_some_iff]
  constructor
  · intro hmem
    exact ⟨(k, v), (find?_eq_some_iff h).mpr ⟨hmem, rfl⟩, rfl⟩
  · intro hfound
    obtain ⟨pair, hfind, rfl⟩ := hfound
    obtain ⟨hmem, rfl⟩ := (find?_eq_some_iff h).mp hfind
    exact hmem

theorem mem_keys_iff : k ∈ m.map fst ↔ get m k ≠ none := by
  unfold get
  rw [Ne, Option.map_eq_none_iff, List.find?_eq_none, mem_map]
  simp

theorem nodup_put (h : (m.map fst).Nodup) (k : κ) (v : ν) : ((put m k v).map fst).Nodup :=
  nodup_upsert h

omit [DecidableEq κ] in
theorem nodup_keep (h : (m.map fst).Nodup) (p : κ → Bool) : ((keep m p).map fst).Nodup :=
  h.sublist (filter_sublist.map fst)

end Map

-- ==== two maps in step

section Related

variable {κ' ν ν' : Type*} [DecidableEq κ'] {R : κ × ν → κ' × ν' → Prop}
  {m : List (κ × ν)} {m' : List (κ' × ν')} {k : κ} {k' : κ'}

omit [DecidableEq κ] [DecidableEq κ'] in
theorem exists_related (h : List.Forall₂ R m m') {x : κ × ν} (hx : x ∈ m) : ∃ x' ∈ m', R x x' := by
  induction h with
  | nil => cases hx
  | @cons y y' rest rest' hy _ ih =>
    rcases mem_cons.mp hx with rfl | hx
    · exact ⟨y', mem_cons_self, hy⟩
    · obtain ⟨x', hmem, hrelated⟩ := ih hx
      exact ⟨x', mem_cons_of_mem _ hmem, hrelated⟩

theorem get_related (h : List.Forall₂ R m m') (hkey : ∀ x x', R x x' → (x.1 = k ↔ x'.1 = k')) :
    (get m k = none ∧ get m' k' = none)
      ∨ ∃ v v', get m k = some v ∧ get m' k' = some v' ∧ R (k, v) (k', v') := by
  induction h with
  | nil => exact .inl ⟨rfl, rfl⟩
  | @cons x x' rest rest' hx _ ih =>
    by_cases hk : x.1 = k
    · have hk' := (hkey x x' hx).mp hk
      refine .inr ⟨x.2, x'.2, ?_, ?_, ?_⟩
      · simp [get, hk]
      · simp [get, hk']
      · rw [← hk, ← hk']
        exact hx
    · have hk' : ¬ x'.1 = k' := fun h => hk ((hkey x x' hx).mpr h)
      simpa [get, hk, hk'] using ih

theorem put_related (h : List.Forall₂ R m m') (hkey : ∀ x x', R x x' → (x.1 = k ↔ x'.1 = k'))
    {v : ν} {v' : ν'} (hnew : R (k, v) (k', v')) : List.Forall₂ R (put m k v) (put m' k' v') := by
  unfold put
  induction h with
  | nil => exact .cons hnew .nil
  | @cons x x' rest rest' hx hrest ih =>
    unfold upsert
    by_cases hk : x.1 = k
    · rw [if_pos hk, if_pos ((hkey x x' hx).mp hk)]
      exact .cons hnew hrest
    · rw [if_neg hk, if_neg fun h => hk ((hkey x x' hx).mpr h)]
      exact .cons hx ih

omit [DecidableEq κ] [DecidableEq κ'] in
theorem keep_related (h : List.Forall₂ R m m') {p : κ → Bool} {p' : κ' → Bool}
    (hkey : ∀ x x', R x x' → p x.1 = p' x'.1) : List.Forall₂ R (keep m p) (keep m' p') := by
  unfold keep
  induction h with
  | nil => exact .nil
  | @cons x x' rest rest' hx hrest ih =>
    rw [filter_cons, filter_cons, hkey x x' hx]
    split
    case isTrue => exact .cons hx ih
    case isFalse => exact ih

end Related

end Keyed
