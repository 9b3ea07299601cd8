/-
Grouping the entries of a list by a key: the buckets of a map filled
entry by entry, and the classes of a list under a key.

# Classes

`Classes key l classes` says that `classes` are the classes of two and
more entries of `l` that share a key, each of them once, up to the
order of the classes and within them. Classes may be found in stages:
the classes under a second key, taken within each class of a first, are
those under both keys (`Classes.refine`), because an entry that is
alone under the first key is alone under both.
-/
import Mathlib.Data.List.Induction
import Mathlib.Data.List.Perm.Basic
import Mathlib.Data.List.Perm.Lattice

namespace Buckets

open List (mem_filter map_cons mem_map mem_cons mem_singleton mem_map_of_mem pairwise_map)
open List Prod

universe u v w

variable {α : Type u} {β : Type w} {κ κ' : Type v} [DecidableEq κ] {k : κ} {key : α → κ} {x : α}
  {buckets : List (κ × List α)} {l xs : List α} {classes : List (List α)} {key' : β → κ}
  {R : α → β → Prop} {m : List β}

-- ==== buckets

/-- Add an entry to the bucket of a key; a new key comes last. -/
def push (k : κ) (x : α) : List (κ × List α) → List (κ × List α)
  | [] => [(k, [x])]
  | (k', xs) :: rest =>
    if k' = k then (k', xs ++ [x]) :: rest else (k', xs) :: push k x rest

/-- The buckets of a list, filled in its order. -/
def group (key : α → κ) (l : List α) : List (κ × List α) :=
  l.foldl (fun buckets x => push (key x) x buckets) []

/-- The entries of `l` with the key `k`. -/
def having (key : α → κ) (k : κ) (l : List α) : List α := l.filter fun x => key x = k

theorem having_perm {l' : List α} (h : l.Perm l') : (having key k l).Perm (having key k l') :=
  h.filter _

theorem mem_having : x ∈ having key k l ↔ x ∈ l ∧ key x = k := by
  unfold having
  rw [mem_filter, decide_eq_true_eq]

theorem group_append (key : α → κ) (l : List α) (x : α) :
    group key (l ++ [x]) = push (key x) x (group key l) := by
  unfold group
  rw [foldl_append]
  rfl

/-- The entries of a bucket that a push leaves or makes. -/
theorem mem_push {k' : κ} (hkeys : (buckets.map fst).Nodup) :
    (k', xs) ∈ push k x buckets ↔ (k' ≠ k ∧ (k', xs) ∈ buckets)
      ∨ (k' = k ∧ ((∃ ys, (k, ys) ∈ buckets ∧ xs = ys ++ [x])
        ∨ (k ∉ buckets.map fst ∧ xs = [x]))) := by
  induction buckets with
  | nil => simp [push]
  | cons bucket rest ih =>
    obtain ⟨k₁, ys⟩ := bucket
    rw [map_cons, nodup_cons] at hkeys
    unfold push
    split
    case isTrue heq =>
      subst heq
      -- the bucket of the key is this one, and no other
      have hrest : ∀ zs, (k₁, zs) ∉ rest := by
        intro zs hzs
        exact hkeys.1 (mem_map.mpr ⟨(k₁, zs), hzs, rfl⟩)
      simp only [mem_cons, mk.injEq, map_cons, true_or, not_true, false_and,
        or_false]
      constructor
      · rintro (⟨rfl, rfl⟩ | hmem)
        · exact .inr ⟨rfl, ys, .inl ⟨trivial, rfl⟩, rfl⟩
        · refine .inl ⟨?_, .inr hmem⟩
          rintro rfl
          exact hrest xs hmem
      · rintro (⟨hne, ⟨rfl, -⟩ | hmem⟩ | ⟨rfl, zs, ⟨-, rfl⟩ | hmem, rfl⟩)
        · exact absurd rfl hne
        · exact .inr hmem
        · exact .inl ⟨rfl, rfl⟩
        · exact absurd hmem (hrest zs)
    case isFalse hne =>
      simp only [mem_cons, mk.injEq, map_cons, ih hkeys.2]
      constructor
      · rintro (⟨rfl, rfl⟩ | ⟨hk, hmem⟩ | ⟨rfl, ⟨zs, hmem, rfl⟩ | ⟨hnot, rfl⟩⟩)
        · exact .inl ⟨hne, .inl ⟨rfl, rfl⟩⟩
        · exact .inl ⟨hk, .inr hmem⟩
        · exact .inr ⟨rfl, .inl ⟨zs, .inr hmem, rfl⟩⟩
        · refine .inr ⟨rfl, .inr ⟨?_, rfl⟩⟩
          rintro (rfl | hmem)
          · exact hne rfl
          · exact hnot hmem
      · rintro (⟨hk, ⟨rfl, rfl⟩ | hmem⟩ | ⟨rfl, ⟨zs, ⟨rfl, -⟩ | hmem, rfl⟩ | ⟨hnot, rfl⟩⟩)
        · exact .inl ⟨rfl, rfl⟩
        · exact .inr (.inl ⟨hk, hmem⟩)
        · exact absurd rfl hne
        · exact .inr (.inr ⟨rfl, .inl ⟨zs, hmem, rfl⟩⟩)
        · exact .inr (.inr ⟨rfl, .inr ⟨fun h => hnot (.inr h), rfl⟩⟩)

/-- A push adds its entry to the entries of the buckets. -/
theorem perm_flatMap_push (k : κ) (x : α) (buckets : List (κ × List α)) :
    ((push k x buckets).flatMap snd).Perm (buckets.flatMap snd ++ [x]) := by
  induction buckets with
  | nil => exact Perm.refl _
  | cons bucket rest ih =>
    obtain ⟨k₁, ys⟩ := bucket
    unfold push
    split
    case isTrue =>
      simp only [flatMap_cons, append_assoc]
      exact Perm.append_left ys perm_append_comm
    case isFalse =>
      simp only [flatMap_cons, append_assoc]
      exact ih.append_left ys

theorem keys_push (k : κ) (x : α) (buckets : List (κ × List α)) :
    (push k x buckets).map fst = if k ∈ buckets.map fst then buckets.map fst
        else buckets.map fst ++ [k] := by
  induction buckets with
  | nil => rfl
  | cons bucket rest ih =>
    obtain ⟨k₁, ys⟩ := bucket
    unfold push
    by_cases heq : k₁ = k
    · subst heq
      simp
    · rw [if_neg heq]
      simp only [map_cons, ih, mem_cons, Ne.symm heq, false_or, cons_append]
      split <;> rfl

theorem nodup_keys_push (h : (buckets.map fst).Nodup) (k : κ)
    (x : α) : ((push k x buckets).map fst).Nodup := by
  rw [keys_push]
  split
  case isTrue => exact h
  case isFalse hnot =>
    refine nodup_append.mpr ⟨h, nodup_singleton _, ?_⟩
    intro a ha b hb hab
    rw [mem_singleton] at hb
    exact hnot (hb ▸ hab ▸ ha)

/-- What holds of every entry under its key still does after a push. -/
theorem forall_push {P : κ → α → Prop} (h : ∀ bucket ∈ buckets, ∀ y ∈ bucket.2, P bucket.1 y)
    (hx : P k x) : ∀ bucket ∈ push k x buckets, ∀ y ∈ bucket.2, P bucket.1 y := by
  induction buckets with
  | nil =>
    intro bucket hbucket y hy
    obtain rfl := mem_singleton.mp hbucket
    obtain rfl := mem_singleton.mp hy
    exact hx
  | cons first rest ih =>
    obtain ⟨k₁, ys⟩ := first
    have hfirst := h (k₁, ys) mem_cons_self
    have hrest : ∀ bucket ∈ rest, ∀ y ∈ bucket.2, P bucket.1 y :=
      fun bucket hbucket => h bucket (mem_cons_of_mem _ hbucket)
    intro bucket hbucket y hy
    unfold push at hbucket
    split at hbucket
    case isTrue heq =>
      subst heq
      rcases mem_cons.mp hbucket with rfl | hbucket
      · rcases mem_append.mp hy with hy | hy
        · exact hfirst y hy
        · exact mem_singleton.mp hy ▸ hx
      · exact hrest bucket hbucket y hy
    case isFalse =>
      rcases mem_cons.mp hbucket with rfl | hbucket
      · exact hfirst y hy
      · exact ih hrest bucket hbucket y hy

/-- Every key has one bucket. -/
theorem nodup_keys_group (key : α → κ) (l : List α) : ((group key l).map fst).Nodup := by
  induction l using reverseRecOn with
  | nil => exact nodup_nil
  | append_singleton l x ih =>
    rw [group_append]
    exact nodup_keys_push ih (key x) x

theorem having_append_singleton (key : α → κ) (k : κ) (l : List α) (x : α) :
    having key k (l ++ [x]) = if key x = k then having key k l ++ [x] else having key k l := by
  unfold having
  rw [filter_append]
  by_cases h : key x = k <;> simp [h]

/-- The bucket of a key holds the entries with that key, in order. -/
theorem mem_group : (k, xs) ∈ group key l ↔ xs = having key k l ∧ xs ≠ [] := by
  induction l using reverseRecOn generalizing k xs with
  | nil => simp [group, having]
  | append_singleton l x ih =>
    have hkey : ∀ k, k ∉ (group key l).map fst ↔ having key k l = [] := by
      intro k
      constructor
      · intro hnot
        by_contra hne
        exact hnot (mem_map.mpr ⟨(k, having key k l), ih.mpr ⟨rfl, hne⟩, rfl⟩)
      · intro hnil hmem
        obtain ⟨⟨k', ys⟩, hbucket, rfl⟩ := mem_map.mp hmem
        obtain ⟨rfl, hne⟩ := ih.mp hbucket
        exact hne hnil
    rw [group_append, mem_push (nodup_keys_group key l), having_append_singleton]
    by_cases hk : key x = k
    · subst hk
      rw [if_pos rfl, hkey]
      constructor
      · rintro (⟨hne, -⟩ | ⟨-, ⟨ys, hmem, rfl⟩ | ⟨hnil, rfl⟩⟩)
        · exact absurd rfl hne
        · obtain ⟨rfl, -⟩ := ih.mp hmem
          exact ⟨rfl, by simp⟩
        · rw [hnil]
          exact ⟨rfl, by simp⟩
      · rintro ⟨rfl, -⟩
        refine .inr ⟨rfl, ?_⟩
        by_cases hnil : having key (key x) l = []
        · exact .inr ⟨hnil, by rw [hnil]; rfl⟩
        · exact .inl ⟨_, ih.mpr ⟨rfl, hnil⟩, rfl⟩
    · rw [if_neg hk, ih]
      constructor
      · rintro (⟨-, h⟩ | ⟨rfl, -⟩)
        · exact h
        · exact absurd rfl hk
      · intro h
        exact .inl ⟨Ne.symm hk, h⟩

-- ==== classes

/-- The classes of two and more entries of `l` that share a key. -/
structure Classes (key : α → κ) (l : List α) (classes : List (List α)) : Prop where
  whole : ∀ c ∈ classes, 2 ≤ c.length ∧ ∃ x ∈ l, c.Perm (having key (key x) l)
  all : ∀ x ∈ l, 2 ≤ (having key (key x) l).length → ∃ c ∈ classes, x ∈ c
  apart : classes.Pairwise fun c d => ∀ x ∈ c, ∀ y ∈ d, key x ≠ key y

/-- A class is that of each of its entries. -/
theorem Classes.perm_having (h : Classes key l classes) {c : List α} (hc : c ∈ classes) (hx : x ∈
    c) :
    x ∈ l ∧ c.Perm (having key (key x) l) := by
  obtain ⟨-, y, -, hperm⟩ := h.whole c hc
  obtain ⟨hmem, hkey⟩ := mem_having.mp (hperm.mem_iff.mp hx)
  rw [hkey]
  exact ⟨hmem, hperm⟩

theorem Classes.mem_flatten (h : Classes key l classes) :
    x ∈ classes.flatten ↔ x ∈ l ∧ 2 ≤ (having key (key x) l).length := by
  rw [List.mem_flatten]
  constructor
  · rintro ⟨c, hc, hx⟩
    obtain ⟨hmem, hperm⟩ := h.perm_having hc hx
    rw [← hperm.length_eq]
    exact ⟨hmem, (h.whole c hc).1⟩
  · rintro ⟨hmem, hlen⟩
    exact h.all x hmem hlen

/-- An entry stands in one class, and there once. -/
theorem Classes.nodup_flatten (h : Classes key l classes) (hl : l.Nodup) :
    classes.flatten.Nodup := by
  rw [List.nodup_flatten]
  constructor
  · intro c hc
    obtain ⟨-, x, -, hperm⟩ := h.whole c hc
    exact hperm.nodup_iff.mpr (hl.filter _)
  · refine h.apart.imp ?_
    intro c d hne x hx hx'
    exact hne x hx x hx' rfl

theorem Classes.perm {classes' : List (List α)} (h : Classes key l classes)
    (hperm : classes'.Perm classes) : Classes key l classes' where
  whole c hc := h.whole c (hperm.mem_iff.mp hc)
  all x hx hlen := by
    obtain ⟨c, hc, hmem⟩ := h.all x hx hlen
    exact ⟨c, hperm.mem_iff.mpr hc, hmem⟩
  apart := by
    refine (hperm.pairwise_iff ?_).mpr h.apart
    intro c d hne x hx y hy heq
    exact hne y hy x hx heq.symm

/-- The order within the classes does not matter. -/
theorem Classes.arrange (h : Classes key l classes) (sort : List α → List α)
    (hsort : ∀ c, (sort c).Perm c) : Classes key l (classes.map sort) where
  whole := by
    intro c hc
    obtain ⟨d, hd, rfl⟩ := mem_map.mp hc
    obtain ⟨hlen, x, hx, hperm⟩ := h.whole d hd
    rw [(hsort d).length_eq]
    exact ⟨hlen, x, hx, (hsort d).trans hperm⟩
  all := by
    intro x hx hlen
    obtain ⟨c, hc, hmem⟩ := h.all x hx hlen
    exact ⟨sort c, mem_map_of_mem hc, (hsort c).mem_iff.mpr hmem⟩
  apart := by
    rw [pairwise_map]
    refine h.apart.imp ?_
    intro c d hne x hx y hy
    exact hne x ((hsort c).mem_iff.mp hx) y ((hsort d).mem_iff.mp hy)

theorem having_map {f : α → β} (hkey : ∀ x, key' (f x) = key x) (k : κ)
    (l : List α) : having key' k (l.map f) = (having key k l).map f := by
  unfold having
  rw [filter_map]
  simp only [Function.comp_def, hkey]

theorem Classes.map (h : Classes key l classes) (f : α → β)
    (hkey : ∀ x, key' (f x) = key x) : Classes key' (l.map f) (classes.map (map f)) where
  whole := by
    intro c hc
    obtain ⟨d, hd, rfl⟩ := mem_map.mp hc
    obtain ⟨hlen, x, hx, hperm⟩ := h.whole d hd
    rw [length_map]
    refine ⟨hlen, f x, mem_map_of_mem hx, ?_⟩
    rw [hkey, having_map hkey]
    exact hperm.map f
  all := by
    intro y hy hlen
    obtain ⟨x, hx, rfl⟩ := mem_map.mp hy
    rw [hkey, having_map hkey, length_map] at hlen
    obtain ⟨c, hc, hmem⟩ := h.all x hx hlen
    exact ⟨c.map f, mem_map_of_mem hc, mem_map_of_mem hmem⟩
  apart := by
    rw [pairwise_map]
    refine h.apart.imp ?_
    intro c d hne y hy z hz
    obtain ⟨x, hx, rfl⟩ := mem_map.mp hy
    obtain ⟨x', hx', rfl⟩ := mem_map.mp hz
    rw [hkey, hkey]
    exact hne x hx x' hx'

theorem Classes.pairwise_iff {R : α → α → Prop} (h : Classes key l classes)
    (hsymm : ∀ {x y}, R x y → R y x) (hkey : ∀ x ∈ l, ∀ y ∈ l, key x ≠ key y → R x y) :
    (∀ c ∈ classes, c.Pairwise R) ↔ l.Pairwise R := by
  constructor
  · intro hwithin
    rw [pairwise_iff_forall_sublist]
    intro x y hpair
    have hx : x ∈ l := hpair.subset (by simp)
    have hy : y ∈ l := hpair.subset (by simp)
    by_cases hsame : key y = key x
    · -- the pair is still there among the entries of its key
      have hkept : [x, y].Sublist (having key (key x) l) := by
        have hfiltered := hpair.filter fun z => decide (key z = key x)
        simpa [hsame, having] using hfiltered
      obtain ⟨c, hc, hxc⟩ := h.all x hx hkept.length_le
      have hpairwise := ((h.perm_having hc hxc).2.pairwise_iff hsymm).mp (hwithin c hc)
      exact pairwise_iff_forall_sublist.mp hpairwise hkept
    · exact hkey x hx y hy fun heq => hsame heq.symm
  · intro hall c hc
    obtain ⟨-, x, -, hperm⟩ := h.whole c hc
    exact (hperm.pairwise_iff hsymm).mpr (hall.filter _)

/-- Keys that tell the same entries apart have the same classes. -/
theorem Classes.congr [DecidableEq κ'] {key' : α → κ'} (h : Classes key l classes)
    (hkey : ∀ x ∈ l, ∀ y ∈ l, key x = key y ↔ key' x = key' y) : Classes key' l classes := by
  have hhaving : ∀ x ∈ l, having key (key x) l = having key' (key' x) l := by
    intro x hx
    refine filter_congr ?_
    intro y hy
    exact decide_eq_decide.mpr (hkey y hy x hx)
  refine ⟨?_, ?_, ?_⟩
  · intro c hc
    obtain ⟨hlen, x, hx, hperm⟩ := h.whole c hc
    exact ⟨hlen, x, hx, hhaving x hx ▸ hperm⟩
  · intro x hx hlen
    rw [← hhaving x hx] at hlen
    exact h.all x hx hlen
  · refine Pairwise.imp_of_mem ?_ h.apart
    intro c d hc hd hne x hx y hy heq
    exact hne x hx y hy ((hkey x (h.perm_having hc hx).1 y (h.perm_having hd hy).1).mpr heq)

/-- The buckets of two and more entries are the classes. -/
theorem classes_group (key : α → κ) (l : List α) (hperm : buckets.Perm (group key l)) :
    Classes key l ((buckets.map snd).filter fun c => 1 < c.length) where
  whole := by
    intro c hc
    obtain ⟨hmem, hlen⟩ := mem_filter.mp hc
    obtain ⟨⟨k, c'⟩, hbucket, rfl⟩ := mem_map.mp hmem
    obtain ⟨heq, hne⟩ := mem_group.mp (hperm.mem_iff.mp hbucket)
    simp only at hlen hne ⊢
    obtain ⟨x, hx⟩ := exists_mem_of_ne_nil c' hne
    obtain ⟨hmem, hkey⟩ := mem_having.mp (heq ▸ hx)
    refine ⟨of_decide_eq_true hlen, x, hmem, ?_⟩
    rw [hkey, ← heq]
  all := by
    intro x hx hlen
    have hne : having key (key x) l ≠ [] := by
      intro hnil
      rw [hnil, length_nil] at hlen
      omega
    have hbucket := hperm.mem_iff.mpr (mem_group.mpr ⟨rfl, hne⟩)
    refine ⟨having key (key x) l, ?_, mem_having.mpr ⟨hx, rfl⟩⟩
    exact mem_filter.mpr ⟨mem_map_of_mem (f := snd) hbucket, decide_eq_true hlen⟩
  apart := by
    refine Pairwise.filter _ ?_
    rw [pairwise_map]
    have hkeys : (buckets.map fst).Nodup :=
      ((hperm.map fst).nodup_iff).mpr (nodup_keys_group key l)
    rw [Nodup, pairwise_map] at hkeys
    refine Pairwise.imp_of_mem ?_ hkeys
    rintro ⟨k, c⟩ ⟨k', d⟩ hc hd hne x hx y hy heq
    obtain ⟨rfl, -⟩ := mem_group.mp (hperm.mem_iff.mp hc)
    obtain ⟨rfl, -⟩ := mem_group.mp (hperm.mem_iff.mp hd)
    exact hne ((mem_having.mp hx).2.symm.trans (heq.trans (mem_having.mp hy).2))

theorem exists_left_of_forall₂ (h : Forall₂ R l m) {y : β} (hy : y ∈ m) : ∃ x ∈ l, R x y := by
  induction h with
  | nil => cases hy
  | @cons a b l m hab _ ih =>
    rcases mem_cons.mp hy with rfl | hy
    · exact ⟨a, mem_cons_self, hab⟩
    · obtain ⟨x, hx, hxy⟩ := ih hy
      exact ⟨x, mem_cons_of_mem _ hx, hxy⟩

theorem pairwise_of_forall₂ {P : α → α → Prop} {Q : β → β → Prop} (h : Forall₂ R l m)
    (hP : l.Pairwise P) (hQ : ∀ {a b a' b'}, R a a' → R b b' → P a b → Q a' b') : m.Pairwise Q := by
  induction h with
  | nil => exact Pairwise.nil
  | @cons a a' l m ha htail ih =>
    obtain ⟨hhead, hrest⟩ := pairwise_cons.mp hP
    refine pairwise_cons.mpr ⟨?_, ih hrest⟩
    intro b' hb'
    obtain ⟨b, hb, hbb'⟩ := exists_left_of_forall₂ htail hb'
    exact hQ ha hbb' (hhead b hb)

/-- The classes under a second key within each class under a first are
the classes under both. -/
theorem Classes.refine [DecidableEq κ'] {key' : α → κ'} {parts : List (List (List α))}
    (h : Classes key l classes) (hparts : Forall₂ (Classes key') classes parts) :
    Classes (fun x => (key x, key' x)) l parts.flatten := by
  -- within a class of the first key, the second key alone decides
  have hhaving : ∀ {c : List α} {x : α}, c ∈ classes → x ∈ c →
      (having key' (key' x) c).Perm (having (fun x => (key x, key' x)) (key x, key' x) l) := by
    intro c x hc hx
    refine (having_perm (h.perm_having hc hx).2).trans ?_
    unfold having
    rw [filter_filter]
    refine Perm.of_eq (filter_congr ?_)
    intro y _
    simp only [mk.injEq, Bool.decide_and, Bool.and_comm]
  refine ⟨?_, ?_, ?_⟩
  · intro d hd
    obtain ⟨part, hpart, hdpart⟩ := List.mem_flatten.mp hd
    obtain ⟨c, hc, hclasses⟩ := exists_left_of_forall₂ hparts hpart
    obtain ⟨hlen, x, hx, hperm⟩ := hclasses.whole d hdpart
    exact ⟨hlen, x, (h.perm_having hc hx).1, hperm.trans (hhaving hc hx)⟩
  · intro x hx hlen
    have hmore : 2 ≤ (having key (key x) l).length := by
      refine Nat.le_trans hlen (Sublist.length_le (monotone_filter_right l ?_))
      intro y hy
      rw [decide_eq_true_eq, mk.injEq] at hy
      exact decide_eq_true hy.1
    obtain ⟨c, hc, hxc⟩ := h.all x hx hmore
    obtain ⟨part, hpart, hclasses⟩ := exists_left_of_forall₂ hparts.flip hc
    rw [← (hhaving hc hxc).length_eq] at hlen
    obtain ⟨d, hd, hmem⟩ := hclasses.all x hxc hlen
    exact ⟨d, List.mem_flatten.mpr ⟨part, hpart, hd⟩, hmem⟩
  · rw [pairwise_flatten]
    constructor
    · intro part hpart
      obtain ⟨c, hc, hclasses⟩ := exists_left_of_forall₂ hparts hpart
      refine hclasses.apart.imp ?_
      intro d e hne x hx y hy heq
      exact hne x hx y hy (mk.inj heq).2
    · refine pairwise_of_forall₂ hparts h.apart ?_
      intro c c' part part' hclasses hclasses' hne d hd e he x hx y hy heq
      exact hne x (hclasses.perm_having hd hx).1 y (hclasses'.perm_having he hy).1
        (mk.inj heq).1

end Buckets
