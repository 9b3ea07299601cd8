/-
Depth-first traversals of a forest (`Forest.Under`), which keep what is
still to be visited on one stack. A key that is taken off is visited,
and its children go on the stack; or it goes back, marked, under its
children, and is visited when it is taken off again.

# The argument

Two keys of which neither is below the other have nothing below them in
common, and the children of a key are such keys. So as long as this holds
along the stack, what is below one entry of it is not below another, and
nothing is visited twice.

# Sizes

As what is below the children is apart, there is no more of it than
what is below their parent, itself left out (`sum_size_lt`). So the
number of keys below the stack goes down with every key that is visited.
-/
import FileManager.Lib.Forest
import Mathlib.Algebra.GroupWithZero.Nat
import Mathlib.Algebra.Order.BigOperators.Group.List

namespace Forest

open List

universe u

variable {κ : Type u} {parent : κ → Option κ} {a b c p q k : κ} {there : κ → Prop}
  {children rest visited roots stack : List κ} {marked : List (κ × Bool)}

-- ==== below

/-- Going up never comes back. -/
def Acyclic (parent : κ → Option κ) : Prop := ∀ k m, parent k = some m → ¬ Under parent k m

theorem Under.trans (h : Under parent p q) (h' : Under parent q k) : Under parent p k := by
  induction h' with
  | self => exact h
  | up hparent _ ih => exact .up hparent ih

/-- What is above a key is on one line. -/
theorem Under.comparable (h : Under parent p k) (h' : Under parent q k) :
    Under parent p q ∨ Under parent q p := by
  induction h with
  | self => exact .inr h'
  | @up k m hparent hrest ih =>
    cases h' with
    | self => exact .inl (.up hparent hrest)
    | up hparent' hrest' =>
      rw [hparent] at hparent'
      injection hparent' with hparent'
      subst hparent'
      exact ih hrest'

theorem Under.of_parent (h : parent k = some p) : Under parent p k := .up h .self

/-- A key that is below another and is not it has a parent there. -/
theorem Under.eq_or_parent (h : Under parent p k) :
    k = p ∨ ∃ m, parent k = some m ∧ Under parent p m := by
  cases h with
  | self => exact .inl rfl
  | up hparent hrest => exact .inr ⟨_, hparent, hrest⟩

-- ==== apart

/-- Neither is below the other. -/
def Apart (parent : κ → Option κ) (a b : κ) : Prop := ¬ Under parent a b ∧ ¬ Under parent b a

/-- Nothing is below both. -/
theorem Apart.disjoint (h : Apart parent a b) (ha : Under parent a k) : ¬ Under parent b k := by
  intro hb
  rcases ha.comparable hb with hab | hba
  · exact h.1 hab
  · exact h.2 hba

theorem apart_of_siblings (hacyclic : Acyclic parent) (hb : parent b = some p)
    (hc : parent c = some p) (hne : b ≠ c) : Apart parent b c := by
  have hnot : ∀ b c, parent b = some p → parent c = some p → b ≠ c →
      ¬ Under parent b c := by
    intro b c hb hc hne hbc
    rcases hbc.eq_or_parent with rfl | ⟨m, hparent, hrest⟩
    · exact hne rfl
    · rw [hc] at hparent
      cases hparent
      exact hacyclic _ _ hb hrest
  exact ⟨hnot b c hb hc hne, hnot c b hc hb hne.symm⟩

/-- What is not above a key is not above its parent's children but by
being one. -/
theorem not_under_child (hc : parent c = some a) (hne : b ≠ c)
    (h : ¬ Under parent b a) : ¬ Under parent b c := by
  intro hbc
  rcases hbc.eq_or_parent with heq | ⟨m, hparent, hrest⟩
  · exact hne heq.symm
  · rw [hc] at hparent
    cases hparent
    exact h hrest

theorem Apart.child (h : Apart parent a b) (hc : parent c = some a) : Apart parent c b := by
  have hac : Under parent a c := .of_parent hc
  refine ⟨fun hcb => h.1 (hac.trans hcb), not_under_child hc ?_ h.2⟩
  intro hbc
  exact h.1 (hbc ▸ hac)

-- ==== children

/-- The children of a key: whatever is below the key is it, or is below
one of them. -/
structure Children (parent : κ → Option κ) (there : κ → Prop) (a : κ) (children : List κ) :
    Prop where
  hang : ∀ c ∈ children, parent c = some a
  stand : ∀ c ∈ children, there c
  nodup : children.Nodup
  below : ∀ k, there k → Under parent a k → k = a ∨ ∃ c ∈ children, Under parent c k

theorem Children.apart (h : Children parent there a children) (hacyclic : Acyclic parent) :
    children.Pairwise (Apart parent) := by
  refine h.nodup.imp_of_mem ?_
  intro b c hb hc hne
  exact apart_of_siblings hacyclic (h.hang b hb) (h.hang c hc) hne

-- ==== before what is below

/-- A traversal of what is below the roots, each key before all that is
below it: `visited` in order, and the stack. -/
structure Before (parent : κ → Option κ) (there : κ → Prop) (roots : List κ)
    (visited stack : List κ) : Prop where
  ordered : visited.Pairwise fun a b => ¬ Under parent b a
  apart : stack.Pairwise (Apart parent)
  ahead : ∀ s ∈ stack, ∀ v ∈ visited, ¬ Under parent s v
  below : ∀ k, k ∈ visited ∨ k ∈ stack → there k ∧ ∃ r ∈ roots, Under parent r k
  reached : ∀ k, there k → (∃ r ∈ roots, Under parent r k) →
    k ∈ visited ∨ ∃ s ∈ stack, Under parent s k

theorem Before.start (hapart : roots.Pairwise (Apart parent)) (hroots : ∀ r ∈ roots, there r) :
    Before parent there roots [] roots where
  ordered := .nil
  apart := hapart
  ahead := fun _ _ _ hv => by cases hv
  below := by
    intro k hk
    rcases hk with hk | hk
    · cases hk
    · exact ⟨hroots k hk, k, hk, .self⟩
  reached := fun _ _ hbelow => .inr hbelow

/-- The key on the top is visited. -/
theorem Before.visit (hacyclic : Acyclic parent) (h : Before parent there roots visited (a :: rest))
    (hchildren : Children parent there a children) :
    Before parent there roots (visited ++ [a]) (children ++ rest) := by
  obtain ⟨htop, hrest⟩ := pairwise_cons.mp h.apart
  obtain ⟨hthere, r, hr, hra⟩ := h.below a (.inr mem_cons_self)
  have hchild : ∀ c ∈ children, Under parent a c := fun c hc =>
    .of_parent (hchildren.hang c hc)
  refine ⟨?_, ?_, ?_, ?_, ?_⟩
  · refine pairwise_append.mpr ⟨h.ordered, pairwise_singleton _ _, ?_⟩
    intro v hv b hb
    rw [mem_singleton.mp hb]
    exact h.ahead a mem_cons_self v hv
  · refine pairwise_append.mpr ⟨hchildren.apart hacyclic, hrest, ?_⟩
    intro c hc s hs
    exact (htop s hs).child (hchildren.hang c hc)
  · intro s hs v hv hsv
    rcases mem_append.mp hv with hv | hv
    · -- below nothing that has been visited, since its parent is not
      rcases mem_append.mp hs with hs | hs
      · exact h.ahead a mem_cons_self v hv ((hchild s hs).trans hsv)
      · exact h.ahead s (mem_cons_of_mem _ hs) v hv hsv
    · rw [mem_singleton.mp hv] at hsv
      rcases mem_append.mp hs with hs | hs
      · exact hacyclic _ _ (hchildren.hang s hs) hsv
      · exact (htop s hs).2 hsv
  · intro k hk
    by_cases hnew : k ∈ children
    · exact ⟨hchildren.stand k hnew, r, hr, hra.trans (hchild k hnew)⟩
    · refine h.below k ?_
      simp only [mem_append, mem_cons] at hk ⊢
      tauto
  · intro k hk hroot
    rcases h.reached k hk hroot with hv | ⟨s, hs, hsk⟩
    · exact .inl (mem_append_left _ hv)
    · rcases mem_cons.mp hs with rfl | hs
      · rcases hchildren.below k hk hsk with rfl | ⟨c, hc, hck⟩
        · exact .inl (by simp)
        · exact .inr ⟨c, mem_append_left _ hc, hck⟩
      · exact .inr ⟨s, mem_append_right _ hs, hsk⟩

/-- At the end every key below a root has been visited, once. -/
theorem Before.finish (h : Before parent there roots visited []) :
    visited.Nodup ∧ ∀ k, k ∈ visited ↔ there k ∧ ∃ r ∈ roots, Under parent r k := by
  constructor
  · refine h.ordered.imp ?_
    rintro a b hnot rfl
    exact hnot .self
  · intro k
    refine ⟨fun hk => h.below k (.inl hk), fun hk => ?_⟩
    rcases h.reached k hk.1 hk.2 with hv | ⟨s, hs, -⟩
    · exact hv
    · cases hs

-- ==== after what is below

/-- An entry of the stack that is marked stands for its key alone, the
others for what is below theirs. -/
def Covers (parent : κ → Option κ) (entry : κ × Bool) (k : κ) : Prop :=
  if entry.2 then k = entry.1 else Under parent entry.1 k

/-- A traversal of what is below the roots, each key after all that is
below it: `visited` in order, and the stack with its marks. -/
structure After (parent : κ → Option κ) (there : κ → Prop) (roots : List κ)
    (visited : List κ) (stack : List (κ × Bool)) : Prop where
  ordered : visited.Pairwise fun a b => ¬ Under parent a b
  apart : stack.Pairwise fun s t =>
    ¬ Under parent s.1 t.1 ∧ (t.2 = false → ¬ Under parent t.1 s.1)
  behind : ∀ s ∈ stack, ∀ v ∈ visited, ¬ Under parent v s.1 ∧ (s.2 = false → ¬ Under parent s.1 v)
  below : ∀ k, k ∈ visited ∨ k ∈ stack.map Prod.fst →
    there k ∧ ∃ r ∈ roots, Under parent r k
  reached : ∀ k, there k → (∃ r ∈ roots, Under parent r k) →
    k ∈ visited ∨ ∃ s ∈ stack, Covers parent s k

theorem After.start (hapart : roots.Pairwise (Apart parent)) (hroots : ∀ r ∈ roots, there r) :
    After parent there roots [] (roots.map fun r => (r, false)) where
  ordered := .nil
  apart := by
    rw [pairwise_map]
    exact hapart.imp fun h => ⟨h.1, fun _ => h.2⟩
  behind := fun _ _ _ hv => by cases hv
  below := by
    intro k hk
    rcases hk with hk | hk
    · cases hk
    · simp only [map_map, Function.comp_def, map_id'] at hk
      exact ⟨hroots k hk, k, hk, .self⟩
  reached := by
    rintro k - ⟨r, hr, hrk⟩
    exact .inr ⟨(r, false), mem_map_of_mem hr, hrk⟩

/-- The key on the top goes back, marked, under its children. -/
theorem After.descend (hacyclic : Acyclic parent)
    (h : After parent there roots visited ((a, false) :: marked))
    (hchildren : Children parent there a children) :
    After parent there roots visited
      (children.map (fun c => (c, false)) ++ (a, true) :: marked) := by
  obtain ⟨htop, hrest⟩ := pairwise_cons.mp h.apart
  obtain ⟨hthere, r, hr, hra⟩ := h.below a (.inr (by simp))
  have hchild : ∀ c ∈ children, Under parent a c := fun c hc =>
    .of_parent (hchildren.hang c hc)
  refine ⟨h.ordered, ?_, ?_, ?_, ?_⟩
  · refine pairwise_append.mpr ⟨?_, pairwise_cons.mpr ⟨?_, hrest⟩, ?_⟩
    · rw [pairwise_map]
      exact (hchildren.apart hacyclic).imp fun h => ⟨h.1, fun _ => h.2⟩
    · exact fun t ht => ⟨(htop t ht).1, (htop t ht).2⟩
    · intro s hs t ht
      obtain ⟨c, hc, rfl⟩ := mem_map.mp hs
      rcases mem_cons.mp ht with rfl | ht
      · exact ⟨hacyclic _ _ (hchildren.hang c hc), fun hmark => by cases hmark⟩
      · obtain ⟨hat, hta⟩ := htop t ht
        refine ⟨fun hct => hat ((hchild c hc).trans hct), fun hmark => ?_⟩
        refine not_under_child (hchildren.hang c hc) ?_ (hta hmark)
        intro htc
        exact hat (htc ▸ hchild c hc)
  · intro s hs v hv
    obtain ⟨hva, hav⟩ := h.behind (a, false) mem_cons_self v hv
    rcases mem_append.mp hs with hs | hs
    · obtain ⟨c, hc, rfl⟩ := mem_map.mp hs
      refine ⟨not_under_child (hchildren.hang c hc) ?_ hva, fun _ hcv => ?_⟩
      · intro hvc
        exact hav rfl (hvc ▸ hchild c hc)
      · exact hav rfl ((hchild c hc).trans hcv)
    · rcases mem_cons.mp hs with rfl | hs
      · exact ⟨hva, fun hmark => by cases hmark⟩
      · exact h.behind s (mem_cons_of_mem _ hs) v hv
  · intro k hk
    by_cases hnew : k ∈ children
    · exact ⟨hchildren.stand k hnew, r, hr, hra.trans (hchild k hnew)⟩
    · refine h.below k ?_
      simp only [map_append, map_map, Function.comp_def, map_id',
        map_cons, mem_append, mem_cons] at hk ⊢
      tauto
  · intro k hk hroot
    rcases h.reached k hk hroot with hv | ⟨s, hs, hsk⟩
    · exact .inl hv
    · rcases mem_cons.mp hs with rfl | hs
      · rcases hchildren.below k hk hsk with rfl | ⟨c, hc, hck⟩
        · exact .inr ⟨(k, true), by simp, rfl⟩
        · exact .inr ⟨(c, false), mem_append_left _ (mem_map_of_mem hc), hck⟩
      · exact .inr ⟨s, mem_append_right _ (mem_cons_of_mem _ hs), hsk⟩

/-- The key on the top is visited, if it is marked or has nothing below
it. -/
theorem After.visit {mark : Bool} (h : After parent there roots visited ((a, mark) :: marked))
    (hleaf : mark = false → ∀ k, there k → Under parent a k → k = a) :
    After parent there roots (visited ++ [a]) marked := by
  obtain ⟨htop, hrest⟩ := pairwise_cons.mp h.apart
  refine ⟨?_, hrest, ?_, ?_, ?_⟩
  · refine pairwise_append.mpr ⟨h.ordered, pairwise_singleton _ _, ?_⟩
    intro v hv b hb
    rw [mem_singleton.mp hb]
    exact (h.behind (a, mark) mem_cons_self v hv).1
  · intro s hs v hv
    rcases mem_append.mp hv with hv | hv
    · exact h.behind s (mem_cons_of_mem _ hs) v hv
    · rw [mem_singleton.mp hv]
      exact htop s hs
  · intro k hk
    refine h.below k ?_
    simp only [mem_append, map_cons, mem_cons] at hk ⊢
    tauto
  · intro k hk hroot
    rcases h.reached k hk hroot with hv | ⟨s, hs, hsk⟩
    · exact .inl (mem_append_left _ hv)
    · rcases mem_cons.mp hs with rfl | hs
      · refine .inl ?_
        have heq : k = a := by
          cases mark with
          | true => exact hsk
          | false => exact hleaf rfl k hk hsk
        simp [heq]
      · exact .inr ⟨s, hs, hsk⟩

theorem After.finish (h : After parent there roots visited []) :
    visited.Nodup ∧ ∀ k, k ∈ visited ↔ there k ∧ ∃ r ∈ roots, Under parent r k := by
  constructor
  · refine h.ordered.imp ?_
    rintro a b hnot rfl
    exact hnot .self
  · intro k
    refine ⟨fun hk => h.below k (.inl hk), fun hk => ?_⟩
    rcases h.reached k hk.1 hk.2 with hv | ⟨s, hs, -⟩
    · exact hv
    · cases hs

-- ==== sizes

open scoped Classical in
/-- How many of the keys are below one. -/
noncomputable def size (parent : κ → Option κ) (keys : List κ) (a : κ) : Nat :=
  keys.countP fun k => Under parent a k

theorem size_le (keys : List κ) : size parent keys a ≤ keys.length := countP_le_length

open scoped Classical in
theorem size_cons (keys : List κ) :
    size parent (k :: keys) a = size parent keys a + if Under parent a k then 1 else 0 := by
  unfold size
  rw [countP_cons]
  simp

open scoped Classical in
/-- A key is below at most one of some that are apart. -/
theorem sum_above_le (hapart : children.Pairwise (Apart parent)) (k : κ) :
    (children.map fun c => if Under parent c k then 1 else 0).sum ≤ 1 := by
  induction children with
  | nil => simp
  | cons c rest ih =>
    obtain ⟨hc, hrest⟩ := pairwise_cons.mp hapart
    rw [map_cons, sum_cons]
    by_cases hck : Under parent c k
    · have hnone : (rest.map fun c => if Under parent c k then 1 else 0).sum = 0 := by
        rw [sum_eq_zero]
        intro n hn
        obtain ⟨d, hd, rfl⟩ := mem_map.mp hn
        exact if_neg fun hdk => (hc d hd).disjoint hck hdk
      rw [if_pos hck, hnone]
    · rw [if_neg hck, Nat.zero_add]
      exact ih hrest

open scoped Classical in
/-- What is below the children of a key, and the key itself, are below
it. -/
theorem sum_size_add_le (hacyclic : Acyclic parent) (hapart : children.Pairwise (Apart parent))
    (hhang : ∀ c ∈ children, parent c = some a) (keys : List κ) :
    (children.map (size parent keys)).sum + keys.countP (fun k => k = a) ≤ size parent keys a := by
  induction keys with
  | nil =>
    have hnone : (children.map (size parent [])).sum = 0 := by
      rw [sum_eq_zero]
      intro n hn
      obtain ⟨c, -, rfl⟩ := mem_map.mp hn
      rfl
    rw [hnone]
    exact Nat.zero_le _
  | cons k keys ih =>
    have hone : (children.map fun c => if Under parent c k then 1 else 0).sum
        + (if k = a then 1 else 0) ≤ if Under parent a k then 1 else 0 := by
      by_cases habove : ∃ c ∈ children, Under parent c k
      · obtain ⟨c, hc, hck⟩ := habove
        have hne : k ≠ a := fun heq => hacyclic _ _ (hhang c hc) (heq ▸ hck)
        rw [if_neg hne, if_pos ((Under.of_parent (hhang c hc)).trans hck)]
        exact sum_above_le hapart k
      · have hnone : (children.map fun c => if Under parent c k then 1 else 0).sum = 0 := by
          rw [sum_eq_zero]
          intro n hn
          obtain ⟨c, hc, rfl⟩ := mem_map.mp hn
          exact if_neg fun hck => habove ⟨c, hc, hck⟩
        rw [hnone, Nat.zero_add]
        by_cases hka : k = a
        · rw [if_pos hka, if_pos (hka ▸ .self)]
        · rw [if_neg hka]
          exact Nat.zero_le _
    have hsum : (children.map (size parent (k :: keys))).sum = (children.map (size parent keys)).sum
          + (children.map fun c => if Under parent c k then 1 else 0).sum := by
      rw [← sum_map_add]
      exact congrArg List.sum (map_congr_left fun c _ => size_cons keys)
    rw [hsum, size_cons, countP_cons]
    simp only [decide_eq_true_eq]
    omega

/-- There is less below the children of a key than below it. -/
theorem sum_size_lt (hacyclic : Acyclic parent) (hapart : children.Pairwise (Apart parent))
    (hhang : ∀ c ∈ children, parent c = some a) {keys : List κ} (ha : a ∈ keys) :
    (children.map (size parent keys)).sum < size parent keys a := by
  classical
  have hone : 0 < keys.countP (fun k => k = a) := countP_pos_iff.mpr ⟨a, ha, decide_eq_true rfl⟩
  have := sum_size_add_le hacyclic hapart hhang keys
  omega

end Forest
