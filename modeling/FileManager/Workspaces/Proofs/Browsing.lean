/-
A tab's history is a browser's: the locations visited, in order, and the
one shown.

# The two stacks

`back` holds what comes before the location, `forward`, reversed, what
comes after it. Each navigation pops one stack and pushes the location
onto the other, unless the stack ends in it. It never does: neighbours
differ, as only a push puts two next to each other. So suppressing a
duplicate and trimming to the bound happen on a push alone, and going
back and forth loses nothing.
-/
import FileManager.Workspaces.Model
import Mathlib.Data.List.Chain

namespace FileManager.Workspaces

open TabState List

variable {stack : List TabLocation} {location : TabLocation} {history : NavigationHistory}

-- ==== the browser

/-- A navigation that moves through the history. -/
inductive Visit
  | push (location : TabLocation)
  | back
  | forward

/-- What a browser keeps: the locations visited, and which is shown. -/
structure Browser where
  visited : List TabLocation
  current : Nat

/-- A visit forgets what lies ahead, and with time the oldest. -/
def Browser.push (browser : Browser) (location : TabLocation) : Browser :=
  let kept := browser.visited.take (browser.current + 1)
  let visited := if kept.getLast? = some location then kept else kept ++ [location]
  let excess := visited.length - (maxNavigationHistoryLen + 1)
  { visited := visited.drop excess, current := visited.length - excess - 1 }

def Browser.step (browser : Browser) : Visit → Browser
  | .push location => browser.push location
  | .back => { browser with current := browser.current - 1 }
  | .forward =>
    { browser with current := min (browser.current + 1) (browser.visited.length - 1) }

/-- Neighbours differ, and the bound is kept. -/
structure Browser.Traced (browser : Browser) : Prop where
  apart : browser.visited.IsChain (· ≠ ·)
  bounded : browser.visited.length ≤ maxNavigationHistoryLen + 1

-- ==== the tab

def TabState.browser (tab : TabState) : Browser where
  visited := tab.history.back ++ tab.location :: tab.history.forward.reverse
  current := tab.history.back.length

def Visit.navigate (tab : TabState) : Visit → Except WorkspaceError TabState
  | .push location => Workspaces.navigate (some location) .push tab
  | .back => Workspaces.navigate none .back tab
  | .forward => Workspaces.navigate none .forward tab

/-- Only where the tab is changes. -/
def TabState.SameBut (tab tab' : TabState) : Prop :=
  tab' = { tab with location := tab'.location, history := tab'.history }

theorem browser_injective {tab tab' : TabState} (h : tab'.browser = tab.browser)
    (hsame : tab.SameBut tab') : tab' = tab := by
  simp only [browser, Browser.mk.injEq] at h
  obtain ⟨hback, hrest⟩ := append_inj h.1 h.2
  rw [List.cons.injEq, reverse_inj] at hrest
  rw [hsame]
  cases tab with
  | mk id location titleOverride history view pinned =>
    obtain ⟨back, forward⟩ := history
    simp only at hback hrest ⊢
    rw [← hback, ← hrest.1, ← hrest.2]

-- ==== the stacks

theorem pushHistoryEntry_of_apart (h : (stack ++ [location]).IsChain (· ≠ ·)) :
    pushHistoryEntry stack location = stack ++ [location] := by
  refine if_neg fun hlast => ?_
  exact (isChain_append.mp h).2.2 location hlast location rfl rfl

theorem repeat_dropOldest {n : Nat} (hn : n ≤ history.back.length) :
    Nat.repeat dropOldest n history = { history with back := history.back.drop n } := by
  induction n with
  | zero => rfl
  | succ n ih =>
    show dropOldest (Nat.repeat dropOldest n history) = _
    rw [ih (by omega)]
    have hcons := drop_eq_getElem_cons (show n < history.back.length by omega)
    simp only [dropOldest, hcons]

theorem enforceHistoryBound_of_le
    (h : history.back.length + history.forward.length ≤ maxNavigationHistoryLen) :
    enforceHistoryBound history = history := by
  rw [enforceHistoryBound, Nat.sub_eq_zero_of_le h]
  rfl

-- ==== one navigation

variable {tab : TabState}

theorem eq_dropLast_append {target : TabLocation}
    (h : stack.getLast? = some target) : stack = stack.dropLast ++ [target] :=
  (dropLast_append_getLast? target h).symm

theorem navigate_back (h : tab.browser.Traced) :
    ∃ tab', Visit.navigate tab .back = .ok tab'
      ∧ tab'.browser = tab.browser.step .back ∧ tab.SameBut tab' := by
  unfold Visit.navigate navigate
  simp only
  split
  case h_1 hempty =>
    rw [List.getLast?_eq_none_iff] at hempty
    exact ⟨tab, rfl, by simp [Browser.step, browser, hempty], rfl⟩
  case h_2 target htarget =>
    have hsplit := eq_dropLast_append htarget
    obtain ⟨hapart, hbounded⟩ := h
    simp only [browser] at hapart hbounded
    have hnext : (tab.history.forward ++ [tab.location]).IsChain (· ≠ ·) := by
      have hahead := hapart.right_of_append
      rw [← isChain_reverse, reverse_append, reverse_singleton]
      simpa [flip, ne_comm] using hahead
    refine ⟨_, rfl, ?_, rfl⟩
    rw [pushHistoryEntry_of_apart hnext, enforceHistoryBound_of_le ?_]
    · simp only [browser, Browser.step, length_dropLast, Browser.mk.injEq, and_true]
      conv_rhs => rw [hsplit]
      simp
    · simp only [length_append, length_cons, length_reverse,
        length_dropLast, length_nil] at hbounded ⊢
      have hpos := congrArg List.length hsplit
      simp only [length_append, length_cons, length_nil] at hpos
      omega

theorem navigate_forward (h : tab.browser.Traced) :
    ∃ tab', Visit.navigate tab .forward = .ok tab'
      ∧ tab'.browser = tab.browser.step .forward ∧ tab.SameBut tab' := by
  unfold Visit.navigate navigate
  simp only
  split
  case h_1 hempty =>
    rw [List.getLast?_eq_none_iff] at hempty
    exact ⟨tab, rfl, by simp [Browser.step, browser, hempty], rfl⟩
  case h_2 target htarget =>
    have hsplit := eq_dropLast_append htarget
    obtain ⟨hapart, hbounded⟩ := h
    simp only [browser] at hapart hbounded
    have hall : (tab.history.back ++ [tab.location]
        ++ tab.history.forward.reverse).IsChain (· ≠ ·) := by
      simpa using hapart
    have hnext := hall.left_of_append
    refine ⟨_, rfl, ?_, rfl⟩
    have hpos := congrArg List.length hsplit
    simp only [length_append, length_cons, length_nil] at hpos
    rw [pushHistoryEntry_of_apart hnext, enforceHistoryBound_of_le ?_]
    · simp only [browser, Browser.step, Browser.mk.injEq]
      refine ⟨?_, by simp; omega⟩
      conv_rhs => rw [hsplit]
      simp
    · simp only [length_append, length_cons, length_reverse,
        length_dropLast, length_nil] at hbounded ⊢
      omega

/-- What a push leaves behind the new location, before it forgets. -/
def TabState.behind (tab : TabState) (location : TabLocation) : List TabLocation :=
  if tab.location = location then tab.history.back else tab.history.back ++ [tab.location]

/-- How much of it is too much. -/
def TabState.excess (tab : TabState) (location : TabLocation) : Nat :=
  (tab.behind location).length - maxNavigationHistoryLen

theorem behind_append (tab : TabState) (location : TabLocation) :
    pushHistoryEntry (tab.history.back ++ [tab.location]) location
      = tab.behind location ++ [location] := by
  unfold pushHistoryEntry behind
  rw [List.getLast?_concat]
  by_cases hsame : tab.location = location <;> simp [hsame]

theorem shown_apart (h : tab.browser.Traced) :
    (tab.history.back ++ [tab.location]).IsChain (· ≠ ·)
      ∧ tab.history.back.length ≤ maxNavigationHistoryLen := by
  obtain ⟨hapart, hbounded⟩ := h
  have hall : (tab.history.back ++ [tab.location]
      ++ tab.history.forward.reverse).IsChain (· ≠ ·) := by
    simpa [browser] using hapart
  simp only [browser, length_append, length_cons] at hbounded
  exact ⟨hall.left_of_append, by omega⟩

theorem navigate_push (h : tab.browser.Traced) (location : TabLocation) :
    Visit.navigate tab (.push location) = .ok { tab with
      location := location
      history := {
        back := (tab.behind location).drop (tab.excess location)
        forward := [] } } := by
  have hbehind : (if tab.location = location then tab.history.back
      else pushHistoryEntry tab.history.back tab.location) = tab.behind location := by
    rw [pushHistoryEntry_of_apart (shown_apart h).1]
    rfl
  have hbound : enforceHistoryBound { back := tab.behind location, forward := [] }
      = { back := (tab.behind location).drop (tab.excess location), forward := [] } :=
    repeat_dropOldest (Nat.sub_le _ _)
  simp only [Visit.navigate, navigate, hbehind, hbound]

theorem forgotten_prefix (h : tab.browser.Traced) (location : TabLocation) :
    (tab.behind location).take (tab.excess location) <+: tab.history.back := by
  have hlength := (shown_apart h).2
  unfold excess behind
  by_cases hsame : tab.location = location
  · rw [if_pos hsame]
    exact take_prefix _ _
  · rw [if_neg hsame, length_append, length_singleton,
      take_append_of_le_length (by rw [maxNavigationHistoryLen]; omega)]
    exact take_prefix _ _

theorem push_browser :
    browser { tab with
      location := location
      history := {
        back := (tab.behind location).drop (tab.excess location)
        forward := [] } } = tab.browser.push location := by
  have htake : tab.browser.visited.take (tab.browser.current + 1)
      = tab.history.back ++ [tab.location] := by
    simp [browser, take_append, take_of_length_le]
  have hkept := behind_append tab location
  rw [pushHistoryEntry] at hkept
  rw [Browser.push, htake]
  simp only [hkept, browser, length_append, length_singleton,
    Nat.add_sub_add_right, reverse_nil, length_drop, Browser.mk.injEq]
  have hle : tab.excess location ≤ (tab.behind location).length := Nat.sub_le _ _
  refine ⟨(drop_append_of_le_length hle).symm, ?_⟩
  unfold excess
  omega

theorem navigate_step (h : tab.browser.Traced) (visit : Visit) :
    ∃ tab', visit.navigate tab = .ok tab' ∧ tab'.browser = tab.browser.step visit
      ∧ tab.SameBut tab' := by
  cases visit with
  | push location => exact ⟨_, navigate_push h location, push_browser, rfl⟩
  | back => exact navigate_back h
  | forward => exact navigate_forward h

theorem Browser.Traced.step {browser : Browser} (h : browser.Traced) (visit : Visit) :
    (browser.step visit).Traced := by
  cases visit with
  | push location =>
    refine ⟨List.IsChain.drop ?_ _, ?_⟩
    · split
      case isTrue => exact h.apart.take _
      case isFalse hlast =>
        refine (h.apart.take _).append (isChain_singleton _) ?_
        intro last hmem first hfirst
        cases hfirst
        intro heq
        subst heq
        exact hlast hmem
    · simp only [Browser.step, Browser.push, length_drop]
      omega
  | back | forward => exact ⟨h.apart, h.bounded⟩

-- ==== inverse steps

theorem undone {visit undo : Visit} (h : tab.browser.Traced)
    (hundo : (tab.browser.step visit) ≠ tab.browser →
      (tab.browser.step visit).step undo = tab.browser) :
    ∃ tab' tab'', visit.navigate tab = .ok tab' ∧ undo.navigate tab' = .ok tab''
      ∧ ((tab' ≠ tab ∧ tab'' = tab) ↔ tab.browser.step visit ≠ tab.browser) := by
  obtain ⟨tab', hnavigate, hbrowser, hsame⟩ := navigate_step h visit
  have hstep := h.step visit
  rw [← hbrowser] at hstep hundo ⊢
  obtain ⟨tab'', hnavigate', hbrowser', hsame'⟩ := navigate_step hstep undo
  refine ⟨tab', tab'', hnavigate, hnavigate', ?_, ?_⟩
  · intro hboth hsameBrowser
    exact hboth.1 (browser_injective hsameBrowser hsame)
  · intro hmoved
    refine ⟨fun heq => hmoved (congrArg _ heq), ?_⟩
    refine browser_injective (hbrowser'.trans (hundo hmoved)) ?_
    rw [TabState.SameBut, hsame', hsame]

theorem step_back_ne : tab.browser.step .back ≠ tab.browser ↔ tab.history.back ≠ [] := by
  rw [not_iff_not, Browser.step, browser, Browser.mk.injEq, ← length_eq_zero_iff]
  simp only [true_and]
  omega

theorem step_forward_ne : tab.browser.step .forward ≠ tab.browser ↔ tab.history.forward ≠ [] := by
  rw [not_iff_not, Browser.step, browser, Browser.mk.injEq, ← length_eq_zero_iff]
  simp only [true_and, length_append, length_cons, length_reverse]
  omega

theorem back_then_forward (h : tab.browser.Traced) :
    ∃ tab' tab'', Visit.navigate tab .back = .ok tab' ∧ Visit.navigate tab' .forward = .ok tab''
      ∧ ((tab' ≠ tab ∧ tab'' = tab) ↔ tab.history.back ≠ []) := by
  rw [← step_back_ne]
  refine undone h fun hmoved => ?_
  have hpos := length_pos_iff.mpr (step_back_ne.mp hmoved)
  simp only [Browser.step, browser, length_append, length_cons, Browser.mk.injEq, true_and]
  omega

theorem forward_then_back (h : tab.browser.Traced) :
    ∃ tab' tab'', Visit.navigate tab .forward = .ok tab' ∧ Visit.navigate tab' .back = .ok tab''
      ∧ ((tab' ≠ tab ∧ tab'' = tab) ↔ tab.history.forward ≠ []) := by
  rw [← step_forward_ne]
  refine undone h fun hmoved => ?_
  have hpos := length_pos_iff.mpr (step_forward_ne.mp hmoved)
  simp only [Browser.step, browser, length_append, length_cons,
    length_reverse, Browser.mk.injEq, true_and]
  omega

-- ==== runs

/-- The tab before its first navigation. -/
def TabState.unvisited (tab : TabState) : TabState :=
  { tab with history := { back := [], forward := [] } }

/-- What navigation does to a tab whose history is a browser's. -/
structure TabState.Zipper (tab : TabState) : Prop where
  traced : tab.browser.Traced
  step : ∀ visit, ∃ tab', visit.navigate tab = .ok tab'
    ∧ tab'.browser = tab.browser.step visit ∧ tab.SameBut tab'
  push : ∀ location, ∃ tab' dropped, Visit.navigate tab (.push location) = .ok tab'
    ∧ tab'.location = location ∧ tab'.history.forward = []
    ∧ dropped ++ tab'.browser.visited
      = pushHistoryEntry (tab.history.back ++ [tab.location]) location
    ∧ dropped <+: tab.history.back
    ∧ (dropped ≠ [] → tab'.browser.visited.length = maxNavigationHistoryLen + 1)
  back_forward : ∃ tab' tab'', Visit.navigate tab .back = .ok tab'
    ∧ Visit.navigate tab' .forward = .ok tab''
    ∧ ((tab' ≠ tab ∧ tab'' = tab) ↔ tab.history.back ≠ [])
  forward_back : ∃ tab' tab'', Visit.navigate tab .forward = .ok tab'
    ∧ Visit.navigate tab' .back = .ok tab''
    ∧ ((tab' ≠ tab ∧ tab'' = tab) ↔ tab.history.forward ≠ [])

theorem push_forgets (h : tab.browser.Traced) (location : TabLocation) :
    ∃ tab' dropped, Visit.navigate tab (.push location) = .ok tab'
      ∧ tab'.location = location ∧ tab'.history.forward = [] ∧ dropped ++ tab'.browser.visited
        = pushHistoryEntry (tab.history.back ++ [tab.location]) location
      ∧ dropped <+: tab.history.back
      ∧ (dropped ≠ [] → tab'.browser.visited.length = maxNavigationHistoryLen + 1) := by
  refine ⟨_, (tab.behind location).take (tab.excess location), navigate_push h location,
    rfl, rfl, ?_, forgotten_prefix h location, fun hdropped => ?_⟩
  · rw [behind_append]
    simp [browser, ← append_assoc]
  · have hexcess : tab.excess location ≠ 0 := fun hzero => hdropped (by rw [hzero]; rfl)
    simp only [browser, length_append, length_drop, reverse_nil, length_singleton]
    unfold excess at hexcess ⊢
    omega

theorem zipper_of_traced (h : tab.browser.Traced) : tab.Zipper where
  traced := h
  step := navigate_step h
  push := push_forgets h
  back_forward := back_then_forward h
  forward_back := forward_then_back h

theorem run_browser (h : tab.browser.Traced) (visits : List Visit) :
    ∃ tab', visits.foldlM Visit.navigate tab = .ok tab'
      ∧ tab'.browser = visits.foldl Browser.step tab.browser
      ∧ tab.SameBut tab' ∧ tab'.browser.Traced := by
  induction visits generalizing tab with
  | nil => exact ⟨tab, rfl, rfl, rfl, h⟩
  | cons visit rest ih =>
    obtain ⟨next, hnavigate, hbrowser, hsame⟩ := navigate_step h visit
    have hstep := h.step visit
    rw [← hbrowser] at hstep
    obtain ⟨tab', hrun, hrest, hsame', htraced⟩ := ih hstep
    refine ⟨tab', ?_, ?_, ?_, htraced⟩
    · rw [foldlM_cons, hnavigate]
      exact hrun
    · rw [foldl_cons, ← hbrowser]
      exact hrest
    · rw [TabState.SameBut, hsame', hsame]

/-- From an empty history, every run of navigations is the browser's, and
leaves a history that navigations go on to treat as one. -/
theorem history_is_zipper (tab : TabState) (visits : List Visit) :
    ∃ tab', visits.foldlM Visit.navigate tab.unvisited = .ok tab'
      ∧ tab'.browser = visits.foldl Browser.step tab.unvisited.browser
      ∧ tab.SameBut tab' ∧ tab'.Zipper := by
  have htraced : tab.unvisited.browser.Traced := by
    refine ⟨List.isChain_singleton _, ?_⟩
    simp [unvisited, browser]
  obtain ⟨tab', hrun, hbrowser, hsame, hzipper⟩ := run_browser htraced visits
  refine ⟨tab', hrun, hbrowser, ?_, zipper_of_traced hzipper⟩
  rw [TabState.SameBut, hsame]
  rfl

end FileManager.Workspaces
