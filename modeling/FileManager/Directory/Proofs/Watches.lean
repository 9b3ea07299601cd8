/-
How watches are shared.

The counts of the hub are those of the receivers that the tasks of the
panes hold, in every run: a receiver is handed out with the count that
goes with it, and given back once, by the task that holds it. What a
receiver is good for depends on the provider: when its stream ends, the
forwarding task is gone, but the entry stays and serves the panes that
come later (`StreamsLast`).
-/
import FileManager.Directory.Watches
import FileManager.Lib.RefCount

namespace FileManager.Directory.Watches

open Machine (Run Free)
open Tasks (Enumeration)
open Option WatchHub Feed
open Watches.Task (held)
open Function (update update_apply update_self)

-- ==== vocabulary

variable {lowercase : String → String} {tracking : Location → ChangeTracking} {w w' : World}
  {a : Action} {hub hub' : WatchHub} {location other : Location} {kind : ChangeTracking}
  {feed k t : Nat} {watch : SharedWatch} {P : Feed → Prop}

def WatchHub.references (hub : WatchHub) : Location → Option Nat := fun location =>
  (hub.watches location).map SharedWatch.references

/-- Every receiver that is not given back, by its location. -/
def World.holders (w : World) : List Location := w.tasks.filterMap held

/-- The count of an entry is the number of the tasks that hold its
receivers, an entry is there iff there is one, and no count is zero. -/
structure Counted (w : World) : Prop where
  references : ∀ location, (w.hub.references location).getD 0 = w.holders.count location
  present : ∀ location, (w.hub.watches location).isSome = true ↔ 0 < w.holders.count location
  positive : ∀ location watch, w.hub.watches location = some watch → 0 < watch.references

/-- A receiver of an entry whose forwarding task reads a live stream. -/
def Task.Served (hub : WatchHub) (task : Task) : Prop :=
  ∀ location ∈ task.held, ∃ watch feed, hub.watches location = some watch
    ∧ watch.feed = task.feed ∧ hub.feeds[watch.feed]? = some feed
    ∧ feed.cancelled = false ∧ feed.live = true ∧ feed.forwarding = true

/-- Every receiver that was handed out, and is not given back, is served. -/
def ReceiversLive (w : World) : Prop := ∀ task ∈ w.tasks, task.Served w.hub

/-- No stream ends of which the hub has the entry. -/
def StreamsLast (w : World) : Action → Prop
  | .streamEnds k => ∀ feed ∈ w.hub.feeds[k]?, ∀ watch ∈ w.hub.watches feed.location,
      watch.feed ≠ k
  | _ => True

-- ==== the hub

@[simp] theorem put_watches (hub : WatchHub) (location : Location) (watch : Option SharedWatch) :
    (hub.put location watch).watches = update hub.watches location watch := rfl

@[simp] theorem put_feeds (hub : WatchHub) (location : Location) (watch : Option SharedWatch) :
    (hub.put location watch).feeds = hub.feeds := rfl

theorem references_put (hub : WatchHub) (location : Location) (watch : Option SharedWatch) :
    (hub.put location watch).references
      = update hub.references location (watch.map SharedWatch.references) := by
  funext other
  unfold references
  rw [put_watches]
  simp only [update_apply]
  split <;> rfl

/-- What `acquire` does to the entries: those of other locations stay, and
the receiver is of the one that is there now, and was there before. -/
theorem watches_of_acquire {watched : Except VfsError Unit}
    (h : hub.acquire kind location watched = .ok (hub', feed)) :
    ∃ watch, hub'.watches = update hub.watches location (some watch)
      ∧ watch.feed = feed ∧ watch.references = (hub.references location).getD 0 + 1
      ∧ ((∃ old, hub.watches location = some old ∧ old.feed = feed ∧ hub'.feeds = hub.feeds)
        ∨ (hub.watches location = none ∧ feed = hub.feeds.length
          ∧ hub'.feeds = hub.feeds ++ [⟨location, false, true, true⟩])) := by
  unfold WatchHub.acquire at h
  unfold references
  cases hold : hub.watches location with
  | some old =>
    simp only [hold, Except.ok.injEq, Prod.mk.injEq] at h
    obtain ⟨rfl, rfl⟩ := h
    exact ⟨_, rfl, rfl, rfl, .inl ⟨old, rfl, rfl, rfl⟩⟩
  | none =>
    simp only [hold] at h
    cases hopened : openStream kind watched with
    | error error => simp [hopened] at h
    | ok opened =>
      simp only [hopened, Except.ok.injEq, Prod.mk.injEq] at h
      obtain ⟨rfl, rfl⟩ := h
      exact ⟨_, rfl, rfl, rfl, .inr ⟨rfl, rfl, rfl⟩⟩

theorem references_of_acquire {watched : Except VfsError Unit}
    (h : hub.acquire kind location watched = .ok (hub', feed)) :
    hub'.references = RefCount.acquire hub.references location := by
  obtain ⟨watch, hwatches, -, hreferences, -⟩ := watches_of_acquire h
  funext other
  unfold RefCount.acquire
  rw [← hreferences]
  unfold references
  rw [hwatches]
  simp only [update_apply]
  split <;> rfl

theorem references_release (hub : WatchHub) (location : Location) :
    (hub.release location).references = RefCount.release hub.references location := by
  unfold WatchHub.release RefCount.release
  cases hold : hub.watches location with
  | none =>
    have hnone : hub.references location = none := by
      unfold references
      rw [hold]
      rfl
    rw [hnone]
  | some old =>
    have hsome : hub.references location = some old.references := by
      unfold references
      rw [hold]
      rfl
    simp only [hsome]
    split
    case isTrue => exact references_put hub location none
    case isFalse => exact references_put hub location (some _)

theorem references_setActive (hub : WatchHub) (location : Location) (active : Bool) :
    (hub.setActive location active).references = hub.references := by
  unfold setActive
  cases hold : hub.watches location with
  | none => rfl
  | some old =>
    simp only [references_put]
    refine Function.update_eq_self_iff.mpr ?_
    unfold references
    rw [hold]
    rfl

theorem watches_release (h : (hub.release location).watches other = some watch) :
    ∃ old, hub.watches other = some old ∧ old.feed = watch.feed := by
  unfold WatchHub.release at h
  cases hold : hub.watches location with
  | none =>
    rw [hold] at h
    exact ⟨watch, h, rfl⟩
  | some old =>
    simp only [hold] at h
    by_cases hother : other = location
    · subst hother
      split at h
      case isTrue => simp [cancel] at h
      case isFalse =>
        simp only [put_watches, update_self, Option.some.injEq] at h
        exact ⟨old, hold, by rw [← h]⟩
    · refine ⟨watch, ?_, rfl⟩
      split at h
      case isTrue => simpa [cancel, hother] using h
      case isFalse => simpa [hother] using h

theorem watches_setActive {active : Bool}
    (h : (hub.setActive location active).watches other = some watch) :
    ∃ old, hub.watches other = some old ∧ old.feed = watch.feed := by
  unfold setActive at h
  cases hold : hub.watches location with
  | none =>
    rw [hold] at h
    exact ⟨watch, h, rfl⟩
  | some old =>
    simp only [hold] at h
    by_cases hother : other = location
    · subst hother
      simp only [put_watches, update_self, Option.some.injEq] at h
      exact ⟨old, hold, by rw [← h]⟩
    · exact ⟨watch, by simpa [hother] using h, rfl⟩

theorem feeds_setActive (hub : WatchHub) (location : Location) (active : Bool) :
    (hub.setActive location active).feeds = hub.feeds := by
  unfold setActive
  cases hub.watches location <;> rfl

-- ==== the feeds

/-- Every entry has a feed, of its location, of which `P` holds. -/
def Feeds (P : Feed → Prop) (hub : WatchHub) : Prop :=
  ∀ location watch, hub.watches location = some watch →
    ∃ feed, hub.feeds[watch.feed]? = some feed ∧ feed.location = location ∧ P feed

theorem Feeds.modify (h : Feeds P hub) {f : Feed → Feed}
    (hlocation : ∀ feed, (f feed).location = feed.location)
    (hkeep : ∀ feed watch, hub.feeds[k]? = some feed →
      hub.watches feed.location = some watch → watch.feed = k → P feed → P (f feed)) :
    Feeds P { hub with feeds := hub.feeds.modify k f } := by
  intro location watch hwatch
  obtain ⟨feed, hfeed, rfl, hP⟩ := h location watch hwatch
  simp only [List.getElem?_modify, hfeed]
  by_cases hk : k = watch.feed
  · subst hk
    simp only [if_true, map_eq_map, map_some]
    exact ⟨_, rfl, hlocation feed, hkeep feed watch hfeed hwatch rfl hP⟩
  · simp only [hk, if_false, map_eq_map, map_some]
    exact ⟨_, rfl, rfl, hP⟩

theorem Feeds.acquire (h : Feeds P hub)
    {watched : Except VfsError Unit} (hnew : P ⟨location, false, true, true⟩)
    (hacquire : hub.acquire kind location watched = .ok (hub', feed)) : Feeds P hub' := by
  obtain ⟨watch, hwatches, rfl, -, hcase⟩ := watches_of_acquire hacquire
  intro other watch' hwatch'
  rw [hwatches, update_apply] at hwatch'
  split at hwatch'
  case isTrue heq =>
    subst heq
    cases hwatch'
    rcases hcase with ⟨old, hold, hfeed, hfeeds⟩ | ⟨-, hfeed, hfeeds⟩
    · rw [hfeeds, ← hfeed]
      exact h other old hold
    · rw [hfeeds, hfeed]
      exact ⟨_, List.getElem?_concat_length .., rfl, hnew⟩
  case isFalse =>
    obtain ⟨feed, hfeed, hlocation, hP⟩ := h other watch' hwatch'
    rcases hcase with ⟨_, _, _, hfeeds⟩ | ⟨-, -, hfeeds⟩
    · exact ⟨feed, by rw [hfeeds]; exact hfeed, hlocation, hP⟩
    · refine ⟨feed, ?_, hlocation, hP⟩
      rw [hfeeds, List.getElem?_append_left (List.getElem?_eq_some_iff.mp hfeed).1]
      exact hfeed

theorem Feeds.of_watches (h : Feeds P hub) (hfeeds : hub'.feeds = hub.feeds)
    (hwatches : ∀ location watch, hub'.watches location = some watch →
      ∃ old, hub.watches location = some old ∧ old.feed = watch.feed) : Feeds P hub' := by
  intro location watch hwatch
  obtain ⟨old, hold, heq⟩ := hwatches location watch hwatch
  rw [hfeeds, ← heq]
  exact h location old hold

theorem Feeds.setActive (h : Feeds P hub) (location : Location) (active : Bool) :
    Feeds P (hub.setActive location active) :=
  h.of_watches (feeds_setActive hub location active) fun _ _ => watches_setActive

theorem Feeds.release (h : Feeds P hub) (location : Location) : Feeds P (hub.release location) := by
  cases hold : hub.watches location with
  | none =>
    unfold WatchHub.release
    rw [hold]
    exact h
  | some old =>
    by_cases hzero : old.references - 1 = 0
    · have hremoved : Feeds P (hub.put location none) := by
        intro other watch hwatch
        simp only [put_watches, update_apply] at hwatch
        split at hwatch
        case isTrue => cases hwatch
        case isFalse => exact h other watch hwatch
      have hcancel : Feeds P ((hub.put location none).cancel old.feed) := by
        refine hremoved.modify (fun _ => rfl) fun feed watch hfeed hwatch heq _ => ?_
        -- the feed is of the location that has no entry any more
        obtain ⟨feed', hfeed', hlocation, -⟩ := h location old hold
        obtain rfl : feed = feed' := Option.some.inj (hfeed.symm.trans hfeed')
        rw [hlocation, put_watches, update_self] at hwatch
        cases hwatch
      unfold WatchHub.release
      simp only [hold, if_pos hzero]
      exact hcancel
    · have hfeeds : (hub.release location).feeds = hub.feeds := by
        unfold WatchHub.release
        simp only [hold, if_neg hzero, put_feeds]
      exact h.of_watches hfeeds fun _ _ => watches_release

-- ==== the steps

/-- What a step does to the hub and the tasks. -/
inductive Effect (tracking : Location → ChangeTracking) (w : World) (a : Action) (w' : World) :
    Prop
  | apart (hhub : w'.hub = w.hub) (htasks : w'.tasks = w.tasks)
  | acquired (location : Location) (watched : Except VfsError Unit) (task : Task)
      (hacquire : w.hub.acquire (tracking location) location watched = .ok (w'.hub, task.feed))
      (hheld : task.held = some location) (htasks : w'.tasks = w.tasks ++ [task])
  | moved (t : Nat) (task : Task) (phase : TaskPhase) (htask : w.tasks[t]? = some task)
      (hheld : held { task with phase := phase } = task.held) (hhub : w'.hub = w.hub)
      (htasks : w'.tasks = w.tasks.set t { task with phase := phase })
  | released (t : Nat) (task : Task) (htask : w.tasks[t]? = some task)
      (hheld : task.held = some task.location) (hhub : w'.hub = w.hub.release task.location)
      (htasks : w'.tasks = w.tasks.set t { task with phase := .released })
  | active (location : Location) (active : Bool)
      (hhub : w'.hub = w.hub.setActive location active) (htasks : w'.tasks = w.tasks)
  | ends (k : Nat) (feed : Feed) (ha : a = .streamEnds k) (hfeed : w.hub.feeds[k]? = some feed)
      (hlive : feed.live = true) (hhub : w'.hub = w.hub.ends k) (htasks : w'.tasks = w.tasks)
  | stops (k : Nat) (feed : Feed) (hfeed : w.hub.feeds[k]? = some feed)
      (hstopping : feed.stopping = true) (hhub : w'.hub = w.hub.stops k)
      (htasks : w'.tasks = w.tasks)

theorem effect_of_callStep {i : Nat} {call : Call}
    (h : callStep lowercase tracking a w i call = some w') : Effect tracking w a w' := by
  cases a with
  | enumerate _ result =>
    simp only [callStep, enumerate] at h
    split at h
    case h_2 => cases h
    case h_1 cached hphase =>
      split at h
      case isFalse => cases h
      case isTrue =>
        split at h <;> cases h <;> exact .apart rfl rfl
  | commit _ inspected =>
    simp only [callStep, commit] at h
    split at h
    case h_2 => cases h
    case h_1 full offset hphase =>
      split at h
      case h_1 => cases h; exact .apart rfl rfl
      case h_2 state hstate =>
        cases inspected <;> cases h <;> exact .apart rfl rfl
  | acquire _ watched =>
    simp only [callStep, acquire] at h
    split at h
    case h_2 => cases h
    case h_1 snapshot token hphase =>
      split at h
      case h_1 => cases h; exact .apart rfl rfl
      case h_2 hub feed hacquire =>
        cases h
        exact .acquired snapshot.location watched
          ⟨call.pane, snapshot.location, call.request.view, token, feed, .acquired⟩
          hacquire rfl rfl
  | spawn _ =>
    simp only [callStep, spawn] at h
    split at h
    case h_2 => cases h
    case h_1 snapshot t hphase =>
      split at h
      case h_2 => cases h
      case h_1 task htask =>
        split at h
        case h_2 => cases h
        case h_1 htaskPhase =>
          cases h
          refine .moved t task .waiting htask ?_ rfl rfl
          simp only [held, htaskPhase]
  | drop _ =>
    simp only [callStep, drop] at h
    split at h
    case h_4 => cases h
    case h_5 => cases h
    case h_6 => cases h
    all_goals cases h; exact .apart rfl rfl
  | _ => cases h

variable {task : Task}

theorem effect_of_taskStep (htask : w.tasks[t]? = some task)
    (h : taskStep lowercase a w t task = some w') : Effect tracking w a w' := by
  cases a with
  | receive _ change =>
    simp only [taskStep, receive] at h
    split at h
    case h_2 => cases h
    case h_1 hphase =>
      cases h
      exact .moved t task _ htask (by simp only [held, hphase]) rfl rfl
  | leaveCancelled _ =>
    simp only [taskStep, leaveCancelled] at h
    split at h
    case h_2 => cases h
    case h_1 hphase =>
      split at h
      case isFalse => cases h
      case isTrue =>
        cases h
        exact .moved t task _ htask (by simp only [held, hphase]) rfl rfl
  | leaveClosed _ =>
    simp only [taskStep, leaveClosed] at h
    split at h
    case h_2 => cases h
    case h_1 hphase =>
      split at h
      case isTrue => cases h
      case isFalse =>
        cases h
        exact .moved t task _ htask (by simp only [held, hphase]) rfl rfl
  | listed _ result =>
    simp only [taskStep, listed] at h
    split at h
    case h_2 => cases h
    case h_1 change hphase =>
      have hkeep : ∀ phase, held { task with phase := phase } = some task.location →
          held { task with phase := phase } = task.held := by
        intro phase hphase'
        rw [hphase']
        simp only [held, hphase]
      split at h
      case h_1 => cases h; exact .moved t task _ htask (hkeep _ rfl) rfl rfl
      case h_2 => cases h; exact .moved t task _ htask (hkeep _ rfl) rfl rfl
      case h_3 enumeration =>
        split at h
        case isFalse => cases h
        case isTrue => cases h; exact .moved t task _ htask (hkeep _ rfl) rfl rfl
  | store _ =>
    simp only [taskStep, store] at h
    split at h
    case h_2 => cases h
    case h_1 change enumeration hphase =>
      split at h
      all_goals
        cases h
        exact .moved t task _ htask (by simp only [held, hphase]) rfl rfl
  | release _ =>
    simp only [taskStep, release] at h
    split at h
    case h_2 => cases h
    case h_1 hphase =>
      cases h
      exact .released t task htask (by simp only [held, hphase]) rfl rfl
  | _ => cases h

theorem effect_of_apply (h : apply lowercase tracking a w = some w') : Effect tracking w a w' := by
  cases a with
  | request pane request =>
    cases h
    exact .apart rfl rfl
  | setPaneActivity pane active =>
    cases h
    unfold setPaneActivity
    split
    case h_1 => exact .apart rfl rfl
    case h_2 snapshot _ => exact .active snapshot.location active rfl rfl
  | enumerate i | commit i | acquire i | spawn i | drop i =>
    obtain ⟨call, -, hstep⟩ := bind_eq_some_iff.mp h
    exact effect_of_callStep hstep
  | streamEnds k =>
    obtain ⟨feed, hfeed, hstep⟩ := bind_eq_some_iff.mp h
    simp only [feedStep, ite_none_right_eq_some, Option.some.injEq] at hstep
    obtain ⟨hlive, rfl⟩ := hstep
    exact .ends k feed rfl hfeed hlive rfl rfl
  | forwardingEnds k =>
    obtain ⟨feed, hfeed, hstep⟩ := bind_eq_some_iff.mp h
    simp only [feedStep, ite_none_right_eq_some, Option.some.injEq] at hstep
    obtain ⟨hstopping, rfl⟩ := hstep
    exact .stops k feed hfeed hstopping rfl rfl
  | _ =>
    obtain ⟨task, htask, hstep⟩ := bind_eq_some_iff.mp h
    exact effect_of_taskStep htask hstep

-- ==== the invariant

/-- The counts are those of the receivers, no entry's feed is cancelled,
and a receiver is of the entry that its location has. -/
structure Shared (w : World) : Prop where
  counts : RefCount.Counts w.hub.references w.holders
  feeds : Feeds (fun feed => feed.cancelled = false) w.hub
  receivers : ∀ task ∈ w.tasks, ∀ location ∈ task.held,
    ∃ watch, w.hub.watches location = some watch ∧ watch.feed = task.feed

theorem shared_initial : Shared World.initial where
  counts := RefCount.counts_nil
  feeds _ _ h := by cases h
  receivers _ h := by cases h

theorem mem_holders (htask : task ∈ w.tasks) (hheld : task.held = some location) :
    location ∈ w.holders := List.mem_filterMap.mpr ⟨task, htask, hheld⟩

theorem watch_of_held (h : RefCount.Counts w.hub.references w.holders) (htask : task ∈ w.tasks)
    (hheld : task.held = some location) : ∃ watch, w.hub.watches location = some watch := by
  have hpos := List.count_pos_iff.mpr (mem_holders htask hheld)
  have hsome := h.isSome_iff.mpr hpos
  rw [references, isSome_map] at hsome
  exact isSome_iff_exists.mp hsome

theorem Shared.counts_step (h : Shared w) (heffect : Effect tracking w a w') :
    RefCount.Counts w'.hub.references w'.holders := by
  have hcounts := h.counts
  unfold World.holders at hcounts ⊢
  cases heffect with
  | apart hhub htasks => rwa [hhub, htasks]
  | acquired location watched task hacquire hheld htasks =>
    rw [references_of_acquire hacquire, htasks, List.filterMap_append]
    simp only [List.filterMap_cons, List.filterMap_nil, hheld]
    exact (hcounts.acquire location).perm (List.perm_append_singleton _ _).symm
  | moved t task phase htask hheld hhub htasks =>
    rw [hhub, htasks, RefCount.filterMap_set_of_eq htask hheld]
    exact hcounts
  | released t task htask hheld hhub htasks =>
    rw [hhub, htasks, references_release]
    exact (hcounts.perm (RefCount.filterMap_set_perm htask hheld rfl)).release
  | active location active hhub htasks => rwa [hhub, htasks, references_setActive]
  | ends k feed ha hfeed hlive hhub htasks | stops k feed hfeed hstopping hhub htasks =>
    rw [hhub, htasks]
    exact hcounts

theorem Shared.feeds_step (h : Shared w) (heffect : Effect tracking w a w') :
    Feeds (fun feed => feed.cancelled = false) w'.hub := by
  cases heffect with
  | acquired location watched task hacquire hheld htasks => exact h.feeds.acquire rfl hacquire
  | apart hhub htasks | moved t task phase htask hheld hhub htasks => exact hhub ▸ h.feeds
  | released t task htask hheld hhub htasks =>
    rw [hhub]
    exact h.feeds.release _
  | active location active hhub htasks =>
    rw [hhub]
    exact h.feeds.setActive _ _
  | ends k feed ha hfeed hlive hhub htasks | stops k feed hfeed hstopping hhub htasks =>
    rw [hhub]
    exact h.feeds.modify (fun _ => rfl) fun _ _ _ _ _ hcancelled => hcancelled

theorem Shared.receivers_of (h : Shared w) (hcounts : RefCount.Counts w'.hub.references w'.holders)
    (hwatches : ∀ location watch, w'.hub.watches location = some watch →
      ∃ old, w.hub.watches location = some old ∧ old.feed = watch.feed)
    (htasks : ∀ task ∈ w'.tasks, ∀ location ∈ task.held,
      ∃ old ∈ w.tasks, old.held = some location ∧ old.feed = task.feed) :
    ∀ task ∈ w'.tasks, ∀ location ∈ task.held,
      ∃ watch, w'.hub.watches location = some watch ∧ watch.feed = task.feed := by
  intro task htask location hheld
  obtain ⟨watch, hwatch⟩ := watch_of_held hcounts htask hheld
  obtain ⟨old, hold, hfeed⟩ := hwatches location watch hwatch
  obtain ⟨task', htask', hheld', hfeed'⟩ := htasks task htask location hheld
  obtain ⟨watch', hwatch', heq⟩ := h.receivers task' htask' location hheld'
  obtain rfl : old = watch' := Option.some.inj (hold.symm.trans hwatch')
  exact ⟨watch, hwatch, hfeed.symm.trans (heq.trans hfeed')⟩

theorem held_of_set {phase : TaskPhase} (htask : w.tasks[t]? = some task)
    (hheld : ∀ location ∈ held { task with phase := phase }, task.held = some location)
    (htasks : w'.tasks = w.tasks.set t { task with phase := phase }) :
    ∀ task ∈ w'.tasks, ∀ location ∈ task.held,
      ∃ old ∈ w.tasks, old.held = some location ∧ old.feed = task.feed := by
  intro task' htask' location hlocation
  rw [htasks] at htask'
  rcases List.mem_or_eq_of_mem_set htask' with hmem | rfl
  · exact ⟨task', hmem, hlocation, rfl⟩
  · exact ⟨task, List.mem_of_getElem? htask, hheld location hlocation, rfl⟩

theorem Shared.receivers_step (h : Shared w) (heffect : Effect tracking w a w') :
    ∀ task ∈ w'.tasks, ∀ location ∈ task.held,
      ∃ watch, w'.hub.watches location = some watch ∧ watch.feed = task.feed := by
  have hcounts := h.counts_step heffect
  cases heffect with
  | apart hhub htasks
  | ends k feed ha hfeed hlive hhub htasks | stops k feed hfeed hstopping hhub htasks =>
    rw [hhub, htasks]
    exact h.receivers
  | acquired location watched task hacquire hheld htasks =>
    obtain ⟨watch, hwatches, hfeed, -, hcase⟩ := watches_of_acquire hacquire
    intro task' htask' other hother
    rw [htasks, List.mem_append, List.mem_singleton] at htask'
    rw [hwatches]
    rcases htask' with hmem | rfl
    · obtain ⟨old, hold, heq⟩ := h.receivers task' hmem other hother
      by_cases hlocation : other = location
      · -- a second receiver of the same entry
        subst hlocation
        rcases hcase with ⟨old', hold', hfeed', -⟩ | ⟨hnone, -, -⟩
        · obtain rfl : old = old' := Option.some.inj (hold.symm.trans hold')
          refine ⟨watch, update_self .., ?_⟩
          rw [hfeed, ← hfeed', heq]
        · simp [hnone] at hold
      · exact ⟨old, by rw [Function.update_of_ne hlocation]; exact hold, heq⟩
    · rw [hheld] at hother
      cases hother
      exact ⟨watch, update_self .., hfeed⟩
  | moved t task phase htask hheld hhub htasks =>
    refine h.receivers_of hcounts (fun _ watch hwatch => ⟨watch, ?_, rfl⟩)
      (held_of_set htask (fun location hlocation => ?_) htasks)
    · rwa [hhub] at hwatch
    · rw [← hheld]
      exact hlocation
  | released t task htask hheld hhub htasks =>
    refine h.receivers_of hcounts (fun _ watch hwatch => ?_)
      (held_of_set htask (fun location hlocation => ?_) htasks)
    · rw [hhub] at hwatch
      exact watches_release hwatch
    · cases hlocation
  | active location active hhub htasks =>
    refine h.receivers_of hcounts (fun _ watch hwatch => ?_)
      fun task htask location hlocation => ⟨task, htasks ▸ htask, hlocation, rfl⟩
    rw [hhub] at hwatch
    exact watches_setActive hwatch

theorem shared_of_run {ok : World → Action → Prop} {acts : List Action}
    (hrun : Run (apply lowercase tracking) ok World.initial acts w) : Shared w := by
  refine hrun.invariant (P := Shared) shared_initial fun a _ hs h => ?_
  have heffect := effect_of_apply hs
  exact ⟨h.counts_step heffect, h.feeds_step heffect, h.receivers_step heffect⟩

theorem Shared.counted (h : Shared w) : Counted w where
  references := h.counts.getD
  present location := by
    rw [← h.counts.isSome_iff, references, isSome_map]
  positive location watch hwatch :=
    (h.counts.eq_some (n := watch.references) (k := location)
      (by rw [references, hwatch]; rfl)).2

-- ==== the live streams

def Feed.Reading (feed : Feed) : Prop :=
  feed.cancelled = false ∧ feed.live = true ∧ feed.forwarding = true

theorem Feeds.reading_step (h : Feeds Reading w.hub) (hok : StreamsLast w a)
    (heffect : Effect tracking w a w') : Feeds Reading w'.hub := by
  cases heffect with
  | acquired location watched task hacquire hheld htasks =>
    exact h.acquire ⟨rfl, rfl, rfl⟩ hacquire
  | apart hhub htasks | moved t task phase htask hheld hhub htasks => exact hhub ▸ h
  | released t task htask hheld hhub htasks =>
    rw [hhub]
    exact h.release _
  | active location active hhub htasks =>
    rw [hhub]
    exact h.setActive _ _
  | ends k feed ha hfeed hlive hhub htasks =>
    subst ha
    rw [hhub]
    refine h.modify (fun _ => rfl) fun feed' watch hfeed' hwatch hk _ => ?_
    exact absurd hk (hok feed' hfeed' watch hwatch)
  | stops k feed hfeed hstopping hhub htasks =>
    rw [hhub]
    refine h.modify (fun _ => rfl) fun feed' _ hfeed' _ _ hreading => ?_
    -- a task that reads a live stream of an entry has nothing to stop for
    obtain rfl : feed = feed' := Option.some.inj (hfeed.symm.trans hfeed')
    obtain ⟨hcancelled, hlive, -⟩ := hreading
    rw [stopping, hcancelled, hlive, Bool.not_true, Bool.or_self, Bool.and_false]
      at hstopping
    cases hstopping

theorem receiversLive_of_feeds (h : Shared w) (hfeeds : Feeds Reading w.hub) :
    ReceiversLive w := by
  intro task htask location hheld
  obtain ⟨watch, hwatch, hfeed⟩ := h.receivers task htask location hheld
  obtain ⟨feed, hfeed', -, hreading⟩ := hfeeds location watch hwatch
  exact ⟨watch, feed, hwatch, hfeed, hfeed', hreading⟩

theorem Shared.holder (h : Shared w) (hwatch : w.hub.watches location = some watch) :
    ∃ task ∈ w.tasks, task.held = some location ∧ task.feed = watch.feed := by
  have hsome : (w.hub.references location).isSome = true := by
    rw [references, hwatch]
    rfl
  obtain ⟨task, htask, hheld⟩ := List.mem_filterMap.mp
    (List.count_pos_iff.mp (h.counts.isSome_iff.mp hsome))
  obtain ⟨watch', hwatch', hfeed⟩ := h.receivers task htask location hheld
  obtain rfl : watch = watch' := Option.some.inj (hwatch.symm.trans hwatch')
  exact ⟨task, htask, hheld, hfeed.symm⟩

theorem not_receiversLive_of_ends (h : Shared w) (hok : ¬ StreamsLast w (.streamEnds k))
    (hs : apply lowercase tracking (.streamEnds k) w = some w') : ¬ ReceiversLive w' := by
  simp only [StreamsLast, not_forall, not_not, mem_def] at hok
  obtain ⟨feed, hfeed, watch, hwatch, rfl⟩ := hok
  obtain ⟨feed', hfeed', hstep⟩ := bind_eq_some_iff.mp hs
  obtain rfl : feed = feed' := Option.some.inj (hfeed.symm.trans hfeed')
  simp only [feedStep, ite_none_right_eq_some, Option.some.injEq] at hstep
  obtain ⟨hlive, rfl⟩ := hstep
  obtain ⟨task, htask, hheld, heq⟩ := h.holder hwatch
  intro hreceivers
  obtain ⟨watch', ended, hwatch', -, hended, -, hlive', -⟩ :=
    hreceivers task htask feed.location hheld
  obtain rfl : watch = watch' := Option.some.inj (hwatch.symm.trans hwatch')
  have hnow : (w.hub.ends watch.feed).feeds[watch.feed]? = some { feed with live := false } := by
    simp only [ends, List.getElem?_modify_eq, hfeed, map_eq_map, map_some]
  obtain rfl := Option.some.inj (hnow.symm.trans hended)
  cases hlive'

-- ==== runs

/-- The counts of the hub are those of the receivers; and every receiver
is of an entry with a live stream, in the runs in which no stream ends
and in no others. -/
theorem watches_shared (lowercase : String → String) (tracking : Location → ChangeTracking) :
    (∀ acts w, Run (apply lowercase tracking) Free .initial acts w → Counted w)
      ∧ (∀ acts w, Run (apply lowercase tracking) StreamsLast .initial acts w →
          Counted w ∧ ReceiversLive w)
      ∧ ∀ acts w a w', Run (apply lowercase tracking) Free .initial acts w →
          ¬ StreamsLast w a → apply lowercase tracking a w = some w' → ¬ ReceiversLive w' := by
  refine ⟨fun acts w hrun => (shared_of_run hrun).counted, fun acts w hrun => ?_,
    fun acts w a w' hrun hok hs => ?_⟩
  · have hshared := shared_of_run hrun
    have hfeeds : Feeds Reading w.hub :=
      hrun.invariant (P := fun w => Feeds Reading w.hub) (fun _ _ h => by cases h)
        fun a hok hs h => h.reading_step hok (effect_of_apply hs)
    exact ⟨hshared.counted, receiversLive_of_feeds hshared hfeeds⟩
  · cases a with
    | streamEnds k => exact not_receiversLive_of_ends (shared_of_run hrun) hok hs
    | _ => exact absurd trivial hok

-- Two panes that show one directory of a provider with a watch of its own.

def watched : Location := { providerId := "local", uri := { authority := "", segments := ["d"] } }

def firstPage (requestId : RequestId) : ListDirectoryRequest :=
  { requestId := requestId, location := watched, continuationToken := none
    view := { showHidden := true, foldersFirst := false, showGitStatus := false, sort := [] } }

def emptyListing : Except VfsError Enumeration :=
  .ok { location := watched, entries := [], annotated := [] }

/-- A first page for a pane, from the call to the task. -/
def shown (i : Nat) (pane : PaneId) : List Action :=
  [.request pane (firstPage i), .enumerate i emptyListing, .commit i (some true),
    .acquire i (.ok ()), .spawn i]

instance : ∀ (w : World) (a : Action), Decidable (StreamsLast w a)
  | w, .streamEnds k => inferInstanceAs (Decidable (∀ feed ∈ w.hub.feeds[k]?,
      ∀ watch ∈ w.hub.watches feed.location, watch.feed ≠ k))
  | _, .request .. | _, .enumerate .. | _, .commit .. | _, .acquire .. | _, .spawn _
  | _, .drop _ | _, .receive .. | _, .leaveCancelled _ | _, .leaveClosed _ | _, .listed ..
  | _, .store _ | _, .release _ | _, .setPaneActivity .. | _, .forwardingEnds _ => .isTrue trivial

/-- The second pane shares the entry of the first, which then goes. -/
theorem two_panes_share_a_watch :
    ∃ w : World, w.holders = [watched] ∧ w.hub.references watched = some 1
      ∧ Counted w ∧ ReceiversLive w := by
  obtain ⟨w, hrun, hholders, hreferences⟩ : ∃ w : World,
      Run (apply id fun _ => .nativeWatch) StreamsLast .initial (shown 0 1 ++ shown 1 2
          ++ [.request 1 (firstPage 2), .leaveCancelled 0, .release 0]) w
      ∧ w.holders = [watched] ∧ w.hub.references watched = some 1 :=
    Run.exists_of_guardedRun (by decide +kernel)
  exact ⟨w, hholders, hreferences, (watches_shared id fun _ => .nativeWatch).2.1 _ w hrun⟩

/-- The stream has ended when the second pane comes, and is handed a
receiver of it. -/
theorem ended_stream_still_served :
    ∃ w : World, Run (apply id fun _ => .nativeWatch) Free .initial
        (shown 0 1 ++ [.streamEnds 0, .forwardingEnds 0] ++ shown 1 2) w
      ∧ w.holders = [watched, watched] ∧ w.hub.references watched = some 2
      ∧ w.hub.feeds = [⟨watched, false, false, false⟩] ∧ ¬ ReceiversLive w := by
  obtain ⟨w, hrun, hholders, hreferences, hfeeds⟩ : ∃ w : World,
      Run (apply id fun _ => .nativeWatch) Free .initial
        (shown 0 1 ++ [.streamEnds 0, .forwardingEnds 0] ++ shown 1 2) w
      ∧ w.holders = [watched, watched] ∧ w.hub.references watched = some 2
      ∧ w.hub.feeds = [⟨watched, false, false, false⟩] :=
    Run.exists_of_run (by decide +kernel)
  refine ⟨w, hrun, hholders, hreferences, hfeeds, fun hlive => ?_⟩
  obtain ⟨task, htask, hheld⟩ := List.mem_filterMap.mp
    (hholders ▸ List.mem_cons_self : watched ∈ w.holders)
  obtain ⟨watch, feed, -, -, hfeed, -, hlive, -⟩ := hlive task htask watched hheld
  rw [hfeeds] at hfeed
  obtain rfl := List.mem_singleton.mp (List.mem_of_getElem? hfeed)
  cases hlive

end FileManager.Directory.Watches
