/-
When a git status is fresh.

What the cache has for a tree comes from a walk that started after the
last invalidation of the tree. Two things break this: a walk that started
before an invalidation puts its status into the cache after it, and an
invalidation for a directory that is not known yet leaves in the cache
what another directory of the tree has put there (`Timely`).
-/
import FileManager.Vcs.Status
import FileManager.Lib.Machine

namespace FileManager.Vcs

open Machine (Run Free)
open Function (update update_apply)

-- ==== vocabulary

variable {ι : Type} {discover : Path → Option Path} {s s' : Service ι} {a : Action ι} {i : ι}
  {computed : Computed} {root dir : Path}

/-- The call's walk started before the last invalidation of its tree. -/
def Phase.overtaken (invalidated : Path → Nat) : Phase → Bool
  | .walking _ root walk _ => decide (walk < invalidated root)
  | _ => false

/-- A directory is invalidated while its tree is known or has no status,
and a walk ends with no invalidation of its tree since it started. -/
def Timely (discover : Path → Option Path) (s : Service ι) : Action ι → Prop
  | .invalidate dir => ∀ root ∈ discover dir, s.repoRoots dir = none → s.statuses root = none
  | .endWalk i _ => (s.phases i).overtaken s.invalidated = false
  | _ => True

/-- What a call knows of the invalidations before it. -/
def Phase.since : Phase → Path → Nat
  | .discovering _ since | .rooted _ _ since | .spawned _ _ since | .walking _ _ _ since
  | .used _ _ _ since => since
  | .called | .untracked => fun _ => 0

/-- The walk that a call waits for, or has used, with its tree. -/
def Phase.walk : Phase → Option (Path × Nat)
  | .walking _ root walk _ => some (root, walk)
  | .used _ root computed _ => some (root, computed.walk)
  | _ => none

-- ==== invariant

/-- A phase that knows nothing later, and whose walk started after what it
knows. -/
structure Phase.Sound (invalidated : Path → Nat) (phase : Phase) : Prop where
  since : ∀ root, phase.since root ≤ invalidated root
  walk : ∀ root walk, phase.walk = some (root, walk) → phase.since root ≤ walk

structure Served (discover : Path → Option Path) (s : Service ι) : Prop where
  roots : ∀ dir root, s.repoRoots dir = some root → root = discover dir
  invalidated : ∀ root, s.invalidated root ≤ s.walks
  cached : ∀ root computed, s.statuses root = some computed →
    s.invalidated root ≤ computed.walk
  phases : ∀ i, (s.phases i).Sound s.invalidated

theorem Phase.Sound.next {invalidated : Path → Nat} {phase next : Phase}
    (h : phase.Sound invalidated) (hsince : next.since = phase.since) (hwalk : next.walk = none) :
    next.Sound invalidated where
  since root := by rw [hsince]; exact h.since root
  walk root walk hnext := by rw [hwalk] at hnext; cases hnext

-- ==== the steps

theorem Served.learn (h : Served discover s) (dir : Path) :
    Served discover
      { s with repoRoots := update s.repoRoots dir (some (discover dir)) } := by
  refine ⟨fun other root hroot => ?_, h.invalidated, h.cached, h.phases⟩
  simp only [update_apply] at hroot
  split at hroot
  case isTrue heq =>
    cases hroot
    rw [heq]
  case isFalse => exact h.roots other root hroot

theorem Served.start (h : Served discover s) :
    Served discover { s with walks := s.walks + 1 } :=
  ⟨h.roots, fun root => Nat.le_succ_of_le (h.invalidated root), h.cached, h.phases⟩

theorem Served.put (h : Served discover s) (hwalk : s.invalidated root ≤ computed.walk) :
    Served discover { s with statuses := update s.statuses root (some computed) } := by
  refine ⟨h.roots, h.invalidated, fun other computed' hcached => ?_, h.phases⟩
  simp only [update_apply] at hcached
  split at hcached
  case isTrue heq =>
    cases hcached
    rw [heq]
    exact hwalk
  case isFalse => exact h.cached other computed' hcached

theorem cached_of_invalidate (h : (s.invalidate dir).statuses root = some computed) :
    s.statuses root = some computed ∧ s.repoRoots dir ≠ some (some root) := by
  unfold Service.invalidate at h
  split at h
  case h_1 known hknown =>
    simp only [update_apply] at h
    split at h
    case isTrue => cases h
    case isFalse hne =>
      refine ⟨h, fun hsame => hne ?_⟩
      cases hknown.symm.trans hsame
      rfl
  case h_2 hunknown => exact ⟨h, hunknown root⟩

theorem invalidate_rest (s : Service ι) (dir : Path) :
    (s.invalidate dir).repoRoots = s.repoRoots ∧ (s.invalidate dir).phases = s.phases
      ∧ (s.invalidate dir).walks = s.walks ∧ (s.invalidate dir).invalidated = s.invalidated := by
  unfold Service.invalidate
  split <;> exact ⟨rfl, rfl, rfl, rfl⟩

variable [DecidableEq ι]

theorem Served.enter {phase : Phase} (h : Served discover s) (hphase : phase.Sound s.invalidated) :
    Served discover (s.enter i phase) := by
  refine ⟨h.roots, h.invalidated, h.cached, fun j => ?_⟩
  simp only [Service.enter, update_apply]
  split
  case isTrue => exact hphase
  case isFalse => exact h.phases j

theorem Served.invalidate (h : Served discover s) (htimely : Timely discover s (.invalidate dir))
    (hstep : callStep discover (.invalidate dir) s = some s') : Served discover s' := by
  obtain ⟨hroots, hphases, hwalks, -⟩ := invalidate_rest s dir
  cases hstep
  cases hdiscover : discover dir with
  | none =>
    refine ⟨fun other root hroot => h.roots other root (hroots ▸ hroot), fun root => ?_,
      fun root computed hcached => h.cached root computed (cached_of_invalidate hcached).1,
      fun i => ?_⟩
    · show s.invalidated root ≤ (s.invalidate dir).walks
      rw [hwalks]
      exact h.invalidated root
    · show ((s.invalidate dir).phases i).Sound s.invalidated
      rw [hphases]
      exact h.phases i
  | some tree =>
    refine ⟨fun other root hroot => h.roots other root (hroots ▸ hroot), fun root => ?_,
      fun root computed hcached => ?_, fun i => ?_⟩
    · show update s.invalidated tree s.walks root ≤ (s.invalidate dir).walks
      rw [hwalks, update_apply]
      split
      case isTrue => exact Nat.le_refl _
      case isFalse => exact h.invalidated root
    · obtain ⟨hbefore, hother⟩ := cached_of_invalidate hcached
      have hne : root ≠ tree := by
        rintro rfl
        cases hknown : s.repoRoots dir with
        | none =>
          rw [htimely root hdiscover hknown] at hbefore
          cases hbefore
        | some known =>
          rw [hknown, h.roots dir known hknown, hdiscover] at hother
          exact hother rfl
      show update s.invalidated tree s.walks root ≤ computed.walk
      rw [Function.update_of_ne hne]
      exact h.cached root computed hbefore
    · -- What a call knows was so before, and a later invalidation raises it.
      have hgrows : ∀ root,
          s.invalidated root ≤ update s.invalidated tree s.walks root := by
        intro root
        rw [update_apply]
        split
        case isTrue heq => exact h.invalidated root
        case isFalse => exact Nat.le_refl _
      show ((s.invalidate dir).phases i).Sound (update s.invalidated tree s.walks)
      rw [hphases]
      exact ⟨fun root => Nat.le_trans ((h.phases i).since root) (hgrows root), (h.phases i).walk⟩

theorem served_step (h : Served discover s) (htimely : Timely discover s a)
    (hstep : callStep discover a s = some s') : Served discover s' := by
  cases a with
  | invalidate dir => exact h.invalidate htimely hstep
  | annotate i dir =>
    have hknows : ∀ phase : Phase, phase.since = s.invalidated → phase.walk = none →
        phase.Sound s.invalidated := by
      intro phase hsince hwalk
      refine ⟨fun root => Nat.le_of_eq (congrFun hsince root), fun root walk hsome => ?_⟩
      simp [hwalk] at hsome
    simp only [callStep] at hstep
    split at hstep
    case h_1 | h_2 =>
      cases hstep
      exact h.enter (hknows _ rfl rfl)
    case h_3 => cases hstep
  | discover i =>
    simp only [callStep] at hstep
    split at hstep
    case h_1 dir since hphase =>
      cases hstep
      have hsound := h.phases i
      rw [hphase] at hsound
      exact (h.learn dir).enter (hsound.next rfl rfl)
    case h_2 => cases hstep
  | lookup i =>
    simp only [callStep] at hstep
    split at hstep
    case h_1 dir root since hphase =>
      have hsound := h.phases i
      rw [hphase] at hsound
      split at hstep
      case isTrue =>
        split at hstep
        case h_1 computed hcached =>
          cases hstep
          refine h.enter ⟨hsound.since, fun other walk hwalk => ?_⟩
          cases hwalk
          exact Nat.le_trans (hsound.since root) (h.cached root computed hcached)
        case h_2 =>
          cases hstep
          exact h.enter (hsound.next rfl rfl)
      case isFalse =>
        cases hstep
        exact h.enter ⟨fun _ => Nat.zero_le _, nofun⟩
    case h_2 =>
      cases hstep
      exact h.enter ⟨fun _ => Nat.zero_le _, nofun⟩
    case h_3 => cases hstep
  | startWalk i =>
    simp only [callStep] at hstep
    split at hstep
    case h_1 dir root since hphase =>
      cases hstep
      have hsound := h.phases i
      rw [hphase] at hsound
      refine h.start.enter ⟨hsound.since, fun other walk hwalk => ?_⟩
      cases hwalk
      exact Nat.le_trans (hsound.since root) (h.invalidated root)
    case h_2 => cases hstep
  | endWalk i status =>
    simp only [callStep] at hstep
    split at hstep
    case h_1 dir root walk since hphase =>
      cases hstep
      have hsound := h.phases i
      rw [hphase] at hsound
      have hovertaken : (s.phases i).overtaken s.invalidated = false := htimely
      rw [hphase] at hovertaken
      have hle : s.invalidated root ≤ walk := Nat.le_of_not_lt (of_decide_eq_false hovertaken)
      have hput : Served discover
          { s with statuses := update s.statuses root (some ⟨walk, status⟩) } := h.put hle
      refine hput.enter ⟨hsound.since, fun other walk' hwalk => ?_⟩
      cases hwalk
      exact hsound.walk root walk rfl
    case h_2 => cases hstep

-- ==== runs

omit [DecidableEq ι] in
theorem served_new (discover : Path → Option Path) : Served discover (Service.new : Service ι) := by
  refine ⟨nofun, fun _ => Nat.le_refl _, nofun, fun i => ⟨fun _ => Nat.le_refl _, nofun⟩⟩

/-- In every timely run, an `annotate` uses a status of a walk that
started after every earlier `invalidate` for its directory's tree. -/
theorem status_never_stale (discover : Path → Option Path) {acts : List (Action ι)}
    {s : Service ι} (hrun : Run (callStep discover) (Timely discover) .new acts s) :
    ∀ i dir root computed since, s.phases i = .used dir root computed since →
      since root ≤ computed.walk := by
  have h : Served discover s := hrun.invariant (P := Served discover) (served_new discover)
    fun a htimely hstep h => served_step h htimely hstep
  intro i dir root computed since hphase
  have hsound := h.phases i
  rw [hphase] at hsound
  exact hsound.walk root computed.walk rfl

-- A tree whose directory is listed twice, with an invalidation in between.

def oneTree (dir : Path) : Option Path := if ["r"] <+: dir then some ["r"] else none

/-- A listing of the tree's own directory, to its walk. -/
def listing (i : Nat) : List (Action Nat) :=
  [.annotate i ["r"], .discover i, .lookup i, .startWalk i]

/-- Another one, once the directory is known. -/
def listingAgain (i : Nat) : List (Action Nat) := [.annotate i ["r"], .lookup i]

instance (discover : Path → Option Path) :
    ∀ (s : Service ι) (a : Action ι), Decidable (Timely discover s a)
  | s, .invalidate dir =>
    inferInstanceAs (Decidable (∀ root ∈ discover dir, s.repoRoots dir = none →
      s.statuses root = none))
  | s, .endWalk i _ => inferInstanceAs (Decidable ((s.phases i).overtaken s.invalidated = false))
  | _, .annotate _ _ | _, .discover _ | _, .lookup _ | _, .startWalk _ => .isTrue trivial

/-- The walk that the call has used, and how many had started before the
call knew of an invalidation. -/
def Phase.used? : Phase → Option (Nat × Nat)
  | .used _ root computed since => some (since root, computed.walk)
  | _ => none

omit [DecidableEq ι] in
theorem used_of_used? {known walk : Nat} (h : (s.phases i).used? = some (known, walk)) :
    ∃ dir root computed since, s.phases i = .used dir root computed since
      ∧ since root = known ∧ computed.walk = walk := by
  cases hphase : s.phases i with
  | used dir root computed since =>
    rw [hphase] at h
    cases h
    exact ⟨dir, root, computed, since, rfl, rfl, rfl⟩
  | _ =>
    rw [hphase] at h
    cases h

theorem second_walk_used :
    ∃ (s : Service Nat) (dir root : Path) (computed : Computed) (since : Path → Nat),
      s.phases 1 = .used dir root computed since ∧ since root = 1 ∧ computed.walk = 1
        ∧ since root ≤ computed.walk := by
  obtain ⟨s, hrun, hused⟩ : ∃ s : Service Nat, Run (callStep oneTree) (Timely oneTree) .new
        (listing 0 ++ [.endWalk 0 ⟨[]⟩, .invalidate ["r"]]
          ++ (listingAgain 1 ++ [.startWalk 1, .endWalk 1 ⟨[]⟩])) s
      ∧ (s.phases 1).used? = some (1, 1) :=
    Run.exists_of_guardedRun (by decide +kernel)
  obtain ⟨dir, root, computed, since, hphase, hsince, hwalk⟩ := used_of_used? hused
  exact ⟨s, dir, root, computed, since, hphase, hsince, hwalk,
    status_never_stale oneTree hrun 1 dir root computed since hphase⟩

/-- The invalidation comes during the walk; and it comes for another
directory of the tree that has not been listed. -/
theorem stale_status_served :
    (∃ s : Service Nat, Run (callStep oneTree) Free .new
          (listing 0 ++ [.invalidate ["r"], .endWalk 0 ⟨[]⟩] ++ listingAgain 1) s
        ∧ (s.phases 1).used? = some (1, 0))
      ∧ ∃ s : Service Nat, Run (callStep oneTree) Free .new
          (listing 0 ++ [.endWalk 0 ⟨[]⟩, .invalidate ["r", "sub"]] ++ listingAgain 1) s
        ∧ (s.phases 1).used? = some (1, 0) := by
  constructor <;> exact Run.exists_of_run (by decide +kernel)

end FileManager.Vcs
