/-
The status of a listing's entries in git (`fm-vcs-status`), and the cache
that it is served from, with any number of `annotate` and `invalidate`
calls at the same time.

What git tells, the working tree that owns a directory (`discover`), the
files of a walk that are not clean and the paths that are ignored, is
given, and so is the canonical path of a directory each time it is asked
for. The walks are numbered in the order in which they start.
-/
import FileManager.Domain

namespace FileManager.Vcs

open Function (update)

/-- A native path, by its components. -/
abbrev Path := List String

inductive GitFileStatus
  | clean
  | modified
  | staged
  | untracked
  | ignored

/-- `RepoStatus`, as `compute_repo_status` fills it: a walk reports each
path that is not clean once. -/
structure RepoStatus where
  files : List (Path × GitFileStatus)

-- ==== the cache

/-- A status, and the walk that it comes from. -/
structure Computed where
  walk : Nat
  status : RepoStatus

/-- How far an `annotate` has come. With it, for every working tree, is how
many walks had started when the last `invalidate` for it returned before
the call started. -/
inductive Phase
  | called
  | discovering (dir : Path) (since : Path → Nat)
  | rooted (dir : Path) (root : Option Path) (since : Path → Nat)
  | spawned (dir root : Path) (since : Path → Nat)
  | walking (dir root : Path) (walk : Nat) (since : Path → Nat)
  | used (dir root : Path) (computed : Computed) (since : Path → Nat)
  | untracked

structure Service (ι : Type) where
  repoRoots : Path → Option (Option Path)
  statuses : Path → Option Computed
  phases : ι → Phase
  /-- How many walks have started, and had as a tree was last invalidated. -/
  walks : Nat
  invalidated : Path → Nat

variable {ι : Type}

/-- `GitStatusService::new`. -/
def Service.new : Service ι where
  repoRoots _ := none
  statuses _ := none
  phases _ := .called
  walks := 0
  invalidated _ := 0

inductive Action (ι : Type)
  /-- A call of `annotate` for a directory, with its canonical path. -/
  | annotate (call : ι) (dir : Path)
  /-- `discover_repo_root`, and what is remembered of it. -/
  | discover (call : ι)
  /-- The lookup of `status_for`. -/
  | lookup (call : ι)
  | startWalk (call : ι)
  /-- The walk ends, and its status is put in the cache. -/
  | endWalk (call : ι) (status : RepoStatus)
  /-- A call of `invalidate`, with the directory's canonical path. -/
  | invalidate (dir : Path)

variable [DecidableEq ι]

def Service.enter (s : Service ι) (i : ι) (phase : Phase) : Service ι :=
  { s with phases := update s.phases i phase }

def Service.invalidate (s : Service ι) (dir : Path) : Service ι :=
  match s.repoRoots dir with
  | some (some root) => { s with statuses := update s.statuses root none }
  | _ => s

def callStep (discover : Path → Option Path) (a : Action ι) (s : Service ι) : Option (Service ι) :=
  match a with
  | .annotate i dir =>
    match s.phases i, s.repoRoots dir with
    | .called, some root => some (s.enter i (.rooted dir root s.invalidated))
    | .called, none => some (s.enter i (.discovering dir s.invalidated))
    | _, _ => none
  | .discover i =>
    match s.phases i with
    | .discovering dir since =>
      some ({ s with repoRoots := update s.repoRoots dir (some (discover dir)) }.enter i
        (.rooted dir (discover dir) since))
    | _ => none
  | .lookup i =>
    match s.phases i with
    | .rooted dir (some root) since =>
      if root <+: dir then
        match s.statuses root with
        | some computed => some (s.enter i (.used dir root computed since))
        | none => some (s.enter i (.spawned dir root since))
      else some (s.enter i .untracked)
    | .rooted _ none _ => some (s.enter i .untracked)
    | _ => none
  | .startWalk i =>
    match s.phases i with
    | .spawned dir root since =>
      some ({ s with walks := s.walks + 1 }.enter i (.walking dir root s.walks since))
    | _ => none
  | .endWalk i status =>
    match s.phases i with
    | .walking dir root walk since =>
      some ({ s with statuses := update s.statuses root (some ⟨walk, status⟩) }.enter i
        (.used dir root ⟨walk, status⟩ since))
    | _ => none
  | .invalidate dir =>
    some { s.invalidate dir with
      invalidated := match discover dir with
        | some root => update s.invalidated root s.walks
        | none => s.invalidated }

end FileManager.Vcs
