/-
A move as a job of the scheduler, and a copy, a move or a duplication of
several members as one: the job of `Scheduler.lean` with the executor's
calls answered by `MoveExecutor`, or by a group, on the files.

A step is a step of the job that is not the return of an executor call,
or such a return: the executor's call runs to its end on the world and
the job takes what it returns. The call's own steps are not visible. A
cancellation that a running call notices is its `Env`'s; a call of a
group notices one only if it has been requested by then.
-/
import FileManager.Transfers.Groups

namespace FileManager.Transfers

open Scheduler (ExecutionError startOperation)

/-- The steps of a job that are returns of executor calls. -/
def isReturn : Scheduler.Action → Bool
  | .planReturns _ | .executeReturns _ | .finishReturns _ | .cleanupReturns _ => true
  | _ => false

structure State where
  job : Scheduler.State
  world : World

inductive Action
  | job (action : Scheduler.Action)
  | plan (env : Env) (fuel : Nat)
  | execute (env : Env) (fuel : Nat)
  | finish (env : Env)
  | cleanup (env : Env)

/-- Run an executor call and give what it returns to the job. -/
def answer {α : Type} (call : Exec α) (returns : Except ExecutionError α → Scheduler.Action)
    (s : State) : Option State :=
  match call.run.run s.world with
  | none => none
  | some (result, world) =>
    match Scheduler.apply false (returns result) s.job with
    | none => none
    | some job => some { job := job, world := world }

/-- The transition function of a move: `none` where the action is not
open in the state. -/
def apply (move : MoveExecutor) (a : Action) (s : State) : Option State :=
  match a with
  | .job action =>
    if isReturn action then none
    else
      match Scheduler.apply false action s.job with
      | none => none
      | some job => some { s with job := job }
  | .plan env fuel =>
    answer (move.plan env s.job.operation fuel) .planReturns s
  | .execute env fuel =>
    match s.job.runner.inProgress with
    | none => none
    | some (work, resolution) =>
      answer (move.execute env s.job.operation work.item resolution fuel) .executeReturns s
  | .finish env => answer (move.finish env) .finishReturns s
  | .cleanup env => answer (MoveExecutor.cleanupPartial env) .cleanupReturns s

/-- A move that has just been submitted. -/
def submitted (tree : FileTree) (request : Scheduler.Request) (now : Timestamp) :
    State where
  job := startOperation request now
  world :=
    { disk := { files := tree.nodes, staged := [], log := [] }
      cells := {}
      fallback := false }

-- ==== groups

/-- The surroundings of a call, given whether its job is cancelled. -/
def Env.heeding (env : Env) (cancellation : Bool) : Env :=
  { env with cancelled := fun check => cancellation && env.cancelled check }

structure GroupState where
  job : Scheduler.State
  world : GroupWorld

/-- As `Action`, with surroundings for each member in the calls that go
through all of them. -/
inductive GroupAction
  | job (action : Scheduler.Action)
  | plan (envs : Nat → Env) (fuel : Nat)
  | execute (env : Env) (fuel : Nat)
  | finish (envs : Nat → Env)
  | cleanup (envs : Nat → Env)

/-- Run a group's call and give what it returns to the job. -/
def GroupState.answer {α : Type} (call : GroupExec α)
    (returns : Except ExecutionError α → Scheduler.Action) (s : GroupState) : Option GroupState :=
  match call.run.run s.world with
  | none => none
  | some (result, world) =>
    match Scheduler.apply false (returns result) s.job with
    | none => none
    | some job => some { job := job, world := world }

namespace Group

/-- The transition function of a group's job: `none` where the action is
not open in the state. -/
def apply (group : Group) (a : GroupAction) (s : GroupState) : Option GroupState :=
  let heeding (envs : Nat → Env) (i : Nat) := (envs i).heeding s.job.cancellation
  match a with
  | .job action =>
    if isReturn action then none
    else
      match Scheduler.apply false action s.job with
      | none => none
      | some job => some { s with job := job }
  | .plan envs fuel =>
    s.answer (group.plan (heeding envs) s.job.operation fuel) .planReturns
  | .execute env fuel =>
    match s.job.runner.inProgress with
    | none => none
    | some (work, resolution) =>
      s.answer (group.execute (env.heeding s.job.cancellation) s.job.operation
        work.item resolution fuel) .executeReturns
  | .finish envs => s.answer (group.finish (heeding envs)) .finishReturns
  -- `cleanup_partial` has a token of its own, which nobody cancels
  | .cleanup envs => s.answer (group.cleanupPartial envs) .cleanupReturns

/-- An operation that has just been submitted. -/
def submitted (group : Group) (tree : FileTree) (request : Scheduler.Request)
    (now : Timestamp) : GroupState where
  job := startOperation request now
  world :=
    { disk := { files := tree.nodes, staged := [], log := [] }
      seats := group.members.map fun _ => {}
      stale := [] }

end Group

end FileManager.Transfers
