/-
Which moves that copy can be planned (`MoveExecutor::plan` beside
`CopyExecutor::plan`).

# The argument

A move that copies names its destination as the copy it owns does, and
checks the two paths. The copy checks them only where both are of one
provider, since the check knows nothing of two; the move checks them
always. So a plan of the copy is one of the move exactly where the two
ends are of one provider, and between two providers every move is turned
down.
-/
import FileManager.Transfers.Proofs.Lossless
import FileManager.Transfers.Proofs.Plans

namespace FileManager.Transfers

open Fallible
open Scheduler (ExecutionError OperationPlan)

variable {env : Env} {operation : Operation} {fuel : Nat} {destination source parent : Location}

/-- The copy that does for the operation what the move falls back to. -/
structure CopyExecutor.SameTask (copy : CopyExecutor) (move : MoveExecutor)
    (operation : Operation) : Prop where
  directory : copy.destinationDirectory = move.destinationDirectory
  policy : copy.symlinkPolicy = move.symlinkPolicy
  source : copy.sourceOf operation = pure move.source

theorem validatePaths_of_providers (h : source.providerId ≠ destination.providerId) :
    validatePaths source destination = .error .incomparableLocations := by
  unfold validatePaths
  rw [if_pos h]

theorem provider_of_join {l : Location} {name : String}
    (h : parent.join name = .ok l) : l.providerId = parent.providerId := by
  unfold Location.join at h
  split at h
  case h_1 => cases h
  case h_2 => injection h with h; rw [← h]

theorem name_of_joined {files : Files}
    {summary : EntrySummary} (hinspect : inspect env files source = .ok summary)
    (hjoin : parent.join summary.name = .ok destination) : source.name = .ok summary.name := by
  obtain ⟨node, -, rfl⟩ : ∃ node, Keyed.get files source = some node
      ∧ summarize env source node = summary := by
    unfold inspect at hinspect
    split at hinspect
    case h_1 node hnode => injection hinspect with hinspect; exact ⟨node, hnode, hinspect⟩
    case h_2 => cases hinspect
  unfold Location.name
  cases hlast : source.uri.segments.getLast? with
  | some name => simp [summarize, hlast]
  | none =>
    -- the root of a filesystem has no name, and nothing is joined to it
    have hvalid := validateName_of_join hjoin
    simp [summarize, hlast, validateName] at hvalid

namespace MoveExecutor

variable {move : MoveExecutor} {source destination : Location}

theorem yields_plan_named (hdelete : move.transfer.serverSideMove = false) {name : String}
    (hname : move.source.name = .ok name)
    (hjoin : move.destinationDirectory.join name = .ok destination) {w w' : World}
    {r : Except ExecutionError OperationPlan} :
    Yields (move.plan env operation fuel) w r w' ↔ (validatePaths move.source destination = .ok ()
          ∧ Yields (move.copy.plan env operation fuel) { w with fallback := true } r w')
        ∨ ∃ e, validatePaths move.source destination = .error e
          ∧ r = .error (.failed e.message) ∧ w' = w := by
  unfold plan
  rw [yields_bind_of (orFail_ok hname w), yields_bind_of (orFail_ok hjoin w)]
  cases hvalid : validatePaths move.source destination with
  | error e =>
    rw [yields_bind]
    constructor
    · intro hcase
      rcases hcase with ⟨_, _, hok, -⟩ | ⟨e', herror, rfl⟩
      · cases (hok.unique (orFail_error rfl w)).1
      · obtain ⟨heq, rfl⟩ := herror.unique (orFail_error rfl w)
        cases heq
        exact .inr ⟨e, rfl, rfl, rfl⟩
    · intro hcase
      rcases hcase with ⟨hok, -⟩ | ⟨e', he, rfl, rfl⟩
      · cases hok
      · cases he
        exact .inr ⟨_, orFail_error rfl w', rfl⟩
  | ok u =>
    have hsame : Yields (move.onSameFilesystem env) w (.ok false) w := by
      unfold onSameFilesystem
      rw [hdelete, Bool.and_false]
      exact yields_pure.mpr ⟨rfl, rfl⟩
    rw [yields_bind_of (orFail_ok rfl w), yields_bind_of hsame, yields_writes_bind]
    simp

/-- A source whose copy can be planned can be planned to be moved, with
the same items and destinations, exactly if it stays with its
provider. -/
theorem movable_iff_one_provider {copy : CopyExecutor} {w w' : World}
    {plan : OperationPlan} (htask : copy.SameTask move operation)
    (hdelete : move.transfer.serverSideMove = false) (hcells : w.cells.rootName = none)
    (hcopy : Yields (copy.plan env operation fuel) w (.ok plan) w') :
    Yields (move.plan env operation fuel) w (.ok plan) { w' with fallback := true }
      ↔ move.source.providerId = move.destinationDirectory.providerId := by
  obtain ⟨summary, destination, st, hmakes, hitems, rfl⟩ :=
    (CopyExecutor.yields_plan_iff htask.source).mp hcopy
  have hjoin : move.destinationDirectory.join summary.name = .ok destination := by
    have hjoined := hmakes.joined
    rw [hcells, htask.directory] at hjoined
    exact hjoined
  have hprovider := provider_of_join hjoin
  have hname := name_of_joined (Env.ask_eq_ok.mp hmakes.asked).2 hjoin
  rw [yields_plan_named hdelete hname hjoin, ← hprovider]
  constructor
  · intro hcase
    rcases hcase with ⟨hvalid, -⟩ | ⟨e, -, heq, -⟩
    · by_contra hother
      rw [validatePaths_of_providers hother] at hvalid
      cases hvalid
    · cases heq
  · intro hsame
    refine .inl ⟨hmakes.checked hsame, ?_⟩
    have hcopied := @CopyExecutor.Makes.of_policy _ _ _ move.copy _ _ _ _ _ hmakes htask.directory htask.policy
    exact (CopyExecutor.yields_plan_iff rfl).mpr
      ⟨summary, destination, st,
        ⟨hcopied.asked, hcopied.joined, hcopied.checked, hcopied.walked⟩, hitems, rfl⟩

end MoveExecutor

-- ==== sample moves

/-- A place on a server, reached through a connection. -/
def remotePath (connection : String) (segments : List String) : Location where
  providerId := "sftp"
  uri := { authority := connection, segments := segments }

/-- A local file, and two servers of which the first has a file. -/
def twoServers : FileTree :=
  .ofNodes
    [(localPath [], .directory), (localPath ["f"], .file [1]),
      (remotePath "one" [], .directory), (remotePath "one" ["f"], .file [2]),
      (remotePath "two" [], .directory)]
    (by decide +kernel) (by decide +kernel)

/-- The move of a source onto the second server. -/
def moveToServer (source : Location) : MoveExecutor where
  source := source
  destinationDirectory := remotePath "two" []
  symlinkPolicy := .copyLink
  forceFallback := false
  transfer := { serverSideCopy := false, serverSideMove := false, sameEndpoint := false }

def moveToServerOperation (source : Location) : Operation :=
  (Scheduler.startOperation
    { id := 1
      kind := .move
      sources := [{ id := 0, location := source }]
      destination := some (remotePath "two" [])
      conflictPolicy := .ask } 0).operation

/-- From one server to another, a file can be moved as it can be
copied. -/
theorem movable_between_connections :
    ∃ plan w', Yields ((moveToServer (remotePath "one" ["f"])).plan .quiet
        (moveToServerOperation (remotePath "one" ["f"])) 3) (idleOn twoServers) (.ok plan) w'
      ∧ plan.items.map (·.entry.location) = [remotePath "one" ["f"]] := by
  let move := moveToServer (remotePath "one" ["f"])
  obtain ⟨plan, w', hcopy, hitems⟩ := Yields.exists_of_run
    (P := fun (plan : OperationPlan) (_ : World) =>
      plan.items.map (·.entry.location) = [remotePath "one" ["f"]])
    (show ((move.copy.plan .quiet (moveToServerOperation (remotePath "one" ["f"])) 3).run.run
        (idleOn twoServers)).any _ = true from by decide +kernel)
  exact ⟨plan, _, (MoveExecutor.movable_iff_one_provider
    ⟨rfl, rfl, rfl⟩ rfl rfl hcopy).mpr rfl, hitems⟩

/-- A local file can be copied to a server, and not be moved there. -/
theorem local_file_copied_not_moved :
    (∃ plan w', Yields ((moveToServer (localPath ["f"])).copy.plan .quiet
        (moveToServerOperation (localPath ["f"])) 3) (idleOn twoServers) (.ok plan) w'
      ∧ plan.items.map (·.entry.location) = [localPath ["f"]])
    ∧ Yields ((moveToServer (localPath ["f"])).plan .quiet
        (moveToServerOperation (localPath ["f"])) 3) (idleOn twoServers)
        (.error (.failed
          "locations use different providers or invalid local paths"))
        (idleOn twoServers) := by
  constructor
  · exact Yields.exists_of_run (by decide +kernel)
  · unfold Yields
    decide +kernel

end FileManager.Transfers
