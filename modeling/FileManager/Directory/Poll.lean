/-
Polled watches (`fm-application`, `directory.rs`: `poll_change_stream`,
`WatchHub::acquire`, `spawn_pane_watch`): a provider without a watch of
its own is listed again and again, and a pane that watches the location
lists it once more when two polls differ.

A poll reads the whole directory; what it finds is compared with the poll
before, entry by entry under their identifiers. Polled locations are
remote ones, on which git status adds nothing.
-/
import FileManager.Directory.Tasks

namespace FileManager.Directory.Poll

-- ==== the contents

/-- What a directory has: every entry once, under a name of its own. -/
structure Contents where
  entries : List EntrySummary
  ids : (entries.map fun entry => entry.id).Nodup
  names : (entries.map fun entry => entry.name).Nodup

-- ==== the stream

def maxPollBackoffMultiplier : Nat := 8

/-- The `State` of `poll_change_stream`: the entries of the last poll, by
their identifiers, and the back-off. -/
structure PollState where
  previous : Option (List EntrySummary)
  backoff : Nat

/-- The map from identifiers to entries that a poll makes, as its values;
of several entries with one identifier the last counts. -/
def fingerprint (entries : List EntrySummary) : List EntrySummary :=
  Keyed.upserts (fun entry => entry.id) entries []

/-- Two maps are equal when they have the same entries. -/
def sameFingerprint (first second : List EntrySummary) : Bool :=
  decide (first ⊆ second ∧ second ⊆ first)

/-- Whether a poll reports a change: never the first one. -/
def reports (previous : Option (List EntrySummary)) (entries : List EntrySummary) : Bool :=
  match previous with
  | none => false
  | some previous => !sameFingerprint previous (fingerprint entries)

/-- One turn of the loop of `poll_change_stream`: the next state and the
change that is sent, or the end of the stream. -/
def poll (state : PollState) (result : Except VfsError (List EntrySummary)) :
    Option (PollState × Option ProviderChange) :=
  match result with
  | .ok entries =>
    let next : PollState := { previous := some (fingerprint entries), backoff := 1 }
    some (next, if reports state.previous entries then some .changed else none)
  | .error .cancelled => none
  | .error _ =>
    let next := { state with
      backoff := min (state.backoff * 2) maxPollBackoffMultiplier }
    some (next, none)

/-- `WatchHub::acquire`, for a polled location: the stream that is there,
or a new one. -/
def acquire (existing : Option PollState) : PollState :=
  match existing with
  | some state => state
  | none => { previous := none, backoff := 1 }

-- ==== the pane watch

/-- What a pane watch makes of a change: it lists the location again. A
cancelled listing ends it, another that fails is passed over. -/
def refreshPane (lowercase : String → String) (location : Location) (view : ViewOptions)
    (pane : PaneRequest) (change : ProviderChange)
    (listed : Except VfsError (List EntrySummary)) : Option PaneRequest :=
  match listed with
  | .error .cancelled => none
  | .error _ => some pane
  | .ok entries =>
    match storeChanges lowercase pane location view change entries with
    | none => some pane
    | some (stored, _) => some stored

/-- A turn of the poll: what it finds, and what the pane's watch finds
when it lists the location for it. -/
structure Turn where
  result : Except VfsError Contents
  refresh : Except VfsError Contents

/-- What a turn makes of the stream and the pane. -/
def turn (lowercase : String → String) (location : Location) (view : ViewOptions)
    (state : PollState) (pane : PaneRequest) (t : Turn) : Option (PollState × PaneRequest) :=
  match poll state (t.result.map Contents.entries) with
  | none => none
  | some (next, none) => some (next, pane)
  | some (next, some change) =>
    (refreshPane lowercase location view pane change (t.refresh.map Contents.entries)).map
      fun after => (next, after)

/-- What the polls find, each with the pane once it is processed. -/
def processed (lowercase : String → String) (location : Location) (view : ViewOptions) :
    PollState → PaneRequest → List Turn → List (Contents × PaneRequest)
  | _, _, [] => []
  | state, pane, t :: rest =>
    match turn lowercase location view state pane t with
    | none => []
    | some (next, after) =>
      match t.result with
      | .ok contents => (contents, after) :: processed lowercase location view next after rest
      | .error _ => processed lowercase location view next after rest

end FileManager.Directory.Poll
