/-
`DirectoryService` and its client, for one pane (`fm-application`,
`directory.rs`; `navigation.ts` and `app-shell.ts` of the frontend): any
number of listing requests and watches, interleaved at the points where
the service takes the lock of its panes.

# Granularity

`list` takes the lock twice: to register the request, which supersedes
the pane's earlier one, and to store the page it answers with. Between
the two it enumerates the provider, or nothing when the pane has the
listing cached. So does a watch, once. The two ends of each are separate
actions.

The client sees answers and deltas in the order in which the service
stored what they report. What the provider enumerates (with the git
status the service adds) is part of the action that uses it.

`published` is a ghost: the deltas of every change that was published,
with what the client held before them.
-/
import FileManager.Directory.Model
import FileManager.Lib.Machine

namespace FileManager.Directory

-- ==== requests

/-- A continuation token, decoded: an offset into the listing, or text
that is no number. -/
inductive ContinuationToken
  | offset (n : Nat)
  | malformed

/-- `ListDirectoryRequest`, for the modelled pane. -/
structure ListDirectoryRequest where
  requestId : RequestId
  location : Location
  continuationToken : Option ContinuationToken
  view : ViewOptions

/-- The `ApplicationError`s of `list`. -/
inductive ApplicationError
  | vfs (error : VfsError)
  | invalidRequest (message : String)
  | operationCancelled
deriving DecidableEq

/-- `PaneRequest`; its request's cancellation token only makes provider
calls fail and is left out. -/
structure PaneRequest where
  requestId : RequestId
  watchToken : Nat
  revision : Nat
  view : ViewOptions
  snapshot : Option DirectorySnapshot
  fullEntries : Option (List EntrySummary)
deriving DecidableEq

/-- A `list` call that has registered its request; `cached` is the
listing it found on the pane. -/
structure ListCall where
  request : ListDirectoryRequest
  cached : Option (List EntrySummary)
  answered : Bool

/-- `PaneWatch`: a watch of the pane, or, with no token, the one-off
refresh of `refresh_affected`. `pending` is the change it is
enumerating the provider for. -/
structure PaneWatch where
  location : Location
  view : ViewOptions
  token : Option Nat
  pending : Option ProviderChange

/-- The deltas of one change, and the client's identifiers before
them. -/
structure Publication where
  change : ProviderChange
  listing : List EntrySummary
  held : List EntryId
  refetching : Bool
  deltas : List DirectoryDelta

/-- The pane on the service's side, its calls and watches, and the
client. -/
structure State where
  pane : Option PaneRequest
  calls : List ListCall
  watches : List PaneWatch
  tokens : Nat
  cancelled : List Nat
  client : Client
  published : List Publication

/-- A pane nobody has asked for yet. -/
def initial : State where
  pane := none
  calls := []
  watches := []
  tokens := 0
  cancelled := []
  client := { pages := { entries := [], revision := none }
              shown := { entries := [], revision := none }
              refetching := false, known := [] }
  published := []

-- ==== the client's ends

/-- `load` and `navigateHistory` show what was loaded before while they
wait; a background refresh and `loadNextPageImpl` change nothing. -/
def Client.request (client : Client) (request : ListDirectoryRequest)
    (background : Bool) : Client :=
  if request.continuationToken = none ∧ background = false then
    let view := { client.pages with revision := none }
    { client with pages := view, shown := view }
  else client

/-- A page has arrived: `viewFromSnapshot`, after the pages before it
where it continues them. -/
def Client.receive (client : Client) (request : ListDirectoryRequest)
    (snapshot : DirectorySnapshot) : Client :=
  let page := snapshot.entries.map EntrySummary.payload
  let ids := page.map EntrySummaryPayload.id
  match request.continuationToken with
  | none =>
    let view := { entries := page, revision := some snapshot.revision }
    { pages := view, shown := view, refetching := false, known := ids }
  | some _ =>
    let view := { entries := client.pages.entries ++ page
                  revision := some snapshot.revision }
    { client with pages := view, shown := view, known := client.known ++ ids }

/-- The request failed: a background refresh is retried (`retry`),
another first page leaves the error view, and a continuation the pages
before it. -/
def Client.fail (client : Client) (request : ListDirectoryRequest) (retry : Bool) : Client :=
  match request.continuationToken with
  | none =>
    if retry then { client with refetching := true }
    else
      let view := { entries := [], revision := none }
      { pages := view, shown := view, refetching := false, known := [] }
  | some _ => { client with shown := client.pages }

-- ==== list

def listPageSize : Nat := 256

def decodePageOffset : Option ContinuationToken → Except ApplicationError Nat
  | none => .ok 0
  | some (.offset n) => .ok n
  | some .malformed => .error (.invalidRequest "invalid continuation token")

/-- `continuing_same_listing`. -/
def continuesListing (previous : Option PaneRequest)
    (request : ListDirectoryRequest) : Option PaneRequest :=
  match request.continuationToken, previous with
  | some _, some state =>
    match state.snapshot with
    | some snapshot =>
      if snapshot.location = request.location ∧ state.view = request.view
      then some state else none
    | none => none
  | _, _ => none

/-- The first lock of `list`: the request becomes the pane's newest. -/
def register (s : State) (request : ListDirectoryRequest) (background : Bool) : State :=
  let revision := match s.pane with
    | some state => state.revision
    | none => 0
  let client := s.client.request request background
  match continuesListing s.pane request with
  | some previous =>
    { s with
      pane := some { previous with requestId := request.requestId }
      calls := s.calls ++ [{ request := request, cached := previous.fullEntries
                             answered := false }]
      client := client }
  | none =>
    { s with
      pane := some { requestId := request.requestId, watchToken := s.tokens
                     revision := revision, view := request.view
                     snapshot := none, fullEntries := none }
      calls := s.calls ++ [{ request := request, cached := none, answered := false }]
      tokens := s.tokens + 1
      cancelled := match s.pane with
        | some previous => previous.watchToken :: s.cancelled
        | none => s.cancelled
      client := client }

/-- The listing a call pages through: the cached one, or what the
provider enumerated. -/
def ListCall.listing (lowercase : String → String) (call : ListCall)
    (enumerated : List EntrySummary) : List EntrySummary :=
  match call.cached with
  | some cached => cached
  | none => arrange lowercase call.request.view enumerated

/-- The page of `list`, cut from the full listing. -/
def pageSnapshot (request : ListDirectoryRequest) (full : List EntrySummary)
    (offset revision : Nat) (writable : Bool) : DirectorySnapshot :=
  let last := min full.length (offset + listPageSize)
  let hasMore := decide (last < full.length)
  { requestId := request.requestId
    revision := revision
    location := request.location
    writable := writable
    entries := (full.drop offset).take (last - offset)
    totalKnownEntries := some full.length
    totalKnownSize := some (aggregateTotals full).1
    totalKnownFileCount := some (aggregateTotals full).2
    hasMore := hasMore
    continuationToken := if hasMore then some last else none }

/-- What `list` does before its second lock: the listing, the offset, or
the error it returns. -/
def prepare (lowercase : String → String) (call : ListCall)
    (enumerated : Except VfsError (List EntrySummary)) :
    Except ApplicationError (List EntrySummary × Nat) :=
  match enumerated with
  | .error error => .error (.vfs error)
  | .ok entries =>
    let full := call.listing lowercase entries
    match decodePageOffset call.request.continuationToken with
    | .error error => .error error
    | .ok offset =>
      if offset > full.length then
        .error (.invalidRequest "continuation token is out of range")
      else .ok (full, offset)

/-- What became of the watch that a first page asks for. -/
inductive WatchOutcome
  | unsupported
  | acquired
  | failed
deriving DecidableEq

/-- Store a page on the pane and answer with it. A first page takes a
watch; when that fails the call fails, with its page stored. -/
def storePage (s : State) (state : PaneRequest) (call : ListCall) (full : List EntrySummary)
    (offset : Nat) (writable retry : Bool) (watch : WatchOutcome) : State :=
  let revision := state.revision + 1
  let snapshot := pageSnapshot call.request full offset revision writable
  let s : State := { s with pane := some { state with
    revision := revision, fullEntries := some full, snapshot := some snapshot } }
  match call.request.continuationToken, watch with
  | none, .failed => { s with client := s.client.fail call.request retry }
  | none, .acquired =>
    { s with
      watches := s.watches ++ [{ location := snapshot.location
                                 view := call.request.view
                                 token := some state.watchToken
                                 pending := none }]
      client := s.client.receive call.request snapshot }
  | _, _ => { s with client := s.client.receive call.request snapshot }

/-- The second lock of `list`. A call that is no longer the pane's
newest is cancelled, and the client ignores its answer. -/
def answer (lowercase : String → String) (s : State) (i : Nat) (call : ListCall)
    (enumerated : Except VfsError (List EntrySummary)) (writable retry : Bool)
    (watch : WatchOutcome) : State :=
  let s : State := { s with calls := s.calls.set i { call with answered := true } }
  match s.pane with
  | none => s
  | some state =>
    if state.requestId = call.request.requestId then
      match prepare lowercase call enumerated with
      | .error _ => { s with client := s.client.fail call.request retry }
      | .ok (full, offset) => storePage s state call full offset writable retry watch
    else s

-- ==== the watches

def publishChanges (lowercase : String → String) (s : State) (watch : PaneWatch)
    (change : ProviderChange) (enumerated : List EntrySummary) : State :=
  let entries := arrange lowercase watch.view enumerated
  match s.pane with
  | none => s
  | some state =>
    match state.snapshot with
    | none => s
    | some previous =>
      if previous.location = watch.location then
        let revision := state.revision + 1
        let snapshot : DirectorySnapshot := { previous with
          revision := revision
          entries := entries
          totalKnownEntries := some entries.length
          totalKnownSize := some (aggregateTotals entries).1
          totalKnownFileCount := some (aggregateTotals entries).2
          hasMore := false
          continuationToken := none }
        let deltas := deltasForChange change previous snapshot entries revision
        let last := finalRevision revision deltas
        { s with
          pane := some { state with
            revision := last
            fullEntries := some entries
            snapshot := some { snapshot with revision := last } }
          client := deltas.foldl Client.applyDelta s.client
          published := s.published ++ [{
            change := change, listing := entries
            held := s.client.shown.entries.map EntrySummaryPayload.id
            refetching := s.client.refetching, deltas := deltas }] }
      else s

/-- `refresh_affected`, on the modelled pane. -/
def collect (s : State) : Option State :=
  match s.pane with
  | none => none
  | some state =>
    match state.snapshot with
    | none => none
    | some snapshot =>
      some { s with watches := s.watches ++ [{
        location := snapshot.location, view := state.view, token := none
        pending := some .resetRequired }] }

-- ==== transitions

/-- A request of the client, the answer to one, a change a watch
receives, its publication, and a refresh after an operation. -/
inductive Action
  | request (request : ListDirectoryRequest) (background : Bool)
  | answer (call : Nat) (enumerated : Except VfsError (List EntrySummary))
      (writable retry : Bool) (watch : WatchOutcome)
  | change (watch : Nat) (change : ProviderChange)
  | publish (watch : Nat) (enumerated : Except VfsError (List EntrySummary))
  | refresh

/-- The transition function. -/
def apply (lowercase : String → String) (a : Action) (s : State) : Option State :=
  match a with
  | .request request background => some (register s request background)
  | .answer i enumerated writable retry watch =>
    match s.calls[i]? with
    | none => none
    | some call =>
      if call.answered then none
      else some (answer lowercase s i call enumerated writable retry watch)
  | .change w change =>
    match s.watches[w]? with
    | none => none
    | some watch =>
      match watch.token, watch.pending with
      | some token, none =>
        if token ∈ s.cancelled then none
        else some { s with
          watches := s.watches.set w { watch with pending := some change } }
      | _, _ => none
  | .publish w enumerated =>
    match s.watches[w]? with
    | none => none
    | some watch =>
      match watch.pending with
      | none => none
      | some change =>
        let s : State := { s with
          watches := s.watches.set w { watch with pending := none } }
        match enumerated with
        | .error _ => some s
        | .ok entries => some (publishChanges lowercase s watch change entries)
  | .refresh => collect s

end FileManager.Directory
