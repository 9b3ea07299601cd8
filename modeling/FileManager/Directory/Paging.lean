/-
A directory's pages (`fm-application`, `directory.rs`): those of a
provider, which `list_all` puts together, and those of a pane, which a
client asks for one after the other by their continuation tokens.

# No change in between

While a call of `list` waits, and until the next one, other tasks go on.
That nothing changes in between says that they leave the pane and the
call alone (`Quiet`); apart from that they may do what they like.
-/
import FileManager.Directory.Tasks

namespace FileManager.Directory

-- ==== the provider's pages

/-- A `DirectoryPage`, as far as `list_all` reads it. -/
structure DirectoryPage where
  entries : List EntrySummary
  continuationToken : Option String
  hasMore : Bool

/-- What a provider answers to the requests of one `list_all`, by their
number and token. -/
abbrev Answers : Type := Nat → Option String → Except VfsError DirectoryPage

/-- The loop of `list_all`; nothing where so many requests do not
suffice. -/
def listPages (answers : Answers) : Nat → Nat → Option String → List EntrySummary →
    Option (Except VfsError (List EntrySummary))
  | 0, _, _, _ => none
  | fuel + 1, number, token, entries =>
    match answers number token with
    | .error error => some (.error error)
    | .ok page =>
      if !page.hasMore then some (.ok (entries ++ page.entries))
      else listPages answers fuel (number + 1) page.continuationToken (entries ++ page.entries)

def listAll (answers : Answers) (fuel : Nat) : Option (Except VfsError (List EntrySummary)) :=
  listPages answers fuel 0 none []

/-- The pages a provider gives from a request on, the last one without
more. -/
inductive Serves (answers : Answers) : Nat → Option String → List DirectoryPage → Prop
  | last {number : Nat} {token : Option String} {page : DirectoryPage} :
      answers number token = .ok page → page.hasMore = false →
      Serves answers number token [page]
  | more {number : Nat} {token : Option String} {page : DirectoryPage}
      {rest : List DirectoryPage} :
      answers number token = .ok page → page.hasMore = true →
      Serves answers (number + 1) page.continuationToken rest →
      Serves answers number token (page :: rest)

namespace Tasks

-- ==== the pane's pages

/-- The pane, and a call, are as they were. -/
structure Quiet (i : Nat) (w w' : World) : Prop where
  pane : w'.pane = w.pane
  call : w'.calls[i]? = w.calls[i]?

/-- The page that a call has returned. -/
def World.page (w : World) (i : Nat) : Option DirectorySnapshot :=
  match w.calls[i]? with
  | none => none
  | some call =>
    match call.phase with
    | .returned (.ok snapshot) => some snapshot
    | _ => none

variable (lowercase : String → String) (others : Nat → World → World)
  (enumeration : Enumeration) (writable tracking : Bool)

/-- A call of `list`, from its request to its answer, with what else
happens in between. -/
def listPage (w : World) (request : ListDirectoryRequest) :
    Option (World × DirectorySnapshot) := do
  let i := w.calls.length
  let w ← apply lowercase (.request request) w
  let w ← apply lowercase (.enumerate i (.ok enumeration)) (others i w)
  let w ← apply lowercase (.commit i writable tracking) (others i w)
  let w ← if request.continuationToken = none ∧ tracking = true
    then apply lowercase (.acquire i (.ok ())) (others i w) else some w
  let snapshot ← w.page i
  return (others i w, snapshot)

/-- The request for the page after one. -/
def nextPage (request : ListDirectoryRequest) (id : RequestId)
    (snapshot : DirectorySnapshot) : ListDirectoryRequest :=
  { request with
    requestId := id
    continuationToken := snapshot.continuationToken.map .offset }

/-- The pages of a listing, until one is the last. -/
def followTokens (ids : RequestId → RequestId) :
    Nat → World → ListDirectoryRequest → Option (List DirectorySnapshot)
  | 0, _, _ => none
  | fuel + 1, w, request => do
    let (w, snapshot) ← listPage lowercase others enumeration writable tracking w request
    if snapshot.hasMore then
      let rest ← followTokens ids fuel w (nextPage request (ids request.requestId) snapshot)
      return snapshot :: rest
    else return [snapshot]

end Tasks

end FileManager.Directory
