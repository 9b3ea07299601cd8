/-
Confinement to the accessible roots, over every run of requests.

The handlers of directories, files, searches and operations check every
location they are given: the service is called if every local one lands
below a root at that moment, and the request is denied otherwise
(`checked_requests_within_roots`). What is found below such a path
without taking a link is below the root as well. The file behind an
archive's location is not looked at: the check lets every other provider
through (`archive_outside_roots_is_listed`).
-/
import FileManager.Server.Routes
import FileManager.Server.Proofs.Roots
import FileManager.Lib.Machine

namespace FileManager.Server

open Locations (Segment)
open Archives.Reading (toNativePath ParsedArchiveLocation)
open AppState (start)
open List Machine Moment

variable (isUuid : List Char → Bool) {files : FileSystem} {roots : List (List Segment)}

-- ==== handlers

/-- The handlers that check the locations they are given. -/
def Request.checks : Request → Bool
  | .startComparison _ _ | .startChecksums _ | .saveChecksumFile _ | .startDuplicateScan _
  | .getThumbnail _ | .getFileIcon _ | .getFinderTags _ | .setFinderTags _
  | .getSpotlightComment _ | .setSpotlightComment _ | .invokeAction _ _ _
  | .applyWorkspaceCommand _ | .unaddressed => false
  | _ => true

theorem requireAll_append (first second : List LocationDto) :
    requireAll files roots (first ++ second)
      = (requireAll files roots first >>= fun _ => requireAll files roots second) := by
  induction first with
  | nil => rfl
  | cons location rest ih =>
    simp only [cons_append, requireAll, ih, bind_assoc]

theorem requireAll_ok_iff (hroots : roots ≠ []) (locations : List LocationDto) :
    requireAll files roots locations = .ok ()
      ↔ ∀ location ∈ locations, Admitted files roots location := by
  induction locations with
  | nil => simp [requireAll]
  | cons location rest ih =>
    rw [forall_mem_cons, ← ih, ← requireWithinRoots_ok_iff hroots, requireAll,
      Fallible.bind_eq_ok]
    constructor
    · rintro ⟨⟨⟩, hfirst, hrest⟩
      exact ⟨hfirst, hrest⟩
    · rintro ⟨hfirst, hrest⟩
      exact ⟨(), hfirst, hrest⟩

theorem requireAll_denied {locations : List LocationDto}
    (h : requireAll files roots locations ≠ .ok ()) :
    requireAll files roots locations = .error .permissionDenied := by
  induction locations with
  | nil => exact absurd rfl h
  | cons location rest ih =>
    rw [requireAll] at h ⊢
    cases hfirst : requireWithinRoots files roots location with
    | error error =>
      have hdenied : requireWithinRoots files roots location = .error .permissionDenied :=
        requireWithinRoots_denied (by simp [hfirst])
      rw [← hfirst, hdenied]
      rfl
    | ok =>
      rw [hfirst] at h
      exact ih h

theorem handle_of_checks {request : Request} (h : request.checks = true) :
    handle files roots request
      = (requireAll files roots (request.locations isUuid) >>= fun _ => .ok request) := by
  have hone : ∀ location, (requireAll files roots [location] >>= fun _ => Except.ok request)
      = (requireWithinRoots files roots location >>= fun _ => Except.ok request) := by
    intro location
    simp only [requireAll, bind_assoc]
    rfl
  cases request with
  | saveEditableFile location destination =>
    simp only [handle, Request.locations, requireAll, bind_assoc]
    rfl
  | startSearch searched => rfl
  | startOperation sources destination destinations =>
    simp only [handle, Request.locations, requireAll_append, bind_assoc]
    rfl
  | startComparison | startChecksums | saveChecksumFile | startDuplicateScan | getThumbnail
  | getFileIcon | getFinderTags | setFinderTags | getSpotlightComment | setSpotlightComment
  | invokeAction | applyWorkspaceCommand | unaddressed => cases h
  | _ => exact (hone _).symm

theorem handle_returns {request called : Request} (h : handle files roots request = .ok called) :
    called = request := by
  cases hchecks : request.checks with
  | true =>
    rw [handle_of_checks (fun _ => false) hchecks] at h
    obtain ⟨-, -, h⟩ := Fallible.bind_eq_ok.1 h
    exact (Except.ok.inj h).symm
  | false =>
    cases request with
    | startComparison | startChecksums | saveChecksumFile | startDuplicateScan | getThumbnail
    | getFileIcon | getFinderTags | setFinderTags | getSpotlightComment | setSpotlightComment
    | invokeAction | applyWorkspaceCommand | unaddressed => exact (Except.ok.inj h).symm
    | _ => cases hchecks

-- ==== runs

/-- The handler lets the request through. -/
def Moment.Accepted (roots : List (List Segment)) (moment : Moment) : Prop :=
  handle moment.files roots moment.request = .ok moment.request

variable {state : AppState} {moment : Moment}

theorem serve_accepted (h : moment.Accepted state.roots) :
    serve moment state = some { state with calls := state.calls ++ [moment] } := by
  rw [Accepted] at h
  simp only [serve, h]

theorem serve_denied {error : ApplicationError}
    (h : handle moment.files state.roots moment.request = .error error) :
    serve moment state = some state := by
  simp only [serve, h]

theorem mem_calls_iff {run : List Moment}
    (hrun : Run serve Free (start roots) run state) (moment : Moment) :
    moment ∈ state.calls ↔ moment ∈ run ∧ moment.Accepted roots := by
  have hall : state.roots = roots
      ∧ ∀ moment, moment ∈ state.calls ↔ moment ∈ run ∧ moment.Accepted roots := by
    refine Run.invariant_trace (P := fun run state => state.roots = roots
      ∧ ∀ moment, moment ∈ state.calls ↔ moment ∈ run ∧ moment.Accepted roots) ?_ ?_ hrun
    · exact ⟨rfl, by simp [start]⟩
    · rintro run state after latest - - hstep ⟨rfl, hcalls⟩
      cases hhandle : handle latest.files state.roots latest.request with
      | error error =>
        obtain rfl := Option.some.inj ((serve_denied hhandle).symm.trans hstep)
        refine ⟨rfl, fun moment => ?_⟩
        rw [hcalls, mem_append, mem_singleton]
        constructor
        · rintro ⟨hmem, haccepted⟩
          exact ⟨.inl hmem, haccepted⟩
        · rintro ⟨hmem | rfl, haccepted⟩
          · exact ⟨hmem, haccepted⟩
          · simp [Accepted, hhandle] at haccepted
      | ok called =>
        obtain rfl := handle_returns hhandle
        obtain rfl := Option.some.inj ((serve_accepted hhandle).symm.trans hstep)
        refine ⟨rfl, fun moment => ?_⟩
        simp only [mem_append, mem_singleton, hcalls]
        constructor
        · rintro (⟨hmem, haccepted⟩ | rfl)
          · exact ⟨.inl hmem, haccepted⟩
          · exact ⟨.inr rfl, hhandle⟩
        · rintro ⟨hmem | rfl, haccepted⟩
          · exact .inl ⟨hmem, haccepted⟩
          · exact .inr rfl
  exact hall.2 moment

-- ==== confinement

/-- A location of a local file stays within the roots: the path lands
below one of them, and so is everything that is found from there without
taking a link, which is what the path resolves to with the names on the
way after it. -/
structure StaysWithin (files : FileSystem) (roots : List (List Segment))
    (location : LocationDto) : Prop where
  rooted : Rooted files roots
  within : ∃ path found, toNativePath location = some path ∧ Lands files path found
    ∧ Below files roots found
    ∧ ∀ reached, Links.Reaches files found reached → Below files roots reached
      ∧ (canonicalize files path = some found → ∃ names : List Segment, reached = found ++ names
          ∧ Links.walk files maxLinks [] (path.map stepOf ++ names.map .down) = some reached)

theorem admitted_iff (location : LocationDto) :
    Admitted files roots location
      ↔ (location.providerId = "local" → StaysWithin files roots location) := by
  constructor
  · intro h hlocal
    obtain ⟨hrooted, path, found, hpath, hlands, hbelow⟩ := h hlocal
    refine ⟨hrooted, path, found, hpath, hlands, hbelow, fun reached hreached => ?_⟩
    refine ⟨hbelow.mono hreached.starts, fun hcanonical => ?_⟩
    exact hreached.walk maxLinks [] (path.map stepOf) hcanonical
  · intro h hlocal
    obtain ⟨hrooted, path, found, hpath, hlands, hbelow, -⟩ := h hlocal
    exact ⟨hrooted, path, found, hpath, hlands, hbelow⟩

/-- In every run, a handler that checks calls the service when every
local location it is given stays within the roots, and denies the
request otherwise. -/
theorem checked_requests_within_roots (roots : List (List Segment)) (hroots : roots ≠ [])
    (run : List Moment) (state : AppState)
    (hrun : Run serve Free (AppState.start roots) run state) :
    (∀ call ∈ state.calls, call ∈ run) ∧ ∀ moment ∈ run, moment.request.checks = true →
        (moment ∈ state.calls
            ∧ ∀ location ∈ moment.request.locations isUuid, location.providerId = "local" →
              StaysWithin moment.files roots location)
          ∨ (moment ∉ state.calls
            ∧ handle moment.files roots moment.request = .error .permissionDenied
            ∧ ∃ location ∈ moment.request.locations isUuid, location.providerId = "local"
              ∧ ¬ StaysWithin moment.files roots location) := by
  refine ⟨fun call hcall => ((mem_calls_iff hrun call).1 hcall).1, ?_⟩
  intro moment hmoment hchecks
  have hhandle : handle moment.files roots moment.request
      = (requireAll moment.files roots (moment.request.locations isUuid)
          >>= fun _ => .ok moment.request) := handle_of_checks isUuid hchecks
  by_cases hall : requireAll moment.files roots (moment.request.locations isUuid) = .ok ()
  · left
    rw [hall] at hhandle
    refine ⟨(mem_calls_iff hrun moment).2 ⟨hmoment, hhandle⟩, ?_⟩
    intro location hlocation
    exact (admitted_iff location).1 ((requireAll_ok_iff hroots _).1 hall location hlocation)
  · right
    rw [requireAll_denied hall] at hhandle
    refine ⟨?_, hhandle, ?_⟩
    · intro hcall
      have haccepted := ((mem_calls_iff hrun moment).1 hcall).2
      rw [Accepted, hhandle] at haccepted
      cases haccepted
    · rw [requireAll_ok_iff hroots, not_forall] at hall
      obtain ⟨location, hnot⟩ := hall
      obtain ⟨hlocation, hnot⟩ := Classical.not_imp.1 hnot
      rw [admitted_iff, Classical.not_imp] at hnot
      exact ⟨location, hlocation, hnot⟩

-- A shared directory with a link out of it.

def named (text : String) : Segment := Text.utf8 text.toList

def shared : FileSystem := fun path =>
  [([], .directory), ([named "srv"], .directory), ([named "srv", named "docs"], .directory),
    ([named "srv", named "out"], .link true [.down (named "home")]),
    ([named "home"], .directory), ([named "home", named "a.zip"], .file)].lookup path

def localFile (uri : String) : LocationDto where
  providerId := "local"
  uri := uri.toList

def listedDocs : Moment where
  files := shared
  request := .listDirectory (localFile "file:///srv/docs")

def readThroughLink : Moment where
  files := shared
  request := .readFileRange (localFile "file:///srv/out/a.zip")

theorem run_of_two : Run serve Free (start [[named "srv"]])
    [listedDocs, readThroughLink] ⟨[[named "srv"]], [listedDocs]⟩ := by
  have hlist : listedDocs.Accepted [[named "srv"]] := by
    rw [Accepted]
    decide +kernel
  have hread : handle shared [[named "srv"]] readThroughLink.request
      = .error .permissionDenied := by
    decide +kernel
  have hfirst : Run serve Free (start [[named "srv"]]) [listedDocs]
      ⟨[[named "srv"]], [listedDocs]⟩ := .snoc listedDocs .start trivial (serve_accepted hlist)
  exact .snoc readThroughLink hfirst trivial (serve_denied hread)

theorem link_out_of_roots_denied :
    (listedDocs ∈ [listedDocs] ∧ StaysWithin shared [[named "srv"]] (localFile "file:///srv/docs"))
      ∧ handle shared [[named "srv"]] readThroughLink.request = .error .permissionDenied := by
  obtain ⟨-, hall⟩ := checked_requests_within_roots (fun _ => false) [[named "srv"]] (by decide)
    _ _ run_of_two
  constructor
  · rcases hall listedDocs (by simp) rfl with ⟨hcalled, hwithin⟩ | ⟨hnot, -⟩
    · exact ⟨hcalled, hwithin _ (mem_singleton.2 rfl) rfl⟩
    · exact absurd (mem_singleton.2 rfl) hnot
  · rcases hall readThroughLink (by simp) rfl with ⟨hcalled, -⟩ | ⟨-, hdenied, -⟩
    · have heq := congrArg request (mem_singleton.1 hcalled)
      cases heq
    · exact hdenied

-- ==== archives

/-- The local file behind a location: its own, or the archive it is
in. -/
def localPath (location : LocationDto) : Option (List Segment) :=
  match ParsedArchiveLocation.parse isUuid location with
  | .ok parsed => some parsed.archivePath
  | .error _ => toNativePath location

/-- Every local file the service is called with, archives included,
resolves below a root. -/
def AllWithin (roots : List (List Segment)) (run : List Moment) : Prop :=
  ∀ state, Run serve Free (start roots) run state →
    ∀ call ∈ state.calls, ∀ location ∈ call.request.locations isUuid, ∀ path found,
      localPath isUuid location = some path → canonicalize call.files path = some found →
        Below call.files roots found

def zipLocation : LocationDto where
  providerId := "archive"
  uri := "archive:///home/a.zip!/".toList

def listedZip : Moment where
  files := shared
  request := .listDirectory zipLocation

theorem archive_outside_roots_is_listed :
    ¬ AllWithin (fun _ => false) [[named "srv"]] [listedZip] := by
  intro h
  have haccepted : listedZip.Accepted [[named "srv"]] := by
    rw [Accepted]
    decide +kernel
  have hrun : Run serve Free (AppState.start [[named "srv"]]) [listedZip]
      ⟨[[named "srv"]], [listedZip]⟩ := .snoc listedZip .start trivial (serve_accepted haccepted)
  have hpath : localPath (fun _ => false) zipLocation = some [named "home", named "a.zip"] := by
    decide +kernel
  have hfound : canonicalize shared [named "home", named "a.zip"]
      = some [named "home", named "a.zip"] := by
    decide +kernel
  obtain ⟨root, hroot, canonical, hcanonical, hbelow⟩ :=
    h _ hrun listedZip (mem_singleton.2 rfl) zipLocation (mem_singleton.2 rfl) _ _
      hpath hfound
  obtain rfl := mem_singleton.1 hroot
  have hsrv : canonicalize shared [named "srv"] = some [named "srv"] := by
    decide +kernel
  obtain rfl := Option.some.inj (hsrv.symm.trans hcanonical)
  revert hbelow
  decide +kernel

end FileManager.Server
