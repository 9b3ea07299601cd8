/-
The changes inside an archive (`fm-archive`, `lib.rs`: `create_directory`,
`remove` and `commit_copy`, `detect_format`, `require_zip_mutation` and
`rewrite_zip`), as calls that run beside each other on one ZIP file.

A call reads the archive it has opened to the end, writes a replacement
beside it and renames that over the archive. An archive is never changed
in place, so what a call reads is what was there when it opened the file.
Nothing but the rename changes the archive, and nothing keeps two calls
apart: the scheduler bounds how many operations run, not what they run on.

A step is one access to the archive. It may end in any error instead (a
failed system call, a cancelled token), after which the guard has removed
the replacement. What the crates do is a parameter.

The codecs give back the entries they were given, and may refuse a name
that they have already.
-/
import FileManager.Transfers.Files
import FileManager.Locations.Model
import Mathlib.Data.List.DropRight

namespace FileManager.Archives

inductive ArchiveCreationFormat
  | zip
  | sevenZip

/-- An entry of an archive; directories have no content. -/
structure Entry where
  name : String
  content : Option Bytes
deriving DecidableEq

/-- A codec: what is written can be read back. `duplicate` is what it
says to a name that it has already, `none` if it takes it. -/
structure Codec where
  encode : List Entry → Bytes
  decode : Bytes → Option (List Entry)
  duplicate : Option (String → String)
  decode_encode : ∀ entries, decode (encode entries) = some entries

/-- The text before an error of the codec: `zip_error` and
`seven_zip_error`. -/
def ArchiveCreationFormat.invalid : ArchiveCreationFormat → String
  | .zip => "invalid ZIP archive: "
  | .sevenZip => "invalid 7z archive: "

/-- Hand an entry to the writer. -/
def Codec.push (codec : Codec) (format : ArchiveCreationFormat) (entry : Entry)
    (entries : List Entry) : Except VfsError (List Entry) :=
  match codec.duplicate with
  | none => .ok (entries ++ [entry])
  | some message =>
    if entry.name ∈ entries.map Entry.name then
      .error (.io (format.invalid ++ message entry.name))
    else .ok (entries ++ [entry])

theorem push_eq_ok {codec : Codec} {format : ArchiveCreationFormat} {entry : Entry}
    {entries entries' : List Entry} :
    codec.push format entry entries = .ok entries' ↔ entries' = entries ++ [entry]
        ∧ (codec.duplicate ≠ none → entry.name ∉ entries.map Entry.name) := by
  unfold Codec.push
  cases codec.duplicate with
  | none => simp [eq_comm]
  | some message =>
    simp only
    split
    case isTrue hmem => simp [hmem]
    case isFalse hmem => simp [hmem, eq_comm]

end FileManager.Archives

namespace FileManager.Archives.Updates

-- ==== the crates

/-- The crates that read and write archives. -/
structure Crates where
  zip : Codec
  /-- What `ZipArchive::new` says of bytes that it cannot read. -/
  unreadable : Bytes → String
  /-- `ZipFile::enclosed_name`. -/
  enclosedName : String → Option String
  /-- `ZipFile::is_dir`. -/
  isDir : String → Bool
  /-- The first 262 bytes out of a `GzDecoder`. -/
  gunzip : Bytes → Except String Bytes
  /-- `rars::ArchiveReader::read_path`. -/
  readsRar : Bytes → Bool

inductive TarCompression
  | none
  | gzip
  | bzip2
  | xz
deriving DecidableEq

inductive ArchiveFormat
  | zip
  | sevenZip
  | gzip
  | tar (compression : TarCompression)
  | rar
deriving DecidableEq

def zipMagic : Bytes := [0x50, 0x4b]

def sevenZMagic : Bytes := [0x37, 0x7a, 0xbc, 0xaf, 0x27, 0x1c]

def gzipMagic : Bytes := [0x1f, 0x8b]

def bzip2Magic : Bytes := [0x42, 0x5a, 0x68]

def xzMagic : Bytes := [0xfd, 0x37, 0x7a, 0x58, 0x5a, 0]

def rar4Magic : Bytes := [0x52, 0x61, 0x72, 0x21, 0x1a, 0x07, 0]

def rar5Magic : Bytes := [0x52, 0x61, 0x72, 0x21, 0x1a, 0x07, 0x01, 0]

/-- The mark of a tar header: `ustar` at 257. -/
def isTar (header : Bytes) : Bool :=
  decide (262 ≤ header.length) && (header.drop 257).take 5 == [0x75, 0x73, 0x74, 0x61, 0x72]

/-- `detect_format`, on what the file holds. -/
def detectFormat (crates : Crates) (bytes : Bytes) : Except VfsError ArchiveFormat :=
  let magic := bytes.take 512
  if sevenZMagic.isPrefixOf magic then .ok .sevenZip
  else if zipMagic.isPrefixOf magic then .ok .zip
  else if gzipMagic.isPrefixOf magic then
    match crates.gunzip bytes with
    | .error message => .error (.io message)
    | .ok header => .ok (if isTar header then .tar .gzip else .gzip)
  else if bzip2Magic.isPrefixOf magic then .ok (.tar .bzip2)
  else if xzMagic.isPrefixOf magic then .ok (.tar .xz)
  else if rar4Magic.isPrefixOf magic || rar5Magic.isPrefixOf magic then .ok .rar
  else if isTar magic then .ok (.tar .none)
  else if (crates.zip.decode bytes).isSome then .ok .zip
  else if crates.readsRar bytes then .ok .rar
  else .error (.io "unsupported or unrecognized archive format")

def requireZipMutation (crates : Crates) (bytes : Bytes) (capability : String) :
    Except VfsError Unit := do
  if (← detectFormat crates bytes) = .zip then return ()
  else throw (.unsupportedCapability capability)

/-- `ZipArchive::new`, under `zip_error`. -/
def openZip (crates : Crates) (bytes : Bytes) : Except VfsError (List Entry) :=
  match crates.zip.decode bytes with
  | none => .error (.io (ArchiveCreationFormat.zip.invalid ++ crates.unreadable bytes))
  | some entries => .ok entries

-- ==== the names

/-- `trim_end_matches('/')`. -/
def trimSlashes (text : String) : String := String.ofList (text.toList.rdropWhile (· == '/'))

/-- `replace('\\', "/")`. -/
def forwardSlashes (text : String) : String :=
  String.ofList (text.toList.map fun c => if c = '\\' then '/' else c)

/-- The path is relative and its components are all `Normal`. A dot is a
component only at the start. -/
def isNormal (path : String) : Bool :=
  let parts := path.toList.splitOn '/'
  path.toList.head? != some '/' && parts.head? != some ['.'] && !parts.contains ['.', '.']

/-- `safe_entry_path`, of an entry with the given name. -/
def safeEntryPath (crates : Crates) (name : String) : Except VfsError String :=
  match crates.enclosedName name with
  | none => .error .unsafeArchiveEntry
  | some path =>
    if isNormal path then
      .ok (if crates.isDir name then trimSlashes (forwardSlashes path) else forwardSlashes path)
    else .error .unsafeArchiveEntry

-- ==== the rewrite

/-- `Rewrite`; a staged file stands for what it holds. -/
inductive Rewrite
  | addFile (inner : String) (staging : Bytes) (overwrite : Bool)
  | addDirectory (inner : String)
  | remove (inner : String) (recursive : Bool)
deriving DecidableEq

/-- The place that an error names by its path inside the archive. -/
def insideLocation (inner : String) : Location where
  providerId := "archive"
  uri := { authority := "", segments := [inner] }

/-- The name is that of the removed entry. -/
def isExact (inner name : String) : Bool := trimSlashes name == trimSlashes inner

/-- The name is below the removed entry. -/
def isDescendant (inner name : String) : Bool :=
  (trimSlashes inner ++ "/").toList.isPrefixOf name.toList

/-- Whether an entry of this name is left out, or what stops the
rewrite. -/
def Rewrite.skip (name : String) : Rewrite → Except VfsError Bool
  | .addFile inner _ overwrite =>
    if name = inner then
      if overwrite then .ok true
      else .error (.alreadyExists (insideLocation inner))
    else .ok false
  | .addDirectory inner =>
    if isExact inner name then .error (.alreadyExists (insideLocation inner))
    else .ok false
  | .remove inner recursive =>
    if isDescendant inner name ∧ recursive = false then
      .error (.io "archive directory is not empty")
    else .ok (isExact inner name || isDescendant inner name)

/-- The loop over the entries, with `matched` and what has been
written. -/
def copyEntries (crates : Crates) (rewrite : Rewrite) :
    List Entry → Bool × List Entry → Except VfsError (Bool × List Entry)
  | [], state => .ok state
  | item :: rest, (isMatched, written) => do
    let name ← safeEntryPath crates item.name
    if ← rewrite.skip name then copyEntries crates rewrite rest (true, written)
    else
      let written ← crates.zip.push .zip item written
      copyEntries crates rewrite rest (isMatched, written)

/-- The entries of the replacement that `rewrite_zip` writes. -/
def rewriteEntries (crates : Crates) (rewrite : Rewrite) (entries : List Entry) :
    Except VfsError (List Entry) := do
  let (isMatched, written) ← copyEntries crates rewrite entries (false, [])
  match rewrite with
  | .addFile inner staging _ =>
    crates.zip.push .zip { name := inner, content := some staging } written
  | .addDirectory inner => crates.zip.push .zip { name := inner, content := none } written
  | .remove inner _ =>
    if isMatched then return written
    else throw (.notFound (insideLocation inner))

-- ==== the calls

/-- The calls, with what they are given. -/
inductive Request
  | createDirectory (location : Location) (name : String)
  | remove (location : Location) (recursive useTrash : Bool)
  | commitCopy (temporary destination : Location) (overwrite : Bool)

/-- The location whose archive is changed. -/
def Request.location : Request → Location
  | .createDirectory location _ => location
  | .remove location .. => location
  | .commitCopy _ destination _ => destination

/-- The capability that a read-only format lacks. -/
def Request.capability : Request → String
  | .createDirectory .. => "CREATE_DIRECTORY"
  | .remove .. => "DELETE"
  | .commitCopy .. => "WRITE"

/-- `ParsedArchiveLocation::parse`: the path inside the archive. -/
def parseInner (location : Location) : Except VfsError String :=
  if location.providerId = "archive" then
    .ok ("/".intercalate location.uri.segments)
  else .error (.invalidLocation location)

/-- `Location::join`, of a location inside an archive. -/
def joinInner (location : Location) (name : String) : Except VfsError Location :=
  match Locations.validateName name.toList with
  | .error _ => .error (.invalidLocation location)
  | .ok () => .ok { location with uri :=
      { location.uri with segments := location.uri.segments ++ [name] } }

/-- `staged_writes`: what has been written for the temporary. -/
abbrev StagedWrites := List (Location × Bytes)

/-- What a call checks before it hands the rewrite to its worker. -/
def Request.plan (staged : StagedWrites) : Request → Except VfsError Rewrite
  | .createDirectory location name => do
    let inner ← parseInner (← joinInner location name)
    return .addDirectory (inner ++ "/")
  | .remove location recursive useTrash => do
    if useTrash then throw (.unsupportedCapability "TRASH")
    let inner ← parseInner location
    if inner = "" then throw (.invalidLocation location)
    return .remove inner recursive
  | .commitCopy temporary destination overwrite =>
    match Keyed.get staged temporary with
    | none => .error (.invalidLocation temporary)
    | some staging => do
      let inner ← parseInner destination
      return .addFile inner staging overwrite

/-- A commit takes its staged file out of the table. -/
def Request.unstage (staged : StagedWrites) : Request → StagedWrites
  | .commitCopy temporary _ _ => Keyed.keep staged (· ≠ temporary)
  | _ => staged

-- ==== the machine

/-- Where a call stands: before `require_zip_mutation`, before
`rewrite_zip`, before the rename with the entries it opened, or at its
end. -/
inductive Position
  | detecting
  | opening
  | rewriting (entries : List Entry)
  | returned (result : Except VfsError Unit)
deriving DecidableEq

structure Call where
  request : Request
  /-- What the checks before the worker made of the request. -/
  plan : Except VfsError Rewrite
  position : Position

structure State where
  archive : Bytes
  staged : StagedWrites
  calls : List Call

def initial (archive : Bytes) : State where
  archive := archive
  staged := []
  calls := []

inductive Action
  /-- `open_write`, and the writes to the stream it gives. -/
  | stage (temporary : Location) (content : Bytes)
  /-- A call is made; `cancelled` is its token. -/
  | start (request : Request) (cancelled : Bool)
  /-- Call `i` goes on to its next access, which may fail. -/
  | access (i : Nat) (fault : Option VfsError)

/-- Call `i` comes to a position. -/
def State.move (s : State) (i : Nat) (call : Call) (position : Position) : State :=
  { s with calls := s.calls.set i { call with position := position } }

/-- A call up to its worker. -/
def begin (s : State) (request : Request) (cancelled : Bool) : State :=
  if cancelled then
    let plan : Except VfsError Rewrite := .error .cancelled
    { s with calls := s.calls ++ [⟨request, plan, .returned (.error .cancelled)⟩] }
  else
    let position : Position := match request.plan s.staged with
      | .ok _ => .detecting
      | .error error => .returned (.error error)
    { s with
      staged := request.unstage s.staged
      calls := s.calls ++ [⟨request, request.plan s.staged, position⟩] }

/-- The next access of a call whose rewrite is `rewrite`. -/
def advance (crates : Crates) (s : State) (i : Nat) (call : Call) (rewrite : Rewrite) :
    Option State :=
  match call.position with
  | .detecting =>
    match requireZipMutation crates s.archive call.request.capability with
    | .error error => some (s.move i call (.returned (.error error)))
    | .ok () => some (s.move i call .opening)
  | .opening =>
    match openZip crates s.archive with
    | .error error => some (s.move i call (.returned (.error error)))
    | .ok entries => some (s.move i call (.rewriting entries))
  | .rewriting entries =>
    match rewriteEntries crates rewrite entries with
    | .error error => some (s.move i call (.returned (.error error)))
    | .ok replacement =>
      -- `rename`: whatever is there by now is replaced
      some { s.move i call (.returned (.ok ())) with
        archive := crates.zip.encode replacement }
  | .returned _ => none

/-- The transition function of the calls on the archive at `outer`. -/
def apply (crates : Crates) (outer : String) (a : Action) (s : State) : Option State :=
  match a with
  | .stage temporary content =>
    some { s with staged := Keyed.put s.staged temporary content }
  | .start request cancelled =>
    if request.location.uri.authority = outer then some (begin s request cancelled)
    else none
  | .access i fault =>
    match s.calls[i]? with
    | none => none
    | some call =>
      match call.plan, call.position, fault with
      | .error _, _, _ => none
      | .ok _, .returned _, _ => none
      | .ok _, _, some error => some (s.move i call (.returned (.error error)))
      | .ok rewrite, _, none => advance crates s i call rewrite

-- ==== what calls did

/-- Call `i` returned `Ok`. -/
def State.succeeded (s : State) (i : Nat) : Bool :=
  match s.calls[i]? with
  | some call => call.position == .returned (.ok ())
  | none => false

/-- What call `i` was to do. -/
def State.rewriteOf (s : State) (i : Nat) : Option Rewrite :=
  match s.calls[i]? with
  | some call => call.plan.toOption
  | none => none

/-- One rewrite after the other, on entries that nobody else changes. -/
def applyAll (crates : Crates) (entries : List Entry) (rewrites : List Rewrite) :
    Except VfsError (List Entry) :=
  rewrites.foldlM (fun entries rewrite => rewriteEntries crates rewrite entries) entries

end FileManager.Archives.Updates
