/-
Reading an entry within limits (`fm-archive`, `lib.rs`:
`read_archive_entry` and the readers of the formats, `check_limits`).

The crates are a parameter: an archive is what its format's crate finds
in it. The decoder of a ZIP entry is given as many bytes as its headers
call compressed, and no more, and what it gives is checked against their
checksum; the size that they declare bounds nothing. What is counted is
the decoded bytes of the entry.
-/
import FileManager.Archives.Rewrite

namespace FileManager.Archives.Limits

open Updates (forwardSlashes insideLocation isNormal trimSlashes)

structure ArchiveLimits where
  maxUncompressedEntryBytes : Nat
  maxExpansionRatio : Nat

/-- `ArchiveLimits::default`. -/
def ArchiveLimits.standard : ArchiveLimits where
  maxUncompressedEntryBytes := 8 * 1024 * 1024 * 1024
  maxExpansionRatio := 1000

def checkLimits (uncompressed compressed : Nat) (limits : ArchiveLimits) : Except VfsError Unit :=
  if limits.maxUncompressedEntryBytes < uncompressed then
    .error (.archiveResourceLimit "uncompressedEntryBytes")
  else if 0 < uncompressed
      ∧ (compressed = 0 ∨ limits.maxExpansionRatio < uncompressed / max compressed 1) then
    .error (.archiveResourceLimit "expansionRatio")
  else .ok ()

-- ==== archives

inductive DecodeErrorKind
  | needPassword
  | wrongPassword
  | other

/-- What a crate fails with when it decodes, and its text. -/
structure DecodeError where
  kind : DecodeErrorKind
  text : String

/-- `seven_zip_error` and `rar_error`, of a format that has a name in its
errors; else the text alone. -/
def decodeError (format : Option String) (error : DecodeError) : VfsError :=
  match format, error.kind with
  | some _, .needPassword => .credentialRequired
  | some _, .wrongPassword => .invalidCredential
  | some format, .other => .io ("invalid " ++ format ++ " archive: " ++ error.text)
  | none, _ => .io error.text

/-- What a decoder gives, and the failure that it ends with. -/
structure Decoded where
  bytes : Bytes
  failure : Option DecodeError

/-- What the headers say of an entry. -/
structure Declared where
  name : String
  isDirectory : Bool
  size : Nat
  compressedSize : Nat

/-- What the crates compute: the data of a ZIP entry from its compressed
bytes, by its method, those of a gzip file, and the checksum of a ZIP. -/
structure Decoders where
  decompress : Nat → Bytes → Decoded
  crc32 : Bytes → Nat
  gunzip : Bytes → Decoded

/-- An entry of a ZIP archive, with the bytes of the archive from its data
on; AE-2 entries have no checksum. `unlocked` is what the password comes
to. -/
structure ZipItem extends Declared where
  method : Nat
  checksum : Option Nat
  stored : Bytes
  unlocked : Except VfsError Unit

/-- What the crate's reader of the entry gives: the compressed bytes are
decoded, and the checksum is looked at when they end. -/
def ZipItem.data (decoders : Decoders) (item : ZipItem) : Decoded :=
  let decoded := decoders.decompress item.method (item.stored.take item.compressedSize)
  match decoded.failure, item.checksum with
  | none, some checksum =>
    if decoders.crc32 decoded.bytes = checksum then decoded
    else { decoded with failure := some ⟨.other, "Invalid checksum"⟩ }
  | _, _ => decoded

/-- A member of a RAR archive, whose name may not be UTF-8. -/
structure RarMember extends Declared where
  isUtf8 : Bool
  data : Decoded

inductive TarKind
  | file
  | directory
  | other
deriving DecidableEq

/-- An entry of a tar archive; `size` is that of its header. -/
structure TarEntry where
  kind : TarKind
  path : Except VfsError String
  size : Except VfsError Nat
  data : Decoded

/-- An archive, as its format's crate opens it; of a gzip file the name
that `gzip_entry_name` gives it and its bytes. -/
inductive Contents
  | zip (entries : List ZipItem)
  | sevenZip (files : List Declared) (readFile : String → Decoded)
  | gzip (name : Except VfsError String) (file : Bytes)
  | tar (entries : List (Except VfsError TarEntry))
  | rar (members : List RarMember)

-- ==== readers

def safeStoredPath (name : String) (isDirectory : Bool) : Except VfsError String :=
  let normalized := forwardSlashes name
  if isNormal normalized then
    .ok (if isDirectory then trimSlashes normalized else normalized)
  else .error .unsafeArchiveEntry

/-- The data that are decoded, with the compressed size of their entry,
if it has one, and the format that their failures name. -/
structure Chosen where
  compressed : Option Nat
  data : Decoded
  format : Option String

variable (decoders : Decoders) (limits : ArchiveLimits) (inner : String)

/-- `read_zip_entry`, up to the reading. -/
def chooseZip (entries : List ZipItem) : Except VfsError Chosen :=
  match entries.find? (·.name = inner) with
  | none => .error (.notFound (insideLocation inner))
  | some item => do
    item.unlocked
    if item.isDirectory then throw (.isADirectory (insideLocation inner))
    checkLimits item.size item.compressedSize limits
    return ⟨some item.compressedSize, item.data decoders, none⟩

/-- The branch of `read_archive_entry` for 7z. -/
def chooseSevenZip (files : List Declared) (readFile : String → Decoded) : Except VfsError Chosen :=
  match files.find? (·.name = inner) with
  | none => .error (.notFound (insideLocation inner))
  | some entry => do
    checkLimits entry.size entry.compressedSize limits
    return ⟨some entry.compressedSize, readFile inner, some "7z"⟩

/-- The loop over the members in `read_rar_entry`: whether one is at the
path. -/
def findRar (found : Bool) : List RarMember → Except VfsError Bool
  | [] => .ok found
  | member :: rest => do
    if !member.isUtf8 then throw (.io "RAR entry name is not valid UTF-8")
    let path ← safeStoredPath member.name member.isDirectory
    checkLimits member.size member.compressedSize limits
    if path = inner then
      if member.isDirectory then throw (.isADirectory (insideLocation inner))
      findRar true rest
    else findRar found rest

/-- `extract_to`, up to the member that is selected; the ones before it
go to a sink. -/
def selectRar : List RarMember → Except VfsError Chosen
  | [] => .ok ⟨none, ⟨[], none⟩, some "RAR"⟩
  | member :: rest =>
    if trimSlashes (forwardSlashes member.name) = inner then
      .ok ⟨some member.compressedSize, member.data, some "RAR"⟩
    else
      match member.data.failure with
      | none => selectRar rest
      | some error => .error (decodeError (some "RAR") error)

/-- `read_rar_entry`, up to the entry. -/
def chooseRar (members : List RarMember) : Except VfsError Chosen := do
  if ← findRar limits inner false members then selectRar inner members
  else throw (.notFound (insideLocation inner))

/-- The loop of `read_tar_entry`. -/
def chooseTar : List (Except VfsError TarEntry) → Except VfsError Chosen
  | [] => .error (.notFound (insideLocation inner))
  | entry :: rest => do
    let entry ← entry
    if entry.kind = .other then throw .unsafeArchiveEntry
    let name ← safeStoredPath (← entry.path) (entry.kind == .directory)
    if name ≠ inner then chooseTar rest
    else
      if entry.kind = .directory then throw (.isADirectory (insideLocation inner))
      if limits.maxUncompressedEntryBytes < (← entry.size) then
        throw (.archiveResourceLimit "uncompressedEntryBytes")
      return ⟨none, entry.data, none⟩

/-- What a read comes to: how many bytes it has decoded of which entry. -/
structure Read where
  result : Except VfsError Bytes
  produced : Nat
  compressed : Option Nat
deriving DecidableEq

/-- `read_to_end`, of what was chosen. -/
def readToEnd (chosen : Except VfsError Chosen) : Read :=
  match chosen with
  | .error error => ⟨.error error, 0, none⟩
  | .ok ⟨compressed, data, format⟩ =>
    match data.failure with
    | none => ⟨.ok data.bytes, data.bytes.length, compressed⟩
    | some error => ⟨.error (decodeError format error), data.bytes.length, compressed⟩

/-- `Read::take`: a failure that comes later is not seen. -/
def Decoded.take (data : Decoded) (limit : Nat) : Decoded where
  bytes := data.bytes.take limit
  failure := if limit ≤ data.bytes.length then none else data.failure

/-- `read_gzip_entry`, of a file that is named so. -/
def readGzip (file : Bytes) : Read :=
  let data := (decoders.gunzip file).take (limits.maxUncompressedEntryBytes + 1)
  let read := readToEnd (.ok ⟨some file.length, data, none⟩)
  { read with result := do
      let bytes ← read.result
      checkLimits bytes.length file.length limits
      return bytes }

/-- `read_archive_entry`, of an archive that could be opened. -/
def readArchiveEntry : Contents → Read
  | .zip entries => readToEnd (chooseZip decoders limits inner entries)
  | .sevenZip files readFile => readToEnd (chooseSevenZip limits inner files readFile)
  | .gzip name file =>
    match name with
    | .error error => ⟨.error error, 0, none⟩
    | .ok name =>
      if inner ≠ name then ⟨.error (.notFound (insideLocation inner)), 0, none⟩
      else readGzip decoders limits file
  | .tar entries => readToEnd (chooseTar limits inner entries)
  | .rar members => readToEnd (chooseRar limits inner members)

end FileManager.Archives.Limits
