/-
Streaming checksums (`fm-checksum`, `hash.rs`): a file is read chunk by
chunk through its provider, and every chunk goes to the requested
hashers.

The hashers are those of other crates. What is kept of them is the bytes
they have been fed; `Digests` says which text an algorithm makes of
these.
-/
import FileManager.Vfs

namespace FileManager.Checksums

open Vfs (Providers Token)

inductive ChecksumAlgorithm
  | sha256
  | blake3
  | crc32
  | md5
deriving DecidableEq

def ChecksumAlgorithm.all : List ChecksumAlgorithm := [.sha256, .blake3, .crc32, .md5]

/-- The digests of the hashing crates, as hex text. -/
abbrev Digests := ChecksumAlgorithm → Vfs.Bytes → String

inductive ChecksumError
  | cancelled
  | noAlgorithmRequested
  | read (message : String)
  | open (location : Location) (source : VfsError)
deriving DecidableEq

structure ChecksumSet where
  digests : List (ChecksumAlgorithm × String)
  bytesHashed : Nat

def ChecksumSet.get (set : ChecksumSet) (algorithm : ChecksumAlgorithm) : Option String :=
  (set.digests.find? fun digest => digest.1 = algorithm).map Prod.snd

/-- `Hashers`: which are there, and what they have been fed. -/
structure Hashers where
  algorithms : List ChecksumAlgorithm
  fed : Vfs.Bytes

def Hashers.new (algorithms : List ChecksumAlgorithm) : Except ChecksumError Hashers :=
  if algorithms = [] then .error .noAlgorithmRequested else .ok ⟨algorithms, []⟩

def Hashers.update (hashers : Hashers) (chunk : Vfs.Bytes) : Hashers :=
  { hashers with fed := hashers.fed ++ chunk }

def Hashers.finish (digests : Digests) (hashers : Hashers) : ChecksumSet where
  digests := (ChecksumAlgorithm.all.filter (hashers.algorithms.contains ·)).map fun algorithm =>
    (algorithm, digests algorithm hashers.fed)
  bytesHashed := hashers.fed.length

/-- `chunk_budget`: how much of a chunk falls within the limit. -/
def chunkBudget (limit : Option Nat) (already read : Nat) : Option Nat :=
  match limit with
  | none => some read
  | some limit => if limit - already = 0 then none else some (min (limit - already) read)

/-- The loop of `hash_stream_bounded`. -/
def hashChunks (token : Token) (limit : Option Nat) :
    List (Except String Vfs.Bytes) → Hashers → Nat → Except ChecksumError Hashers × Nat
  | chunks, hashers, look =>
    if token.isCancelled look then (.error .cancelled, look + 1)
    else
      match chunks with
      | [] => (.ok hashers, look + 1)
      | .error message :: _ => (.error (.read message), look + 1)
      | .ok chunk :: rest =>
        -- a read of nothing is the end of the file
        if chunk = [] then (.ok hashers, look + 1)
        else
          match chunkBudget limit hashers.fed.length chunk.length with
          | none => (.ok hashers, look + 1)
          | some usable =>
            let hashers := hashers.update (chunk.take usable)
            if limit.any (· ≤ hashers.fed.length) then (.ok hashers, look + 1)
            else hashChunks token limit rest hashers (look + 1)
termination_by structural chunks => chunks

def hashStreamBounded (digests : Digests) (token : Token) (chunks : List (Except String Vfs.Bytes))
    (algorithms : List ChecksumAlgorithm) (limit : Option Nat) (look : Nat) :
    Except ChecksumError ChecksumSet × Nat :=
  match Hashers.new algorithms with
  | .error error => (.error error, look)
  | .ok hashers =>
    if limit = some 0 then (.ok (hashers.finish digests), look)
    else
      match hashChunks token limit chunks hashers look with
      | (.error error, look) => (.error error, look)
      | (.ok hashers, look) => (.ok (hashers.finish digests), look)

/-- The loop of `hash_blocking_bounded`. -/
def hashReads (token : Token) (limit : Option Nat) :
    List (Except String Vfs.Bytes) → Hashers → Nat → Except ChecksumError Hashers × Nat
  | chunks, hashers, look =>
    if token.isCancelled look then (.error .cancelled, look + 1)
    else
      match chunks with
      | [] => (.ok hashers, look + 1)
      | .error message :: _ => (.error (.read message), look + 1)
      | .ok chunk :: rest =>
        if chunk = [] then (.ok hashers, look + 1)
        else
          match chunkBudget limit hashers.fed.length chunk.length with
          | none => (.ok hashers, look + 1)
          | some usable =>
            let hashers := hashers.update (chunk.take usable)
            if limit.any (· ≤ hashers.fed.length) then (.ok hashers, look + 1)
            else hashReads token limit rest hashers (look + 1)
termination_by structural chunks => chunks

def hashBlockingBounded (digests : Digests) (token : Token)
    (chunks : List (Except String Vfs.Bytes)) (algorithms : List ChecksumAlgorithm)
    (limit : Option Nat) (look : Nat) : Except ChecksumError ChecksumSet × Nat :=
  match Hashers.new algorithms with
  | .error error => (.error error, look)
  | .ok hashers =>
    if limit = some 0 then (.ok (hashers.finish digests), look)
    else
      match hashReads token limit chunks hashers look with
      | (.error error, look) => (.error error, look)
      | (.ok hashers, look) => (.ok (hashers.finish digests), look)

def openEntry (providers : Providers) (token : Token) (entry : EntryRef) (look : Nat) :
    Except ChecksumError (List (Except String Vfs.Bytes)) × Nat :=
  match providers.call token entry.location look with
  | (none, look) => (.error (.open entry.location .cancelled), look)
  | (some (), look) =>
    match providers.chunks entry.location with
    | .error error => (.error (.open entry.location error), look)
    | .ok chunks => (.ok chunks, look)

/-- `hash_entry` and, with a limit, `hash_entry_prefix`. -/
def hashEntryBounded (digests : Digests) (providers : Providers) (token : Token)
    (entry : EntryRef) (algorithms : List ChecksumAlgorithm) (limit : Option Nat) (look : Nat) :
    Except ChecksumError ChecksumSet × Nat :=
  match openEntry providers token entry look with
  | (.error error, look) => (.error error, look)
  | (.ok chunks, look) => hashStreamBounded digests token chunks algorithms limit look

def hashEntry (digests : Digests) (providers : Providers) (token : Token) (entry : EntryRef)
    (algorithms : List ChecksumAlgorithm) (look : Nat) : Except ChecksumError ChecksumSet × Nat :=
  hashEntryBounded digests providers token entry algorithms none look

end FileManager.Checksums
