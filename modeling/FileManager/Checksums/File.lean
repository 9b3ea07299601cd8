/-
Checksum files (`fm-checksum`, `checksum_file.rs`), and the results of a
job rendered as one and verified against one (`fm-application`,
`service.rs`).

A file is written to memory here, so the writer does not fail.
-/
import FileManager.Checksums.Hash
import FileManager.Lib.Keyed
import FileManager.Lib.Text
import FileManager.Workspaces.Model
import Mathlib.Data.List.DropRight

namespace FileManager.Checksums

-- ==== files

structure ChecksumFileEntry where
  path : List Char
  digest : List Char
  binary : Bool
  algorithm : Option ChecksumAlgorithm
deriving DecidableEq

inductive ChecksumFileError
  | malformedLine (line : Nat)
  | malformedDigest (line : Nat)
deriving DecidableEq

def ChecksumAlgorithm.asStr : ChecksumAlgorithm → String
  | .sha256 => "sha256"
  | .blake3 => "blake3"
  | .crc32 => "crc32"
  | .md5 => "md5"

def algorithmForWidth : Nat → Option ChecksumAlgorithm
  | 8 => some .crc32
  | 32 => some .md5
  | _ => none

/-- A line of a file, without its end. -/
def lineOf (entry : List Char × List Char) : List Char := entry.2 ++ ' ' :: ' ' :: entry.1

def writeChecksumFile (entries : List (List Char × List Char)) (algorithm : ChecksumAlgorithm) :
    List Char :=
  ('#' :: ' ' :: algorithm.asStr.toList) ++ '\n' :: entries.flatMap fun entry =>
    lineOf entry ++ ['\n']

/-- `BufRead::lines` after the characters of a line; the `'\r'` of a line
end is left to `readLines`, which drops it too. -/
def linesFrom (line : List Char) : List Char → List (List Char)
  | [] => if line = [] then [] else [line]
  | c :: rest => if c = '\n' then line :: linesFrom [] rest else linesFrom (line ++ [c]) rest

def isAsciiHexdigit (c : Char) : Bool := c ∈ "0123456789abcdefABCDEF".toList

/-- The end of `parse_line`. -/
def parseFields (digest : List Char) (binary : Bool) (path : List Char) (number : Nat) :
    Except ChecksumFileError ChecksumFileEntry :=
  if path = [] then .error (.malformedLine number)
  else if digest = [] ∨ digest.length % 2 ≠ 0 ∨ ¬ digest.all isAsciiHexdigit then
    .error (.malformedDigest number)
  else
    .ok { path := path
          digest := digest.map Char.toLower
          binary := binary
          algorithm := algorithmForWidth digest.length }

def parseLine (line : List Char) (number : Nat) : Except ChecksumFileError ChecksumFileEntry :=
  match Text.splitOnce ' ' line with
  | none => .error (.malformedLine number)
  | some (digest, '*' :: path) => parseFields digest true path number
  | some (digest, ' ' :: path) => parseFields digest false path number
  | some _ => .error (.malformedLine number)

def isLineEnd (c : Char) : Bool := c = '\r' ∨ c = '\n'

/-- The loop of `read_checksum_file`. -/
def readLines : Nat → List (List Char) → Except ChecksumFileError (List ChecksumFileEntry)
  | _, [] => .ok []
  | number, line :: rest =>
    let trimmed := line.rdropWhile isLineEnd
    if trimmed.all Workspaces.isWhitespace ∨ trimmed.head? = some '#' then
      readLines (number + 1) rest
    else do
      let entry ← parseLine trimmed number
      let entries ← readLines (number + 1) rest
      return entry :: entries

def readChecksumFile (text : List Char) : Except ChecksumFileError (List ChecksumFileEntry) :=
  readLines 1 (linesFrom [] text)

-- ==== verification

inductive VerificationStatus
  /-- `Match`. -/
  | matches
  | mismatch (expected actual : List Char)
  | missing
deriving DecidableEq

/-- `verify`: of two digests computed for one path the later counts. -/
def verify (computed : List (List Char × List Char)) (recorded : List ChecksumFileEntry) :
    List (List Char × VerificationStatus) :=
  recorded.map fun entry => (entry.path, match Keyed.get computed.reverse entry.path with
    | none => .missing
    | some actual =>
      if actual.map Char.toLower = entry.digest.map Char.toLower then .matches
      else .mismatch entry.digest actual)

/-- `ChecksumEntryResult`, as far as a file has it. -/
structure ChecksumEntryResult where
  relativePath : List Char
  checksums : ChecksumSet

/-- The digests of an algorithm among a job's results. -/
def digestLines (algorithm : ChecksumAlgorithm) (entries : List ChecksumEntryResult) :
    List (List Char × List Char) :=
  entries.filterMap fun entry =>
    (entry.checksums.get algorithm).map fun digest => (entry.relativePath, digest.toList)

def renderChecksumFile (entries : List ChecksumEntryResult) (algorithm : ChecksumAlgorithm) :
    List Char :=
  writeChecksumFile (digestLines algorithm entries) algorithm

def verifyChecksumFile (entries : List ChecksumEntryResult) (content : List Char) :
    Except ChecksumFileError (List (List Char × VerificationStatus)) := do
  let recorded ← readChecksumFile content
  -- SHA-256 for the width that it shares
  let algorithm := (recorded.head?.bind (·.algorithm)).getD .sha256
  return verify (digestLines algorithm entries) recorded

end FileManager.Checksums
