/-
When a checksum file reads back as it was written, and when a job
verifies against its own file.

# The argument

What is read comes from lines, which have no line feed and lose the
carriage returns at their ends; so a path with one of these is never
read back. Without them the lines of the text are the lines that were
written (`linesFrom_write`), and each is read as what it is
(`parseLine_lineOf`).
-/
import FileManager.Checksums.File
import FileManager.Lib.Fallible

namespace FileManager.Checksums

open List

variable {digest path line text : List Char} {entry : List Char × List Char}
  {parsed : ChecksumFileEntry} {number : Nat} {algorithm : ChecksumAlgorithm} {c : Char}

-- ==== digests

/-- Hex text in lower case, as the hashers give it. -/
structure HexDigest (digest : List Char) : Prop where
  filled : digest ≠ []
  even : digest.length % 2 = 0
  hex : digest.all isAsciiHexdigit
  lower : digest.map Char.toLower = digest

/-- A path that has a line to itself. -/
structure HasLine (path : List Char) : Prop where
  filled : path ≠ []
  feedless : '\n' ∉ path
  trimmed : path.getLast? ≠ some '\r'

instance (digest : List Char) : Decidable (HexDigest digest) :=
  decidable_of_iff (digest ≠ [] ∧ digest.length % 2 = 0 ∧ digest.all isAsciiHexdigit
      ∧ digest.map Char.toLower = digest)
    ⟨fun h => ⟨h.1, h.2.1, h.2.2.1, h.2.2.2⟩, fun h => ⟨h.1, h.2, h.3, h.4⟩⟩

theorem not_mem_of_hex (hall : digest.all isAsciiHexdigit) (h : ¬ isAsciiHexdigit c) : c ∉ digest :=
  fun hmem => h (all_eq_true.mp hall c hmem)

theorem of_hex (h : isAsciiHexdigit c) :
    isAsciiHexdigit c.toLower ∧ c.toLower.toLower = c.toLower ∧ ¬ Workspaces.isWhitespace c
      ∧ c ≠ '#' := by
  have hall : ("0123456789abcdefABCDEF".toList.all fun c => isAsciiHexdigit c.toLower
      && c.toLower.toLower = c.toLower && !Workspaces.isWhitespace c && c ≠ '#') = true := by
    decide +kernel
  simpa [and_assoc] using all_eq_true.mp hall c (of_decide_eq_true h)

theorem hexDigest_of_map (hne : digest ≠ []) (heven : digest.length % 2 = 0)
    (hall : digest.all isAsciiHexdigit) : HexDigest (digest.map Char.toLower) where
  filled := by simpa using hne
  even := by simpa using heven
  hex := by
    rw [all_map, all_eq_true]
    exact fun c hc => (of_hex (all_eq_true.mp hall c hc)).1
  lower := by
    rw [map_map]
    exact map_congr_left fun c hc => (of_hex (all_eq_true.mp hall c hc)).2.1

-- ==== lines

theorem linesFrom_append (h : '\n' ∉ text) (before rest : List Char) :
    linesFrom before (text ++ '\n' :: rest) = (before ++ text) :: linesFrom [] rest := by
  induction text generalizing before with
  | nil => simp [linesFrom]
  | cons c text ih =>
    obtain ⟨hc, htext⟩ := not_or.mp (mt mem_cons.mpr h)
    rw [cons_append, linesFrom, if_neg (Ne.symm hc), ih htext, append_assoc]
    rfl

theorem feedless_of_mem_linesFrom {before : List Char} (hbefore : '\n' ∉ before)
    (h : line ∈ linesFrom before text) : '\n' ∉ line := by
  induction text generalizing before with
  | nil =>
    unfold linesFrom at h
    split at h
    case isTrue => cases h
    case isFalse => rwa [mem_singleton.mp h]
  | cons c text ih =>
    unfold linesFrom at h
    split at h
    case isTrue =>
      rcases mem_cons.mp h with heq | hrest
      · rwa [heq]
      · exact ih not_mem_nil hrest
    case isFalse hc => exact ih (by simp [hbefore, Ne.symm hc]) h

theorem linesFrom_write (entries : List (List Char × List Char)) (algorithm : ChecksumAlgorithm)
    (h : ∀ entry ∈ entries, '\n' ∉ lineOf entry) :
    linesFrom [] (writeChecksumFile entries algorithm)
      = ('#' :: ' ' :: algorithm.asStr.toList) :: entries.map lineOf := by
  unfold writeChecksumFile
  rw [linesFrom_append (by cases algorithm <;> decide), nil_append]
  refine congrArg _ ?_
  induction entries with
  | nil => rfl
  | cons entry rest ih =>
    obtain ⟨hentry, hrest⟩ := forall_mem_cons.mp h
    rw [flatMap_cons, append_assoc, singleton_append, linesFrom_append hentry, ih hrest]
    rfl

-- ==== one line

/-- What a line with that path and digest is read as. -/
def entryOf (entry : List Char × List Char) : ChecksumFileEntry where
  path := entry.1
  digest := entry.2
  binary := false
  algorithm := algorithmForWidth entry.2.length

theorem feedless_lineOf (hpath : '\n' ∉ entry.1) (hdigest : HexDigest entry.2) :
    '\n' ∉ lineOf entry := by
  unfold lineOf
  simp only [mem_append, mem_cons, not_or]
  exact ⟨not_mem_of_hex hdigest.hex (by decide), by decide, by decide, hpath⟩

theorem parseLine_lineOf (hpath : entry.1 ≠ []) (hdigest : HexDigest entry.2) :
    parseLine (lineOf entry) number = .ok (entryOf entry) := by
  unfold parseLine lineOf
  rw [Text.splitOnce_append _ (not_mem_of_hex hdigest.hex (by decide))]
  simp only [parseFields, if_neg hpath]
  rw [if_neg (by simp [hdigest.filled, hdigest.even, hdigest.hex]), hdigest.lower]
  rfl

theorem parseFields_ok {binary : Bool} (h : parseFields digest binary path number = .ok parsed) :
    parsed.path = path ∧ path ≠ [] ∧ HexDigest parsed.digest := by
  unfold parseFields at h
  obtain ⟨hpath, h⟩ := Fallible.passed h nofun
  obtain ⟨hdigest, h⟩ := Fallible.passed h nofun
  cases h
  obtain ⟨hfilled, heven, hhex⟩ := (by simpa using hdigest :
    digest ≠ [] ∧ digest.length % 2 = 0 ∧ ∀ c ∈ digest, isAsciiHexdigit c = true)
  exact ⟨rfl, hpath, hexDigest_of_map hfilled heven (all_eq_true.mpr hhex)⟩

/-- The path of a line that is read is the end of the line. -/
theorem parseLine_ok (h : parseLine line number = .ok parsed) :
    parsed.path <:+ line ∧ parsed.path ≠ [] ∧ HexDigest parsed.digest := by
  unfold parseLine at h
  split at h
  case h_1 => cases h
  case h_2 digest path hsplit =>
    obtain ⟨hpath, hne, hdigest⟩ := parseFields_ok h
    rw [(Text.splitOnce_eq_some hsplit).1, hpath]
    exact ⟨⟨digest ++ [' ', '*'], by simp⟩, hpath ▸ hne, hdigest⟩
  case h_3 digest path hsplit =>
    obtain ⟨hpath, hne, hdigest⟩ := parseFields_ok h
    rw [(Text.splitOnce_eq_some hsplit).1, hpath]
    exact ⟨⟨digest ++ [' ', ' '], by simp⟩, hpath ▸ hne, hdigest⟩
  case h_4 => cases h

-- ==== all lines

variable {entries : List ChecksumFileEntry}

/-- What is read has a line to itself. -/
theorem readLines_ok {lines : List (List Char)}
    (hlines : ∀ line ∈ lines, '\n' ∉ line) (h : readLines number lines = .ok entries) :
    ∀ parsed ∈ entries, HasLine parsed.path ∧ HexDigest parsed.digest := by
  induction lines generalizing number entries with
  | nil =>
    cases h
    simp
  | cons line rest ih =>
    obtain ⟨hline, hrest⟩ := forall_mem_cons.mp hlines
    unfold readLines at h
    simp only at h
    split at h
    case isTrue => exact ih hrest h
    case isFalse =>
      cases hparse : parseLine (line.rdropWhile isLineEnd) number with
      | error error =>
        rw [hparse] at h
        cases h
      | ok parsed =>
        cases hread : readLines (number + 1) rest with
        | error error =>
          rw [hparse, hread] at h
          cases h
        | ok others =>
          rw [hparse, hread] at h
          cases h
          obtain ⟨hsuffix, hne, hdigest⟩ := parseLine_ok hparse
          refine forall_mem_cons.mpr ⟨⟨⟨hne, ?_, ?_⟩, hdigest⟩, ih hrest hread⟩
          · exact fun hmem => hline ((List.rdropWhile_prefix _ _).subset (hsuffix.subset hmem))
          · intro hlast
            obtain ⟨before, hbefore⟩ := hsuffix
            have hne' : line.rdropWhile isLineEnd ≠ [] := by simp [← hbefore, hne]
            have hend : (line.rdropWhile isLineEnd).getLast hne' = '\r' := by
              rw [← Option.some_inj, ← List.getLast?_eq_some_getLast, ← hbefore,
                List.getLast?_append_of_ne_nil _ hne, hlast]
            exact rdropWhile_last_not _ _ hne' (by rw [hend]; rfl)

theorem readLines_map (entries : List (List Char × List Char))
    (h : ∀ entry ∈ entries, HasLine entry.1 ∧ HexDigest entry.2) :
    readLines number (entries.map lineOf) = .ok (entries.map entryOf) := by
  induction entries generalizing number with
  | nil => rfl
  | cons entry rest ih =>
    obtain ⟨⟨hpath, hdigest⟩, hrest⟩ := forall_mem_cons.mp h
    have htrimmed : (lineOf entry).rdropWhile isLineEnd = lineOf entry := by
      rw [rdropWhile_eq_self_iff]
      intro hne hend
      have hlast : (lineOf entry).getLast? = entry.1.getLast? := by
        unfold lineOf
        rw [List.getLast?_append_of_ne_nil _ (by simp)]
        exact List.getLast?_append_of_ne_nil [' ', ' '] hpath.filled
      rw [List.getLast?_eq_some_getLast hne] at hlast
      rcases of_decide_eq_true hend with hr | hn
      · exact hpath.trimmed (by rw [← hlast, hr])
      · exact hpath.feedless (mem_of_getLast? (by rw [← hlast, hn]))
    obtain ⟨c, digest, hc⟩ := exists_cons_of_ne_nil hdigest.filled
    have hhex : isAsciiHexdigit c := all_eq_true.mp hdigest.hex c (by rw [hc]; simp)
    have hkept : ¬ ((lineOf entry).all Workspaces.isWhitespace
        ∨ (lineOf entry).head? = some '#') := by
      unfold lineOf
      rw [hc]
      simp [(of_hex hhex).2.2]
    rw [map_cons, readLines]
    simp only [htrimmed, if_neg hkept, parseLine_lineOf hpath.filled hdigest, ih hrest]
    rfl

-- ==== files

theorem feedless_lines (entries : List (List Char × List Char))
    (h : ∀ entry ∈ entries, HasLine entry.1 ∧ HexDigest entry.2) :
    ∀ entry ∈ entries, '\n' ∉ lineOf entry :=
  fun entry hentry => feedless_lineOf (h entry hentry).1.feedless (h entry hentry).2

theorem readChecksumFile_write (entries : List (List Char × List Char))
    (algorithm : ChecksumAlgorithm) (h : ∀ entry ∈ entries, HasLine entry.1 ∧ HexDigest entry.2) :
    readChecksumFile (writeChecksumFile entries algorithm) = .ok (entries.map entryOf) := by
  unfold readChecksumFile
  rw [linesFrom_write entries algorithm (feedless_lines entries h), readLines]
  have hcomment : (('#' :: ' ' :: algorithm.asStr.toList).rdropWhile isLineEnd).head?
      = some '#' := by cases algorithm <;> decide
  simp only [hcomment, or_true, if_true]
  exact readLines_map entries h

theorem hasLine_of_read (h : readChecksumFile text = .ok entries) :
    ∀ parsed ∈ entries, HasLine parsed.path ∧ HexDigest parsed.digest :=
  readLines_ok (fun _ hline => feedless_of_mem_linesFrom not_mem_nil hline) h

/-- What is written reads back exactly if every path has a line to
itself and every digest is lower-case hex text of whole bytes. -/
theorem checksum_file_round_trips_iff (entries : List (List Char × List Char))
    (algorithm : ChecksumAlgorithm) :
    (readChecksumFile (writeChecksumFile entries algorithm)).map
        (List.map fun parsed => (parsed.path, parsed.digest)) = .ok entries
      ↔ ∀ entry ∈ entries, HasLine entry.1 ∧ HexDigest entry.2 := by
  constructor
  · intro h entry hentry
    cases hread : readChecksumFile (writeChecksumFile entries algorithm) with
    | error error =>
      rw [hread] at h
      cases h
    | ok parsed =>
      rw [hread] at h
      have heq : parsed.map (fun parsed => (parsed.path, parsed.digest)) = entries := by injection h
      rw [← heq] at hentry
      obtain ⟨one, hone, rfl⟩ := List.mem_map.mp hentry
      exact hasLine_of_read hread one hone
  · intro h
    rw [readChecksumFile_write entries algorithm h]
    show Except.ok ((entries.map entryOf).map _) = _
    rw [List.map_map]
    exact congrArg _ (List.map_id _)

/-- The carriage return of this path is not read back. -/
theorem path_ending_in_return_loses_it :
    HexDigest "00".toList
      ∧ (readChecksumFile (writeChecksumFile [("a\r".toList, "00".toList)] .crc32)).map
          (List.map fun parsed => (parsed.path, parsed.digest)) = .ok [("a".toList, "00".toList)]
      ∧ (readChecksumFile (writeChecksumFile [("a\r".toList, "00".toList)] .crc32)).map
          (List.map fun parsed => (parsed.path, parsed.digest))
        ≠ .ok [("a\r".toList, "00".toList)] := by
  decide +kernel

-- ==== verification

/-- The algorithm that a job's own file is verified with. -/
def inferred (algorithm : ChecksumAlgorithm) (entries : List ChecksumEntryResult) :
    ChecksumAlgorithm :=
  ((digestLines algorithm entries).head?.bind (algorithmForWidth ·.2.length)).getD .sha256

variable {entries : List ChecksumEntryResult}

theorem hexDigest_of_mem
    (hhex : ∀ entry ∈ entries, ∀ algorithm digest, entry.checksums.get algorithm = some digest →
      HexDigest digest.toList)
    (h : entry ∈ digestLines algorithm entries) : HexDigest entry.2 := by
  obtain ⟨result, hresult, hentry⟩ := mem_filterMap.mp h
  obtain ⟨digest, hdigest, rfl⟩ := Option.map_eq_some_iff.mp hentry
  exact hhex result hresult algorithm digest hdigest

theorem verify_own_iff
    (hhex : ∀ entry ∈ entries, ∀ algorithm digest, entry.checksums.get algorithm = some digest →
      HexDigest digest.toList)
    (rendered : List (List Char × List Char)) (hrendered : ∀ entry ∈ rendered, HexDigest entry.2) :
    verify (digestLines algorithm entries) (rendered.map entryOf)
        = rendered.map (fun entry => (entry.1, .matches)) ↔ ∀ entry ∈ rendered,
          Keyed.get (digestLines algorithm entries).reverse entry.1 = some entry.2 := by
  unfold verify
  rw [map_map, map_inj_left]
  refine forall₂_congr fun entry hentry => ?_
  simp only [Function.comp, entryOf, Prod.mk.injEq, true_and]
  cases hget : Keyed.get (digestLines algorithm entries).reverse entry.1 with
  | none => simp
  | some actual =>
    obtain ⟨pair, hfind, rfl⟩ := Option.map_eq_some_iff.mp hget
    have hactual := hexDigest_of_mem hhex (mem_reverse.mp (mem_of_find?_eq_some hfind))
    simp [hactual.lower, (hrendered entry hentry).lower]

/-- A job's own file is all matches exactly if each path has a line to
itself and, of the algorithm that the width of the first digest
suggests, the last digest under the path is the one that was rendered. -/
theorem own_file_matches_iff (entries : List ChecksumEntryResult) (algorithm : ChecksumAlgorithm)
    (hhex : ∀ entry ∈ entries, ∀ algorithm digest,
      entry.checksums.get algorithm = some digest → HexDigest digest.toList) :
    verifyChecksumFile entries (renderChecksumFile entries algorithm)
        = .ok ((digestLines algorithm entries).map fun entry => (entry.1, .matches))
      ↔ ∀ entry ∈ digestLines algorithm entries, HasLine entry.1
          ∧ Keyed.get (digestLines (inferred algorithm entries) entries).reverse entry.1
            = some entry.2 := by
  have hrendered : ∀ entry ∈ digestLines algorithm entries, HexDigest entry.2 :=
    fun entry hentry => hexDigest_of_mem hhex hentry
  unfold verifyChecksumFile renderChecksumFile
  by_cases hlines : ∀ entry ∈ digestLines algorithm entries, HasLine entry.1
  · rw [readChecksumFile_write _ _ fun entry hentry => ⟨hlines entry hentry, hrendered entry hentry⟩]
    have halgorithm : (((digestLines algorithm entries).map entryOf).head?.bind
        (·.algorithm)).getD .sha256 = inferred algorithm entries := by
      unfold inferred
      rw [List.head?_map, Option.bind_map]
      rfl
    show Except.ok (verify (digestLines _ entries) _) = _ ↔ _
    rw [halgorithm, Except.ok.injEq, verify_own_iff hhex _ hrendered]
    exact ⟨fun h entry hentry => ⟨hlines entry hentry, h entry hentry⟩,
      fun h entry hentry => (h entry hentry).2⟩
  · refine iff_of_false ?_ fun h => hlines fun entry hentry => (h entry hentry).1
    intro hverified
    apply hlines
    intro entry hentry
    cases hread : readChecksumFile (writeChecksumFile (digestLines algorithm entries) algorithm) with
    | error error =>
      simp [hread] at hverified
    | ok recorded =>
      rw [hread] at hverified
      -- each rendered path is among the paths that were read
      have hpaths := congrArg (List.map Prod.fst) (Except.ok.inj hverified)
      unfold verify at hpaths
      rw [List.map_map, List.map_map] at hpaths
      have hmem : entry.1 ∈ recorded.map ChecksumFileEntry.path :=
        hpaths ▸ List.mem_map_of_mem hentry
      obtain ⟨parsed, hparsed, heq⟩ := List.mem_map.mp hmem
      exact heq ▸ (hasLine_of_read hread parsed hparsed).1

/-- The results for an empty file, with its SHA-256 digest or its
BLAKE3 digest. -/
def emptyFile (algorithm : ChecksumAlgorithm) : ChecksumEntryResult where
  relativePath := "a".toList
  checksums := ⟨[(algorithm, if algorithm = .sha256 then
    "e3b0c44298fc1c149afbf4c8996fb92427ae41e4649b934ca495991b7852b855"
    else "af1349b9f5f9a1a6a0404dea36dcc9499bcb25c9adc112b7cc9a93cae41f3262")], 0⟩

theorem hexDigest_emptyFile (job algorithm : ChecksumAlgorithm) (digest : String)
    (h : (emptyFile job).checksums.get algorithm = some digest) : HexDigest digest.toList := by
  obtain ⟨pair, hfind, rfl⟩ := Option.map_eq_some_iff.mp h
  rw [mem_singleton.mp (mem_of_find?_eq_some hfind)]
  dsimp only
  split <;> decide +kernel

theorem sha256_job_matches :
    verifyChecksumFile [emptyFile .sha256] (renderChecksumFile [emptyFile .sha256] .sha256)
      = .ok [("a".toList, .matches)] :=
  (own_file_matches_iff [emptyFile .sha256] .sha256 (by
    intro entry hentry
    rw [List.mem_singleton.mp hentry]
    exact hexDigest_emptyFile .sha256)).mpr (by
      intro entry hentry
      rw [List.mem_singleton.mp hentry]
      exact ⟨⟨by decide, by decide, by decide⟩, by decide +kernel⟩)

/-- An empty file and one that holds `a`, both of one name. -/
def sameNames : List ChecksumEntryResult :=
  [⟨"a".toList, ⟨[(.crc32, "00000000")], 0⟩⟩, ⟨"a".toList, ⟨[(.crc32, "e8b7be43")], 1⟩⟩]

/-- Both lines of the one name are held against the later digest, and the
BLAKE3 digest of a job without SHA-256 against none. -/
theorem own_file_differs :
    verifyChecksumFile sameNames (renderChecksumFile sameNames .crc32)
        ≠ .ok ((digestLines .crc32 sameNames).map fun entry => (entry.1, .matches))
      ∧ verifyChecksumFile [emptyFile .blake3] (renderChecksumFile [emptyFile .blake3] .blake3)
        ≠ .ok ((digestLines .blake3 [emptyFile .blake3]).map fun entry => (entry.1, .matches)) := by
  decide +kernel

end FileManager.Checksums
