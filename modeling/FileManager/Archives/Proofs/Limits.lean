/-
What the limits on reading an archive hold of: exactly the archives in
which no entry that a path comes to is understated, that is, declares
sizes that pass the checks while its data are past the limits.

The sizes in a header are checked before anything is decoded, and what is
decoded is not counted. So each format has its lookup, stated of the list
of the entries (`chooseZip_fits_iff` and its like), and the limits hold
of what it comes to. Of a gzip file what is decoded is counted, up to the
limit of the bytes, and the ratio is checked at the end.
-/
import FileManager.Archives.Limits
import FileManager.Lib.Fallible

namespace FileManager.Archives.Limits

open Updates (forwardSlashes insideLocation trimSlashes)
open Nat List RarMember Fallible

variable {decoders : Decoders} {limits : ArchiveLimits} {inner : String} {n size : Nat}
  {chosen : Chosen} {file : Bytes}

/-- So many bytes are within the limits, of an entry of that compressed
size. -/
def Within (limits : ArchiveLimits) (compressed : Option Nat) (n : Nat) : Prop :=
  n ≤ limits.maxUncompressedEntryBytes
    ∧ ∀ c ∈ compressed, n ≤ (limits.maxExpansionRatio + 1) * max c 1

/-- What is asked of a read: what it returns is within the limits, and it
fails by them before more than one byte past them is decoded. -/
structure Enforced (limits : ArchiveLimits) (read : Read) : Prop where
  returned : ∀ bytes, read.result = .ok bytes → Within limits read.compressed bytes.length
  stopped : ¬ Within limits read.compressed read.produced →
    (∃ kind, read.result = .error (.archiveResourceLimit kind))
      ∧ Within limits read.compressed (read.produced - 1)

/-- What is chosen decodes to no more than the limits allow. -/
def Fits (limits : ArchiveLimits) (chosen : Except VfsError Chosen) : Prop :=
  ∀ entry, chosen = .ok entry → Within limits entry.compressed entry.data.bytes.length

/-- The data of a gzip file are within the limits; or they go past that of
the bytes, which is no more than the ratio allows; or they go past the
ratio by one byte, and end there. -/
def GzipFits (limits : ArchiveLimits) (size : Nat) (data : Decoded) : Prop :=
  Within limits (some size) data.bytes.length ∨ limits.maxUncompressedEntryBytes < data.bytes.length
      ∧ limits.maxUncompressedEntryBytes ≤ (limits.maxExpansionRatio + 1) * max size 1
    ∨ data.bytes.length ≤ limits.maxUncompressedEntryBytes
      ∧ data.bytes.length = (limits.maxExpansionRatio + 1) * max size 1 + 1
      ∧ data.failure = none

/-- The declared sizes pass the check, and the data are past the limits. -/
def Understated (limits : ArchiveLimits) (declared : Declared) (data : Decoded) : Prop :=
  checkLimits declared.size declared.compressedSize limits = .ok ()
    ∧ ¬ Within limits (some declared.compressedSize) data.bytes.length

/-- One of the list has `Q`, and the ones before it have `P`. -/
def Reaches {α : Type} (P Q : α → Prop) (l : List α) : Prop :=
  ∃ before a after, l = before ++ a :: after ∧ (∀ other ∈ before, P other) ∧ Q a

/-- A file or a directory, stored at that path. -/
def TarEntry.At (entry : TarEntry) (name : String) : Prop :=
  entry.kind ≠ .other ∧ ∃ path, entry.path = .ok path
    ∧ safeStoredPath path (entry.kind == .directory) = .ok name

/-- It is at another path. -/
def PassedOver (inner : String) (item : Except VfsError TarEntry) : Prop :=
  ∃ entry name, item = .ok entry ∧ entry.At name ∧ name ≠ inner

def RarMember.path (member : RarMember) : Except VfsError String :=
  safeStoredPath member.name member.isDirectory

/-- The headers of a member let a reader of the path by. -/
def RarMember.Passes (limits : ArchiveLimits) (inner : String) (member : RarMember) : Prop :=
  member.isUtf8 = true ∧ checkLimits member.size member.compressedSize limits = .ok ()
    ∧ ∃ path, member.path = .ok path ∧ (path = inner → member.isDirectory = false)

def RarMember.Selected (inner : String) (member : RarMember) : Prop :=
  trimSlashes (forwardSlashes member.name) = inner

/-- No entry that the path comes to is understated: the file of a ZIP that
the password unlocks, the first of that name in a 7z, the file of a tar
whose entries before it can be read, the member of a RAR that is selected,
when all headers pass and the ones before it decode. Tar entries have no
compressed size, and it is the size of their header that is checked. -/
def InBounds (decoders : Decoders) (limits : ArchiveLimits) (inner : String) : Contents → Prop
  | .zip entries => ¬ Reaches (fun item => item.name ≠ inner)
      (fun item => item.name = inner ∧ item.unlocked = .ok () ∧ item.isDirectory = false
        ∧ Understated limits item.toDeclared (item.data decoders)) entries
  | .sevenZip files readFile => ¬ Reaches (fun entry => entry.name ≠ inner)
      (fun entry => entry.name = inner ∧ Understated limits entry (readFile inner)) files
  | .gzip name file => name = .ok inner → GzipFits limits file.length (decoders.gunzip file)
  | .tar entries => ¬ Reaches (PassedOver inner)
      (fun item => ∃ entry size, item = .ok entry ∧ entry.At inner ∧ entry.kind = .file
        ∧ entry.size = .ok size ∧ size ≤ limits.maxUncompressedEntryBytes
        ∧ limits.maxUncompressedEntryBytes < entry.data.bytes.length) entries
  | .rar members => (∀ member ∈ members, member.Passes limits inner) →
      (∃ member ∈ members, member.path = .ok inner) →
      ¬ Reaches (fun member => ¬ member.Selected inner ∧ member.data.failure = none)
        (fun member => member.Selected inner
          ∧ ¬ Within limits (some member.compressedSize) member.data.bytes.length) members

-- ==== checks

theorem within_of_checkLimits (h : checkLimits n size limits = .ok ()) :
    Within limits (some size) n := by
  unfold checkLimits at h
  obtain ⟨hbytes, h⟩ := passed h nofun
  obtain ⟨hratio, h⟩ := passed h nofun
  refine ⟨Nat.le_of_not_lt hbytes, ?_⟩
  rintro _ ⟨⟩
  by_cases hzero : n = 0
  · omega
  · have hdiv : n / max size 1 ≤ limits.maxExpansionRatio := by
      by_contra hover
      exact hratio ⟨Nat.pos_of_ne_zero hzero, .inr (Nat.lt_of_not_le hover)⟩
    have hlt := lt_mul_of_div_lt (lt_succ_of_le hdiv) (by omega : 0 < max size 1)
    exact hlt.le

/-- What is beyond the limits fails with a limit's error. -/
theorem checkLimits_fails (h : ¬ Within limits (some size) n) :
    ∃ kind, checkLimits n size limits = .error (.archiveResourceLimit kind) := by
  cases hcheck : checkLimits n size limits with
  | ok => exact absurd (within_of_checkLimits hcheck) h
  | error error =>
    unfold checkLimits at hcheck
    split at hcheck
    · exact ⟨_, by rw [← hcheck]⟩
    · split at hcheck
      · exact ⟨_, by rw [← hcheck]⟩
      · cases hcheck

-- ==== readers

theorem decodeError_ne_limit (format : Option String) (error : DecodeError) (kind : String) :
    decodeError format error ≠ .archiveResourceLimit kind := by
  unfold decodeError
  split <;> nofun

/-- `read_to_end` checks too late: what was chosen has to fit. -/
theorem readToEnd_enforced_iff {chosen : Except VfsError Chosen} :
    Enforced limits (readToEnd chosen) ↔ Fits limits chosen := by
  cases chosen with
  | error error =>
    constructor
    · intro _ entry hentry
      cases hentry
    · intro _
      exact ⟨nofun, fun hnot => absurd ⟨zero_le _, nofun⟩ hnot⟩
  | ok entry =>
    obtain ⟨compressed, ⟨bytes, failure⟩, format⟩ := entry
    have hread : ∃ result, readToEnd (.ok ⟨compressed, ⟨bytes, failure⟩, format⟩)
        = ⟨result, bytes.length, compressed⟩
        ∧ (∀ found, result = .ok found → found = bytes)
        ∧ ∀ kind, result ≠ .error (.archiveResourceLimit kind) := by
      cases failure with
      | none => exact ⟨_, rfl, fun found hfound => (Except.ok.inj hfound).symm, nofun⟩
      | some error =>
        exact ⟨_, rfl, nofun, fun kind heq =>
          decodeError_ne_limit format error kind (Except.error.inj heq)⟩
    obtain ⟨result, hread, hreturned, hlimit⟩ := hread
    rw [hread]
    constructor
    · intro h entry hentry
      cases hentry
      by_contra hnot
      obtain ⟨⟨kind, hkind⟩, -⟩ := h.stopped hnot
      exact hlimit kind hkind
    · intro h
      have hwithin := h _ rfl
      refine ⟨fun found hfound => ?_, fun hnot => absurd hwithin hnot⟩
      rw [hreturned found hfound]
      exact hwithin

theorem counted_enforced_iff {bytes : Bytes} :
    Enforced limits ⟨do checkLimits bytes.length size limits; return bytes, bytes.length, some size⟩
      ↔ Within limits (some size) (bytes.length - 1) := by
  have hless : Within limits (some size) bytes.length →
      Within limits (some size) (bytes.length - 1) :=
    fun h => ⟨(sub_le _ _).trans h.1, fun c hc => (sub_le _ _).trans (h.2 c hc)⟩
  constructor
  · intro h
    by_cases hwithin : Within limits (some size) bytes.length
    · exact hless hwithin
    · exact (h.stopped hwithin).2
  · intro h
    constructor
    · intro found hfound
      obtain ⟨u, hcheck, hpure⟩ := bind_eq_ok.mp hfound
      cases hpure
      exact within_of_checkLimits hcheck
    · intro hnot
      obtain ⟨kind, hkind⟩ := checkLimits_fails hnot
      refine ⟨⟨kind, ?_⟩, h⟩
      show (do checkLimits bytes.length size limits; return bytes) = _
      rw [hkind]
      rfl

theorem readGzip_enforced_iff : Enforced limits (readGzip decoders limits file)
    ↔ GzipFits limits file.length (decoders.gunzip file) := by
  unfold readGzip
  generalize file.length = size, decoders.gunzip file = data
  obtain ⟨bytes, failure⟩ := data
  have hsize : ∀ k, (∀ c ∈ some size, k ≤ (limits.maxExpansionRatio + 1) * max c 1)
      ↔ k ≤ (limits.maxExpansionRatio + 1) * max size 1 := by simp
  unfold GzipFits Within
  simp only [hsize]
  generalize hallowed : (limits.maxExpansionRatio + 1) * max size 1 = allowed at hsize
  by_cases hbytes : bytes.length ≤ limits.maxUncompressedEntryBytes
  · have htake : Decoded.take ⟨bytes, failure⟩ (limits.maxUncompressedEntryBytes + 1)
        = ⟨bytes, failure⟩ := by
      rw [Decoded.take, if_neg (Nat.not_le_of_lt (lt_succ_of_le hbytes)),
        take_of_length_le (le_succ_of_le hbytes)]
    rw [htake]
    cases failure with
    | none =>
      refine counted_enforced_iff.trans ?_
      simp only [Within, hsize, and_true]
      omega
    | some error =>
      -- the failure comes before the check
      have hread : Enforced limits (readToEnd (.ok ⟨some size, ⟨bytes, some error⟩, none⟩))
          ↔ Within limits (some size) bytes.length :=
        readToEnd_enforced_iff.trans ⟨fun h => h _ rfl, fun h entry hentry => by
          cases hentry
          exact h⟩
      refine Iff.trans hread ?_
      simp only [Within, hsize, reduceCtorEq, and_false, or_false]
      omega
  · have htake : Decoded.take ⟨bytes, failure⟩ (limits.maxUncompressedEntryBytes + 1)
        = ⟨bytes.take (limits.maxUncompressedEntryBytes + 1), none⟩ := by
      rw [Decoded.take, if_pos (succ_le_of_lt (Nat.lt_of_not_le hbytes))]
    rw [htake]
    refine counted_enforced_iff.trans ?_
    simp only [Within, hsize, length_take,
      min_eq_left (succ_le_of_lt (Nat.lt_of_not_le hbytes))]
    omega

-- ==== lookups

variable {α : Type} {P Q : α → Prop} {a : α} {l : List α}

theorem reaches_cons : Reaches P Q (a :: l) ↔ Q a ∨ P a ∧ Reaches P Q l := by
  constructor
  · rintro ⟨before, b, after, heq, hbefore, hb⟩
    cases before with
    | nil =>
      cases heq
      exact .inl hb
    | cons first before =>
      cases heq
      exact .inr ⟨hbefore a (by simp), before, b, after, rfl,
        fun other hin => hbefore other (by simp [hin]), hb⟩
  · rintro (ha | ⟨ha, before, b, after, rfl, hbefore, hb⟩)
    · exact ⟨[], a, l, rfl, nofun, ha⟩
    · refine ⟨a :: before, b, after, rfl, fun other hin => ?_, hb⟩
      rcases mem_cons.mp hin with rfl | hin
      · exact ha
      · exact hbefore other hin

theorem not_reaches_nil : ¬ Reaches P Q [] := by
  rintro ⟨before, a, after, heq, -⟩
  cases before <;> cases heq

theorem fits_error {error : VfsError} : Fits limits (.error error) := nofun

theorem fits_ok : Fits limits (.ok chosen)
    ↔ Within limits chosen.compressed chosen.data.bytes.length := by
  simp [Fits]

theorem chooseZip_fits_iff {entries : List ZipItem} :
    Fits limits (chooseZip decoders limits inner entries)
      ↔ InBounds decoders limits inner (.zip entries) := by
  simp only [InBounds]
  induction entries with
  | nil => exact iff_of_true fits_error not_reaches_nil
  | cons item rest ih =>
    rw [reaches_cons]
    by_cases hname : item.name = inner
    · cases hunlocked : item.unlocked <;> cases hdirectory : item.isDirectory <;>
        cases hcheck : checkLimits item.size item.compressedSize limits <;>
        simp [chooseZip, hname, hunlocked, hdirectory, hcheck, bind, Except.bind, pure,
          Except.pure, throw, throwThe, MonadExceptOf.throw, fits_error, fits_ok, Understated]
    · have hrest : chooseZip decoders limits inner (item :: rest)
          = chooseZip decoders limits inner rest := by simp [chooseZip, hname]
      rw [hrest, ih]
      simp [hname]

theorem chooseSevenZip_fits_iff {files : List Declared} {readFile : String → Decoded} :
    Fits limits (chooseSevenZip limits inner files readFile)
      ↔ InBounds decoders limits inner (.sevenZip files readFile) := by
  simp only [InBounds]
  induction files with
  | nil => exact iff_of_true fits_error not_reaches_nil
  | cons entry rest ih =>
    rw [reaches_cons]
    by_cases hname : entry.name = inner
    · cases hcheck : checkLimits entry.size entry.compressedSize limits <;>
        simp [chooseSevenZip, hname, hcheck, bind, Except.bind, pure, Except.pure, fits_error,
          fits_ok, Understated]
    · have hrest : chooseSevenZip limits inner (entry :: rest) readFile
          = chooseSevenZip limits inner rest readFile := by simp [chooseSevenZip, hname]
      rw [hrest, ih]
      simp [hname]

theorem TarEntry.At.iff {entry : TarEntry} {name : String} (h : entry.At name) :
    entry.At inner ↔ name = inner := by
  constructor
  · rintro ⟨-, path', hpath', hname'⟩
    obtain ⟨-, path, hpath, hname⟩ := h
    cases hpath.symm.trans hpath'
    exact Except.ok.inj (hname.symm.trans hname')
  · rintro rfl
    exact h

theorem TarEntry.At.passedOver_iff {entry : TarEntry} {name : String} (h : entry.At name) :
    PassedOver inner (.ok entry) ↔ name ≠ inner := by
  constructor
  · rintro ⟨_, other, ⟨⟩, hother, hne⟩
    exact h.iff.mp hother ▸ hne
  · exact fun hne => ⟨entry, name, rfl, h, hne⟩

/-- An entry that is at no path ends the loop with an error. -/
theorem chooseTar_cons {entry : TarEntry} {rest : List (Except VfsError TarEntry)} :
    (∃ error, chooseTar limits inner (.ok entry :: rest) = .error error) ∧ (∀ name, ¬ entry.At name)
    ∨ ∃ name, entry.At name ∧ chooseTar limits inner (.ok entry :: rest)
      = if name ≠ inner then chooseTar limits inner rest else do
          if entry.kind = .directory then throw (.isADirectory (insideLocation inner))
          if limits.maxUncompressedEntryBytes < (← entry.size) then
            throw (.archiveResourceLimit "uncompressedEntryBytes")
          return ⟨none, entry.data, none⟩ := by
  by_cases hother : entry.kind = .other
  · refine .inl ⟨⟨.unsafeArchiveEntry, ?_⟩, fun name hat => hat.1 hother⟩
    unfold chooseTar
    simp [hother, bind, Except.bind, throw, throwThe, MonadExceptOf.throw]
  · cases hpath : entry.path with
    | error error =>
      refine .inl ⟨⟨error, ?_⟩, fun name hat => ?_⟩
      · unfold chooseTar
        simp [hother, hpath, bind, Except.bind]
      · obtain ⟨-, path, hpath', -⟩ := hat
        cases hpath.symm.trans hpath'
    | ok path =>
      cases hname : safeStoredPath path (entry.kind == .directory) with
      | error error =>
        refine .inl ⟨⟨error, ?_⟩, fun name hat => ?_⟩
        · unfold chooseTar
          simp [hother, hpath, hname, bind, Except.bind]
        · obtain ⟨-, path', hpath', hname'⟩ := hat
          cases hpath.symm.trans hpath'
          cases hname.symm.trans hname'
      | ok name =>
        refine .inr ⟨name, ⟨hother, path, hpath, hname⟩, ?_⟩
        rw [chooseTar.eq_def]
        simp only [hother, hpath, hname, bind, Except.bind, pure, Except.pure]
        rfl

theorem chooseTar_fits_iff {entries : List (Except VfsError TarEntry)} :
    Fits limits (chooseTar limits inner entries)
      ↔ InBounds decoders limits inner (.tar entries) := by
  simp only [InBounds]
  induction entries with
  | nil => exact iff_of_true fits_error not_reaches_nil
  | cons item rest ih =>
    rw [reaches_cons]
    cases item with
    | error error =>
      refine iff_of_true fits_error ?_
      rintro (⟨e, _, h, _⟩ | ⟨⟨e, _, h, _⟩, _⟩) <;> cases h
    | ok entry =>
      rcases chooseTar_cons with ⟨⟨error, hchoose⟩, hnone⟩ | ⟨name, hat, hchoose⟩
      · rw [hchoose]
        refine iff_of_true fits_error ?_
        rintro (⟨_, _, ⟨⟩, hat, _⟩ | ⟨⟨_, _, ⟨⟩, hat, _⟩, _⟩) <;> exact hnone _ hat
      · rw [hchoose, hat.passedOver_iff]
        by_cases hname : name = inner
        · subst hname
          cases hkind : entry.kind with
          | other => exact absurd hkind hat.1
          | directory =>
            simp [hkind, bind, Except.bind, throw, throwThe, MonadExceptOf.throw, fits_error]
          | file =>
            cases hsize : entry.size with
            | error error => simp [hat, hkind, hsize, bind, Except.bind, fits_error]
            | ok size =>
              by_cases hlarge : limits.maxUncompressedEntryBytes < size
              · simp [hkind, hsize, hlarge, not_le.mpr hlarge, bind, Except.bind, throw, throwThe,
                  MonadExceptOf.throw, fits_error]
              · simp [hat, hkind, hsize, hlarge, not_lt.mp hlarge, bind, Except.bind, pure,
                  Except.pure, fits_ok, Within]
        · simp [hname, hat.iff, ih]

theorem findRar_eq_ok_iff {members : List RarMember} {found : Bool} :
    findRar limits inner found members = .ok true
      ↔ (∀ member ∈ members, member.Passes limits inner)
        ∧ (found = true ∨ ∃ member ∈ members, member.path = .ok inner) := by
  induction members generalizing found with
  | nil => simp [findRar]
  | cons member rest ih =>
    rw [findRar]
    cases hutf : member.isUtf8 with
    | false =>
      simp [hutf, Passes, bind, Except.bind, throw, throwThe, MonadExceptOf.throw]
    | true =>
      cases hpath : member.path with
      | error error =>
        have hstored : safeStoredPath member.name member.isDirectory = .error error := hpath
        simp [hutf, hpath, hstored, Passes, bind, Except.bind]
      | ok path =>
        have hstored : safeStoredPath member.name member.isDirectory = .ok path := hpath
        simp only [hstored, bind, Except.bind]
        cases hcheck : checkLimits member.size member.compressedSize limits with
        | error error => simp [hcheck, Passes]
        | ok value =>
          by_cases hinner : path = inner
          · cases hdirectory : member.isDirectory <;>
              simp [hutf, hpath, hcheck, hinner, hdirectory, ih, Passes, throw, throwThe,
                MonadExceptOf.throw]
          · simp [hutf, hpath, hcheck, hinner, ih, Passes]

theorem selectRar_fits_iff {members : List RarMember} : Fits limits (selectRar inner members)
    ↔ ¬ Reaches (fun member => ¬ member.Selected inner ∧ member.data.failure = none)
      (fun member => member.Selected inner
        ∧ ¬ Within limits (some member.compressedSize) member.data.bytes.length) members := by
  induction members with
  | nil => exact iff_of_true (fits_ok.mpr ⟨zero_le _, nofun⟩) not_reaches_nil
  | cons member rest ih =>
    rw [reaches_cons, selectRar]
    by_cases hselected : trimSlashes (forwardSlashes member.name) = inner
    · simp [hselected, Selected, fits_ok]
    · cases hfailure : member.data.failure <;>
        simp [hselected, Selected, fits_error, ih]

theorem chooseRar_fits_iff {members : List RarMember} :
    Fits limits (chooseRar limits inner members)
      ↔ InBounds decoders limits inner (.rar members) := by
  simp only [InBounds]
  rw [← selectRar_fits_iff]
  have hfound : findRar limits inner false members = .ok true ↔ _ := findRar_eq_ok_iff
  unfold chooseRar
  cases hfind : findRar limits inner false members with
  | error error =>
    refine iff_of_true fits_error fun hpasses hin => ?_
    rw [hfind] at hfound
    cases hfound.mpr ⟨hpasses, .inr hin⟩
  | ok found =>
    cases found with
    | false =>
      refine iff_of_true fits_error fun hpasses hin => ?_
      rw [hfind] at hfound
      cases hfound.mpr ⟨hpasses, .inr hin⟩
    | true =>
      obtain ⟨hpasses, hin⟩ := hfound.mp hfind
      exact ⟨fun h _ _ => h, fun h => h hpasses (hin.resolve_left nofun)⟩

-- ==== the limits

/-- The limits hold of reading an entry just if no entry that its path
comes to is understated. -/
theorem limits_enforced_iff (decoders : Decoders) (limits : ArchiveLimits) (inner : String)
    (contents : Contents) : Enforced limits (readArchiveEntry decoders limits inner contents)
      ↔ InBounds decoders limits inner contents := by
  cases contents with
  | zip entries => exact readToEnd_enforced_iff.trans chooseZip_fits_iff
  | sevenZip files readFile => exact readToEnd_enforced_iff.trans chooseSevenZip_fits_iff
  | tar entries => exact readToEnd_enforced_iff.trans chooseTar_fits_iff
  | rar members => exact readToEnd_enforced_iff.trans chooseRar_fits_iff
  | gzip name file =>
    have hnothing : ∀ error, Enforced limits ⟨.error error, 0, none⟩ :=
      fun error => ⟨nofun, fun hnot => absurd ⟨zero_le _, nofun⟩ hnot⟩
    unfold readArchiveEntry InBounds
    cases name with
    | error error => exact ⟨fun _ => nofun, fun _ => hnothing error⟩
    | ok name =>
      simp only [Except.ok.injEq]
      split
      case isTrue hother => exact ⟨fun _ heq => absurd heq.symm hother, fun _ => hnothing _⟩
      case isFalse hsame =>
        rw [readGzip_enforced_iff]
        exact ⟨fun h _ => h, fun h => h (not_not.mp hsame).symm⟩

-- A ZIP entry of 1 100 000 zeros, whose header says one byte.

@[irreducible] def zeros : Bytes := replicate 1100000 0

/-- They, deflated: 1083 bytes. -/
@[irreducible] def deflated : Bytes :=
  [237, 193, 49, 1, 0, 0, 0, 194, 160, 245, 79, 109, 13, 15, 160] ++ replicate 1065 0
    ++ [128, 55, 3]

theorem length_zeros : zeros.length = 1100000 := by
  unfold zeros
  exact length_replicate

theorem length_deflated : deflated.length = 1083 := by
  unfold deflated
  rw [length_append, length_append, length_replicate]
  rfl

/-- The crates, on these bytes. -/
def Decoders.sample : Decoders where
  decompress method bytes :=
    if method = 8 ∧ bytes = deflated then ⟨zeros, none⟩
    else ⟨[], some ⟨.other, "corrupt deflate stream"⟩⟩
  crc32 bytes := if bytes = zeros then 753794322 else 0
  gunzip _ := ⟨[], some ⟨.other, "invalid gzip header"⟩⟩

def understated : ZipItem where
  name := "a"
  isDirectory := false
  size := 1
  compressedSize := 1083
  method := 8
  checksum := some 753794322
  stored := deflated
  unlocked := .ok ()

theorem understated_data : understated.data .sample = ⟨zeros, none⟩ := by
  have htake : understated.stored.take understated.compressedSize = deflated :=
    take_of_length_le length_deflated.le
  have hdecoded : Decoders.sample.decompress 8 deflated = ⟨zeros, none⟩ := if_pos ⟨rfl, rfl⟩
  have hcrc : Decoders.sample.crc32 zeros = 753794322 := if_pos rfl
  unfold ZipItem.data
  rw [htake]
  simp only [show understated.method = 8 from rfl, hdecoded,
    show understated.checksum = some 753794322 from rfl, hcrc, if_true]

theorem understated_entry_passes_limits :
    ¬ Enforced .standard (readArchiveEntry .sample .standard "a" (.zip [understated])) := by
  intro h
  have hchosen : chooseZip .sample .standard "a" [understated]
      = .ok ⟨some 1083, understated.data .sample, none⟩ := rfl
  rw [understated_data] at hchosen
  have hwithin := (readToEnd_enforced_iff.mp h _ hchosen).2 1083 rfl
  rw [length_zeros] at hwithin
  revert hwithin
  decide

end FileManager.Archives.Limits
