/-
Streams that are hashed: with an idle token, as a whole, and with a
token that fires in between.

A file is hashed exactly if it can be read to its end before the token
fires (`ReadsToEnd`). A hash that is not over by then leaves the token
seen cancelled.
-/
import FileManager.Checksums.Hash
import FileManager.Lib.Fallible

namespace FileManager.Checksums

open Vfs (Providers Token)
open List Vfs Hashers Except Fallible
open Option
open Hashers (update finish)

variable {chunks : List (Except String Vfs.Bytes)} {token : Token} {content : Vfs.Bytes}
  {look after : Nat} {providers : Providers} {digests : Digests} {entry : EntryRef}
  {algorithms : List ChecksumAlgorithm} {set : ChecksumSet} {limit : Option Nat}
  {algorithm : ChecksumAlgorithm}

-- ==== an idle token

theorem hashChunks_idle (limit : Option Nat) (chunks : List (Except String Vfs.Bytes))
    (hashers : Hashers) (look look' : Nat) :
    (hashChunks .idle limit chunks hashers look).1
      = (hashChunks .idle limit chunks hashers look').1 := by
  induction chunks generalizing hashers look look' with
  | nil =>
    unfold hashChunks
    simp
  | cons read rest ih =>
    unfold hashChunks
    simp only [Token.isCancelled_idle, Bool.false_eq_true, if_false]
    cases read with
    | error message => rfl
    | ok chunk =>
      simp only
      split
      case isTrue => rfl
      case isFalse =>
        cases chunkBudget limit hashers.fed.length chunk.length with
        | none => rfl
        | some usable =>
          simp only
          split
          case isTrue => rfl
          case isFalse => exact ih _ _ _

theorem hashEntryBounded_idle (digests : Digests) (providers : Providers) (entry : EntryRef)
    (algorithms : List ChecksumAlgorithm) (limit : Option Nat) (look look' : Nat) :
    (hashEntryBounded digests providers .idle entry algorithms limit look).1
      = (hashEntryBounded digests providers .idle entry algorithms limit look').1 := by
  unfold hashEntryBounded openEntry
  rw [Providers.call_idle, Providers.call_idle]
  cases providers.chunks entry.location with
  | error error => rfl
  | ok chunks =>
    simp only
    unfold hashStreamBounded
    cases new algorithms with
    | error error => rfl
    | ok hashers =>
      simp only
      split
      case isTrue => rfl
      case isFalse =>
        have hsame := hashChunks_idle limit chunks hashers
          (look + providers.looks entry.location) (look' + providers.looks entry.location)
        generalize hashChunks .idle limit chunks hashers
          (look + providers.looks entry.location) = first at hsame ⊢
        generalize hashChunks .idle limit chunks hashers
          (look' + providers.looks entry.location) = second at hsame ⊢
        obtain ⟨result, after⟩ := first
        obtain ⟨result', after'⟩ := second
        subst hsame
        cases result <;> rfl

-- ==== whole streams

/-- The bytes of a stream, if no read of it fails. -/
def streamed : List (Except String Vfs.Bytes) → Option Vfs.Bytes
  | [] => some []
  | .error _ :: _ => none
  | .ok chunk :: rest => if chunk = [] then some [] else (streamed rest).map (chunk ++ ·)

/-- How many reads it takes to the end of a stream, or to a failure. -/
def reads : List (Except String Vfs.Bytes) → Nat
  | [] => 1
  | .error _ :: _ => 1
  | .ok chunk :: rest => if chunk = [] then 1 else reads rest + 1

theorem reads_pos (chunks : List (Except String Vfs.Bytes)) : 0 < reads chunks := by
  cases chunks with
  | nil => exact Nat.one_pos
  | cons read rest =>
    cases read with
    | error message => exact Nat.one_pos
    | ok chunk =>
      unfold reads
      split
      case isTrue => exact Nat.one_pos
      case isFalse => exact Nat.succ_pos _

theorem Hashers.update_update (hashers : Hashers) (first second : Vfs.Bytes) :
    (hashers.update first).update second = hashers.update (first ++ second) := by
  unfold update
  rw [append_assoc]

theorem hashChunks_ok (hashers : Hashers) (hstream : streamed chunks = some content)
    (htoken : token.isCancelled (look + reads chunks - 1) = false) :
    hashChunks token none chunks hashers look
      = (.ok (hashers.update content), look + reads chunks) := by
  have hnow : ¬ token.isCancelled look = true := by
    intro hcancelled
    have hlater := token.isCancelled_mono
      (show look ≤ look + reads chunks - 1 by have := reads_pos chunks; omega) hcancelled
    rw [htoken] at hlater
    cases hlater
  induction chunks generalizing hashers look content with
  | nil =>
    injection hstream with hcontent
    subst hcontent
    unfold hashChunks update
    rw [if_neg hnow]
    simp [reads]
  | cons read rest ih =>
    cases read with
    | error message => cases hstream
    | ok chunk =>
      unfold streamed at hstream
      unfold reads at htoken ⊢
      unfold hashChunks
      rw [if_neg hnow]
      simp only
      by_cases hend : chunk = []
      · rw [if_pos hend] at hstream ⊢
        rw [if_pos hend]
        injection hstream with hcontent
        subst hcontent
        simp [update]
      · rw [if_neg hend] at hstream htoken ⊢
        rw [if_neg hend]
        obtain ⟨more, hmore, rfl⟩ := map_eq_some_iff.mp hstream
        have hlast : token.isCancelled (look + 1 + reads rest - 1) = false := by
          rw [show look + 1 + reads rest - 1 = look + (reads rest + 1) - 1 by omega]
          exact htoken
        have hnext : ¬ token.isCancelled (look + 1) = true := by
          intro hcancelled
          have hlater := token.isCancelled_mono
            (show look + 1 ≤ look + 1 + reads rest - 1 by have := reads_pos rest; omega)
            hcancelled
          rw [hlast] at hlater
          cases hlater
        simp only [chunkBudget, take_length, any_none, Bool.false_eq_true, if_false]
        rw [ih (hashers.update chunk) hmore hlast hnext, update_update,
          show look + 1 + reads rest = look + (reads rest + 1) by omega]

variable {hashers result : Hashers}

theorem streamed_of_hashChunks
    (h : hashChunks token none chunks hashers look = (.ok result, after)) :
    streamed chunks ≠ none ∧ token.isCancelled (look + reads chunks - 1) = false := by
  induction chunks generalizing hashers look with
  | nil =>
    unfold hashChunks at h
    obtain ⟨hnow, h⟩ := passed h nofun
    exact ⟨some_ne_none _, by simpa [reads] using hnow⟩
  | cons read rest ih =>
    unfold hashChunks at h
    obtain ⟨hnow, h⟩ := passed h nofun
    cases read with
    | error message => cases h
    | ok chunk =>
      simp only at h
      unfold streamed reads
      by_cases hend : chunk = []
      · rw [if_pos hend, if_pos hend]
        exact ⟨some_ne_none _, by simpa using hnow⟩
      · rw [if_neg hend, if_neg hend]
        rw [if_neg hend] at h
        simp only [chunkBudget, take_length, any_none, Bool.false_eq_true, if_false] at h
        obtain ⟨hstream, htoken⟩ := ih h
        refine ⟨by simpa using hstream, ?_⟩
        rw [show look + (reads rest + 1) - 1 = look + 1 + reads rest - 1 by omega]
        exact htoken

/-- A file can be opened, and no read of it fails. -/
def Readable (providers : Providers) (location : Location) : Prop :=
  ∃ chunks content, providers.chunks location = .ok chunks ∧ streamed chunks = some content

/-- How often the token is looked at while a file is opened and read. -/
def looksToRead (providers : Providers) (location : Location) : Nat :=
  match providers.chunks location with
  | .ok chunks => providers.looks location + reads chunks
  | .error _ => providers.looks location

/-- A file is read to its end before the token fires. -/
def ReadsToEnd (providers : Providers) (token : Token) (location : Location) (look : Nat) : Prop :=
  Readable providers location
    ∧ token.isCancelled (look + looksToRead providers location - 1) = false

theorem hashEntry_of_streamed (hsome : algorithms ≠ [])
    (hchunks : providers.chunks entry.location = .ok chunks)
    (hstream : streamed chunks = some content)
    (htoken : token.isCancelled (look + looksToRead providers entry.location - 1) = false) :
    hashEntry digests providers token entry algorithms look
      = (.ok (finish digests ⟨algorithms, content⟩),
        look + looksToRead providers entry.location) := by
  unfold looksToRead at htoken ⊢
  rw [hchunks] at htoken ⊢
  simp only at htoken ⊢
  have hpos := reads_pos chunks
  have hcall : providers.call token entry.location look
      = (some (), look + providers.looks entry.location) := by
    unfold Providers.call
    simp only
    rw [if_neg]
    intro hgives
    have hlater := token.isCancelled_mono (show look + providers.looks entry.location - 1
        ≤ look + (providers.looks entry.location + reads chunks) - 1 by omega) hgives.2
    simp [htoken] at hlater
  have hlast : token.isCancelled
      (look + providers.looks entry.location + reads chunks - 1) = false := by
    rw [Nat.add_assoc]
    exact htoken
  unfold hashEntry hashEntryBounded openEntry
  simp only [hcall, hchunks]
  unfold hashStreamBounded new
  rw [if_neg hsome]
  simp only [reduceCtorEq, if_false]
  rw [hashChunks_ok _ hstream hlast, Nat.add_assoc]
  rfl

theorem readsToEnd_of_hashEntry
    (h : hashEntry digests providers token entry algorithms look = (.ok set, after)) :
    ReadsToEnd providers token entry.location look := by
  unfold hashEntry hashEntryBounded openEntry at h
  generalize hcall : providers.call token entry.location look = called at h
  obtain ⟨answer, look'⟩ := called
  have hlook : look' = look + providers.looks entry.location := (congrArg Prod.snd hcall).symm
  cases answer with
  | none => cases h
  | some _ =>
    simp only at h
    cases hchunks : providers.chunks entry.location with
    | error error =>
      simp [hchunks] at h
    | ok chunks =>
      rw [hchunks] at h
      simp only at h
      unfold hashStreamBounded at h
      cases hnew : new algorithms with
      | error error =>
        simp [hnew] at h
      | ok hashers =>
        rw [hnew] at h
        simp only [reduceCtorEq, if_false] at h
        generalize hfed : hashChunks token none chunks hashers look' = fed at h
        obtain ⟨result, after'⟩ := fed
        cases result with
        | error error => cases h
        | ok result =>
          obtain ⟨hstream, htoken⟩ := streamed_of_hashChunks hfed
          obtain ⟨content, hcontent⟩ := ne_none_iff_exists'.mp hstream
          refine ⟨⟨chunks, content, hchunks, hcontent⟩, ?_⟩
          unfold looksToRead
          rw [hchunks]
          simp only
          rw [← Nat.add_assoc, ← hlook]
          exact htoken

-- ==== what a reader delivers

/-- The reads of a stream deliver the bytes of a file in order: to its
end, or to a read that fails. -/
def Delivers : List (Except String Vfs.Bytes) → Vfs.Bytes → Prop
  | [], content => content = []
  | .error _ :: _, _ => True
  | .ok chunk :: rest, content =>
    if chunk = [] then content = []
    else ∃ more, content = chunk ++ more ∧ Delivers rest more

/-- As much of a file as a limit admits. -/
def bounded (limit : Option Nat) (content : Vfs.Bytes) : Vfs.Bytes :=
  match limit with
  | none => content
  | some limit => content.take limit

/-- However the bytes are split into reads, a stream that is hashed to
the end or to the limit has fed the hashers exactly what the limit
admits. -/
theorem fed_of_hashChunks
    (hdelivers : Delivers chunks content) (hroom : ∀ n, limit = some n → hashers.fed.length < n)
    (h : hashChunks token limit chunks hashers look = (.ok result, after)) :
    result = ⟨hashers.algorithms, bounded limit (hashers.fed ++ content)⟩ := by
  -- within the room, what has been fed is not cut
  have hfits : bounded limit hashers.fed = hashers.fed := by
    cases limit with
    | none => rfl
    | some n => exact take_of_length_le (Nat.le_of_lt (hroom n rfl))
  have hend : content = [] → hashers = result →
      result = ⟨hashers.algorithms, bounded limit (hashers.fed ++ content)⟩ := by
    rintro rfl rfl
    rw [append_nil, hfits]
  induction chunks generalizing hashers look content with
  | nil =>
    unfold hashChunks at h
    obtain ⟨-, h⟩ := passed h nofun
    exact hend hdelivers (ok.inj (Prod.mk.inj h).1)
  | cons read rest ih =>
    unfold hashChunks at h
    obtain ⟨-, h⟩ := passed h nofun
    cases read with
    | error message => cases h
    | ok chunk =>
      simp only at h
      unfold Delivers at hdelivers
      by_cases hempty : chunk = []
      · rw [if_pos hempty] at h hdelivers
        exact hend hdelivers (ok.inj (Prod.mk.inj h).1)
      · rw [if_neg hempty] at h hdelivers
        obtain ⟨more, rfl, hmore⟩ := hdelivers
        cases limit with
        | none =>
          simp only [chunkBudget, take_length, any_none, Bool.false_eq_true, if_false] at h
          have hnext : result = ⟨(hashers.update chunk).algorithms,
              bounded none ((hashers.update chunk).fed ++ more)⟩ := by
            refine ih hmore (by simp) h rfl ?_
            rintro rfl rfl
            simp [bounded]
          rw [hnext]
          simp [update, bounded]
        | some n =>
          have hlt := hroom n rfl
          have hbudget : chunkBudget (some n) hashers.fed.length chunk.length
              = some (min (n - hashers.fed.length) chunk.length) := by
            simp only [chunkBudget]
            rw [if_neg (by omega)]
          rw [hbudget] at h
          simp only [any_some, decide_eq_true_eq] at h
          by_cases hfull : n - hashers.fed.length ≤ chunk.length
          · -- the limit is reached within this read
            rw [Nat.min_eq_left hfull, if_pos (by
              simp only [update, length_append, length_take]
              omega)] at h
            rw [← ok.inj (Prod.mk.inj h).1]
            simp only [update, bounded, mk.injEq, true_and]
            rw [take_append, take_of_length_le (Nat.le_of_lt hlt), take_append_of_le_length hfull]
          · have hle : chunk.length ≤ n - hashers.fed.length := by omega
            rw [Nat.min_eq_right hle, take_length, if_neg (by
              simp only [update, length_append]
              omega)] at h
            have hroom' : ∀ m, some n = some m → (hashers.update chunk).fed.length < m := by
              intro m hm
              obtain rfl := Option.some.inj hm
              simp only [update, length_append]
              omega
            have hcut : bounded (some n) (hashers.update chunk).fed
                = (hashers.update chunk).fed :=
              take_of_length_le (Nat.le_of_lt (hroom' n rfl))
            have hnext : result = ⟨(hashers.update chunk).algorithms,
                bounded (some n) ((hashers.update chunk).fed ++ more)⟩ := by
              refine ih hmore hroom' h hcut ?_
              rintro rfl rfl
              rw [append_nil, hcut]
            rw [hnext]
            simp [update]

theorem delivers_of_streamed (hstream : streamed chunks = some content) :
    Delivers chunks content := by
  induction chunks generalizing content with
  | nil => exact (Option.some.inj hstream).symm
  | cons read rest ih =>
    cases read with
    | error message => trivial
    | ok chunk =>
      unfold streamed at hstream
      unfold Delivers
      split at hstream
      case isTrue hend =>
        rw [if_pos hend]
        exact (Option.some.inj hstream).symm
      case isFalse hend =>
        rw [if_neg hend]
        obtain ⟨more, hmore, rfl⟩ := map_eq_some_iff.mp hstream
        exact ⟨more, rfl, ih hmore⟩

/-- No read fails, and nobody cancels. -/
theorem exists_hashChunks (limit : Option Nat) (hashers : Hashers) (look : Nat)
    (hstream : streamed chunks ≠ none) :
    ∃ result after, hashChunks .idle limit chunks hashers look = (.ok result, after) := by
  induction chunks generalizing hashers look with
  | nil =>
    unfold hashChunks
    exact ⟨_, _, rfl⟩
  | cons read rest ih =>
    cases read with
    | error message => exact absurd rfl hstream
    | ok chunk =>
      unfold hashChunks
      rw [Token.isCancelled_idle, if_neg (by simp)]
      simp only
      by_cases hend : chunk = []
      · rw [if_pos hend]
        exact ⟨_, _, rfl⟩
      · rw [if_neg hend]
        have hrest : streamed rest ≠ none := by
          intro hnone
          rw [streamed, if_neg hend, hnone] at hstream
          exact hstream rfl
        cases chunkBudget limit hashers.fed.length chunk.length with
        | none => exact ⟨_, _, rfl⟩
        | some usable =>
          simp only
          split
          case isTrue => exact ⟨_, _, rfl⟩
          case isFalse => exact ih _ _ hrest

theorem hashReads_eq (limit : Option Nat) (chunks : List (Except String Vfs.Bytes))
    (hashers : Hashers) (look : Nat) :
    hashReads token limit chunks hashers look = hashChunks token limit chunks hashers look := by
  induction chunks generalizing hashers look with
  | nil => rfl
  | cons read rest ih =>
    unfold hashReads hashChunks
    cases read with
    | error message => rfl
    | ok chunk => simp only [ih]

theorem hashBlockingBounded_eq (algorithms : List ChecksumAlgorithm) (limit : Option Nat) :
    hashBlockingBounded digests token chunks algorithms limit look
      = hashStreamBounded digests token chunks algorithms limit look := by
  unfold hashBlockingBounded hashStreamBounded
  simp only [hashReads_eq]

theorem length_bounded (limit : Option Nat) (content : Vfs.Bytes) :
    (bounded limit content).length = limit.elim content.length (min · content.length) := by
  cases limit with
  | none => rfl
  | some n => exact length_take

theorem get_finish (hmem : algorithm ∈ algorithms) (fed : Vfs.Bytes) :
    (finish digests ⟨algorithms, fed⟩).get algorithm = some (digests algorithm fed) := by
  unfold finish ChecksumSet.get
  rw [List.find?_map, List.find?_filter]
  cases algorithm <;> simp [ChecksumAlgorithm.all, hmem]

theorem hashStreamBounded_idle (hsome : algorithms ≠ [])
    (limit : Option Nat) (look : Nat) (hstream : streamed chunks = some content) :
    (hashStreamBounded digests .idle chunks algorithms limit look).1
      = .ok (finish digests ⟨algorithms, bounded limit content⟩) := by
  unfold hashStreamBounded new
  rw [if_neg hsome]
  simp only
  split
  case isTrue hzero => rw [hzero]; rfl
  case isFalse hpositive =>
    have hread : streamed chunks ≠ none := by simp [hstream]
    obtain ⟨result, after, hresult⟩ := exists_hashChunks limit ⟨algorithms, []⟩ look hread
    have hroom : ∀ n, limit = some n → ([] : Vfs.Bytes).length < n := by
      rintro n rfl
      exact Nat.pos_of_ne_zero fun hzero => hpositive (by rw [hzero])
    rw [hresult]
    obtain rfl := fed_of_hashChunks (delivers_of_streamed hstream) hroom hresult
    rfl

/-- However each of the two readers splits the bytes of a file. -/
theorem hashing_ignores_reads (digests : Digests) (content : Vfs.Bytes)
    (chunks blocking : List (Except String Vfs.Bytes))
    (hchunks : streamed chunks = some content) (hblocking : streamed blocking = some content)
    (algorithms : List ChecksumAlgorithm) (hsome : algorithms ≠ []) (limit : Option Nat)
    (look look' : Nat) :
    ∃ set, (hashStreamBounded digests .idle chunks algorithms limit look).1 = .ok set
      ∧ (hashBlockingBounded digests .idle blocking algorithms limit look').1 = .ok set
      ∧ (∀ algorithm ∈ algorithms,
        set.get algorithm = some (digests algorithm (bounded limit content)))
      ∧ set.bytesHashed = limit.elim content.length (min · content.length) := by
  refine ⟨_, hashStreamBounded_idle hsome limit look hchunks, ?_, fun algorithm hmem =>
    get_finish hmem _, length_bounded limit content⟩
  rw [hashBlockingBounded_eq]
  exact hashStreamBounded_idle hsome limit look' hblocking

theorem split_file_hashed :
    ∃ set, (hashStreamBounded (fun _ fed => toString fed) .idle [.ok [1, 2], .ok [3]] [.crc32]
        (some 2) 0).1 = .ok set
      ∧ (hashBlockingBounded (fun _ fed => toString fed) .idle [.ok [1], .ok [2, 3]] [.crc32]
        (some 2) 0).1 = .ok set
      ∧ (∀ algorithm ∈ [ChecksumAlgorithm.crc32],
        set.get algorithm = some (toString (bounded (some 2) [1, 2, 3])))
      ∧ set.bytesHashed = min 2 3 :=
  hashing_ignores_reads _ [1, 2, 3] _ _ rfl rfl [.crc32] (by decide) (some 2) 0 0

theorem get_of_hashEntryBounded
    (hdelivers : ∀ chunks, providers.chunks entry.location = .ok chunks → Delivers chunks content)
    (h : hashEntryBounded digests providers token entry [algorithm] limit look = (.ok set, after)) :
    set.get algorithm = some (digests algorithm (bounded limit content)) := by
  have hget : ∀ fed, (finish digests ⟨[algorithm], fed⟩).get algorithm
      = some (digests algorithm fed) := by
    intro fed
    cases algorithm <;> rfl
  unfold hashEntryBounded openEntry at h
  generalize providers.call token entry.location look = called at h
  obtain ⟨answer, look'⟩ := called
  cases answer with
  | none => cases h
  | some _ =>
    simp only at h
    cases hchunks : providers.chunks entry.location with
    | error error =>
      simp [hchunks] at h
    | ok chunks =>
      rw [hchunks] at h
      simp only [hashStreamBounded, new, cons_ne_nil, if_false] at h
      split at h
      case isTrue hzero =>
        rw [← ok.inj (Prod.mk.inj h).1, hget, hzero]
        rfl
      case isFalse hpositive =>
        generalize hfed : hashChunks token limit chunks ⟨[algorithm], []⟩ look' = fed at h
        obtain ⟨result, after'⟩ := fed
        cases result with
        | error error => cases h
        | ok result =>
          have hroom : ∀ n, limit = some n → ([] : Vfs.Bytes).length < n := by
            rintro n rfl
            exact Nat.pos_of_ne_zero fun hzero => hpositive (by rw [hzero])
          rw [← ok.inj (Prod.mk.inj h).1,
            fed_of_hashChunks (hdelivers chunks hchunks) hroom hfed, hget]
          rfl

-- ==== a token that fires

theorem le_hashChunks (token : Token) (limit : Option Nat)
    (chunks : List (Except String Vfs.Bytes)) (hashers : Hashers) (look : Nat) :
    look ≤ (hashChunks token limit chunks hashers look).2 := by
  induction chunks generalizing hashers look with
  | nil =>
    unfold hashChunks
    split <;> exact Nat.le_succ look
  | cons read rest ih =>
    unfold hashChunks
    split
    case isTrue => exact Nat.le_succ look
    case isFalse =>
      cases read with
      | error message => exact Nat.le_succ look
      | ok chunk =>
        simp only
        split
        case isTrue => exact Nat.le_succ look
        case isFalse =>
          cases chunkBudget limit hashers.fed.length chunk.length with
          | none => exact Nat.le_succ look
          | some usable =>
            simp only
            split
            case isTrue => exact Nat.le_succ look
            case isFalse => exact Nat.le_of_succ_le (ih _ _)

theorem undisturbed_hashChunks (token : Token) (limit : Option Nat)
    (chunks : List (Except String Vfs.Bytes)) (hashers : Hashers) (look : Nat) :
    token.Undisturbed (hashChunks token limit chunks hashers look)
      (hashChunks .idle limit chunks hashers look) := by
  induction chunks generalizing hashers look with
  | nil =>
    unfold hashChunks
    by_cases hcancelled : token.isCancelled look = true
    · rw [if_pos hcancelled]
      exact .inr (token.isCancelled_mono (Nat.le_succ look) hcancelled)
    · rw [if_neg hcancelled]
      exact .inl rfl
  | cons read rest ih =>
    unfold hashChunks
    by_cases hcancelled : token.isCancelled look = true
    · rw [if_pos hcancelled]
      exact .inr (token.isCancelled_mono (Nat.le_succ look) hcancelled)
    · rw [if_neg hcancelled, Token.isCancelled_idle, if_neg (by simp)]
      cases read with
      | error message => exact .inl rfl
      | ok chunk =>
        simp only
        split
        case isTrue => exact .inl rfl
        case isFalse =>
          cases chunkBudget limit hashers.fed.length chunk.length with
          | none => exact .inl rfl
          | some usable =>
            simp only
            split
            case isTrue => exact .inl rfl
            case isFalse => exact ih _ _

theorem le_hashStreamBounded (digests : Digests) (token : Token)
    (chunks : List (Except String Vfs.Bytes)) (algorithms : List ChecksumAlgorithm)
    (limit : Option Nat) (look : Nat) :
    look ≤ (hashStreamBounded digests token chunks algorithms limit look).2 := by
  unfold hashStreamBounded
  cases new algorithms with
  | error error => exact Nat.le_refl _
  | ok hashers =>
    simp only
    split
    case isTrue => exact Nat.le_refl _
    case isFalse =>
      have hle := le_hashChunks token limit chunks hashers look
      generalize hashChunks token limit chunks hashers look = fed at hle ⊢
      obtain ⟨result, after⟩ := fed
      cases result <;> exact hle

theorem undisturbed_hashStreamBounded (digests : Digests) (token : Token)
    (chunks : List (Except String Vfs.Bytes)) (algorithms : List ChecksumAlgorithm)
    (limit : Option Nat) (look : Nat) :
    token.Undisturbed (hashStreamBounded digests token chunks algorithms limit look)
      (hashStreamBounded digests .idle chunks algorithms limit look) := by
  unfold hashStreamBounded
  cases new algorithms with
  | error error => exact .inl rfl
  | ok hashers =>
    simp only
    split
    case isTrue => exact .inl rfl
    case isFalse =>
      rcases undisturbed_hashChunks token limit chunks hashers look with heq | hcancelled
      · rw [heq]
        exact .inl rfl
      · refine .inr ?_
        generalize hashChunks token limit chunks hashers look = fed at hcancelled ⊢
        obtain ⟨result, after⟩ := fed
        cases result <;> exact hcancelled

theorem undisturbed_openEntry (providers : Providers) (token : Token) (entry : EntryRef)
    (look : Nat) :
    token.Undisturbed (openEntry providers token entry look)
      (openEntry providers .idle entry look) := by
  unfold openEntry
  rcases providers.undisturbed_call entry.location token look with heq | hcancelled
  · rw [heq]
    exact .inl rfl
  · refine .inr ?_
    generalize providers.call token entry.location look = called at hcancelled ⊢
    obtain ⟨answer, after⟩ := called
    cases answer with
    | none => exact hcancelled
    | some _ => cases providers.chunks entry.location <;> exact hcancelled

theorem le_hashEntryBounded (digests : Digests) (providers : Providers) (token : Token)
    (entry : EntryRef) (algorithms : List ChecksumAlgorithm) (limit : Option Nat) (look : Nat) :
    look ≤ (hashEntryBounded digests providers token entry algorithms limit look).2 := by
  have hcall := providers.le_call entry.location token look
  unfold hashEntryBounded openEntry
  generalize providers.call token entry.location look = called at hcall ⊢
  obtain ⟨answer, after⟩ := called
  cases answer with
  | none => exact hcall
  | some _ =>
    simp only
    cases providers.chunks entry.location with
    | error error => exact hcall
    | ok chunks =>
      exact Nat.le_trans hcall (le_hashStreamBounded digests token chunks algorithms limit after)

theorem undisturbed_hashEntryBounded (digests : Digests) (providers : Providers) (token : Token)
    (entry : EntryRef) (algorithms : List ChecksumAlgorithm) (limit : Option Nat) (look : Nat) :
    token.Undisturbed (hashEntryBounded digests providers token entry algorithms limit look)
      (hashEntryBounded digests providers .idle entry algorithms limit look) := by
  unfold hashEntryBounded
  rcases undisturbed_openEntry providers token entry look with heq | hcancelled
  · rw [heq]
    generalize openEntry providers .idle entry look = opened
    obtain ⟨result, after⟩ := opened
    cases result with
    | error error => exact .inl rfl
    | ok chunks => exact undisturbed_hashStreamBounded digests token chunks algorithms limit after
  · refine .inr ?_
    generalize openEntry providers token entry look = opened at hcancelled ⊢
    obtain ⟨result, after⟩ := opened
    cases result with
    | error error => exact hcancelled
    | ok chunks =>
      exact token.isCancelled_mono
        (le_hashStreamBounded digests token chunks algorithms limit after) hcancelled

end FileManager.Checksums
