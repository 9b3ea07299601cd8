/-
Concurrent changes of one archive.

# The argument

A rewrite that succeeds keeps the entries it does not match and adds its
own (`rewriteEntries_ok`). When every rename replaces an archive with the
entries that its call had opened (`RenamesWhatItRead`), the calls that
returned `Ok`, in the order of their renames, explain the archive
(`Serialized`): each rename is one more rewrite of the entries that the
ones before it left.

Without the condition a call renames a replacement of an archive that is
there no more, and the calls that renamed since it opened are undone;
nothing worse happens (`Explained`, `Chained`).
-/
import FileManager.Archives.Rewrite
import FileManager.Lib.Fallible
import FileManager.Lib.Machine

namespace FileManager.Archives.Updates

open Machine List Nat Rewrite
open Fallible (bind_eq_ok)
open State (rewriteOf move)

variable {crates : Crates} {rewrite : Rewrite} {entries replacement first : List Entry}
  {s s' : State} {entry : Entry} {i : Nat} {call : Call} {position : Position} {outer : String}
  {a : Action}

-- ==== one rewrite

/-- The rewrite leaves the entry out. -/
def Rewrite.drops (crates : Crates) (rewrite : Rewrite) (entry : Entry) : Bool :=
  match safeEntryPath crates entry.name with
  | .error _ => false
  | .ok name =>
    match rewrite.skip name with
    | .error _ => false
    | .ok skip => skip

/-- The entry that the rewrite adds. -/
def Rewrite.added : Rewrite → Option Entry
  | .addFile inner staging _ => some { name := inner, content := some staging }
  | .addDirectory inner => some { name := inner, content := none }
  | .remove _ _ => none

theorem copyEntries_ok {state state' : Bool × List Entry}
    (h : copyEntries crates rewrite entries state = .ok state') :
    state'.2 = state.2 ++ entries.filter fun entry => !rewrite.drops crates entry := by
  induction entries generalizing state with
  | nil =>
    cases h
    simp
  | cons item rest ih =>
    obtain ⟨isMatched, written⟩ := state
    unfold copyEntries at h
    obtain ⟨name, hname, h⟩ := bind_eq_ok.mp h
    obtain ⟨skip, hskip, h⟩ := bind_eq_ok.mp h
    have hdrops : rewrite.drops crates item = skip := by simp only [drops, hname, hskip]
    cases skip with
    | true =>
      rw [if_pos rfl] at h
      rw [ih h, filter_cons_of_neg (by simp [hdrops])]
    | false =>
      rw [if_neg Bool.false_ne_true] at h
      obtain ⟨written', hpush, h⟩ := bind_eq_ok.mp h
      obtain ⟨rfl, -⟩ := push_eq_ok.mp hpush
      rw [ih h, filter_cons_of_pos (by simp [hdrops]), append_assoc]
      rfl

theorem rewriteEntries_ok (h : rewriteEntries crates rewrite entries = .ok replacement) :
    replacement = (entries.filter fun entry => !rewrite.drops crates entry)
      ++ rewrite.added.toList := by
  unfold rewriteEntries at h
  obtain ⟨⟨isMatched, written⟩, hcopy, h⟩ := bind_eq_ok.mp h
  have hwritten := copyEntries_ok hcopy
  rw [nil_append] at hwritten
  rw [← hwritten]
  cases rewrite with
  | addFile inner staging overwrite | addDirectory inner => exact (push_eq_ok.mp h).1
  | remove inner recursive =>
    dsimp only at h
    split at h
    case isTrue => cases h; exact (append_nil _).symm
    case isFalse => cases h

theorem added_mem (h : rewriteEntries crates rewrite entries = .ok replacement)
    (hadded : rewrite.added = some entry) : entry ∈ replacement := by
  rw [rewriteEntries_ok h, hadded]
  exact mem_append_right _ (mem_singleton_self _)

theorem mem_or_drops (h : rewriteEntries crates rewrite entries = .ok replacement)
    (hentry : entry ∈ entries) : entry ∈ replacement ∨ rewrite.drops crates entry = true := by
  rw [rewriteEntries_ok h, mem_append, mem_filter]
  cases hdrops : rewrite.drops crates entry with
  | true => exact .inr rfl
  | false => exact .inl (.inl ⟨hentry, rfl⟩)

theorem mem_of_replacement (h : rewriteEntries crates rewrite entries = .ok replacement)
    (hentry : entry ∈ replacement) :
    (entry ∈ entries ∧ rewrite.drops crates entry = false) ∨ rewrite.added = some entry := by
  rw [rewriteEntries_ok h, mem_append, mem_filter] at hentry
  rcases hentry with ⟨hold, hkept⟩ | hadded
  · exact .inl ⟨hold, by simpa using hkept⟩
  · exact .inr (Option.mem_toList.mp hadded)

-- ==== many rewrites

theorem applyAll_append (before after : List Rewrite) :
    applyAll crates first (before ++ after)
      = applyAll crates first before >>= fun entries => applyAll crates entries after :=
  foldlM_append

theorem applyAll_cons (rest : List Rewrite) :
    applyAll crates first (rewrite :: rest) = rewriteEntries crates rewrite first >>= fun entries =>
        applyAll crates entries rest :=
  foldlM_cons

variable {rewrites : List Rewrite}

theorem mem_applyAll_or_drops
    (h : applyAll crates first rewrites = .ok entries) (hentry : entry ∈ first) :
    entry ∈ entries ∨ ∃ rewrite ∈ rewrites, rewrite.drops crates entry = true := by
  induction rewrites generalizing first with
  | nil => cases h; exact .inl hentry
  | cons rewrite rest ih =>
    rw [applyAll_cons] at h
    obtain ⟨next, hnext, h⟩ := bind_eq_ok.mp h
    rcases mem_or_drops hnext hentry with hstays | hdrops
    · rcases ih h hstays with hlast | ⟨later, hlater, hdrops⟩
      · exact .inl hlast
      · exact .inr ⟨later, mem_cons_of_mem _ hlater, hdrops⟩
    · exact .inr ⟨rewrite, mem_cons_self, hdrops⟩

theorem mem_of_mem_applyAll
    (h : applyAll crates first rewrites = .ok entries) (hentry : entry ∈ entries) :
    entry ∈ first ∨ ∃ rewrite ∈ rewrites, rewrite.added = some entry := by
  induction rewrites generalizing first with
  | nil => cases h; exact .inl hentry
  | cons rewrite rest ih =>
    rw [applyAll_cons] at h
    obtain ⟨next, hnext, h⟩ := bind_eq_ok.mp h
    rcases ih h with hmem | ⟨later, hlater, hadded⟩
    · rcases mem_of_replacement hnext hmem with ⟨hold, -⟩ | hadded
      · exact .inl hold
      · exact .inr ⟨rewrite, mem_cons_self, hadded⟩
    · exact .inr ⟨later, mem_cons_of_mem _ hlater, hadded⟩

-- ==== the condition

/-- The entries that a call has opened, if its next access renames. -/
def State.renaming (crates : Crates) (s : State) (i : Nat) : Option (List Entry) :=
  match s.calls[i]? with
  | none => none
  | some call =>
    match call.plan, call.position with
    | .ok rewrite, .rewriting entries =>
      match rewriteEntries crates rewrite entries with
      | .ok _ => some entries
      | .error _ => none
    | _, _ => none

/-- A rename lands on an archive with the entries that its call
opened. -/
def RenamesWhatItRead (crates : Crates) (s : State) : Action → Prop
  | .access i none =>
    match s.renaming crates i with
    | some entries => crates.zip.decode s.archive = some entries
    | none => True
  | _ => True

instance (s : State) (a : Action) : Decidable (RenamesWhatItRead crates s a) :=
  match a with
  | .access i none =>
    match h : s.renaming crates i with
    | some entries =>
      decidable_of_iff (crates.zip.decode s.archive = some entries)
        (by simp only [RenamesWhatItRead, h])
    | none => .isTrue (by simp only [RenamesWhatItRead, h])
  | .access _ (some _) | .start .. | .stage .. => .isTrue trivial

-- ==== the order

/-- The calls that returned `Ok`, in this order, take the entries from
`first` to those of the archive. -/
structure Serialized (crates : Crates) (first : List Entry) (s : State)
    (order : List (Nat × Rewrite)) (entries : List Entry) : Prop where
  nodup : (order.map Prod.fst).Nodup
  succeeded : ∀ i, i ∈ order.map Prod.fst ↔ s.succeeded i = true
  rewrites : ∀ step ∈ order, s.rewriteOf step.1 = some step.2
  archive : crates.zip.decode s.archive = some entries
  applied : applyAll crates first (order.map Prod.snd) = .ok entries

section Serialized

variable {order before after : List (Nat × Rewrite)} {step : Nat × Rewrite} {entry : Entry}

theorem Serialized.around (h : Serialized crates first s order entries)
    (horder : order = before ++ step :: after) :
    ∃ found left, rewriteEntries crates step.2 found = .ok left
      ∧ applyAll crates left (after.map Prod.snd) = .ok entries := by
  have happlied := h.applied
  rw [horder, map_append, map_cons, applyAll_append] at happlied
  obtain ⟨found, -, happlied⟩ := bind_eq_ok.mp happlied
  rw [applyAll_cons] at happlied
  obtain ⟨left, hleft, happlied⟩ := bind_eq_ok.mp happlied
  exact ⟨found, left, hleft, happlied⟩

theorem Serialized.kept (h : Serialized crates first s order entries)
    (horder : order = before ++ step :: after) (hadded : step.2.added = some entry) :
    entry ∈ entries ∨ ∃ later ∈ after, later.2.drops crates entry = true := by
  obtain ⟨found, left, hleft, hafter⟩ := h.around horder
  rcases mem_applyAll_or_drops hafter (added_mem hleft hadded) with
    hmem | ⟨later, hlater, hdrops⟩
  · exact .inl hmem
  · obtain ⟨step', hstep', rfl⟩ := mem_map.mp hlater
    exact .inr ⟨step', hstep', hdrops⟩

theorem Serialized.gone (h : Serialized crates first s order entries)
    (horder : order = before ++ step :: after) (hremoves : step.2.added = none)
    (hdrops : step.2.drops crates entry = true) (hentry : entry ∈ entries) :
    ∃ later ∈ after, later.2.added = some entry := by
  obtain ⟨found, left, hleft, hafter⟩ := h.around horder
  rcases mem_of_mem_applyAll hafter hentry with hmem | ⟨later, hlater, hadded⟩
  · rcases mem_of_replacement hleft hmem with ⟨-, hkept⟩ | hadded
    · simp [hdrops] at hkept
    · simp [hremoves] at hadded
  · obtain ⟨step', hstep', rfl⟩ := mem_map.mp hlater
    exact ⟨step', hstep', hadded⟩

theorem Serialized.frame (h : Serialized crates first s order entries)
    (harchive : s'.archive = s.archive) (hsucceeded : ∀ i, s'.succeeded i = s.succeeded i)
    (hrewrite : ∀ i, s.succeeded i = true → s'.rewriteOf i = s.rewriteOf i) :
    Serialized crates first s' order entries where
  nodup := h.nodup
  succeeded := fun i => by rw [hsucceeded]; exact h.succeeded i
  rewrites := by
    intro step hstep
    rw [hrewrite step.1 ((h.succeeded _).mp (mem_map_of_mem hstep))]
    exact h.rewrites step hstep
  archive := by rw [harchive]; exact h.archive
  applied := h.applied

end Serialized

-- ==== moving a call

section Move

variable {i : Nat} {call : Call} {position : Position} {order : List (Nat × Rewrite)}

theorem rewriteOf_move (hcall : s.calls[i]? = some call) (j : Nat) :
    (s.move i call position).rewriteOf j = s.rewriteOf j := by
  unfold rewriteOf move
  by_cases hij : i = j
  · subst hij
    rw [List.getElem?_set_self (List.getElem?_eq_some_iff.mp hcall).1, hcall]
  · rw [List.getElem?_set_ne hij]

theorem succeeded_move_self (hcall : s.calls[i]? = some call) :
    (s.move i call position).succeeded i = (position == .returned (.ok ())) := by
  unfold State.succeeded move
  rw [List.getElem?_set_self (List.getElem?_eq_some_iff.mp hcall).1]

theorem succeeded_move_of_ne {j : Nat} (hij : i ≠ j) :
    (s.move i call position).succeeded j = s.succeeded j := by
  unfold State.succeeded move
  rw [List.getElem?_set_ne hij]

theorem succeeded_eq_false (hcall : s.calls[i]? = some call)
    (hopen : call.position ≠ .returned (.ok ())) : s.succeeded i = false := by
  unfold State.succeeded
  rw [hcall]
  exact beq_eq_false_iff_ne.mpr hopen

theorem Serialized.move (h : Serialized crates first s order entries)
    (hcall : s.calls[i]? = some call) (hopen : call.position ≠ .returned (.ok ()))
    (hnot : position ≠ .returned (.ok ())) :
    Serialized crates first (s.move i call position) order entries := by
  refine h.frame rfl (fun j => ?_) fun j _ => rewriteOf_move hcall j
  by_cases hij : i = j
  · subst hij
    rw [succeeded_move_self hcall, succeeded_eq_false hcall hopen]
    exact beq_eq_false_iff_ne.mpr hnot
  · exact succeeded_move_of_ne hij

theorem Serialized.rename (h : Serialized crates first s order entries)
    (hcall : s.calls[i]? = some call) (hopen : call.position ≠ .returned (.ok ()))
    (hplan : call.plan = .ok rewrite)
    (hreplacement : rewriteEntries crates rewrite entries = .ok replacement) :
    Serialized crates first
      { s.move i call (.returned (.ok ())) with archive := crates.zip.encode replacement }
      (order ++ [(i, rewrite)]) replacement := by
  have hnew : i ∉ order.map Prod.fst := by
    rw [h.succeeded, succeeded_eq_false hcall hopen]
    exact Bool.false_ne_true
  constructor
  · rw [map_append]
    refine nodup_append.mpr ⟨h.nodup, nodup_singleton _, ?_⟩
    intro j hj k hk heq
    subst heq
    rw [mem_singleton.mp hk] at hj
    exact hnew hj
  · intro j
    show j ∈ (order ++ [(i, rewrite)]).map Prod.fst
      ↔ (s.move i call (.returned (.ok ()))).succeeded j = true
    rw [map_append, mem_append, h.succeeded]
    by_cases hij : i = j
    · subst hij
      rw [succeeded_move_self hcall]
      simp
    · rw [succeeded_move_of_ne hij]
      simp [Ne.symm hij]
  · intro step hstep
    show (s.move i call (.returned (.ok ()))).rewriteOf step.1 = some step.2
    rw [rewriteOf_move hcall]
    rcases mem_append.mp hstep with hold | hlast
    · exact h.rewrites step hold
    · rw [mem_singleton.mp hlast]
      simp only [rewriteOf, hcall, hplan]
      rfl
  · exact crates.zip.decode_encode replacement
  · rw [map_append, applyAll_append, h.applied]
    show applyAll crates entries [rewrite] = .ok replacement
    rw [applyAll_cons, hreplacement]
    rfl

theorem Serialized.advance (h : Serialized crates first s order entries)
    (hcall : s.calls[i]? = some call) (hopen : call.position ≠ .returned (.ok ()))
    (hplan : call.plan = .ok rewrite) (hok : RenamesWhatItRead crates s (.access i none))
    (hs : advance crates s i call rewrite = some s') :
    ∃ order entries, Serialized crates first s' order entries := by
  unfold Updates.advance at hs
  split at hs
  case h_1 | h_2 =>
    split at hs
    case h_1 => cases hs; exact ⟨_, _, h.move hcall hopen nofun⟩
    case h_2 => cases hs; exact ⟨_, _, h.move hcall hopen nofun⟩
  case h_3 opened hposition =>
    split at hs
    case h_1 => cases hs; exact ⟨_, _, h.move hcall hopen nofun⟩
    case h_2 replacement hreplacement =>
      have hopened : crates.zip.decode s.archive = some opened := by
        simpa only [RenamesWhatItRead, State.renaming, hcall, hplan, hposition,
          hreplacement] using hok
      rw [h.archive] at hopened
      cases hopened
      cases hs
      exact ⟨_, _, h.rename hcall hopen hplan hreplacement⟩
  case h_4 => cases hs

end Move

-- ==== the runs

variable {order : List (Nat × Rewrite)}

theorem Serialized.append (h : Serialized crates first s order entries)
    (hnot : call.position ≠ .returned (.ok ())) (staged : StagedWrites) :
    Serialized crates first { s with staged := staged, calls := s.calls ++ [call] }
      order entries := by
  refine h.frame rfl (fun i => ?_) fun i hi => ?_
  · unfold State.succeeded
    by_cases hlt : i < s.calls.length
    · rw [List.getElem?_append_left hlt]
    · have hge := not_lt.mp hlt
      rw [List.getElem?_append_right hge, List.getElem?_eq_none hge]
      cases hlast : [call][i - s.calls.length]? with
      | none => rfl
      | some call' =>
        rw [mem_singleton.mp (mem_of_getElem? hlast)]
        exact beq_eq_false_iff_ne.mpr hnot
  · unfold rewriteOf
    unfold State.succeeded at hi
    split at hi
    case h_1 call' hcall' =>
      rw [List.getElem?_append_left (List.getElem?_eq_some_iff.mp hcall').1, hcall']
    case h_2 => cases hi

theorem Serialized.begin (h : Serialized crates first s order entries) (request : Request)
    (cancelled : Bool) : Serialized crates first (begin s request cancelled) order entries := by
  unfold Updates.begin
  split
  case isTrue =>
    refine h.append ?_ s.staged
    exact nofun
  case isFalse =>
    refine h.append ?_ (request.unstage s.staged)
    dsimp only
    split <;> exact nofun

theorem serialized_step (hok : RenamesWhatItRead crates s a) (hs : apply crates outer a s = some s')
    (h : ∃ order entries, Serialized crates first s order entries) :
    ∃ order entries, Serialized crates first s' order entries := by
  obtain ⟨order, entries, h⟩ := h
  cases a with
  | stage temporary content =>
    cases hs
    exact ⟨order, entries, h.frame rfl (fun _ => rfl) fun _ _ => rfl⟩
  | start request cancelled =>
    unfold apply at hs
    dsimp only at hs
    split at hs
    case isTrue => cases hs; exact ⟨order, entries, h.begin request cancelled⟩
    case isFalse => cases hs
  | access i fault =>
    unfold apply at hs
    dsimp only at hs
    cases hcall : s.calls[i]? with
    | none => rw [hcall] at hs; cases hs
    | some call =>
      rw [hcall] at hs
      dsimp only at hs
      split at hs
      case h_1 | h_2 => cases hs
      case h_3 hreturned =>
        cases hs
        exact ⟨order, entries, h.move hcall (hreturned _) nofun⟩
      case h_4 hplan hreturned =>
        exact h.advance hcall (hreturned _) hplan hok hs

/-- Concurrent changes of an archive whose renames land on the entries
they opened come to what the successful calls do in some order. -/
theorem updates_serialize {outer : String} {archive : Bytes} {acts : List Action}
    (hfirst : crates.zip.decode archive = some first)
    (hrun : Run (apply crates outer) (RenamesWhatItRead crates) (initial archive) acts s) :
    ∃ order entries, Serialized crates first s order entries
      ∧ (∀ before step after entry, order = before ++ step :: after →
          step.2.added = some entry →
          entry ∈ entries ∨ ∃ later ∈ after, later.2.drops crates entry = true)
      ∧ (∀ before step after entry, order = before ++ step :: after →
          step.2.added = none → step.2.drops crates entry = true → entry ∈ entries →
          ∃ later ∈ after, later.2.added = some entry) := by
  have hinitial : Serialized crates first (initial archive) [] first :=
    ⟨List.nodup_nil, fun _ => ⟨nofun, nofun⟩, nofun, hfirst, rfl⟩
  obtain ⟨order, entries, h⟩ :=
    Run.invariant ⟨[], first, hinitial⟩ (fun _ hok hs h => serialized_step hok hs h) hrun
  refine ⟨order, entries, h, ?_, ?_⟩
  · intro before step after entry horder hadded
    exact h.kept horder hadded
  · intro before step after entry horder hremoves hdrops hentry
    exact h.gone horder hremoves hdrops hentry

-- ==== the samples

section Sample

variable {α : Type} {write : α → Bytes} {read : Bytes → Option (α × Bytes)}

/-- A number in unary. -/
def writeNat (n : Nat) : Bytes := List.replicate n 1 ++ [0]

def readNat : Bytes → Option (Nat × Bytes)
  | [] => none
  | b :: rest => if b = 0 then some (0, rest) else (readNat rest).map fun r => (r.1 + 1, r.2)

theorem readNat_writeNat (n : Nat) (rest : Bytes) :
    readNat (writeNat n ++ rest) = some (n, rest) := by
  induction n with
  | zero => rfl
  | succ n ih =>
    show (readNat (writeNat n ++ rest)).map (fun r => (r.1 + 1, r.2)) = some (n + 1, rest)
    rw [ih]
    rfl

/-- A list with a mark before each item. -/
def writeList (write : α → Bytes) : List α → Bytes
  | [] => [0]
  | a :: rest => 1 :: (write a ++ writeList write rest)

def readList (read : Bytes → Option (α × Bytes)) : Nat → Bytes → Option (List α × Bytes)
  | 0, _ => none
  | _ + 1, [] => none
  | fuel + 1, b :: bytes =>
    if b = 0 then some ([], bytes)
    else do
      let (a, bytes) ← read bytes
      let (rest, bytes) ← readList read fuel bytes
      return (a :: rest, bytes)

theorem length_lt_writeList (l : List α) : l.length < (writeList write l).length := by
  induction l with
  | nil => exact Nat.zero_lt_one
  | cons a rest ih =>
    simp only [writeList, length_cons, length_append]
    omega

theorem readList_writeList (h : ∀ a rest, read (write a ++ rest) = some (a, rest))
    (l : List α) (rest : Bytes) {fuel : Nat} (hfuel : l.length < fuel) :
    readList read fuel (writeList write l ++ rest) = some (l, rest) := by
  induction l generalizing fuel with
  | nil =>
    obtain ⟨fuel, rfl⟩ := exists_eq_succ_of_ne_zero (Nat.ne_zero_of_lt hfuel)
    rfl
  | cons a items ih =>
    obtain ⟨fuel, rfl⟩ := exists_eq_succ_of_ne_zero (Nat.ne_zero_of_lt hfuel)
    have hitems := @ih fuel (by rw [length_cons] at hfuel; omega)
    show (do
      let (a, bytes) ← read (write a ++ writeList write items ++ rest)
      let (tail, bytes) ← readList read fuel bytes
      return (a :: tail, bytes)) = some (a :: items, rest)
    rw [append_assoc, h]
    show (do
      let (tail, bytes) ← readList read fuel (writeList write items ++ rest)
      return (a :: tail, bytes)) = some (a :: items, rest)
    rw [hitems]
    rfl

/-- Read a list to its end. -/
def readItems (read : Bytes → Option (α × Bytes)) (bytes : Bytes) : Option (List α × Bytes) :=
  readList read bytes.length bytes

theorem readItems_writeList (h : ∀ a rest, read (write a ++ rest) = some (a, rest)) (l : List α)
    (rest : Bytes) : readItems read (writeList write l ++ rest) = some (l, rest) := by
  refine readList_writeList h l rest ?_
  rw [length_append]
  exact Nat.lt_add_right _ (length_lt_writeList l)

end Sample

/-- The name of an entry and, of a file, its content. -/
def partsOf (entry : Entry) : List (List Nat) :=
  entry.name.toList.map Char.toNat :: (entry.content.map fun bytes => bytes.map UInt8.toNat).toList

def ofParts (parts : List (List Nat)) : Entry where
  name := String.ofList ((parts.headD []).map Char.ofNat)
  content := parts.tail.head?.map fun bytes => bytes.map UInt8.ofNat

theorem ofParts_partsOf (entry : Entry) : ofParts (partsOf entry) = entry := by
  obtain ⟨name, content⟩ := entry
  unfold ofParts partsOf
  congr 1
  · simp [Function.comp_def]
  · cases content <;> simp [Function.comp_def]

/-- A codec with the mark of ZIP that writes numbers in unary. -/
def plainZip : Codec where
  encode entries := zipMagic ++ writeList (writeList (writeList writeNat)) (entries.map partsOf)
  decode archive :=
    if zipMagic.isPrefixOf archive then
      (readItems (readItems (readItems readNat)) (archive.drop 2)).map
        fun read => read.1.map ofParts
    else none
  duplicate := some fun name => "Duplicate filename: " ++ name
  decode_encode entries := by
    have hread := readItems_writeList (readItems_writeList (readItems_writeList readNat_writeNat))
      (entries.map partsOf) []
    rw [append_nil] at hread
    rw [if_pos (List.isPrefixOf_iff_prefix.mpr (prefix_append _ _))]
    show (readItems (readItems (readItems readNat))
        (writeList (writeList (writeList writeNat)) (entries.map partsOf))).map _ = _
    rw [hread, Option.map_some, map_map]
    congr 1
    exact (map_congr_left fun entry _ => ofParts_partsOf entry).trans (map_id _)

def plainCrates : Crates where
  zip := plainZip
  unreadable _ := "Could not find EOCD"
  enclosedName name := if isNormal name then some name else none
  isDir name := name.toList.getLast? == some '/' || name.toList.getLast? == some '\\'
  gunzip _ := .error "invalid gzip header"
  readsRar _ := false

/-- A place inside the sample archive. -/
def inside (segments : List String) : Location where
  providerId := "archive"
  uri := { authority := "/a.zip", segments := segments }

/-- An archive with the one file `old`. -/
def sampleArchive : Bytes := plainZip.encode [{ name := "old", content := some [1] }]

/-- A directory, a file in it and the removal of `old`, begun together
beside a call that is cancelled; each opens what the last one renamed. -/
def sampleRun : List Action :=
  [.stage (inside ["t"]) [2], .start (.createDirectory (inside []) "d") false,
    .start (.commitCopy (inside ["t"]) (inside ["d", "n"]) false) false,
    .start (.remove (inside ["old"]) false false) false,
    .start (.createDirectory (inside []) "e") false,
    .access 0 none, .access 1 none, .access 3 none, .access 0 none, .access 3 none,
    .access 2 none, .access 0 none, .access 1 none, .access 3 (some .cancelled),
    .access 1 none, .access 2 none, .access 2 none]

theorem updates_serialize_three_calls :
    ∃ s, Run (apply plainCrates "/a.zip") (RenamesWhatItRead plainCrates)
        (initial sampleArchive) sampleRun s
      ∧ (s.succeeded 0 = true ∧ s.succeeded 1 = true ∧ s.succeeded 2 = true ∧ s.succeeded 3 = false)
      ∧ ∃ order, Serialized plainCrates [{ name := "old", content := some [1] }] s order
          [{ name := "d/", content := none }, { name := "d/n", content := some [2] }] := by
  obtain ⟨s, hrun, hsucceeded, hdecode⟩ :
      ∃ s, Run (apply plainCrates "/a.zip") (RenamesWhatItRead plainCrates)
          (initial sampleArchive) sampleRun s
        ∧ (s.succeeded 0 = true ∧ s.succeeded 1 = true ∧ s.succeeded 2 = true
          ∧ s.succeeded 3 = false)
        ∧ plainZip.decode s.archive
          = some [{ name := "d/", content := none }, { name := "d/n", content := some [2] }] :=
    Run.exists_of_guardedRun (by decide +kernel)
  obtain ⟨order, entries, h, -⟩ := updates_serialize (plainZip.decode_encode _) hrun
  have hentries := h.archive
  rw [show plainCrates.zip = plainZip from rfl, hdecode] at hentries
  cases hentries
  exact ⟨s, hrun, hsucceeded, order, h⟩

/-- Two directories made in an empty archive, both opened before either
is renamed. -/
def lostRun : List Action :=
  [.start (.createDirectory (inside []) "a") false,
    .start (.createDirectory (inside []) "b") false,
    .access 0 none, .access 1 none, .access 0 none, .access 1 none,
    .access 0 none, .access 1 none]

theorem addDirectory_drops (inner : String) (entry : Entry) :
    (addDirectory inner).drops crates entry = false := by
  unfold drops
  cases safeEntryPath crates entry.name with
  | error error => rfl
  | ok name =>
    dsimp only [skip]
    by_cases hexact : isExact inner name = true
    · rw [if_pos hexact]
    · rw [if_neg hexact]

theorem rewriteOf_eq_bind (i : Nat) :
    s.rewriteOf i = (s.calls.map Call.plan)[i]?.bind Except.toOption := by
  unfold rewriteOf
  rw [List.getElem?_map]
  cases s.calls[i]? <;> rfl

/-- Both calls return `Ok`, and the first directory is gone: no order of
the two calls explains the archive. -/
theorem overlapping_update_is_lost :
    ∃ s, Run (apply plainCrates "/a.zip") Free (initial (plainZip.encode [])) lostRun s
      ∧ s.succeeded 0 = true ∧ s.succeeded 1 = true
      ∧ plainZip.decode s.archive = some [{ name := "b/", content := none }]
      ∧ ¬ ∃ order entries, Serialized plainCrates [] s order entries := by
  obtain ⟨s, hrun, hfirst, hsecond, hdecode, hplans⟩ :
      ∃ s, Run (apply plainCrates "/a.zip") Free (initial (plainZip.encode [])) lostRun s
        ∧ s.succeeded 0 = true ∧ s.succeeded 1 = true
        ∧ plainZip.decode s.archive = some [{ name := "b/", content := none }]
        ∧ s.calls.map Call.plan
          = [.ok (.addDirectory "a/"), .ok (.addDirectory "b/")] :=
    Run.exists_of_run (by decide +kernel)
  refine ⟨s, hrun, hfirst, hsecond, hdecode, ?_⟩
  intro hfound
  obtain ⟨order, entries, h⟩ := hfound
  have hentries := h.archive
  rw [show plainCrates.zip = plainZip from rfl, hdecode] at hentries
  injection hentries with hentries
  have hadds : ∀ step ∈ order, step.2 = .addDirectory "a/" ∨ step.2 = .addDirectory "b/" := by
    intro step hstep
    have hrewrite := h.rewrites step hstep
    rw [rewriteOf_eq_bind, hplans] at hrewrite
    match hi : step.1 with
    | 0 => rw [hi] at hrewrite; exact .inl (Option.some.inj hrewrite).symm
    | 1 => rw [hi] at hrewrite; exact .inr (Option.some.inj hrewrite).symm
    | i + 2 => rw [hi] at hrewrite; cases hrewrite
  obtain ⟨step, hstep, hcall⟩ := List.mem_map.mp ((h.succeeded 0).mpr hfirst)
  have hrewrite := h.rewrites step hstep
  rw [hcall, rewriteOf_eq_bind, hplans] at hrewrite
  obtain ⟨before, after, horder⟩ := List.append_of_mem hstep
  have hadded : step.2.added = some { name := "a/", content := none } := by
    rw [← Option.some.inj hrewrite]
    rfl
  rcases h.kept horder hadded with hmem | ⟨later, hlater, hdrops⟩
  · rw [← hentries] at hmem
    exact absurd hmem (by decide)
  · have hlater : later ∈ order := by
      rw [horder]
      exact List.mem_append_right _ (List.mem_cons_of_mem _ hlater)
    rcases hadds later hlater with hadd | hadd
    · rw [hadd, addDirectory_drops] at hdrops
      cases hdrops
    · rw [hadd, addDirectory_drops] at hdrops
      cases hdrops

-- ==== overlapping changes

/-- The entries are what some of the calls that succeeded, each taken
once, make of the first ones, one after the other. -/
def Explained (crates : Crates) (first : List Entry) (s : State) (entries : List Entry) : Prop :=
  ∃ order : List (Nat × Rewrite), (order.map Prod.fst).Nodup
    ∧ (∀ step ∈ order, s.succeeded step.1 = true ∧ s.rewriteOf step.1 = some step.2)
    ∧ applyAll crates first (order.map Prod.snd) = .ok entries

/-- The archive can be read; what it has is explained, and what the
calls have opened. -/
structure Chained (crates : Crates) (first : List Entry) (s : State) : Prop where
  archive : ∃ entries, crates.zip.decode s.archive = some entries ∧ Explained crates first s entries
  opened : ∀ call ∈ s.calls, ∀ entries, call.position = .rewriting entries →
    Explained crates first s entries

/-- A success stays one, of the same call. -/
def Keeps (s s' : State) : Prop :=
  ∀ i, s.succeeded i = true → s'.succeeded i = true ∧ s'.rewriteOf i = s.rewriteOf i

theorem Explained.mono (h : Explained crates first s entries) (hkeeps : Keeps s s') :
    Explained crates first s' entries := by
  obtain ⟨order, hnodup, hsteps, happlied⟩ := h
  refine ⟨order, hnodup, fun step hstep => ?_, happlied⟩
  obtain ⟨hsucceeded, hrewrite⟩ := hsteps step hstep
  rw [← hrewrite]
  exact hkeeps step.1 hsucceeded

theorem keeps_move (hcall : s.calls[i]? = some call) (hopen : call.position ≠ .returned (.ok ())) :
    Keeps s (s.move i call position) := by
  intro j hj
  refine ⟨?_, rewriteOf_move hcall j⟩
  rw [succeeded_move_of_ne, hj]
  rintro rfl
  exact absurd hj (by simp [succeeded_eq_false hcall hopen])

theorem Chained.mono (h : Chained crates first s) (hkeeps : Keeps s s')
    (harchive : s'.archive = s.archive) (hopened : ∀ call ∈ s'.calls, ∀ entries,
      call.position = .rewriting entries → call ∈ s.calls ∨ Explained crates first s entries) :
    Chained crates first s' := by
  obtain ⟨entries, hentries, hexplained⟩ := h.archive
  refine ⟨⟨entries, harchive ▸ hentries, hexplained.mono hkeeps⟩, ?_⟩
  intro call hcall entries hposition
  rcases hopened call hcall entries hposition with hold | hnew
  · exact (h.opened call hold entries hposition).mono hkeeps
  · exact hnew.mono hkeeps

theorem Chained.move (h : Chained crates first s) (hcall : s.calls[i]? = some call)
    (hopen : call.position ≠ .returned (.ok ()))
    (hnew : ∀ entries, position = .rewriting entries → Explained crates first s entries) :
    Chained crates first (s.move i call position) := by
  refine h.mono (keeps_move hcall hopen) rfl fun other hother entries hposition => ?_
  rcases mem_or_eq_of_mem_set hother with hother | rfl
  · exact .inl hother
  · exact .inr (hnew entries hposition)

theorem Chained.append (h : Chained crates first s) (staged : StagedWrites)
    (hnew : ∀ entries, call.position ≠ .rewriting entries) :
    Chained crates first { s with staged := staged, calls := s.calls ++ [call] } := by
  refine h.mono (fun j hj => ?_) rfl fun other hother entries hposition => ?_
  · have hlt : j < s.calls.length := by
      by_contra hge
      simp [State.succeeded, getElem?_eq_none (not_lt.mp hge)] at hj
    simp only [State.succeeded, State.rewriteOf, getElem?_append_left hlt] at hj ⊢
    exact ⟨hj, trivial⟩
  · rcases mem_append.mp hother with hother | hother
    · exact .inl hother
    · rw [mem_singleton.mp hother] at hposition
      exact absurd hposition (hnew entries)

/-- A rename puts its call behind those that explain what it opened. -/
theorem Chained.rename (h : Chained crates first s) (hcall : s.calls[i]? = some call)
    (hposition : call.position = .rewriting entries) (hplan : call.plan = .ok rewrite)
    (hreplacement : rewriteEntries crates rewrite entries = .ok replacement) :
    Chained crates first
      { s.move i call (.returned (.ok ())) with archive := crates.zip.encode replacement } := by
  have hopen : call.position ≠ .returned (.ok ()) := by rw [hposition]; exact nofun
  have hmoved : Chained crates first (s.move i call (.returned (.ok ()))) :=
    h.move hcall hopen nofun
  refine ⟨⟨replacement, crates.zip.decode_encode _, ?_⟩, hmoved.opened⟩
  have hopened := h.opened call (mem_of_getElem? hcall) entries hposition
  obtain ⟨order, hnodup, hsteps, happlied⟩ := hopened
  have hnew : i ∉ order.map Prod.fst := by
    intro hmem
    obtain ⟨step, hstep, rfl⟩ := mem_map.mp hmem
    exact absurd (hsteps step hstep).1 (by simp [succeeded_eq_false hcall hopen])
  refine ⟨order ++ [(i, rewrite)], ?_, fun step hstep => ?_, ?_⟩
  · rw [map_append]
    exact concat_eq_append ▸ hnodup.concat hnew
  · rcases mem_append.mp hstep with hold | hlast
    · rw [← (hsteps step hold).2]
      exact keeps_move hcall hopen step.1 (hsteps step hold).1
    · obtain rfl := mem_singleton.mp hlast
      refine ⟨(succeeded_move_self hcall).trans (by simp), ?_⟩
      exact (rewriteOf_move hcall i).trans (by simp only [State.rewriteOf, hcall, hplan]; rfl)
  · rw [map_append, applyAll_append, happlied]
    exact (applyAll_cons []).trans (by rw [hreplacement]; rfl)

theorem Chained.step (h : Chained crates first s)
    (hs : apply crates outer a s = some s') : Chained crates first s' := by
  cases a with
  | stage temporary content =>
    obtain rfl := Option.some.inj hs
    exact ⟨h.archive, h.opened⟩
  | start request cancelled =>
    simp only [apply, Option.ite_none_right_eq_some] at hs
    obtain rfl := Option.some.inj hs.2
    unfold begin
    split
    case isTrue => exact h.append _ nofun
    case isFalse =>
      refine h.append _ ?_
      dsimp only
      split <;> exact nofun
  | access i fault =>
    simp only [apply] at hs
    split at hs
    case h_1 => cases hs
    case h_2 call hcall =>
      split at hs
      case h_1 | h_2 => cases hs
      case h_3 hreturned =>
        obtain rfl := Option.some.inj hs
        exact h.move hcall (hreturned _) nofun
      case h_4 hplan hreturned =>
        unfold advance at hs
        split at hs
        case h_1 =>
          split at hs
          all_goals
            obtain rfl := Option.some.inj hs
            exact h.move hcall (hreturned _) nofun
        case h_2 =>
          split at hs
          case h_1 =>
            obtain rfl := Option.some.inj hs
            exact h.move hcall (hreturned _) nofun
          case h_2 opened hopened =>
            obtain rfl := Option.some.inj hs
            refine h.move hcall (hreturned _) fun entries heq => ?_
            obtain rfl := Position.rewriting.inj heq
            obtain ⟨entries, harchive, hexplained⟩ := h.archive
            simp only [openZip, harchive] at hopened
            exact Except.ok.inj hopened ▸ hexplained
        case h_3 hposition =>
          split at hs
          case h_1 =>
            obtain rfl := Option.some.inj hs
            exact h.move hcall (hreturned _) nofun
          case h_2 hreplacement =>
            obtain rfl := Option.some.inj hs
            exact h.rename hcall hposition hplan hreplacement
        case h_4 => cases hs

/-- However changes of an archive overlap and fail, it can be read, and
it is what some of the calls that succeeded make of the first one: all
that an overlap can do is lose a call. -/
theorem overlapping_changes_explained {outer : String} {archive : Bytes} {acts : List Action}
    (hfirst : crates.zip.decode archive = some first)
    (hrun : Run (apply crates outer) Free (initial archive) acts s) :
    ∃ entries, crates.zip.decode s.archive = some entries ∧ Explained crates first s entries := by
  have hinitial : Chained crates first (initial archive) :=
    ⟨⟨first, hfirst, [], nodup_nil, nofun, rfl⟩, fun _ h => absurd h not_mem_nil⟩
  exact (hrun.invariant hinitial fun _ _ hs h => h.step hs).archive

/-- Of two directories made at once the second is there. -/
theorem second_directory_explained :
    ∃ s, Run (apply plainCrates "/a.zip") Free (initial (plainZip.encode [])) lostRun s
      ∧ s.succeeded 0 = true ∧ s.succeeded 1 = true
      ∧ Explained plainCrates [] s [{ name := "b/", content := none }] := by
  obtain ⟨s, hrun, hfirst, hsecond, hdecode⟩ :
      ∃ s, Run (apply plainCrates "/a.zip") Free (initial (plainZip.encode [])) lostRun s
        ∧ s.succeeded 0 = true ∧ s.succeeded 1 = true
        ∧ plainZip.decode s.archive = some [{ name := "b/", content := none }] :=
    Run.exists_of_run (by decide +kernel)
  obtain ⟨entries, hentries, h⟩ := overlapping_changes_explained (plainZip.decode_encode []) hrun
  obtain rfl := Option.some.inj (hdecode.symm.trans hentries)
  exact ⟨s, hrun, hfirst, hsecond, h⟩

end FileManager.Archives.Updates
