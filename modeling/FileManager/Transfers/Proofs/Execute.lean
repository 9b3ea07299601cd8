/-
What one `execute` call of a copy can do to the files and to the
executor's cells.

# The argument

All but one of the writes of a call only add: a provider call either
puts an entry where none was, or commits the staged contents over a
file, and says so in the log. `Grows` is what every sequence of such
writes does, and the rule `Keeps` carries it through the call. The
exception is the removal of a link that is to be overwritten, which
comes first (`Clears`). An entry planned as a file that completes has
its bytes in the log, because what is staged is what was read.
-/
import FileManager.Transfers.Move
import FileManager.Transfers.Proofs.Names

namespace FileManager.Transfers

open Fallible Keyed
open Scheduler (ExecutionError ExecutionOutcome PlanItem)

variable {temporary destination : Location} {overwrite : Bool} {α : Type} {p : Exec α}

-- ==== growing of disks

def Transfer.isCommitted : Transfer → Bool
  | .committed .. => true
  | .removed .. => false

/-- The disk after calls that only add: the contents of a file are
those of before, or have been committed. -/
structure Disk.Grows (d d' : Disk) : Prop where
  log : ∃ new, d'.log = d.log ++ new ∧ ∀ t ∈ new, t.isCommitted = true
  contents : ∀ l content, get d'.files l = some (.file content) →
    get d.files l = some (.file content) ∨ ∃ destination, .committed destination content ∈ d'.log
  present : ∀ l, get d.files l ≠ none → get d'.files l ≠ none

theorem Disk.Grows.refl (d : Disk) : Disk.Grows d d :=
  ⟨⟨[], (List.append_nil _).symm, by simp⟩, fun _ _ h => .inl h, fun _ h => h⟩

variable {d d' : Disk}

theorem Disk.Grows.mem_log (h : Disk.Grows d d') {t : Transfer} (ht : t ∈ d.log) : t ∈ d'.log := by
  obtain ⟨new, hnew, -⟩ := h.log
  rw [hnew]
  exact List.mem_append_left _ ht

theorem Disk.Grows.trans (d₁ d₂ d₃ : Disk) (h : Disk.Grows d₁ d₂)
    (h' : Disk.Grows d₂ d₃) : Disk.Grows d₁ d₃ := by
  refine ⟨?_, ?_, fun l hl => h'.present l (h.present l hl)⟩
  · obtain ⟨new, hnew, hcommitted⟩ := h.log
    obtain ⟨new', hnew', hcommitted'⟩ := h'.log
    refine ⟨new ++ new', by rw [hnew', hnew, List.append_assoc], ?_⟩
    intro t ht
    rcases List.mem_append.mp ht with ht | ht
    · exact hcommitted t ht
    · exact hcommitted' t ht
  · intro l content hl
    rcases h'.contents l content hl with hl | hl
    · rcases h.contents l content hl with hl | ⟨destination, hl⟩
      · exact .inl hl
      · exact .inr ⟨destination, h'.mem_log hl⟩
    · exact .inr hl

theorem grows_createEntry {location : Location} {node : Node}
    (hnode : ∀ content, node ≠ .file content)
    (h : createEntry location node d = .ok d') : d.Grows d' := by
  unfold createEntry at h
  split at h
  case h_1 => cases h
  case h_2 => cases h
  case h_3 =>
    cases h
    refine ⟨⟨[], (List.append_nil _).symm, by simp⟩, ?_, ?_⟩
    · intro l content hl
      rw [get_put] at hl
      split at hl
      case isTrue => injection hl with hl; exact absurd hl (hnode content)
      case isFalse => exact .inl hl
    · intro l hl
      rw [get_put]
      split
      case isTrue => exact Option.some_ne_none _
      case isFalse => exact hl

theorem grows_copySymlink {source : Location}
    (h : copySymlink source destination d = .ok d') : d.Grows d' := by
  unfold copySymlink at h
  split at h
  case h_1 => exact grows_createEntry (by intro content hc; cases hc) h
  case h_2 => cases h
  case h_3 => cases h

theorem grows_of_same (hfiles : d'.files = d.files) (hlog : d'.log = d.log) : d.Grows d' := by
  refine ⟨⟨[], by rw [hlog, List.append_nil], by simp⟩, ?_, ?_⟩
  · rw [hfiles]
    exact fun _ _ h => .inl h
  · rw [hfiles]
    exact fun _ h => h

theorem commitCopy_eq_ok (h : commitCopy temporary destination overwrite d = .ok d') :
    ∃ content, get d.staged temporary = some content
      ∧ d' = { files := put d.files destination (.file content)
               staged := keep d.staged (· ≠ temporary)
               log := d.log ++ [.committed destination content] } := by
  unfold commitCopy at h
  split at h
  case h_5 hstaged _ _ _ => injection h with h; exact ⟨_, hstaged, h.symm⟩
  all_goals cases h

theorem commitCopy_free (h : commitCopy temporary destination false d = .ok d') :
    get d.files destination = none := by
  unfold commitCopy at h
  split at h
  case h_5 _ hnone =>
    cases hget : get d.files destination with
    | none => rfl
    | some node => exact (hnone node hget rfl).elim
  all_goals cases h

theorem grows_commitCopy (h : commitCopy temporary destination overwrite d = .ok d') : d.Grows d' := by
  obtain ⟨content, -, rfl⟩ := commitCopy_eq_ok h
  refine ⟨⟨[.committed destination content], rfl, by simp [Transfer.isCommitted]⟩, ?_, ?_⟩
  · intro l content' hl
    rw [get_put] at hl
    split at hl
    case isTrue =>
      injection hl with hl
      cases hl
      exact .inr ⟨destination, by simp⟩
    case isFalse => exact .inl hl
  · intro l hl
    rw [get_put]
    split
    case isTrue => exact Option.some_ne_none _
    case isFalse => exact hl

-- ==== growing of worlds

/-- A planned entry without its destination, which alone is rewritten. -/
def PlannedCopyEntry.subject (planned : PlannedCopyEntry) : EntryKind × EntryRef × Bool :=
  (planned.kind, planned.source, planned.isRoot)

open PlannedCopyEntry

/-- The world after calls that only add: the plan is about the same
entries, and the root has not been recorded as complete. -/
structure Grows (w w' : World) : Prop where
  disk : w.disk.Grows w'.disk
  planned : ∀ l, (get w'.cells.planned l).map subject
    = (get w.cells.planned l).map subject
  completed : w'.cells.completedRootDestination = w.cells.completedRootDestination
  fallback : w'.fallback = w.fallback

open Grows

theorem Grows.refl (w : World) : Grows w w := ⟨.refl _, fun _ => rfl, rfl, rfl⟩

theorem Grows.trans (w₁ w₂ w₃ : World) (h : Grows w₁ w₂) (h' : Grows w₂ w₃) : Grows w₁ w₃ :=
  ⟨Disk.Grows.trans _ _ _ h.disk h'.disk,
    fun l => (h'.planned l).trans (h.planned l), h'.completed.trans h.completed,
    h'.fallback.trans h.fallback⟩

theorem Grows.of_disk {w : World} {d : Disk} (h : w.disk.Grows d) :
    Grows w { w with disk := d } :=
  ⟨h, fun _ => rfl, rfl, rfl⟩

/-- The errors a strict copy raises. -/
def NotWarning : ExecutionError → Prop
  | .warning _ _ => False
  | _ => True

/-- A call that only adds and raises no warning. -/
abbrev Adds {α : Type} (p : Exec α) : Prop := Keeps Grows NotWarning p

/-- A call that only reads, and raises no warning. -/
abbrev Reads {α : Type} (p : Exec α) : Prop := Keeps Eq NotWarning p

theorem Reads.adds (h : Reads p) : Adds p := by
  intro w r w' hy
  obtain ⟨rfl, herror⟩ := h w r w' hy
  exact ⟨refl _, herror⟩

theorem Reads.bind {β : Type} {f : α → Exec β} (hp : Reads p) (hf : ∀ a, Reads (f a)) :
    Reads (p >>= f) :=
  Keeps.bind (fun _ _ _ => Eq.trans) hp hf

theorem reads_pure {a : α} : Reads (pure a : Exec α) := Keeps.pure fun _ => rfl

theorem reads_throw {e : ExecutionError} (he : NotWarning e) : Reads (throw e : Exec α) :=
  Keeps.throw (fun _ => rfl) he

section Calls

variable {env : Env} {call : Call} {w w' : World} {effect : Disk → Except VfsError Disk}
  {α ε : Type} {message : ε → String} {destination : Location} {result : Except ε α}

theorem reads_consult {answer : Files → Except VfsError α} : Reads (consult env call answer) := by
  refine Keeps.reads (fun _ => rfl) ?_
  intro w e he
  cases hask : env.ask call (answer w.disk.files) with
  | ok a => rw [hask] at he; cases he
  | error error =>
    rw [hask] at he
    cases he
    exact trivial

theorem yields_consult_ok {answer : Files → Except VfsError α} {a : α}
    (h : Yields (consult env call answer) w (.ok a) w') : answer w.disk.files = .ok a ∧ w' = w := by
  obtain ⟨hask, rfl⟩ := yields_reads.mp h
  refine ⟨?_, rfl⟩
  unfold Env.ask at hask
  split at hask
  case h_1 => cases hask
  case h_2 =>
    cases hanswer : answer w'.disk.files with
    | ok b => rw [hanswer] at hask; injection hask with hask; rw [hask]
    | error error => rw [hanswer] at hask; cases hask

theorem yields_attempt {r : Except ExecutionError (Except VfsError Unit)}
    (h : Yields (attempt env call effect) w r w') :
    (r = .ok (.ok ()) ∧ ∃ d, effect w.disk = .ok d ∧ w' = { w with disk := d })
    ∨ ∃ error, r = .ok (.error error)
        ∧ (w' = w ∨ ∃ d, effect w.disk = .ok d ∧ w' = { w with disk := d }) := by
  have hrun : (attempt env call effect) w = some (r, w') := h
  unfold attempt at hrun
  split at hrun <;> injection hrun with hrun <;> injection hrun with hr hw
  case h_1 d heq hfault => exact .inl ⟨hr.symm, d, heq, hw.symm⟩
  case h_2 d fault heq hfault =>
    refine .inr ⟨fault.error, hr.symm, ?_⟩
    by_cases happlied : fault.applied = true
    · rw [if_pos happlied] at hw
      exact .inr ⟨d, heq, hw.symm⟩
    · rw [if_neg happlied] at hw
      exact .inl hw.symm
  case h_3 error heq hfault => exact .inr ⟨error, hr.symm, .inl hw.symm⟩
  case h_4 error fault heq hfault => exact .inr ⟨fault.error, hr.symm, .inl hw.symm⟩

theorem adds_attempt (heffect : ∀ d d', effect d = .ok d' → d.Grows d') :
    Adds (attempt env call effect) := by
  intro w r w' h
  rcases yields_attempt h with ⟨rfl, d, hd, rfl⟩ | ⟨error, rfl, hw⟩
  · exact ⟨.of_disk (heffect _ _ hd), by intro e he; cases he⟩
  · refine ⟨?_, by intro e he; cases he⟩
    rcases hw with rfl | ⟨d, hd, rfl⟩
    · exact refl _
    · exact .of_disk (heffect _ _ hd)

theorem adds_perform (heffect : ∀ d d', effect d = .ok d' → d.Grows d') :
    Adds (perform env call effect) := by
  refine Keeps.bind trans (adds_attempt heffect) ?_
  intro result
  cases result with
  | ok _ => exact Keeps.pure refl
  | error error => exact Keeps.throw refl trivial

theorem yields_perform {r : Except ExecutionError PUnit}
    (h : Yields (perform env call effect) w r w') :
    w' = w ∨ ∃ d, effect w.disk = .ok d ∧ w' = { w with disk := d } := by
  rcases yields_bind.mp h with ⟨result, w₁, hattempt, hrest⟩ | ⟨e, hattempt, -⟩
  · have hw' : w' = w₁ := by
      cases result with
      | ok _ => exact (yields_pure.mp hrest).2
      | error _ => exact (yields_throw.mp hrest).2
    rw [hw']
    rcases yields_attempt hattempt with ⟨-, hd⟩ | ⟨-, -, hw₁⟩
    · exact .inr hd
    · exact hw₁
  · rcases yields_attempt hattempt with ⟨heq, -⟩ | ⟨_, heq, -⟩ <;> cases heq

theorem yields_perform_ok {u : PUnit} (h : Yields (perform env call effect) w (.ok u) w') :
    ∃ d, effect w.disk = .ok d ∧ w' = { w with disk := d } := by
  obtain ⟨result, w₁, hattempt, hrest⟩ := yields_bind_ok.mp h
  rcases yields_attempt hattempt with ⟨heq, d, hd, rfl⟩ | ⟨error, heq, -⟩
  · cases heq
    obtain ⟨-, rfl⟩ := yields_pure.mp hrest
    exact ⟨d, hd, rfl⟩
  · cases heq
    obtain ⟨herror, -⟩ := yields_throw.mp hrest
    cases herror

theorem yields_orFail {r : Except ExecutionError α} (h : Yields (orFail message result) w r w') :
    w' = w ∧ ((∃ a, result = .ok a ∧ r = .ok a)
      ∨ ∃ e, result = .error e ∧ r = .error (.failed (message e))) := by
  cases result with
  | ok a =>
    obtain ⟨hr, hw⟩ := yields_pure.mp h
    exact ⟨hw, .inl ⟨a, rfl, hr⟩⟩
  | error e =>
    obtain ⟨hr, hw⟩ := yields_throw.mp h
    exact ⟨hw, .inr ⟨e, rfl, hr⟩⟩

theorem reads_orFail : Reads (orFail message result) := by
  cases result with
  | ok a => exact reads_pure
  | error error => exact reads_throw trivial

theorem yields_destinationParent {parent : Location}
    (h : Yields (destinationParent destination) w (.ok parent) w') :
    destination.parent = some parent ∧ w' = w := by
  unfold destinationParent at h
  split at h
  case h_1 heq =>
    obtain ⟨hr, rfl⟩ := yields_pure.mp h
    injection hr with hr
    rw [heq, hr]
    exact ⟨rfl, rfl⟩
  case h_2 => cases (yields_throw.mp h).1

theorem reads_destinationParent : Reads (destinationParent destination) := by
  unfold destinationParent
  split
  case h_1 => exact reads_pure
  case h_2 => exact reads_throw trivial

theorem adds_setCells {f : CopyCells → CopyCells}
    (hplanned : ∀ cells l, (get (f cells).planned l).map subject
      = (get cells.planned l).map subject)
    (hcompleted : ∀ cells, (f cells).completedRootDestination = cells.completedRootDestination) :
    Adds (setCells f) :=
  Keeps.writes fun w => ⟨.refl _, hplanned w.cells, hcompleted w.cells, rfl⟩

theorem adds_setTemporary {temporary : Option Location} :
    Adds (setCells fun cells => { cells with temporary := temporary }) :=
  adds_setCells (fun _ _ => rfl) fun _ => rfl

end Calls

-- ==== the calls of a copy

namespace CopyExecutor

variable {copy : CopyExecutor} {env : Env}

variable {parent : Location}

theorem reads_probeFrom {name : String} (fuel suffix : Nat) :
    Reads (probeFrom env parent name fuel suffix) := by
  induction fuel generalizing suffix with
  | zero => exact Keeps.stuck
  | succ fuel ih =>
    unfold probeFrom
    refine Reads.bind reads_orFail fun candidate => ?_
    refine Reads.bind (Keeps.reads (fun _ => rfl) (by intro w e he; cases he)) fun found => ?_
    split
    case h_1 => exact reads_pure
    case h_2 => exact ih (suffix + 1)
    case h_3 => exact reads_throw trivial

variable {fuel : Nat}

theorem reads_nextCopyDestination {original : Location} :
    Reads (nextCopyDestination env fuel original) := by
  unfold nextCopyDestination
  refine Reads.bind reads_destinationParent fun parent => ?_
  refine Reads.bind reads_orFail fun name => ?_
  exact reads_probeFrom fuel 1

variable {source temporary : Location}

theorem adds_stream : Adds (stream env source temporary) := by
  unfold stream
  refine Keeps.bind trans reads_consult.adds fun content => ?_
  refine Keeps.bind trans (adds_perform ?_) fun _ => ?_
  · intro d d' h
    unfold openWrite at h
    split at h
    case h_3 => injection h with h; subst h; exact grows_of_same rfl rfl
    all_goals cases h
  · split
    case h_1 =>
      refine adds_perform ?_
      intro d d' hfound
      obtain ⟨⟩ := hfound
      exact grows_of_same rfl rfl
    case h_2 =>
      refine Keeps.bind trans (Keeps.writes fun w => ?_)
        fun _ => Keeps.throw refl trivial
      exact .of_disk (grows_of_same rfl rfl)

variable {source temporary destination : Location}

theorem adds_raiseConflict : Adds (raiseConflict env source temporary destination) := by
  unfold raiseConflict
  refine Keeps.bind trans (adds_perform ?_) fun _ => ?_
  · intro d d' hfound
    obtain ⟨⟩ := hfound
    exact grows_of_same rfl rfl
  refine Keeps.bind trans adds_setTemporary fun _ => ?_
  refine Keeps.bind trans reads_consult.adds fun losing => ?_
  refine Keeps.bind trans reads_consult.adds fun winning => ?_
  split <;> exact Keeps.throw refl trivial

variable {w w' : World} {outcome : ExecutionOutcome}

theorem not_yields_raiseConflict_ok :
    ¬ Yields (raiseConflict env source temporary destination) w (.ok outcome) w' := by
  intro h
  unfold raiseConflict at h
  obtain ⟨_, _, -, h⟩ := yields_bind_ok.mp h
  obtain ⟨_, _, -, h⟩ := yields_bind_ok.mp h
  obtain ⟨_, _, -, h⟩ := yields_bind_ok.mp h
  obtain ⟨_, _, -, h⟩ := yields_bind_ok.mp h
  split at h <;> cases (yields_throw.mp h).1

variable {effective : Option ConflictResolution} {finalDestination : Location}

variable {source temporary : Location}

theorem adds_commitLoop (fuel suffix : Nat) (destination : Location) :
    Adds (copy.commitLoop env effective source temporary finalDestination parent
      fuel suffix destination) := by
  induction fuel generalizing suffix destination with
  | zero => exact Keeps.stuck
  | succ fuel ih =>
    unfold commitLoop
    refine Keeps.bind trans (Keeps.onlyIf refl reads_consult.adds) fun _ => ?_
    refine Keeps.bind trans (adds_attempt fun _ _ => grows_commitCopy) fun committed => ?_
    split
    case h_1 =>
      exact Keeps.bind trans adds_setTemporary fun _ => Keeps.pure refl
    case h_2 =>
      refine Keeps.bind trans reads_orFail.adds fun name => ?_
      exact Keeps.bind trans reads_orFail.adds fun next => ih (suffix + 1) next
    case h_3 => exact adds_raiseConflict
    case h_4 => exact Keeps.throw refl trivial

theorem grows_serverSideCopy {clones : Bool} {d d' : Disk}
    (h : serverSideCopy clones source temporary d = .ok d') : d.Grows d' := by
  unfold serverSideCopy at h
  split at h
  case h_1 =>
    cases h
    split
    case isTrue => exact grows_of_same rfl rfl
    case isFalse => exact .refl _
  case h_2 => cases h

variable {resolution : Option ConflictResolution} {policy : ConflictPolicy} {source : Location}

theorem adds_copyFile :
    Adds (copy.copyFile env policy resolution fuel source finalDestination) := by
  unfold copyFile
  refine Keeps.bind trans reads_destinationParent.adds fun parent => ?_
  refine Keeps.bind trans reads_orFail.adds fun temporary => ?_
  refine Keeps.bind trans adds_setTemporary fun _ => ?_
  refine Keeps.bind trans
    (Keeps.onlyIf refl (adds_perform fun _ _ => grows_serverSideCopy)) fun _ => ?_
  refine Keeps.bind trans (Keeps.onlyIf refl adds_stream) fun _ => ?_
  refine Keeps.bind trans
    (Keeps.onlyIf refl (Keeps.throw refl trivial)) fun _ => ?_
  exact adds_commitLoop fuel 1 finalDestination

variable {planned : PlannedCopyEntry}

variable {item : PlanItem}

theorem softenError_eq (hstrict : copy.continueOnError = false) (p : Exec ExecutionOutcome) :
    copy.softenError env item planned p = p := by
  unfold softenError
  rw [if_neg]
  rw [hstrict]
  simp

variable {disposition : Disposition} {destination : Location}

theorem adds_transferEntry (hstrict : copy.continueOnError = false) :
    Adds (copy.transferEntry env policy resolution fuel item planned destination disposition) := by
  unfold transferEntry
  simp only [softenError_eq hstrict]
  split
  case h_1 =>
    split
    case isTrue => exact Keeps.pure refl
    case isFalse =>
      refine Keeps.bind trans reads_destinationParent.adds fun _ => ?_
      refine Keeps.bind trans reads_orFail.adds fun _ => ?_
      refine Keeps.bind trans (adds_perform ?_) fun _ => Keeps.pure refl
      exact fun _ _ => grows_createEntry (by intro content hc; cases hc)
  case h_2 =>
    exact Keeps.bind trans (adds_perform fun _ _ => grows_copySymlink)
      fun _ => Keeps.pure refl
  case h_3 => exact adds_copyFile

-- ==== what is committed

/-- The temporary holds nothing but those bytes. -/
def StagesOnly (temporary : Location) (content : Bytes) (w : World) : Prop :=
  ∀ staged, get w.disk.staged temporary = some staged → staged = content

variable {content : Bytes} {temporary : Location}

theorem stagesOnly_discard {w : World} {staged : List (Location × Bytes)}
    (h : w.disk.staged = keep staged (· ≠ temporary)) : StagesOnly temporary content w := by
  intro bytes hbytes
  rw [h, get_keep] at hbytes
  simp at hbytes

theorem commitLoop_ok {fuel suffix : Nat}
    (h : Yields (copy.commitLoop env effective source temporary finalDestination parent fuel suffix
      destination) w (.ok outcome) w')
    (hstaged : StagesOnly temporary content w) (hparent : destination.parent = some parent) :
    outcome = .completed ∧ ∃ d, .committed d content ∈ w'.disk.log
      ∧ get w'.disk.files d = some (.file content) ∧ d.parent = some parent
      ∧ (effective ≠ some .overwrite → get w.disk.files d = none) := by
  induction fuel generalizing suffix destination w with
  | zero => exact absurd h not_yields_stuck
  | succ fuel ih =>
    unfold commitLoop at h
    rw [yields_bind_ok] at h
    obtain ⟨_, w₀, hcapabilities, h⟩ := h
    have hw₀ : w₀ = w := by
      rcases yields_onlyIf.mp hcapabilities with ⟨-, hcapabilities⟩ | ⟨-, -, hw₀⟩
      · exact (yields_reads.mp hcapabilities).2
      · exact hw₀
    subst hw₀
    rw [yields_bind_ok] at h
    obtain ⟨committed, w₁, hattempt, h⟩ := h
    rcases yields_attempt hattempt with ⟨heq, d, hd, rfl⟩ | ⟨error, heq, hw₁⟩
    · -- the commit went through
      cases heq
      obtain ⟨bytes, hbytes, rfl⟩ := commitCopy_eq_ok hd
      have hcontent := hstaged bytes hbytes
      subst hcontent
      rw [yields_bind_ok] at h
      obtain ⟨_, w₂, hset, h⟩ := h
      obtain ⟨-, rfl⟩ := yields_writes.mp hset
      obtain ⟨houtcome, rfl⟩ := yields_pure.mp h
      injection houtcome with houtcome
      refine ⟨houtcome, destination, by simp, by simp [get_put], hparent, ?_⟩
      intro hkeeps
      rw [decide_eq_false hkeeps] at hd
      exact commitCopy_free hd
    · cases heq
      -- whether or not it took effect, nothing else is staged
      have hstaged₁ : StagesOnly temporary content w₁ := by
        rcases hw₁ with rfl | ⟨d, hd, rfl⟩
        · exact hstaged
        · obtain ⟨bytes, -, rfl⟩ := commitCopy_eq_ok hd
          exact stagesOnly_discard rfl
      split at h
      case h_1 heq' => cases heq'
      case h_2 =>
        rw [yields_bind_ok] at h
        obtain ⟨name, w₂, hname, h⟩ := h
        rw [yields_bind_ok] at h
        obtain ⟨next, w₃, hnext, h⟩ := h
        have hw₂ := (reads_orFail _ _ _ hname).1
        obtain ⟨hw₃, ⟨_, hjoin, hr⟩ | ⟨_, -, hr⟩⟩ := yields_orFail hnext
        case inr => cases hr
        injection hr with hr
        subst hw₂ hw₃ hr
        obtain ⟨houtcome, d, hlog, hstands, hbeside, hfree⟩ := ih h hstaged₁ (parent_of_join hjoin)
        refine ⟨houtcome, d, hlog, hstands, hbeside, fun hkeeps => ?_⟩
        by_contra hthere
        refine absurd (hfree hkeeps) ?_
        rcases hw₁ with rfl | ⟨_, hd, rfl⟩
        · exact hthere
        · exact (grows_commitCopy hd).present d hthere
      case h_3 => exact absurd h not_yields_raiseConflict_ok
      case h_4 =>
        obtain ⟨herror, -⟩ := yields_throw.mp h
        cases herror

theorem stagesOnly_stage {w : World} {d : Disk}
    (h : w.disk = stage temporary content d) : StagesOnly temporary content w := by
  intro bytes hbytes
  rw [h] at hbytes
  unfold stage at hbytes
  rw [get_put, if_pos rfl] at hbytes
  injection hbytes with hbytes
  exact hbytes.symm

theorem serverSideCopy_eq_ok {clones : Bool} {d d' : Disk}
    (h : serverSideCopy clones source temporary d = .ok d') :
    ∃ content, readFile d.files source = .ok content
      ∧ d' = if clones then stage temporary content d else d := by
  unfold serverSideCopy at h
  split at h
  case h_1 content hread => injection h with h; exact ⟨content, hread, h.symm⟩
  case h_2 => cases h

theorem stream_ok {u : PUnit} (h : Yields (stream env source temporary) w (.ok u) w') :
    ∃ content, readFile w.disk.files source = .ok content ∧ StagesOnly temporary content w' := by
  unfold stream at h
  obtain ⟨content, w₁, hread, h⟩ := yields_bind_ok.mp h
  obtain ⟨_, w₂, -, h⟩ := yields_bind_ok.mp h
  refine ⟨content, (yields_consult_ok hread).1, ?_⟩
  split at h
  case h_1 =>
    obtain ⟨d, hd, rfl⟩ := yields_perform_ok h
    injection hd with hd
    exact stagesOnly_stage hd.symm
  case h_2 =>
    obtain ⟨_, _, -, h⟩ := yields_bind_ok.mp h
    cases (yields_throw.mp h).1

theorem copyFile_ok
    (h : Yields (copy.copyFile env policy resolution fuel source finalDestination) w (.ok outcome)
      w') :
    outcome = .completed ∧ ∃ content, readFile w.disk.files source = .ok content
      ∧ ∃ d, .committed d content ∈ w'.disk.log ∧ get w'.disk.files d = some (.file content)
        ∧ d.parent = finalDestination.parent
        ∧ (effectiveResolution policy resolution ≠ some .overwrite →
          get w.disk.files d = none) := by
  unfold copyFile at h
  obtain ⟨parent, w₁, hparent, h⟩ := yields_bind_ok.mp h
  obtain ⟨temporary, w₂, hjoin, h⟩ := yields_bind_ok.mp h
  obtain ⟨_, w₃, hset, h⟩ := yields_bind_ok.mp h
  obtain ⟨_, w₄, hclone, h⟩ := yields_bind_ok.mp h
  obtain ⟨_, w₅, hstream, h⟩ := yields_bind_ok.mp h
  obtain ⟨_, w₆, hcheck, h⟩ := yields_bind_ok.mp h
  -- up to the transfer the disk is as it was
  have hdisk₃ : w₃.disk = w.disk := by
    obtain ⟨-, rfl⟩ := yields_writes.mp hset
    rw [← (reads_orFail _ _ _ hjoin).1, ← (reads_destinationParent _ _ _ hparent).1]
  have hcheck' : w₆ = w₅ := by
    rcases yields_onlyIf.mp hcheck with ⟨-, hcheck⟩ | ⟨-, -, hw⟩
    · cases (yields_throw.mp hcheck).1
    · exact hw
  -- after it the source's bytes are staged, cloned or streamed
  have hstaged : ∃ content, readFile w.disk.files source = .ok content
      ∧ StagesOnly temporary content w₆ := by
    rw [hcheck']
    rcases yields_onlyIf.mp hstream with ⟨hc, hstream⟩ | ⟨hc, -, hw₅⟩
    · obtain ⟨content, hread, hstaged⟩ := stream_ok hstream
      refine ⟨content, ?_, hstaged⟩
      have hfiles₄ : w₄.disk = w.disk := by
        rcases yields_onlyIf.mp hclone with ⟨hserver, hclone⟩ | ⟨-, -, hw₄⟩
        · obtain ⟨d, hd, rfl⟩ := yields_perform_ok hclone
          obtain ⟨_, -, rfl⟩ := serverSideCopy_eq_ok hd
          have hclones : env.clones = false := by simpa [hserver] using hc
          simp only [hclones]
          exact hdisk₃
        · rw [hw₄]
          exact hdisk₃
      rw [← hfiles₄]
      exact hread
    · have hboth : copy.transfer.serverSideCopy = true ∧ env.clones = true := by simpa using hc
      rcases yields_onlyIf.mp hclone with ⟨-, hclone⟩ | ⟨hno, -⟩
      · obtain ⟨d, hd, rfl⟩ := yields_perform_ok hclone
        obtain ⟨content, hread, rfl⟩ := serverSideCopy_eq_ok hd
        rw [hdisk₃] at hread
        rw [hw₅]
        refine ⟨content, hread, @stagesOnly_stage _ _ _ w₃.disk ?_⟩
        simp only [hboth.2, if_true]
      · simp [hboth.1] at hno
  obtain ⟨content, hread, hstaged⟩ := hstaged
  have hup := (yields_destinationParent hparent).1
  obtain ⟨houtcome, d, hlog, hstands, hbeside, hfree⟩ := commitLoop_ok h hstaged hup
  refine ⟨houtcome, content, hread, d, hlog, hstands, hbeside.trans hup.symm, fun hkeeps => ?_⟩
  by_contra hthere
  have hgrows₄ : Grows w₃ w₄ := (Keeps.onlyIf refl
    (adds_perform fun _ _ => grows_serverSideCopy) _ _ _ hclone).1
  have hgrows₅ : Grows w₄ w₅ := (Keeps.onlyIf refl adds_stream _ _ _ hstream).1
  rw [← hdisk₃] at hthere
  refine absurd (hfree hkeeps) ?_
  rw [hcheck']
  exact hgrows₅.disk.present d (hgrows₄.disk.present d hthere)

theorem transferEntry_ok (hstrict : copy.continueOnError = false)
    (h : Yields (copy.transferEntry env policy resolution fuel item planned destination
      disposition) w (.ok outcome) w') :
    outcome = .completed ∧ (planned.kind = .file →
      ∃ content, readFile w.disk.files planned.source.location = .ok content
        ∧ ∃ d, .committed d content ∈ w'.disk.log) := by
  unfold transferEntry at h
  simp only [softenError_eq hstrict] at h
  split at h
  case h_1 hkind =>
    refine ⟨?_, by rw [hkind]; exact nofun⟩
    split at h
    case isTrue => injection (yields_pure.mp h).1
    case isFalse =>
      obtain ⟨_, _, -, h⟩ := yields_bind_ok.mp h
      obtain ⟨_, _, -, h⟩ := yields_bind_ok.mp h
      obtain ⟨_, _, -, h⟩ := yields_bind_ok.mp h
      injection (yields_pure.mp h).1
  case h_2 hkind =>
    refine ⟨?_, by rw [hkind]; exact nofun⟩
    obtain ⟨_, _, -, h⟩ := yields_bind_ok.mp h
    injection (yields_pure.mp h).1
  case h_3 =>
    obtain ⟨houtcome, content, hread, d, hlog, -, -⟩ := copyFile_ok h
    exact ⟨houtcome, fun _ => ⟨content, hread, d, hlog⟩⟩

-- ==== making room

/-- Room made at a destination: nothing was done, or the link there was
taken away to be overwritten. -/
inductive Clears (planned : PlannedCopyEntry) (disposition : Disposition)
    (w : World) : World → Prop
  | nothing : Clears planned disposition w w
  | link {gone : Location → Bool} (hkind : planned.kind = .symlink)
      (hoverwrite : disposition = .overwrite)
      (hgone : ∀ l, gone l = true → l = planned.destination) :
      Clears planned disposition w { w with disk := takeAway gone w.disk }

variable {location : Location}

theorem removalOf_false {files : Files}
    {gone : Location → Bool} (h : removalOf files location false = .ok gone)
    {l : Location} (hl : gone l = true) : l = location := by
  unfold removalOf at h
  split at h
  case h_1 => cases h
  case h_2 =>
    rw [if_neg Bool.false_ne_true] at h
    split at h
    case isTrue => injection h with h; subst h; simpa using hl
    case isFalse => cases h
  case h_3 => injection h with h; subst h; simpa using hl

variable {r : Except ExecutionError PUnit}

theorem yields_remove {call : Call} {recursive : Bool}
    (h : Yields (remove env call location recursive) w r w') :
    (w' = w ∨ ∃ gone gone', removalOf w.disk.files location recursive = .ok gone
        ∧ (∀ l, gone' l = true → gone l = true) ∧ w' = { w with disk := takeAway gone' w.disk })
      ∧ ∀ e, r = .error e → NotWarning e := by
  have hrun : (remove env call location recursive) w = some (r, w') := h
  unfold remove at hrun
  split at hrun <;> injection hrun with hrun <;> injection hrun with hr hw
  case h_1 gone hgone _ =>
    exact ⟨.inr ⟨gone, gone, hgone, fun _ h => h, hw.symm⟩, by rw [← hr]; exact of_ok⟩
  case h_2 gone fault hgone _ =>
    refine ⟨.inr ⟨gone, _, hgone, fun l hl => ?_, hw.symm⟩, ?_⟩
    · exact (Bool.and_eq_true _ _ ▸ hl).1
    · rw [← hr]
      intro e hfound
      obtain ⟨⟩ := hfound
      trivial
  case h_3 | h_4 =>
    refine ⟨.inl hw.symm, ?_⟩
    rw [← hr]
    intro e hfound
    obtain ⟨⟩ := hfound
    trivial

theorem clears_of_remove {call : Call} (hkind : planned.kind = .symlink)
    (h : Yields (remove env call planned.destination false) w r w') :
    Clears planned .overwrite w w' := by
  rcases (yields_remove h).1 with rfl | ⟨gone, gone', hgone, hsub, rfl⟩
  · exact .nothing
  · exact .link hkind rfl fun l hl => removalOf_false hgone (hsub l hl)

theorem adds_rebase {c : Bool} {oldRoot newRoot : Location} :
    Adds (onlyIf c (setCells (rebasePlannedDestinations oldRoot newRoot))) := by
  refine Keeps.onlyIf refl (adds_setCells (fun cells l => ?_) fun _ => rfl)
  show (get (cells.planned.map fun entry =>
    (entry.1, rebaseEntry oldRoot newRoot entry.2)) l).map _ = _
  rw [get_map, Option.map_map]
  rfl

theorem makeRoom_spec {r : Except ExecutionError Location}
    (h : Yields (makeRoom env fuel planned disposition) w r w') :
    (∃ w₀, Clears planned disposition w w₀ ∧ Grows w₀ w') ∧ (∀ e, r = .error e → NotWarning e)
      ∧ (planned.kind = .file → w'.disk = w.disk) := by
  cases disposition with
  | free | skip =>
    obtain ⟨rfl, rfl⟩ := yields_pure.mp h
    exact ⟨⟨_, .nothing, refl _⟩, of_ok, fun _ => rfl⟩
  | overwrite =>
    rcases yields_bind.mp h with ⟨_, w₁, hremove, h⟩ | ⟨e, hremove, rfl⟩
    · obtain ⟨rfl, rfl⟩ := yields_pure.mp h
      rcases yields_onlyIf.mp hremove with ⟨hc, hremove⟩ | ⟨-, -, rfl⟩
      · have hkind : planned.kind = .symlink := of_decide_eq_true hc
        refine ⟨⟨_, clears_of_remove hkind hremove, refl _⟩, of_ok, ?_⟩
        rw [hkind]
        exact nofun
      · exact ⟨⟨_, .nothing, refl _⟩, of_ok, fun _ => rfl⟩
    · rcases yields_onlyIf.mp hremove with ⟨hc, hremove⟩ | ⟨-, hr, -⟩
      · have hkind : planned.kind = .symlink := of_decide_eq_true hc
        refine ⟨⟨_, clears_of_remove hkind hremove, refl _⟩, ?_, ?_⟩
        · intro e' hfound
          obtain ⟨⟩ := hfound
          exact (yields_remove hremove).2 e rfl
        · rw [hkind]
          exact nofun
      · cases hr
  | renameNew =>
    rcases yields_bind.mp h with ⟨renamed, w₁, hnext, h⟩ | ⟨e, hnext, rfl⟩
    · obtain ⟨rfl, -⟩ := reads_nextCopyDestination _ _ _ hnext
      rcases yields_bind.mp h with ⟨_, w₂, hrebase, h⟩ | ⟨e, hrebase, rfl⟩
      · obtain ⟨rfl, rfl⟩ := yields_pure.mp h
        obtain ⟨hgrows, -⟩ := adds_rebase _ _ _ hrebase
        refine ⟨⟨_, .nothing, hgrows⟩, of_ok, fun _ => ?_⟩
        rcases yields_onlyIf.mp hrebase with ⟨-, hrebase⟩ | ⟨-, -, hw⟩
        · rw [(yields_writes.mp hrebase).2]
        · rw [hw]
      · rcases yields_onlyIf.mp hrebase with ⟨-, hrebase⟩ | ⟨-, hr, -⟩
        · cases (yields_writes.mp hrebase).1
        · cases hr
    · obtain ⟨rfl, herror⟩ := reads_nextCopyDestination _ _ _ hnext
      refine ⟨⟨_, .nothing, refl _⟩, ?_, fun _ => rfl⟩
      intro e' hfound
      obtain ⟨⟩ := hfound
      exact herror e rfl

-- ==== the call

theorem notWarning_of_examine {source destination : Location} {files : Files} {e : ExecutionError}
    (h : examine env policy resolution source destination files = .error e) : NotWarning e := by
  unfold examine at h
  split at h
  case h_1 => cases h
  case h_2 =>
    split at h
    case h_1 => injection h with h; subst h; trivial
    case h_2 =>
      split at h
      case isTrue => injection h with h; subst h; trivial
      case isFalse =>
        split at h
        case h_1 => injection h with h; subst h; trivial
        all_goals cases h

/-- The entry is transferred: room is made, the rest only adds. If it
completes, a file's bytes are committed and a root is recorded. -/
inductive Transferred (planned : PlannedCopyEntry) (disposition : Disposition)
    (w : World) : Except ExecutionError ExecutionOutcome → World → Prop
  | failed {w₀ w' : World} {e : ExecutionError}
      (hclears : Clears planned disposition w w₀) (hgrows : Grows w₀ w')
      (herror : NotWarning e) : Transferred planned disposition w (.error e) w'
  | completed {w₀ w₁ w' : World} {recorded : Option Location}
      (hclears : Clears planned disposition w w₀) (hgrows : Grows w₀ w₁)
      (hcommitted : planned.kind = .file →
        ∃ content, readFile w.disk.files planned.source.location = .ok content
          ∧ ∃ d, .committed d content ∈ w₁.disk.log)
      (hrecorded : (planned.isRoot = true ∧ recorded ≠ none)
        ∨ (planned.isRoot = false ∧ recorded = w₁.cells.completedRootDestination))
      (hw' : w' = { w₁ with cells := { w₁.cells with
        completedRootDestination := recorded } }) :
      Transferred planned disposition w (.ok .completed) w'

theorem execute_spec (hstrict : copy.continueOnError = false) {operation : Operation}
    {resolution : Option ConflictResolution} {fuel : Nat} {w w' : World}
    {r : Except ExecutionError ExecutionOutcome}
    (h : Yields (copy.execute env operation item resolution fuel) w r w') :
    (w' = w ∧ ∃ e, r = .error e ∧ NotWarning e)
    ∨ ∃ planned disposition, get w.cells.planned item.entry.location = some planned
        ∧ examine env operation.conflictPolicy resolution planned.source.location
            planned.destination w.disk.files = .ok disposition
        ∧ ((disposition = .skip ∧ w' = w ∧ r = .ok .skipped)
          ∨ (disposition ≠ .skip ∧ Transferred planned disposition w r w')) := by
  unfold execute at h
  rw [yields_gets_bind] at h
  cases hplanned : get w.cells.planned item.entry.location with
  | none =>
    rw [hplanned] at h
    obtain ⟨rfl, rfl⟩ := yields_throw.mp h
    exact .inl ⟨rfl, _, rfl, trivial⟩
  | some planned =>
    rw [hplanned] at h
    simp only at h
    rw [yields_bind] at h
    rcases h with ⟨disposition, w₂, hexamine, h⟩ | ⟨e, hexamine, rfl⟩
    case inr =>
      obtain ⟨heq, rfl⟩ := yields_reads.mp hexamine
      exact .inl ⟨rfl, e, rfl, notWarning_of_examine heq.symm⟩
    obtain ⟨heq, rfl⟩ := yields_reads.mp hexamine
    refine .inr ⟨planned, disposition, rfl, heq.symm, ?_⟩
    split at h
    case isTrue hskip =>
      obtain ⟨rfl, rfl⟩ := yields_pure.mp h
      exact .inl ⟨hskip, rfl, rfl⟩
    case isFalse hskip =>
      refine .inr ⟨hskip, ?_⟩
      rw [yields_bind] at h
      rcases h with ⟨destination, w₃, hroom, h⟩ | ⟨e, hroom, rfl⟩
      case inr =>
        obtain ⟨⟨w₀, hclears, hgrows⟩, herror, -⟩ := makeRoom_spec hroom
        exact .failed hclears hgrows (herror e rfl)
      obtain ⟨⟨w₀, hclears, hgrows⟩, -, hdisk⟩ := makeRoom_spec hroom
      rw [yields_bind] at h
      rcases h with ⟨outcome, w₄, htransfer, h⟩ | ⟨e, htransfer, rfl⟩
      case inr =>
        obtain ⟨hgrows', herror⟩ := adds_transferEntry hstrict _ _ _ htransfer
        exact .failed hclears (trans _ _ _ hgrows hgrows') (herror e rfl)
      obtain ⟨hgrows', -⟩ := adds_transferEntry hstrict _ _ _ htransfer
      obtain ⟨rfl, hcommitted⟩ := transferEntry_ok hstrict htransfer
      rw [yields_bind] at h
      rcases h with ⟨_, w₅, hrecord, h⟩ | ⟨e, hrecord, rfl⟩
      case inr =>
        rcases yields_onlyIf.mp hrecord with ⟨-, hrecord⟩ | ⟨-, hr, -⟩
        · cases (yields_writes.mp hrecord).1
        · cases hr
      obtain ⟨rfl, rfl⟩ := yields_pure.mp h
      have hbytes : planned.kind = .file →
          ∃ content, readFile w₂.disk.files planned.source.location = .ok content
            ∧ ∃ d, .committed d content ∈ w₄.disk.log := by
        intro hkind
        rw [← hdisk hkind]
        exact hcommitted hkind
      have hgrown := trans _ _ _ hgrows hgrows'
      rcases yields_onlyIf.mp hrecord with ⟨hroot, hrecord⟩ | ⟨hroot, -, hw₅⟩
      · exact .completed hclears hgrown hbytes (.inl ⟨hroot, Option.some_ne_none _⟩)
          (yields_writes.mp hrecord).2
      · exact .completed hclears hgrown hbytes (.inr ⟨hroot, rfl⟩) hw₅

end CopyExecutor

end FileManager.Transfers
