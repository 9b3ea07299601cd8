/-
When saves of one file that start from the same revision conflict.

A save reads the file, compares its revision, and later puts the new
content there by a rename that looks at nothing. Whoever renames in
between is overwritten. So the revision protects exactly the saves that
are alone between their reading and their rename (`Undisturbed`), and
only as long as nobody saves the content that is there already.

# The argument

In such a run a save that has read the file holds its bytes for as long
as no other save renames (`Since`), so at its rename the content still
has the expected revision.
-/
import FileManager.Editor.Save
import FileManager.Lib.Fallible

namespace FileManager.Editor

open Machine (Run Free)
open List Option Fallible
open Function (update_of_ne update update_self)
open State (initial proceed)

variable {ι ρ : Type} {contentRevision : Bytes → ρ} {requests : ι → SaveRequest ρ}
  {s s' : State ι ρ} {a : Action ι} {acts : List (Action ι)} {file : Location} {revision : ρ}
  {files files' : Location → Option Node} {request : SaveRequest ρ} {phase : Phase ρ} {i save : ι}
  {bytes : Bytes}

-- ==== outcomes

theorem inspect_ok (h : inspect request files = .ok phase) : phase = .inspected := by
  unfold inspect at h
  split at h
  case h_1 => cases h
  case h_2 =>
    obtain ⟨-, h⟩ := passed h nofun
    exact (Except.ok.inj h).symm

theorem fileSize_ok (h : fileSize request files = .ok phase) : phase = .sized := by
  unfold fileSize at h
  split at h
  case h_1 => cases h
  case h_2 =>
    obtain ⟨-, h⟩ := passed h nofun
    exact (Except.ok.inj h).symm

theorem openRead_ok (h : openRead request files = .ok phase) :
    ∃ existing, phase = .opened existing ∧ files request.location = some (.file existing) := by
  unfold openRead at h
  split at h
  case h_1 existing hfile => exact ⟨existing, (Except.ok.inj h).symm, hfile⟩
  case h_2 => cases h

/-- A step leaves the other saves alone. -/
structure Apart (s s' : State ι ρ) (save : ι) : Prop where
  phases : ∀ j, j ≠ save → s'.phases j = s.phases j
  temporaries : ∀ j, j ≠ save → s'.temporaries j = s.temporaries j

theorem Apart.refl (s : State ι ρ) (save : ι) : Apart s s save := ⟨fun _ _ => rfl, fun _ _ => rfl⟩

theorem apart_put (save : ι) (location : Location) :
    Apart s (s.putTemporary save location) save := ⟨fun _ _ => rfl, fun _ _ => rfl⟩

-- ==== what is held

/-- The rename of a save goes through. -/
def renames (i : ι) : Action ι := ⟨i, .rename, none⟩

/-- A save opens the file. -/
def opens (i : ι) : Action ι := ⟨i, .openRead, none⟩

theorem ne_renames_of_call (h : a.call ≠ .rename) (i : ι) : a ≠ renames i := by
  rintro rfl
  exact h rfl

/-- Between the opening and the rename of a save, no other renames. -/
def Undisturbed (acts : List (Action ι)) : Prop :=
  ∀ i before mid after, acts = before ++ opens i :: (mid ++ renames i :: after) →
    ∀ j, j ≠ i → renames j ∉ mid

theorem Undisturbed.of_append {after : List (Action ι)}
    (h : Undisturbed (acts ++ a :: after)) : Undisturbed (acts ++ [a]) := by
  intro i before mid rest heq j hj
  refine h i before mid (rest ++ after) ?_ j hj
  rw [append_cons, heq]
  simp

theorem Undisturbed.init (h : Undisturbed (acts ++ [a])) : Undisturbed acts := by
  intro i before mid after heq j hj
  refine h i before mid (after ++ [a]) ?_ j hj
  rw [heq]
  simp

/-- The bytes were read by the save, and are there unless another save
has renamed since. -/
def Since (file : Location) (acts : List (Action ι)) (files : Location → Option Node) (i : ι)
    (existing : Bytes) : Prop :=
  ∃ before mid, acts = before ++ opens i :: mid
    ∧ ((∀ j, j ≠ i → renames j ∉ mid) → files file = some (.file existing))

theorem Since.concat {existing : Bytes} (h : Since file acts files i existing)
    (hfiles : files' file = files file ∨ ∃ j, j ≠ i ∧ a = renames j) :
    Since file (acts ++ [a]) files' i existing := by
  obtain ⟨before, mid, rfl, hsince⟩ := h
  refine ⟨before, mid ++ [a], by simp, fun hnone => ?_⟩
  rcases hfiles with hfiles | ⟨j, hj, rfl⟩
  · rw [hfiles]
    refine hsince fun j hj hmem => hnone j hj ?_
    exact mem_append_left _ hmem
  · exact absurd (mem_append_right _ (mem_singleton.2 rfl)) (hnone j hj)

/-- What a save in some phase has done and holds. -/
def Holds (contentRevision : Bytes → ρ) (request : SaveRequest ρ) (acts : List (Action ι))
    (files : Location → Option Node) (temporary : Option Bytes) (i : ι) : Phase ρ → Prop
  | .opened existing => Since request.location acts files i existing
  | .checked _ | .created _ =>
    ∃ existing, contentRevision existing = request.expectedRevision
      ∧ Since request.location acts files i existing
  | .written _ | .preserved _ =>
    temporary = some request.content
      ∧ ∃ existing, contentRevision existing = request.expectedRevision
        ∧ Since request.location acts files i existing
  | .linked _ => request.destination ≠ none
  | .committed _ | .returned (.ok _) => request.destination = none → renames i ∈ acts
  | _ => True

theorem Holds.concat {temporary : Option Bytes}
    (h : Holds contentRevision request acts files temporary i phase)
    (hfiles : files' request.location = files request.location ∨ ∃ j, j ≠ i ∧ a = renames j) :
    Holds contentRevision request (acts ++ [a]) files' temporary i phase := by
  cases phase with
  | opened existing => exact Since.concat h hfiles
  | checked conflicted | created conflicted =>
    obtain ⟨existing, hrevision, hsince⟩ := h
    exact ⟨existing, hrevision, hsince.concat hfiles⟩
  | written conflicted | preserved conflicted =>
    obtain ⟨htemporary, existing, hrevision, hsince⟩ := h
    exact ⟨htemporary, existing, hrevision, hsince.concat hfiles⟩
  | linked conflicted => exact h
  | committed conflicted => exact fun hplace => mem_append_left _ (h hplace)
  | returned result =>
    cases result with
    | ok response => exact fun hplace => mem_append_left _ (h hplace)
    | error error => exact trivial
  | _ => exact trivial

-- ==== undisturbed runs

/-- The saves are all of one file, from one revision, and none of them
overwrites a conflict. -/
structure Contend (requests : ι → SaveRequest ρ) (file : Location) (revision : ρ) : Prop where
  location : ∀ i, (requests i).location = file
  expected : ∀ i, (requests i).expectedRevision = revision
  careful : ∀ i, (requests i).overwriteConflict = false

/-- A save in place brings a content of another revision. -/
def Changes (contentRevision : Bytes → ρ) (requests : ι → SaveRequest ρ) : Prop :=
  ∀ i, (requests i).destination = none →
    contentRevision (requests i).content ≠ (requests i).expectedRevision

/-- What holds along an undisturbed run. -/
structure Inv (contentRevision : Bytes → ρ) (requests : ι → SaveRequest ρ) (file : Location)
    (acts : List (Action ι)) (s : State ι ρ) : Prop where
  holds : ∀ i, Holds contentRevision (requests i) acts s.files (s.temporaries i) i (s.phases i)
  present : ∃ bytes, s.files file = some (.file bytes)
  inPlace : ∀ i, renames i ∈ acts → (requests i).destination = none
  renamed : ∀ i, renames i ∈ acts → s.files file = some (.file (requests i).content)
  once : ∀ i j, renames i ∈ acts → renames j ∈ acts → i = j

theorem Inv.initial (hfile : files file = some (.file bytes)) :
    Inv contentRevision requests file [] (initial files) where
  holds _ := trivial
  present := ⟨bytes, hfile⟩
  inPlace _ h := absurd h not_mem_nil
  renamed _ h := absurd h not_mem_nil
  once _ _ h := absurd h not_mem_nil

theorem Inv.reads (hinv : Inv contentRevision requests file acts s)
    (hcontend : Contend requests file revision) {conflicted : Bool}
    (hphase : s.phases i = .preserved conflicted) (hund : Undisturbed (acts ++ [renames i])) :
    s.temporaries i = some (requests i).content
      ∧ ∃ existing, contentRevision existing = revision ∧ s.files file = some (.file existing) := by
  have hholds := hinv.holds i
  rw [hphase] at hholds
  obtain ⟨htemporary, existing, hrevision, before, mid, rfl, hsince⟩ := hholds
  refine ⟨htemporary, existing, hrevision.trans (hcontend.expected i), ?_⟩
  rw [hcontend.location i] at hsince
  refine hsince (hund i before mid [] ?_)
  simp

theorem Inv.of_kept (hinv : Inv contentRevision requests file acts s)
    (hother : ∀ i, a ≠ renames i) (hfile : s'.files file = s.files file)
    (hholds : ∀ i, Holds contentRevision (requests i) (acts ++ [a]) s'.files (s'.temporaries i) i
      (s'.phases i)) :
    Inv contentRevision requests file (acts ++ [a]) s' := by
  have hnew : ∀ i, renames i ∈ acts ++ [a] → renames i ∈ acts := by
    intro i hi
    rcases mem_append.1 hi with hi | hi
    · exact hi
    · exact absurd (mem_singleton.1 hi).symm (hother i)
  refine ⟨hholds, ?_, fun i hi => hinv.inPlace i (hnew i hi), fun i hi => ?_,
    fun i j hi hj => hinv.once i j (hnew i hi) (hnew j hj)⟩
  · rw [hfile]
    exact hinv.present
  · rw [hfile]
    exact hinv.renamed i (hnew i hi)

-- ==== what a step can do

section Moves

variable [DecidableEq ρ] {request : SaveRequest ρ} {phase : Phase ρ}

theorem check_ok {existing : Bytes} (h : check contentRevision request existing = .ok phase) :
    ∃ conflicted, phase = .checked conflicted ∧ (request.overwriteConflict = false →
        conflicted = false ∧ contentRevision existing = request.expectedRevision) := by
  unfold check at h
  simp only at h
  obtain ⟨hagrees, h⟩ := passed h nofun
  obtain ⟨-, h⟩ := passed h nofun
  obtain ⟨-, h⟩ := passed h nofun
  refine ⟨_, (Except.ok.inj h).symm, fun hkeep => ?_⟩
  simpa [hkeep] using hagrees

/-- What a save does without changing a file. -/
inductive Moves (contentRevision : Bytes → ρ) (request : SaveRequest ρ) (a : Action ι)
    (files : Location → Option Node) (temporary temporary' : Option Bytes) :
    Phase ρ → Phase ρ → Prop
  | inspected : Moves contentRevision request a files temporary temporary' .resolved .inspected
  | sized : Moves contentRevision request a files temporary temporary' .inspected .sized
  | opened (existing : Bytes) (hcall : a.call = .openRead) (hfault : a.fault = none)
      (h : files request.location = some (.file existing)) :
      Moves contentRevision request a files temporary temporary' .sized (.opened existing)
  | checked (existing : Bytes) (conflicted : Bool)
      (h : check contentRevision request existing = .ok (.checked conflicted)) :
      Moves contentRevision request a files temporary temporary' (.opened existing)
        (.checked conflicted)
  | created (conflicted : Bool) :
      Moves contentRevision request a files temporary temporary' (.checked conflicted)
        (.created conflicted)
  | discarding (conflicted : Bool) (error : VfsError) :
      Moves contentRevision request a files temporary temporary' (.created conflicted)
        (.discarding error)
  | written (conflicted : Bool) (h : temporary' = some request.content) :
      Moves contentRevision request a files temporary temporary' (.created conflicted)
        (.written conflicted)
  | preserved (conflicted : Bool) (h : temporary' = temporary) :
      Moves contentRevision request a files temporary temporary' (.written conflicted)
        (.preserved conflicted)
  | unlinked (conflicted : Bool) :
      Moves contentRevision request a files temporary temporary' (.linked conflicted)
        (.committed conflicted)
  | answered (conflicted : Bool) (response : SaveResponse ρ) :
      Moves contentRevision request a files temporary temporary' (.committed conflicted)
        (.returned (.ok response))
  | failed (phase : Phase ρ) (error : SaveError ρ) :
      Moves contentRevision request a files temporary temporary' phase (.returned (.error error))

theorem Holds.moves {phase' : Phase ρ} {temporary temporary' : Option Bytes}
    {files : Location → Option Node} (hoverwrite : request.overwriteConflict = false)
    (h : Holds contentRevision request acts files temporary a.save phase)
    (hmoves : Moves contentRevision request a files temporary temporary' phase phase') :
    Holds contentRevision request (acts ++ [a]) files temporary' a.save phase' := by
  cases hmoves with
  | opened existing hcall hfault hfile =>
    refine ⟨acts, [], ?_, fun _ => hfile⟩
    obtain ⟨save, call, fault⟩ := a
    simp only at hcall hfault
    rw [hcall, hfault]
    rfl
  | checked existing conflicted hcheck =>
    obtain ⟨other, -, hagrees⟩ := check_ok hcheck
    exact ⟨existing, (hagrees hoverwrite).2, Since.concat h (.inl rfl)⟩
  | created conflicted =>
    obtain ⟨existing, hrevision, hsince⟩ := h
    exact ⟨existing, hrevision, hsince.concat (.inl rfl)⟩
  | written conflicted htemporary =>
    obtain ⟨existing, hrevision, hsince⟩ := h
    exact ⟨htemporary, existing, hrevision, hsince.concat (.inl rfl)⟩
  | preserved conflicted htemporary =>
    obtain ⟨hbefore, existing, hrevision, hsince⟩ := h
    exact ⟨htemporary.trans hbefore, existing, hrevision, hsince.concat (.inl rfl)⟩
  | unlinked conflicted => exact fun hplace => absurd hplace h
  | answered conflicted response => exact fun hplace => mem_append_left _ (h hplace)
  | _ => exact trivial

end Moves

variable [DecidableEq ι]

theorem apart_proceed (save : ι) (outcome : Except (SaveError ρ) (Phase ρ)) :
    Apart s (s.proceed save outcome) save := by
  cases outcome with
  | ok phase | error error => exact ⟨fun j hj => update_of_ne hj _ _, fun _ _ => rfl⟩

theorem Apart.enter (h : Apart s s' save) (phase : Phase ρ) :
    Apart s (s'.enter save phase) save where
  phases j hj := (update_of_ne hj _ _).trans (h.phases j hj)
  temporaries := h.temporaries

theorem Apart.setTemporary (h : Apart s s' save) (content : Option Bytes) :
    Apart s (s'.setTemporary save content) save where
  phases := h.phases
  temporaries j hj := (update_of_ne hj _ _).trans (h.temporaries j hj)

variable [DecidableEq ρ]

/-- What one step can do. -/
inductive Steps (contentRevision : Bytes → ρ) (requests : ι → SaveRequest ρ) (a : Action ι)
    (s s' : State ι ρ) : Prop
  | moves (hother : ∀ i, a ≠ renames i) (hfiles : s'.files = s.files)
      (h : Moves contentRevision (requests a.save) a s.files (s.temporaries a.save)
        (s'.temporaries a.save) (s.phases a.save) (s'.phases a.save))
  | renames (conflicted : Bool) (ha : a = renames a.save)
      (hdestination : (requests a.save).destination = none)
      (hbefore : s.phases a.save = .preserved conflicted)
      (hafter : s'.phases a.save = .committed conflicted)
      (hfiles : s'.files = update s.files (requests a.save).saveLocation
        ((s.temporaries a.save).map Node.file))
  | links (conflicted : Bool) (hother : ∀ i, a ≠ renames i) (hdestination : (requests a.save).destination ≠ none)
      (hbefore : s.phases a.save = .preserved conflicted)
      (hafter : s'.phases a.save = .linked conflicted)
      (hfree : s.files (requests a.save).saveLocation = none)
      (hfiles : s'.files = update s.files (requests a.save).saveLocation
        ((s.temporaries a.save).map Node.file))

theorem steps_of_proceed {outcome : Except (SaveError ρ) (Phase ρ)}
    (hother : ∀ i, a ≠ renames i) (hmoves : ∀ phase, outcome = .ok phase →
      Moves contentRevision (requests a.save) a s.files (s.temporaries a.save)
        (s.temporaries a.save) (s.phases a.save) phase) :
    Steps contentRevision requests a s (s.proceed a.save outcome) := by
  cases outcome with
  | ok phase =>
    refine .moves hother rfl ?_
    simpa [proceed] using hmoves phase rfl
  | error error =>
    refine .moves hother rfl ?_
    simpa [proceed] using Moves.failed _ error

theorem steps_of_perform (hfault : a.fault = none)
    (h : perform contentRevision (requests a.save) a.save s a.call (s.phases a.save) = some s') :
    Steps contentRevision requests a s s' := by
  unfold perform at h
  split at h
  case h_1 hcall hphase =>
    obtain rfl := some.inj h
    refine steps_of_proceed (ne_renames_of_call (by simp [hcall])) fun phase hok => ?_
    rw [hphase, inspect_ok hok]
    exact .inspected
  case h_2 hcall hphase =>
    obtain rfl := some.inj h
    refine steps_of_proceed (ne_renames_of_call (by simp [hcall])) fun phase hok => ?_
    rw [hphase, fileSize_ok hok]
    exact .sized
  case h_3 hcall hphase =>
    obtain rfl := some.inj h
    refine steps_of_proceed (ne_renames_of_call (by simp [hcall])) fun phase hok => ?_
    obtain ⟨existing, rfl, hfile⟩ := openRead_ok hok
    rw [hphase]
    exact .opened existing hcall hfault hfile
  case h_4 existing hcall hphase =>
    obtain rfl := some.inj h
    refine steps_of_proceed (ne_renames_of_call (by simp [hcall])) fun phase hok => ?_
    obtain ⟨conflicted, rfl, -⟩ := check_ok hok
    rw [hphase]
    exact .checked existing conflicted hok
  case h_5 conflicted hcall hphase =>
    obtain rfl := some.inj h
    refine .moves (ne_renames_of_call (by simp [hcall])) rfl ?_
    rw [hphase]
    simpa using Moves.created conflicted
  case h_6 conflicted hcall hphase =>
    obtain rfl := some.inj h
    refine .moves (ne_renames_of_call (by simp [hcall])) rfl ?_
    rw [hphase]
    simpa using Moves.written conflicted (by simp)
  case h_7 error hcall hphase =>
    obtain rfl := some.inj h
    refine .moves (ne_renames_of_call (by simp [hcall])) rfl ?_
    simpa using Moves.failed _ _
  case h_8 conflicted hcall hphase =>
    obtain rfl := some.inj h
    refine .moves (ne_renames_of_call (by simp [hcall])) rfl ?_
    rw [hphase]
    simpa using Moves.preserved conflicted rfl
  case h_9 conflicted hcall hphase =>
    split at h
    case isTrue hdestination =>
      obtain rfl := some.inj h
      refine .renames conflicted ?_ hdestination hphase (by simp) rfl
      obtain ⟨save, call, fault⟩ := a
      simp only at hcall hfault
      rw [hcall, hfault]
      rfl
    case isFalse => cases h
  case h_10 conflicted hcall hphase =>
    obtain ⟨hdestination, h⟩ := passed h nofun
    split at h
    case isTrue hfree =>
      obtain rfl := some.inj h
      exact .links conflicted (ne_renames_of_call (by simp [hcall])) hdestination hphase (by simp)
        hfree rfl
    case isFalse =>
      obtain rfl := some.inj h
      refine .moves (ne_renames_of_call (by simp [hcall])) rfl ?_
      simpa using Moves.failed _ _
  case h_11 conflicted hcall hphase =>
    obtain rfl := some.inj h
    refine .moves (ne_renames_of_call (by simp [hcall])) rfl ?_
    rw [hphase]
    simpa using Moves.unlinked conflicted
  case h_12 conflicted hcall hphase =>
    obtain rfl := some.inj h
    refine .moves (ne_renames_of_call (by simp [hcall])) rfl ?_
    rw [hphase]
    simpa using Moves.answered conflicted _
  case h_13 => cases h

theorem steps_of_refuse {fault : Fault} (hfault : a.fault = some fault)
    (h : refuse (requests a.save) a.save fault s a.call (s.phases a.save) = some s') :
    Steps contentRevision requests a s s' := by
  have hother : ∀ i, a ≠ renames i := by
    rintro i rfl
    cases hfault
  unfold refuse at h
  split at h
  case h_1 conflicted hcall hphase =>
    obtain rfl := some.inj h
    refine .moves hother rfl ?_
    rw [hphase]
    simpa using Moves.discarding conflicted fault.error
  case h_13 => cases h
  all_goals
    obtain rfl := some.inj h
    refine .moves hother rfl ?_
    simpa using Moves.failed _ _

theorem steps_of_step (h : step contentRevision requests a s = some s') :
    Steps contentRevision requests a s s' := by
  unfold step at h
  split at h
  case h_1 hfault => exact steps_of_perform hfault h
  case h_2 fault hfault => exact steps_of_refuse hfault h

theorem apart_of_step (h : step contentRevision requests a s = some s') : Apart s s' a.save := by
  unfold step at h
  split at h
  case h_1 =>
    unfold perform at h
    split at h
    case h_9 =>
      split at h
      case isTrue =>
        obtain rfl := some.inj h
        exact ((apart_put _ _).setTemporary _).enter _
      case isFalse => cases h
    case h_10 =>
      obtain ⟨-, h⟩ := passed h nofun
      split at h
      case isTrue =>
        obtain rfl := some.inj h
        exact (apart_put _ _).enter _
      case isFalse =>
        obtain rfl := some.inj h
        exact (Apart.refl s _).enter _
    case h_12 =>
      obtain rfl := some.inj h
      exact ⟨fun j hj => update_of_ne hj _ _, fun _ _ => rfl⟩
    case h_13 => cases h
    case h_8 =>
      obtain rfl := some.inj h
      exact (Apart.refl s _).enter _
    case h_5 | h_6 | h_7 | h_11 =>
      obtain rfl := some.inj h
      exact ((Apart.refl s _).setTemporary _).enter _
    all_goals
      obtain rfl := some.inj h
      exact apart_proceed _ _
  case h_2 =>
    unfold refuse at h
    split at h
    case h_1 =>
      obtain rfl := some.inj h
      exact ((Apart.refl s _).setTemporary _).enter _
    case h_13 => cases h
    all_goals
      obtain rfl := some.inj h
      exact (Apart.refl s _).enter _

-- ==== runs

theorem Inv.step (hcontend : Contend requests file revision)
    (hchanges : Changes contentRevision requests) (hinv : Inv contentRevision requests file acts s)
    (hund : Undisturbed (acts ++ [a])) (h : step contentRevision requests a s = some s') :
    Inv contentRevision requests file (acts ++ [a]) s' := by
  have hapart := apart_of_step h
  -- the saves that do not move, once it is known what becomes of the file
  have hothers : (s'.files file = s.files file ∨ a = renames a.save) → ∀ i, i ≠ a.save →
      Holds contentRevision (requests i) (acts ++ [a]) s'.files (s'.temporaries i) i
        (s'.phases i) := by
    intro hfiles i hi
    rw [hapart.phases i hi, hapart.temporaries i hi]
    refine (hinv.holds i).concat ?_
    rw [hcontend.location i]
    rcases hfiles with hfiles | ha
    · exact .inl hfiles
    · exact .inr ⟨a.save, Ne.symm hi, ha⟩
  cases steps_of_step h with
  | moves hother hfiles hmoves =>
    have hfile : s'.files file = s.files file := by rw [hfiles]
    refine hinv.of_kept hother hfile fun i => ?_
    by_cases hi : i = a.save
    · subst hi
      rw [hfiles]
      exact (hinv.holds a.save).moves (hcontend.careful _) hmoves
    · exact hothers (.inl hfile) i hi
  | renames conflicted ha hdestination hbefore hafter hfiles =>
    rw [ha] at hund
    obtain ⟨htemporary, existing, hrevision, hfile⟩ := hinv.reads hcontend hbefore hund
    have hlocation : (requests a.save).saveLocation = file := by
      rw [SaveRequest.saveLocation, hdestination]
      exact hcontend.location a.save
    rw [hlocation, htemporary] at hfiles
    have hfile' : s'.files file = some (.file (requests a.save).content) := by
      rw [hfiles, update_self]
      rfl
    -- whoever renamed before would have left another revision
    have hfirst : ∀ i, renames i ∉ acts := by
      intro i hi
      refine hchanges i (hinv.inPlace i hi) ?_
      have hcontent := hinv.renamed i hi
      rw [hfile] at hcontent
      obtain rfl : existing = (requests i).content := by simpa using hcontent
      exact hrevision.trans (hcontend.expected i).symm
    have honly : ∀ i, renames i ∈ acts ++ [a] → i = a.save := by
      intro i hi
      rcases mem_append.1 hi with hi | hi
      · exact absurd hi (hfirst i)
      · exact congrArg Action.save (mem_singleton.1 hi)
    refine ⟨fun i => ?_, ⟨_, hfile'⟩, fun i hi => ?_, fun i hi => ?_, fun i j hi hj => ?_⟩
    · by_cases hi : i = a.save
      · subst hi
        rw [hafter]
        refine fun _ => mem_append_right _ ?_
        exact mem_singleton.2 ha.symm
      · exact hothers (.inr ha) i hi
    · rw [honly i hi]
      exact hdestination
    · rw [honly i hi]
      exact hfile'
    · rw [honly i hi, honly j hj]
  | links conflicted hother hdestination hbefore hafter hfree hfiles =>
    have hne : file ≠ (requests a.save).saveLocation := by
      intro heq
      obtain ⟨bytes, hbytes⟩ := hinv.present
      rw [heq, hfree] at hbytes
      cases hbytes
    have hfile : s'.files file = s.files file := by rw [hfiles, update_of_ne hne]
    refine hinv.of_kept hother hfile fun i => ?_
    by_cases hi : i = a.save
    · subst hi
      rw [hafter]
      exact hdestination
    · exact hothers (.inl hfile) i hi

theorem inv_of_run (hcontend : Contend requests file revision)
    (hchanges : Changes contentRevision requests) (hfile : files file = some (.file bytes))
    (hrun : Run (step contentRevision requests) Free (initial files) acts s) :
    Undisturbed acts → Inv contentRevision requests file acts s := by
  refine Run.invariant_trace (P := fun acts s => Undisturbed acts →
    Inv contentRevision requests file acts s) ?_ ?_ hrun
  · exact fun _ => .initial hfile
  · intro acts s s' a _ _ hstep hinv hund
    exact (hinv hund.init).step hcontend hchanges hund hstep

/-- A save in place has succeeded. -/
def Saved (requests : ι → SaveRequest ρ) (s : State ι ρ) (i : ι) : Prop :=
  (requests i).destination = none ∧ ∃ response, s.phases i = .returned (.ok response)

/-- Of saves from one revision, each with a new content, at most one
succeeds, and each rename replaces bytes of the expected revision. -/
theorem contending_saves_conflict (hcontend : Contend requests file revision)
    (hchanges : Changes contentRevision requests) {files : Location → Option Node} {bytes : Bytes}
    (hfile : files file = some (.file bytes))
    (hrun : Run (step contentRevision requests) Free (State.initial files) acts s)
    (hund : Undisturbed acts) :
    (∀ i j, Saved requests s i → Saved requests s j → i = j)
      ∧ (∀ i, Saved requests s i → s.files file = some (.file (requests i).content))
      ∧ ∀ before after i, acts = before ++ renames i :: after →
        ∃ s₁ existing, Run (step contentRevision requests) Free (State.initial files) before s₁
          ∧ s₁.files file = some (.file existing) ∧ contentRevision existing = revision := by
  have hinv := inv_of_run hcontend hchanges hfile hrun hund
  have hrenamed : ∀ i, Saved requests s i → renames i ∈ acts := by
    rintro i ⟨hplace, response, hphase⟩
    have hholds := hinv.holds i
    rw [hphase] at hholds
    exact hholds hplace
  refine ⟨fun i j hi hj => hinv.once i j (hrenamed i hi) (hrenamed j hj),
    fun i hi => hinv.renamed i (hrenamed i hi), ?_⟩
  rintro before after i rfl
  obtain ⟨s₁, s₂, hbefore, -, hstep, -⟩ := Run.split hrun
  have hund₁ : Undisturbed (before ++ [renames i]) := hund.of_append
  have hinv₁ := inv_of_run hcontend hchanges hfile hbefore hund₁.init
  cases steps_of_step hstep with
  | renames conflicted _ _ hphase _ _ =>
    obtain ⟨-, existing, hrevision, hexisting⟩ := hinv₁.reads hcontend hphase hund₁
    exact ⟨s₁, existing, hbefore, hexisting, hrevision⟩
  | moves hother | links _ hother => exact absurd rfl (hother i)

-- Two saves of one file; the revision of a content is the content.

def notes : Location where
  providerId := "local"
  uri := { authority := "", segments := ["notes.txt"] }

/-- Both start from the empty file. -/
def twoSaves (i : Bool) : SaveRequest Bytes where
  location := notes
  destination := none
  content := if i then [1] else [2]
  expectedRevision := []
  overwriteConflict := false

def emptyNotes (location : Location) : Option Node :=
  if location = notes then some (.file []) else none

theorem twoSaves_contend : Contend twoSaves notes [] := ⟨fun _ => rfl, fun _ => rfl, fun _ => rfl⟩

theorem twoSaves_change : Changes id twoSaves := by
  intro i _
  cases i with
  | true | false => decide

/-- Up to the check of the revision. -/
def readingCalls : List Call := [.inspect, .fileSize, .openRead, .readToEnd]

/-- From there to the end. -/
def writingCalls : List Call := [.openWrite, .write, .preserveMetadata, .rename, .symlinkMetadata]

def callsOf (i : Bool) (calls : List Call) : List (Action Bool) :=
  calls.map fun call => ⟨i, call, none⟩

/-- The second save comes after the first. -/
def oneAfterAnother : List (Action Bool) :=
  callsOf true (readingCalls ++ writingCalls) ++ callsOf false readingCalls

/-- Both read before either renames. -/
def bothRead : List (Action Bool) :=
  callsOf true readingCalls ++ callsOf false (readingCalls ++ writingCalls)
    ++ callsOf true writingCalls

/-- What a save gives back for its content. -/
def savedOf (i : Bool) : Phase Bytes :=
  .returned (.ok { revision := (twoSaves i).content, size := 1, overwroteConflict := false })

theorem later_save_conflicts :
    ∃ s, Run (step id twoSaves) Free (State.initial emptyNotes) oneAfterAnother s
      ∧ Saved twoSaves s true ∧ s.phases false = .returned (.error (.fileRevisionConflict [] [1]))
      ∧ s.files notes = some (.file [1]) := by
  obtain ⟨s, hrun, hfirst, hsecond⟩ :
      ∃ s, Run (step id twoSaves) Free (State.initial emptyNotes) oneAfterAnother s
        ∧ s.phases true = savedOf true
        ∧ s.phases false = .returned (.error (.fileRevisionConflict [] [1])) :=
    Run.exists_of_run (by decide +kernel)
  have honly : ∀ j, renames j ∈ oneAfterAnother → j = true := by decide +kernel
  have hund : Undisturbed oneAfterAnother := by
    intro i before mid after heq j hj hmem
    have hi := honly i (by simp [heq])
    have hj' := honly j (by simp [heq, hmem])
    exact hj (hj'.trans hi.symm)
  have hsaved : Saved twoSaves s true := ⟨rfl, _, hfirst⟩
  have hlast := (contending_saves_conflict twoSaves_contend twoSaves_change
    (show emptyNotes notes = some (.file []) from rfl) hrun hund).2.1 true hsaved
  exact ⟨s, hrun, hsaved, hsecond, hlast⟩

theorem both_saves_succeed :
    Contend twoSaves notes [] ∧ Changes id twoSaves
      ∧ ∃ s, Run (step id twoSaves) Free (State.initial emptyNotes) bothRead s
        ∧ Saved twoSaves s true ∧ Saved twoSaves s false
        ∧ s.files notes = some (.file (twoSaves true).content) := by
  obtain ⟨s, hrun, hfirst, hsecond, hfile⟩ :
      ∃ s, Run (step id twoSaves) Free (State.initial emptyNotes) bothRead s
        ∧ s.phases true = savedOf true ∧ s.phases false = savedOf false
        ∧ s.files notes = some (.file (twoSaves true).content) :=
    Run.exists_of_run (by decide +kernel)
  exact ⟨twoSaves_contend, twoSaves_change, s, hrun, ⟨rfl, _, hfirst⟩, ⟨rfl, _, hsecond⟩, hfile⟩

-- ==== any saves

/-- The content is where it was, or a whole one of a save to that place,
which was free if the save has a destination of its own. -/
def Whole (requests : ι → SaveRequest ρ) (files files' : Location → Option Node) : Prop :=
  ∀ location, files' location = files location ∨ ∃ i, (requests i).saveLocation = location
    ∧ files' location = some (.file (requests i).content)
    ∧ ((requests i).destination ≠ none → files location = none)

/-- The bytes that a save is about to put in place are its content. -/
def Staged (request : SaveRequest ρ) (temporary : Option Bytes) : Phase ρ → Prop
  | .written _ | .preserved _ => temporary = some request.content
  | _ => True

omit [DecidableEq ι] [DecidableEq ρ] in
theorem Whole.put (h : Whole requests files s.files)
    (hstaged : s.temporaries i = some (requests i).content)
    (hfree : (requests i).destination ≠ none → s.files (requests i).saveLocation = none) :
    Whole requests files (update s.files (requests i).saveLocation
      ((s.temporaries i).map Node.file)) := by
  intro location
  by_cases hlocation : location = (requests i).saveLocation
  · subst hlocation
    rw [update_self, hstaged]
    refine .inr ⟨i, rfl, rfl, fun hdestination => ?_⟩
    rcases h (requests i).saveLocation with hsame | ⟨j, -, hput, -⟩
    · exact hsame ▸ hfree hdestination
    · rw [hfree hdestination] at hput
      cases hput
  · rw [update_of_ne hlocation]
    exact h location

/-- However many saves interleave and their calls fail, every file is as
it was or has the whole content of one save, and a save to a destination
of its own has replaced nothing. -/
theorem saves_store_whole_contents
    (hrun : Run (step contentRevision requests) Free (initial files) acts s) :
    Whole requests files s.files := by
  have hinv : Whole requests files s.files
      ∧ ∀ i, Staged (requests i) (s.temporaries i) (s.phases i) := by
    refine hrun.invariant (P := fun s => Whole requests files s.files
      ∧ ∀ i, Staged (requests i) (s.temporaries i) (s.phases i))
      ?_ ?_
    · exact ⟨fun _ => .inl rfl, fun _ => trivial⟩
    intro s s' a _ hstep ⟨hwhole, hstaged⟩
    have hapart := apart_of_step hstep
    have hothers : Staged (requests a.save) (s'.temporaries a.save) (s'.phases a.save) →
        ∀ i, Staged (requests i) (s'.temporaries i) (s'.phases i) := by
      intro hown i
      by_cases hi : i = a.save
      · exact hi ▸ hown
      · rw [hapart.phases i hi, hapart.temporaries i hi]
        exact hstaged i
    have hbefore := hstaged a.save
    cases steps_of_step hstep with
    | moves _ hfiles hmoves =>
      refine ⟨hfiles ▸ hwhole, hothers ?_⟩
      generalize s.phases a.save = phase at hmoves hbefore
      generalize s'.phases a.save = phase' at hmoves
      cases hmoves with
      | written conflicted h => exact h
      | preserved conflicted h => exact h.trans hbefore
      | _ => trivial
    | renames conflicted _ hdestination hphase hafter hfiles =>
      rw [hphase] at hbefore
      refine ⟨hfiles ▸ hwhole.put hbefore fun h => absurd hdestination h, hothers ?_⟩
      rw [hafter]
      trivial
    | links conflicted _ hdestination hphase hafter hfree hfiles =>
      rw [hphase] at hbefore
      refine ⟨hfiles ▸ hwhole.put hbefore fun _ => hfree, hothers ?_⟩
      rw [hafter]
      trivial
  exact hinv.1

/-- Two saves that both go through leave the content of the second. -/
theorem second_content_whole :
    ∃ s, Run (step id twoSaves) Free (initial emptyNotes) bothRead s
      ∧ s.files notes = some (.file (twoSaves true).content) ∧ Whole twoSaves emptyNotes s.files := by
  obtain ⟨s, hrun, hfile⟩ : ∃ s, Run (step id twoSaves) Free (initial emptyNotes) bothRead s
      ∧ s.files notes = some (.file (twoSaves true).content) :=
    Run.exists_of_run (by decide +kernel)
  exact ⟨s, hrun, hfile, saves_store_whole_contents hrun⟩

end FileManager.Editor
