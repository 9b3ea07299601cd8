/-
What a save that fails leaves behind.

A save is alone here, and a call of its provider may fail. Until the
commit nothing but the temporary is touched, and a write that fails
discards it. The system calls of the commit have no such exit: whichever
of them fails, the temporary stays or the content is there.
-/
import FileManager.Editor.Proofs.Conflicts

namespace FileManager.Editor

open Machine (Run Free)
open State

variable {ρ : Type} {contentRevision : Bytes → ρ} {request : SaveRequest ρ}
  {files : Location → Option Node} {s s' : State Unit ρ} {a : Action Unit}

/-- What a save has done to the files by a phase, and what temporary it
has. -/
def Left (request : SaveRequest ρ) (files files' : Location → Option Node)
    (temporary : Option Bytes) : Phase ρ → Prop
  | .resolved | .inspected | .sized | .opened _ | .checked _ => files' = files ∧ temporary = none
  | .created _ | .discarding _ => files' = files ∧ temporary ≠ none
  | .written _ | .preserved _ => files' = files ∧ temporary = some request.content
  | .linked _ =>
    files' = Function.update files request.saveLocation (some (.file request.content))
      ∧ temporary ≠ none
  | .committed _ =>
    files' = Function.update files request.saveLocation (some (.file request.content))
      ∧ temporary = none
  | .returned _ => True

/-- Nothing has changed, and there is no temporary. -/
def Clean (files : Location → Option Node) (s : State Unit ρ) : Prop :=
  s.files = files ∧ s.temporaries () = none

/-- The call with which a save fails is none of the commit, or the last
look at a file that had the content already. -/
def Spares (request : SaveRequest ρ) (files : Location → Option Node) : Call → Prop
  | .preserveMetadata | .rename | .hardLink | .removeTemporary => False
  | .symlinkMetadata => files request.saveLocation = some (.file request.content)
  | _ => True

/-- What a save has left when it fails. -/
def Fails (request : SaveRequest ρ) (files : Location → Option Node) (call : Call)
    (s : State Unit ρ) : Prop :=
  ∀ error, s.phases () = .returned (.error error) → (Clean files s ↔ Spares request files call)

theorem left_proceed {outcome : Except (SaveError ρ) (Phase ρ)} {call : Call}
    (hspares : Spares request files call) (hclean : Clean files s)
    (h : ∀ phase, outcome = .ok phase → Left request files s.files (s.temporaries ()) phase
      ∧ ∀ error, phase ≠ .returned (.error error)) :
    Left request files (s.proceed () outcome).files ((s.proceed () outcome).temporaries ())
        ((s.proceed () outcome).phases ()) ∧ Fails request files call (s.proceed () outcome) := by
  cases outcome with
  | ok phase =>
    have hphase : (s.proceed () (.ok phase)).phases () = phase := by simp [proceed]
    obtain ⟨hleft, hlives⟩ := h phase rfl
    rw [hphase]
    exact ⟨hleft, fun error herror => absurd (hphase ▸ herror) (hlives error)⟩
  | error error =>
    have hphase : (s.proceed () (.error error)).phases () = .returned (.error error) := by
      simp [proceed]
    rw [hphase]
    exact ⟨trivial, fun _ _ => iff_of_true hclean hspares⟩

variable [DecidableEq ρ]

theorem left_step (hdiscard : a.call = .discardCopy → a.fault = none)
    (hleft : Left request files s.files (s.temporaries ()) (s.phases ()))
    (h : step contentRevision (fun _ => request) a s = some s') :
    Left request files s'.files (s'.temporaries ()) (s'.phases ())
      ∧ Fails request files a.call s' := by
  obtain ⟨save, call, fault⟩ := a
  cases fault with
  | none =>
    simp only [step] at h
    unfold perform at h
    split at h
    case h_1 hphase =>
      cases h
      rw [hphase] at hleft
      refine left_proceed trivial hleft fun phase hphase => ?_
      rw [inspect_ok hphase]
      exact ⟨hleft, nofun⟩
    case h_2 hphase =>
      cases h
      rw [hphase] at hleft
      refine left_proceed trivial hleft fun phase hphase => ?_
      rw [fileSize_ok hphase]
      exact ⟨hleft, nofun⟩
    case h_3 hphase =>
      cases h
      rw [hphase] at hleft
      refine left_proceed trivial hleft fun phase hphase => ?_
      obtain ⟨existing, rfl, -⟩ := openRead_ok hphase
      exact ⟨hleft, nofun⟩
    case h_4 existing hphase =>
      cases h
      rw [hphase] at hleft
      refine left_proceed trivial hleft fun phase hphase => ?_
      obtain ⟨conflicted, rfl, -⟩ := check_ok hphase
      exact ⟨hleft, nofun⟩
    case h_5 conflicted hphase | h_6 conflicted hphase | h_11 conflicted hphase =>
      cases h
      rw [hphase] at hleft
      simp [Left, Fails, hleft.1]
    case h_7 error hphase =>
      cases h
      rw [hphase] at hleft
      simp [Left, Fails, Clean, Spares, hleft.1]
    case h_8 conflicted hphase =>
      cases h
      rw [hphase] at hleft
      simp [Left, Fails, hleft.1, hleft.2]
    case h_9 conflicted hphase =>
      rw [hphase] at hleft
      split at h
      case isTrue =>
        cases h
        simp [Left, Fails, hleft.1, hleft.2]
      case isFalse => cases h
    case h_10 conflicted hphase =>
      rw [hphase] at hleft
      split at h
      case isTrue => cases h
      case isFalse =>
        split at h
        case isTrue =>
          cases h
          simp [Left, Fails, hleft.1, hleft.2]
        case isFalse =>
          cases h
          simp [Left, Fails, Clean, Spares, hleft.2]
    case h_12 conflicted hphase =>
      cases h
      simp [Left, Fails]
    case h_13 => cases h
  | some fault =>
    simp only [step] at h
    unfold refuse at h
    split at h
    case h_1 conflicted hphase =>
      cases h
      rw [hphase] at hleft
      simp [Left, Fails, hleft.1]
    case h_2 error hphase => exact absurd (hdiscard rfl) (by simp)
    case h_3 hphase | h_4 hphase | h_5 hphase | h_6 _ hphase | h_7 _ hphase =>
      cases h
      rw [hphase] at hleft
      simp [Left, Fails, Clean, Spares, hleft.1, hleft.2]
    case h_8 _ hphase | h_9 _ hphase | h_10 _ hphase | h_11 _ hphase =>
      cases h
      rw [hphase] at hleft
      simp [Left, Fails, Clean, Spares, hleft.2]
    case h_12 conflicted hphase =>
      cases h
      rw [hphase] at hleft
      simp [Left, Fails, Clean, Spares, hleft.1, hleft.2, eq_comm]
    case h_13 => cases h

theorem left_run {acts : List (Action Unit)}
    (hdiscard : ∀ a ∈ acts, a.call = .discardCopy → a.fault = none)
    (hrun : Run (step contentRevision fun _ => request) Free (initial files) acts s) :
    Left request files s.files (s.temporaries ()) (s.phases ()) := by
  induction hrun with
  | start => exact ⟨rfl, rfl⟩
  | snoc a _ _ hstep ih =>
    refine (left_step (hdiscard a (by simp)) (ih fun b hb => ?_) hstep).1
    exact hdiscard b (List.mem_append_left _ hb)

/-- A save that returns an error has changed no file and left no
temporary exactly if the call that it failed with is none of the
commit's, or found in the end the content that was there before. -/
theorem failed_save_leaves_nothing_iff {acts : List (Action Unit)} {error : SaveError ρ}
    (hrun : Run (step contentRevision fun _ => request) Free (initial files) (acts ++ [a]) s)
    (hdiscard : ∀ b ∈ acts ++ [a], b.call = .discardCopy → b.fault = none)
    (herror : s.phases () = .returned (.error error)) :
    Clean files s ↔ Spares request files a.call := by
  generalize hacts : acts ++ [a] = all at hrun
  cases hrun with
  | start => simp at hacts
  | snoc b hbefore _ hstep =>
    obtain ⟨rfl, hab⟩ := List.append_inj' hacts rfl
    cases hab
    have hleft := left_run (fun c hc => hdiscard c (List.mem_append_left _ hc)) hbefore
    exact (left_step (hdiscard a (by simp)) hleft hstep).2 error herror

/-- A save of other notes over the notes that are there. -/
def overNotes : SaveRequest Bytes where
  location := notes
  destination := some notes
  content := [1]
  expectedRevision := []
  overwriteConflict := false

def savingCalls (calls : List Call) : List (Action Unit) := calls.map fun call => ⟨(), call, none⟩

theorem failed_write_leaves_nothing :
    ∃ s, Run (step id fun _ => overNotes) Free (initial emptyNotes)
        ((savingCalls (readingCalls ++ [.openWrite]) ++ [⟨(), .write, some ⟨.cancelled, 0⟩⟩])
          ++ [⟨(), .discardCopy, none⟩]) s ∧ Clean emptyNotes s := by
  obtain ⟨s, hrun, hphase⟩ :
      ∃ s, Run (step id fun _ => overNotes) Free (initial emptyNotes)
          ((savingCalls (readingCalls ++ [.openWrite]) ++ [⟨(), .write, some ⟨.cancelled, 0⟩⟩])
            ++ [⟨(), .discardCopy, none⟩]) s
        ∧ s.phases () = .returned (.error (.provider .cancelled)) :=
    Run.exists_of_run (by decide +kernel)
  exact ⟨s, hrun, (failed_save_leaves_nothing_iff hrun (by decide) hphase).mpr trivial⟩

/-- Nothing goes wrong but that the name is taken, and the temporary
stays. -/
theorem taken_name_leaves_temporary :
    ∃ s, Run (step id fun _ => overNotes) Free (initial emptyNotes)
        (savingCalls (readingCalls ++ [.openWrite, .write, .preserveMetadata, .hardLink])) s
      ∧ s.phases () = .returned (.error (.provider (.alreadyExists notes)))
      ∧ s.temporaries () = some [1] :=
  Run.exists_of_run (by decide +kernel)

end FileManager.Editor
