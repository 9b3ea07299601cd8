/-
What the retries of `with_sftp` tell the caller.

A request whose reply is lost is sent again, and refused if it took
effect the first time. So a call tells the truth exactly if no attempt is
refused once a request of the call has taken effect.

# The argument

A call with one change either ends before it or comes down to one
`with_sftp` (`Begins`). A call with many is put together from parts that
tell only by a refusal (`Honest`), and, where it succeeds, does what it
does without failures (`Mirrors`).
-/
import FileManager.Locations.Proofs.Paths
import FileManager.Remote.Proofs.Attempts
import FileManager.Lib.Keyed

namespace FileManager.Sftp

open Dialogue (Attempt)
open Dialogue.Attempt
open World (initial)
open Parsed (parse)
open Bool (false_eq_true)

variable {σ : Type} {server : Server σ} {scripts : Nat → Script} {fired : Bool} {w w' : World σ}
  {request : Request} {connectionId : List Char}

-- ==== calls with one change

/-- What a look tells, if one of its attempts is answered. -/
noncomputable def look {α : Type} (script : Script) (result : Except Status α) : Option α := by
  classical exact if script.Answers then result.toOption else none

/-- The request of a call that changes the server, and the number of its
call to `with_sftp`; none where the call ends before. -/
noncomputable def Call.change (isUuid : List Char → Bool) (server : Server σ)
    (scripts : Nat → Script) (tree : σ) : Call → Option (Request × Nat)
  | .createDirectory location name => do
    let child ← (location.join isUuid name).toOption
    let p ← (parse child).toOption
    some (.createDir p.remotePath, 0)
  | .rename source destination => do
    let a ← (parse source).toOption
    let b ← (parse destination).toOption
    if a.connectionId = b.connectionId then some (.rename a.remotePath b.remotePath, 0) else none
  | .remove location options =>
    if options.useTrash then none
    else do
      let p ← (parse location).toOption
      let isDir ← look (scripts 0) (server.perform (.symlinkMetadata p.remotePath) tree).1
      some (if isDir then (.removeDir p.remotePath, 1) else (.removeFile p.remotePath, 1))
  | .openWrite destination => do
    let p ← (parse destination).toOption
    some (.openWrite p.remotePath false, 0)
  | .commitCopy temporary destination _ => do
    let a ← (parse temporary).toOption
    let b ← (parse destination).toOption
    if a.connectionId = b.connectionId then do
      let found ← look (scripts 0) (server.perform (.tryExists b.remotePath) tree).1
      if found then none else some (.rename a.remotePath b.remotePath, 1)
    else none

/-- The calls that make one change at most. -/
def Call.single : Call → Prop
  | .remove _ options => options.recursive = false
  | .commitCopy _ _ overwrite => overwrite = false
  | _ => True

/-- Nothing has taken effect between two worlds. -/
structure Idle (w w' : World σ) : Prop where
  tree : w'.tree = w.tree
  changes : w'.changes = w.changes

theorem Same.idle (h : Same w.called w') : Idle w w' := ⟨h.tree, h.changes⟩

theorem Idle.trans {w₁ w₂ w₃ : World σ} (h : Idle w₁ w₂) (h' : Idle w₂ w₃) : Idle w₁ w₃ :=
  ⟨h'.tree.trans h.tree, h'.changes.trans h.changes⟩

/-- A program ends before it changes anything, or comes to send one
request that changes the server. -/
inductive Begins {α : Type} (server : Server σ) (scripts : Nat → Script) (fired : Bool)
    (x : Op α) (w : World σ) : Option (Request × Nat) → Prop
  | ends {failure : Failure} {w' : World σ}
      (hrun : Attempt.run (answer server scripts fired) x w = (.error failure, w'))
      (hidle : Idle w w') : Begins server scripts fired x w none
  | sends (connectionId : List Char) {request : Request} {w₁ : World σ}
      (hexclusive : request.exclusive = true) (hidle : Idle w w₁)
      (hok : ∀ reply w', Attempt.run (answer server scripts fired)
          (withSftp connectionId request) w₁ = (.ok reply, w') →
        ∃ a, Attempt.run (answer server scripts fired) x w = (.ok a, w'))
      (herror : ∀ failure w', Attempt.run (answer server scripts fired)
          (withSftp connectionId request) w₁ = (.error failure, w') →
        Attempt.run (answer server scripts fired) x w = (.error failure, w')) :
      Begins server scripts fired x w (some (request, w₁.calls))

section Begins

variable {α β : Type} {change : Option (Request × Nat)} {location : Locations.Location} {x : Op α}
  {w₁ : World σ}

theorem begins_withSftp (hexclusive : request.exclusive = true) :
    Begins server scripts fired (withSftp connectionId request) w (some (request, w.calls)) :=
  .sends connectionId hexclusive ⟨rfl, rfl⟩ (fun reply _ h => ⟨reply, h⟩) (fun _ _ h => h)

theorem Begins.map (h : Begins server scripts fired x w change) (f : α → β) :
    Begins server scripts fired (x >>= fun a => pure (f a)) w change := by
  cases h with
  | ends hrun hidle => exact .ends (run_bind_error _ hrun) hidle
  | sends id hexclusive hidle hok herror =>
    refine .sends id hexclusive hidle (fun reply w' hrun => ?_) (fun failure w' hrun => ?_)
    · obtain ⟨a, ha⟩ := hok reply w' hrun
      exact ⟨f a, run_bind_ok _ ha⟩
    · exact run_bind_error _ (herror failure w' hrun)

variable {f : α → Op β}

theorem Begins.after {a : α} (hrun : Attempt.run (answer server scripts fired) x w = (.ok a, w₁))
    (hidle : Idle w w₁) (h : Begins server scripts fired (f a) w₁ change) :
    Begins server scripts fired (x >>= f) w change := by
  have hbind := run_bind_ok (answer server scripts fired) (f := f) hrun
  cases h with
  | ends hrun' hidle' => exact .ends (hbind.trans hrun') (hidle.trans hidle')
  | sends id hexclusive hidle' hok herror =>
    refine .sends id hexclusive (hidle.trans hidle') (fun reply w' hrun' => ?_)
      (fun failure w' hrun' => ?_)
    · obtain ⟨b, hb⟩ := hok reply w' hrun'
      exact ⟨b, hbind.trans hb⟩
    · exact hbind.trans (herror failure w' hrun')

theorem begins_of_error {failure : Failure}
    (hrun : Attempt.run (answer server scripts fired) x w = (.error failure, w₁))
    (hidle : Idle w w₁) : Begins server scripts fired (x >>= f) w none :=
  .ends (run_bind_error _ hrun) hidle

variable {f : Unit → Op β}

theorem begins_checkCancelled (h : fired = false → Begins server scripts fired (f ()) w change) :
    Begins server scripts fired (checkCancelled >>= f) w (if fired then none else change) := by
  cases fired with
  | true =>
    have hrun : Attempt.run (answer server scripts true) checkCancelled w
        = (.error (.vfs .cancelled), w) := rfl
    exact begins_of_error hrun ⟨rfl, rfl⟩
  | false =>
    have hrun : Attempt.run (answer server scripts false) checkCancelled w = (.ok (), w) := rfl
    exact .after hrun ⟨rfl, rfl⟩ (h rfl)

theorem begins_parsed {f : Parsed → Op β} {change : Parsed → Option (Request × Nat)}
    (h : ∀ p, parse location = .ok p → Begins server scripts fired (f p) w (change p)) :
    Begins server scripts fired (parsed location >>= f) w
      ((parse location).toOption.bind change) := by
  cases hparse : parse location with
  | error error =>
    have hrun : Attempt.run (answer server scripts fired) (parsed location) w
        = (.error (.vfs error), w) := by
      rw [parsed, hparse]
      rfl
    exact begins_of_error hrun ⟨rfl, rfl⟩
  | ok p =>
    have hrun : Attempt.run (answer server scripts fired) (parsed location) w = (.ok p, w) := by
      rw [parsed, hparse]
      rfl
    exact .after hrun ⟨rfl, rfl⟩ (h p hparse)

theorem begins_look {f : request.Reply → Op β} {change : request.Reply → Option (Request × Nat)}
    (hlooks : request.changes = false) (h : ∀ reply w', Idle w w' → w'.calls = w.calls + 1 →
      Begins server scripts fired (f reply) w' (change reply)) :
    Begins server scripts fired (withSftp connectionId request >>= f) w
      ((look (scripts w.calls) (server.perform request w.tree).1).bind change) := by
  cases hresult : (server.perform request w.tree).1 with
  | error status =>
    obtain ⟨failure, w', hrun, hsame⟩ := run_withSftp_refused hresult
    rw [show look (scripts w.calls) (.error status : Except Status request.Reply) = none by
      simp [look, Except.toOption]]
    exact begins_of_error hrun hsame.idle
  | ok reply =>
    obtain ⟨result, w', hrun, hsame, hlooked⟩ := run_withSftp_looks hlooks hresult
    cases hlooked with
    | seen hanswers =>
      rw [look, if_pos hanswers]
      exact .after hrun hsame.idle (h reply w' hsame.idle hsame.calls)
    | unseen hnot =>
      rw [look, if_neg hnot]
      exact begins_of_error hrun hsame.idle

theorem begins_makeRoom {p : Parsed}
    (h : ∀ w', Idle w w' → w'.calls = w.calls + 1 → Begins server scripts fired (f ()) w' change) :
    Begins server scripts fired (makeRoom location p false >>= f) w
      ((look (scripts w.calls) (server.perform (.tryExists p.remotePath) w.tree).1).bind
        fun found => if found then none else change) := by
  have hlooks : (Request.tryExists p.remotePath).changes = false := rfl
  cases hresult : (server.perform (.tryExists p.remotePath) w.tree).1 with
  | error status =>
    obtain ⟨failure, w', hrun, hsame⟩ := run_withSftp_refused hresult
    rw [show look (scripts w.calls) (.error status : Except Status Bool) = none by
      simp [look, Except.toOption]]
    exact begins_of_error (run_bind_error _ hrun) hsame.idle
  | ok found =>
    obtain ⟨result, w', hrun, hsame, hlooked⟩ := run_withSftp_looks hlooks hresult
    cases hlooked with
    | unseen hnot =>
      rw [look, if_neg hnot]
      exact begins_of_error (run_bind_error _ hrun) hsame.idle
    | seen hanswers =>
      rw [look, if_pos hanswers]
      cases found with
      | true => exact begins_of_error (run_bind_ok _ hrun) hsame.idle
      | false => exact .after (run_bind_ok _ hrun) hsame.idle (h w' hsame.idle hsame.calls)

end Begins

theorem begins_program (isUuid : List Char → Bool) (fuel : Nat) (tree : σ) {call : Call}
    (hsingle : call.single) :
    Begins server scripts fired (call.program isUuid fuel) (initial tree)
      (if fired then none else call.change isUuid server scripts tree) := by
  cases call with
  | createDirectory location name =>
    refine Begins.map (begins_checkCancelled fun _ => ?_) fun _ => some ()
    show Begins server scripts fired _ _ ((location.join isUuid name).toOption.bind _)
    cases location.join isUuid name with
    | error error => exact .ends rfl ⟨rfl, rfl⟩
    | ok child => exact begins_parsed fun p _ => (begins_withSftp rfl).map fun _ => child
  | rename source destination =>
    refine Begins.map (begins_checkCancelled fun _ => ?_) fun _ => some ()
    refine begins_parsed fun a _ => begins_parsed fun b _ => ?_
    by_cases hsame : a.connectionId = b.connectionId
    · rw [if_pos hsame]
      simp only [hsame, ne_eq, not_true_eq_false, if_false]
      exact (begins_withSftp rfl).map fun _ => destination
    · rw [if_neg hsame]
      simp only [hsame, ne_eq, not_false_eq_true, if_true]
      exact begins_of_error rfl ⟨rfl, rfl⟩
  | remove location options =>
    refine begins_checkCancelled fun _ => ?_
    have hrecursive : options.recursive = false := hsingle
    by_cases htrash : options.useTrash = true
    · simp only [Call.change, htrash, if_true]
      exact begins_of_error rfl ⟨rfl, rfl⟩
    · simp only [Call.change, htrash, false_eq_true, if_false]
      refine begins_parsed fun p _ => begins_look rfl fun isDir w' hidle hcalls => ?_
      have hone : w'.calls = 1 := hcalls
      cases isDir with
      | true =>
        simp only [if_true, hrecursive, false_eq_true, if_false, ← hone]
        exact (begins_withSftp rfl).map fun _ => some ()
      | false =>
        simp only [false_eq_true, if_false, ← hone]
        exact (begins_withSftp rfl).map fun _ => some ()
  | openWrite destination =>
    refine Begins.map (begins_checkCancelled fun _ => ?_) fun _ => some ()
    exact begins_parsed fun p _ => begins_withSftp rfl
  | commitCopy temporary destination overwrite =>
    obtain rfl : overwrite = false := hsingle
    refine Begins.map (begins_checkCancelled fun _ => ?_) fun _ => some ()
    refine begins_parsed fun a _ => begins_parsed fun b _ => ?_
    by_cases hsame : a.connectionId = b.connectionId
    · simp only [hsame, ne_eq, not_true_eq_false, if_false, if_true]
      refine begins_makeRoom fun w' hidle hcalls => ?_
      have hone : w'.calls = 1 := hcalls
      rw [← hone]
      exact (begins_withSftp rfl).map fun _ => destination
    · simp only [hsame, ne_eq, not_false_eq_true, if_true, if_false]
      exact begins_of_error rfl ⟨rfl, rfl⟩

-- ==== calls with many changes

/-- What a program tells, it tells by a refusal that ends it, and as long
as nothing took effect the server is as at the start. -/
structure Honest {α : Type} (server : Server σ) (scripts : Nat → Script) (fired : Bool)
    (C : Nat → List Request → Prop) (number : Nat) (tree : σ) (x : Op α) (w : World σ) : Prop where
  tells : Tells server scripts fired C number x w
  kept : (w.changes = [] → w.tree = tree) →
    (Attempt.run (answer server scripts fired) x w).2.changes = [] →
    (Attempt.run (answer server scripts fired) x w).2.tree = tree

open Honest

section Honest

variable {α β : Type} {C : Nat → List Request → Prop} {number : Nat} {tree : σ} {x : Op α}
  {f : α → Op β} {location : Locations.Location}

theorem honest_pure (a : α) : Honest server scripts fired C number tree (pure a : Op α) w :=
  ⟨iff_of_false id fun h => not_told_ok h.1, fun h hnil => h hnil⟩

theorem honest_throw (failure : Failure) (h : ¬ C number w.changes) :
    Honest server scripts fired C number tree (throw failure : Op α) w :=
  ⟨iff_of_false id fun h' => h h'.2, fun h hnil => h hnil⟩

theorem Honest.bind (hx : Honest server scripts fired C number tree x w)
    (hf : ∀ a w', Attempt.run (answer server scripts fired) x w = (.ok a, w') →
      Honest server scripts fired C number tree (f a) w') :
    Honest server scripts fired C number tree (x >>= f) w := by
  obtain ⟨htells, hkept⟩ := hx
  cases hrun : Attempt.run (answer server scripts fired) x w with
  | mk result w' =>
    unfold Tells at htells
    rw [hrun] at htells hkept
    cases result with
    | error failure =>
      have hbind := run_bind_error (answer server scripts fired) (f := f) hrun
      refine ⟨?_, fun h hnil => ?_⟩
      · unfold Tells
        rw [hbind, visits_bind_error _ hrun, htells, told_error_iff, told_error_iff]
      · rw [hbind] at hnil ⊢
        exact hkept h hnil
    | ok a =>
      have hbind := run_bind_ok (answer server scripts fired) (f := f) hrun
      have hnot : ¬ Attempt.Visits (answer server scripts fired) (EndsWith server scripts C) x w :=
        fun h => not_told_ok (htells.1 h).1
      obtain ⟨htells', hkept'⟩ := hf a w' hrun
      refine ⟨?_, fun h hnil => ?_⟩
      · unfold Tells at htells' ⊢
        rw [hbind, visits_bind_ok _ hrun, or_iff_right hnot, htells']
      · rw [hbind] at hnil ⊢
        exact hkept' (fun hnil' => hkept h hnil') hnil

theorem honest_withSftp (hkind : request.exclusive = true ∨ request.changes = false)
    (hC : ∀ changes, C number changes ↔ C (w.calls + 1) changes) :
    Honest server scripts fired C number tree (withSftp connectionId request) w := by
  refine ⟨?_, fun h hnil => kept_withSftp hkind h hnil⟩
  unfold Tells
  rw [hC]
  exact tells_withSftp

theorem honest_checkCancelled (h : ¬ C number w.changes) :
    Honest server scripts fired C number tree checkCancelled w := by
  have hvisits : ¬ Attempt.Visits (answer server scripts fired) (EndsWith server scripts C)
      checkCancelled w := by
    intro hv
    cases fired with
    | true | false => exact hv.elim (fun h => h.2) fun h => h.elim
  cases fired with
  | true | false => exact ⟨iff_of_false hvisits fun h' => h h'.2, fun h hnil => h hnil⟩

theorem honest_parsed (h : ¬ C number w.changes) :
    Honest server scripts fired C number tree (parsed location) w := by
  refine ⟨iff_of_false id fun h' => h ?_, fun h hnil => h hnil⟩
  exact h'.2

end Honest

/-- Something took effect. -/
def Changed (_ : Nat) (changes : List Request) : Prop := changes ≠ []

section Remove

variable {tree : σ}

theorem honest_removeEntries {remove : List Char → Op (Option Unit)}
    (hremove : ∀ path w, Honest server scripts fired Changed 0 tree (remove path) w)
    (remotePath : List Char) (entries : List DirEntry) (w : World σ) :
    Honest server scripts fired Changed 0 tree
      (removeEntries connectionId remove remotePath entries) w := by
  induction entries generalizing w with
  | nil => exact honest_pure _
  | cons entry rest ih =>
    unfold removeEntries
    by_cases hdir : entry.isDir = true
    · simp only [hdir, if_true]
      refine bind (hremove _ w) fun result w' _ => ?_
      cases result with
      | none => exact honest_pure _
      | some value => exact ih w'
    · simp only [hdir, false_eq_true, if_false]
      exact bind (honest_withSftp (.inl rfl) fun _ => Iff.rfl) fun _ w' _ => ih w'

theorem honest_removeDirectoryRecursive (fuel : Nat) (remotePath : List Char) (w : World σ) :
    Honest server scripts fired Changed 0 tree
      (removeDirectoryRecursive connectionId fuel remotePath) w := by
  induction fuel generalizing remotePath w with
  | zero => exact honest_pure _
  | succ fuel ih =>
    unfold removeDirectoryRecursive
    refine bind (honest_withSftp (.inr rfl) fun _ => Iff.rfl) fun entries w₁ _ => ?_
    refine bind (honest_removeEntries ih remotePath entries w₁) fun result w₂ _ => ?_
    cases result with
    | none => exact honest_pure _
    | some value =>
      exact bind (honest_withSftp (.inl rfl) fun _ => Iff.rfl) fun _ w₃ _ => honest_pure _

theorem honest_remove (fuel : Nat) (location : Locations.Location) {options : RemoveOptions}
    (hrecursive : options.recursive = true) :
    Honest server scripts fired Changed 0 tree (remove fuel location options) (initial tree) := by
  have hnil : ∀ {w : World σ}, w.changes = [] → ¬ Changed 0 w.changes := fun h h' => h' h
  refine bind (honest_checkCancelled (hnil rfl)) fun _ w₁ hcheck => ?_
  obtain rfl : initial tree = w₁ := by
    cases fired with
    | true => cases hcheck
    | false => exact (Prod.mk.inj hcheck).2
  by_cases htrash : options.useTrash = true
  · simp only [htrash, if_true]
    exact bind (honest_throw _ (hnil rfl)) fun _ _ h => by cases h
  · simp only [htrash, false_eq_true, if_false]
    refine bind (honest_parsed (hnil rfl)) fun p w₂ _ => ?_
    refine bind (honest_withSftp (.inr rfl) fun _ => Iff.rfl) fun isDir w₃ _ => ?_
    cases isDir with
    | true =>
      simp only [hrecursive, if_true]
      exact honest_removeDirectoryRecursive fuel _ w₃
    | false =>
      exact bind (honest_withSftp (.inl rfl) fun _ => Iff.rfl) fun _ w₃ _ => honest_pure _

end Remove

-- ==== a transport without failures

/-- What the program does where it succeeds, it does on a transport
without failures. -/
def Mirrors {α : Type} (server : Server σ) (scripts : Nat → Script) (x : Op α) : Prop :=
  ∀ (w p w' : World σ) (a : α), Same w p →
    Attempt.run (answer server scripts false) x w = (.ok a, w') →
    ∃ p', Attempt.run (answer server (fun _ => .plain) false) x p = (.ok a, p') ∧ Same w' p'

section Mirrors

variable {α β : Type} {x : Op α} {f : α → Op β} {location : Locations.Location}

theorem mirrors_pure (a : α) : Mirrors server scripts (pure a : Op α) := by
  intro w p w' b hsame hrun
  cases hrun
  exact ⟨p, rfl, hsame⟩

theorem mirrors_throw_bind (failure : Failure) :
    Mirrors server scripts ((throw failure : Op α) >>= f) := by
  intro w p w' b hsame hrun
  cases hrun

theorem Mirrors.bind (hx : Mirrors server scripts x) (hf : ∀ a, Mirrors server scripts (f a)) :
    Mirrors server scripts (x >>= f) := by
  intro w p w' b hsame hrun
  obtain ⟨a, w₁, hrun₁, hrun₂⟩ := of_run_bind_ok _ hrun
  obtain ⟨p₁, hp₁, hsame₁⟩ := hx _ _ _ _ hsame hrun₁
  obtain ⟨p₂, hp₂, hsame₂⟩ := hf a _ _ _ _ hsame₁ hrun₂
  exact ⟨p₂, (run_bind_ok _ hp₁).trans hp₂, hsame₂⟩

theorem mirrors_checkCancelled : Mirrors server scripts checkCancelled := by
  intro w p w' b hsame hrun
  cases hrun
  exact ⟨p, rfl, hsame⟩

theorem mirrors_parsed : Mirrors server scripts (parsed location) := by
  intro w p w' b hsame hrun
  obtain ⟨hparse, rfl⟩ := Prod.mk.inj hrun
  exact ⟨p, Prod.ext hparse rfl, hsame⟩

theorem mirrors_withSftp (hkind : request.exclusive = true ∨ request.changes = false) :
    Mirrors server scripts (withSftp connectionId request) := by
  intro w p w' reply hsame hrun
  obtain ⟨hresult, hdone⟩ := done_of_withSftp_ok hkind hrun
  have hresult' : (server.perform request (p.resolved fun _ => .plain).tree).1 = .ok reply := by
    rw [← hresult]
    exact congrArg (fun tree => (server.perform request tree).1) hsame.tree
  refine ⟨(p.resolved fun _ => .plain).perform server request, ?_, ?_⟩
  · rw [run_withSftp_acquired rfl rfl]
    exact run_operate_answered rfl hresult'
  · have hcalled : Same w.called (p.resolved fun _ => .plain) :=
      ⟨hsame.tree, hsame.changes, congrArg (· + 1) hsame.calls⟩
    have hback : Same w' (w.called.perform server request) :=
      ⟨hdone.tree.symm, hdone.changes.symm, hdone.calls.symm⟩
    exact hback.trans hcalled.perform

theorem mirrors_removeEntries {remove : List Char → Op (Option Unit)}
    (hremove : ∀ path, Mirrors server scripts (remove path)) (remotePath : List Char)
    (entries : List DirEntry) :
    Mirrors server scripts (removeEntries connectionId remove remotePath entries) := by
  induction entries with
  | nil => exact mirrors_pure _
  | cons entry rest ih =>
    unfold removeEntries
    by_cases hdir : entry.isDir = true
    · simp only [hdir, if_true]
      refine Mirrors.bind (hremove _) fun result => ?_
      cases result with
      | none => exact mirrors_pure _
      | some value => exact ih
    · simp only [hdir, false_eq_true, if_false]
      exact Mirrors.bind (mirrors_withSftp (.inl rfl)) fun _ => ih

theorem mirrors_removeDirectoryRecursive (fuel : Nat) (remotePath : List Char) :
    Mirrors server scripts (removeDirectoryRecursive connectionId fuel remotePath) := by
  induction fuel generalizing remotePath with
  | zero => exact mirrors_pure _
  | succ fuel ih =>
    unfold removeDirectoryRecursive
    refine Mirrors.bind (mirrors_withSftp (.inr rfl)) fun entries => ?_
    refine Mirrors.bind (mirrors_removeEntries ih remotePath entries) fun result => ?_
    cases result with
    | none => exact mirrors_pure _
    | some value => exact Mirrors.bind (mirrors_withSftp (.inl rfl)) fun _ => mirrors_pure _

theorem mirrors_remove (fuel : Nat) (location : Locations.Location) (options : RemoveOptions) :
    Mirrors server scripts (remove fuel location options) := by
  refine Mirrors.bind mirrors_checkCancelled fun _ => ?_
  by_cases htrash : options.useTrash = true
  · simp only [htrash, if_true]
    exact mirrors_throw_bind _
  · simp only [htrash, false_eq_true, if_false]
    refine Mirrors.bind mirrors_parsed fun p => ?_
    refine Mirrors.bind (mirrors_withSftp (.inr rfl)) fun isDir => ?_
    cases isDir with
    | true =>
      by_cases hrecursive : options.recursive = true
      · simp only [hrecursive, if_true]
        exact mirrors_removeDirectoryRecursive fuel _
      · simp only [hrecursive, if_true, false_eq_true, if_false]
        exact Mirrors.bind (mirrors_withSftp (.inl rfl)) fun _ => mirrors_pure _
    | false => exact Mirrors.bind (mirrors_withSftp (.inl rfl)) fun _ => mirrors_pure _

end Mirrors

-- ==== overwriting commits

/-- Something took effect before the second call to `with_sftp`: the
first is for the destination that is in the way, whatever it returns. -/
def ChangedLate (number : Nat) (changes : List Request) : Prop := changes ≠ [] ∧ 2 ≤ number

section Overwrite

variable {tree : σ} {location : Locations.Location} {p : Parsed}

theorem run_makeRoom_overwrite :
    ∃ w', Attempt.run (answer server scripts fired) (makeRoom location p true) w = (.ok (), w')
      ∧ w'.calls = w.calls + 1
      ∧ (w'.changes = w.changes ∨ w'.changes = w.changes ++ [.removeFile p.remotePath]) := by
  have hrun : ∀ {result : Except Failure Unit} {w' : World σ},
      Attempt.run (answer server scripts fired)
        (withSftp p.connectionId (.removeFile p.remotePath)) w = (result, w') →
      Attempt.run (answer server scripts fired) (makeRoom location p true) w = (.ok (), w') := by
    intro result w' h
    have hcaught := run_caught (answer server scripts fired)
      (withSftp p.connectionId (.removeFile p.remotePath)) w
    rw [h] at hcaught
    exact run_bind_ok _ hcaught
  cases hresult : (server.perform (.removeFile p.remotePath) w.tree).1 with
  | error status =>
    obtain ⟨failure, w', hrefused, hsame⟩ := run_withSftp_refused hresult
    exact ⟨w', hrun hrefused, hsame.calls, .inl hsame.changes⟩
  | ok reply =>
    obtain ⟨result, w', htaken, houtcome⟩ := run_withSftp_taken rfl hresult
    have hchanges : (w.called.perform server (.removeFile p.remotePath)).changes
        = w.changes ++ [.removeFile p.remotePath] := perform_taken hresult rfl
    cases houtcome with
    | untouched hsame _ => exact ⟨w', hrun htaken, hsame.calls, .inl hsame.changes⟩
    | done hsame _ | behind hsame _ =>
      exact ⟨w', hrun htaken, hsame.calls, .inr (hsame.changes.trans hchanges)⟩

theorem honest_makeRoom_overwrite (hcalls : w.calls = 0) :
    Honest server scripts fired ChangedLate 2 tree (makeRoom location p true) w := by
  obtain ⟨w', hrun, -, -⟩ := @run_makeRoom_overwrite σ server scripts fired w location p
  have hcaught := run_caught (answer server scripts fired)
    (withSftp p.connectionId (.removeFile p.remotePath)) w
  have hmake := run_bind_ok (answer server scripts fired)
    (f := fun _ => (pure () : Op Unit)) hcaught
  refine ⟨iff_of_false (fun h => ?_) fun h => ?_, fun h hnil => ?_⟩
  · have hvisits := ((visits_bind_ok _ hcaught).trans (or_iff_left id)).1 h
    have htold := (tells_withSftp.1 ((visits_caught _ _ _).1 hvisits)).2.2
    rw [hcalls] at htold
    omega
  · rw [hrun] at h
    exact not_told_ok h.1
  · have hafter : (Attempt.run (answer server scripts fired) (makeRoom location p true) w).2
        = (Attempt.run (answer server scripts fired)
          (withSftp p.connectionId (.removeFile p.remotePath)) w).2 := by
      rw [show Attempt.run (answer server scripts fired) (makeRoom location p true) w = _
        from hmake]
      rfl
    rw [hafter] at hnil ⊢
    exact kept_withSftp (.inl rfl) h hnil

theorem honest_commitCopy_overwrite (temporary destination : Locations.Location) :
    Honest server scripts fired ChangedLate 2 tree (commitCopy temporary destination true)
      (initial tree) := by
  have hnil : ∀ {w : World σ}, w.changes = [] → ¬ ChangedLate 2 w.changes := fun h h' => h'.1 h
  refine bind (honest_checkCancelled (hnil rfl)) fun _ w₁ hcheck => ?_
  obtain rfl : initial tree = w₁ := by
    cases fired with
    | true => cases hcheck
    | false => exact (Prod.mk.inj hcheck).2
  refine bind (honest_parsed (hnil rfl)) fun a w₂ ha => ?_
  obtain rfl : initial tree = w₂ := (Prod.mk.inj ha).2
  refine bind (honest_parsed (hnil rfl)) fun b w₃ hb => ?_
  obtain rfl : initial tree = w₃ := (Prod.mk.inj hb).2
  by_cases hsame : a.connectionId = b.connectionId
  · simp only [hsame, ne_eq, not_true_eq_false, if_false]
    refine bind (honest_makeRoom_overwrite rfl) fun _ w₄ hroom => ?_
    obtain ⟨w', hrun, hcalls, -⟩ :=
      @run_makeRoom_overwrite σ server scripts fired (initial tree) destination b
    rw [hrun] at hroom
    obtain rfl : w' = w₄ := (Prod.mk.inj hroom).2
    refine bind (honest_withSftp (.inl rfl) fun changes => ?_) fun _ w₅ _ => honest_pure _
    rw [hcalls]
    exact Iff.rfl
  · simp only [hsame, ne_eq, not_false_eq_true, if_true]
    exact bind (honest_throw _ (hnil rfl)) fun _ _ h => by cases h

theorem parse_of_mapError
    (h : (parse location).mapError Failure.vfs = .ok p) : parse location = .ok p := by
  cases hparse : parse location with
  | error error =>
    rw [hparse] at h
    cases h
  | ok q =>
    rw [hparse] at h
    cases h
    rfl

theorem changes_of_commitCopy_ok {temporary destination result : Locations.Location}
    {w' : World σ}
    (hrun : Attempt.run (answer server scripts fired) (commitCopy temporary destination true)
      (initial tree) = (.ok result, w')) :
    ∃ a b, parse temporary = .ok a ∧ parse destination = .ok b
      ∧ (w'.changes = [.rename a.remotePath b.remotePath]
        ∨ w'.changes = [.removeFile b.remotePath, .rename a.remotePath b.remotePath]) := by
  obtain ⟨_, w₁, hcheck, hrun⟩ := of_run_bind_ok _ hrun
  obtain rfl : initial tree = w₁ := by
    cases fired with
    | true => cases hcheck
    | false => exact (Prod.mk.inj hcheck).2
  obtain ⟨a, w₂, ha, hrun⟩ := of_run_bind_ok _ hrun
  obtain ⟨hparsed, rfl⟩ := Prod.mk.inj ha
  obtain ⟨b, w₃, hb, hrun⟩ := of_run_bind_ok _ hrun
  obtain ⟨hparsed', rfl⟩ := Prod.mk.inj hb
  refine ⟨a, b, parse_of_mapError hparsed, parse_of_mapError hparsed', ?_⟩
  by_cases hsame : a.connectionId = b.connectionId
  · simp only [hsame, ne_eq, not_true_eq_false, if_false] at hrun
    obtain ⟨_, w₄, hroom, hrun⟩ := of_run_bind_ok _ hrun
    obtain ⟨w', hmake, -, hchanges⟩ :=
      @run_makeRoom_overwrite σ server scripts fired (initial tree) destination b
    rw [hmake] at hroom
    obtain rfl : w' = w₄ := (Prod.mk.inj hroom).2
    obtain ⟨_, w₅, hrename, hrun⟩ := of_run_bind_ok _ hrun
    obtain rfl : w₅ = _ := (Prod.mk.inj hrun).2
    obtain ⟨hresult, hdone⟩ := done_of_withSftp_ok (.inl rfl) hrename
    have htaken : (w'.called.perform server (.rename a.remotePath b.remotePath)).changes
        = w'.changes ++ [.rename a.remotePath b.remotePath] := perform_taken hresult rfl
    rw [hdone.changes, htaken]
    rcases hchanges with hchanges | hchanges
    · exact .inl (by rw [hchanges]; rfl)
    · exact .inr (by rw [hchanges]; rfl)
  · simp only [hsame, ne_eq, not_false_eq_true, if_true] at hrun
    obtain ⟨_, w₄, hthrow, -⟩ := of_run_bind_ok _ hrun
    cases hthrow

end Overwrite

-- ==== transparency

section Calls

variable (isUuid : List Char → Bool) (fuel : Nat) (server : Server σ) (scripts : Nat → Script)
  (fired : Bool)

/-- What a call returns, and leaves. -/
def Call.run (call : Call) (tree : σ) : Except Failure (Option Unit) × World σ :=
  Attempt.run (answer server scripts fired) (call.program isUuid fuel) (initial tree)

/-- The effect of a call, once: its one request took effect once; a
directory is removed as it is without failures; a commit has renamed
once, and removed what was in the way once at most. -/
structure Call.Once (call : Call) (tree : σ) (w : World σ) : Prop where
  single : call.single → ∃ request number reply,
    call.change isUuid server scripts tree = some (request, number)
      ∧ (server.perform request tree).1 = .ok reply
      ∧ w.tree = (server.perform request tree).2 ∧ w.changes = [request]
  remove : ∀ location options, call = .remove location options →
    ∃ w', call.run isUuid fuel server (fun _ => .plain) false tree = (.ok (some ()), w')
      ∧ w.tree = w'.tree ∧ w.changes = w'.changes
  commit : ∀ temporary destination, call = .commitCopy temporary destination true →
    ∃ a b, parse temporary = .ok a ∧ parse destination = .ok b
      ∧ (w.changes = [.rename a.remotePath b.remotePath]
        ∨ w.changes = [.removeFile b.remotePath, .rename a.remotePath b.remotePath])

/-- A call that returns has had its effect once, and one that says
anything but that the transport failed has left the server as it was. -/
structure Call.Transparent (call : Call) (tree : σ) : Prop where
  once : (call.run isUuid fuel server scripts fired tree).1 = .ok (some ()) →
    call.Once isUuid fuel server scripts tree (call.run isUuid fuel server scripts fired tree).2
  unchanged : Told (call.run isUuid fuel server scripts fired tree).1 →
    (call.run isUuid fuel server scripts fired tree).2.tree = tree
      ∧ (call.run isUuid fuel server scripts fired tree).2.changes = []

/-- The condition of a call with many changes on what took effect before
a refusal. -/
def Call.late : Call → Nat → List Request → Prop
  | .commitCopy _ _ true => ChangedLate
  | _ => Changed

/-- The one request that takes effect is not sent again and answered
after its reply is lost; a call of many requests is not refused after one
of them took effect. -/
structure Call.Clear (call : Call) (tree : σ) : Prop where
  single : call.single → fired = false → ∀ request number reply,
    call.change isUuid server scripts tree = some (request, number) →
    (server.perform request tree).1 = .ok reply → (scripts number).Harmless
  many : ¬ call.single → ¬ Attempt.Visits (answer server scripts fired)
    (EndsWith server scripts call.late) (call.program isUuid fuel) (initial tree)

end Calls

section Transparency

variable {isUuid : List Char → Bool} {fuel number : Nat} {tree : σ} {call : Call} {w' : World σ}
  {failure : Failure}

theorem once_of_remove {location : Locations.Location} {options : RemoveOptions}
    (hok : (Call.run isUuid fuel server scripts fired (.remove location options) tree).1
      = .ok (some ())) :
    ∃ w', Call.run isUuid fuel server (fun _ => .plain) false (.remove location options) tree
        = (.ok (some ()), w')
      ∧ (Call.run isUuid fuel server scripts fired (.remove location options) tree).2.tree = w'.tree
      ∧ (Call.run isUuid fuel server scripts fired (.remove location options) tree).2.changes
        = w'.changes := by
  cases fired with
  | true => cases hok
  | false =>
    obtain ⟨w', hrun, hsame⟩ := mirrors_remove fuel location options _ _ _ _
      (.refl (initial tree)) (Prod.ext hok rfl)
    exact ⟨w', hrun, hsame.tree.symm, hsame.changes.symm⟩

theorem transparent_of_idle
    (hrun : call.run isUuid fuel server scripts fired tree = (.error failure, w'))
    (hidle : Idle (initial tree) w') : call.Transparent isUuid fuel server scripts fired tree := by
  refine ⟨fun hok => ?_, fun _ => ?_⟩
  · simp [hrun] at hok
  · rw [hrun]
    exact ⟨hidle.tree, hidle.changes⟩

theorem transparent_of_done (hsingle : call.single) {reply : request.Reply}
    {a : Option Unit} (hrun : call.run isUuid fuel server scripts fired tree = (.ok a, w'))
    (hchange : call.change isUuid server scripts tree = some (request, number))
    (hresult : (server.perform request tree).1 = .ok reply)
    (htree : w'.tree = (server.perform request tree).2) (hchanges : w'.changes = [request]) :
    call.Transparent isUuid fuel server scripts fired tree := by
  refine ⟨fun hok => ⟨fun _ => ?_, ?_, ?_⟩, fun htold => ?_⟩
  · rw [hrun]
    exact ⟨request, number, reply, hchange, hresult, htree, hchanges⟩
  · rintro location options rfl
    exact once_of_remove hok
  · rintro temporary destination rfl
    cases hsingle
  · rw [hrun] at htold
    exact absurd htold not_told_ok

theorem transparent_iff_of_behind
    (hrun : call.run isUuid fuel server scripts fired tree = (.error failure, w'))
    (hchanges : w'.changes = [request]) :
    call.Transparent isUuid fuel server scripts fired tree ↔ failure.Transport := by
  constructor
  · intro h
    by_contra hnot
    have hnil : (call.run isUuid fuel server scripts fired tree).2.changes = [] :=
      (h.unchanged (by rw [hrun]; exact told_error_iff.2 hnot)).2
    rw [hrun, hchanges] at hnil
    cases hnil
  · intro htransport
    refine ⟨fun hok => ?_, fun htold => ?_⟩
    · simp [hrun] at hok
    · rw [hrun] at htold
      exact absurd htransport (told_error_iff.1 htold)

theorem transparent_iff_single (hsingle : call.single) :
    call.Transparent isUuid fuel server scripts fired tree
      ↔ call.Clear isUuid fuel server scripts fired tree := by
  have hbegins : Begins server scripts fired (call.program isUuid fuel) (initial tree)
      (if fired then none else call.change isUuid server scripts tree) :=
    begins_program isUuid fuel tree hsingle
  have hclear : (fired = false → ∀ request number reply,
      call.change isUuid server scripts tree = some (request, number) →
      (server.perform request tree).1 = .ok reply → (scripts number).Harmless) →
      call.Clear isUuid fuel server scripts fired tree :=
    fun h => ⟨fun _ => h, fun h' => absurd hsingle h'⟩
  generalize hchange : (if fired then none else call.change isUuid server scripts tree) = change
    at hbegins
  cases hbegins with
  | ends hrun hidle =>
    refine iff_of_true (transparent_of_idle hrun hidle) (hclear ?_)
    intro hfired request number _ h _
    simp only [hfired, false_eq_true, if_false, h] at hchange
    cases hchange
  | @sends id request w₁ hexclusive hidle hok herror =>
    have hfired : fired = false := by
      cases fired with
      | true => cases hchange
      | false => rfl
    have hsent : call.change isUuid server scripts tree = some (request, w₁.calls) := by
      simpa only [hfired, false_eq_true, if_false] using hchange
    have htree : w₁.tree = tree := hidle.tree
    have hnil : w₁.changes = [] := hidle.changes
    have hclear' : call.Clear isUuid fuel server scripts fired tree
        ↔ ∀ reply, (server.perform request tree).1 = .ok reply → (scripts w₁.calls).Harmless := by
      refine ⟨fun h reply => h.single hsingle hfired request _ reply hsent, fun h => hclear ?_⟩
      intro _ other number reply hother
      obtain ⟨rfl, rfl⟩ : request = other ∧ w₁.calls = number := by
        simpa using hsent.symm.trans hother
      exact h reply
    rw [hclear']
    cases hresult : (server.perform request tree).1 with
    | error status =>
      obtain ⟨failure, w', hrefused, hsame⟩ := run_withSftp_refused (htree.symm ▸ hresult)
      refine iff_of_true (transparent_of_idle (herror failure w' hrefused)
        (hidle.trans hsame.idle)) fun reply h => ?_
      cases h
    | ok reply =>
      have hresult₁ : (server.perform request w₁.tree).1 = .ok reply := by rw [htree, hresult]
      obtain ⟨result, w', htaken, houtcome⟩ := run_withSftp_taken hexclusive hresult₁
      have hchanges : (w₁.called.perform server request).changes = w₁.changes ++ [request] :=
        perform_taken hresult₁ (changes_of_exclusive hexclusive)
      rw [hnil, List.nil_append] at hchanges
      cases houtcome with
      | done hsame h =>
        obtain ⟨a, hrun⟩ := hok reply w' htaken
        refine iff_of_true (transparent_of_done hsingle hrun hsent hresult ?_ ?_) fun _ _ => h
        · rw [hsame.tree, ← htree]
          rfl
        · rw [hsame.changes, hchanges]
      | @untouched failure w' hsame h =>
        exact iff_of_true (transparent_of_idle (herror failure w' htaken) (hidle.trans hsame.idle))
          fun _ _ => h
      | @behind failure w' hsame h =>
        rw [transparent_iff_of_behind (herror failure w' htaken) (hsame.changes.trans hchanges), h]
        exact ⟨fun h' _ _ => h', fun h' => h' reply rfl⟩

theorem transparent_iff_of_honest (hmany : ¬ call.single)
    (hlate : ∀ changes, call.late number changes ↔ changes ≠ [])
    (hhonest : Honest server scripts fired call.late number tree (call.program isUuid fuel)
      (initial tree))
    (honce : (call.run isUuid fuel server scripts fired tree).1 = .ok (some ()) →
      call.Once isUuid fuel server scripts tree
        (call.run isUuid fuel server scripts fired tree).2) :
    call.Transparent isUuid fuel server scripts fired tree
      ↔ call.Clear isUuid fuel server scripts fired tree := by
  have htells : Attempt.Visits (answer server scripts fired) (EndsWith server scripts call.late)
      (call.program isUuid fuel) (initial tree)
      ↔ Told (call.run isUuid fuel server scripts fired tree).1
        ∧ call.late number (call.run isUuid fuel server scripts fired tree).2.changes :=
    hhonest.tells
  constructor
  · intro h
    refine ⟨fun h' => absurd h' hmany, fun _ hvisits => ?_⟩
    obtain ⟨htold, hchanges⟩ := htells.1 hvisits
    exact (hlate _).1 hchanges (h.unchanged htold).2
  · intro h
    refine ⟨honce, fun htold => ?_⟩
    have hnil : (call.run isUuid fuel server scripts fired tree).2.changes = [] := by
      by_contra hchanges
      exact h.many hmany (htells.2 ⟨htold, (hlate _).2 hchanges⟩)
    exact ⟨hhonest.kept (fun _ => rfl) hnil, hnil⟩

theorem transparent_iff_many (hmany : ¬ call.single) :
    call.Transparent isUuid fuel server scripts fired tree
      ↔ call.Clear isUuid fuel server scripts fired tree := by
  cases call with
  | remove location options =>
    have hrecursive : options.recursive = true := by simpa [Call.single] using hmany
    have hhonest : Honest server scripts fired (Call.remove location options).late 0 tree
        ((Call.remove location options).program isUuid fuel) (initial tree) :=
      honest_remove fuel location hrecursive
    refine transparent_iff_of_honest hmany (fun _ => Iff.rfl) hhonest fun hok => ?_
    refine ⟨fun h => absurd h hmany, ?_, ?_⟩
    · rintro _ _ ⟨⟩
      exact once_of_remove hok
    · rintro _ _ ⟨⟩
  | commitCopy temporary destination overwrite =>
    obtain rfl : overwrite = true := by simpa [Call.single] using hmany
    have hhonest : Honest server scripts fired (Call.commitCopy temporary destination true).late 2
        tree ((Call.commitCopy temporary destination true).program isUuid fuel)
        (initial tree) :=
      bind (honest_commitCopy_overwrite temporary destination) fun _ _ _ => honest_pure _
    have hlate : ∀ changes, (Call.commitCopy temporary destination true).late 2 changes
        ↔ changes ≠ [] := fun _ => and_iff_left (Nat.le_refl 2)
    refine transparent_iff_of_honest hmany hlate hhonest fun hok => ?_
    refine ⟨fun h => absurd h hmany, ?_, ?_⟩
    · rintro _ _ ⟨⟩
    · rintro _ _ ⟨⟩
      obtain ⟨result, w', hrun, hpure⟩ := of_run_bind_ok _
        (show Call.run isUuid fuel server scripts fired (.commitCopy temporary destination true)
          tree = (.ok (some ()), _) from Prod.ext hok rfl)
      rw [show (Call.run isUuid fuel server scripts fired
        (.commitCopy temporary destination true) tree).2 = w' from (Prod.mk.inj hpure).2.symm]
      exact changes_of_commitCopy_ok hrun
  | _ => exact absurd trivial hmany

/-- The retries of `with_sftp` are transparent to a call exactly if it is
not refused after something took effect. -/
theorem retries_transparent_iff (isUuid : List Char → Bool) (fuel : Nat) (server : Server σ)
    (scripts : Nat → Script) (fired : Bool) (call : Call) (tree : σ) :
    call.Transparent isUuid fuel server scripts fired tree
      ↔ call.Clear isUuid fuel server scripts fired tree := by
  by_cases hsingle : call.single
  · exact transparent_iff_single hsingle
  · exact transparent_iff_many hsingle

end Transparency

-- A server with one directory: the names in it, and whether they are
-- directories, all of them empty.

abbrev Names := List (List Char × Bool)

namespace Names

variable {names : Names} {path oldPath newPath : List Char} {status : Status} {isDir : Bool}

def refused (statusCode : StatusCode) : Status := ⟨statusCode, "refused"⟩

/-- A new name. -/
def make (names : Names) (path : List Char) (isDir : Bool) : Except Status Unit × Names :=
  match Keyed.get names path with
  | none => (.ok (), Keyed.put names path isDir)
  | some _ => (.error (refused .other), names)

def drop (names : Names) (path : List Char) : Names := Keyed.keep names fun other => other ≠ path

/-- A name is removed, if it is of the kind. -/
def unlink (names : Names) (path : List Char) (isDir : Bool) : Except Status Unit × Names :=
  match Keyed.get names path with
  | none => (.error (refused .noSuchFile), names)
  | some kind =>
    if kind = isDir then (.ok (), names.drop path) else (.error (refused .other), names)

def truncate (names : Names) (path : List Char) : Except Status Unit × Names :=
  match Keyed.get names path with
  | none => (.ok (), Keyed.put names path false)
  | some isDir => (if isDir then .error (refused .other) else .ok (), names)

def move (names : Names) (oldPath newPath : List Char) : Except Status Unit × Names :=
  match Keyed.get names oldPath, Keyed.get names newPath with
  | none, _ => (.error (refused .noSuchFile), names)
  | some _, some _ => (.error (refused .other), names)
  | some kind, none => (.ok (), Keyed.put (names.drop oldPath) newPath kind)

def perform : (request : Request) → Names → Except Status request.Reply × Names
  | .symlinkMetadata path, names =>
    ((Keyed.get names path).elim (.error (refused .noSuchFile)) .ok, names)
  | .readDir path, names =>
    (.ok (if path = ['/'] then names.map fun entry => ⟨entry.1.tail, entry.2⟩ else []), names)
  | .tryExists path, names => (.ok (Keyed.get names path).isSome, names)
  | .createDir path, names => names.make path true
  | .rename oldPath newPath, names => names.move oldPath newPath
  | .removeFile path, names => names.unlink path false
  | .removeDir path, names => names.unlink path true
  | .openWrite path false, names => names.make path false
  | .openWrite path true, names => names.truncate path

theorem make_refuses
    (h : (names.make path isDir).1 = .error status) : (names.make path isDir).2 = names := by
  unfold make at h ⊢
  cases hget : Keyed.get names path with
  | none =>
    simp [hget] at h
  | some kind => rfl

theorem make_again (h : (names.make path isDir).1 = .ok ()) :
    (((names.make path isDir).2).make path isDir).1 = .error (refused .other) := by
  unfold make at h
  cases hget : Keyed.get names path with
  | none =>
    have hmake : names.make path isDir = (.ok (), Keyed.put names path isDir) := by rw [make, hget]
    rw [hmake, make, Keyed.get_put, if_pos rfl]
  | some kind =>
    simp [hget] at h

theorem truncate_refuses
    (h : (names.truncate path).1 = .error status) : (names.truncate path).2 = names := by
  unfold truncate at h ⊢
  cases hget : Keyed.get names path with
  | none =>
    simp [hget] at h
  | some isDir => rfl

theorem unlink_refuses
    (h : (names.unlink path isDir).1 = .error status) : (names.unlink path isDir).2 = names := by
  unfold unlink at h ⊢
  cases hget : Keyed.get names path with
  | none => rfl
  | some kind =>
    rw [hget] at h
    by_cases hkind : kind = isDir
    · simp [hkind] at h
    · simp [hkind]

theorem unlink_again (h : (names.unlink path isDir).1 = .ok ()) :
    (((names.unlink path isDir).2).unlink path isDir).1 = .error (refused .noSuchFile) := by
  cases hget : Keyed.get names path with
  | none =>
    rw [unlink, hget] at h
    cases h
  | some kind =>
    by_cases hkind : kind = isDir
    · have hunlink : names.unlink path isDir = (.ok (), names.drop path) := by
        rw [unlink, hget]
        simp [hkind]
      rw [hunlink, unlink, drop, Keyed.get_keep]
      simp
    · rw [unlink, hget] at h
      simp [hkind] at h

theorem move_refuses (h : (names.move oldPath newPath).1 = .error status) :
    (names.move oldPath newPath).2 = names := by
  unfold move at h ⊢
  cases hold : Keyed.get names oldPath with
  | none => rfl
  | some kind =>
    cases hnew : Keyed.get names newPath with
    | some other => rfl
    | none =>
      rw [hold, hnew] at h
      cases h

theorem move_again (h : (names.move oldPath newPath).1 = .ok ()) :
    (((names.move oldPath newPath).2).move oldPath newPath).1 = .error (refused .noSuchFile) := by
  cases hold : Keyed.get names oldPath with
  | none =>
    rw [move, hold] at h
    cases h
  | some kind =>
    cases hnew : Keyed.get names newPath with
    | some other =>
      rw [move, hold, hnew] at h
      cases h
    | none =>
      have hne : oldPath ≠ newPath := by
        rintro rfl
        simp [hold] at hnew
      have hmove : names.move oldPath newPath
          = (.ok (), Keyed.put (names.drop oldPath) newPath kind) := by
        rw [move, hold, hnew]
      have hgone : Keyed.get (Keyed.put (names.drop oldPath) newPath kind) oldPath = none := by
        rw [Keyed.get_put, if_neg hne, drop, Keyed.get_keep]
        simp
      rw [hmove, move, hgone]

def flat : Server Names where
  perform := perform
  looks request names h := by
    cases request with
    | symlinkMetadata path => rfl
    | readDir path => rfl
    | tryExists path => rfl
    | _ => cases h
  refuses request names status h := by
    cases request with
    | symlinkMetadata path => rfl
    | readDir path => rfl
    | tryExists path => rfl
    | createDir path => exact make_refuses h
    | rename oldPath newPath => exact move_refuses h
    | removeFile path => exact unlink_refuses h
    | removeDir path => exact unlink_refuses h
    | openWrite path overwrite =>
      cases overwrite with
      | false => exact make_refuses h
      | true => exact truncate_refuses h
  again request names reply hexclusive h := by
    cases request with
    | symlinkMetadata path => cases hexclusive
    | readDir path => cases hexclusive
    | tryExists path => cases hexclusive
    | createDir path => exact ⟨_, make_again h⟩
    | rename oldPath newPath => exact ⟨_, move_again h⟩
    | removeFile path => exact ⟨_, unlink_again h⟩
    | removeDir path => exact ⟨_, unlink_again h⟩
    | openWrite path overwrite =>
      cases overwrite with
      | false => exact ⟨_, make_again h⟩
      | true => cases hexclusive

end Names

open Locations (isHyphenatedUuid)

def connection : List Char := "6a1c1d2e-0000-4000-8000-000000000000".toList

def loc (path : List Char) : Locations.Location where
  providerId := "sftp"
  uri := "sftp://".toList ++ connection ++ path

def firstLost : Script := { Script.plain with first := ⟨.ok (), .lost .timeout⟩ }

/-- A rename that took effect is told that there is no such file. A
commit of no temporary has removed the file in its way. -/
theorem rename_told_not_found_and_commit_removed :
    ((Call.run isHyphenatedUuid 0 Names.flat (fun _ => firstLost) false
          (.rename (loc ['/', 'a']) (loc ['/', 'b'])) [(['/', 'a'], false)]).1
        = .error (.sftp (.status (Names.refused .noSuchFile)) connection)
      ∧ (Call.run isHyphenatedUuid 0 Names.flat (fun _ => firstLost) false
          (.rename (loc ['/', 'a']) (loc ['/', 'b'])) [(['/', 'a'], false)]).2.tree
        = [(['/', 'b'], false)]
      ∧ ¬ Call.Transparent isHyphenatedUuid 0 Names.flat (fun _ => firstLost) false
          (.rename (loc ['/', 'a']) (loc ['/', 'b'])) [(['/', 'a'], false)])
    ∧ ((Call.run isHyphenatedUuid 0 Names.flat (fun _ => .plain) false
          (.commitCopy (loc ['/', 'a']) (loc ['/', 'b']) true) [(['/', 'b'], false)]).1
        = .error (.sftp (.status (Names.refused .noSuchFile)) connection)
      ∧ (Call.run isHyphenatedUuid 0 Names.flat (fun _ => .plain) false
          (.commitCopy (loc ['/', 'a']) (loc ['/', 'b']) true) [(['/', 'b'], false)]).2.tree = []
      ∧ ¬ Call.Transparent isHyphenatedUuid 0 Names.flat (fun _ => .plain) false
          (.commitCopy (loc ['/', 'a']) (loc ['/', 'b']) true) [(['/', 'b'], false)]) := by
  have hrename : (Call.run isHyphenatedUuid 0 Names.flat (fun _ => firstLost) false
      (.rename (loc ['/', 'a']) (loc ['/', 'b'])) [(['/', 'a'], false)]).1
        = .error (.sftp (.status (Names.refused .noSuchFile)) connection)
      ∧ (Call.run isHyphenatedUuid 0 Names.flat (fun _ => firstLost) false
          (.rename (loc ['/', 'a']) (loc ['/', 'b'])) [(['/', 'a'], false)]).2.tree
        = [(['/', 'b'], false)] := by
    constructor <;> decide +kernel
  have hcommit : (Call.run isHyphenatedUuid 0 Names.flat (fun _ => .plain) false
      (.commitCopy (loc ['/', 'a']) (loc ['/', 'b']) true) [(['/', 'b'], false)]).1
        = .error (.sftp (.status (Names.refused .noSuchFile)) connection)
      ∧ (Call.run isHyphenatedUuid 0 Names.flat (fun _ => .plain) false
          (.commitCopy (loc ['/', 'a']) (loc ['/', 'b']) true) [(['/', 'b'], false)]).2.tree
        = [] := by
    constructor <;> decide +kernel
  refine ⟨⟨hrename.1, hrename.2, fun h => ?_⟩, hcommit.1, hcommit.2, fun h => ?_⟩
  · have htree := (h.unchanged ⟨_, hrename.1, id⟩).1
    rw [hrename.2] at htree
    exact absurd htree (by decide)
  · have htree := (h.unchanged ⟨_, hcommit.1, id⟩).1
    rw [hcommit.2] at htree
    exact absurd htree (by decide)

end FileManager.Sftp
