/-
What the scans of trees see of the providers (`fm-vfs`): the pages of a
listing, the bytes of a file, and the cancellation token.

# Time

The token is looked at again and again, by the scan and by the
providers it is handed to. The looks of one scan are numbered, and the
token fires before one of them or never; a scan carries the number of
its next look. A provider decides for itself how often it looks during
a call, and gives up when it sees the token fired.
-/
import FileManager.Domain

namespace FileManager.Vfs

abbrev Bytes := List UInt8

/-- `DateTime<Utc>`, in nanoseconds before or after the epoch. -/
abbrev Instant := Int

/-- `EntrySummary`, as far as the scans read it. -/
structure EntrySummary where
  id : EntryId
  location : Location
  name : String
  kind : EntryKind
  size : Option Nat
  modifiedAt : Option Instant
  hidden : Bool
deriving DecidableEq

def EntrySummary.entry (summary : EntrySummary) : EntryRef where
  id := summary.id
  location := summary.location

-- ==== token

/-- `CancellationToken`: the look from which on it is seen cancelled. -/
structure Token where
  firesAt : Option Nat

/-- `is_cancelled`, at a look. -/
def Token.isCancelled (token : Token) (look : Nat) : Bool :=
  match token.firesAt with
  | none => false
  | some fires => fires ≤ look

/-- A token that never fires. -/
def Token.idle : Token where
  firesAt := none

-- ==== providers

/-- The answers to the page requests of one listing. -/
inductive Pages
  | fails (error : VfsError)
  | last (entries : List EntrySummary)
  | more (entries : List EntrySummary) (rest : Pages)

/-- The registered providers, as a scan finds them. -/
structure Providers where
  /-- `resolve`, `capabilities_for`: a provider is found, and it has
  `LIST` there. -/
  lists : Location → Bool
  pages : Location → Pages
  /-- `open_read`: what the reads of the stream return; the stream ends
  after them. -/
  chunks : Location → Except VfsError (List (Except String Bytes))
  /-- How often the provider looks at the token in one call. -/
  looks : Location → Nat

open Providers

/-- A call hands the token to the provider; `none` if that gives up. -/
def Providers.call (providers : Providers) (token : Token) (location : Location)
    (look : Nat) : Option Unit × Nat :=
  let after := look + providers.looks location
  (if look < after ∧ token.isCancelled (after - 1) then none else some (), after)

/-- The loop of `list_all` over the pages. -/
def Providers.listPages (providers : Providers) (token : Token) (location : Location) :
    Pages → List EntrySummary → Nat → Option (List EntrySummary) × Nat
  | pages, entries, look =>
    if token.isCancelled look then (some entries, look + 1)
    else
      match providers.call token location (look + 1), pages with
      | (none, after), _ => (none, after)
      | (some (), after), .fails _ => (none, after)
      | (some (), after), .last page => (some (entries ++ page), after)
      | (some (), after), .more page rest =>
        providers.listPages token location rest (entries ++ page) after
termination_by structural pages => pages

/-- `list_all`: nothing if the provider cannot be asked, or a page
request fails. -/
def Providers.listAll (providers : Providers) (token : Token) (location : Location)
    (look : Nat) : Option (List EntrySummary) × Nat :=
  if providers.lists location then
    providers.listPages token location (providers.pages location) [] look
  else (none, look)

/-- All entries of the pages, if no request fails. -/
def Pages.entries : Pages → Option (List EntrySummary)
  | .fails _ => none
  | .last entries => some entries
  | .more entries rest => rest.entries.map (entries ++ ·)

def Providers.listing (providers : Providers) (location : Location) : Option (List EntrySummary) :=
  if providers.lists location then (providers.pages location).entries else none

-- ==== an idle token

@[simp] theorem Token.isCancelled_idle (look : Nat) : Token.idle.isCancelled look = false := rfl

theorem Token.isCancelled_mono (token : Token) {look later : Nat} (hle : look ≤ later)
    (h : token.isCancelled look = true) : token.isCancelled later = true := by
  unfold Token.isCancelled at h ⊢
  cases hfires : token.firesAt with
  | none => rw [hfires] at h; cases h
  | some fires =>
    rw [hfires] at h
    simp only [decide_eq_true_eq] at h ⊢
    omega

variable (providers : Providers) (location : Location)

theorem Providers.call_idle (look : Nat) :
    providers.call .idle location look = (some (), look + providers.looks location) := by
  unfold call
  simp

theorem Providers.listPages_idle (pages : Pages) (entries : List EntrySummary) (look : Nat) :
    (providers.listPages .idle location pages entries look).1
      = pages.entries.map (entries ++ ·) := by
  induction pages generalizing entries look with
  | fails error | last page =>
    unfold listPages
    simp [call_idle, Pages.entries]
  | more page rest ih =>
    unfold listPages
    simp only [Token.isCancelled_idle, Bool.false_eq_true, if_false, call_idle]
    rw [ih]
    simp only [Pages.entries, Option.map_map, Function.comp_def, List.append_assoc]

theorem Providers.listAll_idle (look : Nat) :
    (providers.listAll .idle location look).1 = providers.listing location := by
  unfold listAll listing
  split
  case isTrue =>
    rw [listPages_idle]
    simp
  case isFalse => rfl

-- ==== a token that fires

/-- A call with looks at a token gives what it gives with an idle one, or
the token is seen cancelled from then on. -/
def Token.Undisturbed {α : Type} (token : Token) (result idle : α × Nat) : Prop :=
  result = idle ∨ token.isCancelled result.2 = true

variable (token : Token)

theorem Providers.le_call (look : Nat) : look ≤ (providers.call token location look).2 :=
  Nat.le_add_right _ _

theorem Providers.undisturbed_call (look : Nat) :
    token.Undisturbed (providers.call token location look)
      (providers.call .idle location look) := by
  rw [call_idle]
  unfold call
  by_cases hgives : look < look + providers.looks location
      ∧ token.isCancelled (look + providers.looks location - 1) = true
  · exact .inr (token.isCancelled_mono (Nat.sub_le _ _) hgives.2)
  · refine .inl ?_
    simp only
    rw [if_neg hgives]

theorem Providers.le_listPages (pages : Pages) (entries : List EntrySummary) (look : Nat) :
    look ≤ (providers.listPages token location pages entries look).2 := by
  have hcall := Nat.le_of_succ_le (providers.le_call location token (look + 1))
  induction pages generalizing entries look with
  | fails error | last page =>
    unfold listPages
    generalize providers.call token location (look + 1) = called at hcall ⊢
    obtain ⟨answer, after⟩ := called
    split
    case isTrue => exact Nat.le_succ look
    case isFalse => cases answer <;> exact hcall
  | more page rest ih =>
    unfold listPages
    generalize providers.call token location (look + 1) = called at hcall ⊢
    obtain ⟨answer, after⟩ := called
    split
    case isTrue => exact Nat.le_succ look
    case isFalse =>
      cases answer with
      | none => exact hcall
      | some _ =>
        exact Nat.le_trans hcall (ih _ _ (Nat.le_of_succ_le (providers.le_call ..)))

theorem Providers.undisturbed_listPages (pages : Pages) (entries : List EntrySummary) (look : Nat) :
    token.Undisturbed (providers.listPages token location pages entries look)
      (providers.listPages .idle location pages entries look) := by
  induction pages generalizing entries look with
  | fails error | last page =>
    unfold listPages
    by_cases hcancelled : token.isCancelled look = true
    · rw [if_pos hcancelled]
      exact .inr (token.isCancelled_mono (Nat.le_succ look) hcancelled)
    · rw [if_neg hcancelled, Token.isCancelled_idle, if_neg (by simp)]
      rcases providers.undisturbed_call location token (look + 1) with hcall | hcall
      · rw [hcall, call_idle]
        exact .inl rfl
      · refine .inr ?_
        generalize providers.call token location (look + 1) = called at hcall ⊢
        obtain ⟨answer, after⟩ := called
        cases answer <;> exact hcall
  | more page rest ih =>
    unfold listPages
    by_cases hcancelled : token.isCancelled look = true
    · rw [if_pos hcancelled]
      exact .inr (token.isCancelled_mono (Nat.le_succ look) hcancelled)
    · rw [if_neg hcancelled, Token.isCancelled_idle, if_neg (by simp)]
      rcases providers.undisturbed_call location token (look + 1) with hcall | hcall
      · rw [hcall, call_idle]
        exact ih _ _
      · refine .inr ?_
        generalize providers.call token location (look + 1) = called at hcall ⊢
        obtain ⟨answer, after⟩ := called
        cases answer with
        | none => exact hcall
        | some _ =>
          exact token.isCancelled_mono (providers.le_listPages location token rest _ after) hcall

theorem Providers.undisturbed_listAll (look : Nat) :
    token.Undisturbed (providers.listAll token location look)
      (providers.listAll .idle location look) := by
  unfold listAll
  split
  case isTrue => exact providers.undisturbed_listPages location token _ _ _
  case isFalse => exact .inl rfl

theorem Providers.le_listAll (look : Nat) : look ≤ (providers.listAll token location look).2 := by
  unfold listAll
  split
  case isTrue => exact providers.le_listPages location token _ _ _
  case isFalse => exact Nat.le_refl _

end FileManager.Vfs
