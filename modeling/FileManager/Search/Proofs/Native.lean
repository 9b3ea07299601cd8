/-
When a slow file ends a native search.

A file whose content search outlasts its time is reported like a
cancelled one, and the loop cancels the search for it. Every other file
is passed, whatever becomes of its scan (`meet_spec`).
-/
import FileManager.Search.Native

namespace FileManager.Search.Native

open Vfs (Token)

variable {options : SearchOptions} {walk : Walk} {file : DirEntry} {item : Item} {items : List Item}

/-- The content of the file is searched, after all checks. -/
def Searched (options : SearchOptions) (file : DirEntry) : Prop :=
  file.isFile ∧ options.accepts file ∧ file.summary ≠ none ∧ options.hasContentQuery
    ∧ (∃ length, file.length = some length ∧ length ≤ maxScanBytes)
    ∧ ∃ sniff, file.sniff = some sniff ∧ sniff ≠ [] ∧ ¬ looksLikeBinary sniff

/-- The content search of the file outlasts its time. -/
def Slow (options : SearchOptions) (item : Item) : Prop :=
  ∃ file, item = some file ∧ Searched options file ∧ file.search = .elapsed

/-- What a file adds to the results. -/
def resultOf (options : SearchOptions) (item : Item) : List Found :=
  (({} : Walk).meet options item).2.found

theorem scanFile_eq_cancelled_iff :
    scanFile file = .error .cancelled
      ↔ (∃ length, file.length = some length ∧ length ≤ maxScanBytes)
        ∧ (∃ sniff, file.sniff = some sniff ∧ sniff ≠ [] ∧ ¬ looksLikeBinary sniff)
        ∧ file.search = .elapsed := by
  unfold scanFile
  cases file.length with
  | none => simp
  | some length =>
    simp only [Option.some.injEq, exists_eq_left', ← Nat.not_lt]
    split
    case isTrue hlarge => simp [hlarge]
    case isFalse hlarge =>
      cases file.sniff with
      | none => simp
      | some sniff =>
        simp only [Option.some.injEq, exists_eq_left']
        by_cases hempty : sniff = []
        · simp [hempty]
        · by_cases hbinary : looksLikeBinary sniff
          · simp [hempty, hbinary]
          · simp only [if_neg hempty, if_neg hbinary]
            cases file.search <;> simp [hlarge, hempty, hbinary]

/-- What one turn of the loop does. -/
theorem meet_spec (walk : Walk) (item : Item) :
    ((walk.meet options item).1 = true ↔ Slow options item)
      ∧ (walk.meet options item).2.found = walk.found ++ resultOf options item
      ∧ (walk.meet options item).2.cancelled = (walk.cancelled || (walk.meet options item).1)
      ∧ (walk.meet options item).2.visited = walk.visited := by
  unfold Slow
  cases item with
  | none => simp [Walk.meet, resultOf]
  | some file =>
    simp only [Option.some.injEq, exists_eq_left', resultOf, Walk.meet, Searched]
    by_cases hpassed : (!file.isFile || !options.accepts file) = true
    · simp only [if_pos hpassed]
      have hnot : ¬ (file.isFile = true ∧ options.accepts file = true) :=
        not_and_or.mpr (by simpa using hpassed)
      simp [← and_assoc, hnot]
    · have hboth : file.isFile = true ∧ options.accepts file = true := by simpa using hpassed
      simp only [hboth, true_and]
      cases file.summary with
      | none => simp
      | some summary =>
        by_cases hquery : options.hasContentQuery = true
        · have hcancelled := @scanFile_eq_cancelled_iff file
          simp only [hquery, if_true, true_and, ne_eq, reduceCtorEq, not_false_eq_true,
            and_assoc] at hcancelled ⊢
          rw [← hcancelled]
          cases scanFile file with
          | ok matches_ => by_cases hnone : matches_ = [] <;> simp [hnone]
          | error error => cases error <;> simp
        · simp [hquery]

/-- A turn of a walk that nobody cancels. -/
theorem run_cons (item : Item) (rest : List Item) (hwalk : walk.cancelled = false) :
    ∃ next : Walk, next.visited = walk.visited ++ [item]
      ∧ next.found = walk.found ++ resultOf options item
      ∧ (next.cancelled = true ↔ Slow options item)
      ∧ walk.run options .idle (item :: rest)
        = if next.cancelled then next else next.run options .idle rest := by
  obtain ⟨hbreaks, hfound, hcancelled, hvisited⟩ := @meet_spec options
    { walk with look := walk.look + 1, visited := walk.visited ++ [item] } item
  rw [Walk.run, show walk.isCancelled .idle = false by simp [Walk.isCancelled, hwalk],
    if_neg Bool.false_ne_true]
  generalize Walk.meet options _ item = met at hbreaks hfound hcancelled hvisited ⊢
  obtain ⟨breaks, next⟩ := met
  obtain rfl : next.cancelled = breaks := by simpa [hwalk] using hcancelled
  refine ⟨next, hvisited, hfound, hbreaks, ?_⟩
  cases next.cancelled <;> rfl

theorem run_of_prompt (h : ∀ item ∈ items, ¬ Slow options item) (hwalk : walk.cancelled = false) :
    (walk.run options .idle items).visited = walk.visited ++ items
      ∧ (walk.run options .idle items).found = walk.found ++ items.flatMap (resultOf options)
      ∧ (walk.run options .idle items).cancelled = false := by
  induction items generalizing walk with
  | nil => simp [Walk.run, hwalk]
  | cons item rest ih =>
    obtain ⟨hitem, hrest⟩ := List.forall_mem_cons.mp h
    obtain ⟨next, hvisited, hfound, hslow, hrun⟩ := @run_cons options walk item rest hwalk
    have hnext : next.cancelled = false := Bool.eq_false_iff.mpr (mt hslow.mp hitem)
    rw [hrun, hnext, if_neg Bool.false_ne_true]
    obtain ⟨hvisited', hfound', hcancelled⟩ := ih hrest hnext
    rw [hvisited', hfound', hvisited, hfound]
    simp [hcancelled]

theorem cancelled_of_slow (hitem : item ∈ items) (hslow : Slow options item)
    (hwalk : walk.cancelled = false) : (walk.run options .idle items).cancelled = true := by
  induction items generalizing walk with
  | nil => cases hitem
  | cons first rest ih =>
    obtain ⟨next, -, -, hfirst, hrun⟩ := @run_cons options walk first rest hwalk
    rw [hrun]
    cases hnext : next.cancelled with
    | true => exact hnext
    | false =>
      rcases List.mem_cons.mp hitem with rfl | hrest
      · exact absurd (hfirst.mpr hslow) (by simp [hnext])
      · exact ih hrest hnext

/-- A search that nobody cancels visits everything, finds what is there
and completes, exactly if no content search outlasts its time. -/
theorem search_completes_iff (options : SearchOptions) (roots : List (List Item)) :
    ((runSearchNative options .idle roots).1.visited = roots.flatten
        ∧ (runSearchNative options .idle roots).1.found
          = roots.flatten.flatMap (resultOf options)
        ∧ (runSearchNative options .idle roots).2 = .completed)
      ↔ ∀ item ∈ roots.flatten, ¬ Slow options item := by
  unfold runSearchNative Walk.isCancelled
  simp only [Token.isCancelled_idle, Bool.or_false]
  constructor
  · rintro ⟨-, -, hstate⟩ item hitem hslow
    rw [cancelled_of_slow hitem hslow rfl] at hstate
    cases hstate
  · intro h
    obtain ⟨hvisited, hfound, hcancelled⟩ := @run_of_prompt options {} _ h rfl
    rw [hvisited, hfound, hcancelled]
    exact ⟨rfl, rfl, rfl⟩

def textFile (search : ContentSearch) : DirEntry where
  isFile := true
  fileName := some "a.txt"
  summary := some
    { id := 0
      location := ⟨"local", ⟨"", ["a.txt"]⟩⟩
      name := "a.txt"
      kind := .file
      size := some 1
      modifiedAt := none
      hidden := false }
  length := some 1
  sniff := some [97]
  search := search

/-- The second file is never visited, and nobody has cancelled. -/
theorem slow_file_cancels_search :
    (runSearchNative ⟨none, true⟩ .idle
          [[some (textFile .elapsed), some (textFile (.found [⟨1, 0, 1⟩]))]]).2 = .cancelled
      ∧ (runSearchNative ⟨none, true⟩ .idle
          [[some (textFile .elapsed), some (textFile (.found [⟨1, 0, 1⟩]))]]).1.visited
        = [some (textFile .elapsed)] := by
  decide

end FileManager.Search.Native
