/-
When a rename of local files destroys nothing but its source.

# The argument

The system call changes the places of its two paths only, and comes to
one of three things (`Volume.rename_cases`). A change of case goes by
way of a place where nothing is, so that it comes down to its second
call (`meets_moved`): there is no check before that, and a failure is
undone by a third call, which may fail as well.
-/
import FileManager.Local.Commit

namespace FileManager.Local

open Function

variable {κ α ε : Type} [DecidableEq κ] {volume : Volume κ} {places after : Places κ}
  {source destination temporary : Path} {replaced cancelled : Bool} {place : κ}
  {isUuid : List Char → Bool} {faults : Nat → Option IoError}
  {sourceAt destinationAt : Locations.Location}

/-- Two files stand at the places, and the system call lets the first
replace the second, or refuses to. -/
def Meets (volume : Volume κ) (places : Places κ) (source destination : Path)
    (replaced : Bool) : Prop :=
  volume.key source ≠ volume.key destination
    ∧ ∃ moved other, places (volume.key source) = some moved
      ∧ places (volume.key destination) = some other
      ∧ other.inode ≠ moved.inode ∧ moved.replaces other = replaced

/-- Nothing but what is at one place has been removed or replaced, and
nothing at all where there is an error. -/
structure Keeps {α ε : Type} (places : Places κ) (source : κ) (result : Except ε α × Places κ) :
    Prop where
  ok : ∀ value, result.1 = .ok value →
    ∀ place, place ≠ source → places place ≠ none → result.2 place = places place
  error : ∀ error, result.1 = .error error → result.2 = places

omit [DecidableEq κ] in
theorem keeps_ok_iff {value : α} :
    Keeps places place ((.ok value, after) : Except ε α × Places κ)
      ↔ ∀ other, other ≠ place → places other ≠ none → after other = places other :=
  ⟨fun h => h.ok value rfl, fun h => ⟨fun _ _ => h, nofun⟩⟩

omit [DecidableEq κ] in
theorem keeps_error_iff {error : ε} :
    Keeps places place ((.error error, after) : Except ε α × Places κ) ↔ after = places :=
  ⟨fun h => h.error error rfl, fun h => ⟨nofun, fun _ _ => h⟩⟩

-- ==== the system call

/-- The entry is at the new place, and no longer at the old one. -/
def Volume.moved (volume : Volume κ) (places : Places κ) (source destination : Path) : Places κ :=
  update (update places (volume.key source) none) (volume.key destination)
    (places (volume.key source))

theorem Volume.rename_cases (volume : Volume κ) (fault : Option IoError) (places : Places κ)
    (source destination : Path) :
    (∃ error, volume.rename fault places source destination = (.error error, places)
        ∧ (fault ≠ none ∨ places (volume.key source) = none
          ∨ Meets volume places source destination false))
      ∨ fault = none ∧ places (volume.key source) ≠ none
        ∧ ¬ Meets volume places source destination false
        ∧ (volume.rename fault places source destination
              = (.ok (), volume.moved places source destination)
            ∧ (volume.key source = volume.key destination ∨ places (volume.key destination) = none
              ∨ Meets volume places source destination true)
          ∨ volume.rename fault places source destination = (.ok (), places)
            ∧ places (volume.key destination) ≠ none
            ∧ ¬ Meets volume places source destination true) := by
  unfold Volume.rename Volume.moved Meets
  cases fault with
  | some error => simp
  | none =>
    cases hsource : places (volume.key source) with
    | none => simp
    | some moved =>
      by_cases hsame : volume.key source = volume.key destination
      · simp [hsame]
      · simp only [update_of_ne (Ne.symm hsame)]
        cases hother : places (volume.key destination) with
        | none => simp [hsame]
        | some other =>
          by_cases hinode : other.inode = moved.inode
          · simp [hsame, hinode]
          · cases hreplaces : moved.replaces other <;> simp [hsame, hinode, hreplaces]

theorem moved_of_ne (hsource : place ≠ volume.key source)
    (hdestination : place ≠ volume.key destination) :
    volume.moved places source destination place = places place := by
  unfold Volume.moved
  rw [update_of_ne hdestination, update_of_ne hsource]

/-- Nothing is at the temporary place, and it is none of the others. -/
structure Fresh (volume : Volume κ) (places : Places κ) (source destination temporary : Path) :
    Prop where
  free : places (volume.key temporary) = none
  source : volume.key temporary ≠ volume.key source
  destination : volume.key temporary ≠ volume.key destination

theorem Fresh.moved_temporary (h : Fresh volume places source destination temporary) :
    volume.moved places source temporary (volume.key temporary) = places (volume.key source)
      ∧ volume.moved places source temporary (volume.key source) = none := by
  unfold Volume.moved
  rw [update_self, update_of_ne h.source.symm, update_self]
  exact ⟨rfl, rfl⟩

/-- The entry meets the same one from the temporary place. -/
theorem Fresh.meets_moved (h : Fresh volume places source destination temporary) :
    Meets volume (volume.moved places source temporary) temporary destination replaced
      ↔ Meets volume places source destination replaced := by
  unfold Meets
  rw [h.moved_temporary.1]
  by_cases hsame : volume.key source = volume.key destination
  · rw [← hsame, h.moved_temporary.2]
    simp
  · rw [moved_of_ne (Ne.symm hsame) h.destination.symm]
    simp [hsame, h.destination]

theorem Fresh.moved_back (h : Fresh volume places source destination temporary) :
    volume.moved (volume.moved places source temporary) temporary source = places := by
  funext place
  by_cases hsource : place = volume.key source
  · subst hsource
    rw [Volume.moved, update_self, h.moved_temporary.1]
  · by_cases htemporary : place = volume.key temporary
    · subst htemporary
      rw [Volume.moved, update_of_ne hsource, update_self, h.free]
    · rw [moved_of_ne htemporary hsource, moved_of_ne hsource htemporary]

/-- A move to a place spares the others exactly if it replaces nothing. -/
theorem moved_keeps_iff
    (h : volume.key source = volume.key destination ∨ places (volume.key destination) = none
      ∨ Meets volume places source destination true) :
    (∀ place, place ≠ volume.key source → places place ≠ none →
        volume.moved places source destination place = places place)
      ↔ ¬ Meets volume places source destination true := by
  constructor
  · rintro hkeeps ⟨hne, moved, other, hmoved, hother, hinode, -⟩
    have hsame := hkeeps _ (Ne.symm hne) (by simp [hother])
    rw [Volume.moved, update_self, hmoved, hother] at hsame
    exact hinode (congrArg Occupant.inode (Option.some.inj hsame)).symm
  · intro hnot place hsource hthere
    refine moved_of_ne hsource ?_
    rintro rfl
    rcases h with heq | hnone | hmeets
    · exact hsource heq.symm
    · exact hthere hnone
    · exact hnot hmeets

/-- What spares the others on the way spares them from the start. -/
theorem Fresh.keeps_iff (h : Fresh volume places source destination temporary) (after : Places κ) :
    (∀ place, place ≠ volume.key source → places place ≠ none → after place = places place)
      ↔ ∀ place, place ≠ volume.key temporary → volume.moved places source temporary place ≠ none →
          after place = volume.moved places source temporary place := by
  constructor
  · intro hkeeps place htemporary hthere
    have hsource : place ≠ volume.key source := by
      rintro rfl
      exact hthere h.moved_temporary.2
    rw [moved_of_ne hsource htemporary] at hthere ⊢
    exact hkeeps place hsource hthere
  · intro hkeeps place hsource hthere
    have htemporary : place ≠ volume.key temporary := by
      rintro rfl
      exact hthere h.free
    have hsame := hkeeps place htemporary
    rw [moved_of_ne hsource htemporary] at hsame
    exact hsame hthere

-- ==== the rename

/-- The other files are spared: a change of case replaces nothing with
its second call, which the third undoes if it fails; any other rename
sees that the new name is taken, or replaces nothing. -/
def Spared (volume : Volume κ) (places : Places κ) (faults : Nat → Option IoError)
    (source destination : Path) : Prop :=
  faults 0 = none → places (volume.key source) ≠ none →
    if volume.caseOnly source destination then
      (faults 1 = none → ¬ Meets volume places source destination true)
        ∧ (faults 1 ≠ none ∨ Meets volume places source destination false → faults 2 = none)
    else volume.exists? places destination ∨ ¬ Meets volume places source destination true

omit [DecidableEq κ] in
theorem not_meets_both (hmeets : Meets volume places source destination false) :
    ¬ Meets volume places source destination true := by
  obtain ⟨-, moved, other, hmoved, hother, -, hreplaces⟩ := hmeets
  rintro ⟨-, moved', other', hmoved', hother', -, hreplaces'⟩
  rw [hmoved, Option.some.injEq] at hmoved'
  rw [hother, Option.some.injEq] at hother'
  rw [← hmoved', ← hother', hreplaces] at hreplaces'
  cases hreplaces'

theorem Fresh.undone_iff (h : Fresh volume places source destination temporary)
    (hthere : places (volume.key source) ≠ none) (fault : Option IoError) :
    (volume.rename fault (volume.moved places source temporary) temporary source).2 = places
      ↔ fault = none := by
  obtain ⟨htemporary, hsource⟩ := h.moved_temporary
  rcases volume.rename_cases fault (volume.moved places source temporary) temporary source with
    ⟨error, hrename, hfails⟩ | ⟨hfault, -, -, ⟨hrename, -⟩ | ⟨-, htaken, -⟩⟩
  · rw [hrename]
    have hnot : volume.moved places source temporary ≠ places := by
      intro heq
      rw [heq] at hsource
      exact hthere hsource
    refine iff_of_false hnot ?_
    rcases hfails with hfault | hnone | ⟨-, -, other, -, hother, -⟩
    · exact hfault
    · exact absurd (htemporary ▸ hnone) hthere
    · simp [hsource] at hother
  · rw [hrename]
    exact iff_of_true h.moved_back hfault
  · exact absurd hsource htaken

/-- A rename that passes its checks removes and replaces nothing but its
source, and changes nothing if it fails, exactly if it spares the other
files; one that does not pass them changes nothing. -/
theorem rename_destroys_nothing_iff :
    (∀ error, renamePaths isUuid cancelled sourceAt destinationAt = .error error →
        rename volume isUuid cancelled temporary faults sourceAt destinationAt places
          = (.error error, places))
      ∧ (renamePaths isUuid cancelled sourceAt destinationAt = .ok (source, destination) →
        Fresh volume places source destination temporary →
        (Keeps places (volume.key source)
            (rename volume isUuid cancelled temporary faults sourceAt destinationAt places)
          ↔ Spared volume places faults source destination)) := by
  refine ⟨fun error herror => by unfold rename; rw [herror], fun hpaths hfresh => ?_⟩
  unfold rename Spared
  rw [hpaths]
  simp only
  cases hcase : volume.caseOnly source destination with
  | false =>
    by_cases hexists : volume.exists? places destination = true
    · simp [hexists, keeps_error_iff]
    · simp only [hexists, Bool.not_false, Bool.and_true, Bool.false_eq_true, if_false, false_or]
      rcases volume.rename_cases (faults 0) places source destination with
        ⟨error, hrename, hfails⟩ | ⟨hfault, hthere, -, ⟨hrename, hput⟩ | ⟨hrename, -, hnot⟩⟩
      · rw [hrename]
        refine iff_of_true (keeps_error_iff.mpr rfl) fun hfault hthere => ?_
        exact not_meets_both ((hfails.resolve_left (not_not_intro hfault)).resolve_left hthere)
      · rw [hrename]
        refine keeps_ok_iff.trans ((moved_keeps_iff hput).trans ?_)
        exact ⟨fun h _ _ => h, fun h => h hfault hthere⟩
      · rw [hrename]
        exact iff_of_true (keeps_ok_iff.mpr fun _ _ _ => rfl) fun _ _ => hnot
  | true =>
    simp only [Bool.not_true, Bool.and_false, Bool.false_eq_true, if_false, if_true]
    rcases volume.rename_cases (faults 0) places source temporary with
      ⟨error, hrename, hfails⟩ | ⟨hfault, hthere, -, ⟨hrename, -⟩ | ⟨-, htaken, -⟩⟩
    · rw [hrename]
      refine iff_of_true (keeps_error_iff.mpr rfl) fun hfault hthere => ?_
      obtain ⟨-, -, other, -, hother, -⟩ :=
        (hfails.resolve_left (not_not_intro hfault)).resolve_left hthere
      simp [hfresh.free] at hother
    · rw [hrename]
      simp only [hfault, hthere, ne_eq, not_false_eq_true, forall_const]
      rcases volume.rename_cases (faults 1) (volume.moved places source temporary) temporary
          destination with
        ⟨error, hsecond, hfails⟩ | ⟨hfault', -, hnot, ⟨hsecond, hput⟩ | ⟨hsecond, -, hmeets⟩⟩
      · rw [hsecond]
        rw [hfresh.meets_moved, hfresh.moved_temporary.1] at hfails
        have hundo : faults 1 ≠ none ∨ Meets volume places source destination false :=
          hfails.imp_right fun h => h.resolve_left hthere
        refine (keeps_error_iff.trans (hfresh.undone_iff hthere (faults 2))).trans
          ⟨fun h => ⟨fun hfault' => ?_, fun _ => h⟩, fun h => h.2 hundo⟩
        exact not_meets_both (hundo.resolve_left (not_not_intro hfault'))
      · rw [hsecond]
        rw [hfresh.meets_moved] at hnot
        refine keeps_ok_iff.trans (((hfresh.keeps_iff _).trans (moved_keeps_iff hput)).trans ?_)
        rw [hfresh.meets_moved]
        simp [hfault', hnot]
      · rw [hsecond]
        rw [hfresh.meets_moved] at hnot hmeets
        refine iff_of_true (keeps_ok_iff.mpr ((hfresh.keeps_iff _).mpr fun _ _ _ => rfl)) ?_
        simp [hmeets, hfault', hnot]
    · exact absurd hfresh.free htaken

-- ==== three names

/-- A volume where case counts. -/
def plainVolume : Volume Path where
  key := id
  text path := path.flatMap fun segment => '/' :: segment.map fun byte => Char.ofNat byte.toNat
  refusal := .alreadyExists

def fileOf (inode : Nat) : Occupant := ⟨inode, false, true, false⟩

/-- The files `a` and `A`, and the link `b` that leads nowhere. -/
def threeNames : Places Path := fun path =>
  if path = [[97]] then some (fileOf 1) else if path = [[65]] then some (fileOf 2)
  else if path = [[98]] then some ⟨3, false, true, true⟩ else none

def rootFile (uri : String) : Locations.Location := ⟨"local", uri.toList⟩

/-- `a` is renamed, and no system call fails. -/
def renamed (uri : String) : Except VfsError Locations.Location × Places Path :=
  rename plainVolume (fun _ => false) false [[46]] (fun _ => none) (rootFile "file:///a")
    (rootFile uri) threeNames

theorem new_name_destroys_nothing :
    (renamed "file:///c").1 = .ok (rootFile "file:///c")
      ∧ Keeps threeNames [[97]] (renamed "file:///c") := by
  have hpaths : renamePaths (fun _ => false) false (rootFile "file:///a") (rootFile "file:///c")
      = .ok ([[97]], [[99]]) := by
    decide +kernel
  have hfresh : Fresh plainVolume threeNames [[97]] [[99]] [[46]] := ⟨rfl, by decide, by decide⟩
  have hspared : Spared plainVolume threeNames (fun _ => none) [[97]] [[99]] := by
    intro _ _
    rw [if_neg (by decide)]
    exact .inr fun ⟨_, _, _, _, hother, _⟩ => nomatch hother
  exact ⟨by decide +kernel, (rename_destroys_nothing_iff.2 hpaths hfresh).mpr hspared⟩

/-- The file of the other case is replaced, and so is the link. -/
theorem new_name_replaces_other :
    ((renamed "file:///A").1 = .ok (rootFile "file:///A")
        ∧ (renamed "file:///A").2 [[65]] ≠ threeNames [[65]])
      ∧ (renamed "file:///b").1 = .ok (rootFile "file:///b")
        ∧ (renamed "file:///b").2 [[98]] ≠ threeNames [[98]] := by
  decide +kernel

end FileManager.Local
