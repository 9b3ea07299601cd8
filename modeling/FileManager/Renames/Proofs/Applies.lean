/-
A multi-rename does what its preview shows, exactly if no entry is given
a name that, at that time, another entry of the directory has.

The preview renames all entries at once, the executor one after the
other. The two agree when each step finds its new name free: then the
step is the preview's, and what comes later does not see it. A step that
does not find it free fails, or replaces the entry that has the name;
and a directory that has lost an entry does not get it back.
-/
import FileManager.Renames.Executor
import FileManager.Lib.Fallible

namespace FileManager.Renames

open List Bool Filesystem

-- ==== directories

/-- A directory: ids are distinct, and so are names for the filesystem. -/
structure WellFormed (fs : Filesystem) (dir : List Entry) : Prop where
  ids : (dir.map RenameTarget.id).Nodup
  names : (dir.map fun entry => fs.key entry.name).Nodup

section Directories

variable {fs : Filesystem} {dir : List Entry} {entry other : Entry} {name : String} {id : EntryId}

theorem WellFormed.eq_of_id (h : WellFormed fs dir) (hentry : entry ∈ dir)
    (hother : other ∈ dir) (hid : entry.id = other.id) : entry = other :=
  inj_on_of_nodup_map h.ids hentry hother hid

theorem WellFormed.eq_of_key (h : WellFormed fs dir) (hentry : entry ∈ dir)
    (hother : other ∈ dir) (hkey : fs.key entry.name = fs.key other.name) : entry = other :=
  inj_on_of_nodup_map h.names hentry hother hkey

/-- No other entry has the name. -/
def Free (fs : Filesystem) (dir : List Entry) (entry : Entry) (name : String) : Prop :=
  ∀ other ∈ dir, other.id ≠ entry.id → fs.key other.name ≠ fs.key name

theorem mem_setName :
    other ∈ setName id name dir
      ↔ ∃ before ∈ dir, other = if before.id = id then { before with name := name }
        else before := by
  unfold setName
  rw [mem_map]
  exact exists_congr fun _ => and_congr_right fun _ => eq_comm

@[simp] theorem length_setName (id : EntryId) (name : String) (dir : List Entry) :
    (setName id name dir).length = dir.length :=
  length_map _

@[simp] theorem map_id_setName (id : EntryId) (name : String) (dir : List Entry) :
    (setName id name dir).map RenameTarget.id = dir.map RenameTarget.id := by
  unfold setName
  rw [map_map]
  refine map_congr_left fun entry _ => ?_
  show RenameTarget.id (if entry.id = id then _ else entry) = entry.id
  split <;> rfl

theorem mem_setName_of_ne (hother : other ∈ dir) (hne : other.id ≠ id) :
    other ∈ setName id name dir :=
  mem_setName.mpr ⟨other, hother, (if_neg hne).symm⟩

theorem WellFormed.setName (h : WellFormed fs dir)
    (hfree : Free fs dir entry name) : WellFormed fs (setName entry.id name dir) := by
  refine ⟨by rw [map_id_setName]; exact h.ids, ?_⟩
  unfold Renames.setName
  rw [map_map]
  refine List.Nodup.map_on ?_ (List.Nodup.of_map _ h.ids)
  intro a ha b hb heq
  simp only [Function.comp_apply] at heq
  by_cases hida : a.id = entry.id
  · by_cases hidb : b.id = entry.id
    · exact h.eq_of_id ha hb (hida.trans hidb.symm)
    · rw [if_pos hida, if_neg hidb] at heq
      exact absurd heq.symm (hfree b hb hidb)
  · by_cases hidb : b.id = entry.id
    · rw [if_neg hida, if_pos hidb] at heq
      exact absurd heq (hfree a ha hida)
    · rw [if_neg hida, if_neg hidb] at heq
      exact h.eq_of_key ha hb heq

end Directories

-- ==== one rename

section Rename

variable {fs : Filesystem} {directory : Location} {dir dir' : List Entry} {entry : Entry}
  {name : String}

theorem find_key (h : WellFormed fs dir) (hentry : entry ∈ dir) :
    (dir.find? fun other => fs.key other.name = fs.key entry.name) = some entry := by
  cases hfind : dir.find? fun other => fs.key other.name = fs.key entry.name with
  | none => simpa using List.find?_eq_none.mp hfind entry hentry
  | some other =>
    have hkey : fs.key other.name = fs.key entry.name := by simpa using List.find?_some hfind
    rw [h.eq_of_key (mem_of_find?_eq_some hfind) hentry hkey]

theorem rename_free (h : WellFormed fs dir) (hentry : entry ∈ dir)
    (hfree : Free fs dir entry name) :
    fs.rename directory dir entry.name name = (.ok (), setName entry.id name dir) := by
  unfold rename
  rw [find_key h hentry]
  have hnone : (dir.find? fun other =>
      other.id ≠ entry.id ∧ fs.key other.name = fs.key name) = none := by
    rw [List.find?_eq_none]
    intro other hother htaken
    rw [decide_eq_true_eq] at htaken
    exact hfree other hother htaken.1 htaken.2
  simp only [hnone]

theorem rename_taken (h : WellFormed fs dir) (hentry : entry ∈ dir)
    (htaken : ¬ Free fs dir entry name)
    (hrename : fs.rename directory dir entry.name name = (.ok (), dir')) :
    dir'.length < dir.length := by
  unfold rename at hrename
  rw [find_key h hentry] at hrename
  simp only at hrename
  split at hrename
  case h_1 hnone =>
    refine absurd (fun other hother hid hkey => ?_) htaken
    have := List.find?_eq_none.mp hnone other hother
    simp [hid, hkey] at this
  case h_2 other hfind =>
    split at hrename
    case isFalse => cases hrename
    case isTrue =>
      injection hrename with _ hdir
      subst hdir
      rw [length_setName]
      refine length_filter_lt_length_iff_exists.mpr ⟨other, ?_, by simp⟩
      exact mem_of_find?_eq_some hfind

theorem length_rename_le {source : String} {r : Except VfsError Unit}
    (hrename : fs.rename directory dir source name = (r, dir')) : dir'.length ≤ dir.length := by
  unfold rename at hrename
  split at hrename
  case h_1 => cases hrename; exact le_rfl
  case h_2 entry' _ =>
    split at hrename
    case h_1 => cases hrename; rw [length_setName]
    case h_2 other _ =>
      split at hrename
      case isFalse => cases hrename; exact le_rfl
      case isTrue =>
        cases hrename
        rw [length_setName]
        exact length_filter_le _ _

end Rename

-- ==== the provider

section Provider

variable {fs : Filesystem} {directory : Location} {dir dir' : List Entry} {entry : Entry}
  {name temporary : String}

/-- What one rename of the provider needs. The middle part is about a
name that is the entry's own for the filesystem, but not a change of ASCII
case: the provider takes the entry for one that is in the way. -/
structure Accepts (fs : Filesystem) (dir : List Entry) (entry : Entry) (name : String) :
    Prop where
  valid : validateName name = .ok ()
  own : fs.key name = fs.key entry.name →
    eqIgnoreAsciiCase entry.name name = true ∨ fs.resolves dir entry = false
  free : Free fs dir entry name

theorem validateNewName_ok : validateNewName name = .ok () ↔ validateName name = .ok () := by
  unfold validateNewName
  constructor
  · intro h
    split at h
    case h_1 hok => exact hok
    case h_2 => cases h
    case h_3 => split at h <;> cases h
    case h_4 => cases h
    case h_5 => cases h
  · intro h
    rw [h]

theorem checkDestination_ok :
    checkDestination directory name = .ok () ↔ validateName name = .ok () := by
  rw [← validateNewName_ok]
  unfold checkDestination validateNewName
  cases validateName name with
  | ok value => rfl
  | error error =>
    cases error with
    | invalidName message =>
      dsimp only
      split_ifs <;> simp
    | emptySegment | nullByte | reservedWindowsName name => simp

theorem setName_setName (id : EntryId) (first second : String) (dir : List Entry) :
    setName id second (setName id first dir) = setName id second dir := by
  unfold setName
  rw [map_map]
  refine map_congr_left fun entry _ => ?_
  by_cases hid : entry.id = id <;> simp [hid]

theorem free_setName {before : String} :
    Free fs (setName entry.id before dir) { entry with name := before } name
      ↔ Free fs dir entry name := by
  constructor
  · intro h other hother hne
    exact h other (mem_setName_of_ne hother hne) hne
  · intro h other hother hne
    obtain ⟨old, hold, heq⟩ := mem_setName.mp hother
    by_cases hid : old.id = entry.id
    · rw [if_pos hid] at heq
      subst heq
      exact absurd hid hne
    · rw [if_neg hid] at heq
      subst heq
      exact h other hold hne

theorem rename_twice (h : WellFormed fs dir) (hentry : entry ∈ dir)
    (hfresh : ∀ other ∈ dir, fs.key other.name ≠ fs.key temporary) :
    fs.rename directory dir entry.name temporary = (.ok (), setName entry.id temporary dir)
      ∧ WellFormed fs (setName entry.id temporary dir)
      ∧ { entry with name := temporary } ∈ setName entry.id temporary dir := by
  have hfree : Free fs dir entry temporary := fun other hother _ => hfresh other hother
  refine ⟨rename_free h hentry hfree, h.setName hfree, ?_⟩
  exact mem_setName.mpr ⟨entry, hentry, by rw [if_pos rfl]⟩

theorem not_exists_of_accepts (h : WellFormed fs dir) (hentry : entry ∈ dir)
    (haccepts : Accepts fs dir entry name)
    (hcase : eqIgnoreAsciiCase entry.name name = false) : fs.exists? dir name = false := by
  unfold exists?
  rw [any_eq_false]
  intro other hother hany
  rw [and_eq_true, decide_eq_true_eq] at hany
  by_cases hid : other.id = entry.id
  · have heq := h.eq_of_id hother hentry hid
    subst heq
    rcases haccepts.own hany.1.symm with hsame | hdangling
    · simp [hcase] at hsame
    · rw [hdangling] at hany
      cases hany.2
  · exact haccepts.free other hother hid hany.1

theorem own_of_not_exists (hentry : entry ∈ dir) (hexists : fs.exists? dir name = false)
    (hkey : fs.key name = fs.key entry.name) : fs.resolves dir entry = false := by
  unfold exists? at hexists
  have hnone := any_eq_false.mp hexists entry hentry
  rw [and_eq_true, decide_eq_true_eq] at hnone
  cases hresolves : fs.resolves dir entry with
  | false => rfl
  | true => exact absurd ⟨hkey.symm, hresolves⟩ hnone

theorem providerRename_of_accepts (h : WellFormed fs dir) (hentry : entry ∈ dir)
    (hchanged : name ≠ entry.name) (hfresh : ∀ other ∈ dir, fs.key other.name ≠ fs.key temporary)
    (haccepts : Accepts fs dir entry name) :
    providerRename fs directory temporary dir entry.name name
      = (.ok (), setName entry.id name dir) := by
  unfold providerRename
  rw [checkDestination_ok.mpr haccepts.valid]
  have hne : decide (entry.name ≠ name) = true := decide_eq_true hchanged.symm
  cases hcase : eqIgnoreAsciiCase entry.name name with
  | false =>
    have hexists := not_exists_of_accepts h hentry haccepts hcase
    simp only [hne, hexists, Bool.and_false, Bool.false_and, false_eq_true, if_false]
    exact rename_free h hentry haccepts.free
  | true =>
    obtain ⟨hfirst, hwell, hmem⟩ := @rename_twice fs directory dir entry temporary h hentry hfresh
    have hsecond := @rename_free fs directory _ _ name hwell hmem (free_setName.mpr haccepts.free)
    simp only at hsecond
    simp only [hne, Bool.true_and, Bool.not_true, Bool.and_false, false_eq_true,
      if_false, if_true, hfirst, hsecond, setName_setName]

theorem length_providerRename_lt (h : WellFormed fs dir) (hentry : entry ∈ dir)
    (hchanged : name ≠ entry.name) (hfresh : ∀ other ∈ dir, fs.key other.name ≠ fs.key temporary)
    (hrefused : ¬ Accepts fs dir entry name)
    (hrename : providerRename fs directory temporary dir entry.name name = (.ok (), dir')) :
    dir'.length < dir.length := by
  unfold providerRename at hrename
  split at hrename
  case h_1 => cases hrename
  case h_2 hvalid =>
    have hne : decide (entry.name ≠ name) = true := decide_eq_true hchanged.symm
    have hvalid' := checkDestination_ok.mp hvalid
    cases hcase : eqIgnoreAsciiCase entry.name name with
    | false =>
      simp only [hne, hcase, Bool.and_false, Bool.not_false, Bool.and_true,
        false_eq_true, if_false] at hrename
      obtain ⟨hexists, hrename⟩ := Fallible.passed hrename nofun
      rw [not_eq_true] at hexists
      refine rename_taken h hentry (fun hfree => hrefused ?_) hrename
      exact ⟨hvalid', fun hkey => .inr (own_of_not_exists hentry hexists hkey), hfree⟩
    | true =>
      obtain ⟨hfirst, hwell, hmem⟩ := @rename_twice fs directory dir entry temporary h hentry hfresh
      simp only [hne, hcase, Bool.true_and, Bool.not_true, Bool.and_false,
        false_eq_true, if_false, if_true, hfirst] at hrename
      split at hrename
      case h_1 => cases hrename
      case h_2 dir'' hsecond =>
        injection hrename with _ hdir
        subst hdir
        have hlt := rename_taken hwell hmem (fun hfree => hrefused
          ⟨hvalid', fun _ => .inl hcase, free_setName.mp hfree⟩) hsecond
        rwa [length_setName] at hlt

theorem length_providerRename_le {source : String}
    (hrename : providerRename fs directory temporary dir source name = (.ok (), dir')) :
    dir'.length ≤ dir.length := by
  unfold providerRename at hrename
  split at hrename
  case h_1 => cases hrename
  case h_2 =>
    simp only at hrename
    obtain ⟨-, hrename⟩ := Fallible.passed hrename nofun
    split at hrename
    case isFalse => exact length_rename_le hrename
    case isTrue =>
      split at hrename
      case h_1 => cases hrename
      case h_2 hfirst =>
        split at hrename
        case h_1 => cases hrename
        case h_2 hsecond =>
          injection hrename with _ hdir
          subst hdir
          exact Nat.le_trans (length_rename_le hsecond) (length_rename_le hfirst)

end Provider

-- ==== the run

/-- The entries to rename with their new names. -/
abbrev Jobs := List (Entry × String)

/-- The request for them. -/
def renamesOf (jobs : Jobs) : List Rename :=
  jobs.map fun job => { source := job.1.name, destination := job.2 }

/-- A directory with the renames done one by one. -/
def applied : Jobs → List Entry → List Entry
  | [], dir => dir
  | job :: rest, dir => applied rest (setName job.1.id job.2 dir)

/-- Each rename is accepted in its turn. -/
def Clear (fs : Filesystem) : Jobs → List Entry → Prop
  | [], _ => True
  | job :: rest, dir =>
    Accepts fs dir job.1 job.2 ∧ Clear fs rest (setName job.1.id job.2 dir)

/-- What a run starts from: distinct entries of the directory with names
they do not have, and temporary names that nothing has or gets. -/
structure Ready (fs : Filesystem) (temporaries : Nat → String) (jobs : Jobs)
    (dir : List Entry) : Prop where
  well : WellFormed fs dir
  mem : ∀ job ∈ jobs, job.1 ∈ dir
  ids : (jobs.map fun job => job.1.id).Nodup
  changed : ∀ job ∈ jobs, job.2 ≠ job.1.name
  fresh : ∀ index, ∀ other ∈ dir, fs.key other.name ≠ fs.key (temporaries index)
  unused : ∀ index, ∀ job ∈ jobs, fs.key job.2 ≠ fs.key (temporaries index)

section Run

variable {fs : Filesystem} {directory : Location} {temporaries : Nat → String} {jobs all : Jobs}
  {job : Entry × String} {dir dir' : List Entry}

@[simp] theorem length_applied (jobs : Jobs) (dir : List Entry) :
    (applied jobs dir).length = dir.length := by
  induction jobs generalizing dir with
  | nil => rfl
  | cons job rest ih => rw [applied, ih, length_setName]

theorem Ready.setName (h : Ready fs temporaries (job :: jobs) dir)
    (haccepts : Accepts fs dir job.1 job.2) :
    Ready fs temporaries jobs (setName job.1.id job.2 dir) := by
  have hnot := (nodup_cons.mp h.ids).1
  refine ⟨h.well.setName haccepts.free, ?_, (nodup_cons.mp h.ids).2, ?_, ?_, ?_⟩
  · intro later hlater
    refine mem_setName_of_ne (h.mem later (mem_cons_of_mem _ hlater)) fun hid => hnot ?_
    exact mem_map.mpr ⟨later, hlater, hid⟩
  · exact fun later hlater => h.changed later (mem_cons_of_mem _ hlater)
  · intro index other hother
    obtain ⟨before, hbefore, heq⟩ := mem_setName.mp hother
    by_cases hid : before.id = job.1.id
    · rw [if_pos hid] at heq
      subst heq
      exact h.unused index job mem_cons_self
    · rw [if_neg hid] at heq
      subst heq
      exact h.fresh index other hbefore
  · exact fun index later hlater => h.unused index later (mem_cons_of_mem _ hlater)

theorem find_renamesOf (hnames : (all.map fun job => job.1.name).Nodup) (hjob : job ∈ all) :
    ((renamesOf all).find? fun rename => rename.source = job.1.name)
      = some ⟨job.1.name, job.2⟩ := by
  induction all with
  | nil => cases hjob
  | cons first rest ih =>
    obtain ⟨hnot, hrest⟩ := nodup_cons.mp hnames
    unfold renamesOf
    rw [map_cons, List.find?_cons]
    rcases mem_cons.mp hjob with rfl | hmem
    · simp
    · have hne : first.1.name ≠ job.1.name := by
        intro heq
        exact hnot (mem_map.mpr ⟨job, hmem, heq.symm⟩)
      simp only [hne, decide_false]
      exact ih hrest hmem

theorem executeItem_eq (hnames : (all.map fun job => job.1.name).Nodup) (hjob : job ∈ all)
    (temporary : String) :
    executeItem fs directory (renamesOf all) temporary dir job.1.name
      = match providerRename fs directory temporary dir job.1.name job.2 with
        | (.error error, dir) => (.error (.provider error), dir)
        | (.ok (), dir) => (.ok (), dir) := by
  unfold executeItem
  cases hrename : providerRename fs directory temporary dir job.1.name job.2 with
  | mk result dir' =>
    cases result with
    | error error | ok _ => simp only [find_renamesOf hnames hjob, hrename]

theorem length_executeItems_le {renames items : List Rename} {index : Nat}
    (hrun : executeItems fs directory renames temporaries index items dir = (.ok (), dir')) :
    dir'.length ≤ dir.length := by
  induction items generalizing dir index with
  | nil => cases hrun; exact le_rfl
  | cons item rest ih =>
    unfold executeItems at hrun
    split at hrun
    case h_1 => cases hrun
    case h_2 next hitem =>
      refine Nat.le_trans (ih hrun) ?_
      unfold executeItem at hitem
      split at hitem
      case h_1 => cases hitem
      case h_2 =>
        split at hitem
        case h_1 => cases hitem
        case h_2 hrename =>
          injection hitem with _ hdir
          subst hdir
          exact length_providerRename_le hrename

theorem executeItems_of_clear (hnames : (all.map fun job => job.1.name).Nodup) (hsub : jobs ⊆ all)
    (hready : Ready fs temporaries jobs dir) (hclear : Clear fs jobs dir) (index : Nat) :
    executeItems fs directory (renamesOf all) temporaries index (renamesOf jobs) dir
      = (.ok (), applied jobs dir) := by
  induction jobs generalizing dir index with
  | nil => rfl
  | cons job rest ih =>
    have hrename := @providerRename_of_accepts fs directory dir job.1 job.2
      (temporaries index) hready.well (hready.mem job mem_cons_self)
      (hready.changed job mem_cons_self) (hready.fresh index) hclear.1
    show executeItems fs directory _ _ _ (⟨job.1.name, job.2⟩ :: renamesOf rest) dir = _
    unfold executeItems
    rw [executeItem_eq hnames (hsub mem_cons_self), hrename]
    exact ih (fun later hlater => hsub (mem_cons_of_mem _ hlater))
      (hready.setName hclear.1) hclear.2 (index + 1)

theorem clear_of_executeItems (hnames : (all.map fun job => job.1.name).Nodup) (hsub : jobs ⊆ all)
    (hready : Ready fs temporaries jobs dir) (index : Nat)
    (hrun : executeItems fs directory (renamesOf all) temporaries index (renamesOf jobs) dir
      = (.ok (), dir'))
    (hlength : dir'.length = dir.length) : Clear fs jobs dir := by
  induction jobs generalizing dir index with
  | nil => trivial
  | cons job rest ih =>
    have hmem := hready.mem job mem_cons_self
    have hchanged := hready.changed job mem_cons_self
    change executeItems fs directory _ _ _ (⟨job.1.name, job.2⟩ :: renamesOf rest) dir = _
      at hrun
    unfold executeItems at hrun
    rw [executeItem_eq hnames (hsub mem_cons_self)] at hrun
    by_cases haccepts : Accepts fs dir job.1 job.2
    · rw [providerRename_of_accepts hready.well hmem hchanged (hready.fresh index) haccepts]
        at hrun
      refine ⟨haccepts, ?_⟩
      exact ih (fun later hlater => hsub (mem_cons_of_mem _ hlater))
        (hready.setName haccepts) (index + 1) hrun (by rw [hlength, length_setName])
    · cases hrename : providerRename fs directory (temporaries index) dir job.1.name job.2 with
      | mk result next =>
        cases result with
        | error error => rw [hrename] at hrun; cases hrun
        | ok =>
          rw [hrename] at hrun
          have hlt := length_providerRename_lt hready.well hmem hchanged
            (hready.fresh index) haccepts hrename
          have hle := length_executeItems_le hrun
          omega

end Run

end FileManager.Renames
