/-
A multi-rename does what its preview shows, exactly if no entry is given
a name that an entry still to be renamed has, or one that stays.

The dialog compares the proposed names with each other and with the names
that stay, so among plans it accepts only the order of the renames, the
entries it does not list and the provider's own rules for names are left
to go wrong.
-/
import FileManager.Renames.Proofs.Applies

namespace FileManager.Renames

open List (mem_cons_self mem_cons_of_mem pairwise_cons mem_cons nodup_cons mem_map find?_eq_none
  of_mem_zip mem_of_mem_filter zip_cons_cons filter_cons_of_neg filter_cons_of_pos map_map
  find?_cons mem_filter)
open Nat List.Subset

-- ==== what is in the way

/-- Nothing is in the way of the renames, taken in order. -/
structure Unobstructed (fs : Filesystem) (dir : List Entry) (jobs : Jobs) : Prop where
  /-- The provider takes each name. -/
  valid : ∀ job ∈ jobs, validateName job.2 = .ok ()
  /-- A name that is the entry's own for the filesystem differs in ASCII
  case only, or `exists` does not see the entry. -/
  own : ∀ before job after, jobs = before ++ job :: after →
    fs.key job.2 = fs.key job.1.name →
    eqIgnoreAsciiCase job.1.name job.2 = true ∨ fs.resolves (applied before dir) job.1 = false
  /-- No name is that of an entry still to be renamed. -/
  later : jobs.Pairwise fun job after => fs.key after.1.name ≠ fs.key job.2
  /-- No two entries get one name. -/
  apart : jobs.Pairwise fun job after => fs.key job.2 ≠ fs.key after.2
  /-- No name is that of an entry that stays. -/
  others : ∀ job ∈ jobs, ∀ other ∈ dir, (∀ renamed ∈ jobs, other.id ≠ renamed.1.id) →
    fs.key other.name ≠ fs.key job.2

section Unobstructed

variable {fs : Filesystem} {temporaries : Nat → String} {jobs : Jobs} {job : Entry × String}
  {dir : List Entry}

theorem Unobstructed.accepts (hready : Ready fs temporaries (job :: jobs) dir)
    (h : Unobstructed fs dir (job :: jobs)) : Accepts fs dir job.1 job.2 := by
  refine ⟨h.valid job mem_cons_self, h.own [] job jobs rfl, ?_⟩
  intro other hother hne
  by_cases hlater : ∃ after ∈ jobs, other.id = after.1.id
  · obtain ⟨after, hafter, hid⟩ := hlater
    rw [hready.well.eq_of_id hother (hready.mem after (mem_cons_of_mem _ hafter)) hid]
    exact (pairwise_cons.mp h.later).1 after hafter
  · refine h.others job mem_cons_self other hother fun renamed hrenamed hid => ?_
    rcases mem_cons.mp hrenamed with rfl | hmem
    · exact hne hid
    · exact hlater ⟨renamed, hmem, hid⟩

theorem Unobstructed.rest (h : Unobstructed fs dir (job :: jobs)) :
    Unobstructed fs (setName job.1.id job.2 dir) jobs := by
  refine ⟨fun after hafter => h.valid after (mem_cons_of_mem _ hafter), ?_,
    (pairwise_cons.mp h.later).2, (pairwise_cons.mp h.apart).2, ?_⟩
  · intro before after rest heq
    exact h.own (job :: before) after rest (by rw [heq]; rfl)
  · intro after hafter other hother hstays
    obtain ⟨old, hold, heq⟩ := mem_setName.mp hother
    by_cases hid : old.id = job.1.id
    · rw [if_pos hid] at heq
      subst heq
      exact (pairwise_cons.mp h.apart).1 after hafter
    · rw [if_neg hid] at heq
      subst heq
      refine h.others after (mem_cons_of_mem _ hafter) other hold fun renamed hrenamed => ?_
      rcases mem_cons.mp hrenamed with rfl | hmem
      · exact hid
      · exact hstays renamed hmem

theorem Unobstructed.cons (hready : Ready fs temporaries (job :: jobs) dir)
    (haccepts : Accepts fs dir job.1 job.2)
    (h : Unobstructed fs (setName job.1.id job.2 dir) jobs) :
    Unobstructed fs dir (job :: jobs) := by
  have hnot : ∀ after ∈ jobs, after.1.id ≠ job.1.id := fun after hafter hid =>
    (nodup_cons.mp hready.ids).1 (mem_map.mpr ⟨after, hafter, hid⟩)
  refine ⟨?_, ?_, pairwise_cons.mpr ⟨?_, h.later⟩, pairwise_cons.mpr ⟨?_, h.apart⟩, ?_⟩
  · intro after hafter
    rcases mem_cons.mp hafter with rfl | hmem
    · exact haccepts.valid
    · exact h.valid after hmem
  · intro before after rest heq
    cases before with
    | nil =>
      injection heq with hhead _
      subst hhead
      exact haccepts.own
    | cons first before =>
      injection heq with hhead htail
      subst hhead
      exact h.own before after rest htail
  · intro after hafter
    exact haccepts.free after.1 (hready.mem after (mem_cons_of_mem _ hafter)) (hnot after hafter)
  · -- the entry under its new name is one that stays
    intro after hafter
    have hmem : { job.1 with name := job.2 } ∈ setName job.1.id job.2 dir :=
      mem_setName.mpr ⟨job.1, hready.mem job mem_cons_self, by rw [if_pos rfl]⟩
    exact h.others after hafter _ hmem fun renamed hrenamed => (hnot renamed hrenamed).symm
  · intro after hafter other hother hstays
    have hne : other.id ≠ job.1.id := hstays job mem_cons_self
    rcases mem_cons.mp hafter with rfl | hmem
    · exact haccepts.free other hother hne
    · exact h.others after hmem other (mem_setName_of_ne hother hne)
        fun renamed hrenamed => hstays renamed (mem_cons_of_mem _ hrenamed)

theorem clear_iff (hready : Ready fs temporaries jobs dir) :
    Clear fs jobs dir ↔ Unobstructed fs dir jobs := by
  induction jobs generalizing dir with
  | nil =>
    refine ⟨fun _ => ⟨?_, ?_, List.Pairwise.nil, List.Pairwise.nil, ?_⟩, fun _ => trivial⟩
    · intro job hjob
      cases hjob
    · intro before job after heq
      exact absurd heq.symm (by simp)
    · intro job hjob
      cases hjob
  | cons job rest ih =>
    constructor
    · intro hclear
      exact Unobstructed.cons hready hclear.1 ((ih (hready.setName hclear.1)).mp hclear.2)
    · intro h
      have haccepts := h.accepts hready
      exact ⟨haccepts, (ih (hready.setName haccepts)).mpr h.rest⟩

end Unobstructed

-- ==== the preview

/-- The preview of the renames of `entries`, as the dialog is opened: the
names that stay are those of the other listed entries. -/
def previewOf (fold : String → String) (proposeName : RenameTarget → Nat → String)
    (shown entries : List Entry) : List RenameProposal :=
  proposeRenames fold proposeName entries
    ((shown.filter fun entry => entry.id ∉ entries.map RenameTarget.id).map RenameTarget.name)

/-- An entry as the preview shows it. -/
def proposed (proposals : List RenameProposal) (entry : Entry) : Entry :=
  match proposals.find? fun proposal => proposal.id = entry.id with
  | some proposal => { entry with name := proposal.newName }
  | none => entry

/-- The entries with names that are not theirs. -/
def jobsOf (entries : List Entry) (names : List String) : Jobs :=
  (entries.zip names).filter fun job => job.2 ≠ job.1.name

/-- What becomes of an entry in a run. -/
def renamed (jobs : Jobs) (entry : Entry) : Entry :=
  match jobs.find? fun job => job.1.id = entry.id with
  | some job => { entry with name := job.2 }
  | none => entry

section Preview

variable {fold : String → String} {names existing : List String} {entry : Entry}
  {entries all dir : List Entry}

theorem find_entry (hids : (all.map RenameTarget.id).Nodup)
    (hentry : entry ∈ all) : (all.find? fun other => other.id = entry.id) = some entry := by
  cases hfind : all.find? fun other => other.id = entry.id with
  | none => simpa using find?_eq_none.mp hfind entry hentry
  | some other =>
    have hid : other.id = entry.id := by simpa using List.find?_some hfind
    rw [List.inj_on_of_nodup_map hids (List.mem_of_find?_eq_some hfind) hentry hid]

theorem find_jobsOf_of_not_mem {more : List String} {id : EntryId}
    (hid : id ∉ entries.map RenameTarget.id) :
    ((jobsOf entries more).find? fun job => job.1.id = id) = none := by
  rw [find?_eq_none]
  intro job hjob heq
  refine hid (mem_map.mpr ⟨job.1, ?_, by simpa using heq⟩)
  exact (of_mem_zip (mem_of_mem_filter hjob)).1

theorem requestOf_proposalsFor {more : List String}
    (hids : (all.map RenameTarget.id).Nodup) (hsub : entries ⊆ all) :
    requestOf all (proposalsFor fold names existing entries more)
      = renamesOf (jobsOf entries more) := by
  induction entries generalizing more with
  | nil => rfl
  | cons entry rest ih =>
    cases more with
    | nil => rfl
    | cons name more =>
      have hrest := @ih more fun later hlater => hsub (mem_cons_of_mem _ hlater)
      have hfind := find_entry hids (hsub mem_cons_self)
      unfold requestOf renamesOf jobsOf at *
      rw [proposalsFor, zip_cons_cons]
      by_cases hchanged : name = entry.name
      · rw [filter_cons_of_neg (by simpa using hchanged),
          filter_cons_of_neg (by simpa using hchanged)]
        exact hrest
      · rw [filter_cons_of_pos (by simpa using hchanged),
          filter_cons_of_pos (by simpa using hchanged), List.filterMap_cons, hfind,
          List.map_cons, ← hrest]
        rfl

theorem applied_eq_map {jobs : Jobs}
    (hids : (jobs.map fun job => job.1.id).Nodup) : applied jobs dir = dir.map (renamed jobs) := by
  induction jobs generalizing dir with
  | nil => exact (List.map_id _).symm
  | cons job rest ih =>
    obtain ⟨hnot, hrest⟩ := nodup_cons.mp hids
    rw [applied, ih hrest]
    unfold setName
    rw [map_map]
    refine List.map_congr_left fun entry _ => ?_
    show renamed rest (if entry.id = job.1.id then { entry with name := job.2 } else entry)
      = renamed (job :: rest) entry
    by_cases hid : entry.id = job.1.id
    · have hnone : (rest.find? fun later => later.1.id = entry.id) = none := by
        rw [find?_eq_none]
        intro later hlater heq
        rw [decide_eq_true_eq] at heq
        exact hnot (mem_map.mpr ⟨later, hlater, heq.trans hid⟩)
      rw [if_pos hid]
      unfold renamed
      rw [find?_cons]
      simp only [hnone, hid.symm, decide_true]
    · rw [if_neg hid]
      unfold renamed
      rw [find?_cons]
      simp only [decide_eq_false (fun heq : job.1.id = entry.id => hid heq.symm)]

theorem proposed_eq_renamed {more : List String} (hdir : (dir.map RenameTarget.id).Nodup)
    (hids : (entries.map RenameTarget.id).Nodup) (hsub : entries ⊆ dir) (hentry : entry ∈ dir) :
    proposed (proposalsFor fold names existing entries more) entry
      = renamed (jobsOf entries more) entry := by
  induction entries generalizing more with
  | nil => rfl
  | cons first rest ih =>
    cases more with
    | nil => rfl
    | cons name more =>
      obtain ⟨hnot, hrest⟩ := nodup_cons.mp hids
      have hlater := @ih more hrest fun later hlater => hsub (mem_cons_of_mem _ hlater)
      unfold proposed renamed at *
      rw [proposalsFor, find?_cons]
      by_cases hid : first.id = entry.id
      · have heq := List.inj_on_of_nodup_map hdir (hsub mem_cons_self) hentry hid
        subst heq
        simp only [decide_true]
        unfold jobsOf
        rw [zip_cons_cons]
        by_cases hchanged : name = first.name
        · rw [filter_cons_of_neg (by simpa using hchanged)]
          have hnone := @find_jobsOf_of_not_mem rest more first.id hnot
          unfold jobsOf at hnone
          rw [hnone, hchanged]
        · rw [filter_cons_of_pos (by simpa using hchanged), find?_cons]
          simp only [decide_true]
      · simp only [hid, decide_false]
        rw [hlater]
        unfold jobsOf
        rw [zip_cons_cons]
        by_cases hchanged : name = first.name
        · rw [filter_cons_of_neg (by simpa using hchanged)]
        · rw [filter_cons_of_pos (by simpa using hchanged), find?_cons]
          simp only [hid, decide_false]

end Preview

-- ==== the accepted plans

/-- What is left to go wrong in a plan that the dialog accepts: the
provider's rules for a name, the order, and entries that are not
listed. -/
structure InOrder (fs : Filesystem) (dir shown : List Entry) (jobs : Jobs) : Prop where
  valid : ∀ job ∈ jobs, validateName job.2 = .ok ()
  own : ∀ before job after, jobs = before ++ job :: after →
    fs.key job.2 = fs.key job.1.name →
    eqIgnoreAsciiCase job.1.name job.2 = true ∨ fs.resolves (applied before dir) job.1 = false
  later : jobs.Pairwise fun job after => fs.key after.1.name ≠ fs.key job.2
  unlisted : ∀ job ∈ jobs, ∀ other ∈ dir, other ∉ shown → fs.key other.name ≠ fs.key job.2

section Accepted

variable {fs : Filesystem} {fold : String → String} {proposeName : RenameTarget → Nat → String}
  {dir shown entries : List Entry} {job : Entry × String} {names existing more : List String}

theorem exists_proposal (hjob : job ∈ jobsOf entries more) :
    ∃ proposal ∈ proposalsFor fold names existing entries more,
      proposal.changed = true ∧ proposal.newName = job.2
        ∧ proposal.collision = collisionOf fold names existing job.2 := by
  induction entries generalizing more with
  | nil => exact absurd hjob (by simp [jobsOf])
  | cons entry rest ih =>
    cases more with
    | nil => exact absurd hjob (by simp [jobsOf])
    | cons name more =>
      obtain ⟨hzip, hchanged⟩ := mem_filter.mp hjob
      rw [zip_cons_cons] at hzip
      rw [proposalsFor]
      rcases mem_cons.mp hzip with rfl | hmem
      · exact ⟨_, mem_cons_self, hchanged, rfl, rfl⟩
      · obtain ⟨proposal, hproposal, hrest⟩ := ih (mem_filter.mpr ⟨hmem, hchanged⟩)
        exact ⟨proposal, mem_cons_of_mem _ hproposal, hrest⟩

theorem collision_of_canApply
    (happly : canApplyRenamePlan (proposalsFor fold names existing entries more) = true)
    (hjob : job ∈ jobsOf entries more) :
    (names.map fold).count (fold job.2) ≤ 1 ∧ fold job.2 ∉ existing.map fold := by
  obtain ⟨proposal, hproposal, hchanged, -, hcollision⟩ :=
    @exists_proposal fold entries job names existing more hjob
  unfold canApplyRenamePlan at happly
  rw [Bool.and_eq_true, List.all_eq_true] at happly
  have hnone := happly.2 proposal (mem_filter.mpr ⟨hproposal, hchanged⟩)
  rw [decide_eq_true_eq, hcollision] at hnone
  have hcollision := hnone.2
  unfold collisionOf at hcollision
  split at hcollision
  case isTrue => cases hcollision
  case isFalse hcount =>
    split at hcollision
    case isTrue => cases hcollision
    case isFalse hexisting => exact ⟨Nat.le_of_not_lt hcount, hexisting⟩

theorem length_newNames (index : Nat) (entries : List RenameTarget) :
    (newNames proposeName index entries).length = entries.length := by
  induction entries generalizing index with
  | nil => rfl
  | cons entry rest ih => simp only [newNames, List.length_cons, ih]

theorem eq_of_count_le_one {pairs : Jobs} {first second : Entry × String} (hfirst : first ∈ pairs)
    (hsecond : second ∈ pairs) (hfold : fold first.2 = fold second.2)
    (hcount : (pairs.map fun pair => fold pair.2).count (fold second.2) ≤ 1) : first = second := by
  rw [List.count_eq_countP, List.countP_map, List.countP_eq_length_filter] at hcount
  have hmem : ∀ pair ∈ pairs, fold pair.2 = fold second.2 →
      pair ∈ pairs.filter ((· == fold second.2) ∘ fun pair => fold pair.2) :=
    fun pair hpair heq => mem_filter.mpr ⟨hpair, by simpa using heq⟩
  have hone := hmem first hfirst hfold
  have htwo := hmem second hsecond rfl
  match hlist : pairs.filter ((· == fold second.2) ∘ fun pair => fold pair.2) with
  | [] => rw [hlist] at hone; cases hone
  | [only] =>
    rw [hlist, List.mem_singleton] at hone htwo
    exact hone.trans htwo.symm
  | _ :: _ :: _ =>
    rw [hlist] at hcount
    simp at hcount

theorem map_snd_zip (hlength : names.length = entries.length) :
    ((entries.zip names).map fun pair => fold pair.2) = names.map fold := by
  rw [← List.map_snd_zip (le_of_eq hlength), map_map, List.map_snd_zip (le_of_eq hlength)]
  rfl

theorem apart_of_canApply
    (hkey : ∀ a b, fs.key a = fs.key b → fold a = fold b) (hlength : names.length = entries.length)
    (happly : canApplyRenamePlan (proposalsFor fold names existing entries names) = true) :
    (jobsOf entries names).Pairwise fun job after => fs.key job.2 ≠ fs.key after.2 := by
  have hnodup : ((jobsOf entries names).map fun job => fold job.2).Nodup := by
    rw [List.nodup_iff_count_le_one]
    intro name
    by_cases hmem : name ∈ (jobsOf entries names).map fun job => fold job.2
    · obtain ⟨job, hjob, rfl⟩ := mem_map.mp hmem
      refine le_trans ?_ (collision_of_canApply happly hjob).1
      rw [← map_snd_zip hlength]
      exact (List.filter_sublist.map _).count_le _
    · rw [List.count_eq_zero_of_not_mem hmem]
      exact zero_le _
  exact (List.pairwise_map.mp hnodup).imp fun hne heq => hne (hkey _ _ heq)

theorem others_of_canApply (hkey : ∀ a b, fs.key a = fs.key b → fold a = fold b)
    (hdir : WellFormed fs dir) (hshown : shown ⊆ dir) (hentries : entries ⊆ shown)
    (happly : canApplyRenamePlan (previewOf fold proposeName shown entries) = true)
    (hjob : job ∈ jobsOf entries (newNames proposeName 0 entries))
    {other : Entry} (hother : other ∈ shown)
    (hstays : ∀ renamed ∈ jobsOf entries (newNames proposeName 0 entries),
      other.id ≠ renamed.1.id) :
    fs.key other.name ≠ fs.key job.2 := by
  intro heq
  have hfold := hkey _ _ heq
  have hlength := @length_newNames proposeName 0 entries
  obtain ⟨hcount, hexisting⟩ := collision_of_canApply happly hjob
  by_cases hselected : other.id ∈ entries.map RenameTarget.id
  · -- a selected entry that keeps its name has it among the proposed ones
    obtain ⟨same, hsame, hid⟩ := mem_map.mp hselected
    have hmem := hdir.eq_of_id (hshown (hentries hsame)) (hshown hother) hid
    subst hmem
    obtain ⟨name, hname⟩ : ∃ name, (same, name) ∈ entries.zip (newNames proposeName 0 entries) := by
      obtain ⟨index, hindex, rfl⟩ := List.mem_iff_getElem.mp hsame
      exact ⟨_, List.mem_iff_getElem.mpr ⟨index, by simp [hlength, hindex], by simp; rfl⟩⟩
    by_cases hkeeps : name = same.name
    · rw [← map_snd_zip hlength] at hcount
      have hjob' := eq_of_count_le_one hname (mem_of_mem_filter hjob)
        (by rw [← hfold, ← hkeeps]) hcount
      exact hstays job hjob (by rw [← hjob'])
    · exact hstays (same, name) (mem_filter.mpr ⟨hname, by simpa using hkeeps⟩) rfl
  · refine hexisting (mem_map.mpr ⟨other.name, mem_map.mpr ⟨other, ?_, rfl⟩, hfold⟩)
    exact mem_filter.mpr ⟨hother, by simpa using hselected⟩

theorem unobstructed_iff_inOrder (hkey : ∀ a b, fs.key a = fs.key b → fold a = fold b)
    (hdir : WellFormed fs dir) (hshown : shown ⊆ dir) (hentries : entries ⊆ shown)
    (happly : canApplyRenamePlan (previewOf fold proposeName shown entries) = true) :
    Unobstructed fs dir (jobsOf entries (newNames proposeName 0 entries))
      ↔ InOrder fs dir shown (jobsOf entries (newNames proposeName 0 entries)) := by
  constructor
  · intro h
    refine ⟨h.valid, h.own, h.later, fun job hjob other hother hnot => ?_⟩
    refine h.others job hjob other hother fun renamed hrenamed hid => hnot ?_
    have hmem := hentries (of_mem_zip (mem_of_mem_filter hrenamed)).1
    rwa [hdir.eq_of_id hother (hshown hmem) hid]
  · intro h
    refine ⟨h.valid, h.own, h.later, apart_of_canApply hkey (length_newNames 0 entries) happly, ?_⟩
    intro job hjob other hother hstays
    by_cases hlisted : other ∈ shown
    · exact others_of_canApply hkey hdir hshown hentries happly hjob hlisted hstays
    · exact h.unlisted job hjob other hother hlisted

end Accepted

-- ==== what applies

section Applies

variable {fs : Filesystem} {directory : Location} {temporaries : Nat → String}
  {fold : String → String} {proposeName : RenameTarget → Nat → String}
  {dir shown entries : List Entry}

theorem executeAll_iff_unobstructed
    (hready : Ready fs temporaries (jobsOf entries (newNames proposeName 0 entries)) dir)
    (hsub : entries ⊆ dir) (hids : (entries.map RenameTarget.id).Nodup) :
    executeAll fs directory temporaries
        (requestOf entries (previewOf fold proposeName shown entries)) dir
        = (.ok (), dir.map (proposed (previewOf fold proposeName shown entries)))
      ↔ Unobstructed fs dir (jobsOf entries (newNames proposeName 0 entries)) := by
  have happlied : dir.map (proposed (previewOf fold proposeName shown entries))
      = applied (jobsOf entries (newNames proposeName 0 entries)) dir := by
    rw [applied_eq_map hready.ids]
    exact List.map_congr_left fun entry hentry =>
      proposed_eq_renamed hready.well.ids hids hsub hentry
  have hnames : ((jobsOf entries (newNames proposeName 0 entries)).map
      fun job => job.1.name).Nodup := by
    refine List.Nodup.map_on (fun first hfirst second hsecond heq => ?_)
      (List.Nodup.of_map _ hready.ids)
    have hsame := hready.well.eq_of_key (hready.mem first hfirst) (hready.mem second hsecond)
      (by rw [heq])
    exact List.inj_on_of_nodup_map hready.ids hfirst hsecond (congrArg RenameTarget.id hsame)
  unfold executeAll
  rw [show requestOf entries (previewOf fold proposeName shown entries)
      = renamesOf (jobsOf entries (newNames proposeName 0 entries)) from
        requestOf_proposalsFor hids (refl _), happlied, ← clear_iff hready]
  constructor
  · intro hrun
    exact clear_of_executeItems hnames (refl _) hready 0 hrun (length_applied _ _)
  · intro hclear
    exact executeItems_of_clear hnames (refl _) hready hclear 0

theorem ready_jobsOf (hdir : WellFormed fs dir) (hsub : entries ⊆ dir)
    (hids : (entries.map RenameTarget.id).Nodup)
    (hfresh : ∀ index, ∀ other ∈ dir, fs.key other.name ≠ fs.key (temporaries index))
    (hunused : ∀ index, ∀ name ∈ newNames proposeName 0 entries,
      fs.key name ≠ fs.key (temporaries index)) :
    Ready fs temporaries (jobsOf entries (newNames proposeName 0 entries)) dir := by
  have hzip : ∀ job ∈ jobsOf entries (newNames proposeName 0 entries),
      job ∈ entries.zip (newNames proposeName 0 entries) :=
    fun job hjob => mem_of_mem_filter hjob
  refine ⟨hdir, ?_, ?_, ?_, hfresh, ?_⟩
  · exact fun job hjob => hsub (of_mem_zip (hzip job hjob)).1
  · refine List.Sublist.nodup (List.filter_sublist.map _) ?_
    have hmap : ((entries.zip (newNames proposeName 0 entries)).map fun job => job.1.id)
        = entries.map RenameTarget.id := by
      rw [← List.map_fst_zip (le_of_eq (@length_newNames proposeName 0 entries).symm),
        map_map, List.map_fst_zip (le_of_eq (length_newNames 0 entries).symm)]
      rfl
    rw [hmap]
    exact hids
  · exact fun job hjob => by simpa using (mem_filter.mp hjob).2
  · exact fun index job hjob => hunused index job.2 (of_mem_zip (hzip job hjob)).2

/-- A multi-rename that the dialog accepts does what it previews exactly
if nothing is in the way of its renames, in their order. -/
theorem multi_rename_applies_iff (fs : Filesystem) (directory : Location)
    (temporaries : Nat → String) (fold : String → String)
    (proposeName : RenameTarget → Nat → String) (dir shown entries : List Entry)
    (hdir : WellFormed fs dir) (hshown : shown ⊆ dir) (hentries : entries ⊆ shown)
    (hids : (entries.map RenameTarget.id).Nodup)
    (hfresh : ∀ index, ∀ other ∈ dir, fs.key other.name ≠ fs.key (temporaries index))
    (hunused : ∀ index, ∀ name ∈ newNames proposeName 0 entries,
      fs.key name ≠ fs.key (temporaries index))
    (happly : canApplyRenamePlan (previewOf fold proposeName shown entries) = true) :
    (executeAll fs directory temporaries
        (requestOf entries (previewOf fold proposeName shown entries)) dir
        = (.ok (), dir.map (proposed (previewOf fold proposeName shown entries)))
      ↔ Unobstructed fs dir (jobsOf entries (newNames proposeName 0 entries)))
    ∧ ((∀ a b, fs.key a = fs.key b → fold a = fold b) →
      (Unobstructed fs dir (jobsOf entries (newNames proposeName 0 entries))
        ↔ InOrder fs dir shown (jobsOf entries (newNames proposeName 0 entries)))) := by
  have hsub : entries ⊆ dir := fun entry hentry => hshown (hentries hentry)
  refine ⟨executeAll_iff_unobstructed (ready_jobsOf hdir hsub hids hfresh hunused) hsub hids, ?_⟩
  intro hkey
  exact unobstructed_iff_inOrder hkey hdir hshown hentries happly

end Applies

-- ==== two entries

/-- A filesystem where case matters and nothing is replaced. -/
def caseSensitive : Filesystem where
  key := id
  replaces := fun _ _ => false
  resolves := fun _ _ => true

/-- The mask `[C]` with a counter that starts at two. -/
def counted (_ : RenameTarget) (index : Nat) : String :=
  if index = 0 then "2.txt" else "3.txt"

/-- The same names, the last entry first. -/
def countedDown (_ : RenameTarget) (index : Nat) : String :=
  if index = 0 then "3.txt" else "2.txt"

def home : Location := ⟨"local", ⟨"", ["home"]⟩⟩
def firstFile : Entry := ⟨1, "1.txt"⟩
def secondFile : Entry := ⟨2, "2.txt"⟩

theorem multi_rename_applies_iff_last_first :
    canApplyRenamePlan (previewOf id countedDown [firstFile, secondFile]
        [secondFile, firstFile]) = true
      ∧ executeAll caseSensitive home (fun _ => ".fm-rename-0")
          (requestOf [secondFile, firstFile]
            (previewOf id countedDown [firstFile, secondFile] [secondFile, firstFile]))
          [firstFile, secondFile]
        = (.ok (), [⟨1, "2.txt"⟩, ⟨2, "3.txt"⟩]) := by
  have happly : canApplyRenamePlan (previewOf id countedDown [firstFile, secondFile]
      [secondFile, firstFile]) = true := by decide
  refine ⟨happly, ?_⟩
  have hiff := multi_rename_applies_iff caseSensitive home (fun _ => ".fm-rename-0") id
    countedDown [firstFile, secondFile] [firstFile, secondFile] [secondFile, firstFile]
    ⟨by decide, by decide⟩ (by decide) (by decide) (by decide) (fun _ => by decide)
    (fun _ => by decide) happly
  refine hiff.1.mpr ((hiff.2 fun a b h => h).mpr ⟨by decide, ?_, by decide, by decide⟩)
  intro before job after heq hkey
  have hmem : job ∈ jobsOf [secondFile, firstFile] (newNames countedDown 0 [secondFile, firstFile]) := by
    rw [heq]
    simp
  have hnot : ∀ job ∈ jobsOf [secondFile, firstFile]
      (newNames countedDown 0 [secondFile, firstFile]),
      caseSensitive.key job.2 ≠ caseSensitive.key job.1.name := by decide
  exact absurd hkey (hnot job hmem)

/-- Two files that each get the next number: the dialog accepts the plan,
and the first rename finds the second file in its way. -/
theorem accepted_chain_fails :
    canApplyRenamePlan (previewOf id counted [firstFile, secondFile] [firstFile, secondFile]) = true
      ∧ executeAll caseSensitive home (fun _ => ".fm-rename-0")
          (requestOf [firstFile, secondFile]
            (previewOf id counted [firstFile, secondFile] [firstFile, secondFile]))
          [firstFile, secondFile]
        = (.error (.provider (.alreadyExists (childOf home "2.txt"))),
            [firstFile, secondFile]) := by
  constructor <;> decide

end FileManager.Renames
