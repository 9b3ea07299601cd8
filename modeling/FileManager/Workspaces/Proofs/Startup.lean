/-
Startup and deletion over a directory with anything in it, where no
access fails.

`start` recovers from a selected file that is missing or rejected, by a
new default workspace. That needs a listing, for its name: a listing
returns unless a file panics, and a name is left unless all of them are
taken. A selected file that is read but not valid is not recovered from.
-/
import FileManager.Workspaces.Proofs.NoTrace
import FileManager.Workspaces.Proofs.Reachable
import Mathlib.Data.List.Perm.Subperm

namespace FileManager.Workspaces

open Fallible FileRepository List Nat Disk

variable {json : Json} {summaries : List Listed} {c : Char} {s s₁ s' : Disk json} {name : FileName}
  {service : Service} {ids : NewIds} {id : WorkspaceId} {base : String} {rounds : Nat}

-- ==== names

/-- What `names_match` compares. -/
def nameKey (name : String) : List Char := (trim name).map Char.toLower

theorem taken_iff {name : String} :
    taken summaries name = true
      ↔ nameKey name ∈ summaries.map fun summary => nameKey summary.name := by
  unfold taken
  rw [any_eq_true, mem_map]
  refine exists_congr fun summary => and_congr_right fun _ => ?_
  exact decide_eq_true_iff

theorem trim_eq_self {s : String} {first last : Char} {middle : List Char}
    (hs : s.toList = first :: middle ++ [last]) (hfirst : isWhitespace first = false)
    (hlast : isWhitespace last = false) : trim s = s.toList := by
  unfold trim
  rw [hs, cons_append, dropWhile_cons_of_neg (by simp [hfirst]),
    ← cons_append, reverse_append, reverse_singleton, singleton_append,
    dropWhile_cons_of_neg (by simp [hlast]), reverse_cons, reverse_reverse]

theorem toNat_of_isDigit (h : c.isDigit = true) : 48 ≤ c.toNat ∧ c.toNat ≤ 57 := by
  simp only [Char.isDigit, Bool.and_eq_true, decide_eq_true_eq, ge_iff_le,
    UInt32.le_iff_toNat_le] at h
  exact h

theorem isWhitespace_of_isDigit (h : c.isDigit = true) : isWhitespace c = false := by
  have hbounds := toNat_of_isDigit h
  unfold isWhitespace
  simp only [decide_eq_false_iff_not]
  omega

theorem toLower_of_isDigit (h : c.isDigit = true) : c.toLower = c := by
  have hbounds := toNat_of_isDigit h
  unfold Char.toLower
  rw [dif_neg]
  intro hboth
  obtain ⟨hupper, -⟩ := hboth
  have hupper : 65 ≤ c.toNat := UInt32.le_iff_toNat_le.mp hupper
  omega

theorem nameKey_candidate (suffix : Nat) :
    nameKey (candidate "Default" suffix) = "default ".toList ++ toDigits 10 suffix := by
  have hlist : (candidate "Default" suffix).toList
      = "Default ".toList ++ toDigits 10 suffix := by
    unfold candidate
    rw [String.toList_append, String.toList_append, toList_repr]
    rfl
  have hdigit : ∀ c ∈ toDigits 10 suffix, c.isDigit = true := fun c hc =>
    isDigit_of_mem_toDigits (by decide) (by decide) hc
  have htrim : trim (candidate "Default" suffix) = (candidate "Default" suffix).toList := by
    obtain ⟨digits, last, hdigits⟩ :=
      eq_nil_or_concat (toDigits 10 suffix) |>.resolve_left toDigits_ne_nil
    refine @trim_eq_self _ 'D' last ("efault ".toList ++ digits) ?_ (by decide) ?_
    · rw [hlist, hdigits, concat_eq_append, ← append_assoc]
      rfl
    · refine isWhitespace_of_isDigit (hdigit last ?_)
      rw [hdigits]
      simp
  unfold nameKey
  rw [htrim, hlist, map_append]
  refine congrArg _ ?_
  exact (map_congr_left fun c hc => toLower_of_isDigit (hdigit c hc)).trans (map_id _)

theorem nameKey_candidate_injective {i j : Nat}
    (h : nameKey (candidate "Default" i) = nameKey (candidate "Default" j)) : i = j := by
  rw [nameKey_candidate, nameKey_candidate] at h
  have hdigits := append_cancel_left h
  have hvalue := congrArg (fun digits => ofDigitChars 10 digits 0) hdigits
  simpa only [ofDigitChars_toDigits (show 1 < 10 by decide) (le_refl 10)] using hvalue

theorem exists_free {suffixes : List Nat}
    (hnodup : suffixes.Nodup) (h : summaries.length < suffixes.length) :
    ∃ suffix ∈ suffixes, taken summaries (candidate "Default" suffix) = false := by
  by_contra hnone
  have hkeys : (suffixes.map fun suffix => nameKey (candidate "Default" suffix)).Nodup :=
    hnodup.map fun _ _ => nameKey_candidate_injective
  have hsubset : (suffixes.map fun suffix => nameKey (candidate "Default" suffix))
      ⊆ summaries.map fun summary => nameKey summary.name := by
    intro key hkey
    obtain ⟨suffix, hmem, rfl⟩ := mem_map.mp hkey
    refine taken_iff.mp ?_
    by_contra hfree
    exact hnone ⟨suffix, hmem, by simpa using hfree⟩
  have hlength := (hkeys.subperm hsubset).length_le
  simp only [length_map] at hlength
  omega

/-- Some name that `unique_name` comes to is free. -/
def NameLeft (summaries : List Listed) : Prop :=
  taken summaries "Default" = false
    ∨ ∃ suffix < 2 ^ 32, taken summaries (candidate "Default" suffix) = false

theorem freeName_eq_some {name : String} {suffix : Nat} (hsuffix : suffix < 2 ^ 32)
    (h : freeName summaries base rounds suffix = some name) :
    ∃ suffix < 2 ^ 32, taken summaries (candidate base suffix) = false := by
  induction rounds generalizing suffix with
  | zero => cases h
  | succ rounds ih =>
    unfold freeName at h
    split at h
    case isTrue => exact ih (mod_lt _ (by decide)) h
    case isFalse hfree => exact ⟨suffix, hsuffix, by simpa using hfree⟩

theorem taken_of_freeName_eq_none {suffix i : Nat} (hsuffix : suffix < 2 ^ 32)
    (h : freeName summaries base rounds suffix = none) (hi : i < rounds) :
    taken summaries (candidate base ((suffix + i) % 2 ^ 32)) = true := by
  induction rounds generalizing suffix i with
  | zero => cases hi
  | succ rounds ih =>
    unfold freeName at h
    split at h
    case isFalse => cases h
    case isTrue htaken =>
      cases i with
      | zero =>
        rw [add_zero, mod_eq_of_lt hsuffix]
        exact htaken
      | succ i =>
        have hnext := ih (mod_lt _ (by decide)) h (lt_of_succ_lt_succ hi)
        rw [mod_add_mod] at hnext
        rw [show suffix + (i + 1) = suffix + 1 + i by omega]
        exact hnext

theorem freeName_isSome {suffix : Nat} (hsuffix : suffix < 2 ^ 32)
    (hfree : taken summaries (candidate "Default" suffix) = false) :
    ∃ name, freeName summaries "Default" (summaries.length + 1) 2 = some name := by
  cases hname : freeName summaries "Default" (summaries.length + 1) 2 with
  | some name => exact ⟨name, rfl⟩
  | none =>
    exfalso
    have htaken := fun i => @taken_of_freeName_eq_none summaries "Default" _ 2 i (by decide) hname
    by_cases hmany : 2 ^ 32 ≤ summaries.length + 1
    · -- the search has gone round
      have hround := htaken ((suffix + (2 ^ 32 - 2)) % 2 ^ 32)
        (lt_of_lt_of_le (mod_lt _ (by decide)) hmany)
      rw [add_mod_mod, show 2 + (suffix + (2 ^ 32 - 2)) = suffix + 2 ^ 32 by omega,
        add_mod_right, mod_eq_of_lt hsuffix, hfree] at hround
      cases hround
    · -- its candidates are all different
      have hnodup : ((List.range (summaries.length + 1)).map fun i => (2 + i) % 2 ^ 32).Nodup := by
        refine List.Nodup.map_on (fun i hi j hj heq => ?_) nodup_range
        rw [mem_range] at hi hj
        omega
      obtain ⟨k, hk, hfree⟩ := @exists_free summaries _ hnodup (by simp)
      obtain ⟨i, hi, rfl⟩ := mem_map.mp hk
      rw [htaken i (mem_range.mp hi)] at hfree
      cases hfree

theorem uniqueName_of_list (hlist : Yields list s (.ok summaries) s₁) (h : NameLeft summaries) :
    ∃ name, Yields (Service.uniqueName "Default") s (.ok name) s₁ := by
  by_cases htaken : taken summaries "Default" = true
  · obtain ⟨suffix, hsuffix, hfree⟩ := h.resolve_left (by rw [htaken]; simp)
    obtain ⟨name, hfound⟩ := freeName_isSome hsuffix hfree
    refine ⟨name, yields_bind_ok.mpr ⟨_, s₁, hlist, ?_⟩⟩
    rw [if_pos htaken, hfound]
    exact yields_pure.mpr ⟨rfl, rfl⟩
  · refine ⟨"Default", yields_bind_ok.mpr ⟨_, s₁, hlist, ?_⟩⟩
    rw [if_neg htaken]
    exact yields_pure.mpr ⟨rfl, rfl⟩

theorem nameLeft_of_uniqueName {name : String} (hlist : Yields list s (.ok summaries) s₁)
    (h : Yields (Service.uniqueName "Default") s (.ok name) s') : NameLeft summaries := by
  obtain ⟨summaries', s₂, hlist', h⟩ := yields_bind_ok.mp h
  obtain ⟨heq, -⟩ := hlist.unique hlist'
  cases heq
  split at h
  case isFalse hfree => exact .inl (eq_false_of_ne_true hfree)
  case isTrue =>
    split at h
    case h_2 => exact absurd h not_yields_stuck
    case h_1 found hfound => exact .inr (freeName_eq_some (by decide) hfound)

-- ==== loads

section NoFault

variable {s : Disk json} (hs : s.faults = []) {id : WorkspaceId}

include hs

theorem load_absent (h : s.read (.workspace id) = none) :
    Yields (Service.load id) s (.error (.notFound id)) s := by
  refine yields_bind.mpr (.inl ⟨none, s, repositoryLoad_absent hs h, ?_⟩)
  exact yields_throw.mpr ⟨rfl, rfl⟩

theorem load_corrupt (h : s.read (.workspace id) = some (.error .rejected)) :
    Yields (Service.load id) s (.error (.corrupt id)) (s.without (.workspace id)) :=
  yields_bind.mpr (.inr ⟨_, repositoryLoad_corrupt hs h, rfl⟩)

theorem load_invalid {w : Workspace} {error : WorkspaceError}
    (h : s.read (.workspace id) = some (.ok w)) (hinvalid : w.validate = .error error) :
    Yields (Service.load id) s (.error error) s := by
  refine yields_bind.mpr (.inl ⟨some w, s, repositoryLoad_workspace hs h, ?_⟩)
  refine yields_reads_bind.mpr (.inr ⟨error, ?_, rfl, rfl⟩)
  rw [hinvalid]

theorem load_panicked {r : Except WorkspaceError Workspace} {s' : Disk json}
    (h : s.read (.workspace id) = some (.error .panicked)) : ¬ Yields (Service.load id) s r s' := by
  intro hload
  have hfile : ∀ found s₁, ¬ Yields (readFile (.workspace id)) s found s₁ := by
    intro found s₁ hfile
    obtain ⟨read, hread, hfile⟩ | ⟨e, hread, -, -⟩ :=
      yields_reads_bind.mp ((access_bind_of_noFault hs).mp hfile)
    · injection hread with hread
      rw [h] at hread
      subst hread
      exact not_yields_stuck hfile
    · cases hread
  rcases yields_bind.mp hload with ⟨found, s₁, hload, -⟩ | ⟨e, hload, -⟩ <;>
    rcases yields_bind.mp hload with ⟨file, s₂, hread, -⟩ | ⟨e, hread, -⟩ <;>
    exact hfile _ _ hread

end NoFault

-- ==== new workspaces

/-- A default workspace can be made: a listing returns, and a name is
left. -/
structure Creatable (s : Disk json) : Prop where
  listing : ∀ name, s.read name ≠ some (.error .panicked)
  name : NameLeft ((s.files.map Prod.fst).filterMap s.listed)

theorem mem_names_of_read {found : Migrated Workspace}
    (h : s.read name = some found) : name ∈ s.files.map Prod.fst := by
  obtain ⟨bytes, hget, -⟩ := Option.map_eq_some_iff.mp h
  obtain ⟨pair, hfind, -⟩ := Option.map_eq_some_iff.mp hget
  refine mem_map.mpr ⟨pair, mem_of_find?_eq_some hfind, ?_⟩
  simpa using List.find?_some hfind

theorem creatable_of_createDefault {w : Workspace} (hs : s.faults = [])
    (h : Yields (service.createDefault ids) s (.ok w) s') : Creatable s := by
  unfold Service.createDefault Service.create at h
  obtain ⟨_, s₁, h, -⟩ := yields_bind_ok.mp h
  obtain ⟨base, hbase, h⟩ | ⟨e, -, h, -⟩ := yields_reads_bind.mp h
  case inr => cases h
  cases hbase
  obtain ⟨name, s₂, hname, -⟩ := yields_bind_ok.mp h
  have hok : ∀ name, s.read name ≠ some (.error .panicked) := by
    intro other hpanics
    obtain ⟨summaries, s₃, hlist, -⟩ := yields_bind_ok.mp hname
    exact list_panicked (mem_names_of_read hpanics) hpanics hlist
  exact ⟨hok, nameLeft_of_uniqueName (list_of_noFault hs fun name _ => hok name) hname⟩

theorem read_swept (s : Disk json) (names : List FileName) (name : FileName) :
    (s.swept names).read name
      = if name ∈ names ∧ s.rejects name = true then none else s.read name := by
  unfold Disk.read swept
  rw [Keyed.get_keep]
  by_cases h : name ∈ names ∧ s.rejects name = true
  · rw [if_neg (by simp [h]), if_pos h]
    rfl
  · rw [if_pos (decide_eq_true h), if_neg h]

theorem read_swept_ne_rejected (s : Disk json) (name : FileName) :
    (s.swept (s.files.map Prod.fst)).read name ≠ some (.error .rejected) := by
  intro h
  rw [read_swept] at h
  obtain ⟨hnot, h⟩ := passed h nofun
  refine hnot ⟨mem_names_of_read h, ?_⟩
  unfold rejects
  rw [h]

theorem save_of_noFault (hs : s.faults = []) (workspace : Workspace)
    (hpanics : s.read (.workspace workspace.id) ≠ some (.error .panicked))
    (hrejects : s.read (.workspace workspace.id) ≠ some (.error .rejected)) :
    ∃ w, Yields (save workspace none) s (.ok w) (s.store workspace.id w)
      ∧ w.id = workspace.id ∧ w.validate = workspace.validate := by
  have hfound : ∃ found, Yields (readFile (.workspace workspace.id)) s (.ok found) s := by
    cases hread : s.read (.workspace workspace.id) with
    | none => exact ⟨_, readFile_absent hs hread⟩
    | some found =>
      match found with
      | .ok w => exact ⟨_, readFile_workspace hs hread⟩
      | .error .panicked => exact absurd hread hpanics
      | .error .rejected => exact absurd hread hrejects
  obtain ⟨found, hfile⟩ := hfound
  cases hexisting : found.existing with
  | none =>
    refine ⟨{ workspace with revision := 1, updatedAt := s.now },
      (save_of_found hs hfile).2 _ ?_, rfl, rfl⟩
    rw [hexisting]
    rfl
  | some existing =>
    refine ⟨stamp workspace existing s.now, (save_of_found hs hfile).2 _ ?_, rfl, rfl⟩
    rw [hexisting]
    rfl

theorem select_of_noFault (hs : s.faults = []) (w : Workspace) :
    ∃ s', Yields (do
        setLastActiveWorkspaceId (some w.id)
        publish w.id (.opened w.revision)
        return w) s (.ok w) s'
      ∧ s'.lastActive = .recorded (some w.id) := by
  have hset : Yields (setLastActiveWorkspaceId (some w.id)) s (.ok ⟨⟩)
      { s with lastActive := .recorded (some w.id) } :=
    (access_bind_of_noFault hs).mpr (yields_writes.mpr ⟨rfl, rfl⟩)
  exact ⟨_, yields_bind_ok.mpr ⟨⟨⟩, _, hset,
    yields_writes_bind.mpr (yields_pure.mpr ⟨rfl, rfl⟩)⟩, rfl⟩

theorem createDefault_of_creatable (hs : s.faults = []) (h : Creatable s) :
    ∃ w s', Yields (service.createDefault ids) s (.ok w) s' ∧ w.validate = .ok ()
      ∧ s'.lastActive = .recorded (some w.id) := by
  have hlist := list_of_noFault hs fun name _ => h.listing name
  generalize hswept : s.swept (s.files.map Prod.fst) = s₁ at hlist
  have hs₁ : s₁.faults = [] := by
    rw [← hswept]
    exact hs
  obtain ⟨name, hname⟩ := uniqueName_of_list hlist h.name
  -- the workspace with it
  generalize hbase : defaultWorkspace json.isUuid service.homeDirectory
    service.secondaryLocation ids s.now = base
  have hvalid : ({ base with name := name } : Workspace).validate = .ok () := by
    have hwell := @defaultWorkspace_wellFormed json.isUuid service.homeDirectory
      service.secondaryLocation ids s.now
    rw [hbase] at hwell
    exact validate_eq_ok.mpr ⟨hwell.schema, hwell.nonempty, hwell.ids, hwell.panes,
      hwell.active, hwell.layout⟩
  obtain ⟨w, hsave, hid, hsame⟩ := save_of_noFault hs₁ { base with name := name } (by
      rw [← hswept, read_swept]
      split
      case isTrue => simp
      case isFalse => exact h.listing _)
    (by
      rw [← hswept]
      exact read_swept_ne_rejected s _)
  obtain ⟨s₂, hpublish, hs₂⟩ : ∃ s₂, Yields (do
        publish w.id (.created w.revision)
        return w) (s₁.store base.id w) (.ok w) s₂ ∧ s₂.faults = [] :=
    ⟨_, yields_writes_bind.mpr (yields_pure.mpr ⟨rfl, rfl⟩), hs₁⟩
  have hcreate : Yields (service.create ids none) s (.ok w) s₂ := by
    refine yields_reads_bind.mpr (.inl ⟨base, congrArg Except.ok hbase, ?_⟩)
    refine yields_bind_ok.mpr ⟨name, s₁, by rw [← hbase]; exact hname, ?_⟩
    refine yields_reads_bind.mpr (.inl ⟨⟨⟩, by rw [hvalid], ?_⟩)
    exact yields_bind_ok.mpr ⟨w, _, hsave, hpublish⟩
  obtain ⟨s₃, hselect, hrecorded⟩ := select_of_noFault hs₂ w
  exact ⟨w, s₃, yields_bind_ok.mpr ⟨w, s₂, hcreate, hselect⟩, hsame.trans hvalid, hrecorded⟩

-- ==== startup

theorem createDefault_iff (hs : s.faults = []) :
    (∃ w s', Yields (service.createDefault ids) s (.ok w) s' ∧ w.validate = .ok ()
      ∧ s'.lastActive = .recorded (some w.id)) ↔ Creatable s := by
  constructor
  · intro hfound
    obtain ⟨w, s', h, -, -⟩ := hfound
    exact creatable_of_createDefault hs h
  · exact createDefault_of_creatable hs

theorem creatable_without (h : s.read name = some (.error .rejected)) :
    Creatable (s.without name) ↔ Creatable s := by
  have hrejects : s.rejects name = true := by
    unfold rejects
    rw [h]
  have hpanics : ∀ n, (s.without name).read n = some (.error .panicked)
      ↔ s.read n = some (.error .panicked) := by
    intro n
    rw [read_without]
    by_cases hn : n = name
    · rw [if_pos hn, hn, h]
      simp
    · rw [if_neg hn]
  have hnone : s.listed name = none := by
    unfold listed
    rw [h]
  have hlisted : ((s.without name).files.map Prod.fst).filterMap (s.without name).listed
      = (s.files.map Prod.fst).filterMap s.listed := by
    rw [listed_without hrejects, filterMap_map, filterMap_map]
    unfold without Keyed.keep
    rw [filterMap_filter]
    refine filterMap_congr fun pair _ => ?_
    by_cases hn : pair.1 = name
    · simp [hn, hnone]
    · simp [hn]
  constructor
  · intro hboth
    obtain ⟨hlisting, hname⟩ := hboth
    exact ⟨fun n hn => hlisting n ((hpanics n).mpr hn), hlisted ▸ hname⟩
  · intro hboth
    obtain ⟨hlisting, hname⟩ := hboth
    exact ⟨fun n hn => hlisting n ((hpanics n).mp hn), hlisted.symm ▸ hname⟩

/-- What `start` can start with: the selected file is valid, or it is
missing or rejected and a default workspace can be made. -/
def Startable (s : Disk json) (requested : Option WorkspaceId) : Prop :=
  match requested.or s.lastActive.id with
  | none => Creatable s
  | some id =>
    match s.read (.workspace id) with
    | some (.ok w) => w.validate = .ok ()
    | some (.error .panicked) => False
    | some (.error .rejected) | none => Creatable s

theorem start_iff (hs : s.faults = []) (requested : Option WorkspaceId) :
    (∃ w s', Yields (service.start ids requested) s (.ok w) s' ∧ w.validate = .ok ()
      ∧ s'.lastActive = .recorded (some w.id)) ↔ Startable s requested := by
  have hselected : Yields (Service.selectedId requested) s
      (.ok (requested.or s.lastActive.id)) s := by
    cases requested with
    | some id => exact yields_pure.mpr ⟨rfl, rfl⟩
    | none => exact (access_bind_of_noFault hs).mpr (yields_reads.mpr ⟨rfl, rfl⟩)
  unfold Service.start Startable
  simp only [yields_bind_of hselected]
  cases requested.or s.lastActive.id with
  | none => exact createDefault_iff hs
  | some id =>
    dsimp only
    cases hread : s.read (.workspace id) with
    | none =>
      simp only [yields_caught_bind (load_absent hs hread)]
      exact createDefault_iff hs
    | some found =>
      cases found with
      | error error =>
        cases error with
        | panicked =>
          refine ⟨?_, False.elim⟩
          intro hfound
          obtain ⟨w, s', h, -⟩ := hfound
          obtain ⟨r, s₁, hload, -⟩ := yields_bind_ok.mp h
          obtain ⟨r', -, hload⟩ := yields_caught.mp hload
          exact load_panicked hs hread hload
        | rejected =>
          simp only [yields_caught_bind (load_corrupt hs hread)]
          rw [← creatable_without hread]
          exact createDefault_iff hs
      | ok w =>
        dsimp only
        by_cases hvalid : w.validationErrors = []
        · have hvalid : w.validate = .ok () := if_pos hvalid
          simp only [yields_caught_bind (serviceLoad_of_noFault hs hread hvalid)]
          obtain ⟨s', hselect, hrecorded⟩ := select_of_noFault hs w
          exact ⟨fun _ => hvalid, fun _ => ⟨w, s', hselect, hvalid, hrecorded⟩⟩
        · have hinvalid : w.validate = .error (.invalid w.validationErrors) := if_neg hvalid
          simp only [yields_caught_bind (load_invalid hs hread hinvalid)]
          refine ⟨?_, fun h => ?_⟩
          · intro hfound
            obtain ⟨w', s', h, -⟩ := hfound
            cases (yields_throw.mp h).1
          · simp [hinvalid] at h

-- ==== deletion

theorem lists_iff (hs : s.faults = []) (P : Listed → Prop) :
    (∃ l s', Yields list s (.ok l) s' ∧ ∀ summary ∈ l, P summary)
      ↔ ∀ name, s.read name ≠ some (.error .panicked)
        ∧ ∀ w, s.read name = some (.ok w) → P (Listed.of w) := by
  constructor
  · intro hfound name
    obtain ⟨l, s', hlist, hl⟩ := hfound
    have hok : ∀ name, s.read name ≠ some (.error .panicked) := fun other hpanics =>
      list_panicked (mem_names_of_read hpanics) hpanics hlist
    obtain ⟨heq, -⟩ := hlist.unique (list_of_noFault hs fun name _ => hok name)
    cases heq
    refine ⟨hok name, fun w hread => hl _ ?_⟩
    refine mem_filterMap.mpr ⟨name, mem_names_of_read hread, ?_⟩
    unfold listed
    rw [hread]
  · intro h
    refine ⟨_, _, list_of_noFault hs fun name _ => (h name).1, fun summary hmem => ?_⟩
    obtain ⟨name, -, hlisted⟩ := mem_filterMap.mp hmem
    unfold listed at hlisted
    split at hlisted
    case h_1 w hread =>
      cases hlisted
      exact (h name).2 w hread
    case h_2 => cases hlisted

/-- A workspace whose file is rejected, or is read but not valid. -/
def Unusable (s : Disk json) (id : WorkspaceId) : Prop :=
  s.read (.workspace id) = some (.error .rejected)
    ∨ ∃ w, s.read (.workspace id) = some (.ok w) ∧ w.validate ≠ .ok ()

theorem delete_of_unusable (hs : s.faults = []) (h : Unusable s id) :
    ∃ r published, Yields (Service.delete id none) s r
        { s.without (.workspace id) with published := published }
      ∧ (r = .ok ⟨⟩ ∨ r = .error (.notFound id)) := by
  rcases h with hread | ⟨w, hread, -⟩
  · -- the load moves the file away, and then there is none
    have hgone : (s.without (.workspace id)).read (.workspace id) = none := by
      rw [read_without, if_pos rfl]
    refine ⟨_, s.published, (yields_caught_bind (repositoryLoad_corrupt hs hread)).mpr ?_, .inr rfl⟩
    refine yields_bind.mpr (.inr ⟨_, ?_, rfl⟩)
    have hfile := @readFile_absent json (s.without (.workspace id)) hs _ hgone
    exact (yields_bind_of hfile).mpr (yields_throw.mpr ⟨rfl, rfl⟩)
  · refine ⟨_, s.published ++ [(id, .deleted w.revision)],
      (yields_caught_bind (repositoryLoad_workspace hs hread)).mpr ?_, .inl rfl⟩
    have hdelete : Yields (delete id none) s (.ok ⟨⟩) (s.without (.workspace id)) := by
      refine (yields_bind_of (readFile_workspace hs hread)).mpr ?_
      refine (yields_bind_of (yields_onlyIf.mpr (.inr ⟨rfl, rfl, rfl⟩))).mpr ?_
      exact (access_bind_of_noFault hs).mpr (yields_writes.mpr ⟨rfl, rfl⟩)
    exact (yields_bind_of hdelete).mpr (yields_writes.mpr ⟨rfl, rfl⟩)

/-- No other file holds the identifier, and none keeps a listing from
returning. -/
def OnlyThere (s : Disk json) (id : WorkspaceId) : Prop :=
  ∀ name, name ≠ .workspace id → s.read name ≠ some (.error .panicked)
    ∧ ∀ w, s.read name = some (.ok w) → w.id ≠ id

theorem delete_iff (hs : s.faults = []) (h : Unusable s id) :
    (∃ r s', Yields (Service.delete id none) s r s' ∧ (r = .ok ⟨⟩ ∨ r = .error (.notFound id))
      ∧ ∃ l s'', Yields list s' (.ok l) s'' ∧ ∀ summary ∈ l, summary.id ≠ id) ↔ OnlyThere s id := by
  obtain ⟨r, published, hdelete, hr⟩ := delete_of_unusable hs h
  generalize hs' : { s.without (.workspace id) with published := published } = s' at hdelete
  have hfaults : s'.faults = [] := by
    rw [← hs']
    exact hs
  have hread : ∀ name, s'.read name = if name = .workspace id then none else s.read name := by
    intro name
    rw [← read_without, ← hs']
    rfl
  have hlists := lists_iff hfaults fun summary => summary.id ≠ id
  have honly : (∀ name, s'.read name ≠ some (.error .panicked)
      ∧ ∀ w, s'.read name = some (.ok w) → (Listed.of w).id ≠ id) ↔ OnlyThere s id := by
    refine forall_congr' fun name => ?_
    rw [hread]
    by_cases hname : name = .workspace id
    · simp [hname]
    · rw [if_neg hname]
      exact ⟨fun h _ => h, fun h => h hname⟩
  constructor
  · intro hfound
    obtain ⟨r', s₁, hdelete', -, hlist⟩ := hfound
    obtain ⟨-, rfl⟩ := hdelete.unique hdelete'
    exact honly.mp (hlists.mp hlist)
  · intro hthere
    exact ⟨r, s', hdelete, hr, hlists.mpr (honly.mpr hthere)⟩

theorem startup_recovers_iff {service : Service} {ids : NewIds} {s : Disk json}
    (hs : s.faults = []) (requested : Option WorkspaceId) (id : WorkspaceId) :
    ((∃ w s', Yields (service.start ids requested) s (.ok w) s' ∧ w.validate = .ok ()
        ∧ s'.lastActive = .recorded (some w.id))
      ↔ Startable s requested)
    ∧ (Unusable s id →
        ((∃ r s', Yields (Service.delete id none) s r s' ∧ (r = .ok ⟨⟩ ∨ r = .error (.notFound id))
          ∧ ∃ l s'', Yields list s' (.ok l) s'' ∧ ∀ summary ∈ l, summary.id ≠ id)
        ↔ OnlyThere s id)) :=
  ⟨start_iff hs requested, delete_iff hs⟩

-- ==== the samples

/-- A directory with one file, of the workspace that was last active. -/
def lastActiveDisk (content : Value) : Disk plainJson where
  files := [(.workspace 0, content)]
  lastActive := .recorded (some 0)
  faults := []
  now := 5
  published := []

theorem read_lastActiveDisk (content : Value) (name : FileName) :
    (lastActiveDisk content).read name
      = if name = .workspace 0 then some (parseAndMigrate plainJson 5 content) else none := by
  unfold Disk.read lastActiveDisk Keyed.get
  by_cases h : name = .workspace 0
  · subst h
    rfl
  · simp [h, Ne.symm h]

/-- A broken last active workspace is recovered from, and can be
deleted. -/
theorem startup_recovers_iff_broken :
    (∃ w s', Yields (sampleService.start sampleIds none) (lastActiveDisk (.string "")) (.ok w) s'
      ∧ w.validate = .ok () ∧ s'.lastActive = .recorded (some w.id))
    ∧ ∃ r s', Yields (Service.delete 0 none) (lastActiveDisk (.string "")) r s'
      ∧ (r = .ok ⟨⟩ ∨ r = .error (.notFound 0))
      ∧ ∃ l s'', Yields list s' (.ok l) s'' ∧ ∀ summary ∈ l, summary.id ≠ 0 := by
  have hread := read_lastActiveDisk (.string "")
  have hbroken : (lastActiveDisk (.string "")).read (.workspace 0)
      = some (.error .rejected) := rfl
  have hother : ∀ name, (lastActiveDisk (.string "")).read name ≠ some (.error .panicked) := by
    intro name
    rw [hread]
    split
    · rw [show parseAndMigrate plainJson 5 (.string "") = .error .rejected from rfl]
      simp
    · simp
  obtain ⟨hstart, hdelete⟩ := @startup_recovers_iff plainJson sampleService sampleIds
    (lastActiveDisk (.string "")) rfl none 0
  refine ⟨hstart.mpr ?_, (hdelete (.inl hbroken)).mpr fun name hname => ⟨hother name, ?_⟩⟩
  · show Creatable (lastActiveDisk (.string ""))
    exact ⟨hother, .inl rfl⟩
  · intro w hw
    rw [hread, if_neg hname] at hw
    cases hw

/-- A workspace whose active pane is not one of its panes. -/
def misplacedWorkspace : Workspace := { sampleWorkspace with activePaneId := 2 }

/-- A file of version 1 with a tab that is a number. -/
def oddTab : Value := .object
  [("schema_version", .natural 1), ("panes", .array [.object [("tabs", .array [.natural 7])]])]

/-- The last active workspace is not valid: startup fails. One of its
tabs is a number: startup does not return. -/
theorem invalid_workspace_stops_startup :
    (∃ s', Yields (sampleService.start sampleIds none) (lastActiveDisk misplacedWorkspace.write)
      (.error (.invalid [.activePaneNotFound 2])) s')
    ∧ ∀ r s', ¬ Yields (sampleService.start sampleIds none) (lastActiveDisk oddTab) r s' := by
  constructor
  · exact ⟨_, by rfl⟩
  · intro r s' h
    have hrun : (sampleService.start sampleIds none).run.run (lastActiveDisk oddTab) = none := by
      rfl
    cases hrun.symm.trans h

end FileManager.Workspaces
