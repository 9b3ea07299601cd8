/-
Native paths as locations, and back.

A location keeps the `Normal` components of a path and no others. So a
path comes back as it was but for one with `..`, which comes back as
another path; and a location that is spelled with a `..` loses it on the
way through its path.
-/
import FileManager.Locations.Proofs.Safety
import Mathlib.Data.List.Induction

namespace FileManager.Locations

open List Locations.Location ParsedFileUri Place
open ParsedFileUri (parse validateSegments intoLocation)

variable {isUuid : List Char → Bool} {l : Location} {path : List UInt8} {segments : List Segment}
  {parsed : ParsedFileUri} {segment : Segment}

/-- If a path becomes a location, that leads back to a path with the same
components. -/
def RoundTrips (isUuid : List Char → Bool) (path : List UInt8) : Prop :=
  ∀ l, fromNativePath isUuid path = .ok l →
    ∃ back, l.toNativePath = some back ∧ components back = components path

/-- A location leads to a path that becomes a location with the same
segments, but for `.`. -/
structure Returns (isUuid : List Char → Bool) (l : Location) (parsed : ParsedFileUri) : Prop where
  back : ∃ path back after, l.toNativePath = some path
    ∧ fromNativePath isUuid path = .ok back
    ∧ parse back.uri = .ok after
    ∧ after.segments.filter (· ≠ [46]) = parsed.segments.filter (· ≠ [46])

-- ==== components

theorem components_native (h : ∀ segment ∈ segments, (47 : UInt8) ∉ segment) :
    components (47 :: [47].intercalate segments) = .rootDir :: segments.filterMap componentOf := by
  unfold components
  rw [splitOn_rooted]
  cases segments with
  | nil => rfl
  | cons segment rest =>
    rw [splitOn_intercalate 47 h (cons_ne_nil _ _)]
    rfl

theorem filterMap_nativeSegments (path : List UInt8) :
    (nativeSegments path).filterMap componentOf
      = ((path.splitOn 47).filterMap componentOf).filter (· ≠ .parentDir) := by
  unfold nativeSegments
  induction path.splitOn 47 with
  | nil => rfl
  | cons part rest ih =>
    by_cases hpassed : part = [] ∨ part = [46]
    · have hnone : componentOf part = none := if_pos hpassed
      rcases hpassed with rfl | rfl <;> simpa [hnone] using ih
    · by_cases hparent : part = [46, 46]
      · have hup : componentOf [46, 46] = some .parentDir := rfl
        subst hparent
        simpa [hup] using ih
      · have hname : componentOf part = some (.normal part) := by
          rw [componentOf, if_neg hpassed, if_neg hparent]
        have hkept : part ≠ [] ∧ part ≠ [46] ∧ part ≠ [46, 46] :=
          ⟨fun h => hpassed (.inl h), fun h => hpassed (.inr h), hparent⟩
        simpa [hname, hkept] using ih

theorem nativeSegments_native (h : ∀ segment ∈ segments, (47 : UInt8) ∉ segment)
    (hne : ∀ segment ∈ segments, segment ≠ []) :
    nativeSegments (47 :: [47].intercalate segments)
      = (segments.filter (· ≠ [46])).filter (· ≠ [46, 46]) := by
  unfold nativeSegments
  rw [splitOn_rooted]
  cases segments with
  | nil => rfl
  | cons segment rest =>
    rw [splitOn_intercalate 47 h (cons_ne_nil _ _), filter_filter, filter_cons_of_neg (by simp)]
    refine filter_congr fun part hpart => ?_
    simp [hne part hpart, Bool.and_comm]

theorem filter_up_eq_iff (segments : List Segment) :
    ((segments.filter (· ≠ [46])).filter (· ≠ [46, 46])).filter (· ≠ [46])
      = segments.filter (· ≠ [46]) ↔ [46, 46] ∉ segments := by
  have hkept : ((segments.filter (· ≠ [46])).filter (· ≠ [46, 46])).filter (· ≠ [46])
      = (segments.filter (· ≠ [46])).filter (· ≠ [46, 46]) := by
    refine filter_eq_self.mpr fun segment hmem => ?_
    exact (mem_filter.mp (mem_filter.mp hmem).1).2
  rw [hkept, filter_eq_self]
  constructor
  · intro h hmem
    exact absurd rfl (of_decide_eq_true (h _ (mem_filter.mpr ⟨hmem, rfl⟩)))
  · intro h segment hmem
    exact decide_eq_true fun hup => h (hup ▸ mem_of_mem_filter hmem)

-- ==== back and forth

theorem slash_not_mem_of_valid (h : parsed.validateSegments = .ok ()) :
    ∀ segment ∈ parsed.segments, (47 : UInt8) ∉ segment :=
  fun segment hmem => slash_not_mem ((validateSegments_eq_ok.mp h).2 segment hmem)

theorem toNativePath_place (h : WellFormed isUuid ⟨.file, [], segments⟩) :
    (location ⟨.file, [], segments⟩).toNativePath = some (47 :: [47].intercalate segments) :=
  (toNativePath_eq rfl rfl (reads_render h)).trans (if_neg (not_not.mpr rfl))

theorem roundTrips_iff (hroot : path.head? = some 47)
    (hvalid : validateSegments ⟨[], nativeSegments path⟩ = .ok ()) :
    RoundTrips isUuid path ↔ .parentDir ∉ components path := by
  have hplace : WellFormed isUuid ⟨.file, [], nativeSegments path⟩ := native_wellFormed hvalid
  have hback := components_native (slash_not_mem_of_valid hvalid)
  have hcomponents : components path = .rootDir :: (path.splitOn 47).filterMap componentOf := by
    unfold components
    rw [if_pos hroot]
    rfl
  have hsame : components (47 :: [47].intercalate (nativeSegments path)) = components path
      ↔ .parentDir ∉ components path := by
    rw [hback, hcomponents, filterMap_nativeSegments, List.cons.injEq, filter_eq_self]
    generalize (path.splitOn 47).filterMap componentOf = parts
    grind
  rw [← hsame]
  constructor
  · intro h
    obtain ⟨back, hnative, hcomponents⟩ := h _ (fromNativePath_eq_ok.mpr ⟨hroot, hvalid, rfl⟩)
    obtain rfl := Option.some.inj ((toNativePath_place hplace).symm.trans hnative)
    exact hcomponents
  · intro h l hl
    obtain ⟨-, -, rfl⟩ := fromNativePath_eq_ok.mp hl
    exact ⟨_, toNativePath_place hplace, h⟩

theorem Accepted.file (hl : Accepted isUuid l)
    (hlocal : l.providerId = "local") (hparsed : parse l.uri = .ok parsed) :
    Names isUuid l ⟨.file, parsed.authority, parsed.segments⟩
      ∧ WellFormed isUuid ⟨.file, parsed.authority, parsed.segments⟩ := by
  obtain ⟨⟨scheme, authority, segments⟩, hnames, hplace⟩ := hl.names
  have hfile : Scheme.provider scheme = "local" := hnames.provider.symm.trans hlocal
  obtain rfl : scheme = .file := by
    cases scheme with
    | file => rfl
    | _ => exact absurd hfile (by decide)
  obtain rfl := Except.ok.inj (hnames.parsed.1.symm.trans hparsed)
  exact ⟨hnames, hplace⟩

theorem returns_iff (hl : Accepted isUuid l) (hlocal : l.providerId = "local")
    (hparsed : parse l.uri = .ok parsed) (hhost : parsed.authority = []) :
    Returns isUuid l parsed ↔ [46, 46] ∉ parsed.segments := by
  obtain ⟨hnames, hplace⟩ := hl.file hlocal hparsed
  obtain ⟨authority, segments⟩ := parsed
  obtain rfl : authority = [] := hhost
  obtain ⟨hparse, hvalid, -⟩ := hnames.parsed
  obtain ⟨written, hreads⟩ := hnames.reads
  have hnative : l.toNativePath = some (47 :: [47].intercalate segments) :=
    (toNativePath_eq hlocal rfl hreads).trans (if_neg (not_not.mpr rfl))
  have hkept := nativeSegments_native (slash_not_mem_of_valid hvalid)
    fun segment hmem => (hplace.segments segment hmem).1
  have hvalid' : validateSegments
      ⟨[], nativeSegments (47 :: [47].intercalate segments)⟩ = .ok () := by
    refine validateSegments_eq_ok.mpr ⟨hplace.authority, fun segment hmem => ?_⟩
    have hmem : segment ∈ (segments.filter (· ≠ [46])).filter (· ≠ [46, 46]) := hkept ▸ hmem
    exact (hplace.segments segment (mem_of_mem_filter (mem_of_mem_filter hmem))).2
  have hback := (@fromNativePath_eq_ok isUuid _ _).mpr ⟨rfl, hvalid', rfl⟩
  have hafter := (@names_location isUuid _ (native_wellFormed hvalid')).parsed.1
  have hsame : (nativeSegments (47 :: [47].intercalate segments)).filter (· ≠ [46])
      = segments.filter (· ≠ [46]) ↔ [46, 46] ∉ segments := by
    rw [hkept]
    exact filter_up_eq_iff segments
  rw [← hsame]
  constructor
  · rintro ⟨path, back, after, hpath, hfrom, hparsed, hsegments⟩
    obtain rfl := Option.some.inj (hnative.symm.trans hpath)
    obtain rfl := Except.ok.inj (hback.symm.trans hfrom)
    obtain rfl := Except.ok.inj (hafter.symm.trans hparsed)
    exact hsegments
  · intro h
    exact ⟨_, _, _, hnative, hback, hafter, h⟩

/-- A path and a location come back as they were just if there is no `..`
in them. -/
theorem native_round_trips_iff (isUuid : List Char → Bool) :
    (∀ path, RoundTrips isUuid path ↔ (path.head? = some 47 →
        validateSegments ⟨[], nativeSegments path⟩ = .ok () →
        .parentDir ∉ components path))
      ∧ ∀ uri l parsed, parse isUuid uri = .ok l → l.providerId = "local" →
        parse l.uri = .ok parsed → parsed.authority = [] →
        (Returns isUuid l parsed ↔ [46, 46] ∉ parsed.segments) := by
  constructor
  · intro path
    constructor
    · intro h hroot hvalid
      exact (roundTrips_iff hroot hvalid).mp h
    · intro h l hl
      obtain ⟨hroot, hvalid, -⟩ := fromNativePath_eq_ok.mp hl
      exact (roundTrips_iff hroot hvalid).mpr (h hroot hvalid) l hl
  · intro uri l parsed hl hlocal hparsed hhost
    exact returns_iff ⟨⟨uri, hl⟩, by simp [hlocal]⟩ hlocal hparsed hhost

/-- `/a/../b` comes back as `/a/b`. -/
theorem path_with_parent_becomes_another :
    ¬ RoundTrips isHyphenatedUuid (Text.utf8 "/a/../b".toList) := by
  have hroot : (Text.utf8 "/a/../b".toList).head? = some 47 := by
    decide
  have hvalid : validateSegments
      ⟨[], nativeSegments (Text.utf8 "/a/../b".toList)⟩ = .ok () := by
    decide +kernel
  rw [roundTrips_iff hroot hvalid]
  decide +kernel

-- ==== within a root

/-- A walk down the segments from the top is told to go above it. -/
def LeavesTop (segments : List Segment) : Prop :=
  ∃ front rest, segments = front ++ [46, 46] :: rest ∧ resolve front = []

theorem leavesTop_concat :
    LeavesTop (segments ++ [segment])
      ↔ LeavesTop segments ∨ segment = [46, 46] ∧ resolve segments = [] := by
  constructor
  · rintro ⟨front, rest, heq, htop⟩
    rcases eq_nil_or_concat' rest with rfl | ⟨rest, last, rfl⟩
    · obtain ⟨rfl, hlast⟩ := append_inj' heq rfl
      exact .inr ⟨singleton_inj.1 hlast, htop⟩
    · rw [← cons_append, ← append_assoc] at heq
      exact .inl ⟨front, rest, (append_inj' heq rfl).1, htop⟩
  · rintro (⟨front, rest, rfl, htop⟩ | ⟨rfl, htop⟩)
    · exact ⟨front, rest ++ [segment], by simp, htop⟩
    · exact ⟨segments, [], rfl, htop⟩

theorem resolve_concat (segments : List Segment) (segment : Segment) :
    resolve (segments ++ [segment]) = resolveStep (resolve segments) segment := by
  rw [resolve_eq, resolve_eq, foldl_concat]

theorem normalizeSegments_eq (hnames : [] ∉ segments) :
    (LeavesTop segments → normalizeSegments segments = .error .escapesRoot)
      ∧ (¬ LeavesTop segments → normalizeSegments segments = .ok (resolve segments)) := by
  induction segments using List.reverseRecOn with
  | nil => exact ⟨fun ⟨_, _, heq, _⟩ => by simp at heq, fun _ => rfl⟩
  | append_singleton segments segment ih =>
    simp only [mem_append, mem_singleton, not_or] at hnames
    obtain ⟨hleaves, hstays⟩ := ih hnames.1
    have hstep : normalizeSegments (segments ++ [segment])
        = normalizeSegments segments >>= (normalizeStep · segment) := by
      unfold normalizeSegments
      rw [foldlM_append]
      simp
    rw [leavesTop_concat, hstep, resolve_concat]
    by_cases htop : LeavesTop segments
    · exact ⟨fun _ => by rw [hleaves htop]; rfl, fun hnot => absurd (.inl htop) hnot⟩
    · rw [hstays htop, or_iff_right htop]
      show (_ → normalizeStep _ _ = _) ∧ (_ → normalizeStep _ _ = _)
      unfold normalizeStep resolveStep
      by_cases hdot : segment = [46]
      · simp [hdot]
      · by_cases hup : segment = [46, 46] <;> simp [hdot, hup, Ne.symm hnames.2]

/-- What has been walked is neither `.` nor `..`. -/
theorem mem_resolve (h : segment ∈ resolve segments) :
    segment ∈ segments ∧ segment ≠ [] ∧ segment ≠ [46] ∧ segment ≠ [46, 46] := by
  induction segments using List.reverseRecOn with
  | nil => cases h
  | append_singleton segments last ih =>
    rw [resolve_concat] at h
    unfold resolveStep at h
    have hold : segment ∈ resolve segments → segment ∈ segments ++ [last]
        ∧ segment ≠ [] ∧ segment ≠ [46] ∧ segment ≠ [46, 46] :=
      fun h => ⟨mem_append_left _ (ih h).1, (ih h).2⟩
    split at h
    case isTrue => exact hold h
    case isFalse hpassed =>
      split at h
      case isTrue => exact hold ((dropLast_sublist _).subset h)
      case isFalse hup =>
        rcases mem_append.1 h with h | h
        · exact hold h
        · obtain rfl := mem_singleton.1 h
          exact ⟨by simp, fun heq => hpassed (.inl heq), fun heq => hpassed (.inr heq), hup⟩

theorem resolve_of_names (h : ∀ segment ∈ segments, segment ≠ [] ∧ segment ≠ [46]
    ∧ segment ≠ [46, 46]) : resolve segments = segments := by
  induction segments using List.reverseRecOn with
  | nil => rfl
  | append_singleton segments segment ih =>
    obtain ⟨hne, hdot, hup⟩ := h segment (by simp)
    rw [resolve_concat, ih fun other hmem => h other (mem_append_left _ hmem)]
    simp [resolveStep, hne, hdot, hup]

section Within

variable {root : Location} {authority : List Char} {top : List Segment}

theorem Place.WellFormed.resolved (h : WellFormed isUuid ⟨.file, authority, segments⟩) :
    WellFormed isUuid ⟨.file, authority, resolve segments⟩ :=
  { unbroken := h.unbroken
    authority := h.authority
    segments := fun segment hmem => h.segments segment (mem_resolve hmem).1 }

theorem normalizeWithin_eq (hnames : Names isUuid l ⟨.file, authority, segments⟩)
    (hwell : WellFormed isUuid ⟨.file, authority, segments⟩)
    (hroot : Names isUuid root ⟨.file, authority, top⟩)
    (hwell' : WellFormed isUuid ⟨.file, authority, top⟩) :
    (LeavesTop segments ∨ LeavesTop top ∨ ¬ resolve top <+: resolve segments →
        l.normalizeWithin isUuid root = .error .escapesRoot)
      ∧ (¬ (LeavesTop segments ∨ LeavesTop top ∨ ¬ resolve top <+: resolve segments) →
        l.normalizeWithin isUuid root
          = .ok (location ⟨.file, authority, resolve segments⟩)) := by
  obtain ⟨hparsed, -, hlocal⟩ := hnames.parsed
  obtain ⟨hparsed', -, hlocal'⟩ := hroot.parsed
  obtain ⟨hleaves, hstays⟩ := normalizeSegments_eq fun hmem => hwell.ne_nil _ hmem rfl
  obtain ⟨hleaves', hstays'⟩ := normalizeSegments_eq fun hmem => hwell'.ne_nil _ hmem rfl
  have hwithin : l.normalizeWithin isUuid root = (do
      let normalized ← normalizeSegments segments
      let normalizedRoot ← normalizeSegments top
      if !normalizedRoot.isPrefixOf normalized then throw .escapesRoot
      intoLocation isUuid ⟨authority, normalized⟩) := by
    unfold normalizeWithin
    rw [hlocal, hlocal', hparsed, hparsed']
    simp only [bind, Except.bind, ne_eq, not_true_eq_false, if_false]
  rw [hwithin]
  by_cases h : LeavesTop segments
  · rw [hleaves h]
    exact ⟨fun _ => rfl, fun hnot => absurd (.inl h) hnot⟩
  · by_cases h' : LeavesTop top
    · rw [hstays h, hleaves' h']
      exact ⟨fun _ => rfl, fun hnot => absurd (.inr (.inl h')) hnot⟩
    · rw [hstays h, hstays' h', or_iff_right h, or_iff_right h', not_not]
      by_cases hin : resolve top <+: resolve segments
      · refine ⟨fun hout => absurd hin hout, fun _ => ?_⟩
        simp only [bind, Except.bind, isPrefixOf_iff_prefix.2 hin]
        exact file_intoLocation hwell.resolved
      · refine ⟨fun _ => ?_, fun hnot => absurd hnot hin⟩
        simp only [bind, Except.bind, Bool.eq_false_iff.2 (mt isPrefixOf_iff_prefix.1 hin)]
        rfl

end Within

/-- For any two spellings of the location and of the root. -/
theorem normalize_within_stays_inside (isUuid : List Char → Bool) (uri rootUri : List Char)
    (l root : Location) (hl : parse isUuid uri = .ok l)
    (hroot : parse isUuid rootUri = .ok root) (hlocal : l.providerId = "local")
    (hlocal' : root.providerId = "local") (parsed parsedRoot : ParsedFileUri)
    (hparsed : parse l.uri = .ok parsed)
    (hparsed' : parse root.uri = .ok parsedRoot)
    (hhost : parsed.authority = parsedRoot.authority) :
    (∀ q, l.normalizeWithin isUuid root = .ok q →
        parse q.uri = .ok ⟨parsed.authority, resolve parsed.segments⟩
          ∧ [46] ∉ resolve parsed.segments ∧ [46, 46] ∉ resolve parsed.segments
          ∧ resolve parsedRoot.segments <+: resolve parsed.segments
          ∧ q.normalizeWithin isUuid root = .ok q)
      ∧ (l.normalizeWithin isUuid root = .error .escapesRoot
        ↔ LeavesTop parsed.segments ∨ LeavesTop parsedRoot.segments
          ∨ ¬ resolve parsedRoot.segments <+: resolve parsed.segments) := by
  obtain ⟨hnames, hwell⟩ := Accepted.file ⟨⟨uri, hl⟩, by simp [hlocal]⟩ hlocal hparsed
  obtain ⟨hnames', hwell'⟩ := Accepted.file ⟨⟨rootUri, hroot⟩, by simp [hlocal']⟩ hlocal' hparsed'
  rw [← hhost] at hnames' hwell'
  obtain ⟨hout, hin⟩ := normalizeWithin_eq hnames hwell hnames' hwell'
  by_cases h : LeavesTop parsed.segments ∨ LeavesTop parsedRoot.segments
      ∨ ¬ resolve parsedRoot.segments <+: resolve parsed.segments
  · rw [hout h]
    exact ⟨nofun, iff_of_true rfl h⟩
  · rw [hin h]
    refine ⟨fun q hq => ?_, iff_of_false nofun h⟩
    obtain rfl := Except.ok.inj hq
    have hsame : resolve (resolve parsed.segments) = resolve parsed.segments :=
      resolve_of_names fun segment hmem => (mem_resolve hmem).2
    have hkept : ¬ LeavesTop (resolve parsed.segments) := by
      rintro ⟨front, rest, heq, -⟩
      exact (mem_resolve (heq ▸ List.mem_append_right front List.mem_cons_self)).2.2.2 rfl
    have hagain := (normalizeWithin_eq (names_location hwell.resolved) hwell.resolved hnames'
      hwell').2
    rw [hsame] at hagain
    rw [or_iff_right (not_or.1 h).1] at h
    exact ⟨(names_location hwell.resolved).parsed.1, fun hmem => (mem_resolve hmem).2.2.1 rfl,
      fun hmem => (mem_resolve hmem).2.2.2 rfl, not_not.1 (not_or.1 h).2,
      hagain fun hnot => h (hnot.resolve_left hkept)⟩

theorem escaped_parent_stays_inside :
    normalizeWithin isHyphenatedUuid ⟨"local", "file:///a/c".toList⟩
      ⟨"local", "file:///%61".toList⟩ = .ok ⟨"local", "file:///a/c".toList⟩ :=
  ((normalize_within_stays_inside isHyphenatedUuid "file:///a/b/%2e%2e/c/".toList
    "file:///%61".toList ⟨"local", "file:///a/b/%2e%2e/c".toList⟩ ⟨"local", "file:///%61".toList⟩
    (by decide +kernel) (by decide +kernel) rfl rfl ⟨[], [[97], [98], [46, 46], [99]]⟩ ⟨[], [[97]]⟩
    (by decide +kernel) (by decide +kernel) rfl).1 _ (by decide +kernel)).2.2.2.2

end FileManager.Locations
