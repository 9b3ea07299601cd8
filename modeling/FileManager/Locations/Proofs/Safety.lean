/-
What the check of the paths (`validate_paths`) protects from: exactly
where a destination that denotes the source, or an entry below it, also
begins as the source does in the text that is compared.

# The argument

The path that is compared goes through the parts between slashes, with
`.` and `..` resolved as they stand (`normalize_eq`). For a local
location these are the decoded segments, which is what the location
denotes; so the check of a case-sensitive filesystem misses nothing. For
the others they are the written segments, behind the connection or the
outer file as that is written, and the check goes by the spelling
(`normalizedPath_eq`).
-/
import FileManager.Locations.Proofs.Spelling
import FileManager.Locations.Safety
import FileManager.Lib.PathTree

namespace FileManager.Locations

open List Locations.Location
open Text (utf8)

variable {isUuid : List Char → Bool} {location source destination : Location} {place : Place}
  {path uri : List Char} {fold : List UInt8 → List Char} {caseSensitive : Bool} {U : Type}
  {uuid : List Char → Option U}

-- ==== normal paths

/-- A turn of `resolve`. -/
def resolveStep (names : List Segment) (segment : Segment) : List Segment :=
  if segment = [] ∨ segment = [46] then names
  else if segment = [46, 46] then names.dropLast
  else names ++ [segment]

theorem resolve_eq (segments : List Segment) : resolve segments = segments.foldl resolveStep [] :=
  rfl

theorem foldl_componentOf (parts : List Segment) (path : NormalPath) :
    (parts.filterMap componentOf).foldl NormalPath.step path
      = { path with names := parts.foldl resolveStep path.names } := by
  induction parts generalizing path with
  | nil => rfl
  | cons part rest ih =>
    rw [filterMap_cons, foldl_cons]
    unfold componentOf
    by_cases hpassed : part = [] ∨ part = [46]
    · rw [if_pos hpassed, show resolveStep path.names part = path.names from if_pos hpassed]
      exact ih path
    · rw [if_neg hpassed]
      by_cases hparent : part = [46, 46]
      · have hstep : resolveStep path.names part = path.names.dropLast := by
          unfold resolveStep
          rw [if_neg hpassed, if_pos hparent]
        rw [if_pos hparent, hstep]
        exact ih { path with names := path.names.dropLast }
      · have hstep : resolveStep path.names part = path.names ++ [part] := by
          unfold resolveStep
          rw [if_neg hpassed, if_neg hparent]
        rw [if_neg hparent, hstep]
        exact ih { path with names := path.names ++ [part] }

theorem normalize_eq (path : List UInt8) :
    normalize path
      = { rooted := decide (path.head? = some 47), names := resolve (path.splitOn 47) } := by
  unfold normalize components
  rw [foldl_append, foldl_componentOf, resolve_eq]
  split
  case isTrue hroot => rw [decide_eq_true hroot]; rfl
  case isFalse hroot =>
    rw [decide_eq_false hroot]
    split <;> rfl

theorem resolve_cons_empty (segments : List Segment) :
    resolve ([] :: segments) = resolve segments := rfl

-- ==== parts of text

theorem utf8_append (t t' : List Char) :
    utf8 (t ++ t') = utf8 t ++ utf8 t' := flatMap_append

theorem utf8_intercalate (parts : List (List Char)) :
    utf8 (['/'].intercalate parts) = [47].intercalate (parts.map utf8) := by
  induction parts with
  | nil => rfl
  | cons part rest ih =>
    cases rest with
    | nil => simp
    | cons next more =>
      rw [intercalate_cons_cons, utf8_append, utf8_append, ih]
      simp only [map_cons, intercalate_cons_cons]
      rfl

theorem splitOn_utf8 (t : List Char) : (utf8 t).splitOn 47 = (t.splitOn '/').map utf8 := by
  have hjoined : utf8 t = [47].intercalate ((t.splitOn '/').map utf8) := by
    rw [← utf8_intercalate, intercalate_splitOn]
  rw [hjoined]
  refine splitOn_intercalate 47 (fun part hpart => ?_) ?_
  · obtain ⟨written, hwritten, rfl⟩ := mem_map.mp hpart
    exact not_mem_utf8 (c := '/') (by decide) (by decide) (PathTree.not_mem_of_mem_splitOn hwritten)
  · intro hnil
    exact splitOn_ne_nil '/' t (map_eq_nil_iff.mp hnil)

theorem head?_utf8 (t : List Char) : (utf8 t).head? = some 47 ↔ t.head? = some '/' := by
  cases t with
  | nil => simp [utf8]
  | cons c rest =>
    obtain ⟨byte, bytes, hbytes⟩ := exists_cons_of_ne_nil (String.utf8EncodeChar_ne_nil (c := c))
    have hhead : (utf8 (c :: rest)).head? = some byte := by
      unfold utf8
      rw [flatMap_cons, hbytes]
      rfl
    rw [hhead, List.head?_cons]
    constructor
    · intro hslash
      have hmem : (47 : UInt8) ∈ String.utf8EncodeChar c := by
        rw [hbytes, Option.some.inj hslash]
        exact mem_cons_self
      have hc := Text.mem_utf8EncodeChar_ascii (by decide) hmem
      exact congrArg some (Char.toNat_inj.mp hc)
    · intro hslash
      rw [Option.some.inj hslash] at hbytes
      exact congrArg some (List.cons.inj hbytes).1.symm

-- ==== the compared path

theorem splitOn_rooted (path : List UInt8) :
    ((47 : UInt8) :: path).splitOn 47 = [] :: path.splitOn 47 :=
  splitOn_append_cons_self_of_not_mem not_mem_nil _

theorem normalize_native {segments : List Segment}
    (h : ∀ segment ∈ segments, (47 : UInt8) ∉ segment) :
    normalize (47 :: [47].intercalate segments)
      = { rooted := true, names := resolve segments } := by
  rw [normalize_eq, splitOn_rooted, resolve_cons_empty]
  congr 1
  cases segments with
  | nil => rfl
  | cons segment rest =>
    rw [splitOn_intercalate 47 h (cons_ne_nil _ _)]

theorem normalize_utf8 (t : List Char) :
    normalize (utf8 t)
      = { rooted := decide (t.head? = some '/')
          names := resolve ((t.splitOn '/').map utf8) } := by
  rw [normalize_eq, splitOn_utf8, decide_eq_decide.mpr (head?_utf8 t)]

theorem strippedText_eq (scheme front rest : List Char) :
    strippedText scheme front (scheme ++ "://".toList ++ rest) = some (utf8 (front ++ rest)) := by
  unfold strippedText
  rw [List.isPrefixOf?_eq_some_iff_append_eq.mpr rfl]
  rfl

theorem toNativePath_eq (hlocal : location.providerId = "local") (hfile : place.scheme = .file)
    (h : Reads isUuid location.uri place path) :
    location.toNativePath
      = if place.authority ≠ [] then none else some (47 :: [47].intercalate place.segments) := by
  have hnames : Names isUuid location place := by
    refine ⟨?_, path, h⟩
    rw [hfile]
    exact hlocal
  have hparsed := hnames.parsed
  rw [hfile] at hparsed
  obtain ⟨hparse, hvalid, hensure⟩ := hparsed
  unfold toNativePath
  rw [hensure, hparse]
  simp only [hvalid]

theorem strippedText_reads (h : Reads isUuid location.uri place path) (front : List Char) :
    strippedText place.scheme.text front location.uri
      = some (utf8 (front ++ (place.authority ++ place.scheme.separator :: path))) := by
  rw [h.text, append_assoc]
  exact strippedText_eq _ _ _

theorem comparedPath_eq (hprovider : location.providerId = place.scheme.provider)
    (h : Reads isUuid location.uri place path) :
    comparedPath location
      = if place.scheme = .file then
          (if place.authority ≠ [] then none else some (47 :: [47].intercalate place.segments))
        else some (utf8 (place.written path)) := by
  have hstripped := strippedText_reads h
  unfold comparedPath Place.written
  rw [hprovider]
  cases hscheme : place.scheme with
  | file =>
    rw [hscheme] at hprovider
    exact toNativePath_eq hprovider hscheme h
  | ftp =>
    rw [hscheme] at hstripped
    have hnone : strippedText "ftps".toList "ftps/".toList location.uri = none := by
      rw [h.text, hscheme]
      rfl
    show (strippedText "ftps".toList "ftps/".toList location.uri).or _ = _
    rw [hnone]
    exact hstripped "ftp/".toList
  | ftps =>
    rw [hscheme] at hstripped
    show (strippedText "ftps".toList "ftps/".toList location.uri).or _ = _
    rw [show strippedText "ftps".toList "ftps/".toList location.uri = _ from
      hstripped "ftps/".toList]
    rfl
  | _ =>
    rw [hscheme] at hstripped
    exact hstripped []

theorem slash_not_mem {segment : Segment} {devices : Bool}
    (h : checkSegment devices segment = .ok ()) : (47 : UInt8) ∉ segment := by
  intro hmem
  unfold checkSegment at h
  obtain ⟨-, h⟩ := Fallible.passed h nofun
  rw [if_pos (Or.inl hmem)] at h
  cases h

theorem spelled_of_file (h : place.scheme = .file) :
    place.spelled path = { rooted := true, names := resolve place.segments } := by
  unfold Place.spelled
  rw [h]

theorem normalizedPath_eq (hprovider : location.providerId = place.scheme.provider)
    (h : Reads isUuid location.uri place path) :
    normalizedPath location
      = if place.scheme = .file ∧ place.authority ≠ [] then .error .incomparableLocations
        else .ok (place.spelled path) := by
  unfold normalizedPath
  rw [comparedPath_eq hprovider h]
  have hsegments := h.segments
  cases hscheme : place.scheme with
  | file =>
    rw [hscheme] at hsegments
    rw [if_pos rfl, spelled_of_file hscheme,
      ← normalize_native fun segment hmem => slash_not_mem (hsegments segment hmem).2]
    by_cases hhost : place.authority = []
    · rw [if_neg fun hne => hne hhost, if_neg fun hboth => hboth.2 hhost]
    · rw [if_pos hhost, if_pos ⟨rfl, hhost⟩]
  | _ =>
    have hspelled : place.spelled path = normalize (utf8 (place.written path)) := by
      rw [normalize_utf8]
      unfold Place.spelled
      rw [hscheme]
    rw [if_neg (by simp), if_neg (by simp), hspelled]

-- ==== the verdict

theorem startsWith_iff {path base : NormalPath} :
    path.startsWith base = true ↔ base.components <+: path.components :=
  isPrefixOf_iff_prefix

theorem validatePaths_eq_ok {sourcePath destinationPath : NormalPath}
    (hprovider : source.providerId = destination.providerId)
    (hsource : normalizedPath source = .ok sourcePath)
    (hdestination : normalizedPath destination = .ok destinationPath) :
    validatePaths fold source destination caseSensitive = .ok ()
      ↔ ¬ SpelledBelow fold caseSensitive sourcePath destinationPath := by
  unfold validatePaths SpelledBelow
  rw [if_neg fun hne => hne hprovider, hsource, hdestination]
  simp only
  by_cases hsame : sourcePath = destinationPath
  · rw [if_pos hsame, hsame]
    simp [prefix_rfl]
  · rw [if_neg hsame]
    by_cases hfold : caseSensitive = false ∧ fold sourcePath.text = fold destinationPath.text
    · rw [if_pos (by simpa using hfold)]
      simp [hfold.1, hfold.2]
    · rw [if_neg (by simpa using hfold)]
      by_cases hprefix : sourcePath.components <+: destinationPath.components
      · rw [if_pos (startsWith_iff.mpr hprefix)]
        simp [ hprefix]
      · rw [if_neg fun h => hprefix (startsWith_iff.mp h)]
        simp only [true_iff]
        rintro (h | h)
        · exact hprefix h
        · exact hfold h

theorem paths_of_ok (h : validatePaths fold source destination caseSensitive = .ok ()) :
    ∃ sourcePath destinationPath, normalizedPath source = .ok sourcePath
      ∧ normalizedPath destination = .ok destinationPath := by
  unfold validatePaths at h
  obtain ⟨-, h⟩ := Fallible.passed h nofun
  split at h
  case h_1 => cases h
  case h_2 => cases h
  case h_3 sourcePath destinationPath hsource hdestination =>
    exact ⟨sourcePath, destinationPath, hsource, hdestination⟩

theorem spelledBelow_of_names {names names' : List Segment}
    (h : names.map (nameKey fold true) <+: names'.map (nameKey fold true)) :
    SpelledBelow fold true { rooted := true, names := names }
      { rooted := true, names := names' } := by
  have hkey : nameKey fold true = Sum.inl := rfl
  rw [hkey] at h
  obtain ⟨below, hbelow, hnames⟩ := prefix_map_iff.mp h
  rw [map_injective_iff.mpr (fun _ _ => Sum.inl.inj) hnames]
  exact .inl (cons_prefix_cons.mpr ⟨rfl, hbelow.map _⟩)

theorem Location.Denotes.unique {entry : Entry U} (h : location.Denotes uuid entry)
    (hreads : Reads (fun id => (uuid id).isSome) location.uri place path) :
    entry = place.entry uuid := by
  obtain ⟨found, -, ⟨other, hfound⟩, hentry⟩ := h
  rw [hentry, (hfound.unique hreads).1]

theorem entry_of_file (h : place.scheme = .file) :
    place.entry uuid = { endpoint := .files place.authority, names := resolve place.segments } := by
  unfold Place.entry
  rw [h]

theorem scheme_file_iff {scheme scheme' : Scheme} (h : scheme.provider = scheme'.provider) :
    scheme = .file ↔ scheme' = .file := by
  revert h
  cases scheme <;> cases scheme' <;> decide

/-- The check is sound for two locations of one provider exactly where a
destination at the source or below it is also spelled so; local ones on
a case-sensitive filesystem are. -/
theorem path_check_sound_iff {uri uri' : List Char} {source destination : Location}
    (h : parse (fun id => (uuid id).isSome) uri = .ok source)
    (h' : parse (fun id => (uuid id).isSome) uri' = .ok destination)
    (hsearch : source.providerId ≠ "search")
    (hprovider : source.providerId = destination.providerId) :
    ∃ place path place' path',
      Reads (fun id => (uuid id).isSome) source.uri place path
        ∧ Reads (fun id => (uuid id).isSome) destination.uri place' path'
        ∧ source.Denotes uuid (place.entry uuid)
        ∧ destination.Denotes uuid (place'.entry uuid)
        ∧ (CheckSound fold uuid source destination caseSensitive
          ↔ (AtOrBelow fold caseSensitive (place.entry uuid) (place'.entry uuid) →
              (place.scheme = .file ∧ (place.authority ≠ [] ∨ caseSensitive = true))
                ∨ SpelledBelow fold caseSensitive (place.spelled path)
                  (place'.spelled path'))) := by
  obtain ⟨place, -, ⟨hplace, path, hreads⟩, -⟩ := names_of_parse h hsearch
  obtain ⟨place', -, ⟨hplace', path', hreads'⟩, -⟩ := names_of_parse h' (hprovider ▸ hsearch)
  refine ⟨place, path, place', path', hreads, hreads', ⟨place, hplace, ⟨path, hreads⟩, rfl⟩,
    ⟨place', hplace', ⟨path', hreads'⟩, rfl⟩, ?_⟩
  have hpath := normalizedPath_eq hplace hreads
  have hpath' := normalizedPath_eq hplace' hreads'
  have hfile : place.scheme = .file ↔ place'.scheme = .file :=
    scheme_file_iff (by rw [← hplace, ← hplace', hprovider])
  have hhost : place.scheme = .file →
      AtOrBelow fold caseSensitive (place.entry uuid) (place'.entry uuid) →
      place'.authority = place.authority := by
    intro hlocal hbelow
    have hendpoint := hbelow.endpoint
    rw [entry_of_file hlocal, entry_of_file (hfile.mp hlocal)] at hendpoint
    exact (Endpoint.files.inj hendpoint).symm
  constructor
  · intro hsound hbelow
    by_contra hspelled
    obtain ⟨hlocal, hspelled⟩ := not_or.mp hspelled
    have hnamed : ¬ (place.scheme = .file ∧ place.authority ≠ []) :=
      fun hboth => hlocal ⟨hboth.1, Or.inl hboth.2⟩
    have hnamed' : ¬ (place'.scheme = .file ∧ place'.authority ≠ []) := by
      rintro ⟨hlocal', hhost'⟩
      exact hnamed ⟨hfile.mpr hlocal', hhost (hfile.mpr hlocal') hbelow ▸ hhost'⟩
    rw [if_neg hnamed] at hpath
    rw [if_neg hnamed'] at hpath'
    exact hsound ((validatePaths_eq_ok hprovider hpath hpath').mpr hspelled) _ _
      ⟨place, hplace, ⟨path, hreads⟩, rfl⟩ ⟨place', hplace', ⟨path', hreads'⟩, rfl⟩ hbelow
  · intro hspelled hok entry entry' hdenotes hdenotes' hbelow
    rw [hdenotes.unique hreads, hdenotes'.unique hreads'] at hbelow
    -- both paths are compared, as the check returned
    obtain ⟨sourcePath, destinationPath, hsource, hdestination⟩ := paths_of_ok hok
    have hunspelled := (validatePaths_eq_ok hprovider hsource hdestination).mp hok
    rw [hpath] at hsource
    rw [hpath'] at hdestination
    obtain ⟨hnamed, hsource⟩ := Fallible.passed hsource nofun
    obtain ⟨-, hdestination⟩ := Fallible.passed hdestination nofun
    cases hsource
    cases hdestination
    rcases hspelled hbelow with ⟨hlocal, hauthority | rfl⟩ | hspelled
    · exact hnamed ⟨hlocal, hauthority⟩
    · have hnames := hbelow.names
      rw [entry_of_file hlocal, entry_of_file (hfile.mp hlocal)] at hnames
      rw [spelled_of_file hlocal, spelled_of_file (hfile.mp hlocal)] at hunspelled
      exact hunspelled (spelledBelow_of_names hnames)
    · exact hunspelled hspelled

/-- Names in lower case, of ASCII letters. -/
def asciiFold (path : List UInt8) : List Char :=
  path.map fun byte => (Char.ofNat byte.toNat).toLower

/-- The identifiers with hyphens, in either case. -/
def hyphenatedUuid (id : List Char) : Option (List Char) :=
  if isHyphenatedUuid id then some (id.map Char.toLower) else none

theorem escaped_child_is_refused :
    CheckSound asciiFold hyphenatedUuid ⟨"local", "file:///tmp/a".toList⟩
      ⟨"local", "file:///tmp/%61/b".toList⟩ true := by
  have h : parse (fun id => (hyphenatedUuid id).isSome) "file:///tmp/a".toList
      = .ok ⟨"local", "file:///tmp/a".toList⟩ := by
    rw [String.toList_ofList]
    decide +kernel
  have h' : parse (fun id => (hyphenatedUuid id).isSome) "file:///tmp/%61/b".toList
      = .ok ⟨"local", "file:///tmp/%61/b".toList⟩ := by
    rw [String.toList_ofList]
    decide +kernel
  obtain ⟨place, path, place', path', hreads, -, -, -, hiff⟩ :=
    @path_check_sound_iff asciiFold true _ hyphenatedUuid _ _ _ _ h h' (by decide) rfl
  have hscheme : place.scheme.text = Scheme.file.text := by
    have hparsed : parseScheme "file:///tmp/a".toList = .ok Scheme.file.text := by
      decide +kernel
    exact Except.ok.inj (hreads.parseScheme.symm.trans hparsed)
  have hlocal : place.scheme = .file := Scheme.text_injective hscheme
  exact hiff.mpr fun _ => Or.inl ⟨hlocal, Or.inr rfl⟩

/-- Two texts whose locations the check lets through, the second at or
below the first. -/
def SlipsThrough (uri uri' : List Char) (caseSensitive : Bool) : Prop :=
  ∃ source destination,
    parse (fun id => (hyphenatedUuid id).isSome) uri = .ok source
      ∧ parse (fun id => (hyphenatedUuid id).isSome) uri' = .ok destination
      ∧ source.providerId = destination.providerId
      ∧ ¬ CheckSound asciiFold hyphenatedUuid source destination caseSensitive

theorem denotes_sftp {id : List Char} {segments : List Segment}
    (hparsed : parseSftp (fun id => (hyphenatedUuid id).isSome) uri
      = .ok ⟨"sftp".toList, id, segments⟩)
    (hchecked : checkSegments true segments = .ok ()) :
    Denotes hyphenatedUuid ⟨"sftp", uri⟩
      (Place.entry hyphenatedUuid ⟨.sftp, id, segments⟩) :=
  ⟨⟨.sftp, id, segments⟩, rfl, ((reads_remote sftp_hasForm).mp ⟨hparsed, hchecked⟩).2, rfl⟩

theorem denotes_file {parsed : ParsedFileUri} (hparsed : ParsedFileUri.parse uri = .ok parsed)
    (hvalid : parsed.validateSegments = .ok ()) :
    Denotes hyphenatedUuid ⟨"local", uri⟩
      (Place.entry hyphenatedUuid ⟨.file, parsed.authority, parsed.segments⟩) :=
  ⟨⟨.file, parsed.authority, parsed.segments⟩, rfl, reads_file.mp ⟨hparsed, hvalid⟩, rfl⟩

/-- A child with an escape in its parent, one of a connection in other
case, and one of a directory in other case. -/
theorem respelled_child_is_accepted :
    SlipsThrough "sftp://7f000000-0000-4000-8000-00000000000a/a".toList
        "sftp://7f000000-0000-4000-8000-00000000000a/%61/b".toList true
      ∧ SlipsThrough "sftp://7f000000-0000-4000-8000-00000000000a/a".toList
        "sftp://7F000000-0000-4000-8000-00000000000A/a/b".toList true
      ∧ SlipsThrough "file:///tmp/A".toList "file:///tmp/a/b".toList false := by
  refine ⟨?_, ?_, ?_⟩
  · refine ⟨⟨"sftp", "sftp://7f000000-0000-4000-8000-00000000000a/a".toList⟩,
      ⟨"sftp", "sftp://7f000000-0000-4000-8000-00000000000a/%61/b".toList⟩,
      by decide +kernel, by decide +kernel, rfl, fun hsound => ?_⟩
    refine hsound (by decide +kernel) _ _
      (@denotes_sftp _ "7f000000-0000-4000-8000-00000000000a".toList [[97]]
        (by decide +kernel) rfl)
      (@denotes_sftp _ "7f000000-0000-4000-8000-00000000000a".toList [[97], [98]]
        (by decide +kernel) rfl) ⟨rfl, ?_⟩
    decide +kernel
  · refine ⟨⟨"sftp", "sftp://7f000000-0000-4000-8000-00000000000a/a".toList⟩,
      ⟨"sftp", "sftp://7F000000-0000-4000-8000-00000000000A/a/b".toList⟩,
      by decide +kernel, by decide +kernel, rfl, fun hsound => ?_⟩
    refine hsound (by decide +kernel) _ _
      (@denotes_sftp _ "7f000000-0000-4000-8000-00000000000a".toList [[97]]
        (by decide +kernel) rfl)
      (@denotes_sftp _ "7F000000-0000-4000-8000-00000000000A".toList [[97], [98]]
        (by decide +kernel) rfl) ⟨?_, ?_⟩
    · have hid : hyphenatedUuid "7f000000-0000-4000-8000-00000000000a".toList
          = hyphenatedUuid "7F000000-0000-4000-8000-00000000000A".toList := by
        decide +kernel
      exact congrArg (Endpoint.connection .sftp) hid
    · decide +kernel
  · refine ⟨⟨"local", "file:///tmp/A".toList⟩, ⟨"local", "file:///tmp/a/b".toList⟩,
      by decide +kernel, by decide +kernel, rfl, fun hsound => ?_⟩
    refine hsound (by decide +kernel) _ _
      (@denotes_file _ ⟨[], [[116, 109, 112], [65]]⟩ (by decide +kernel) (by decide +kernel))
      (@denotes_file _ ⟨[], [[116, 109, 112], [97], [98]]⟩ (by decide +kernel)
        (by decide +kernel)) ⟨rfl, ?_⟩
    decide +kernel

end FileManager.Locations
