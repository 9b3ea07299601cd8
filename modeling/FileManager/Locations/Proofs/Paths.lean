/-
The path operations are the operations on places: joining a name adds
its bytes as a segment, the parent drops the last one, and both write
the text of the place they reach.
-/
import FileManager.Locations.Proofs.Reading

namespace FileManager.Locations

open Fallible (bind_eq_ok)
open List Place Scheme Text Except Fallible
open Locations.Location (parse dispatch join fromNativePath)
open Text (stripEnd utf8 ofUtf8_utf8)
open ParsedFileUri (validateSegments intoLocation)
open Place (location render)
open String (reduceEq)

variable {isUuid : List Char → Bool} {place : Place} {uri name authority : List Char} {l : Location}
  {segments : List Segment} {form : RemoteForm} {scheme : Scheme} {path : List UInt8}

-- ==== the kept text

theorem stripEnd_fileText {path : List Char} (hpath : path ≠ []) :
    stripEnd '/' ("file".toList ++ "://".toList ++ authority ++ '/' :: path)
      = "file".toList ++ "://".toList ++ authority ++ '/' :: stripEnd '/' path := by
  show stripEnd '/' (_ ++ (['/'] ++ path)) = _
  rw [stripEnd_append _ (append_ne_nil_of_right_ne_nil _ hpath), stripEnd_append _ hpath]
  rfl

theorem Reads.canonical {path : List Char} (h : Reads isUuid uri place path) :
    Reads isUuid (place.canonical uri) place (place.canonical path)
      ∧ place.canonical (place.canonical uri) = place.canonical uri := by
  unfold Place.canonical
  split
  case isFalse => exact ⟨h, rfl⟩
  case isTrue hfile =>
    obtain ⟨hscheme, hsegments⟩ := hfile
    obtain ⟨scheme, authority, segments⟩ := place
    simp only at hscheme hsegments
    subst hscheme
    have hdecoded : decodePath (stripEnd '/' path) = .ok segments := h.decoded
    have hstrip := stripEnd_of_rawSegments (nil_not_mem_rawSegments hdecoded)
    have hpath : ∀ p, decodePath p = .ok segments → p ≠ [] := by
      intro p hp heq
      subst heq
      exact hsegments (ok.inj hp).symm
    have htext : stripEnd '/' uri = "file".toList ++ "://".toList ++ authority
        ++ '/' :: stripEnd '/' path := by
      rw [h.text]
      refine stripEnd_fileText ?_
      intro heq
      subst heq
      exact hpath _ hdecoded rfl
    refine ⟨?_, ?_⟩
    · exact {
        text := htext
        unbroken := { h.unbroken with
          path_query := fun hmem =>
            h.unbroken.path_query (mem_of_mem_stripEnd hmem)
          path_fragment := fun hmem =>
            h.unbroken.path_fragment (mem_of_mem_stripEnd hmem) }
        authority := h.authority
        decoded := by
          show decodePath (stripEnd '/' (stripEnd '/' path)) = _
          rw [hstrip]
          exact hdecoded
        segments := h.segments }
    · rw [htext, stripEnd_fileText (hpath _ hdecoded), hstrip]

theorem parse_idempotent (h : parse isUuid uri = .ok l) :
    parse isUuid l.uri = .ok l := by
  rcases parse_eq_ok.mp h with ⟨hsearch, rfl⟩ | ⟨place, path, hreads, rfl⟩
  · exact h
  · obtain ⟨hreads', hkept⟩ := hreads.canonical
    refine parse_eq_ok.mpr (Or.inr ⟨place, _, hreads', ?_⟩)
    rw [hkept]

/-- The location has a path, and its text spells this place. -/
structure Names (isUuid : List Char → Bool) (l : Location) (place : Place) :
    Prop where
  provider : l.providerId = place.scheme.provider
  reads : ∃ path, Reads isUuid l.uri place path

theorem names_of_parse (h : parse isUuid uri = .ok l) (hsearch : l.providerId ≠ "search") :
    ∃ place path, Names isUuid l place ∧ Reads isUuid uri place path := by
  rcases parse_eq_ok.mp h with ⟨-, rfl⟩ | ⟨place, path, hreads, rfl⟩
  · exact absurd rfl hsearch
  · exact ⟨place, path, ⟨rfl, _, hreads.canonical.1⟩, hreads⟩

-- ==== the text of a place

theorem canonical_render (h : place.WellFormed isUuid) :
    place.canonical place.render = place.render := by
  unfold Place.canonical
  split
  case isFalse => rfl
  case isTrue hfile =>
    obtain ⟨hscheme, hsegments⟩ := hfile
    have hdecode := decodePath_encodePath h.ne_nil
    obtain ⟨scheme, authority, segments⟩ := place
    simp only at hscheme hsegments
    subst hscheme
    have hpath : encodePath segments ≠ [] := by
      intro hnil
      rw [hnil] at hdecode
      exact hsegments (ok.inj hdecode).symm
    refine (stripEnd_fileText hpath).trans ?_
    rw [stripEnd_of_rawSegments (nil_not_mem_rawSegments hdecode)]
    rfl

theorem parse_render (h : place.WellFormed isUuid) :
    parse isUuid place.render = .ok place.location := by
  refine parse_eq_ok.mpr (Or.inr ⟨place, place.path, reads_render h, ?_⟩)
  rw [canonical_render h]
  rfl

theorem names_location (h : place.WellFormed isUuid) : Names isUuid place.location place :=
  ⟨rfl, place.path, reads_render h⟩

-- ==== operations

theorem not_mem_utf8 {byte : UInt8} {c : Char} (hc : c.toNat = byte.toNat)
    (hascii : byte.toNat < 128) (h : c ∉ name) : byte ∉ utf8 name := by
  intro hmem
  obtain ⟨d, hd, hd'⟩ := mem_utf8_ascii hascii hmem
  have hcd : d = c := Char.toNat_inj.mp (hd'.trans hc.symm)
  rw [hcd] at hd
  exact h hd

theorem acceptsSegment_of_validateName (h : validateName name = .ok ()) (scheme : Scheme) :
    scheme.AcceptsSegment (utf8 name) := by
  have hvalid := h
  unfold validateName at h
  obtain ⟨hempty, h⟩ := passed h nofun
  obtain ⟨hname, h⟩ := passed h nofun
  obtain ⟨hzero, h⟩ := passed h nofun
  simp only [not_or] at hname
  obtain ⟨-, -, hslash, hback⟩ := hname
  have hcheck : ∀ devices, checkSegment devices (utf8 name) = .ok () := by
    intro devices
    unfold checkSegment
    rw [if_neg (not_mem_utf8 (by decide) (by decide) hzero),
      if_neg (not_or.mpr ⟨not_mem_utf8 (by decide) (by decide) hslash,
      not_mem_utf8 (by decide) (by decide) hback⟩), ofUtf8_utf8]
    cases devices with
    | true => exact h
    | false => rfl
  have hne := utf8_ne_nil hempty
  cases scheme with
  | archive => exact ⟨name, ofUtf8_utf8 name, hvalid⟩
  | _ => exact ⟨hne, hcheck _⟩

theorem Place.WellFormed.child (h : place.WellFormed isUuid) (hname : validateName name = .ok ()) :
    (place.child name).WellFormed isUuid :=
  { unbroken := h.unbroken
    authority := h.authority
    segments := by
      intro segment hmem
      rcases mem_append.mp hmem with hmem | hmem
      · exact h.segments segment hmem
      · rw [mem_singleton.mp hmem]
        exact acceptsSegment_of_validateName hname place.scheme }

theorem Place.WellFormed.up (h : place.WellFormed isUuid) : place.up.WellFormed isUuid :=
  { unbroken := h.unbroken
    authority := h.authority
    segments := fun segment hmem =>
      h.segments segment ((dropLast_sublist _).subset hmem) }

theorem Names.parsed (h : Names isUuid l place) :
    match place.scheme with
    | .file => ParsedFileUri.parse l.uri = .ok ⟨place.authority, place.segments⟩
        ∧ validateSegments ⟨place.authority, place.segments⟩ = .ok ()
        ∧ l.ensureLocal = .ok ()
    | .archive => ParsedArchiveUri.parse l.uri = .ok ⟨place.authority, place.segments⟩
    | .sftp => parseSftp isUuid l.uri
        = .ok ⟨place.scheme.text, place.authority, place.segments⟩
    | .ftp | .ftps => parseFtp isUuid l.uri
        = .ok ⟨place.scheme.text, place.authority, place.segments⟩
    | .webdav => parseWebDav isUuid l.uri
        = .ok ⟨place.scheme.text, place.authority, place.segments⟩ := by
  obtain ⟨hprovider, path, hreads⟩ := h
  have hscheme := hreads.parseScheme
  obtain ⟨scheme, authority, segments⟩ := place
  cases scheme with
  | file =>
    obtain ⟨hparsed, hvalid⟩ := (@reads_file isUuid l.uri ⟨authority, segments⟩).mpr ⟨path, hreads⟩
    refine ⟨hparsed, hvalid, bind_eq_ok.mpr ⟨_, hscheme, ?_⟩⟩
    rw [hprovider]
    rfl
  | archive =>
    exact (@reads_archive isUuid l.uri ⟨authority, segments⟩).mpr ⟨path, hreads⟩
  | sftp =>
    exact ((@reads_remote isUuid l.uri _ ⟨sftp.text, authority, segments⟩ _
      sftp_hasForm).mpr ⟨rfl, path, hreads⟩).1
  | webdav =>
    exact ((@reads_remote isUuid l.uri _ ⟨webdav.text, authority, segments⟩ _
      webDav_hasForm).mpr ⟨rfl, path, hreads⟩).1
  | ftp =>
    simp only
    rw [parseFtp_of_scheme (Or.inl rfl) hscheme]
    exact ((@reads_remote isUuid l.uri _ ⟨ftp.text, authority, segments⟩ _
      ftp_hasForm).mpr ⟨rfl, path, hreads⟩).1
  | ftps =>
    simp only
    rw [parseFtp_of_scheme (Or.inr rfl) hscheme]
    exact ((@reads_remote isUuid l.uri _ ⟨ftps.text, authority, segments⟩ _
      ftps_hasForm).mpr ⟨rfl, path, hreads⟩).1

theorem remote_intoLocation (hform : scheme.HasForm isUuid form)
    (h : WellFormed isUuid ⟨scheme, authority, segments⟩) :
    ParsedRemoteUri.intoLocation isUuid form ⟨scheme.text, authority, segments⟩
      = .ok (location ⟨scheme, authority, segments⟩) := by
  have hchecked : checkSegments form.rejectsDevices segments = .ok () :=
    checkSegments_eq_ok.mpr fun s hs => ((hform.segment s).mpr (h.segments s hs)).2
  have hrender : render ⟨scheme, authority, segments⟩
      = scheme.text ++ "://".toList ++ authority ++ '/' :: encodePath segments := by
    have hsep := hform.separator
    unfold render path
    cases scheme with
    | archive => exact absurd hsep (by decide)
    | _ => rfl
  refine bind_eq_ok.mpr ⟨(), hchecked, ?_⟩
  rw [← hrender]
  exact parse_render h

theorem file_intoLocation (h : WellFormed isUuid ⟨.file, authority, segments⟩) :
    intoLocation isUuid ⟨authority, segments⟩
      = .ok (location ⟨.file, authority, segments⟩) := by
  have hvalid : validateSegments ⟨authority, segments⟩ = .ok () :=
    validateSegments_eq_ok.mpr ⟨h.authority, fun s hs => (h.segments s hs).2⟩
  exact bind_eq_ok.mpr ⟨(), hvalid, parse_render h⟩

theorem archive_intoLocation (authority : List Char) (segments : List Segment) :
    ParsedArchiveUri.intoLocation ⟨authority, segments⟩
      = location ⟨.archive, authority, segments⟩ := by
  unfold ParsedArchiveUri.intoLocation location render path
  rfl

theorem dispatch_eq {α : Type} (h : Names isUuid l place) {r : Except LocationError α}
    {archive : ParsedArchiveUri → Except LocationError α}
    {remote : RemoteForm → ParsedRemoteUri → Except LocationError α}
    {file : ParsedFileUri → Except LocationError α}
    (harchive : place.scheme = .archive → archive ⟨place.authority, place.segments⟩ = r)
    (hremote : ∀ form, place.scheme.HasForm isUuid form →
      remote form ⟨place.scheme.text, place.authority, place.segments⟩ = r)
    (hfile : place.scheme = .file → file ⟨place.authority, place.segments⟩ = r) :
    l.dispatch isUuid archive remote file = r := by
  have hprovider := h.provider
  have hparsed := h.parsed
  obtain ⟨scheme, authority, segments⟩ := place
  unfold dispatch
  cases scheme with
  | file =>
    obtain ⟨hparsed, hvalid, hlocal⟩ := hparsed
    simp only [hprovider, provider, reduceEq, if_false]
    refine bind_of_ok hlocal (bind_of_ok hparsed (bind_of_ok hvalid ?_))
    exact hfile rfl
  | archive =>
    simp only [hprovider, provider, if_true]
    exact bind_of_ok hparsed (harchive rfl)
  | sftp =>
    simp only [hprovider, provider, reduceEq, if_false, if_true]
    exact bind_of_ok hparsed (hremote _ sftp_hasForm)
  | webdav =>
    simp only [hprovider, provider, reduceEq, if_false, if_true]
    exact bind_of_ok hparsed (hremote _ webDav_hasForm)
  | ftp =>
    simp only [hprovider, provider, reduceEq, if_false, if_true]
    exact bind_of_ok hparsed (hremote _ ftp_hasForm)
  | ftps =>
    simp only [hprovider, provider, reduceEq, if_false, if_true]
    exact bind_of_ok hparsed (hremote _ ftps_hasForm)

theorem address_eq (h : Names isUuid l place) :
    l.address isUuid = .ok { authority := place.authority, segments := place.segments } := by
  have hsearch : l.providerId ≠ "search" := by
    rw [h.provider]
    cases place.scheme <;> decide
  unfold Location.address
  rw [if_neg hsearch]
  exact dispatch_eq h (fun _ => rfl) (fun _ _ => rfl) (fun _ => rfl)

theorem join_eq (h : Names isUuid l place) (hplace : place.WellFormed isUuid)
    (hname : validateName name = .ok ()) :
    l.join isUuid name = .ok (place.child name).location := by
  have hjoin : l.join isUuid name = l.dispatch isUuid
      (fun parsed => .ok (ParsedArchiveUri.intoLocation
        { parsed with innerSegments := parsed.innerSegments ++ [utf8 name] }))
      (fun form parsed => parsed.join isUuid form name)
      (fun parsed => intoLocation isUuid
        { parsed with segments := parsed.segments ++ [utf8 name] }) := by
    unfold join dispatch
    rw [hname]
    rfl
  have hchild := hplace.child hname
  rw [hjoin]
  obtain ⟨scheme, authority, segments⟩ := place
  refine dispatch_eq h (fun hscheme => ?_) (fun form hform => ?_) (fun hscheme => ?_)
  · simp only at hscheme
    subst hscheme
    rw [archive_intoLocation]
    rfl
  · exact remote_intoLocation hform hchild
  · simp only at hscheme
    subst hscheme
    exact file_intoLocation hchild

theorem parent_eq (h : Names isUuid l place) (hplace : place.WellFormed isUuid) :
    l.parent isUuid = .ok (if place.segments = [] then none else some place.up.location) := by
  have hparent : l.parent isUuid = l.dispatch isUuid
      (fun parsed => if parsed.innerSegments = [] then .ok none
        else .ok (some (ParsedArchiveUri.intoLocation
          { parsed with innerSegments := parsed.innerSegments.dropLast })))
      (fun form parsed => parsed.parent isUuid form)
      (fun parsed => if parsed.segments = [] then .ok none else do
          let parent ← intoLocation isUuid
            { parsed with segments := parsed.segments.dropLast }
          return some parent) := rfl
  have hup := hplace.up
  rw [hparent]
  obtain ⟨scheme, authority, segments⟩ := place
  refine dispatch_eq h (fun hscheme => ?_) (fun form hform => ?_) (fun hscheme => ?_)
  · simp only at hscheme
    subst hscheme
    simp only [archive_intoLocation]
    split <;> rfl
  · unfold ParsedRemoteUri.parent
    simp only
    split
    case isTrue => rfl
    case isFalse =>
      exact bind_eq_ok.mpr ⟨_, remote_intoLocation hform hup, rfl⟩
  · simp only at hscheme
    subst hscheme
    simp only
    split
    case isTrue => rfl
    case isFalse => exact bind_eq_ok.mpr ⟨_, file_intoLocation hup, rfl⟩

theorem name_eq (h : Names isUuid l place)
    (hlast : place.segments.getLast? = some (utf8 name)) : l.name isUuid = .ok name := by
  have hname : ∀ message, lastName message place.segments = .ok name := by
    intro message
    unfold lastName
    rw [hlast]
    exact fromUtf8_eq_ok.mpr (ofUtf8_utf8 name)
  have hdispatch : l.name isUuid = l.dispatch isUuid
      (fun parsed => lastName "archive root has no name" parsed.innerSegments)
      (fun form parsed => lastName form.rootMessage parsed.segments)
      (fun parsed => lastName "filesystem root has no name" parsed.segments) := rfl
  rw [hdispatch]
  exact dispatch_eq h (fun _ => hname _) (fun _ _ => hname _) (fun _ => hname _)

-- ==== the algebra

/-- A location with a path that `Location::parse` returned. -/
structure Accepted (isUuid : List Char → Bool) (l : Location) : Prop where
  parsed : ∃ uri, parse isUuid uri = .ok l
  provider : l.providerId ∈ ["local", "archive", "sftp", "ftp", "webdav"]

/-- The forms that `join` and `from_native_path` produce. -/
def Produced (isUuid : List Char → Bool) (l : Location) : Prop :=
  (∃ before name, Accepted isUuid before ∧ before.join isUuid name = .ok l)
    ∨ ∃ path, fromNativePath isUuid path = .ok l

/-- `parent`, so many times. -/
def parentTimes (isUuid : List Char → Bool) :
    Nat → Location → Except LocationError (Option Location)
  | 0, l => .ok (some l)
  | k + 1, l => do
    match ← l.parent isUuid with
    | none => return none
    | some parent => parentTimes isUuid k parent

theorem Accepted.names (h : Accepted isUuid l) :
    ∃ place, Names isUuid l place ∧ place.WellFormed isUuid := by
  obtain ⟨uri, hparse⟩ := h.parsed
  have hsearch : l.providerId ≠ "search" := by
    intro hsearch
    have hmem := h.provider
    rw [hsearch] at hmem
    exact absurd hmem (by decide)
  obtain ⟨place, path, hnames, hreads⟩ := names_of_parse hparse hsearch
  exact ⟨place, hnames, hreads.wellFormed⟩

theorem reads_of_remote_join {parsed : ParsedRemoteUri} {segment : Segment}
    (hform : scheme.HasForm isUuid form) (hparsed : parseRemote form scheme.text uri = .ok parsed)
    (hchecked : checkSegments form.rejectsDevices (parsed.segments ++ [segment]) = .ok ()) :
    ∃ path, Reads isUuid uri ⟨scheme, parsed.connectionId, parsed.segments⟩ path := by
  have hkept : checkSegments form.rejectsDevices parsed.segments = .ok () :=
    checkSegments_eq_ok.mpr fun segment hmem =>
      checkSegments_eq_ok.mp hchecked segment (mem_append_left _ hmem)
  exact ((reads_remote hform).mp ⟨hparsed, hkept⟩).2

theorem join_spec {child : Location} (h : l.join isUuid name = .ok child) :
    validateName name = .ok () ∧ ∃ place, Names isUuid l place ∧ place.WellFormed isUuid := by
  suffices hplace : validateName name = .ok () ∧ ∃ place path,
      l.providerId = place.scheme.provider ∧ Reads isUuid l.uri place path by
    obtain ⟨hname, place, path, hprovider, hreads⟩ := hplace
    exact ⟨hname, place, ⟨hprovider, path, hreads⟩, hreads.wellFormed⟩
  unfold join at h
  split at h
  case isTrue harchive =>
    obtain ⟨u, hname, h⟩ := bind_eq_ok.mp h
    obtain ⟨parsed, hparsed, -⟩ := bind_eq_ok.mp h
    obtain ⟨path, hreads⟩ := (@reads_archive isUuid _ _).mp hparsed
    exact ⟨hname, ⟨.archive, parsed.outer, parsed.innerSegments⟩, path, harchive, hreads⟩
  case isFalse =>
    split at h
    case isTrue hsftp =>
      obtain ⟨u, hname, h⟩ := bind_eq_ok.mp h
      obtain ⟨parsed, hparsed, h⟩ := bind_eq_ok.mp h
      obtain ⟨joined, hjoin, -⟩ := bind_eq_ok.mp h
      obtain ⟨path, hreads⟩ := reads_of_remote_join sftp_hasForm hparsed hjoin
      exact ⟨hname, ⟨.sftp, parsed.connectionId, parsed.segments⟩, path, hsftp, hreads⟩
    case isFalse =>
      split at h
      case isTrue hftp =>
        obtain ⟨u, hname, h⟩ := bind_eq_ok.mp h
        obtain ⟨parsed, hparsed, h⟩ := bind_eq_ok.mp h
        obtain ⟨joined, hjoin, -⟩ := bind_eq_ok.mp h
        obtain ⟨scheme, -, hparsed⟩ := bind_eq_ok.mp hparsed
        obtain ⟨hscheme, hparsed⟩ := passed hparsed nofun
        rcases (not_and_or.mp hscheme).imp not_not.mp not_not.mp with rfl | rfl
        · obtain ⟨path, hreads⟩ := reads_of_remote_join ftp_hasForm hparsed hjoin
          exact ⟨hname, ⟨.ftp, parsed.connectionId, parsed.segments⟩, path, hftp, hreads⟩
        · obtain ⟨path, hreads⟩ := reads_of_remote_join ftps_hasForm hparsed hjoin
          exact ⟨hname, ⟨.ftps, parsed.connectionId, parsed.segments⟩, path, hftp, hreads⟩
      case isFalse =>
        split at h
        case isTrue hwebdav =>
          obtain ⟨u, hname, h⟩ := bind_eq_ok.mp h
          obtain ⟨parsed, hparsed, h⟩ := bind_eq_ok.mp h
          obtain ⟨joined, hjoin, -⟩ := bind_eq_ok.mp h
          obtain ⟨path, hreads⟩ := reads_of_remote_join webDav_hasForm hparsed hjoin
          exact ⟨hname, ⟨.webdav, parsed.connectionId, parsed.segments⟩, path, hwebdav, hreads⟩
        case isFalse =>
          obtain ⟨u, hlocal, h⟩ := bind_eq_ok.mp h
          obtain ⟨u, hname, h⟩ := bind_eq_ok.mp h
          obtain ⟨parsed, hparsed, h⟩ := bind_eq_ok.mp h
          obtain ⟨u, hvalid, -⟩ := bind_eq_ok.mp h
          obtain ⟨path, hreads⟩ := (@reads_file isUuid _ _).mp ⟨hparsed, hvalid⟩
          obtain ⟨scheme, -, hlocal⟩ := bind_eq_ok.mp hlocal
          obtain ⟨hsame, hlocal⟩ := passed hlocal nofun
          exact ⟨hname, ⟨.file, parsed.authority, parsed.segments⟩, path,
            not_not.mp (not_or.mp hsame).1, hreads⟩

theorem native_wellFormed (h : validateSegments ⟨[], nativeSegments path⟩ = .ok ()) :
    WellFormed isUuid ⟨.file, [], nativeSegments path⟩ := by
  obtain ⟨hauthority, hchecked⟩ := validateSegments_eq_ok.mp h
  exact {
    unbroken := ⟨not_mem_nil, not_mem_nil, not_mem_nil,
      not_mem_nil, not_mem_nil⟩
    authority := hauthority
    segments := by
      intro segment hmem
      have hkept := of_mem_filter hmem
      simp only [ne_eq, decide_eq_true_eq] at hkept
      exact ⟨hkept.1, hchecked segment hmem⟩ }

theorem fromNativePath_eq_ok :
    fromNativePath isUuid path = .ok l ↔ path.head? = some 47
      ∧ validateSegments ⟨[], nativeSegments path⟩ = .ok ()
      ∧ l = location ⟨.file, [], nativeSegments path⟩ := by
  unfold fromNativePath
  split
  case isTrue hroot => exact ⟨nofun, fun h => absurd h.1 hroot⟩
  case isFalse hroot =>
    constructor
    · intro h
      obtain ⟨u, hvalid, -⟩ := bind_eq_ok.mp h
      rw [file_intoLocation (native_wellFormed hvalid)] at h
      exact ⟨not_not.mp hroot, hvalid, (ok.inj h).symm⟩
    · rintro ⟨-, hvalid, rfl⟩
      exact file_intoLocation (native_wellFormed hvalid)

theorem Produced.location (h : Produced isUuid l) :
    ∃ place : Place, place.WellFormed isUuid ∧ l = place.location := by
  rcases h with ⟨before, name, haccepted, hjoin⟩ | ⟨path, hpath⟩
  · obtain ⟨place, hnames, hplace⟩ := haccepted.names
    have hname := (join_spec hjoin).1
    rw [join_eq hnames hplace hname] at hjoin
    exact ⟨_, hplace.child hname, (ok.inj hjoin).symm⟩
  · obtain ⟨-, hvalid, rfl⟩ := fromNativePath_eq_ok.mp hpath
    exact ⟨_, native_wellFormed hvalid, rfl⟩

theorem Names.unique {place' : Place} (h : Names isUuid l place)
    (h' : Names isUuid l place') : place = place' := by
  obtain ⟨path, hreads⟩ := h.reads
  obtain ⟨path', hreads'⟩ := h'.reads
  exact (hreads.unique hreads').1

theorem Place.up_child (place : Place) (name : List Char) : (place.child name).up = place := by
  unfold child up
  simp only [dropLast_concat]

theorem parentTimes_eq (hplace : place.WellFormed isUuid) (h : Names isUuid l place) :
    ∃ root, parentTimes isUuid place.segments.length l = .ok (some root)
      ∧ root.parent isUuid = .ok none := by
  induction hk : place.segments.length generalizing place l with
  | zero =>
    refine ⟨l, rfl, ?_⟩
    rw [parent_eq h hplace, if_pos (length_eq_zero_iff.mp hk)]
  | succ k ih =>
    have hne : place.segments ≠ [] := by
      intro hnil
      simp [hnil] at hk
    have hlength : place.up.segments.length = k := by
      show place.segments.dropLast.length = k
      rw [length_dropLast, hk]
      rfl
    obtain ⟨root, hroot, hnone⟩ := ih hplace.up (names_location hplace.up) hlength
    refine ⟨root, ?_, hnone⟩
    unfold parentTimes
    rw [parent_eq h hplace, if_neg hne]
    exact hroot

/-- The laws of `join`, `name` and `parent`. -/
theorem path_algebra {l : Location} (hl : Accepted isUuid l) :
    (∀ name, validateName name = .ok () → ∃ child parent address, l.join isUuid name = .ok child
        ∧ Location.parse isUuid child.uri = .ok child
        ∧ child.providerId = l.providerId
        ∧ child.name isUuid = .ok name
        ∧ child.parent isUuid = .ok (some parent)
        ∧ parent.providerId = l.providerId
        ∧ l.address isUuid = .ok address ∧ parent.address isUuid = .ok address
        ∧ (Produced isUuid l → parent = l))
      ∧ (∃ address root, l.address isUuid = .ok address
        ∧ parentTimes isUuid address.segments.length l = .ok (some root)
        ∧ root.parent isUuid = .ok none)
      ∧ ∀ l' name name' child, Accepted isUuid l' →
        l.join isUuid name = .ok child → l'.join isUuid name' = .ok child →
        name = name' ∧ ∃ address address', l.address isUuid = .ok address
          ∧ l'.address isUuid = .ok address'
          ∧ address.segments = address'.segments := by
  obtain ⟨place, hnames, hplace⟩ := hl.names
  have haddress := address_eq hnames
  refine ⟨fun name hname => ?_, ?_, ?_⟩
  · have hchild := hplace.child hname
    have hchildNames := names_location hchild
    refine ⟨(place.child name).location, place.location, _, join_eq hnames hplace hname,
      parse_render hchild, hnames.provider.symm, ?_, ?_, hnames.provider.symm,
      haddress, address_eq (names_location hplace), fun hproduced => ?_⟩
    · exact name_eq hchildNames List.getLast?_concat
    · rw [parent_eq hchildNames hchild, if_neg, up_child]
      exact List.append_ne_nil_of_right_ne_nil _ (List.cons_ne_nil _ _)
    · -- a produced location is the text of its only place
      obtain ⟨place', hplace', rfl⟩ := hproduced.location
      rw [hnames.unique (names_location hplace')]
  · obtain ⟨root, hroot, hnone⟩ := parentTimes_eq hplace hnames
    exact ⟨_, root, haddress, hroot, hnone⟩
  · intro l' name name' child hl' hjoin hjoin'
    obtain ⟨place', hnames', hplace'⟩ := hl'.names
    have hname := (join_spec hjoin).1
    have hname' := (join_spec hjoin').1
    rw [join_eq hnames hplace hname] at hjoin
    rw [join_eq hnames' hplace' hname'] at hjoin'
    have hsame : place.child name = place'.child name' := by
      have h := names_location (hplace.child hname)
      have h' := names_location (hplace'.child hname')
      rw [ok.inj hjoin] at h
      rw [ok.inj hjoin'] at h'
      exact h.unique h'
    have hsegments := congrArg segments hsame
    obtain ⟨hsegments, hlast⟩ := List.append_inj' hsegments rfl
    refine ⟨utf8_injective (List.cons.inj hlast).1, _, _, haddress,
      address_eq hnames', hsegments⟩

def isHyphenatedUuid (t : List Char) : Bool :=
  t.length = 36 ∧ t.zipIdx.all fun (c, i) =>
    if i ∈ [8, 13, 18, 23] then c = '-' else (hexValue c).isSome

/-- A directory of a connection. -/
def sampleRemote : Location where
  providerId := "sftp"
  uri := "sftp://11111111-1111-4111-8111-111111111111/home%2dbase".toList

theorem sampleRemote_accepted : Accepted isHyphenatedUuid sampleRemote := by
  have hparse : parse isHyphenatedUuid sampleRemote.uri = .ok sampleRemote := by
    unfold sampleRemote
    rw [String.toList_ofList]
    decide +kernel
  exact ⟨⟨sampleRemote.uri, hparse⟩, by decide⟩

theorem path_algebra_remote :
    Accepted isHyphenatedUuid sampleRemote ∧ ∃ child,
      sampleRemote.join isHyphenatedUuid "a!b?é".toList = .ok child
        ∧ child.name isHyphenatedUuid = .ok "a!b?é".toList := by
  obtain ⟨child, -, -, hjoin, -, -, hname, -⟩ :=
    (path_algebra sampleRemote_accepted).1 "a!b?é".toList (by decide)
  exact ⟨sampleRemote_accepted, child, hjoin, hname⟩

end FileManager.Locations
