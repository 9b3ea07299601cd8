/-
The parsers decide `Reads`: each of them accepts a text exactly where it
spells a place of its scheme, and `Location::parse` puts them together.
The other way round, the text of every well-formed place is accepted and
reads as that place.
-/
import FileManager.Locations.Address
import FileManager.Lib.Fallible

namespace FileManager.Locations

open Fallible (bind_eq_ok)
open List Scheme Text Fallible
open ParsedFileUri (validateSegments parse)
open Text (decode ofUtf8 splitOnce splitOnce_append stripEnd)

variable {isUuid : List Char → Bool} {α β : Type} {f : α → Except LocationError β}
  {segments : List Segment} {bytes : Segment} {uri authority path : List Char} {c : Char}
  {form : RemoteForm} {place : Place} {l : Location} {xs : List α} {ys : List β}

-- ==== results

theorem bind_of_ok {x : Except LocationError α} {a : α}
    {r : Except LocationError β} (hx : x = .ok a) (hf : f a = r) : (x >>= f) = r := by
  rw [hx]
  exact hf

theorem collect_eq_ok : collect f xs = .ok ys ↔ List.Forall₂ (fun x y => f x = .ok y) xs ys := by
  induction xs generalizing ys with
  | nil =>
    rw [forall₂_nil_left_iff]
    refine ⟨fun h => ?_, fun h => by rw [h]; rfl⟩
    cases h
    rfl
  | cons x rest ih =>
    unfold collect
    rw [bind_eq_ok, forall₂_cons_left_iff]
    refine ⟨fun ⟨y, hy, h⟩ => ?_, fun ⟨y, ys', hy, hrest, hys⟩ => ?_⟩
    · obtain ⟨ys', hrest, hpure⟩ := bind_eq_ok.mp h
      cases hpure
      exact ⟨y, ys', hy, ih.mp hrest, rfl⟩
    · refine ⟨y, hy, bind_eq_ok.mpr ⟨ys', ih.mpr hrest, ?_⟩⟩
      rw [hys]
      rfl

theorem mem_of_collect (h : collect f xs = .ok ys) {y : β} (hy : y ∈ ys) : ∃ x ∈ xs, f x = .ok y := by
  have hall := collect_eq_ok.mp h
  induction hall with
  | nil => cases hy
  | cons hx hrest ih =>
    rcases mem_cons.mp hy with rfl | hy
    · exact ⟨_, mem_cons_self, hx⟩
    · obtain ⟨x, hmem, hfx⟩ := ih (collect_eq_ok.mpr hrest) hy
      exact ⟨x, mem_cons_of_mem _ hmem, hfx⟩

theorem checkSegments_eq_ok {devices : Bool} :
    checkSegments devices segments = .ok ()
      ↔ ∀ segment ∈ segments, checkSegment devices segment = .ok () := by
  induction segments with
  | nil => exact ⟨fun _ _ h => absurd h not_mem_nil, fun _ => rfl⟩
  | cons segment rest ih =>
    unfold checkSegments
    rw [bind_eq_ok, forall_mem_cons, ← ih]
    refine ⟨fun ⟨u, hu, h⟩ => ⟨hu, h⟩, fun ⟨hu, h⟩ => ⟨(), hu, h⟩⟩

theorem percentDecode_eq_ok {t : List Char} :
    percentDecode t = .ok bytes ↔ decode t = some bytes := by
  unfold percentDecode
  cases decode t with
  | none => simp
  | some b => simp

theorem fromUtf8_eq_ok {name : List Char} :
    fromUtf8 bytes = .ok name ↔ ofUtf8 bytes = some name := by
  unfold fromUtf8
  cases ofUtf8 bytes with
  | none => simp
  | some t => simp

-- ==== parts of text

theorem remainderOf_eq_ok {scheme remainder : List Char} :
    remainderOf scheme uri = .ok remainder
      ↔ uri = scheme ++ "://".toList ++ remainder ∧ '?' ∉ remainder ∧ '#' ∉ remainder := by
  unfold remainderOf
  split
  case h_1 hnone =>
    refine ⟨(fun h => by cases h), fun ⟨huri, _⟩ => ?_⟩
    have hsome := List.isPrefixOf?_eq_some_iff_append_eq.mpr huri.symm
    rw [hnone] at hsome
    cases hsome
  case h_2 rest hrest =>
    have huri := List.isPrefixOf?_eq_some_iff_append_eq.mp hrest
    subst huri
    rw [append_right_inj]
    split
    case isTrue hmem =>
      refine ⟨(fun h => by cases h), fun ⟨heq, hquery, hfragment⟩ => ?_⟩
      rw [heq] at hmem
      exact absurd hmem (not_or.mpr ⟨hquery, hfragment⟩)
    case isFalse hmem =>
      obtain ⟨hquery, hfragment⟩ := not_or.mp hmem
      refine ⟨fun h => ?_, fun ⟨heq, _, _⟩ => by rw [heq]⟩
      cases h
      exact ⟨rfl, hquery, hfragment⟩

variable {scheme : List Char}

theorem split_remainder {separator : Char}
    (hquery : separator ≠ '?') (hfragment : separator ≠ '#') :
    (∃ remainder, remainderOf scheme uri = .ok remainder
        ∧ splitOnce separator remainder = some (authority, path))
      ↔ uri = scheme ++ "://".toList ++ authority ++ separator :: path
        ∧ Unbroken separator authority path := by
  constructor
  · intro hfound
    obtain ⟨remainder, hrem, hsplit⟩ := hfound
    obtain ⟨huri, hq, hf⟩ := remainderOf_eq_ok.mp hrem
    obtain ⟨heq, hsep⟩ := splitOnce_eq_some hsplit
    subst heq
    simp only [mem_append, mem_cons, not_or] at hq hf
    refine ⟨by rw [huri, append_assoc _ authority], ?_⟩
    exact { authority_query := hq.1, authority_fragment := hf.1
            authority_separator := hsep, path_query := hq.2.2
            path_fragment := hf.2.2 }
  · intro hboth
    obtain ⟨huri, hu⟩ := hboth
    refine ⟨authority ++ separator :: path, ?_, splitOnce_append path hu.authority_separator⟩
    rw [remainderOf_eq_ok, huri, append_assoc _ authority]
    simp only [mem_append, mem_cons, not_or]
    exact ⟨True.intro, ⟨hu.authority_query, hquery.symm, hu.path_query⟩,
      hu.authority_fragment, hfragment.symm, hu.path_fragment⟩

theorem remoteParts_eq_ok :
    remoteParts scheme uri = .ok (authority, path)
      ↔ uri = scheme ++ "://".toList ++ authority ++ '/' :: path ∧ Unbroken '/' authority path := by
  rw [← split_remainder (by decide) (by decide)]
  unfold remoteParts
  rw [bind_eq_ok]
  refine exists_congr fun remainder => and_congr_right fun _ => ?_
  cases splitOnce '/' remainder with
  | none => simp [throw, throwThe, MonadExceptOf.throw]
  | some parts => simp [pure, Except.pure]

theorem archiveParts_eq_ok {outer inner : List Char} :
    archiveParts uri = .ok (outer, inner)
      ↔ uri = "archive".toList ++ "://".toList ++ outer ++ '!' :: inner
        ∧ Unbroken '!' outer inner := by
  rw [← split_remainder (by decide) (by decide)]
  unfold archiveParts
  rw [bind_eq_ok]
  refine exists_congr fun remainder => and_congr_right fun _ => ?_
  cases splitOnce '!' remainder with
  | none => simp [throw, throwThe, MonadExceptOf.throw]
  | some parts => simp [pure, Except.pure]

theorem fileParts_eq_remoteParts (uri : List Char) :
    fileParts uri = remoteParts "file".toList uri := by
  unfold fileParts remoteParts
  refine bind_congr fun remainder => ?_
  split <;> rfl

-- ==== paths

theorem isUnreserved_iff {byte : UInt8} :
    isUnreserved byte = true ↔ (48 ≤ byte.toNat ∧ byte.toNat ≤ 57)
      ∨ (65 ≤ byte.toNat ∧ byte.toNat ≤ 90) ∨ (97 ≤ byte.toNat ∧ byte.toNat ≤ 122)
      ∨ byte.toNat = 45 ∨ byte.toNat = 46 ∨ byte.toNat = 95 ∨ byte.toNat = 126
      ∨ byte.toNat = 58 := by
  simp [isUnreserved, UInt8.le_iff_toNat_le, ← UInt8.toNat_inj]

theorem isUnreserved_plainAscii : PlainAscii isUnreserved := by
  intro byte hbyte
  rw [isUnreserved_iff] at hbyte
  omega

theorem not_mem_percentEncode (hc : c ∈ ['/', '?', '#', '!'])
    (segment : Segment) : c ∉ percentEncode segment := by
  have hdigit : ∀ n < 16, hexDigit n ∉ ['/', '?', '#', '!'] := by decide
  refine not_mem_encode (fun byte => ?_) segment
  have hlt : byte.toNat < 256 := UInt8.toNat_lt_size byte
  unfold encodeByte
  split
  case isTrue hplain =>
    -- The four have codes that `percent_encode` escapes.
    have hascii := (isUnreserved_plainAscii byte hplain).1
    rw [isUnreserved_iff] at hplain
    rw [mem_singleton]
    rintro rfl
    simp only [mem_cons, not_mem_nil, or_false] at hc
    rcases hc with hc | hc | hc | hc
    all_goals
      have hcode := congrArg Char.toNat hc
      rw [toNat_ofNat_ascii hascii] at hcode
      simp at hcode
      omega
  case isFalse =>
    intro hmem
    simp only [mem_cons, not_mem_nil, or_false] at hmem
    rcases hmem with rfl | rfl | rfl
    · exact absurd hc (by decide)
    · exact hdigit _ (by omega) hc
    · exact hdigit _ (by omega) hc

theorem percentDecode_percentEncode (segment : Segment) :
    percentDecode (percentEncode segment) = .ok segment :=
  percentDecode_eq_ok.mpr (decode_encode isUnreserved_plainAscii segment)

theorem mem_intercalate {parts : List (List Char)}
    (h : c ∈ ['/'].intercalate parts) : c = '/' ∨ ∃ part ∈ parts, c ∈ part := by
  induction parts with
  | nil => cases h
  | cons part rest ih =>
    cases rest with
    | nil =>
      rw [intercalate_singleton] at h
      exact .inr ⟨part, mem_singleton_self part, h⟩
    | cons next more =>
      rw [intercalate_cons_cons] at h
      rcases mem_append.mp h with h | h
      · rcases mem_append.mp h with h | h
        · exact .inr ⟨part, mem_cons_self, h⟩
        · exact .inl (mem_singleton.mp h)
      · rcases ih h with h | ⟨p, hp, h⟩
        · exact .inl h
        · exact .inr ⟨p, mem_cons_of_mem _ hp, h⟩

theorem not_mem_encodePath (hc : c ∈ ['?', '#', '!'])
    (segments : List Segment) : c ∉ encodePath segments := by
  intro hmem
  rcases mem_intercalate hmem with h | ⟨part, hpart, h⟩
  · rw [h] at hc
    exact absurd hc (by decide)
  · obtain ⟨segment, -, rfl⟩ := mem_map.mp hpart
    exact not_mem_percentEncode (mem_cons_of_mem _ hc) segment h

theorem rawSegments_encodePath (h : ∀ segment ∈ segments, segment ≠ []) :
    rawSegments (encodePath segments) = segments.map percentEncode := by
  unfold rawSegments encodePath
  cases segments with
  | nil => rfl
  | cons segment rest =>
    have hsplit : (['/'].intercalate ((segment :: rest).map percentEncode)).splitOn '/'
        = (segment :: rest).map percentEncode := by
      refine splitOn_intercalate '/' ?_ (cons_ne_nil _ _)
      intro part hpart
      obtain ⟨s, -, rfl⟩ := mem_map.mp hpart
      exact not_mem_percentEncode (by decide) s
    rw [if_neg, hsplit]
    intro hnil
    rw [hnil] at hsplit
    have hhead : percentEncode segment = [] := (List.cons.inj hsplit).1.symm
    exact encode_ne_nil (h segment mem_cons_self) hhead

theorem decodePath_encodePath (h : ∀ segment ∈ segments, segment ≠ []) :
    decodePath (encodePath segments) = .ok segments := by
  unfold decodePath
  rw [rawSegments_encodePath h, if_neg, collect_eq_ok, forall₂_map_left_iff]
  · exact forall₂_same.mpr fun s _ => percentDecode_percentEncode s
  · intro hempty
    obtain ⟨part, hpart, hnil⟩ := any_eq_true.mp hempty
    obtain ⟨s, hs, rfl⟩ := mem_map.mp hpart
    exact encode_ne_nil (h s hs) (isEmpty_iff.mp hnil)

theorem stripEnd_of_rawSegments (h : [] ∉ rawSegments path) : stripEnd '/' path = path := by
  unfold stripEnd
  rw [if_neg]
  intro hlast
  obtain ⟨before, rfl⟩ := List.getLast?_eq_some_iff.mp hlast
  apply h
  unfold rawSegments
  rw [if_neg (append_ne_nil_of_right_ne_nil _ (cons_ne_nil _ _)), splitOn_append_cons_self]
  exact mem_append_right _ (mem_singleton_self [])

theorem nil_not_mem_rawSegments (h : decodePath path = .ok segments) : [] ∉ rawSegments path := by
  unfold decodePath at h
  obtain ⟨hempty, h⟩ := passed h nofun
  intro hmem
  exact hempty (any_eq_true.mpr ⟨[], hmem, rfl⟩)

theorem ne_nil_of_decodePath
    (h : decodePath path = .ok segments) : ∀ segment ∈ segments, segment ≠ [] := by
  unfold decodePath at h
  obtain ⟨hempty, h⟩ := passed h nofun
  intro segment hmem
  obtain ⟨part, hpart, hdecode⟩ := mem_of_collect h hmem
  refine decode_ne_nil ?_ (percentDecode_eq_ok.mp hdecode)
  intro hnil
  exact hempty (any_eq_true.mpr ⟨part, hpart, isEmpty_iff.mpr hnil⟩)

-- ==== the parsers

variable {parsed : ParsedFileUri}

theorem validateSegments_eq_ok :
    parsed.validateSegments = .ok ()
      ↔ (∃ bytes, percentDecode parsed.authority = .ok bytes ∧ (0 : UInt8) ∉ bytes)
        ∧ ∀ segment ∈ parsed.segments, checkSegment true segment = .ok () := by
  unfold validateSegments
  rw [bind_eq_ok, ← checkSegments_eq_ok]
  constructor
  · intro hfound
    obtain ⟨bytes, hbytes, h⟩ := hfound
    obtain ⟨hzero, h⟩ := passed h nofun
    exact ⟨⟨bytes, hbytes, hzero⟩, h⟩
  · intro hfound
    obtain ⟨⟨bytes, hbytes, hzero⟩, h⟩ := hfound
    refine ⟨bytes, hbytes, ?_⟩
    rw [if_neg hzero]
    exact h

theorem parseFile_eq_ok :
    parse uri = .ok parsed ↔ ∃ path,
      (uri = "file".toList ++ "://".toList ++ parsed.authority ++ '/' :: path
        ∧ Unbroken '/' parsed.authority path)
      ∧ decodePath (stripEnd '/' path) = .ok parsed.segments := by
  unfold parse
  rw [fileParts_eq_remoteParts, bind_eq_ok]
  constructor
  · intro hfound
    obtain ⟨⟨authority, path⟩, hparts, h⟩ := hfound
    obtain ⟨segments, hsegments, hpure⟩ := bind_eq_ok.mp h
    cases hpure
    exact ⟨path, remoteParts_eq_ok.mp hparts, hsegments⟩
  · intro hfound
    obtain ⟨path, hparts, hsegments⟩ := hfound
    refine ⟨(parsed.authority, path), remoteParts_eq_ok.mpr hparts, ?_⟩
    exact bind_eq_ok.mpr ⟨parsed.segments, hsegments, rfl⟩

theorem reads_file :
    (parse uri = .ok parsed ∧ parsed.validateSegments = .ok ())
      ↔ ∃ path, Reads isUuid uri ⟨.file, parsed.authority, parsed.segments⟩ path := by
  rw [parseFile_eq_ok, validateSegments_eq_ok]
  constructor
  · intro hfound
    obtain ⟨⟨path, ⟨htext, hunbroken⟩, hdecode⟩, hauthority, hchecked⟩ := hfound
    refine ⟨path, { text := htext, unbroken := hunbroken, authority := hauthority
                    decoded := hdecode, segments := ?_ }⟩
    exact fun s hs => ⟨ne_nil_of_decodePath hdecode s hs, hchecked s hs⟩
  · intro hfound
    obtain ⟨path, h⟩ := hfound
    refine ⟨⟨path, ⟨h.text, h.unbroken⟩, h.decoded⟩, h.authority, ?_⟩
    exact fun s hs => (h.segments s hs).2

variable {parsed : ParsedRemoteUri}

theorem parseRemote_eq_ok {scheme : List Char} :
    parseRemote form scheme uri = .ok parsed ↔ parsed.scheme = scheme ∧ ∃ path,
      (uri = scheme ++ "://".toList ++ parsed.connectionId ++ '/' :: path
        ∧ Unbroken '/' parsed.connectionId path)
      ∧ form.acceptsId parsed.connectionId = true
      ∧ decodePath path = .ok parsed.segments := by
  unfold parseRemote
  rw [bind_eq_ok]
  constructor
  · intro hfound
    obtain ⟨⟨connectionId, path⟩, hparts, h⟩ := hfound
    simp only at h
    obtain ⟨hid, h⟩ := passed h nofun
    obtain ⟨segments, hsegments, hpure⟩ := bind_eq_ok.mp h
    cases hpure
    exact ⟨rfl, path, remoteParts_eq_ok.mp hparts, by simpa using hid, hsegments⟩
  · intro hboth
    obtain ⟨rfl, path, hparts, hid, hsegments⟩ := hboth
    refine ⟨(parsed.connectionId, path), remoteParts_eq_ok.mpr hparts, ?_⟩
    simp only [hid]
    exact bind_eq_ok.mpr ⟨parsed.segments, hsegments, rfl⟩

/-- The scheme takes what the form of its parser takes. -/
structure Scheme.HasForm (isUuid : List Char → Bool) (scheme : Scheme)
    (form : RemoteForm) : Prop where
  remote : scheme ≠ .file
  separator : scheme.separator = '/'
  authority : ∀ id, form.acceptsId id = true ↔ scheme.AcceptsAuthority isUuid id
  path : ∀ path, scheme.segmentsOf path = decodePath path
  segment : ∀ s, (s ≠ [] ∧ checkSegment form.rejectsDevices s = .ok ()) ↔ scheme.AcceptsSegment s

theorem sftp_hasForm : HasForm isUuid .sftp (sftpForm isUuid) :=
  ⟨by decide, rfl, fun _ => Iff.rfl, fun _ => rfl, fun _ => Iff.rfl⟩

theorem webDav_hasForm : HasForm isUuid .webdav (webDavForm isUuid) :=
  ⟨by decide, rfl, fun _ => Iff.rfl, fun _ => rfl, fun _ => Iff.rfl⟩

theorem ftp_hasForm : HasForm isUuid .ftp (ftpForm isUuid) :=
  ⟨by decide, rfl, fun _ => Iff.rfl, fun _ => rfl, fun _ => Iff.rfl⟩

theorem ftps_hasForm : HasForm isUuid .ftps (ftpForm isUuid) :=
  ⟨by decide, rfl, fun _ => Iff.rfl, fun _ => rfl, fun _ => Iff.rfl⟩

theorem reads_remote {scheme : Scheme} (hform : scheme.HasForm isUuid form) :
    (parseRemote form scheme.text uri = .ok parsed
        ∧ checkSegments form.rejectsDevices parsed.segments = .ok ()) ↔ parsed.scheme = scheme.text
        ∧ ∃ path, Reads isUuid uri ⟨scheme, parsed.connectionId, parsed.segments⟩ path := by
  rw [parseRemote_eq_ok, checkSegments_eq_ok]
  constructor
  · intro hboth
    obtain ⟨⟨hscheme, path, ⟨htext, hunbroken⟩, hid, hdecode⟩, hchecked⟩ := hboth
    refine ⟨hscheme, path, {
      text := ?_, unbroken := ?_, authority := (hform.authority _).mp hid
      decoded := ?_, segments := fun s hs => ?_ }⟩
    · rw [hform.separator]
      exact htext
    · rw [hform.separator]
      exact hunbroken
    · rw [hform.path]
      exact hdecode
    · exact (hform.segment s).mp ⟨ne_nil_of_decodePath hdecode s hs, hchecked s hs⟩
  · intro hboth
    obtain ⟨hscheme, path, h⟩ := hboth
    have htext := h.text
    have hunbroken := h.unbroken
    have hdecoded := h.decoded
    rw [hform.separator] at htext hunbroken
    rw [hform.path] at hdecoded
    refine ⟨⟨hscheme, path, ⟨htext, hunbroken⟩, (hform.authority _).mpr h.authority,
      hdecoded⟩, fun s hs => ?_⟩
    exact ((hform.segment s).mpr (h.segments s hs)).2

theorem decodeInnerSegment_eq_ok {raw : List Char} {segment : Segment} :
    decodeInnerSegment raw = .ok segment
      ↔ percentDecode raw = .ok segment ∧ archive.AcceptsSegment segment := by
  unfold decodeInnerSegment AcceptsSegment
  rw [bind_eq_ok]
  constructor
  · intro hfound
    obtain ⟨decoded, hdecoded, h⟩ := hfound
    obtain ⟨name, hname, h⟩ := bind_eq_ok.mp h
    obtain ⟨u, hvalid, hpure⟩ := bind_eq_ok.mp h
    cases hpure
    exact ⟨hdecoded, name, fromUtf8_eq_ok.mp hname, hvalid⟩
  · intro hboth
    obtain ⟨hdecoded, name, hname, hvalid⟩ := hboth
    refine ⟨segment, hdecoded, bind_eq_ok.mpr ⟨name, fromUtf8_eq_ok.mpr hname, ?_⟩⟩
    exact bind_eq_ok.mpr ⟨(), hvalid, rfl⟩

theorem reads_archive {parsed : ParsedArchiveUri} :
    ParsedArchiveUri.parse uri = .ok parsed
      ↔ ∃ path, Reads isUuid uri ⟨.archive, parsed.outer, parsed.innerSegments⟩ path := by
  unfold ParsedArchiveUri.parse
  rw [bind_eq_ok]
  constructor
  · intro hfound
    obtain ⟨⟨outer, path⟩, hparts, h⟩ := hfound
    simp only at h
    obtain ⟨houter, h⟩ := passed h nofun
    obtain ⟨hne, -⟩ := not_or.mp houter
    obtain ⟨parsedOuter, hparsed, h⟩ := bind_eq_ok.mp h
    obtain ⟨u, hvalid, h⟩ := bind_eq_ok.mp h
    obtain ⟨hroot, h⟩ := passed h nofun
    obtain ⟨inner, hinner, h⟩ := bind_eq_ok.mp h
    obtain ⟨segments, hsegments, hpure⟩ := bind_eq_ok.mp h
    cases hpure
    obtain ⟨htext, hunbroken⟩ := archiveParts_eq_ok.mp hparts
    refine ⟨path, { text := htext, unbroken := hunbroken
                    authority := ⟨hne, parsedOuter, hparsed, hvalid, hroot⟩
                    decoded := bind_eq_ok.mpr ⟨inner, hinner, hsegments⟩
                    segments := fun s hs => ?_ }⟩
    obtain ⟨raw, -, hraw⟩ := mem_of_collect hsegments hs
    exact (decodeInnerSegment_eq_ok.mp hraw).2
  · intro hfound
    obtain ⟨path, h⟩ := hfound
    obtain ⟨hne, parsedOuter, hparsed, hvalid, hroot⟩ := h.authority
    obtain ⟨inner, hinner, hsegments⟩ := bind_eq_ok.mp h.decoded
    refine ⟨(parsed.outer, path), archiveParts_eq_ok.mpr ⟨h.text, h.unbroken⟩, ?_⟩
    have houter : ¬ (parsed.outer = [] ∨ '!' ∈ parsed.outer) :=
      not_or.mpr ⟨hne, h.unbroken.authority_separator⟩
    simp only
    rw [if_neg houter]
    refine bind_eq_ok.mpr ⟨parsedOuter, hparsed, bind_eq_ok.mpr ⟨(), hvalid, ?_⟩⟩
    rw [if_neg hroot]
    refine bind_eq_ok.mpr ⟨inner, hinner, ?_⟩
    exact bind_eq_ok.mpr ⟨parsed.innerSegments, hsegments, rfl⟩

-- ==== schemes

theorem parseScheme_text (scheme : Scheme) (rest : List Char) :
    parseScheme (scheme.text ++ "://".toList ++ rest) = .ok scheme.text := by
  have hcolon : ':' ∉ scheme.text := by
    cases scheme <;> decide
  have hscheme : isSchemeText scheme.text = true := by
    cases scheme <;> decide
  have htext : scheme.text ++ "://".toList ++ rest
      = scheme.text ++ ':' :: ('/' :: '/' :: rest) := by
    rw [append_assoc]
    rfl
  unfold parseScheme
  rw [htext, splitOnce_append _ hcolon]
  exact if_pos hscheme

theorem Reads.parseScheme
    (h : Reads isUuid uri place path) : parseScheme uri = .ok place.scheme.text := by
  rw [h.text, append_assoc]
  exact parseScheme_text place.scheme _

theorem Scheme.text_injective : Function.Injective text := by
  intro scheme scheme' h
  revert h
  cases scheme <;> cases scheme' <;> decide

theorem scheme_of_provider {text : List Char} {provider : String} (hsearch : text ≠ "search".toList)
    (h : providerForScheme text = .ok provider) :
    ∃ scheme : Scheme, text = scheme.text ∧ provider = scheme.provider := by
  unfold providerForScheme at h
  rw [if_neg hsearch] at h
  split at h
  case h_2 => cases h
  case h_1 found provider' hfind =>
    cases h
    have hmem := mem_of_find?_eq_some hfind
    have htest := List.find?_some hfind
    have htext : found = text := by simpa using htest
    simp only [schemeMap, mem_cons, not_mem_nil, or_false, Prod.mk.injEq]
      at hmem
    rw [← htext]
    rcases hmem with h | h | h | h | h | h
    · exact ⟨.file, h⟩
    · exact ⟨.archive, h⟩
    · exact ⟨.sftp, h⟩
    · exact ⟨.ftp, h⟩
    · exact ⟨.ftps, h⟩
    · exact ⟨.webdav, h⟩

variable {scheme : Scheme}

theorem parseFtp_of_scheme (hscheme : scheme = .ftp ∨ scheme = .ftps)
    (h : parseScheme uri = .ok scheme.text) :
    parseFtp isUuid uri = parseRemote (ftpForm isUuid) scheme.text uri := by
  unfold parseFtp
  rw [h]
  rcases hscheme with rfl | rfl <;> rfl

-- ==== parsing as a whole

/-- The branch of `Location::parse` for a scheme. -/
def parseBranch (isUuid : List Char → Bool) (scheme : Scheme) (uri : List Char) :
    Except LocationError Location :=
  match scheme with
  | .file => do
    let parsed ← parse uri
    parsed.validateSegments
    return { providerId := "local"
             uri := if parsed.segments = [] then uri else stripEnd '/' uri }
  | .archive => do
    let _ ← ParsedArchiveUri.parse uri
    return { providerId := "archive", uri := uri }
  | .sftp => do
    let parsed ← parseSftp isUuid uri
    checkSegments (sftpForm isUuid).rejectsDevices parsed.segments
    return { providerId := "sftp", uri := uri }
  | .ftp | .ftps => do
    let parsed ← parseFtp isUuid uri
    checkSegments (ftpForm isUuid).rejectsDevices parsed.segments
    return { providerId := "ftp", uri := uri }
  | .webdav => do
    let parsed ← parseWebDav isUuid uri
    checkSegments (webDavForm isUuid).rejectsDevices parsed.segments
    return { providerId := "webdav", uri := uri }

theorem parse_of_scheme (h : parseScheme uri = .ok scheme.text) :
    Location.parse isUuid uri = parseBranch isUuid scheme uri := by
  unfold Location.parse
  rw [h]
  cases scheme with
  | _ => rfl

theorem Place.canonical_of_ne (h : place.scheme ≠ .file)
    (uri : List Char) : place.canonical uri = uri :=
  if_neg fun hfile => h hfile.1

theorem remoteBranch_eq_ok (hform : scheme.HasForm isUuid form) :
    (parseRemote form scheme.text uri >>= fun parsed =>
        checkSegments form.rejectsDevices parsed.segments >>= fun _ =>
          pure { providerId := scheme.provider, uri := uri }) = .ok l
      ↔ ∃ place path, Reads isUuid uri place path ∧ place.scheme = scheme
        ∧ l = { providerId := scheme.provider, uri := place.canonical uri } := by
  rw [bind_eq_ok]
  constructor
  · intro hfound
    obtain ⟨parsed, hparsed, h⟩ := hfound
    obtain ⟨u, hchecked, hpure⟩ := bind_eq_ok.mp h
    cases hpure
    obtain ⟨-, path, hreads⟩ := (reads_remote hform).mp ⟨hparsed, hchecked⟩
    refine ⟨_, path, hreads, rfl, ?_⟩
    rw [Place.canonical_of_ne hform.remote]
  · intro hfound
    obtain ⟨place, path, hreads, rfl, rfl⟩ := hfound
    have hparsed : parseRemote form place.scheme.text uri
          = .ok ⟨place.scheme.text, place.authority, place.segments⟩
        ∧ checkSegments form.rejectsDevices place.segments = .ok () :=
      (reads_remote hform).mpr ⟨rfl, path, hreads⟩
    refine ⟨_, hparsed.1, bind_eq_ok.mpr ⟨(), hparsed.2, ?_⟩⟩
    rw [Place.canonical_of_ne hform.remote]
    rfl

theorem parseBranch_eq_ok (hscheme : parseScheme uri = .ok scheme.text) :
    parseBranch isUuid scheme uri = .ok l
      ↔ ∃ place path, Reads isUuid uri place path ∧ place.scheme = scheme
        ∧ l = { providerId := scheme.provider, uri := place.canonical uri } := by
  cases scheme with
  | file =>
    unfold parseBranch
    rw [bind_eq_ok]
    constructor
    · intro hfound
      obtain ⟨parsed, hparsed, h⟩ := hfound
      obtain ⟨u, hvalid, hpure⟩ := bind_eq_ok.mp h
      cases hpure
      obtain ⟨path, hreads⟩ := reads_file.mp ⟨hparsed, hvalid⟩
      refine ⟨_, path, hreads, rfl, ?_⟩
      simp [Place.canonical, provider]
    · intro hfound
      obtain ⟨⟨scheme, authority, segments⟩, path, hreads, rfl, rfl⟩ := hfound
      have hparsed : parse uri = .ok ⟨authority, segments⟩
          ∧ validateSegments ⟨authority, segments⟩ = .ok () :=
        reads_file.mpr ⟨path, hreads⟩
      refine ⟨_, hparsed.1, bind_eq_ok.mpr ⟨(), hparsed.2, ?_⟩⟩
      simp [Place.canonical, provider, pure, Except.pure]
  | archive =>
    unfold parseBranch
    rw [bind_eq_ok]
    constructor
    · intro hfound
      obtain ⟨parsed, hparsed, hpure⟩ := hfound
      cases hpure
      obtain ⟨path, hreads⟩ := reads_archive.mp hparsed
      exact ⟨_, path, hreads, rfl, rfl⟩
    · intro hfound
      obtain ⟨⟨scheme, authority, segments⟩, path, hreads, rfl, rfl⟩ := hfound
      have hparsed : ParsedArchiveUri.parse uri = .ok ⟨authority, segments⟩ :=
        reads_archive.mpr ⟨path, hreads⟩
      exact ⟨_, hparsed, rfl⟩
  | sftp => exact remoteBranch_eq_ok sftp_hasForm
  | webdav => exact remoteBranch_eq_ok webDav_hasForm
  | ftp =>
    unfold parseBranch
    rw [parseFtp_of_scheme (Or.inl rfl) hscheme]
    exact remoteBranch_eq_ok ftp_hasForm
  | ftps =>
    unfold parseBranch
    rw [parseFtp_of_scheme (Or.inr rfl) hscheme]
    exact remoteBranch_eq_ok ftps_hasForm

def IsSearch (uri : List Char) : Prop :=
  parseScheme uri = .ok "search".toList ∧ validateSearchUri uri = .ok ()

theorem parse_eq_ok :
    Location.parse isUuid uri = .ok l
      ↔ (IsSearch uri ∧ l = { providerId := "search", uri := uri })
        ∨ ∃ place path, Reads isUuid uri place path
          ∧ l = { providerId := place.scheme.provider, uri := place.canonical uri } := by
  constructor
  · intro h
    obtain ⟨text, htext, hrest⟩ := bind_eq_ok.mp h
    by_cases hsearch : text = "search".toList
    · left
      rw [if_pos hsearch] at hrest
      obtain ⟨u, hvalid, hpure⟩ := bind_eq_ok.mp hrest
      cases hpure
      rw [hsearch] at htext
      exact ⟨⟨htext, hvalid⟩, rfl⟩
    · right
      rw [if_neg hsearch] at hrest
      obtain ⟨provider, hprovider, -⟩ := bind_eq_ok.mp hrest
      obtain ⟨scheme, rfl, -⟩ := scheme_of_provider hsearch hprovider
      rw [parse_of_scheme htext] at h
      obtain ⟨place, path, hreads, rfl, hl⟩ := (parseBranch_eq_ok htext).mp h
      exact ⟨place, path, hreads, hl⟩
  · intro hcase
    rcases hcase with ⟨⟨hscheme, hvalid⟩, rfl⟩ | ⟨place, path, hreads, rfl⟩
    · refine bind_eq_ok.mpr ⟨_, hscheme, ?_⟩
      rw [if_pos rfl]
      exact bind_eq_ok.mpr ⟨(), hvalid, rfl⟩
    · rw [parse_of_scheme hreads.parseScheme]
      exact (parseBranch_eq_ok hreads.parseScheme).mpr ⟨place, path, hreads, rfl, rfl⟩

-- ==== the text of a place

theorem Place.WellFormed.ne_nil (h : place.WellFormed isUuid) :
    ∀ segment ∈ place.segments, segment ≠ [] := by
  intro segment hmem
  have haccepts := h.segments segment hmem
  cases hscheme : place.scheme with
  | archive =>
    rw [hscheme] at haccepts
    obtain ⟨name, hname, hvalid⟩ := haccepts
    intro heq
    subst heq
    have hempty : name = [] := (Option.some.inj hname).symm
    rw [hempty] at hvalid
    cases hvalid
  | _ =>
    rw [hscheme] at haccepts
    exact haccepts.1

theorem segmentsOf_path (h : place.WellFormed isUuid) :
    place.scheme.segmentsOf place.path = .ok place.segments := by
  have hne := h.ne_nil
  have hsegments := h.segments
  obtain ⟨scheme, authority, segments⟩ := place
  have hdecode := decodePath_encodePath hne
  cases scheme with
  | file =>
    show decodePath (stripEnd '/' (encodePath segments)) = _
    rw [stripEnd_of_rawSegments (nil_not_mem_rawSegments hdecode)]
    exact hdecode
  | archive =>
    have hinner : innerPath (Place.path ⟨.archive, authority, segments⟩)
        = .ok (encodePath segments) := by
      show innerPath (if encodePath segments = [] then [] else _) = _
      split
      case isTrue hnil => rw [hnil]; rfl
      case isFalse => rfl
    refine bind_eq_ok.mpr ⟨_, hinner, ?_⟩
    rw [rawSegments_encodePath hne, collect_eq_ok, forall₂_map_left_iff]
    refine forall₂_same.mpr fun s hs => ?_
    exact decodeInnerSegment_eq_ok.mpr ⟨percentDecode_percentEncode s, hsegments s hs⟩
  | _ => exact hdecode

theorem reads_render (h : place.WellFormed isUuid) :
    Reads isUuid place.render place place.path := by
  have hpath : ∀ c ∈ ['?', '#'], c ∉ place.path := by
    intro c hc hmem
    have hc' : c ∈ ['?', '#', '!'] := mem_append_left ['!'] hc
    have hslash : c ≠ '/' := by
      intro heq
      subst heq
      exact absurd hc (by decide)
    unfold Place.path at hmem
    split at hmem
    case h_1 =>
      simp only at hmem
      split at hmem
      case isTrue => cases hmem
      case isFalse =>
        rcases mem_cons.mp hmem with h | h
        · exact hslash h
        · exact not_mem_encodePath hc' _ h
    case h_2 => exact not_mem_encodePath hc' _ hmem
  exact { text := rfl
          unbroken := { h.unbroken with
            path_query := hpath _ (by decide), path_fragment := hpath _ (by decide) }
          authority := h.authority
          decoded := segmentsOf_path h
          segments := h.segments }

theorem Reads.wellFormed (h : Reads isUuid uri place path) : place.WellFormed isUuid :=
  { unbroken := { h.unbroken with
      path_query := not_mem_nil, path_fragment := not_mem_nil }
    authority := h.authority
    segments := h.segments }

theorem Reads.unique {path' : List Char} {place' : Place} (h : Reads isUuid uri place path)
    (h' : Reads isUuid uri place' path') : place = place' ∧ path = path' := by
  have hscheme : place.scheme = place'.scheme :=
    text_injective (Except.ok.inj (h.parseScheme.symm.trans h'.parseScheme))
  obtain ⟨scheme, authority, segments⟩ := place
  obtain ⟨scheme', authority', segments'⟩ := place'
  simp only at hscheme
  subst hscheme
  have htext := h.text.symm.trans h'.text
  simp only [append_assoc, append_cancel_left_eq] at htext
  have hsplit := splitOnce_append path h.unbroken.authority_separator
  have hsplit' := splitOnce_append path' h'.unbroken.authority_separator
  simp only at hsplit hsplit'
  rw [htext, hsplit'] at hsplit
  cases hsplit
  have hdecoded := h.decoded.symm.trans h'.decoded
  cases hdecoded
  exact ⟨rfl, rfl⟩

end FileManager.Locations
