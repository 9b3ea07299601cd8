/-
How far one thing has one URI: what of a text `Location::parse` keeps.
Of two texts that spell the same place it returns the same location
exactly where they are spelled alike. Percent-escapes, the slash after
an archive's mark and a second slash of a root are kept as written.
-/
import FileManager.Locations.Proofs.Paths

namespace FileManager.Locations

open Fallible (bind_eq_ok)
open Locations.Location List

variable {isUuid : List Char → Bool} {segments : List Segment} {path inner uri : List Char}
  {scheme : Scheme} {place : Place}

-- ==== written segments

theorem intercalate_rawSegments (path : List Char) :
    ['/'].intercalate (rawSegments path) = path := by
  unfold rawSegments
  split
  case isTrue hnil =>
    rw [hnil]
    rfl
  case isFalse => exact intercalate_splitOn '/'

theorem rawSegments_injective : Function.Injective rawSegments := by
  intro path path' h
  rw [← intercalate_rawSegments path, h, intercalate_rawSegments path']

theorem length_of_collect {α β : Type} {f : α → Except LocationError β} {xs : List α}
    {ys : List β} (h : collect f xs = .ok ys) : xs.length = ys.length :=
  (collect_eq_ok.mp h).length_eq

theorem length_of_decodePath (h : decodePath path = .ok segments) :
    (rawSegments path).length = segments.length := by
  unfold decodePath at h
  split at h
  case isTrue => cases h
  case isFalse => exact length_of_collect h

theorem innerPath_eq_ok (h : innerPath path = .ok inner) :
    (path = [] ∧ inner = []) ∨ path = '/' :: inner := by
  unfold innerPath at h
  split at h
  case h_1 =>
    cases h
    exact .inl ⟨rfl, rfl⟩
  case h_2 =>
    cases h
    exact .inr rfl
  case h_3 => cases h

theorem drop_of_innerPath (h : innerPath path = .ok inner) : path.drop 1 = inner := by
  rcases innerPath_eq_ok h with ⟨rfl, rfl⟩ | rfl <;> rfl

theorem eq_cons_drop (h : innerPath path = .ok inner)
    (hraw : rawSegments (path.drop 1) ≠ []) : path = '/' :: path.drop 1 := by
  rcases innerPath_eq_ok h with ⟨rfl, -⟩ | rfl
  · exact absurd rfl hraw
  · rfl

theorem length_rawOf
    (h : scheme.segmentsOf path = .ok segments) : (scheme.rawOf path).length = segments.length := by
  cases scheme with
  | archive =>
    obtain ⟨inner, hinner, hcollect⟩ := bind_eq_ok.mp h
    show (rawSegments (path.drop 1)).length = _
    rw [drop_of_innerPath hinner]
    exact length_of_collect hcollect
  | _ => exact length_of_decodePath h

theorem rawOf_eq_nil
    (h : scheme.segmentsOf path = .ok segments) : scheme.rawOf path = [] ↔ segments = [] := by
  rw [← length_eq_zero_iff, length_rawOf h, length_eq_zero_iff]

-- ==== the text

theorem Reads.pathText (h : Reads isUuid uri place path) : pathText uri = path := by
  have hcolon : ':' ∉ place.scheme.text := by
    cases place.scheme <;> decide
  have hsep : (if place.scheme.text = "archive".toList then '!' else '/')
      = place.scheme.separator := by
    cases place.scheme <;> rfl
  have htext : uri = place.scheme.text
      ++ ':' :: '/' :: '/' :: (place.authority ++ place.scheme.separator :: path) := by
    rw [h.text]
    simp
  unfold Locations.pathText
  rw [htext, Text.splitOnce_append _ hcolon]
  simp only [hsep, drop_succ_cons, drop_zero]
  rw [Text.splitOnce_append _ h.unbroken.authority_separator]

theorem Reads.writtenSegments (h : Reads isUuid uri place path) :
    writtenSegments uri = place.scheme.rawOf path := by
  unfold Locations.writtenSegments
  rw [h.parseScheme, h.pathText]
  cases place.scheme <;> rfl

theorem canonical_eq_iff {uri' path' : List Char} (h : Reads isUuid uri place path)
    (h' : Reads isUuid uri' place path') :
    place.canonical path = place.canonical path'
      ↔ place.scheme.rawOf path = place.scheme.rawOf path'
        ∧ (place.scheme.rawOf path = [] → path = path') := by
  have hnil := rawOf_eq_nil h.decoded
  have hnil' := rawOf_eq_nil h'.decoded
  by_cases hsegments : place.segments = []
  · -- a root keeps its path
    have hkeep : ∀ p, place.canonical p = p := by
      intro p
      exact if_neg fun hfile => hfile.2 hsegments
    rw [hkeep, hkeep, hnil.mpr hsegments, hnil'.mpr hsegments]
    exact ⟨fun heq => ⟨rfl, fun _ => heq⟩, fun heq => heq.2 rfl⟩
  · have hne : place.scheme.rawOf path ≠ [] := fun hraw => hsegments (hnil.mp hraw)
    have hraw : place.canonical path = place.canonical path'
        ↔ place.scheme.rawOf path = place.scheme.rawOf path' := by
      have hdecoded := h.decoded
      have hdecoded' := h'.decoded
      obtain ⟨scheme, authority, segments⟩ := place
      cases scheme with
      | file =>
        have hstrip : ∀ p, Place.canonical ⟨.file, authority, segments⟩ p
            = Text.stripEnd '/' p := fun p => if_pos ⟨rfl, hsegments⟩
        rw [hstrip, hstrip]
        exact rawSegments_injective.eq_iff.symm
      | archive =>
        rw [Place.canonical_of_ne (by simp), Place.canonical_of_ne (by simp)]
        refine ⟨fun heq => by rw [heq], fun heq => ?_⟩
        have hdrop : path.drop 1 = path'.drop 1 := rawSegments_injective heq
        obtain ⟨inner, hinner, -⟩ := bind_eq_ok.mp hdecoded
        obtain ⟨inner', hinner', -⟩ := bind_eq_ok.mp hdecoded'
        have hne' : rawSegments (path'.drop 1) ≠ [] := by
          rw [← hdrop]
          exact hne
        rw [eq_cons_drop hinner hne, eq_cons_drop hinner' hne', hdrop]
      | _ =>
        rw [Place.canonical_of_ne (by simp), Place.canonical_of_ne (by simp)]
        exact rawSegments_injective.eq_iff.symm
    rw [hraw]
    exact ⟨fun heq => ⟨heq, fun hempty => absurd hempty hne⟩, fun heq => heq.1⟩

-- ==== searches

theorem IsSearch.text (h : IsSearch uri) :
    ∃ searchId, uri = "search://local/".toList ++ searchId
      ∧ searchAddress uri
        = .ok { authority := "local".toList, segments := [Text.utf8 searchId] } := by
  obtain ⟨-, hvalid⟩ := h
  unfold validateSearchUri at hvalid
  split at hvalid
  case h_1 => cases hvalid
  case h_2 remainder hremainder =>
    split at hvalid
    case h_2 => cases hvalid
    case h_1 authority searchId hsplit =>
      split at hvalid
      case isFalse => cases hvalid
      case isTrue hlocal =>
        have huri := isPrefixOf?_eq_some_iff_append_eq.mp hremainder
        have hjoined : ['/'].intercalate (remainder.splitOn '/') = remainder :=
          intercalate_splitOn '/'
        rw [hsplit, hlocal.1] at hjoined
        refine ⟨searchId, ?_, ?_⟩
        · rw [← huri, ← hjoined]
          simp [intercalate]
        · unfold searchAddress
          rw [hremainder]
          simp only [Option.map_some, hsplit, hlocal.1]

-- ==== spellings

/-- The text itself, read by the parser of its provider. -/
def uriAddress (isUuid : List Char → Bool) (l : Location) (uri : List Char) :
    Except LocationError Address :=
  address isUuid { providerId := l.providerId, uri := uri }

theorem uriAddress_of_reads {l : Location} (h : Reads isUuid uri place path)
    (hl : l.providerId = place.scheme.provider) :
    uriAddress isUuid l uri = .ok { authority := place.authority, segments := place.segments } :=
  address_eq ⟨hl, path, h⟩

theorem provider_ne_search (scheme : Scheme) : scheme.provider ≠ "search" := by
  cases scheme <;> decide

/-- Two accepted texts of one provider and one address have one location
exactly if they are spelled alike; and a location's own text is kept as
it is. -/
theorem one_location_iff_spelled_alike {uri uri' : List Char} {l l' : Location}
    (h : parse isUuid uri = .ok l) (h' : parse isUuid uri' = .ok l')
    (hprovider : l.providerId = l'.providerId)
    (haddress : uriAddress isUuid l uri = uriAddress isUuid l' uri') :
    (l = l' ↔ SpelledAlike uri uri') ∧ parse isUuid l.uri = .ok l := by
  refine ⟨?_, parse_idempotent h⟩
  rcases parse_eq_ok.mp h with ⟨hsearch, rfl⟩ | ⟨place, path, hreads, rfl⟩
  · rcases parse_eq_ok.mp h' with ⟨hsearch', rfl⟩ | ⟨place', path', hreads', rfl⟩
    · obtain ⟨searchId, huri, haddr⟩ := hsearch.text
      obtain ⟨searchId', huri', haddr'⟩ := hsearch'.text
      have hsame : searchAddress uri = searchAddress uri' := haddress
      rw [haddr, haddr'] at hsame
      have hid : searchId = searchId' := by
        have hbytes := congrArg Address.segments (Except.ok.inj hsame)
        exact Text.utf8_injective (cons.inj hbytes).1
      have heq : uri = uri' := by rw [huri, huri', hid]
      rw [heq]
      exact ⟨fun _ => ⟨rfl, rfl, fun _ => rfl⟩, fun _ => rfl⟩
    · exact absurd hprovider.symm (provider_ne_search _)
  · rcases parse_eq_ok.mp h' with ⟨-, rfl⟩ | ⟨place', path', hreads', rfl⟩
    · exact absurd hprovider (provider_ne_search _)
    · rw [uriAddress_of_reads hreads rfl, uriAddress_of_reads hreads' rfl] at haddress
      have haddress := Except.ok.inj haddress
      have hauthority : place.authority = place'.authority := congrArg Address.authority haddress
      have hsegments : place.segments = place'.segments := congrArg Address.segments haddress
      unfold SpelledAlike
      rw [hreads.parseScheme, hreads'.parseScheme, hreads.writtenSegments,
        hreads'.writtenSegments, hreads.pathText, hreads'.pathText]
      constructor
      · intro heq
        have hkept : place.canonical uri = place'.canonical uri' := congrArg Location.uri heq
        have hcanonical := hreads.canonical.1
        rw [hkept] at hcanonical
        obtain ⟨hplace, hpath⟩ := hcanonical.unique hreads'.canonical.1
        subst hplace
        exact ⟨rfl, (canonical_eq_iff hreads hreads').mp hpath⟩
      · intro hboth
        obtain ⟨hscheme, hraw⟩ := hboth
        have hplace : place = place' := by
          obtain ⟨scheme, authority, segments⟩ := place
          obtain ⟨scheme', authority', segments'⟩ := place'
          simp only at hauthority hsegments
          rw [hauthority, hsegments]
          congr 1
          exact Scheme.text_injective (Except.ok.inj hscheme)
        subst hplace
        have hpath := (canonical_eq_iff hreads hreads').mpr hraw
        have htext := hreads.canonical.1.text
        rw [hpath] at htext
        rw [htext, hreads'.canonical.1.text]

theorem one_location_with_trailing_slash :
    (∃ l, parse isHyphenatedUuid "file:///tmp/a%20b/".toList = .ok l
        ∧ parse isHyphenatedUuid "file:///tmp/a%20b".toList = .ok l)
      ∧ SpelledAlike "file:///tmp/a%20b/".toList "file:///tmp/a%20b".toList := by
  have h : parse isHyphenatedUuid "file:///tmp/a%20b/".toList
      = .ok ⟨"local", "file:///tmp/a%20b".toList⟩ := by
    rw [String.toList_ofList, String.toList_ofList]
    decide +kernel
  have h' : parse isHyphenatedUuid "file:///tmp/a%20b".toList
      = .ok ⟨"local", "file:///tmp/a%20b".toList⟩ := by
    rw [String.toList_ofList]
    decide +kernel
  exact ⟨⟨_, h, h'⟩, (one_location_iff_spelled_alike h h' rfl (by decide +kernel)).1.mp rfl⟩

/-- One directory under two URIs, and one archive root. -/
theorem escaped_segment_other_location :
    (∃ l l', parse isHyphenatedUuid "file:///a".toList = .ok l
        ∧ parse isHyphenatedUuid "file:///%61".toList = .ok l'
        ∧ l.providerId = l'.providerId
        ∧ uriAddress isHyphenatedUuid l "file:///a".toList
          = uriAddress isHyphenatedUuid l' "file:///%61".toList
        ∧ l ≠ l')
      ∧ ∃ l l', parse isHyphenatedUuid "archive:///a.zip!".toList = .ok l
        ∧ parse isHyphenatedUuid "archive:///a.zip!/".toList = .ok l'
        ∧ l.providerId = l'.providerId
        ∧ uriAddress isHyphenatedUuid l "archive:///a.zip!".toList
          = uriAddress isHyphenatedUuid l' "archive:///a.zip!/".toList
        ∧ l ≠ l' := by
  refine ⟨⟨⟨"local", "file:///a".toList⟩, ⟨"local", "file:///%61".toList⟩, ?_⟩,
    ⟨"archive", "archive:///a.zip!".toList⟩,
    ⟨"archive", "archive:///a.zip!/".toList⟩, ?_⟩
  · decide +kernel
  · decide +kernel

end FileManager.Locations
