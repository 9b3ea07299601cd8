/-
Texts as lists of characters, and the little of a URI's grammar that
does not depend on the scheme: splitting at the first separator, UTF-8,
and percent-encoding.

`decode` reads a percent-encoded text back into bytes; a character
outside ASCII stands for its UTF-8 bytes. `encode plain` writes the bytes
that `plain` selects as themselves and every other one as an escape.
Where `plain` selects ASCII characters other than the percent sign,
`decode_encode` says that nothing is lost.
-/
import Mathlib.Data.List.Basic

namespace Text

open List Option
open String (utf8EncodeChar)
open Char (ofNat)

variable {c sep : Char} {t before after : List Char} {bytes : List UInt8} {plain : UInt8 → Bool}
  {b : UInt8}

-- ==== splitting

/-- The text before and after the first separator. -/
def splitOnce (sep : Char) : List Char → Option (List Char × List Char)
  | [] => none
  | c :: rest =>
    if c = sep then some ([], rest)
    else (splitOnce sep rest).map fun parts => (c :: parts.1, parts.2)

theorem splitOnce_append (after : List Char) (h : sep ∉ before) :
    splitOnce sep (before ++ sep :: after) = some (before, after) := by
  induction before with
  | nil => simp [splitOnce]
  | cons c rest ih =>
    obtain ⟨hc, hrest⟩ := not_or.mp (mt mem_cons.mpr h)
    rw [cons_append, splitOnce, if_neg (Ne.symm hc), ih hrest]
    rfl

theorem splitOnce_eq_some
    (h : splitOnce sep t = some (before, after)) : t = before ++ sep :: after ∧ sep ∉ before := by
  induction t generalizing before with
  | nil => cases h
  | cons c rest ih =>
    unfold splitOnce at h
    split at h
    case isTrue hc =>
      cases h
      exact ⟨by rw [hc]; rfl, not_mem_nil⟩
    case isFalse hc =>
      obtain ⟨⟨before', after'⟩, hsplit, heq⟩ := map_eq_some_iff.mp h
      cases heq
      obtain ⟨ht, hmem⟩ := ih hsplit
      refine ⟨by rw [ht]; rfl, ?_⟩
      exact mt mem_cons.mp (not_or.mpr ⟨Ne.symm hc, hmem⟩)

/-- Without one character at the end, if it is there. -/
def stripEnd (c : Char) (t : List Char) : List Char :=
  if t.getLast? = some c then t.dropLast else t

theorem stripEnd_append (before : List Char) (h : after ≠ []) :
    stripEnd c (before ++ after) = before ++ stripEnd c after := by
  unfold stripEnd
  rw [List.getLast?_append_of_ne_nil before h]
  split
  case isTrue => exact dropLast_append_of_ne_nil h
  case isFalse => rfl

theorem mem_of_mem_stripEnd {d : Char} (h : d ∈ stripEnd c t) : d ∈ t := by
  unfold stripEnd at h
  split at h
  case isTrue => exact (dropLast_sublist t).subset h
  case isFalse => exact h

-- ==== UTF-8

/-- The UTF-8 bytes of a text. -/
def utf8 (t : List Char) : List UInt8 := t.flatMap utf8EncodeChar

/-- The text with these UTF-8 bytes. -/
def ofUtf8 (bytes : List UInt8) : Option (List Char) :=
  bytes.toByteArray.utf8Decode?.map Array.toList

@[simp] theorem ofUtf8_utf8 (t : List Char) : ofUtf8 (utf8 t) = some t := by
  have hbytes : (utf8 t).toByteArray = t.utf8Encode := rfl
  unfold ofUtf8
  rw [hbytes, List.utf8Decode?_utf8Encode]
  rfl

/-- Only a text's own bytes give it. -/
theorem ofUtf8_eq_some : ofUtf8 bytes = some t ↔ utf8 t = bytes := by
  constructor
  · intro h
    unfold ofUtf8 at h
    obtain ⟨chars, hdecoded, rfl⟩ := map_eq_some_iff.mp h
    have hencoded : (utf8 chars.toList).toByteArray = bytes.toByteArray := by
      have hget := @ByteArray.utf8Encode_get_utf8Decode? bytes.toByteArray
        (isSome_iff_exists.mpr ⟨chars, hdecoded⟩)
      simp only [hdecoded, get_some] at hget
      exact hget
    exact toByteArray_inj.mp hencoded
  · intro h
    rw [← h, ofUtf8_utf8]

theorem utf8_injective : Function.Injective utf8 := by
  intro t t' h
  have hof : ofUtf8 (utf8 t) = ofUtf8 (utf8 t') := congrArg ofUtf8 h
  rw [ofUtf8_utf8, ofUtf8_utf8] at hof
  exact some.inj hof

theorem utf8_ne_nil (h : t ≠ []) : utf8 t ≠ [] := by
  intro hnil
  exact h (utf8_injective hnil)

/-- The bytes of a character outside ASCII are outside it. -/
theorem mem_utf8EncodeChar_ascii (hb : b.toNat < 128) (h : b ∈ utf8EncodeChar c) :
    c.toNat = b.toNat := by
  have hc : c.toNat = c.val.toNat := rfl
  have hhigh : ∀ n, 128 ≤ n % 256 → b ≠ UInt8.ofNat n := by
    intro n hn heq
    rw [heq, UInt8.toNat_ofNat'] at hb
    omega
  unfold utf8EncodeChar at h
  simp only at h
  split at h
  case isTrue =>
    rw [mem_singleton.mp h, UInt8.toNat_ofNat']
    omega
  case isFalse =>
    -- every byte of the longer forms carries its high bit
    exfalso
    split at h
    case isTrue =>
      simp only [mem_cons, not_mem_nil, or_false] at h
      rcases h with h | h
      all_goals exact hhigh _ (by omega) h
    case isFalse =>
      split at h
      all_goals
        simp only [mem_cons, not_mem_nil, or_false] at h
        casesm* _ ∨ _
        all_goals exact hhigh _ (by omega) h

/-- An ASCII byte is written by its own character only. -/
theorem mem_utf8_ascii (hb : b.toNat < 128) (h : b ∈ utf8 t) : ∃ c ∈ t, c.toNat = b.toNat := by
  obtain ⟨c, hc, hmem⟩ := mem_flatMap.mp h
  exact ⟨c, hc, mem_utf8EncodeChar_ascii hb hmem⟩

-- ==== percent-encoding

/-- The value of a hexadecimal digit. -/
def hexValue (c : Char) : Option Nat :=
  if '0' ≤ c ∧ c ≤ '9' then some (c.toNat - 48)
  else if 'a' ≤ c ∧ c ≤ 'f' then some (c.toNat - 97 + 10)
  else if 'A' ≤ c ∧ c ≤ 'F' then some (c.toNat - 65 + 10)
  else none

/-- The bytes that a percent-encoded text stands for. -/
def decode : List Char → Option (List UInt8)
  | [] => some []
  | c :: rest =>
    if c = '%' then
      match rest with
      | high :: low :: rest =>
        match hexValue high, hexValue low with
        | some h, some l =>
          (decode rest).map fun bytes => UInt8.ofNat (h * 16 + l) :: bytes
        | _, _ => none
      | _ => none
    else (decode rest).map fun bytes => utf8EncodeChar c ++ bytes

def hexDigit (n : Nat) : Char := ofNat (if n < 10 then 48 + n else 55 + n)

/-- One byte, as itself or escaped. -/
def encodeByte (plain : UInt8 → Bool) (byte : UInt8) : List Char :=
  if plain byte then [ofNat byte.toNat]
  else ['%', hexDigit (byte.toNat / 16), hexDigit (byte.toNat % 16)]

/-- The percent-encoded text of some bytes. -/
def encode (plain : UInt8 → Bool) (bytes : List UInt8) : List Char :=
  bytes.flatMap (encodeByte plain)

/-- What is written as itself is ASCII, and no percent sign. -/
def PlainAscii (plain : UInt8 → Bool) : Prop :=
  ∀ byte, plain byte = true → byte.toNat < 128 ∧ byte.toNat ≠ 37

theorem hexValue_hexDigit : ∀ n < 16, hexValue (hexDigit n) = some n := by
  decide

theorem utf8EncodeChar_ascii :
    ∀ n < 128, utf8EncodeChar (ofNat n) = [UInt8.ofNat n] := by
  decide

theorem toNat_ofNat_ascii {n : Nat} (h : n < 128) : (ofNat n).toNat = n := by
  unfold ofNat
  rw [dif_pos (Or.inl (by omega))]
  rfl

theorem decode_cons (hc : c ≠ '%') (rest : List Char) :
    decode (c :: rest) = (decode rest).map fun bytes => utf8EncodeChar c ++ bytes := by
  conv_lhs => unfold decode
  rw [if_neg hc]

theorem decode_escape {high low : Char} {h l : Nat} (hhigh : hexValue high = some h)
    (hlow : hexValue low = some l) (rest : List Char) :
    decode ('%' :: high :: low :: rest)
      = (decode rest).map fun bytes => UInt8.ofNat (h * 16 + l) :: bytes := by
  conv_lhs => unfold decode
  rw [if_pos rfl]
  simp only [hhigh, hlow]

/-- An encoded byte reads back. -/
theorem decode_encodeByte (hplain : PlainAscii plain) (byte : UInt8) (rest : List Char) :
    decode (encodeByte plain byte ++ rest) = (decode rest).map fun bytes => byte :: bytes := by
  have hlt : byte.toNat < 256 := UInt8.toNat_lt_size byte
  unfold encodeByte
  split
  case isTrue hb =>
    obtain ⟨hascii, hpercent⟩ := hplain byte hb
    have hne : ofNat byte.toNat ≠ '%' := by
      intro heq
      have h37 := congrArg Char.toNat heq
      rw [toNat_ofNat_ascii hascii] at h37
      exact hpercent h37
    rw [singleton_append, decode_cons hne, utf8EncodeChar_ascii _ hascii, UInt8.ofNat_toNat]
    rfl
  case isFalse =>
    have hvalue : byte.toNat / 16 * 16 + byte.toNat % 16 = byte.toNat := by omega
    have hhigh := hexValue_hexDigit (byte.toNat / 16) (by omega)
    have hlow := hexValue_hexDigit (byte.toNat % 16) (by omega)
    show decode ('%' :: hexDigit (byte.toNat / 16) :: hexDigit (byte.toNat % 16) :: rest) = _
    rw [decode_escape hhigh hlow, hvalue, UInt8.ofNat_toNat]

/-- Nothing is lost by encoding. -/
theorem decode_encode (hplain : PlainAscii plain) (bytes : List UInt8) :
    decode (encode plain bytes) = some bytes := by
  induction bytes with
  | nil => rfl
  | cons byte rest ih =>
    have hcons : encode plain (byte :: rest)
        = encodeByte plain byte ++ encode plain rest := flatMap_cons
    rw [hcons, decode_encodeByte hplain, ih]
    rfl

/-- A character that no byte is written with does not appear. -/
theorem not_mem_encode (h : ∀ byte, c ∉ encodeByte plain byte) (bytes : List UInt8) :
    c ∉ encode plain bytes := by
  intro hmem
  obtain ⟨byte, -, hbyte⟩ := mem_flatMap.mp hmem
  exact h byte hbyte

theorem encode_ne_nil (h : bytes ≠ []) : encode plain bytes ≠ [] := by
  cases bytes with
  | nil => exact absurd rfl h
  | cons byte rest =>
    unfold encode encodeByte
    rw [flatMap_cons]
    split <;> exact cons_ne_nil _ _

theorem decode_ne_nil (ht : t ≠ []) (h : decode t = some bytes) : bytes ≠ [] := by
  cases t with
  | nil => exact absurd rfl ht
  | cons c rest =>
    unfold decode at h
    split at h
    case isTrue =>
      split at h
      case h_1 =>
        split at h
        case h_1 =>
          obtain ⟨bytes', -, rfl⟩ := map_eq_some_iff.mp h
          exact cons_ne_nil _ _
        case h_2 => cases h
      case h_2 => cases h
    case isFalse =>
      obtain ⟨bytes', -, rfl⟩ := map_eq_some_iff.mp h
      exact append_ne_nil_of_left_ne_nil String.utf8EncodeChar_ne_nil _

theorem length_le_length_utf8 (t : List Char) : t.length ≤ (utf8 t).length := by
  induction t with
  | nil => exact Nat.le_refl 0
  | cons c rest ih =>
    have hpos : 0 < (utf8EncodeChar c).length := by
      rw [String.length_utf8EncodeChar]
      exact c.utf8Size_pos
    simp only [utf8, flatMap_cons, length_append, length_cons] at ih ⊢
    omega

theorem length_encodeByte (byte : UInt8) :
    (encodeByte plain byte).length = if plain byte then 1 else 3 := by
  unfold encodeByte
  split <;> rfl

theorem length_le_length_encode (bytes : List UInt8) :
    bytes.length ≤ (encode plain bytes).length := by
  induction bytes with
  | nil => exact Nat.le_refl 0
  | cons byte rest ih =>
    have hbyte : (encodeByte plain byte).length = if plain byte then 1 else 3 :=
      length_encodeByte byte
    simp only [encode, flatMap_cons, length_append, length_cons] at ih ⊢
    split at hbyte
    all_goals omega

theorem plain_of_length_encode
    (h : (encode plain bytes).length ≤ bytes.length) : ∀ byte ∈ bytes, plain byte = true := by
  induction bytes with
  | nil =>
    intro byte hbyte
    cases hbyte
  | cons first rest ih =>
    have hfirst : (encodeByte plain first).length = if plain first then 1 else 3 :=
      length_encodeByte first
    have hrest : rest.length ≤ (encode plain rest).length := length_le_length_encode rest
    simp only [encode, flatMap_cons, length_append, length_cons] at h ih hrest
    split at hfirst
    case isTrue hplain =>
      intro byte hbyte
      rcases mem_cons.mp hbyte with rfl | hbyte
      · exact hplain
      · exact ih (by omega) byte hbyte
    case isFalse => omega

/-- A text is its own encoding if it has nothing to escape. -/
theorem encode_utf8_eq_iff (hplain : PlainAscii plain) (t : List Char) :
    encode plain (utf8 t) = t ↔ ∀ byte ∈ utf8 t, plain byte = true := by
  constructor
  · intro h
    refine plain_of_length_encode ?_
    rw [h]
    exact length_le_length_utf8 t
  · intro h
    induction t with
    | nil => rfl
    | cons c rest ih =>
      have hsplit : utf8 (c :: rest) = utf8EncodeChar c ++ utf8 rest := rfl
      rw [hsplit] at h ⊢
      have hrest := ih fun byte hbyte => h byte (mem_append_right _ hbyte)
      have hencode : encode plain (utf8EncodeChar c ++ utf8 rest)
          = encode plain (utf8EncodeChar c) ++ encode plain (utf8 rest) :=
        flatMap_append
      -- the first byte of the character is ASCII, so it is the character
      obtain ⟨byte, hbyte⟩ : ∃ byte, byte ∈ utf8EncodeChar c := by
        refine exists_mem_of_length_pos ?_
        rw [String.length_utf8EncodeChar]
        exact c.utf8Size_pos
      have hself := h byte (mem_append_left _ hbyte)
      have hascii := (hplain byte hself).1
      have hc := mem_utf8EncodeChar_ascii hascii hbyte
      have hofNat : ofNat c.toNat = c := Char.ofNat_toNat c
      have hbytes : utf8EncodeChar c = [byte] := by
        have hone := utf8EncodeChar_ascii c.toNat (by omega)
        rw [hofNat, hc, UInt8.ofNat_toNat] at hone
        exact hone
      rw [hencode, hrest, hbytes]
      have hchar : encode plain [byte] = [c] := by
        rw [encode, flatMap_singleton, encodeByte, if_pos hself, ← hc, hofNat]
      rw [hchar]
      rfl

end Text
