/-
  UTF-16 — a text as 16-bit units, and the units as bytes.

  A character below 0x10000 is one unit, another one a pair of surrogates.  No character is a
  surrogate by itself, so the units of a text read back as the text (`decode_encode`), and so do its
  bytes, the lower byte of each unit first (`decodeLe_encodeLe`).  Units that are no text are shown
  with replacement characters (`decodeLossy`).
-/
import CdjEmu.Lib.Chars
import CdjEmu.Lib.Octets

namespace CdjEmu.Utf16

open Chars

def encodeChar (c : Char) : List UInt16 :=
  if c.toNat < 0x10000 then [UInt16.ofNat c.toNat]
  else [UInt16.ofNat (0xD800 + (c.toNat - 0x10000) / 0x400),
    UInt16.ofNat (0xDC00 + (c.toNat - 0x10000) % 0x400)]

/-- `encode_utf16`. -/
def encode (s : Chars) : List UInt16 := s.flatMap encodeChar

/-- The text of the units; `none` where a surrogate stands alone. -/
def decode : List UInt16 → Option Chars
  | [] => some []
  | [u] => if u.toNat < 0xD800 ∨ 0xE000 ≤ u.toNat then some [Char.ofNat u.toNat] else none
  | u :: v :: units =>
    if u.toNat < 0xD800 ∨ 0xE000 ≤ u.toNat then (decode (v :: units)).map (Char.ofNat u.toNat :: ·)
    else if u.toNat < 0xDC00 ∧ 0xDC00 ≤ v.toNat ∧ v.toNat < 0xE000 then
      (decode units).map
        (Char.ofNat (0x10000 + (u.toNat - 0xD800) * 0x400 + (v.toNat - 0xDC00)) :: ·)
    else none

/-- The text of the units, with U+FFFD for each surrogate that stands alone. -/
def decodeLossy : List UInt16 → Chars
  | [] => []
  | [u] => [Char.ofNat (if u.toNat < 0xD800 ∨ 0xE000 ≤ u.toNat then u.toNat else 0xFFFD)]
  | u :: v :: units =>
    if u.toNat < 0xD800 ∨ 0xE000 ≤ u.toNat then Char.ofNat u.toNat :: decodeLossy (v :: units)
    else if u.toNat < 0xDC00 ∧ 0xDC00 ≤ v.toNat ∧ v.toNat < 0xE000 then
      Char.ofNat (0x10000 + (u.toNat - 0xD800) * 0x400 + (v.toNat - 0xDC00)) :: decodeLossy units
    else Char.ofNat 0xFFFD :: decodeLossy (v :: units)

/-- `u16::to_le_bytes`. -/
def leBytes (u : UInt16) : List UInt8 := [u.toUInt8, (u >>> 8).toUInt8]

/-- The units of the bytes; `none` where a byte is left. -/
def ofLeBytes : List UInt8 → Option (List UInt16)
  | [] => some []
  | [_] => none
  | a :: b :: bytes => (ofLeBytes bytes).map (UInt16.ofNat (a.toNat + 256 * b.toNat) :: ·)

def encodeLe (s : Chars) : List UInt8 := (encode s).flatMap leBytes

def decodeLe (bytes : List UInt8) : Option Chars := (ofLeBytes bytes).bind decode

/-- A character is no surrogate. -/
theorem toNat_range (c : Char) : c.toNat < 0xD800 ∨ 0xE000 ≤ c.toNat ∧ c.toNat < 0x110000 := by
  have h := c.valid
  unfold UInt32.isValidChar Nat.isValidChar at h
  show c.val.toNat < _ ∨ _ ≤ c.val.toNat ∧ c.val.toNat < _
  omega

/-- One unit that is no surrogate is a character. -/
theorem decode_unit {u : UInt16} (h : u.toNat < 0xD800 ∨ 0xE000 ≤ u.toNat) (units : List UInt16) :
    decode (u :: units) = (decode units).map (Char.ofNat u.toNat :: ·) := by
  rcases units with _ | ⟨v, units⟩
  · simp only [decode]
    rw [if_pos h]
    rfl
  · rw [decode, if_pos h]

/-- Two surrogates, the high one first, are one. -/
theorem decode_pair {u v : UInt16} (hu : 0xD800 ≤ u.toNat ∧ u.toNat < 0xDC00)
    (hv : 0xDC00 ≤ v.toNat ∧ v.toNat < 0xE000) (units : List UInt16) :
    decode (u :: v :: units) =
      (decode units).map
        (Char.ofNat (0x10000 + (u.toNat - 0xD800) * 0x400 + (v.toNat - 0xDC00)) :: ·) := by
  rw [decode, if_neg (by omega), if_pos ⟨hu.2, hv⟩]

theorem decode_encodeChar (c : Char) (units : List UInt16) :
    decode (encodeChar c ++ units) = (decode units).map (c :: ·) := by
  have hrange := toNat_range c
  unfold encodeChar
  split
  · rename_i hlt
    have hunit : (UInt16.ofNat c.toNat).toNat = c.toNat := UInt16.toNat_ofNat_of_lt' hlt
    rw [List.singleton_append, decode_unit (by omega), hunit, Char.ofNat_toNat]
  · rename_i hge
    have hhigh : (UInt16.ofNat (0xD800 + (c.toNat - 0x10000) / 0x400)).toNat = 0xD800 +
        (c.toNat - 0x10000) / 0x400 :=
      UInt16.toNat_ofNat_of_lt' (by show _ < 65536; omega)
    have hlow : (UInt16.ofNat (0xDC00 + (c.toNat - 0x10000) % 0x400)).toNat = 0xDC00 +
        (c.toNat - 0x10000) % 0x400 :=
      UInt16.toNat_ofNat_of_lt' (by show _ < 65536; omega)
    rw [List.cons_append, List.singleton_append, decode_pair (by omega) (by omega), hhigh, hlow]
    have hvalue : 0x10000 + (0xD800 + (c.toNat - 0x10000) / 0x400 - 0xD800) * 0x400 +
        (0xDC00 + (c.toNat - 0x10000) % 0x400 - 0xDC00) = c.toNat := by
      omega
    rw [hvalue, Char.ofNat_toNat]

/-- The units of a text read back as the text. -/
theorem decode_encode (s : Chars) : decode (encode s) = some s := by
  induction s with
  | nil => rfl
  | cons c s ih =>
    have hcons : encode (c :: s) = encodeChar c ++ encode s := List.flatMap_cons
    rw [hcons, decode_encodeChar, ih]
    rfl

theorem toNat_ofNat {n : Nat} (h : n < 0xD800 ∨ 0xE000 ≤ n ∧ n < 0x110000) :
    (Char.ofNat n).toNat = n := by
  have hvalid : n.isValidChar := by
    unfold Nat.isValidChar
    omega
  rw [Char.ofNat, dif_pos hvalid]
  rfl

/-- The units of the character of one unit. -/
theorem encodeChar_unit {u : UInt16} (h : u.toNat < 0xD800 ∨ 0xE000 ≤ u.toNat) :
    encodeChar (Char.ofNat u.toNat) = [u] := by
  have hu := u.toNat_lt
  rw [encodeChar, toNat_ofNat (by omega), if_pos (by omega), UInt16.ofNat_toNat]

theorem encodeChar_pair {u v : UInt16} (hu : 0xD800 ≤ u.toNat ∧ u.toNat < 0xDC00)
    (hv : 0xDC00 ≤ v.toNat ∧ v.toNat < 0xE000) :
    encodeChar (Char.ofNat (0x10000 + (u.toNat - 0xD800) * 0x400 + (v.toNat - 0xDC00))) =
      [u, v] := by
  rw [encodeChar, toNat_ofNat (by omega), if_neg (by omega)]
  have hhigh : 0xD800 + (0x10000 + (u.toNat - 0xD800) * 0x400 + (v.toNat - 0xDC00) - 0x10000) /
      0x400 = u.toNat := by omega
  have hlow : 0xDC00 + (0x10000 + (u.toNat - 0xD800) * 0x400 + (v.toNat - 0xDC00) - 0x10000) %
      0x400 = v.toNat := by omega
  rw [hhigh, hlow, UInt16.ofNat_toNat, UInt16.ofNat_toNat]

theorem encode_cons (c : Char) (s : Chars) : encode (c :: s) = encodeChar c ++ encode s :=
  List.flatMap_cons

theorem encode_append (s t : Chars) : encode (s ++ t) = encode s ++ encode t := List.flatMap_append

/-- Units that are a text are those of the text. -/
theorem encode_decode {units : List UInt16} {s : Chars} (h : decode units = some s) :
    encode s = units := by
  fun_induction decode units generalizing s with
  | case1 =>
    cases h
    rfl
  | case2 u hu =>
    cases h
    rw [encode_cons, encodeChar_unit hu]
    rfl
  | case3 u hu => cases h
  | case4 u v units hu ih =>
    obtain ⟨t, ht, rfl⟩ := Option.map_eq_some_iff.mp h
    rw [encode_cons, encodeChar_unit hu, ih ht]
    rfl
  | case5 u v units hu hpair ih =>
    obtain ⟨t, ht, rfl⟩ := Option.map_eq_some_iff.mp h
    rw [encode_cons, encodeChar_pair (by omega) hpair.2, ih ht]
    rfl
  | case6 u v units hu hpair => cases h

/-- A text is shown as it is. -/
theorem decodeLossy_of_decode {units : List UInt16} {s : Chars} (h : decode units = some s) :
    decodeLossy units = s := by
  fun_induction decode units generalizing s with
  | case1 =>
    cases h
    rfl
  | case2 u hu =>
    cases h
    rw [decodeLossy, if_pos hu]
  | case3 u hu => cases h
  | case4 u v units hu ih =>
    obtain ⟨t, ht, rfl⟩ := Option.map_eq_some_iff.mp h
    rw [decodeLossy, if_pos hu, ih ht]
  | case5 u v units hu hpair ih =>
    obtain ⟨t, ht, rfl⟩ := Option.map_eq_some_iff.mp h
    rw [decodeLossy, if_neg hu, if_pos hpair, ih ht]
  | case6 u v units hu hpair => cases h

/-- The last unit is the last character's, unless that takes two. -/
theorem last_of_encode {s : Chars} {units : List UInt16} {c : Char} (hc : c.toNat < 0xD800)
    (h : encode s = units ++ encodeChar c) : ∃ b, s = b ++ [c] := by
  have hunit : encodeChar c = [UInt16.ofNat c.toNat] := by
    rw [encodeChar, if_pos (by omega)]
  have hvalue : (UInt16.ofNat c.toNat).toNat = c.toNat :=
    UInt16.toNat_ofNat_of_lt' (by show _ < 65536; omega)
  rcases List.eq_nil_or_concat s with rfl | ⟨b, d, rfl⟩
  · have hlen := congrArg List.length h
    rw [hunit] at hlen
    simp [encode] at hlen
  · refine ⟨b, ?_⟩
    rw [List.concat_eq_append] at h ⊢
    have hlast := congrArg List.getLast? h
    rw [encode_append, hunit, List.getLast?_concat] at hlast
    have hd : encode [d] = encodeChar d := List.append_nil _
    rw [hd, encodeChar] at hlast
    split at hlast
    · rename_i hlt
      rw [List.getLast?_concat, Option.some_inj] at hlast
      have hnat := congrArg UInt16.toNat hlast
      rw [UInt16.toNat_ofNat_of_lt' hlt, hvalue] at hnat
      rw [← Char.ofNat_toNat d, hnat, Char.ofNat_toNat]
    · -- the low surrogate
      rw [List.getLast?_append_of_ne_nil _ (List.cons_ne_nil _ _)] at hlast
      have hnat := congrArg (Option.map UInt16.toNat) hlast
      simp only [List.getLast?_cons_cons, List.getLast?_singleton, Option.map_some, Option.some_inj,
        hvalue] at hnat
      rw [UInt16.toNat_ofNat_of_lt' (by show _ < 65536; omega)] at hnat
      omega

theorem decodeLossy_encode (s : Chars) : decodeLossy (encode s) = s :=
  decodeLossy_of_decode (decode_encode s)

theorem ofLeBytes_leBytes (units : List UInt16) :
    ofLeBytes (units.flatMap leBytes) = some units := by
  induction units with
  | nil => rfl
  | cons u units ih =>
    have hcons : (u :: units).flatMap leBytes = u.toUInt8 :: (u >>> 8).toUInt8 ::
        units.flatMap leBytes := rfl
    rw [hcons, ofLeBytes, ih, Octets.ofNat_octets]
    rfl

/-- And so do its bytes. -/
theorem decodeLe_encodeLe (s : Chars) : decodeLe (encodeLe s) = some s := by
  unfold decodeLe encodeLe
  rw [ofLeBytes_leBytes]
  exact decode_encode s

end CdjEmu.Utf16
