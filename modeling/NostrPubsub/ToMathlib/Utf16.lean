import Mathlib.Data.List.Nodup
import Mathlib.Data.String.Basic

/-!
# UTF-16

Texts as sequences of 16-bit code units. A sequence is the encoding of at most one text, and of none
exactly if it has a surrogate without its partner.
-/

namespace Utf16

/-- The first half of a surrogate pair. -/
def IsLeading (unit : UInt16) : Prop := 55296 ≤ unit.toNat ∧ unit.toNat < 56320

/-- The second half of a surrogate pair. -/
def IsTrailing (unit : UInt16) : Prop := 56320 ≤ unit.toNat ∧ unit.toNat < 57344

instance (unit : UInt16) : Decidable (IsLeading unit) := inferInstanceAs (Decidable (_ ∧ _))

instance (unit : UInt16) : Decidable (IsTrailing unit) := inferInstanceAs (Decidable (_ ∧ _))

/-- The code point of a surrogate pair. -/
def pairValue (leading trailing : UInt16) : ℕ :=
  65536 + (leading.toNat - 55296) * 1024 + (trailing.toNat - 56320)

/-- The code units of a character. -/
def encodeChar (c : Char) : List UInt16 :=
  if c.toNat < 65536 then [.ofNat c.toNat]
  else [.ofNat (55296 + (c.toNat - 65536) / 1024), .ofNat (56320 + (c.toNat - 65536) % 1024)]

/-- The code units of characters. -/
def encode (text : List Char) : List UInt16 := text.flatMap encodeChar

/-- The characters of code units. -/
def decode : List UInt16 → Option (List Char)
  | [] => some []
  | [unit] => if IsLeading unit ∨ IsTrailing unit then none else some [Char.ofNat unit.toNat]
  | unit :: next :: rest =>
    if IsLeading unit then
      if IsTrailing next then (decode rest).map (Char.ofNat (pairValue unit next) :: ·) else none
    else if IsTrailing unit then none
    else (decode (next :: rest)).map (Char.ofNat unit.toNat :: ·)

theorem toNat_lt_or_of_char (c : Char) :
    c.toNat < 55296 ∨ 57343 < c.toNat ∧ c.toNat < 1114112 := by
  have h := c.valid
  simp only [UInt32.isValidChar, Nat.isValidChar] at h
  exact h

theorem toNat_charOfNat {n : ℕ} (h : n < 55296 ∨ 57343 < n ∧ n < 1114112) :
    (Char.ofNat n).toNat = n := by
  have hvalid : n.isValidChar := h
  rw [Char.ofNat, dif_pos hvalid]
  rfl

theorem toNat_unit {n : ℕ} (h : n < 65536) : (UInt16.ofNat n).toNat = n :=
  UInt16.toNat_ofNat_of_lt h

/-- A unit that is no surrogate is the encoding of a character. -/
theorem encodeChar_charOfNat {unit : UInt16} (hleading : ¬IsLeading unit)
    (htrailing : ¬IsTrailing unit) : encodeChar (Char.ofNat unit.toNat) = [unit] := by
  have hlt := unit.toNat_lt
  unfold IsLeading at hleading
  unfold IsTrailing at htrailing
  have hvalue : (Char.ofNat unit.toNat).toNat = unit.toNat := toNat_charOfNat (by omega)
  rw [encodeChar, if_pos (by omega), hvalue, UInt16.ofNat_toNat]

/-- A surrogate pair is the encoding of a character. -/
theorem encodeChar_pairValue {leading trailing : UInt16} (hleading : IsLeading leading)
    (htrailing : IsTrailing trailing) :
    encodeChar (Char.ofNat (pairValue leading trailing)) = [leading, trailing] := by
  obtain ⟨hl, hl'⟩ := hleading
  obtain ⟨ht, ht'⟩ := htrailing
  have hpair : pairValue leading trailing
      = 65536 + (leading.toNat - 55296) * 1024 + (trailing.toNat - 56320) := rfl
  have hvalue : (Char.ofNat (pairValue leading trailing)).toNat = pairValue leading trailing :=
    toNat_charOfNat (by omega)
  have hfirst : 55296 + (pairValue leading trailing - 65536) / 1024 = leading.toNat := by omega
  have hsecond : 56320 + (pairValue leading trailing - 65536) % 1024 = trailing.toNat := by omega
  rw [encodeChar, if_neg (by omega), hvalue, hfirst, hsecond, UInt16.ofNat_toNat, UInt16.ofNat_toNat]

/-- What is decoded is encoded as the units it was decoded from. -/
theorem encode_of_decode {units : List UInt16} {text : List Char} (h : decode units = some text) :
    encode text = units := by
  induction units using decode.induct generalizing text with
  | case1 =>
    cases h
    rfl
  | case2 unit hsurrogate =>
    rw [decode, if_pos hsurrogate] at h
    cases h
  | case3 unit hsurrogate =>
    rw [decode, if_neg hsurrogate] at h
    cases h
    rw [not_or] at hsurrogate
    rw [encode, List.flatMap_singleton, encodeChar_charOfNat hsurrogate.1 hsurrogate.2]
  | case4 unit next rest hleading htrailing ih =>
    rw [decode, if_pos hleading, if_pos htrailing] at h
    obtain ⟨later, hlater, rfl⟩ := Option.map_eq_some_iff.mp h
    have ih := ih hlater
    rw [encode] at ih ⊢
    rw [List.flatMap_cons, encodeChar_pairValue hleading htrailing, ih]
    rfl
  | case5 unit next rest hleading htrailing =>
    rw [decode, if_pos hleading, if_neg htrailing] at h
    cases h
  | case6 unit next rest hleading htrailing =>
    rw [decode, if_neg hleading, if_pos htrailing] at h
    cases h
  | case7 unit next rest hleading htrailing ih =>
    rw [decode, if_neg hleading, if_neg htrailing] at h
    obtain ⟨later, hlater, rfl⟩ := Option.map_eq_some_iff.mp h
    have ih := ih hlater
    rw [encode] at ih ⊢
    rw [List.flatMap_cons, encodeChar_charOfNat hleading htrailing, ih]
    rfl

/-- A character in front of units is decoded as that character. -/
theorem decode_encodeChar_append (c : Char) (units : List UInt16) :
    decode (encodeChar c ++ units) = (decode units).map (c :: ·) := by
  have hvalid := toNat_lt_or_of_char c
  have hc : Char.ofNat c.toNat = c := Char.ofNat_toNat c
  unfold encodeChar
  split
  · next hsmall =>
    have hunit := toNat_unit hsmall
    have hleading : ¬IsLeading (.ofNat c.toNat) := by
      unfold IsLeading
      omega
    have htrailing : ¬IsTrailing (.ofNat c.toNat) := by
      unfold IsTrailing
      omega
    cases units with
    | nil =>
      have hneither : ¬(IsLeading (.ofNat c.toNat) ∨ IsTrailing (.ofNat c.toNat)) :=
        not_or.mpr ⟨hleading, htrailing⟩
      rw [List.append_nil, decode.eq_2, if_neg hneither, hunit, hc]
      rfl
    | cons next rest =>
      rw [List.singleton_append, decode, if_neg hleading, if_neg htrailing, hunit, hc]
  · next hlarge =>
    have hfirst : (UInt16.ofNat (55296 + (c.toNat - 65536) / 1024)).toNat
        = 55296 + (c.toNat - 65536) / 1024 := toNat_unit (by omega)
    have hsecond : (UInt16.ofNat (56320 + (c.toNat - 65536) % 1024)).toNat
        = 56320 + (c.toNat - 65536) % 1024 := toNat_unit (by omega)
    have hleading : IsLeading (.ofNat (55296 + (c.toNat - 65536) / 1024)) := by
      unfold IsLeading
      omega
    have htrailing : IsTrailing (.ofNat (56320 + (c.toNat - 65536) % 1024)) := by
      unfold IsTrailing
      omega
    have hpair : pairValue (.ofNat (55296 + (c.toNat - 65536) / 1024))
        (.ofNat (56320 + (c.toNat - 65536) % 1024)) = c.toNat := by
      unfold pairValue
      omega
    rw [List.cons_append, List.singleton_append, decode, if_pos hleading, if_pos htrailing, hpair, hc]

theorem decode_encode (text : List Char) : decode (encode text) = some text := by
  induction text with
  | nil => rfl
  | cons c rest ih =>
    rw [encode] at ih ⊢
    rw [List.flatMap_cons, decode_encodeChar_append, ih]
    rfl

theorem decode_eq_some_iff {units : List UInt16} {text : List Char} :
    decode units = some text ↔ units = encode text := by
  constructor
  · intro h
    exact (encode_of_decode h).symm
  · rintro rfl
    exact decode_encode text

theorem encode_injective : Function.Injective encode := by
  intro a b h
  have hdecode := congrArg decode h
  rw [decode_encode, decode_encode] at hdecode
  exact Option.some.inj hdecode

end Utf16
