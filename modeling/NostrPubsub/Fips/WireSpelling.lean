import NostrPubsub.Fips.WireCodec
import NostrPubsub.ToMathlib.Binary64
import NostrPubsub.ToMathlib.Utf16

/-!
# JSON on the wire, as both languages read it

A frame of `nostr-pubsub/src/wire.rs` and of `ts/packages/nostr-pubsub/src/wire.ts` is given by the
JSON value that it spells: numbers as their literals, texts as UTF-16 code units, which an escape can
leave without a partner. `serde_json` reads such a value as `Json.serdeValue`, `JSON.parse` as
`Json.parse`, and the TypeScript decoder goes on from there.

An event id is spelled in hexadecimal digits of either case (`SpellsId`), a number as a literal that a
double may round (`NumberLiteral.InRange`).
-/

namespace NostrPubsub.Fips

/-- The code units of a text. -/
abbrev CodeUnits := List UInt16

/-- The code units of a Rust string. -/
def codeUnits (text : String) : CodeUnits := Utf16.encode text.toList

/-! ## JSON values as they are spelled -/

/-- A number literal. -/
structure NumberLiteral where
  negative : Bool
  /-- What the digits before the point spell. -/
  integer : ℕ
  /-- The digits after the point. -/
  fraction : List (Fin 10)
  exponent : Option ℤ

namespace NumberLiteral

/-- The number that a literal spells. -/
def value (literal : NumberLiteral) : ℚ :=
  let digits := literal.fraction.foldl (fun n digit => 10 * n + digit.val) literal.integer
  let magnitude := (digits : ℚ) * 10 ^ (literal.exponent.getD 0 - literal.fraction.length)
  if literal.negative then -magnitude else magnitude

/-- Digits only: no sign, no point and no exponent. -/
def Plain (literal : NumberLiteral) : Prop :=
  literal.negative = false ∧ literal.fraction = [] ∧ literal.exponent = none

/-- Digits and nothing else. -/
def plain (n : ℕ) : NumberLiteral := ⟨false, n, [], none⟩

end NumberLiteral

/-- A JSON value. -/
inductive Json where
  | null
  | bool (b : Bool)
  | number (literal : NumberLiteral)
  | string (units : CodeUnits)
  | array (values : List Json)
  | object (members : List (CodeUnits × Json))

/-! ## `serde_json` -/

/-- `serde_json::Number` of a literal: digits alone are an integer as far as it has 64 bits. `floats`
reads every other literal, and is `none` where it is out of range. -/
def NumberLiteral.serdeNumber (floats : NumberLiteral → Option ℚ) (literal : NumberLiteral) :
    Option Number :=
  if literal.fraction = [] ∧ literal.exponent = none then
    if literal.negative then
      if literal.integer ≠ 0 ∧ literal.integer ≤ 2 ^ 63 then some (.negInt (-literal.integer))
      else (floats literal).map .float
    else if literal.integer ≤ u64Max then some (.posInt literal.integer)
    else (floats literal).map .float
  else (floats literal).map .float

mutual

/-- `serde_json::from_slice`, with the depth that remains. A text with a surrogate that has no
partner is refused. -/
def Json.serdeValue (floats : NumberLiteral → Option ℚ) (depth : ℕ) : Json → Option Value
  | .null => some .null
  | .bool b => some (.bool b)
  | .number literal => (literal.serdeNumber floats).map .number
  | .string units => (Utf16.decode units).map fun text => .string (String.ofList text)
  | .array values =>
    if depth ≤ 1 then none else (Json.serdeValues floats (depth - 1) values).map .array
  | .object members =>
    if depth ≤ 1 then none else (Json.serdeMembers floats (depth - 1) members).map .object

/-- The elements of an array. -/
def Json.serdeValues (floats : NumberLiteral → Option ℚ) (depth : ℕ) :
    List Json → Option (List Value)
  | [] => some []
  | value :: rest => do
    let value ← Json.serdeValue floats depth value
    let rest ← Json.serdeValues floats depth rest
    return value :: rest

/-- The members of an object. -/
def Json.serdeMembers (floats : NumberLiteral → Option ℚ) (depth : ℕ) :
    List (CodeUnits × Json) → Option (List (String × Value))
  | [] => some []
  | (name, value) :: rest => do
    let name ← Utf16.decode name
    let value ← Json.serdeValue floats depth value
    let rest ← Json.serdeMembers floats depth rest
    return (String.ofList name, value) :: rest

end

/-- The nesting at which `serde_json` gives up. -/
def serdeDepth : ℕ := 128

/-! ## The TypeScript decoder -/

/-- A JavaScript value that `JSON.parse` can return. A number is `none` if it is infinite. -/
inductive JsValue where
  | null
  | bool (b : Bool)
  | number (n : Option ℚ)
  | string (units : CodeUnits)
  | array (values : List JsValue)
  | object (members : List (CodeUnits × JsValue))

mutual

/-- `JSON.parse`: a number is the nearest double of its literal. -/
def Json.parse : Json → JsValue
  | .null => .null
  | .bool b => .bool b
  | .number literal => .number (Binary64.nearest literal.value)
  | .string units => .string units
  | .array values => .array (Json.parseValues values)
  | .object members => .object (Json.parseMembers members)

/-- The elements of an array. -/
def Json.parseValues : List Json → List JsValue
  | [] => []
  | value :: rest => value.parse :: Json.parseValues rest

/-- The members of an object. -/
def Json.parseMembers : List (CodeUnits × Json) → List (CodeUnits × JsValue)
  | [] => []
  | (name, value) :: rest => (name, value.parse) :: Json.parseMembers rest

end

namespace TypeScript

/-- `FipsPubsubWireMessage` of TypeScript, as far as it is looked at. -/
inductive FipsPubsubWireMessage where
  | inv (subscriptionIds : List CodeUnits) (eventId : CodeUnits)
      (eventKind payloadBytes hopLimit : ℚ)
  | want (eventId : CodeUnits)
  | other

/-- The text of a value with `typeof value === 'string'`. -/
def asString : JsValue → Option CodeUnits
  | .string units => some units
  | _ => none

/-- The number of a value with `Number.isSafeInteger(value)`. -/
def asSafeInteger : JsValue → Option ℚ
  | .number (some n) => if n.den = 1 ∧ |n| ≤ 2 ^ 53 - 1 then some n else none
  | _ => none

/-- The values of an array of texts. -/
def asStrings : JsValue → Option (List CodeUnits)
  | .array values => values.mapM asString
  | _ => none

/-- The digits of `[0-9a-f]`. -/
def IsLowerHexDigit (unit : UInt16) : Prop :=
  48 ≤ unit.toNat ∧ unit.toNat ≤ 57 ∨ 97 ≤ unit.toNat ∧ unit.toNat ≤ 102

instance (unit : UInt16) : Decidable (IsLowerHexDigit unit) := inferInstanceAs (Decidable (_ ∨ _))

/-- `validateEventId`. -/
def validateEventId (value : JsValue) (messageType : String) : Except PubsubError CodeUnits :=
  match asString value with
  | some units =>
    if units.length = 64 ∧ ∀ unit ∈ units, IsLowerHexDigit unit then .ok units
    else .error (invalidFrame s!"{messageType} event id is invalid")
  | none => .error (invalidFrame s!"{messageType} event id is invalid")

/-- `validateUnsigned`. -/
def validateUnsigned (value : JsValue) (maximum : ℕ) (field : String) : Except PubsubError ℚ :=
  match asSafeInteger value with
  | some n =>
    if n < 0 ∨ maximum < n then
      .error (invalidFrame s!"{field} must be an unsigned integer in range")
    else .ok n
  | none => .error (invalidFrame s!"{field} must be an unsigned integer in range")

/-- The checks of `validateInventory` on the subscription ids. -/
def validateSubscriptionIds (value : JsValue) : Except PubsubError (List CodeUnits) :=
  match asStrings value with
  | none => .error (invalidFrame "INV requires at least one string subscription id")
  | some [] => .error (invalidFrame "INV requires at least one string subscription id")
  | some ids =>
    if ids.Nodup then .ok ids else .error (invalidFrame "INV subscription ids must be unique")

/-- `validateInventory`. -/
def validateInventory (subscriptionIds eventId eventKind payloadBytes hopLimit : JsValue) :
    Except PubsubError FipsPubsubWireMessage := do
  let subscriptionIds ← validateSubscriptionIds subscriptionIds
  let eventId ← validateEventId eventId "INV"
  let eventKind ← validateUnsigned eventKind 0xffff "INV event kind"
  let payloadBytes ← validateUnsigned payloadBytes 0xffffffff "INV payload bytes"
  let hopLimit ← validateUnsigned hopLimit 0xff "INV hop limit"
  if hopLimit = 0 then throw (invalidFrame "INV hop limit must be greater than zero")
  else return .inv subscriptionIds eventId eventKind payloadBytes hopLimit

/-- The branch of `decodeWireMessage` for `INV`. -/
def decodeInv : List JsValue → Except PubsubError FipsPubsubWireMessage
  | [_, subscriptionIds, eventId, eventKind, payloadBytes, hopLimit] =>
    validateInventory subscriptionIds eventId eventKind payloadBytes hopLimit
  | _ =>
    .error (invalidFrame "INV requires subscription ids, event id, kind, byte size, and hop limit")

/-- The branch of `decodeWireMessage` for `WANT`. -/
def decodeWant : List JsValue → Except PubsubError FipsPubsubWireMessage
  | [_, .string eventId] => do return .want (← validateEventId (.string eventId) "WANT")
  | _ => .error (invalidFrame "WANT requires exactly an event id")

/-- `decodeWireMessage`. `decodeOther` is what it does with the other types of messages. -/
def decodeWireMessage (decodeOther : List JsValue → Except PubsubError FipsPubsubWireMessage) :
    JsValue → Except PubsubError FipsPubsubWireMessage
  | .array [] => .error (invalidFrame "message type must be a string")
  | .array (messageType :: fields) =>
    match asString messageType with
    | none => .error (invalidFrame "message type must be a string")
    | some units =>
      if units = codeUnits "INV" then decodeInv (messageType :: fields)
      else if units = codeUnits "WANT" then decodeWant (messageType :: fields)
      else decodeOther (messageType :: fields)
  | _ => .error (invalidFrame "message must be a JSON array")

/-- `decodeFrame`. `parse` is `JSON.parse` of the decoded bytes. -/
def decodeFrame (decodeOther : List JsValue → Except PubsubError FipsPubsubWireMessage)
    (parse : Frame → Except String JsValue) (codec : FipsPubsubWireCodec) (frame : Frame) :
    Except PubsubError FipsPubsubWireMessage := do
  codec.checkFrameSize frame.length
  if frame = [] then throw (invalidFrame "frame is empty")
  else
    match parse frame with
    | .error error => throw (invalidFrame s!"invalid JSON: {error}")
    | .ok value => decodeWireMessage decodeOther value

end TypeScript

/-! ## Spellings of event ids -/

/-- The digits of `[0-9a-fA-F]`. -/
def IsHexDigit (unit : UInt16) : Prop :=
  TypeScript.IsLowerHexDigit unit ∨ 65 ≤ unit.toNat ∧ unit.toNat ≤ 70

/-- 64 hexadecimal digits. -/
def SpellsEventId (units : CodeUnits) : Prop :=
  units.length = 64 ∧ ∀ unit ∈ units, IsHexDigit unit

/-- No hexadecimal digit is an uppercase letter. -/
def Lowercase (units : CodeUnits) : Prop := ∀ unit ∈ units, ¬(65 ≤ unit.toNat ∧ unit.toNat ≤ 70)

/-- `EventId::from_hex` reads the hexadecimal digits of an id in either case, and nothing else. -/
def NostrJson.ReadsHex (json : NostrJson) : Prop :=
  ∀ text eventId,
    json.eventIdFromHex text = .ok eventId ↔ text.toList.map Char.toLower = eventId.toHex.toList

/-- The units are a text that is the hexadecimal form of the id up to the case of its letters. -/
def SpellsId (units : CodeUnits) (eventId : EventId) : Prop :=
  ∃ text : List Char, units = Utf16.encode text ∧ text.map Char.toLower = eventId.toHex.toList

/-- The lowercase hexadecimal digits. -/
theorem exists_hexDigit_iff {c : Char} :
    (∃ k < 16, c = hexDigit k) ↔
      48 ≤ c.toNat ∧ c.toNat ≤ 57 ∨ 97 ≤ c.toNat ∧ c.toNat ≤ 102 := by
  constructor
  · rintro ⟨k, hk, rfl⟩
    have hall : ∀ k < 16, 48 ≤ (hexDigit k).toNat ∧ (hexDigit k).toNat ≤ 57 ∨
        97 ≤ (hexDigit k).toNat ∧ (hexDigit k).toNat ≤ 102 := by decide
    exact hall k hk
  · intro h
    have hall : ∀ n < 128, 48 ≤ (Char.ofNat n).toNat ∧ (Char.ofNat n).toNat ≤ 57 ∨
        97 ≤ (Char.ofNat n).toNat ∧ (Char.ofNat n).toNat ≤ 102 →
          ∃ k < 16, Char.ofNat n = hexDigit k := by decide +kernel
    have hdigit := hall c.toNat (by omega)
    rw [Char.ofNat_toNat] at hdigit
    exact hdigit h

theorem toLower_eq_self {c : Char} (h : ¬(65 ≤ c.toNat ∧ c.toNat ≤ 90)) : c.toLower = c := by
  unfold Char.toLower
  rw [dif_neg]
  rintro ⟨hge, hle⟩
  exact h ⟨hge, hle⟩

/-- The characters whose lowercase form is a hexadecimal digit. -/
theorem exists_hexDigit_toLower_iff {c : Char} :
    (∃ k < 16, c.toLower = hexDigit k) ↔
      (48 ≤ c.toNat ∧ c.toNat ≤ 57 ∨ 97 ≤ c.toNat ∧ c.toNat ≤ 102) ∨
        65 ≤ c.toNat ∧ c.toNat ≤ 70 := by
  have hascii : ∀ n < 128, (∃ k < 16, (Char.ofNat n).toLower = hexDigit k) ↔
      (48 ≤ (Char.ofNat n).toNat ∧ (Char.ofNat n).toNat ≤ 57 ∨
        97 ≤ (Char.ofNat n).toNat ∧ (Char.ofNat n).toNat ≤ 102) ∨
          65 ≤ (Char.ofNat n).toNat ∧ (Char.ofNat n).toNat ≤ 70 := by decide +kernel
  by_cases hc : c.toNat < 128
  · have hdigit := hascii c.toNat hc
    rwa [Char.ofNat_toNat] at hdigit
  · -- only ASCII letters have a lowercase form of their own here
    rw [toLower_eq_self (by omega), exists_hexDigit_iff]
    omega

/-- Pairs of hexadecimal digits are the hexadecimal form of bytes. -/
theorem exists_flatMap_hexByte {count : ℕ} {text : List Char} (hlength : text.length = 2 * count)
    (hdigits : ∀ c ∈ text, ∃ k < 16, c = hexDigit k) :
    ∃ bytes : List UInt8, bytes.length = count ∧ bytes.flatMap hexByte = text := by
  induction count generalizing text with
  | zero => exact ⟨[], rfl, (List.length_eq_zero_iff.mp hlength).symm⟩
  | succ count ih =>
    obtain _ | ⟨c, _ | ⟨d, rest⟩⟩ := text
    · cases hlength
    · simp only [List.length_cons, List.length_nil] at hlength
      omega
    · obtain ⟨i, hi, rfl⟩ := hdigits c List.mem_cons_self
      obtain ⟨j, hj, rfl⟩ := hdigits d (List.mem_cons_of_mem _ List.mem_cons_self)
      simp only [List.length_cons] at hlength
      have hlength' : rest.length = 2 * count := by omega
      obtain ⟨bytes, hbytes, hrest⟩ := ih hlength' fun c hc =>
        hdigits c (List.mem_cons_of_mem _ (List.mem_cons_of_mem _ hc))
      refine ⟨.ofNat (16 * i + j) :: bytes, congrArg Nat.succ hbytes, ?_⟩
      have hvalue : (UInt8.ofNat (16 * i + j)).toNat = 16 * i + j :=
        UInt8.toNat_ofNat_of_lt (show 16 * i + j < 256 by omega)
      have hhigh : (16 * i + j) / 16 = i := by omega
      have hlow : (16 * i + j) % 16 = j := by omega
      rw [List.flatMap_cons, hrest, hexByte, hvalue, hhigh, hlow]
      rfl

theorem length_flatMap_hexByte (bytes : List UInt8) :
    (bytes.flatMap hexByte).length = 2 * bytes.length := by
  induction bytes with
  | nil => rfl
  | cons byte rest ih =>
    rw [List.flatMap_cons, List.length_append, ih, List.length_cons]
    simp only [hexByte, List.length_cons, List.length_nil]
    omega

/-- The hexadecimal forms of ids are the texts of 64 lowercase hexadecimal digits. -/
theorem exists_toHex_iff {text : List Char} :
    (∃ eventId : EventId, text = eventId.toHex.toList) ↔
      text.length = 64 ∧ ∀ c ∈ text, ∃ k < 16, c = hexDigit k := by
  constructor
  · rintro ⟨eventId, rfl⟩
    rw [EventId.toHex, String.toList_ofList]
    refine ⟨by rw [length_flatMap_hexByte, eventId.toList_length], ?_⟩
    intro c hc
    obtain ⟨byte, -, hc⟩ := List.mem_flatMap.mp hc
    have hlt := byte.toNat_lt
    rcases List.mem_cons.mp hc with rfl | hc
    · exact ⟨_, by omega, rfl⟩
    · rw [List.mem_singleton] at hc
      exact ⟨_, by omega, hc⟩
  · rintro ⟨hlength, hdigits⟩
    have hpairs : text.length = 2 * 32 := hlength
    obtain ⟨bytes, hbytes, rfl⟩ := exists_flatMap_hexByte hpairs hdigits
    exact ⟨⟨bytes, hbytes⟩, (String.toList_ofList).symm⟩

/-- Characters below 65536 have one code unit each. -/
theorem encode_of_small {text : List Char} (h : ∀ c ∈ text, c.toNat < 65536) :
    Utf16.encode text = text.map fun c => UInt16.ofNat c.toNat := by
  induction text with
  | nil => rfl
  | cons c rest ih =>
    have hrest := ih fun c hc => h c (List.mem_cons_of_mem _ hc)
    unfold Utf16.encode at hrest ⊢
    rw [List.flatMap_cons, hrest, Utf16.encodeChar, if_pos (h c List.mem_cons_self)]
    rfl

/-- A text whose lowercase form is that of an id has 64 hexadecimal digits. -/
theorem hexDigits_of_toLower {text : List Char} {eventId : EventId}
    (h : text.map Char.toLower = eventId.toHex.toList) :
    text.length = 64 ∧ ∀ c ∈ text,
      (48 ≤ c.toNat ∧ c.toNat ≤ 57 ∨ 97 ≤ c.toNat ∧ c.toNat ≤ 102) ∨
        65 ≤ c.toNat ∧ c.toNat ≤ 70 := by
  obtain ⟨hlength, hdigits⟩ := exists_toHex_iff.mp ⟨eventId, h⟩
  rw [List.length_map] at hlength
  refine ⟨hlength, fun c hc => ?_⟩
  exact exists_hexDigit_toLower_iff.mp (hdigits _ (List.mem_map_of_mem hc))

/-- Such a text has one code unit for each character. -/
theorem encode_of_toLower {text : List Char} {eventId : EventId}
    (h : text.map Char.toLower = eventId.toHex.toList) :
    Utf16.encode text = text.map fun c => UInt16.ofNat c.toNat := by
  refine encode_of_small fun c hc => ?_
  have hvalue := (hexDigits_of_toLower h).2 c hc
  omega

/-- 64 hexadecimal digits are the hexadecimal form of an id up to case. -/
theorem exists_spellsId_iff {units : CodeUnits} :
    (∃ eventId, SpellsId units eventId) ↔ SpellsEventId units := by
  constructor
  · rintro ⟨eventId, text, rfl, hlower⟩
    obtain ⟨hlength, hdigits⟩ := hexDigits_of_toLower hlower
    rw [encode_of_toLower hlower]
    refine ⟨by rw [List.length_map, hlength], ?_⟩
    intro unit hunit
    obtain ⟨c, hc, rfl⟩ := List.mem_map.mp hunit
    have hvalue := hdigits c hc
    unfold IsHexDigit TypeScript.IsLowerHexDigit
    rw [Utf16.toNat_unit (by omega)]
    exact hvalue
  · rintro ⟨hlength, hdigits⟩
    have hsmall : ∀ unit ∈ units, (Char.ofNat unit.toNat).toNat = unit.toNat := by
      intro unit hunit
      have hdigit := hdigits unit hunit
      unfold IsHexDigit TypeScript.IsLowerHexDigit at hdigit
      exact Utf16.toNat_charOfNat (by omega)
    have hlower : ∀ c ∈ units.map (fun unit => (Char.ofNat unit.toNat).toLower),
        ∃ k < 16, c = hexDigit k := by
      intro c hc
      obtain ⟨unit, hunit, rfl⟩ := List.mem_map.mp hc
      rw [exists_hexDigit_toLower_iff, hsmall unit hunit]
      exact hdigits unit hunit
    obtain ⟨eventId, hid⟩ := exists_toHex_iff.mpr ⟨by rw [List.length_map, hlength], hlower⟩
    refine ⟨eventId, units.map fun unit => Char.ofNat unit.toNat, ?_, ?_⟩
    · rw [encode_of_small, List.map_map]
      · have hback : ∀ unit ∈ units,
            UInt16.ofNat (Char.ofNat unit.toNat).toNat = id unit := by
          intro unit hunit
          rw [hsmall unit hunit, UInt16.ofNat_toNat]
          rfl
        exact ((List.map_congr_left hback).trans (List.map_id units)).symm
      · intro c hc
        obtain ⟨unit, hunit, rfl⟩ := List.mem_map.mp hc
        rw [hsmall unit hunit]
        exact unit.toNat_lt
    · rw [List.map_map]
      exact hid

/-- An id is spelled by its own hexadecimal form. -/
theorem spellsId_toHex (eventId : EventId) : SpellsId (codeUnits eventId.toHex) eventId := by
  refine ⟨eventId.toHex.toList, rfl, ?_⟩
  have hsame : ∀ c ∈ eventId.toHex.toList, c.toLower = id c := by
    intro c hc
    have hdigit := exists_hexDigit_iff.mp ((exists_toHex_iff.mp ⟨eventId, rfl⟩).2 c hc)
    exact toLower_eq_self (by omega)
  exact (List.map_congr_left hsame).trans (List.map_id _)

/-- An id has one lowercase spelling: its hexadecimal form. -/
theorem SpellsId.lowercase_iff {units : CodeUnits} {eventId : EventId}
    (h : SpellsId units eventId) : Lowercase units ↔ units = codeUnits eventId.toHex := by
  obtain ⟨text, rfl, hlower⟩ := h
  constructor
  · intro hcase
    rw [encode_of_toLower hlower] at hcase
    have hsame : ∀ c ∈ text, c.toLower = id c := by
      intro c hc
      have hvalue := (hexDigits_of_toLower hlower).2 c hc
      have hunit := hcase _ (List.mem_map_of_mem hc)
      rw [Utf16.toNat_unit (by omega)] at hunit
      exact toLower_eq_self (by omega)
    rw [(List.map_congr_left hsame).trans (List.map_id _)] at hlower
    rw [hlower]
    rfl
  · intro hunits unit hunit
    have hdigits := (exists_toHex_iff.mp ⟨eventId, rfl⟩).2
    rw [hunits] at hunit
    rw [codeUnits, encode_of_small] at hunit
    · obtain ⟨c, hc, rfl⟩ := List.mem_map.mp hunit
      have hdigit := exists_hexDigit_iff.mp (hdigits c hc)
      rw [Utf16.toNat_unit (by omega)]
      omega
    · intro c hc
      have hdigit := exists_hexDigit_iff.mp (hdigits c hc)
      omega

/-- A text spells at most one id. -/
theorem SpellsId.unique {units : CodeUnits} {a b : EventId} (ha : SpellsId units a)
    (hb : SpellsId units b) : a = b := by
  obtain ⟨text, rfl, ha⟩ := ha
  obtain ⟨text', htext, hb⟩ := hb
  obtain rfl := Utf16.encode_injective htext
  exact EventId.toHex_injective (String.toList_injective (ha.symm.trans hb))

/-! ## Numbers -/

namespace NumberLiteral

/-- The nearest double of the literal is an integer from zero to `max`. -/
def InRange (max : ℕ) (literal : NumberLiteral) : Prop :=
  ∃ n ≤ max, Binary64.nearest literal.value = some (n : ℚ)

theorem plain_iff {literal : NumberLiteral} : literal.Plain ↔ literal = plain literal.integer := by
  obtain ⟨negative, integer, fraction, exponent⟩ := literal
  simp [Plain, plain]

theorem value_plain (n : ℕ) : (plain n).value = n := by
  simp [value, plain]

/-- Digits alone are rounded into the range of a machine integer exactly if they spell a number of
it. -/
theorem nearest_plain {n k : ℕ} {q : ℚ} (hk : k ≤ 53)
    (h : Binary64.nearest (plain n).value = some q) (hq : q < 2 ^ k) : q = n ∧ n < 2 ^ k := by
  rw [value_plain] at h
  have hn : n < 2 ^ k := by
    by_contra hge
    exact absurd hq (not_lt.mpr (Binary64.two_pow_le_of_nearest (Nat.le_of_not_lt hge) h))
  have hsmall : n < 2 ^ 53 := hn.trans_le (Nat.pow_le_pow_right (by decide) hk)
  rw [Binary64.nearest_natCast hsmall] at h
  exact ⟨(Option.some.inj h).symm, hn⟩

theorem inRange_plain {n max : ℕ} (hmax : max < 2 ^ 53) (h : n ≤ max) : (plain n).InRange max :=
  ⟨n, h, by rw [value_plain, Binary64.nearest_natCast (h.trans_lt hmax)]⟩

end NumberLiteral

end NostrPubsub.Fips
