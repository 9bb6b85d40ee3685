import NostrPubsub.Fips.WireSpelling

/-!
# One wire, two decoders

The decoder of `nostr-pubsub/src/wire.rs` and the one of `ts/packages/nostr-pubsub/src/wire.ts`, on
inventories and wants. What each accepts is stated on the JSON value; they agree where the spelling
that Rust asks for and the one that TypeScript asks for are both met or both missed.
-/

namespace NostrPubsub.Fips

/-! ## What the Rust decoder accepts -/

section Rust

variable {floats : NumberLiteral → Option ℚ} {depth : ℕ} {value : Json}

theorem serdeValue_eq_string {text : String} :
    value.serdeValue floats depth = some (.string text) ↔ value = .string (codeUnits text) := by
  cases value with
  | string units =>
    rw [Json.serdeValue, Option.map_eq_some_iff]
    constructor
    · rintro ⟨chars, hdecode, heq⟩
      cases heq
      rw [codeUnits, String.toList_ofList, Utf16.decode_eq_some_iff.mp hdecode]
    · intro h
      cases h
      exact ⟨text.toList, Utf16.decode_encode _, by rw [String.ofList_toList]⟩
  | null => simp [Json.serdeValue]
  | bool b => simp [Json.serdeValue]
  | number literal => simp [Json.serdeValue]
  | array values => simp [Json.serdeValue]
  | object members => simp [Json.serdeValue]

theorem serdeValue_eq_array {values : List Value} :
    value.serdeValue floats depth = some (.array values) ↔
      ∃ items, value = .array items ∧ 1 < depth ∧
        Json.serdeValues floats (depth - 1) items = some values := by
  cases value with
  | array items =>
    rw [Json.serdeValue]
    by_cases hdepth : depth ≤ 1
    · rw [if_pos hdepth]
      simp [Nat.not_lt.mpr hdepth]
    · rw [if_neg hdepth]
      simp [Nat.lt_of_not_le hdepth]
  | null => simp [Json.serdeValue]
  | bool b => simp [Json.serdeValue]
  | number literal => simp [Json.serdeValue]
  | string units => simp [Json.serdeValue]
  | object members => simp [Json.serdeValue]

theorem serdeNumber_eq_posInt {literal : NumberLiteral} {n : ℕ} :
    literal.serdeNumber floats = some (.posInt n) ↔ literal = .plain n ∧ n ≤ u64Max := by
  obtain ⟨negative, integer, fraction, exponent⟩ := literal
  simp only [NumberLiteral.serdeNumber, NumberLiteral.plain, NumberLiteral.mk.injEq]
  by_cases hdigits : fraction = [] ∧ exponent = none
  · obtain ⟨rfl, rfl⟩ := hdigits
    cases negative with
    | true =>
      simp only [and_self, if_true]
      split <;> simp
    | false =>
      by_cases hle : integer ≤ u64Max
      · simp only [hle, and_self, if_true, Bool.false_eq_true, if_false, Option.some.injEq,
          Number.posInt.injEq, true_and, and_true]
        constructor
        · rintro rfl
          exact ⟨rfl, hle⟩
        · exact And.left
      · simp only [hle, and_self, if_true, Bool.false_eq_true, if_false, true_and, and_true]
        constructor
        · intro h
          simp at h
        · rintro ⟨rfl, hle'⟩
          exact absurd hle' hle
  · simp only [if_neg hdigits]
    constructor
    · intro h
      simp at h
    · rintro ⟨⟨-, -, hfraction, hexponent⟩, -⟩
      exact absurd ⟨hfraction, hexponent⟩ hdigits

theorem serdeValue_eq_nat {n : ℕ} :
    value.serdeValue floats depth = some (.nat n) ↔ value = .number (.plain n) ∧ n ≤ u64Max := by
  cases value with
  | number literal =>
    rw [Json.serdeValue, Value.nat, Option.map_eq_some_iff]
    simp only [Value.number.injEq, exists_eq_right, serdeNumber_eq_posInt, Json.number.injEq]
  | null => simp [Json.serdeValue, Value.nat]
  | bool b => simp [Json.serdeValue, Value.nat]
  | string units => simp [Json.serdeValue, Value.nat]
  | array values => simp [Json.serdeValue, Value.nat]
  | object members => simp [Json.serdeValue, Value.nat]

theorem serdeValues_cons {item : Json} {items : List Json} {values : List Value} :
    Json.serdeValues floats depth (item :: items) = some values ↔
      ∃ first rest, item.serdeValue floats depth = some first ∧
        Json.serdeValues floats depth items = some rest ∧ values = first :: rest := by
  rw [Json.serdeValues]
  constructor
  · intro h
    obtain ⟨first, hfirst, h⟩ := Option.bind_eq_some_iff.mp h
    obtain ⟨rest, hrest, h⟩ := Option.bind_eq_some_iff.mp h
    exact ⟨first, rest, hfirst, hrest, (Option.some.inj h).symm⟩
  · rintro ⟨first, rest, hfirst, hrest, rfl⟩
    exact Option.bind_eq_some_iff.mpr ⟨first, hfirst,
      Option.bind_eq_some_iff.mpr ⟨rest, hrest, rfl⟩⟩

theorem serdeValues_eq_strings {items : List Json} {texts : List String} :
    Json.serdeValues floats depth items = some (texts.map .string) ↔
      items = texts.map fun text => .string (codeUnits text) := by
  induction items generalizing texts with
  | nil =>
    rw [Json.serdeValues, Option.some.injEq]
    cases texts <;> simp
  | cons item items ih =>
    rw [serdeValues_cons]
    cases texts with
    | nil => simp
    | cons text texts =>
      simp only [List.map_cons, List.cons.injEq]
      constructor
      · rintro ⟨first, rest, hfirst, hrest, rfl, rfl⟩
        exact ⟨serdeValue_eq_string.mp hfirst, ih.mp hrest⟩
      · rintro ⟨rfl, hitems⟩
        exact ⟨_, _, serdeValue_eq_string.mpr rfl, ih.mpr hitems, rfl, rfl⟩

theorem serdeValues_eq_nil {items : List Json} :
    Json.serdeValues floats depth items = some [] ↔ items = [] := by
  cases items with
  | nil => simp [Json.serdeValues]
  | cons item items =>
    rw [serdeValues_cons]
    simp

theorem serdeValues_eq_cons {items : List Json} {first : Value} {rest : List Value} :
    Json.serdeValues floats depth items = some (first :: rest) ↔
      ∃ item items', items = item :: items' ∧ item.serdeValue floats depth = some first ∧
        Json.serdeValues floats depth items' = some rest := by
  cases items with
  | nil => simp [Json.serdeValues]
  | cons item items =>
    rw [serdeValues_cons]
    constructor
    · rintro ⟨_, _, hfirst, hrest, heq⟩
      cases heq
      exact ⟨item, items, rfl, hfirst, hrest⟩
    · rintro ⟨_, _, heq, hfirst, hrest⟩
      cases heq
      exact ⟨first, rest, hfirst, hrest, rfl⟩

end Rust

/-- An inventory as it is spelled. -/
def Json.inventory (ids : List CodeUnits) (id : CodeUnits) (kind bytes hops : NumberLiteral) : Json :=
  .array [.string (codeUnits "INV"), .array (ids.map .string), .string id, .number kind,
    .number bytes, .number hops]

theorem inventory_inj {ids ids' : List CodeUnits} {id id' : CodeUnits}
    {kind kind' bytes bytes' hops hops' : NumberLiteral}
    (h : Json.inventory ids id kind bytes hops = .inventory ids' id' kind' bytes' hops') :
    ids = ids' ∧ id = id' ∧ kind = kind' ∧ bytes = bytes' ∧ hops = hops' := by
  simp only [Json.inventory, Json.array.injEq, List.cons.injEq, Json.string.injEq,
    Json.number.injEq, true_and, and_true] at h
  obtain ⟨hids, hid, hkind, hbytes, hhops⟩ := h
  have hinj : Function.Injective Json.string := by
    intro a b hab
    exact Json.string.inj hab
  exact ⟨List.map_injective_iff.mpr hinj hids, hid, hkind, hbytes, hhops⟩

/-- A want as it is spelled. -/
def Json.wanted (id : CodeUnits) : Json := .array [.string (codeUnits "WANT"), .string id]

theorem wanted_inj {id id' : CodeUnits} (h : Json.wanted id = .wanted id') : id = id' := by
  cases h
  rfl

/-- The JSON array is an inventory or a want by its first element. -/
def Json.IsInvWant (value : Json) : Prop :=
  ∃ messageType fields, value = .array (.string messageType :: fields) ∧
    (messageType = codeUnits "INV" ∨ messageType = codeUnits "WANT")

/-- What the Rust decoder makes of a JSON value. -/
def Json.rustDecode {nostr : NostrCrate} (json : NostrJson) (floats : NumberLiteral → Option ℚ)
    (value : Json) : Option (FipsPubsubWireMessage nostr) :=
  (value.serdeValue floats serdeDepth).bind fun read => (decodeValue json read).toOption

section RustAccepts

variable {nostr : NostrCrate} {json : NostrJson} {floats : NumberLiteral → Option ℚ} {value : Json}

theorem serdeValue_eq_inventory {texts : List String} {text : String} {kind bytes hops : ℕ} :
    value.serdeValue floats serdeDepth = some (.array [.string "INV", .array (texts.map .string),
        .string text, .nat kind, .nat bytes, .nat hops]) ↔
      value = .inventory (texts.map codeUnits) (codeUnits text) (.plain kind) (.plain bytes)
          (.plain hops) ∧ kind ≤ u64Max ∧ bytes ≤ u64Max ∧ hops ≤ u64Max := by
  simp only [serdeValue_eq_array, serdeValues_eq_cons, serdeValues_eq_nil, serdeValue_eq_string,
    serdeValue_eq_nat, serdeValues_eq_strings, serdeDepth, Json.inventory]
  constructor
  · rintro ⟨_, rfl, -, _, _, rfl, rfl, _, _, rfl, ⟨_, rfl, -, rfl⟩, _, _, rfl, rfl, _, _, rfl,
      ⟨rfl, hkind⟩, _, _, rfl, ⟨rfl, hbytes⟩, _, _, rfl, ⟨rfl, hhops⟩, rfl⟩
    refine ⟨?_, hkind, hbytes, hhops⟩
    rw [List.map_map]
    rfl
  · rintro ⟨rfl, hkind, hbytes, hhops⟩
    refine ⟨_, rfl, by decide, _, _, rfl, rfl, _, _, rfl, ⟨_, rfl, by decide, ?_⟩, _, _, rfl, rfl,
      _, _, rfl, ⟨rfl, hkind⟩, _, _, rfl, ⟨rfl, hbytes⟩, _, _, rfl, ⟨rfl, hhops⟩, rfl⟩
    rw [List.map_map]
    rfl

theorem serdeValue_eq_wanted {text : String} :
    value.serdeValue floats serdeDepth = some (.array [.string "WANT", .string text]) ↔
      value = .wanted (codeUnits text) := by
  simp only [serdeValue_eq_array, serdeValues_eq_cons, serdeValues_eq_nil, serdeValue_eq_string,
    serdeDepth, Json.wanted]
  constructor
  · rintro ⟨_, rfl, -, _, _, rfl, rfl, _, _, rfl, rfl, rfl⟩
    rfl
  · rintro rfl
    exact ⟨_, rfl, by decide, _, _, rfl, rfl, _, _, rfl, rfl, rfl⟩

/-- The elements of a JSON array are read one by one. -/
theorem rustDecode_array {messageType : String} {fields : List Json}
    {message : FipsPubsubWireMessage nostr} :
    (Json.array (.string (codeUnits messageType) :: fields)).rustDecode json floats = some message ↔
      ∃ read, (Json.array (.string (codeUnits messageType) :: fields)).serdeValue floats serdeDepth
          = some (.array (.string messageType :: read)) ∧
        decodeFields json messageType (.string messageType :: read) = .ok message := by
  rw [Json.rustDecode, Option.bind_eq_some_iff]
  constructor
  · rintro ⟨read, hread, h⟩
    have hserde := hread
    rw [Json.serdeValue, if_neg (by decide)] at hread
    obtain ⟨values, hvalues, rfl⟩ := Option.map_eq_some_iff.mp hread
    obtain ⟨first, rest, hfirst, hrest, rfl⟩ := serdeValues_cons.mp hvalues
    have hstring : first = .string messageType := by
      rw [serdeValue_eq_string.mpr rfl] at hfirst
      exact (Option.some.inj hfirst).symm
    subst hstring
    exact ⟨rest, hserde, Except.toOption_eq_some.mp h⟩
  · rintro ⟨read, hread, h⟩
    exact ⟨_, hread, Except.toOption_eq_some.mpr h⟩

theorem exists_five {α : Type} {l : List α} (h : l.length = 5) :
    ∃ a b c d e, l = [a, b, c, d, e] := by
  obtain ⟨a, l, rfl⟩ := List.exists_cons_of_length_eq_add_one h
  obtain ⟨b, l, rfl⟩ := List.exists_cons_of_length_eq_add_one (Nat.succ.inj h)
  obtain ⟨c, d, e, rfl⟩ := List.length_eq_three.mp (Nat.succ.inj (Nat.succ.inj h))
  exact ⟨a, b, c, d, e, rfl⟩

/-- The inventories that the Rust decoder accepts: the numbers are digits alone, the subscription ids
are texts and the event id is in either case. -/
theorem rustDecode_inv_iff (hhex : json.ReadsHex) {fields : List Json}
    {message : FipsPubsubWireMessage nostr} :
    (Json.array (.string (codeUnits "INV") :: fields)).rustDecode json floats = some message ↔
      ∃ (texts : List String) (units : CodeUnits) (eventId : EventId) (kind : UInt16)
          (bytes : UInt32) (hops : UInt8),
        Json.array (.string (codeUnits "INV") :: fields) = .inventory (texts.map codeUnits) units
          (.plain kind.toNat) (.plain bytes.toNat) (.plain hops.toNat) ∧
        texts ≠ [] ∧ texts.Nodup ∧ SpellsId units eventId ∧ hops ≠ 0 ∧
        message = .inv texts eventId kind bytes hops := by
  rw [rustDecode_array]
  constructor
  · rintro ⟨read, hread, h⟩
    simp only [decodeFields] at h
    split at h
    · next hlength =>
      obtain ⟨texts, eventId, kind, bytes, hops, htexts, hid, hkind, hbytes, hhops, hne, rfl⟩ :=
        decodeInv_eq_ok.mp h
      obtain ⟨hidsValue, hnonempty, hnodup⟩ := decodeSubscriptionIds_eq_ok.mp htexts
      obtain ⟨text, htext, hfromHex⟩ := decodeEventId_eq_ok.mp hid
      obtain ⟨hkindValue, hkind'⟩ := decodeUnsigned_eq_ok.mp hkind
      obtain ⟨hbytesValue, hbytes'⟩ := decodeUnsigned_eq_ok.mp hbytes
      obtain ⟨hhopsValue, hhops'⟩ := decodeUnsigned_eq_ok.mp hhops
      obtain ⟨idsValue, idValue, kindValue, bytesValue, hopsValue, rfl⟩ :=
        exists_five (Nat.succ.inj hlength)
      obtain rfl : idsValue = .array (texts.map .string) := Option.some.inj hidsValue
      obtain rfl := Value.eq_string_of_asStr htext
      obtain rfl := Value.eq_nat_of_asU64 hkindValue
      obtain rfl := Value.eq_nat_of_asU64 hbytesValue
      obtain rfl := Value.eq_nat_of_asU64 hhopsValue
      -- The numbers were read within the widths of their fields, so that narrowing them loses
      -- nothing.
      have hkind16 : (UInt16.ofNat kind).toNat = kind :=
        UInt16.toNat_ofNat_of_lt (Nat.lt_succ_of_le hkind')
      have hbytes32 : (UInt32.ofNat bytes).toNat = bytes :=
        UInt32.toNat_ofNat_of_lt (Nat.lt_succ_of_le hbytes')
      have hhops8 : (UInt8.ofNat hops).toNat = hops :=
        UInt8.toNat_ofNat_of_lt (Nat.lt_succ_of_le hhops')
      refine ⟨texts, codeUnits text, eventId, .ofNat kind, .ofNat bytes, .ofNat hops, ?_, hnonempty,
        hnodup, ⟨text.toList, rfl, (hhex text eventId).mp hfromHex⟩, ?_, rfl⟩
      · rw [hkind16, hbytes32, hhops8]
        exact (serdeValue_eq_inventory.mp hread).1
      · intro hzero
        rw [hzero] at hhops8
        exact hne hhops8.symm
    · cases h
  · rintro ⟨texts, units, eventId, kind, bytes, hops, hvalue, hnonempty, hnodup, hspells, hhops, rfl⟩
    obtain ⟨chars, rfl, hlower⟩ := hspells
    -- The crate reads the id in either case of its digits.
    have hid : json.eventIdFromHex (String.ofList chars) = .ok eventId := by
      rw [hhex, String.toList_ofList]
      exact hlower
    have hkind := kind.toNat_lt
    have hbytes := bytes.toNat_lt
    have hhops' := hops.toNat_lt
    refine ⟨[.array (texts.map .string), .string (String.ofList chars), .nat kind.toNat,
      .nat bytes.toNat, .nat hops.toNat], serdeValue_eq_inventory.mpr ⟨?_, ?_, ?_, ?_⟩, ?_⟩
    · rw [hvalue, codeUnits, String.toList_ofList]
    · exact hkind.le.trans (by decide)
    · exact hbytes.le.trans (by decide)
    · exact hhops'.le.trans (by decide)
    · exact decodeInv_of_fields hid hnonempty hnodup hhops

/-- The wants that the Rust decoder accepts. -/
theorem rustDecode_want_iff (hhex : json.ReadsHex) {fields : List Json}
    {message : FipsPubsubWireMessage nostr} :
    (Json.array (.string (codeUnits "WANT") :: fields)).rustDecode json floats = some message ↔
      ∃ units eventId, Json.array (.string (codeUnits "WANT") :: fields) = .wanted units ∧
        SpellsId units eventId ∧ message = .want eventId := by
  rw [rustDecode_array]
  constructor
  · rintro ⟨read, hread, h⟩
    simp only [decodeFields] at h
    split at h
    · next hlength =>
      obtain ⟨eventId, hid, rfl⟩ := decodeWant_eq_ok.mp h
      obtain ⟨text, htext, hfromHex⟩ := decodeEventId_eq_ok.mp hid
      obtain ⟨idValue, rfl⟩ := List.length_eq_one_iff.mp (Nat.succ.inj hlength)
      obtain rfl := Value.eq_string_of_asStr htext
      exact ⟨codeUnits text, eventId, serdeValue_eq_wanted.mp hread,
        ⟨text.toList, rfl, (hhex text eventId).mp hfromHex⟩, rfl⟩
    · cases h
  · rintro ⟨units, eventId, hvalue, ⟨chars, rfl, hlower⟩, rfl⟩
    have hid : json.eventIdFromHex (String.ofList chars) = .ok eventId := by
      rw [hhex, String.toList_ofList]
      exact hlower
    refine ⟨[.string (String.ofList chars)], serdeValue_eq_wanted.mpr ?_, ?_⟩
    · rw [hvalue, codeUnits, String.toList_ofList]
    · exact decodeWant_eq_ok.mpr ⟨eventId, decodeEventId_eq_ok.mpr ⟨_, rfl, hid⟩, rfl⟩

end RustAccepts

/-! ## What the TypeScript decoder accepts -/

namespace TypeScript

variable {value : Json}

theorem asString_parse {units : CodeUnits} :
    asString value.parse = some units ↔ value = .string units := by
  cases value <;> simp [Json.parse, asString]

theorem mapM_asString {values : List JsValue} {ids : List CodeUnits} :
    values.mapM asString = some ids ↔ values = ids.map .string := by
  induction values generalizing ids with
  | nil =>
    cases ids <;> simp
  | cons value rest ih =>
    rw [List.mapM_cons]
    constructor
    · intro h
      obtain ⟨units, hunits, hbind⟩ := Option.bind_eq_some_iff.mp h
      obtain ⟨later, hlater, hids⟩ := Option.bind_eq_some_iff.mp hbind
      cases value <;> cases hunits
      cases hids
      rw [ih.mp hlater]
      rfl
    · intro h
      obtain ⟨id, later, rfl, rfl, hrest⟩ := List.map_eq_cons_iff.mp h.symm
      exact Option.bind_eq_some_iff.mpr ⟨id, rfl,
        Option.bind_eq_some_iff.mpr ⟨later, ih.mpr hrest.symm, rfl⟩⟩

theorem parseValues_eq_strings {values : List Json} {ids : List CodeUnits} :
    Json.parseValues values = ids.map .string ↔ values = ids.map .string := by
  induction values generalizing ids with
  | nil => cases ids <;> simp [Json.parseValues]
  | cons value rest ih =>
    cases ids with
    | nil => simp [Json.parseValues]
    | cons id ids => cases value <;> simp [Json.parseValues, Json.parse, ih]

theorem asStrings_parse {ids : List CodeUnits} :
    asStrings value.parse = some ids ↔ value = .array (ids.map .string) := by
  cases value with
  | array values =>
    rw [Json.parse, asStrings, mapM_asString, parseValues_eq_strings, Json.array.injEq]
  | null => simp [Json.parse, asStrings]
  | bool b => simp [Json.parse, asStrings]
  | number literal => simp [Json.parse, asStrings]
  | string units => simp [Json.parse, asStrings]
  | object members => simp [Json.parse, asStrings]

theorem validateSubscriptionIds_eq_ok {ids : List CodeUnits} :
    validateSubscriptionIds value.parse = .ok ids ↔
      value = .array (ids.map .string) ∧ ids ≠ [] ∧ ids.Nodup := by
  unfold validateSubscriptionIds
  rw [← asStrings_parse]
  cases asStrings value.parse with
  | none => simp
  | some found =>
    cases found with
    | nil =>
      simp only [Option.some.injEq]
      constructor
      · intro h
        cases h
      · rintro ⟨rfl, hne, -⟩
        exact absurd rfl hne
    | cons id rest =>
      simp only [Option.some.injEq]
      split
      · next hnodup =>
        constructor
        · rintro ⟨⟩
          exact ⟨rfl, List.cons_ne_nil _ _, hnodup⟩
        · rintro ⟨rfl, -⟩
          rfl
      · next hdup =>
        constructor
        · intro h
          cases h
        · rintro ⟨rfl, -, hnodup⟩
          exact absurd hnodup hdup

/-- The regular expression matches the hexadecimal forms of ids. -/
theorem lowerHexDigits_iff {units : CodeUnits} :
    (units.length = 64 ∧ ∀ unit ∈ units, IsLowerHexDigit unit) ↔
      ∃ eventId : EventId, units = codeUnits eventId.toHex := by
  constructor
  · rintro ⟨hlength, hdigits⟩
    obtain ⟨eventId, hspells⟩ :=
      exists_spellsId_iff.mpr ⟨hlength, fun unit hunit => Or.inl (hdigits unit hunit)⟩
    refine ⟨eventId, hspells.lowercase_iff.mp fun unit hunit => ?_⟩
    have hdigit := hdigits unit hunit
    unfold IsLowerHexDigit at hdigit
    omega
  · rintro ⟨eventId, rfl⟩
    have hspells := spellsId_toHex eventId
    obtain ⟨hlength, hdigits⟩ := exists_spellsId_iff.mp ⟨eventId, hspells⟩
    refine ⟨hlength, fun unit hunit => (hdigits unit hunit).resolve_right ?_⟩
    exact hspells.lowercase_iff.mpr rfl unit hunit

theorem validateEventId_eq_ok {messageType : String} {units : CodeUnits} :
    validateEventId value.parse messageType = .ok units ↔
      value = .string units ∧ ∃ eventId : EventId, units = codeUnits eventId.toHex := by
  unfold validateEventId
  rw [← asString_parse, ← lowerHexDigits_iff]
  cases asString value.parse with
  | none => simp
  | some found =>
    simp only [Option.some.injEq]
    split
    · next hmatch =>
      constructor
      · rintro ⟨⟩
        exact ⟨rfl, hmatch⟩
      · rintro ⟨rfl, -⟩
        rfl
    · next hmatch =>
      constructor
      · intro h
        cases h
      · rintro ⟨rfl, hmatch'⟩
        exact absurd hmatch' hmatch

theorem asSafeInteger_parse {q : ℚ} :
    asSafeInteger value.parse = some q ↔
      ∃ literal, value = .number literal ∧ Binary64.nearest literal.value = some q ∧
        q.den = 1 ∧ |q| ≤ 2 ^ 53 - 1 := by
  cases value with
  | number literal =>
    rw [Json.parse]
    cases hnearest : Binary64.nearest literal.value with
    | none => simp [asSafeInteger, hnearest]
    | some n =>
      simp only [asSafeInteger, Json.number.injEq, exists_eq_left', hnearest, Option.some.injEq]
      split
      · next hsafe =>
        constructor
        · rintro ⟨⟩
          exact ⟨rfl, hsafe⟩
        · rintro ⟨rfl, -⟩
          rfl
      · next hsafe =>
        constructor
        · intro h
          cases h
        · rintro ⟨rfl, hsafe'⟩
          exact absurd hsafe' hsafe
  | null => simp [Json.parse, asSafeInteger]
  | bool b => simp [Json.parse, asSafeInteger]
  | string units => simp [Json.parse, asSafeInteger]
  | array values => simp [Json.parse, asSafeInteger]
  | object members => simp [Json.parse, asSafeInteger]

theorem validateUnsigned_eq_ok {maximum : ℕ} (hmaximum : maximum < 2 ^ 53) {field : String} {q : ℚ} :
    validateUnsigned value.parse maximum field = .ok q ↔
      ∃ literal n, value = .number literal ∧ n ≤ maximum ∧
        Binary64.nearest literal.value = some (n : ℚ) ∧ q = n := by
  unfold validateUnsigned
  constructor
  · intro h
    split at h
    · next found hfound =>
      obtain ⟨literal, rfl, hnearest, hden, -⟩ := asSafeInteger_parse.mp hfound
      split at h
      · cases h
      · next hrange =>
        cases h
        rw [not_or, not_lt, not_lt] at hrange
        obtain ⟨hnonneg, hle⟩ := hrange
        obtain ⟨n, hn⟩ := Int.eq_ofNat_of_zero_le (Rat.num_nonneg.mpr hnonneg)
        have hq : q = (n : ℚ) := by
          rw [← Rat.num_div_den q, hden, hn]
          simp
        subst hq
        exact ⟨literal, n, rfl, by exact_mod_cast hle, hnearest, rfl⟩
    · cases h
  · rintro ⟨literal, n, rfl, hle, hnearest, rfl⟩
    have hsafe : asSafeInteger (Json.number literal).parse = some (n : ℚ) := by
      refine asSafeInteger_parse.mpr ⟨literal, rfl, hnearest, Rat.den_natCast n, ?_⟩
      have hbound : n + 1 ≤ 2 ^ 53 := by omega
      rw [Nat.abs_cast, le_sub_iff_add_le]
      exact_mod_cast hbound
    rw [hsafe]
    simp only
    rw [if_neg]
    rw [not_or, not_lt, not_lt]
    exact ⟨Nat.cast_nonneg n, by exact_mod_cast hle⟩

theorem validateInventory_eq_ok {idsValue idValue kindValue bytesValue hopsValue : Json}
    {message : FipsPubsubWireMessage} :
    validateInventory idsValue.parse idValue.parse kindValue.parse bytesValue.parse hopsValue.parse
        = .ok message ↔
      ∃ ids units k b h, validateSubscriptionIds idsValue.parse = .ok ids ∧
        validateEventId idValue.parse "INV" = .ok units ∧
        validateUnsigned kindValue.parse 0xffff "INV event kind" = .ok k ∧
        validateUnsigned bytesValue.parse 0xffffffff "INV payload bytes" = .ok b ∧
        validateUnsigned hopsValue.parse 0xff "INV hop limit" = .ok h ∧ h ≠ 0 ∧
        message = .inv ids units k b h := by
  constructor
  · intro h
    obtain ⟨ids, hids, h⟩ := Except.bind_eq_ok.mp h
    obtain ⟨units, hid, h⟩ := Except.bind_eq_ok.mp h
    obtain ⟨k, hkind, h⟩ := Except.bind_eq_ok.mp h
    obtain ⟨b, hbytes, h⟩ := Except.bind_eq_ok.mp h
    obtain ⟨n, hhops, h⟩ := Except.bind_eq_ok.mp h
    split at h
    · cases h
    · next hne =>
      cases h
      exact ⟨ids, units, k, b, n, hids, hid, hkind, hbytes, hhops, hne, rfl⟩
  · rintro ⟨ids, units, k, b, n, hids, hid, hkind, hbytes, hhops, hne, rfl⟩
    simp only [validateInventory, hids, hid, hkind, hbytes, hhops, if_neg hne, bind, Except.bind]
    rfl

variable {decodeOther : List JsValue → Except PubsubError FipsPubsubWireMessage}

/-- The inventories that the TypeScript decoder accepts: the numbers are rounded to doubles, and the
event id is in lowercase. -/
theorem decodeWireMessage_inv_iff {fields : List Json} {message : FipsPubsubWireMessage} :
    decodeWireMessage decodeOther (Json.array (.string (codeUnits "INV") :: fields)).parse
        = .ok message ↔
      ∃ (ids : List CodeUnits) (eventId : EventId) (kind bytes hops : NumberLiteral) (k b h : ℕ),
        Json.array (.string (codeUnits "INV") :: fields)
          = .inventory ids (codeUnits eventId.toHex) kind bytes hops ∧
        ids ≠ [] ∧ ids.Nodup ∧
        (k ≤ 65535 ∧ Binary64.nearest kind.value = some (k : ℚ)) ∧
        (b ≤ 4294967295 ∧ Binary64.nearest bytes.value = some (b : ℚ)) ∧
        (h ≤ 255 ∧ Binary64.nearest hops.value = some (h : ℚ)) ∧ h ≠ 0 ∧
        message = .inv ids (codeUnits eventId.toHex) k b h := by
  -- The first field alone selects the decoder.
  have hdispatch : decodeWireMessage decodeOther
      (Json.array (.string (codeUnits "INV") :: fields)).parse
        = decodeInv (.string (codeUnits "INV") :: Json.parseValues fields) := by
    simp only [Json.parse, Json.parseValues, decodeWireMessage, asString, if_true]
  rw [hdispatch]
  constructor
  · intro h
    match fields with
    | [idsValue, idValue, kindValue, bytesValue, hopsValue] =>
      obtain ⟨ids, units, k, b, n, hids, hid, hkind, hbytes, hhops, hne, rfl⟩ :=
        validateInventory_eq_ok.mp h
      obtain ⟨rfl, hnonempty, hnodup⟩ := validateSubscriptionIds_eq_ok.mp hids
      obtain ⟨rfl, eventId, rfl⟩ := validateEventId_eq_ok.mp hid
      obtain ⟨kind, k, rfl, hk, hkind', rfl⟩ := (validateUnsigned_eq_ok (by decide)).mp hkind
      obtain ⟨bytes, b, rfl, hb, hbytes', rfl⟩ := (validateUnsigned_eq_ok (by decide)).mp hbytes
      obtain ⟨hops, n, rfl, hn, hhops', rfl⟩ := (validateUnsigned_eq_ok (by decide)).mp hhops
      refine ⟨ids, eventId, kind, bytes, hops, k, b, n, rfl, hnonempty, hnodup, ⟨hk, hkind'⟩,
        ⟨hb, hbytes'⟩, ⟨hn, hhops'⟩, ?_, rfl⟩
      rintro rfl
      exact hne Nat.cast_zero
    | [] => cases h
    | [_] => cases h
    | [_, _] => cases h
    | [_, _, _] => cases h
    | [_, _, _, _] => cases h
    | _ :: _ :: _ :: _ :: _ :: _ :: _ => cases h
  · rintro ⟨ids, eventId, kind, bytes, hops, k, b, n, heq, hnonempty, hnodup, ⟨hk, hkind⟩,
      ⟨hb, hbytes⟩, ⟨hn, hhops⟩, hne, rfl⟩
    cases heq
    refine validateInventory_eq_ok.mpr ⟨ids, codeUnits eventId.toHex, k, b, n,
      validateSubscriptionIds_eq_ok.mpr ⟨rfl, hnonempty, hnodup⟩,
      validateEventId_eq_ok.mpr ⟨rfl, eventId, rfl⟩,
      (validateUnsigned_eq_ok (by decide)).mpr ⟨kind, k, rfl, hk, hkind, rfl⟩,
      (validateUnsigned_eq_ok (by decide)).mpr ⟨bytes, b, rfl, hb, hbytes, rfl⟩,
      (validateUnsigned_eq_ok (by decide)).mpr ⟨hops, n, rfl, hn, hhops, rfl⟩, ?_, rfl⟩
    exact_mod_cast hne

/-- The wants that the TypeScript decoder accepts. -/
theorem decodeWireMessage_want_iff {fields : List Json} {message : FipsPubsubWireMessage} :
    decodeWireMessage decodeOther (Json.array (.string (codeUnits "WANT") :: fields)).parse
        = .ok message ↔
      ∃ eventId : EventId,
        Json.array (.string (codeUnits "WANT") :: fields) = .wanted (codeUnits eventId.toHex) ∧
        message = .want (codeUnits eventId.toHex) := by
  have hne : codeUnits "WANT" ≠ codeUnits "INV" := by decide +kernel
  have hdispatch : decodeWireMessage decodeOther
      (Json.array (.string (codeUnits "WANT") :: fields)).parse
        = decodeWant (.string (codeUnits "WANT") :: Json.parseValues fields) := by
    simp only [Json.parse, Json.parseValues, decodeWireMessage, asString, if_neg hne, if_true]
  rw [hdispatch]
  constructor
  · intro h
    match fields with
    | [.string units] =>
      obtain ⟨units', hid, h⟩ := Except.bind_eq_ok.mp h
      cases h
      obtain ⟨heq, eventId, rfl⟩ :=
        (@validateEventId_eq_ok (.string units) _ _).mp hid
      exact ⟨eventId, congrArg (fun value => Json.array [_, value]) heq, rfl⟩
    | [.null] => cases h
    | [.bool _] => cases h
    | [.number _] => cases h
    | [.array _] => cases h
    | [.object _] => cases h
    | [] => cases h
    | value :: _ :: _ => cases value <;> cases h
  · rintro ⟨eventId, heq, rfl⟩
    cases heq
    refine Except.bind_eq_ok.mpr ⟨codeUnits eventId.toHex, ?_, rfl⟩
    exact (@validateEventId_eq_ok (.string _) _ _).mpr ⟨rfl, eventId, rfl⟩

end TypeScript

/-! ## Where the two agree -/

/-- The two sides yield the same fields. -/
def SameMessage {nostr : NostrCrate} :
    FipsPubsubWireMessage nostr → TypeScript.FipsPubsubWireMessage → Prop
  | .inv ids eventId kind bytes hops, .inv ids' eventId' kind' bytes' hops' =>
    ids' = ids.map codeUnits ∧ eventId' = codeUnits eventId.toHex ∧ kind' = kind.toNat ∧
      bytes' = bytes.toNat ∧ hops' = hops.toNat
  | .want eventId, .want eventId' => eventId' = codeUnits eventId.toHex
  | _, _ => False

/-- An inventory that is valid when its numbers are taken as doubles, its subscription ids as code
units and its event id in either case. -/
structure ValidInventory (ids : List CodeUnits) (id : CodeUnits) (kind bytes hops : NumberLiteral) :
    Prop where
  ids_ne_nil : ids ≠ []
  ids_nodup : ids.Nodup
  id_spellsEventId : SpellsEventId id
  kind_inRange : kind.InRange 65535
  bytes_inRange : bytes.InRange 4294967295
  hops_inRange : hops.InRange 255
  hops_ne_zero : Binary64.nearest hops.value ≠ some 0

/-- The spelling that the Rust decoder asks for: numbers of digits alone, and subscription ids without
lone surrogates. -/
structure PlainInventory (ids : List CodeUnits) (kind bytes hops : NumberLiteral) : Prop where
  ids_decode : ∀ units ∈ ids, Utf16.decode units ≠ none
  kind_plain : kind.Plain
  bytes_plain : bytes.Plain
  hops_plain : hops.Plain

/-- A valid inventory is plain exactly if its event id is in lowercase, and a valid want has its event
id in lowercase. -/
def Json.SpellingsAgree (value : Json) : Prop :=
  (∀ ids id kind bytes hops, value = .inventory ids id kind bytes hops →
    ValidInventory ids id kind bytes hops → (PlainInventory ids kind bytes hops ↔ Lowercase id)) ∧
  ∀ id, value = .wanted id → SpellsEventId id → Lowercase id

section Agreement

variable {nostr : NostrCrate} {json : NostrJson} {floats : NumberLiteral → Option ℚ}
  {decodeOther : List JsValue → Except PubsubError TypeScript.FipsPubsubWireMessage}
  {ids : List CodeUnits} {id : CodeUnits} {kind bytes hops : NumberLiteral}

/-- Code units without lone surrogates are those of texts. -/
theorem exists_texts (h : ∀ units ∈ ids, Utf16.decode units ≠ none) :
    ∃ texts : List String, ids = texts.map codeUnits := by
  induction ids with
  | nil => exact ⟨[], rfl⟩
  | cons units rest ih =>
    obtain ⟨chars, hchars⟩ := Option.ne_none_iff_exists'.mp (h units List.mem_cons_self)
    obtain ⟨texts, rfl⟩ := ih fun units hunits => h units (List.mem_cons_of_mem _ hunits)
    refine ⟨String.ofList chars :: texts, ?_⟩
    rw [List.map_cons, codeUnits, String.toList_ofList, Utf16.decode_eq_some_iff.mp hchars]

theorem codeUnits_injective : Function.Injective codeUnits := by
  intro a b h
  exact String.toList_injective (Utf16.encode_injective h)

/-- A plain literal in the range of a machine integer spells a number of it. -/
theorem integer_lt_of_plain {literal : NumberLiteral} {max k : ℕ} (hk : k ≤ 53)
    (hmax : max + 1 = 2 ^ k) (hplain : literal.Plain) (hrange : literal.InRange max) :
    ∃ n < 2 ^ k, literal = .plain n ∧ Binary64.nearest literal.value = some (n : ℚ) := by
  obtain ⟨n, hn, hnearest⟩ := hrange
  rw [NumberLiteral.plain_iff] at hplain
  have hlt : (n : ℚ) < 2 ^ k := by
    have hnat : n < 2 ^ k := by omega
    exact_mod_cast hnat
  rw [hplain] at hnearest
  obtain ⟨heq, hinteger⟩ := NumberLiteral.nearest_plain hk hnearest hlt
  refine ⟨literal.integer, hinteger, hplain, ?_⟩
  rw [hplain]
  rw [heq] at hnearest
  exact hnearest

/-- The Rust decoder accepts the valid and plain inventories. -/
theorem rust_accepts_inventory_iff (hhex : json.ReadsHex) :
    (∃ message : FipsPubsubWireMessage nostr,
        (Json.inventory ids id kind bytes hops).rustDecode json floats = some message) ↔
      ValidInventory ids id kind bytes hops ∧ PlainInventory ids kind bytes hops := by
  constructor
  · rintro ⟨message, h⟩
    obtain ⟨texts, units, eventId, k, b, n, heq, hnonempty, hnodup, hspells, hne, -⟩ :=
      (rustDecode_inv_iff hhex).mp h
    obtain ⟨rfl, rfl, rfl, rfl, rfl⟩ := inventory_inj heq
    refine ⟨⟨?_, ?_, exists_spellsId_iff.mp ⟨eventId, hspells⟩, ?_, ?_, ?_, ?_⟩,
      ⟨?_, ⟨rfl, rfl, rfl⟩, ⟨rfl, rfl, rfl⟩, ⟨rfl, rfl, rfl⟩⟩⟩
    · exact fun hnil => hnonempty (List.map_eq_nil_iff.mp hnil)
    · exact (List.nodup_map_iff codeUnits_injective).mpr hnodup
    · exact NumberLiteral.inRange_plain (by decide) (Nat.le_of_lt_succ k.toNat_lt)
    · exact NumberLiteral.inRange_plain (by decide) (Nat.le_of_lt_succ b.toNat_lt)
    · exact NumberLiteral.inRange_plain (by decide) (Nat.le_of_lt_succ n.toNat_lt)
    · rw [NumberLiteral.value_plain, Binary64.nearest_natCast (n.toNat_lt.trans (by decide))]
      intro hzero
      have htoNat : n.toNat = 0 := by exact_mod_cast Option.some.inj hzero
      exact hne (UInt8.toNat_inj.mp htoNat)
    · intro units hunits
      obtain ⟨text, -, rfl⟩ := List.mem_map.mp hunits
      rw [codeUnits, Utf16.decode_encode]
      exact Option.some_ne_none _
  · rintro ⟨hvalid, hplain⟩
    obtain ⟨texts, rfl⟩ := exists_texts hplain.ids_decode
    obtain ⟨eventId, hspells⟩ := exists_spellsId_iff.mpr hvalid.id_spellsEventId
    obtain ⟨k, hk, rfl, -⟩ :=
      integer_lt_of_plain (k := 16) (by decide) rfl hplain.kind_plain hvalid.kind_inRange
    obtain ⟨b, hb, rfl, -⟩ :=
      integer_lt_of_plain (k := 32) (by decide) rfl hplain.bytes_plain hvalid.bytes_inRange
    obtain ⟨n, hn, rfl, hnearest⟩ :=
      integer_lt_of_plain (k := 8) (by decide) rfl hplain.hops_plain hvalid.hops_inRange
    -- Within their ranges, the numbers fit the fixed widths of the fields.
    have hk16 : (UInt16.ofNat k).toNat = k := UInt16.toNat_ofNat_of_lt hk
    have hb32 : (UInt32.ofNat b).toNat = b := UInt32.toNat_ofNat_of_lt hb
    have hn8 : (UInt8.ofNat n).toNat = n := UInt8.toNat_ofNat_of_lt hn
    refine ⟨.inv texts eventId (.ofNat k) (.ofNat b) (.ofNat n), (rustDecode_inv_iff hhex).mpr
      ⟨texts, id, eventId, .ofNat k, .ofNat b, .ofNat n, ?_, ?_, ?_, hspells, ?_, rfl⟩⟩
    · rw [hk16, hb32, hn8]
      rfl
    · exact fun hnil => hvalid.ids_ne_nil (by rw [hnil, List.map_nil])
    · exact (List.nodup_map_iff codeUnits_injective).mp hvalid.ids_nodup
    · intro hzero
      rw [hzero] at hn8
      apply hvalid.hops_ne_zero
      rw [hnearest, ← hn8]
      rfl

/-- The TypeScript decoder accepts the valid inventories with an event id in lowercase. -/
theorem ts_accepts_inventory_iff :
    (∃ message, TypeScript.decodeWireMessage decodeOther
        (Json.inventory ids id kind bytes hops).parse = .ok message) ↔
      ValidInventory ids id kind bytes hops ∧ Lowercase id := by
  constructor
  · rintro ⟨message, h⟩
    obtain ⟨ids', eventId, kind', bytes', hops', k, b, n, heq, hnonempty, hnodup, hk, hb, hn, hne, -⟩ :=
      TypeScript.decodeWireMessage_inv_iff.mp h
    obtain ⟨rfl, rfl, rfl, rfl, rfl⟩ := inventory_inj heq
    have hspells := spellsId_toHex eventId
    refine ⟨⟨hnonempty, hnodup, exists_spellsId_iff.mp ⟨eventId, hspells⟩, ⟨k, hk⟩, ⟨b, hb⟩, ⟨n, hn⟩,
      ?_⟩, hspells.lowercase_iff.mpr rfl⟩
    rw [hn.2]
    intro hzero
    exact hne (by exact_mod_cast Option.some.inj hzero)
  · rintro ⟨hvalid, hlower⟩
    obtain ⟨eventId, hspells⟩ := exists_spellsId_iff.mpr hvalid.id_spellsEventId
    obtain rfl := hspells.lowercase_iff.mp hlower
    obtain ⟨k, hk⟩ := hvalid.kind_inRange
    obtain ⟨b, hb⟩ := hvalid.bytes_inRange
    obtain ⟨n, hn⟩ := hvalid.hops_inRange
    refine ⟨_, TypeScript.decodeWireMessage_inv_iff.mpr ⟨ids, eventId, kind, bytes, hops, k, b, n, rfl,
      hvalid.ids_ne_nil, hvalid.ids_nodup, hk, hb, hn, ?_, rfl⟩⟩
    rintro rfl
    exact hvalid.hops_ne_zero (hn.2.trans (by rw [Nat.cast_zero]))

/-- The Rust decoder accepts a want whose id is in either case. -/
theorem rust_accepts_wanted_iff (hhex : json.ReadsHex) :
    (∃ message : FipsPubsubWireMessage nostr,
        (Json.wanted id).rustDecode json floats = some message) ↔ SpellsEventId id := by
  rw [← exists_spellsId_iff]
  constructor
  · rintro ⟨message, h⟩
    obtain ⟨units, eventId, heq, hspells, -⟩ := (rustDecode_want_iff hhex).mp h
    cases heq
    exact ⟨eventId, hspells⟩
  · rintro ⟨eventId, hspells⟩
    exact ⟨_, (rustDecode_want_iff hhex).mpr ⟨id, eventId, rfl, hspells, rfl⟩⟩

/-- The TypeScript decoder accepts a want whose id is in lowercase. -/
theorem ts_accepts_wanted_iff :
    (∃ message, TypeScript.decodeWireMessage decodeOther (Json.wanted id).parse = .ok message) ↔
      SpellsEventId id ∧ Lowercase id := by
  constructor
  · rintro ⟨message, h⟩
    obtain ⟨eventId, heq, -⟩ := TypeScript.decodeWireMessage_want_iff.mp h
    cases heq
    have hspells := spellsId_toHex eventId
    exact ⟨exists_spellsId_iff.mp ⟨eventId, hspells⟩, hspells.lowercase_iff.mpr rfl⟩
  · rintro ⟨hvalid, hlower⟩
    obtain ⟨eventId, hspells⟩ := exists_spellsId_iff.mpr hvalid
    obtain rfl := hspells.lowercase_iff.mp hlower
    exact ⟨_, TypeScript.decodeWireMessage_want_iff.mpr ⟨eventId, rfl, rfl⟩⟩

/-- What both decoders make of an inventory is the same. -/
theorem sameMessage_inventory (hhex : json.ReadsHex) {message : FipsPubsubWireMessage nostr}
    {message' : TypeScript.FipsPubsubWireMessage} {fields : List Json}
    (hrust : (Json.array (.string (codeUnits "INV") :: fields)).rustDecode json floats = some message)
    (hts : TypeScript.decodeWireMessage decodeOther
      (Json.array (.string (codeUnits "INV") :: fields)).parse = .ok message') :
    SameMessage message message' := by
  obtain ⟨texts, units, eventId, k, b, n, heq, -, -, hspells, -, rfl⟩ :=
    (rustDecode_inv_iff hhex).mp hrust
  obtain ⟨ids, eventId', kind, bytes, hops, k', b', n', heq', -, -, hk', hb', hn', -, rfl⟩ :=
    TypeScript.decodeWireMessage_inv_iff.mp hts
  obtain ⟨rfl, rfl, rfl, rfl, rfl⟩ := inventory_inj (heq.symm.trans heq')
  rw [NumberLiteral.value_plain] at hk' hb' hn'
  rw [Binary64.nearest_natCast (k.toNat_lt.trans (by decide))] at hk'
  rw [Binary64.nearest_natCast (b.toNat_lt.trans (by decide))] at hb'
  rw [Binary64.nearest_natCast (n.toNat_lt.trans (by decide))] at hn'
  refine ⟨rfl, ?_, (Option.some.inj hk'.2).symm, (Option.some.inj hb'.2).symm,
    (Option.some.inj hn'.2).symm⟩
  rw [hspells.unique (spellsId_toHex eventId')]

/-- What both decoders make of a want is the same. -/
theorem sameMessage_wanted (hhex : json.ReadsHex) {message : FipsPubsubWireMessage nostr}
    {message' : TypeScript.FipsPubsubWireMessage} {fields : List Json}
    (hrust : (Json.array (.string (codeUnits "WANT") :: fields)).rustDecode json floats
      = some message)
    (hts : TypeScript.decodeWireMessage decodeOther
      (Json.array (.string (codeUnits "WANT") :: fields)).parse = .ok message') :
    SameMessage message message' := by
  obtain ⟨units, eventId, heq, hspells, rfl⟩ := (rustDecode_want_iff hhex).mp hrust
  obtain ⟨eventId', heq', rfl⟩ := TypeScript.decodeWireMessage_want_iff.mp hts
  have hunits : Json.wanted units = .wanted (codeUnits eventId'.toHex) := heq.symm.trans heq'
  cases hunits
  show codeUnits eventId'.toHex = codeUnits eventId.toHex
  rw [hspells.unique (spellsId_toHex eventId')]

theorem spellingsAgree_inventory_iff :
    (Json.inventory ids id kind bytes hops).SpellingsAgree ↔
      (ValidInventory ids id kind bytes hops → (PlainInventory ids kind bytes hops ↔ Lowercase id)) := by
  constructor
  · intro h
    exact h.1 ids id kind bytes hops rfl
  · intro h
    refine ⟨?_, ?_⟩
    · intro ids' id' kind' bytes' hops' heq
      obtain ⟨rfl, rfl, rfl, rfl, rfl⟩ := inventory_inj heq
      exact h
    · intro id' heq
      cases heq

theorem spellingsAgree_wanted_iff :
    (Json.wanted id).SpellingsAgree ↔ (SpellsEventId id → Lowercase id) := by
  constructor
  · intro h
    exact h.2 id rfl
  · intro h
    refine ⟨?_, ?_⟩
    · intro ids' id' kind' bytes' hops' heq
      cases heq
    · intro id' heq
      cases heq
      exact h

/-- The two decoders accept the same of the inventories and wants exactly if the spellings agree. -/
theorem accepts_iff_spellingsAgree (hhex : json.ReadsHex) {value : Json} (hkind : value.IsInvWant) :
    ((∃ message : FipsPubsubWireMessage nostr, value.rustDecode json floats = some message) ↔
      ∃ message, TypeScript.decodeWireMessage decodeOther value.parse = .ok message) ↔
      value.SpellingsAgree := by
  obtain ⟨_, fields, rfl, rfl | rfl⟩ := hkind
  · by_cases hshape : ∃ ids id kind bytes hops,
        Json.array (.string (codeUnits "INV") :: fields) = .inventory ids id kind bytes hops
    · obtain ⟨ids, id, kind, bytes, hops, heq⟩ := hshape
      rw [heq, rust_accepts_inventory_iff hhex, ts_accepts_inventory_iff,
        spellingsAgree_inventory_iff]
      tauto
    · -- neither decoder accepts an array of another shape
      have hrust : ¬∃ message : FipsPubsubWireMessage nostr,
          (Json.array (.string (codeUnits "INV") :: fields)).rustDecode json floats
            = some message := by
        rintro ⟨message, h⟩
        obtain ⟨_, _, _, _, _, _, heq, -⟩ := (rustDecode_inv_iff hhex).mp h
        exact hshape ⟨_, _, _, _, _, heq⟩
      have hts : ¬∃ message, TypeScript.decodeWireMessage decodeOther
          (Json.array (.string (codeUnits "INV") :: fields)).parse = .ok message := by
        rintro ⟨message, h⟩
        obtain ⟨_, _, _, _, _, _, _, _, heq, -⟩ := TypeScript.decodeWireMessage_inv_iff.mp h
        exact hshape ⟨_, _, _, _, _, heq⟩
      refine iff_of_true (iff_of_false hrust hts) ⟨?_, ?_⟩
      · intro ids id kind bytes hops heq
        exact absurd ⟨ids, id, kind, bytes, hops, heq⟩ hshape
      · intro id heq
        cases heq
  · by_cases hshape : ∃ id, Json.array (.string (codeUnits "WANT") :: fields) = .wanted id
    · obtain ⟨id, heq⟩ := hshape
      rw [heq, rust_accepts_wanted_iff hhex, ts_accepts_wanted_iff, spellingsAgree_wanted_iff]
      tauto
    · -- nor of a want
      have hrust : ¬∃ message : FipsPubsubWireMessage nostr,
          (Json.array (.string (codeUnits "WANT") :: fields)).rustDecode json floats
            = some message := by
        rintro ⟨message, h⟩
        obtain ⟨_, _, heq, -⟩ := (rustDecode_want_iff hhex).mp h
        exact hshape ⟨_, heq⟩
      have hts : ¬∃ message, TypeScript.decodeWireMessage decodeOther
          (Json.array (.string (codeUnits "WANT") :: fields)).parse = .ok message := by
        rintro ⟨message, h⟩
        obtain ⟨_, heq, -⟩ := TypeScript.decodeWireMessage_want_iff.mp h
        exact hshape ⟨_, heq⟩
      refine iff_of_true (iff_of_false hrust hts) ⟨?_, ?_⟩
      · intro ids id kind bytes hops heq
        cases heq
      · intro id heq
        exact absurd ⟨id, heq⟩ hshape

end Agreement

/-! ## Frames -/

/-- The frame spells the JSON value, as `serde_json` and `JSON.parse` read it. -/
structure Spells (json : NostrJson) (floats : NumberLiteral → Option ℚ)
    (parse : Frame → Except String JsValue) (frame : Frame) (value : Json) : Prop where
  frame_ne_nil : frame ≠ []
  fromSlice_eq : (json.fromSlice frame).toOption = value.serdeValue floats serdeDepth
  parse_eq : parse frame = .ok value.parse

section Frames

variable {nostr : NostrCrate} {json : NostrJson} {floats : NumberLiteral → Option ℚ}
  {decodeOther : List JsValue → Except PubsubError TypeScript.FipsPubsubWireMessage}
  {parse : Frame → Except String JsValue} {frame : Frame} {value : Json}
  {codec : FipsPubsubWireCodec}

theorem checkFrameSize_eq_ok {count : ℕ} {done : Unit} :
    codec.checkFrameSize count = .ok done ↔ count ≤ codec.maxFrameBytes := by
  unfold FipsPubsubWireCodec.checkFrameSize
  split
  · next hlarge => simp [hlarge]
  · next hsmall => simpa using hsmall

theorem Spells.decodeFrame_eq_ok (h : Spells json floats parse frame value)
    {message : FipsPubsubWireMessage nostr} :
    codec.decodeFrame json frame = .ok message ↔
      frame.length ≤ codec.maxFrameBytes ∧ value.rustDecode json floats = some message := by
  rw [Json.rustDecode, ← h.fromSlice_eq]
  unfold FipsPubsubWireCodec.decodeFrame
  rw [Except.bind_eq_ok]
  simp only [checkFrameSize_eq_ok, if_neg h.frame_ne_nil]
  cases json.fromSlice frame with
  | error error => simp [Except.toOption, throw, throwThe, MonadExceptOf.throw]
  | ok read =>
    show (∃ _ : Unit, _ ∧ _) ↔ _ ∧ (decodeValue json read).toOption = some message
    rw [Except.toOption_eq_some]
    simp

theorem Spells.tsDecodeFrame_eq_ok (h : Spells json floats parse frame value)
    {message : TypeScript.FipsPubsubWireMessage} :
    TypeScript.decodeFrame decodeOther parse codec frame = .ok message ↔
      frame.length ≤ codec.maxFrameBytes ∧
        TypeScript.decodeWireMessage decodeOther value.parse = .ok message := by
  unfold TypeScript.decodeFrame
  rw [Except.bind_eq_ok]
  simp only [checkFrameSize_eq_ok, if_neg h.frame_ne_nil, h.parse_eq]
  simp

/-- The two decoders accept the same frames of inventories and wants, and read the same from them,
exactly if the frames that fit in the limit spell them alike. -/
theorem decoders_agree_iff (hhex : json.ReadsHex) (hspells : Spells json floats parse frame value)
    (hkind : value.IsInvWant) (codec : FipsPubsubWireCodec) :
    (((∃ message : FipsPubsubWireMessage nostr, codec.decodeFrame json frame = .ok message) ↔
        ∃ message, TypeScript.decodeFrame decodeOther parse codec frame = .ok message) ∧
      ∀ (message : FipsPubsubWireMessage nostr) (message' : TypeScript.FipsPubsubWireMessage),
        codec.decodeFrame json frame = .ok message →
          TypeScript.decodeFrame decodeOther parse codec frame = .ok message' →
            SameMessage message message') ↔
      (frame.length ≤ codec.maxFrameBytes → value.SpellingsAgree) := by
  simp only [hspells.decodeFrame_eq_ok, hspells.tsDecodeFrame_eq_ok, exists_and_left]
  constructor
  · rintro ⟨haccepts, -⟩ hsize
    simp only [hsize, true_and] at haccepts
    exact (accepts_iff_spellingsAgree hhex hkind).mp haccepts
  · intro hagree
    refine ⟨?_, ?_⟩
    · by_cases hsize : frame.length ≤ codec.maxFrameBytes
      · simp only [hsize, true_and]
        exact (accepts_iff_spellingsAgree hhex hkind).mpr (hagree hsize)
      · simp only [hsize, false_and]
    · rintro message message' ⟨-, hrust⟩ ⟨-, hts⟩
      obtain ⟨_, fields, rfl, rfl | rfl⟩ := hkind
      · exact sameMessage_inventory hhex hrust hts
      · exact sameMessage_wanted hhex hrust hts

end Frames

/-! ## A want in uppercase -/

/-- The value of a hexadecimal digit, in either case. -/
def hexValue (c : Char) : Option ℕ := (List.range 16).find? fun k => hexDigit k = c.toLower

/-- The bytes of hexadecimal digits, in either case. -/
def readHex : List Char → Option (List UInt8)
  | [] => some []
  | [_] => none
  | high :: low :: rest => do
    let high ← hexValue high
    let low ← hexValue low
    let bytes ← readHex rest
    return .ofNat (16 * high + low) :: bytes

theorem hexValue_eq_some {c : Char} {k : ℕ} :
    hexValue c = some k ↔ k < 16 ∧ c.toLower = hexDigit k := by
  unfold hexValue
  constructor
  · intro h
    have hlt := List.mem_range.mp (List.mem_of_find?_eq_some h)
    have hdigit := List.find?_some h
    exact ⟨hlt, (of_decide_eq_true hdigit).symm⟩
  · rintro ⟨hlt, hdigit⟩
    cases hfind : (List.range 16).find? fun k => hexDigit k = c.toLower with
    | none =>
      have hnone := List.find?_eq_none.mp hfind k (List.mem_range.mpr hlt)
      rw [hdigit] at hnone
      simp at hnone
    | some j =>
      have hj := List.mem_range.mp (List.mem_of_find?_eq_some hfind)
      have hsome := List.find?_some hfind
      have hsame : hexDigit j = c.toLower := of_decide_eq_true hsome
      rw [hexDigit_injOn hj hlt (hsame.trans hdigit)]

theorem readHex_eq_some {text : List Char} {bytes : List UInt8} :
    readHex text = some bytes ↔ text.map Char.toLower = bytes.flatMap hexByte := by
  induction text using readHex.induct generalizing bytes with
  | case1 => cases bytes <;> simp [readHex, hexByte]
  | case2 c => cases bytes <;> simp [readHex, hexByte]
  | case3 high low rest ih =>
    rw [readHex]
    constructor
    · intro h
      obtain ⟨i, hi, h⟩ := Option.bind_eq_some_iff.mp h
      obtain ⟨j, hj, h⟩ := Option.bind_eq_some_iff.mp h
      obtain ⟨later, hlater, h⟩ := Option.bind_eq_some_iff.mp h
      cases h
      obtain ⟨hi, hhigh⟩ := hexValue_eq_some.mp hi
      obtain ⟨hj, hlow⟩ := hexValue_eq_some.mp hj
      have hvalue : (UInt8.ofNat (16 * i + j)).toNat = 16 * i + j :=
        UInt8.toNat_ofNat_of_lt (show 16 * i + j < 256 by omega)
      have hdiv : (16 * i + j) / 16 = i := by omega
      have hmod : (16 * i + j) % 16 = j := by omega
      rw [List.flatMap_cons, hexByte, hvalue, hdiv, hmod, ← hhigh, ← hlow, ← ih.mp hlater]
      rfl
    · intro h
      cases bytes with
      | nil => simp at h
      | cons byte later =>
        have hlt := byte.toNat_lt
        simp only [List.map_cons, List.flatMap_cons, hexByte, List.cons_append, List.nil_append,
          List.cons.injEq] at h
        obtain ⟨hhigh, hlow, hrest⟩ := h
        refine Option.bind_eq_some_iff.mpr ⟨_, hexValue_eq_some.mpr ⟨by omega, hhigh⟩,
          Option.bind_eq_some_iff.mpr ⟨_, hexValue_eq_some.mpr ⟨by omega, hlow⟩,
          Option.bind_eq_some_iff.mpr ⟨later, ih.mpr hrest, ?_⟩⟩⟩
        have hbyte : 16 * (byte.toNat / 16) + byte.toNat % 16 = byte.toNat := by omega
        rw [hbyte, UInt8.ofNat_toNat]
        rfl

/-- `EventId::from_hex`. -/
def eventIdFromHex (text : String) : Except String EventId :=
  match readHex text.toList with
  | some bytes =>
    if hlength : bytes.length = 32 then .ok ⟨bytes, hlength⟩ else .error "Invalid string length"
  | none => .error "Invalid character"

/-- `JSON.parse` and `serde_json::from_slice` as they read one frame. -/
def frameJson (frame : Frame) (value : Value) : NostrJson where
  fromSlice bytes := if bytes = frame then .ok value else .error "expected value at line 1 column 1"
  toBytes _ := frame
  filterValue _ := .object []
  eventValue _ := .object []
  clientFromValue _ := .error "Invalid message format"
  relayFromValue _ := .error "Invalid message format"
  eventIdFromHex := eventIdFromHex

theorem frameJson_readsHex (frame : Frame) (value : Value) : (frameJson frame value).ReadsHex := by
  intro text eventId
  show eventIdFromHex text = .ok eventId ↔ _
  rw [EventId.toHex, String.toList_ofList, ← readHex_eq_some]
  unfold eventIdFromHex
  cases readHex text.toList with
  | none => simp
  | some bytes =>
    simp only [Option.some.injEq]
    split
    · next hlength =>
      constructor
      · rintro ⟨⟩
        rfl
      · intro h
        exact congrArg Except.ok (List.Vector.toList_injective h)
    · next hlength =>
      constructor
      · intro h
        cases h
      · intro h
        rw [h, eventId.toList_length] at hlength
        exact absurd rfl hlength

/-- `JSON.parse` as it reads one frame. -/
def frameParse (frame : Frame) (value : Json) (bytes : Frame) : Except String JsValue :=
  if bytes = frame then .ok value.parse else .error "Unexpected token"

theorem spells_frameJson {frame : Frame} {value : Json} {read : Value} (hframe : frame ≠ [])
    (hread : value.serdeValue (fun literal => Binary64.nearest literal.value) serdeDepth = some read) :
    Spells (frameJson frame read) (fun literal => Binary64.nearest literal.value)
      (frameParse frame value) frame value := by
  refine ⟨hframe, ?_, if_pos rfl⟩
  rw [hread]
  show ((if frame = frame then .ok read else .error _ : Except String Value)).toOption = _
  rw [if_pos rfl]
  rfl

/-- The two decoders agree on a frame that the encoder of either emits. -/
theorem decoders_agree_iff_fourHops :
    ∃ (frame : Frame) (value : Json) (read : Value),
      (frameJson frame read).ReadsHex ∧ value.IsInvWant ∧
      Spells (frameJson frame read) (fun literal => Binary64.nearest literal.value)
        (frameParse frame value) frame value ∧
      ((∃ message : FipsPubsubWireMessage noteCrate,
          (FipsPubsubWireCodec.mk 1024 (by decide)).decodeFrame (frameJson frame read) frame
            = .ok message) ↔
        ∃ message, TypeScript.decodeFrame (fun _ => .ok .other) (frameParse frame value)
          (FipsPubsubWireCodec.mk 1024 (by decide)) frame = .ok message) := by
  have hread : (Json.inventory (["live"].map codeUnits) (codeUnits noteA.id.toHex) (.plain 1)
      (.plain 10) (.plain 4)).serdeValue (fun literal => Binary64.nearest literal.value) serdeDepth
        = some (noteInventoryValue 4) :=
    serdeValue_eq_inventory.mpr ⟨rfl, by decide, by decide, by decide⟩
  have hframe : inventoryBytes (noteInventoryValue 4) ≠ [] := by decide +kernel
  have hspells := spells_frameJson hframe hread
  have hhex := frameJson_readsHex (inventoryBytes (noteInventoryValue 4)) (noteInventoryValue 4)
  have hkind : (Json.inventory (["live"].map codeUnits) (codeUnits noteA.id.toHex) (.plain 1)
      (.plain 10) (.plain 4)).IsInvWant := ⟨_, _, rfl, Or.inl rfl⟩
  refine ⟨_, _, _, hhex, hkind, hspells,
    ((decoders_agree_iff hhex hspells hkind _).mpr fun _ => ?_).1⟩
  refine spellingsAgree_inventory_iff.mpr fun _ => iff_of_true ?_ ?_
  · refine ⟨?_, ⟨rfl, rfl, rfl⟩, ⟨rfl, rfl, rfl⟩, ⟨rfl, rfl, rfl⟩⟩
    intro units hunits
    obtain ⟨text, -, rfl⟩ := List.mem_map.mp hunits
    rw [codeUnits, Utf16.decode_encode]
    exact Option.some_ne_none _
  · exact (spellsId_toHex noteA.id).lowercase_iff.mpr rfl

/-- The id of the first note with uppercase letters. -/
def noteUpperId : String := noteA.id.toHex.map Char.toUpper

/-- It spells the id of the first note. -/
theorem spellsId_noteUpperId : SpellsId (codeUnits noteUpperId) noteA.id := by
  refine ⟨noteUpperId.toList, rfl, ?_⟩
  rw [noteUpperId, String.toList_map]
  decide +kernel

/-- Another spelling than the lowercase one. -/
theorem noteUpperId_ne : noteUpperId ≠ noteA.id.toHex := by
  intro h
  have hlist := congrArg String.toList h
  rw [noteUpperId, String.toList_map] at hlist
  revert hlist
  decide +kernel

/-- A want in uppercase. -/
def upperWant : Json := .wanted (codeUnits noteUpperId)

/-- The frame of `upperWant`. -/
def upperWantFrame : Frame := utf8Bytes s!"[\"WANT\",\"{noteUpperId}\"]"

/-- What `serde_json` reads from the frame of `upperWant`. -/
def upperWantValue : Value := .array [.string "WANT", .string noteUpperId]

/-- The Rust decoder accepts a want in uppercase, and the TypeScript decoder refuses it. -/
theorem upperWant_divides :
    (frameJson upperWantFrame upperWantValue).ReadsHex ∧ upperWant.IsInvWant ∧
    Spells (frameJson upperWantFrame upperWantValue) (fun literal => Binary64.nearest literal.value)
      (frameParse upperWantFrame upperWant) upperWantFrame upperWant ∧
    (FipsPubsubWireCodec.mk 1024 (by decide)).decodeFrame
      (frameJson upperWantFrame upperWantValue) upperWantFrame
        = .ok (.want noteA.id : FipsPubsubWireMessage noteCrate) ∧
    (TypeScript.decodeFrame (fun _ => .ok .other) (frameParse upperWantFrame upperWant)
      (FipsPubsubWireCodec.mk 1024 (by decide)) upperWantFrame).toOption.isNone := by
  have hread : upperWant.serdeValue (fun literal => Binary64.nearest literal.value) serdeDepth
      = some upperWantValue := serdeValue_eq_wanted.mpr rfl
  have hsize : upperWantFrame ≠ [] ∧ upperWantFrame.length ≤ 1024 := by decide +kernel
  have hhex := frameJson_readsHex upperWantFrame upperWantValue
  have hspells := spells_frameJson hsize.1 hread
  refine ⟨hhex, ⟨_, _, rfl, Or.inr rfl⟩, hspells, ?_, ?_⟩
  · exact hspells.decodeFrame_eq_ok.mpr ⟨hsize.2,
      (rustDecode_want_iff hhex).mpr ⟨_, noteA.id, rfl, spellsId_noteUpperId, rfl⟩⟩
  · -- the TypeScript decoder takes the lowercase spelling of an id alone
    cases hdecode : TypeScript.decodeFrame (fun _ => .ok .other) (frameParse upperWantFrame upperWant)
      (FipsPubsubWireCodec.mk 1024 (by decide)) upperWantFrame with
    | error error => rfl
    | ok message =>
      obtain ⟨-, hwire⟩ := hspells.tsDecodeFrame_eq_ok.mp hdecode
      obtain ⟨eventId, heq, -⟩ := TypeScript.decodeWireMessage_want_iff.mp hwire
      have hunits : codeUnits noteUpperId = codeUnits eventId.toHex := wanted_inj heq
      have hid := spellsId_noteUpperId
      rw [hunits] at hid
      rw [(spellsId_toHex eventId).unique hid] at hunits
      exact absurd (codeUnits_injective hunits) noteUpperId_ne
end NostrPubsub.Fips
