import Mathlib.Data.Rat.Defs
import NostrPubsub.Fips.Wire
import NostrPubsub.ToMathlib.Except

/-!
# The codec of FIPS frames

`FipsPubsubWireCodec` of `nostr-pubsub/src/wire.rs`: messages as JSON arrays that name their type
first.

The JSON values are those of `serde_json`. What is used of it and of the `nostr` crate is a
parameter, `NostrJson`; that it reads back what it writes is stated for one message at a time
(`NostrJson.RoundTrips`).
-/

namespace NostrPubsub.Fips

/-- `serde_json::Number`. -/
inductive Number where
  | posInt (n : ℕ)
  | negInt (n : ℤ)
  | float (value : ℚ)
  deriving DecidableEq

/-- `serde_json::Value`. -/
inductive Value where
  | null
  | bool (b : Bool)
  | number (n : Number)
  | string (text : String)
  | array (values : List Value)
  | object (fields : List (String × Value))

namespace Value

mutual

/-- Whether two values are the same. -/
def same : Value → Value → Bool
  | .null, .null => true
  | .bool a, .bool b => decide (a = b)
  | .number a, .number b => decide (a = b)
  | .string a, .string b => decide (a = b)
  | .array values, .array values' => sameValues values values'
  | .object fields, .object fields' => sameFields fields fields'
  | _, _ => false

def sameValues : List Value → List Value → Bool
  | [], [] => true
  | value :: values, value' :: values' => same value value' && sameValues values values'
  | _, _ => false

def sameFields : List (String × Value) → List (String × Value) → Bool
  | [], [] => true
  | (name, value) :: fields, (name', value') :: fields' =>
    decide (name = name') && same value value' && sameFields fields fields'
  | _, _ => false

end

mutual

theorem same_iff : ∀ value value' : Value, same value value' = true ↔ value = value'
  | .null, value' => by cases value' <;> simp [same]
  | .bool b, value' => by cases value' <;> simp [same]
  | .number n, value' => by cases value' <;> simp [same]
  | .string text, value' => by cases value' <;> simp [same]
  | .array values, value' => by
    cases value' with
    | array values' => simp [same, sameValues_iff values values']
    | _ => simp [same]
  | .object fields, value' => by
    cases value' with
    | object fields' => simp [same, sameFields_iff fields fields']
    | _ => simp [same]

theorem sameValues_iff :
    ∀ values values' : List Value, sameValues values values' = true ↔ values = values'
  | [], values' => by cases values' <;> simp [sameValues]
  | value :: values, values' => by
    cases values' with
    | nil => simp [sameValues]
    | cons value' values' =>
      simp [sameValues, same_iff value value', sameValues_iff values values']

theorem sameFields_iff :
    ∀ fields fields' : List (String × Value), sameFields fields fields' = true ↔ fields = fields'
  | [], fields' => by cases fields' <;> simp [sameFields]
  | (name, value) :: fields, fields' => by
    cases fields' with
    | nil => simp [sameFields]
    | cons field' fields' =>
      simp [sameFields, same_iff value field'.2, sameFields_iff fields fields', Prod.ext_iff,
        and_assoc]

end

instance : DecidableEq Value := fun value value' => decidable_of_iff _ (same_iff value value')

/-- `Value::as_array`. -/
def asArray : Value → Option (List Value)
  | .array values => some values
  | _ => none

/-- `Value::as_str`. -/
def asStr : Value → Option String
  | .string text => some text
  | _ => none

/-- `Value::as_u64`. -/
def asU64 : Value → Option ℕ
  | .number (.posInt n) => some n
  | _ => none

/-- A number of `json!`, from an unsigned integer. -/
def nat (n : ℕ) : Value := .number (.posInt n)

theorem eq_string_of_asStr {value : Value} {text : String} (h : value.asStr = some text) :
    value = .string text := by
  cases value <;> cases h
  rfl

theorem eq_nat_of_asU64 {value : Value} {n : ℕ} (h : value.asU64 = some n) : value = .nat n := by
  cases value with
  | number number =>
    cases number <;> cases h
    rfl
  | null => cases h
  | bool _ => cases h
  | string _ => cases h
  | array _ => cases h
  | object _ => cases h

end Value

/-- `nostr::ClientMessage`, as far as it is looked at. -/
inductive ClientMessage where
  | req (subscriptionId : String) (filters : List WireFilter)
  | close (subscriptionId : String)
  | event (event : Event)
  | other
  deriving DecidableEq

/-- `nostr::RelayMessage`, as far as it is looked at. -/
inductive RelayMessage where
  | event (subscriptionId : String) (event : Event)
  | ok (eventId : EventId) (status : Bool) (message : String)
  | other
  deriving DecidableEq

/-- What the codec uses of `serde_json` and of the `nostr` crate. -/
structure NostrJson where
  /-- `serde_json::from_slice`. -/
  fromSlice : Frame → Except String Value
  /-- `Value::to_string`, as bytes. -/
  toBytes : Value → Frame
  /-- The JSON form of a filter. -/
  filterValue : WireFilter → Value
  /-- The JSON form of an event. -/
  eventValue : Event → Value
  /-- `ClientMessage::from_value`. -/
  clientFromValue : Value → Except String ClientMessage
  /-- `RelayMessage::from_value`. -/
  relayFromValue : Value → Except String RelayMessage
  /-- `EventId::from_hex`. -/
  eventIdFromHex : String → Except String EventId

/-- `invalid_frame`. -/
def invalidFrame (message : String) : PubsubError :=
  .validation s!"invalid FIPS pubsub frame: {message}"

/-- `FipsPubsubWireCodec`. -/
structure FipsPubsubWireCodec where
  maxFrameBytes : ℕ
  maxFrameBytes_pos : 0 < maxFrameBytes

variable {nostr : NostrCrate} (json : NostrJson)

/-! ## Encoding -/

/-- The JSON array of a message. -/
def FipsPubsubWireMessage.toValue : FipsPubsubWireMessage nostr → Value
  | .req subscriptionId filters =>
    .array (.string "REQ" :: .string subscriptionId :: filters.map json.filterValue)
  | .close subscriptionId => .array [.string "CLOSE", .string subscriptionId]
  | .event none verified => .array [.string "EVENT", json.eventValue verified.event]
  | .event (some subscriptionId) verified =>
    .array [.string "EVENT", .string subscriptionId, json.eventValue verified.event]
  | .ok eventId accepted message =>
    .array [.string "OK", .string eventId.toHex, .bool accepted, .string message]
  | .inv subscriptionIds eventId eventKind payloadBytes hopLimit =>
    .array [.string "INV", .array (subscriptionIds.map .string), .string eventId.toHex,
      .nat eventKind.toNat, .nat payloadBytes.toNat, .nat hopLimit.toNat]
  | .want eventId => .array [.string "WANT", .string eventId.toHex]

/-- `check_frame_size`. -/
def FipsPubsubWireCodec.checkFrameSize (codec : FipsPubsubWireCodec) (frameBytes : ℕ) :
    Except PubsubError Unit :=
  if codec.maxFrameBytes < frameBytes then
    .error (invalidFrame s!"frame has {frameBytes} bytes, limit is {codec.maxFrameBytes}")
  else .ok ()

/-- `encode_frame`. -/
def FipsPubsubWireCodec.encodeFrame (codec : FipsPubsubWireCodec)
    (message : FipsPubsubWireMessage nostr) : Except PubsubError Frame := do
  let frame := json.toBytes (message.toValue json)
  codec.checkFrameSize frame.length
  return frame

/-! ## Decoding -/

/-- `message_error`. -/
def orMessageError {α : Type} : Except String α → Except PubsubError α
  | .ok value => .ok value
  | .error error => .error (invalidFrame error)

/-- `decode_req`. -/
def decodeReq (value : Value) : Except PubsubError (FipsPubsubWireMessage nostr) := do
  match ← orMessageError (json.clientFromValue value) with
  | .req subscriptionId filters => return .req subscriptionId filters
  | _ => throw (invalidFrame "expected REQ message")

/-- `decode_close`. -/
def decodeClose (value : Value) : Except PubsubError (FipsPubsubWireMessage nostr) := do
  match ← orMessageError (json.clientFromValue value) with
  | .close subscriptionId => return .close subscriptionId
  | _ => throw (invalidFrame "expected CLOSE message")

/-- `decode_published_event`. -/
def decodePublishedEvent (value : Value) : Except PubsubError (FipsPubsubWireMessage nostr) := do
  match ← orMessageError (json.clientFromValue value) with
  | .event event => return .event none (← VerifiedEvent.tryFrom nostr event)
  | _ => throw (invalidFrame "expected client EVENT message")

/-- `decode_delivered_event`. -/
def decodeDeliveredEvent (value : Value) : Except PubsubError (FipsPubsubWireMessage nostr) := do
  match ← orMessageError (json.relayFromValue value) with
  | .event subscriptionId event =>
    return .event (some subscriptionId) (← VerifiedEvent.tryFrom nostr event)
  | _ => throw (invalidFrame "expected subscription EVENT message")

/-- The branch of `decode_frame` for `OK`. -/
def decodeOk (value : Value) : Except PubsubError (FipsPubsubWireMessage nostr) := do
  match ← orMessageError (json.relayFromValue value) with
  | .ok eventId status message => return .ok eventId status message
  | _ => throw (invalidFrame "expected OK message")

/-- The loop of `decode_subscription_ids`, with the ids seen so far. -/
def collectSubscriptionIds (seen : List String) : List Value → Except PubsubError (List String)
  | [] => .ok []
  | value :: rest =>
    match value.asStr with
    | none => .error (invalidFrame "INV subscription id must be a string")
    | some id =>
      if id ∈ seen then .error (invalidFrame "INV subscription ids must be unique")
      else do
        let ids ← collectSubscriptionIds (id :: seen) rest
        return id :: ids

/-- `decode_subscription_ids`. -/
def decodeSubscriptionIds (fields : List Value) (index : ℕ) : Except PubsubError (List String) :=
  match fields[index]?.bind Value.asArray with
  | none => .error (invalidFrame "INV subscription ids must be an array")
  | some [] => .error (invalidFrame "INV requires at least one subscription id")
  | some values => collectSubscriptionIds [] values

/-- `decode_event_id`. -/
def decodeEventId (fields : List Value) (index : ℕ) (messageType : String) :
    Except PubsubError EventId :=
  match fields[index]?.bind Value.asStr with
  | none => .error (invalidFrame s!"{messageType} event id must be a string")
  | some text =>
    match json.eventIdFromHex text with
    | .ok eventId => .ok eventId
    | .error error => .error (invalidFrame s!"{messageType} event id is invalid: {error}")

/-- `decode_unsigned`, for the type whose greatest value is `max`. -/
def decodeUnsigned (max : ℕ) (fields : List Value) (index : ℕ) (name : String) :
    Except PubsubError ℕ :=
  match fields[index]?.bind Value.asU64 with
  | none => .error (invalidFrame s!"{name} must be an unsigned integer")
  | some value =>
    if value ≤ max then .ok value else .error (invalidFrame s!"{name} is out of range")

/-- `decode_inv`. -/
def decodeInv (fields : List Value) : Except PubsubError (FipsPubsubWireMessage nostr) := do
  let subscriptionIds ← decodeSubscriptionIds fields 1
  let eventId ← decodeEventId json fields 2 "INV"
  let eventKind ← decodeUnsigned 65535 fields 3 "INV event kind"
  let payloadBytes ← decodeUnsigned 4294967295 fields 4 "INV payload bytes"
  let hopLimit ← decodeUnsigned 255 fields 5 "INV hop limit"
  if hopLimit = 0 then throw (invalidFrame "INV hop limit must be greater than zero")
  else return .inv subscriptionIds eventId (.ofNat eventKind) (.ofNat payloadBytes) (.ofNat hopLimit)

/-- `decode_want`. -/
def decodeWant (fields : List Value) : Except PubsubError (FipsPubsubWireMessage nostr) := do
  return .want (← decodeEventId json fields 1 "WANT")

/-- The dispatch of `decode_frame` on the type of the message and the number of its fields. -/
def decodeFields (messageType : String) (fields : List Value) :
    Except PubsubError (FipsPubsubWireMessage nostr) :=
  let value := Value.array fields
  match messageType with
  | "REQ" =>
    if 3 ≤ fields.length then decodeReq json value
    else .error (invalidFrame "REQ requires an id and at least one filter")
  | "CLOSE" =>
    if fields.length = 2 then decodeClose json value
    else .error (invalidFrame "CLOSE requires exactly an id")
  | "EVENT" =>
    if fields.length = 2 then decodePublishedEvent json value
    else if fields.length = 3 then decodeDeliveredEvent json value
    else .error (invalidFrame "EVENT requires an event and optional subscription id")
  | "OK" =>
    if fields.length = 4 then decodeOk json value
    else .error (invalidFrame "unsupported Nostr message type OK")
  | "INV" =>
    if fields.length = 6 then decodeInv json fields
    else .error (invalidFrame
      "INV requires subscription ids, event id, kind, byte size, and hop limit")
  | "WANT" =>
    if fields.length = 2 then decodeWant json fields
    else .error (invalidFrame "WANT requires exactly an event id")
  | other => .error (invalidFrame s!"unsupported Nostr message type {other}")

/-- `decode_frame` after the JSON was read. -/
def decodeValue (value : Value) : Except PubsubError (FipsPubsubWireMessage nostr) :=
  match value.asArray with
  | none => .error (invalidFrame "message must be a JSON array")
  | some fields =>
    match fields.head?.bind Value.asStr with
    | none => .error (invalidFrame "message type must be a string")
    | some messageType => decodeFields json messageType fields

/-- `decode_frame`. -/
def FipsPubsubWireCodec.decodeFrame (codec : FipsPubsubWireCodec) (frame : Frame) :
    Except PubsubError (FipsPubsubWireMessage nostr) := do
  codec.checkFrameSize frame.length
  if frame = [] then throw (invalidFrame "frame is empty")
  else
    match json.fromSlice frame with
    | .error error => throw (invalidFrame s!"invalid JSON: {error}")
    | .ok value => decodeValue json value

/-! ## What is accepted is well formed -/

/-- A request has a filter, and an inventory names subscriptions, each once, and has a hop left. -/
def FipsPubsubWireMessage.WellFormed : FipsPubsubWireMessage nostr → Prop
  | .req _ filters => filters ≠ []
  | .inv subscriptionIds _ _ _ hopLimit =>
    subscriptionIds ≠ [] ∧ subscriptionIds.Nodup ∧ hopLimit ≠ 0
  | _ => True

/-- `ClientMessage::from_value` reads every field of a request after the first two as a filter. -/
def NostrJson.ReadsFilters (json : NostrJson) : Prop :=
  ∀ fields subscriptionId filters, 3 ≤ fields.length →
    json.clientFromValue (.array fields) = .ok (.req subscriptionId filters) →
      filters.length + 2 = fields.length

section Accepted

variable {json : NostrJson} {message : FipsPubsubWireMessage nostr} {fields : List Value}

theorem orMessageError_eq_ok {α : Type} {result : Except String α} {value : α} :
    orMessageError result = .ok value ↔ result = .ok value := by
  cases result <;> simp [orMessageError]

theorem decodeReq_eq_ok {value : Value} (h : decodeReq json value = .ok message) :
    ∃ subscriptionId filters, json.clientFromValue value = .ok (.req subscriptionId filters) ∧
      message = .req subscriptionId filters := by
  obtain ⟨client, hclient, h⟩ := Except.bind_eq_ok.mp h
  rw [orMessageError_eq_ok] at hclient
  cases client with
  | req subscriptionId filters =>
    cases h
    exact ⟨subscriptionId, filters, hclient, rfl⟩
  | close _ => cases h
  | event _ => cases h
  | other => cases h

theorem decodeClose_eq_ok {value : Value} (h : decodeClose json value = .ok message) :
    ∃ subscriptionId, message = .close subscriptionId := by
  obtain ⟨client, -, h⟩ := Except.bind_eq_ok.mp h
  cases client with
  | close subscriptionId =>
    cases h
    exact ⟨subscriptionId, rfl⟩
  | req _ _ => cases h
  | event _ => cases h
  | other => cases h

theorem decodePublishedEvent_eq_ok {value : Value}
    (h : decodePublishedEvent json value = .ok message) : ∃ verified, message = .event none verified := by
  obtain ⟨client, -, h⟩ := Except.bind_eq_ok.mp h
  cases client with
  | event event =>
    obtain ⟨verified, -, h⟩ := Except.bind_eq_ok.mp h
    cases h
    exact ⟨verified, rfl⟩
  | req _ _ => cases h
  | close _ => cases h
  | other => cases h

theorem decodeDeliveredEvent_eq_ok {value : Value}
    (h : decodeDeliveredEvent json value = .ok message) :
    ∃ subscriptionId verified, message = .event (some subscriptionId) verified := by
  obtain ⟨relay, -, h⟩ := Except.bind_eq_ok.mp h
  cases relay with
  | event subscriptionId event =>
    obtain ⟨verified, -, h⟩ := Except.bind_eq_ok.mp h
    cases h
    exact ⟨subscriptionId, verified, rfl⟩
  | ok _ _ _ => cases h
  | other => cases h

theorem decodeOk_eq_ok {value : Value} (h : decodeOk json value = .ok message) :
    ∃ eventId accepted text, message = .ok eventId accepted text := by
  obtain ⟨relay, -, h⟩ := Except.bind_eq_ok.mp h
  cases relay with
  | ok eventId accepted text =>
    cases h
    exact ⟨eventId, accepted, text, rfl⟩
  | event _ _ => cases h
  | other => cases h

/-- The loop collects the texts, if they are all texts and different from each other and from those
seen. -/
theorem collectSubscriptionIds_eq_ok {seen ids : List String} {values : List Value} :
    collectSubscriptionIds seen values = .ok ids ↔
      values = ids.map .string ∧ ids.Nodup ∧ ∀ id ∈ ids, id ∉ seen := by
  induction values generalizing seen ids with
  | nil =>
    rw [collectSubscriptionIds]
    constructor
    · rintro ⟨⟩
      simp
    · rintro ⟨hvalues, -⟩
      rw [List.map_eq_nil_iff.mp hvalues.symm]
  | cons value rest ih =>
    rw [collectSubscriptionIds]
    cases hstr : value.asStr with
    | none =>
      refine ⟨fun h => (nomatch h), ?_⟩
      rintro ⟨hvalues, -⟩
      obtain ⟨id, ids, rfl, rfl, -⟩ := List.map_eq_cons_iff.mp hvalues.symm
      cases hstr
    | some id =>
      obtain rfl := Value.eq_string_of_asStr hstr
      -- A repeated id is an error.
      by_cases hseen : id ∈ seen
      · simp only [if_pos hseen]
        refine ⟨fun h => (nomatch h), ?_⟩
        rintro ⟨hvalues, -, hnew⟩
        obtain ⟨id', ids, rfl, heq, -⟩ := List.map_eq_cons_iff.mp hvalues.symm
        cases heq
        exact absurd hseen (hnew id List.mem_cons_self)
      · simp only [if_neg hseen]
        constructor
        · intro h
          obtain ⟨later, hlater, h⟩ := Except.bind_eq_ok.mp h
          obtain ⟨hrest, hnodup, hnew⟩ := ih.mp hlater
          cases h
          refine ⟨congrArg _ hrest, List.nodup_cons.mpr ⟨fun hmem => hnew id hmem List.mem_cons_self, hnodup⟩, ?_⟩
          intro other hother
          rcases List.mem_cons.mp hother with rfl | hother
          · exact hseen
          · exact fun hmem => hnew other hother (List.mem_cons_of_mem id hmem)
        · rintro ⟨hvalues, hnodup, hnew⟩
          obtain ⟨id', ids, rfl, heq, hrest⟩ := List.map_eq_cons_iff.mp hvalues.symm
          cases heq
          obtain ⟨hfirst, hnodup⟩ := List.nodup_cons.mp hnodup
          refine Except.bind_eq_ok.mpr ⟨ids, ih.mpr ⟨hrest.symm, hnodup, ?_⟩, rfl⟩
          intro other hother hmem
          rcases List.mem_cons.mp hmem with rfl | hmem
          · exact hfirst hother
          · exact hnew other (List.mem_cons_of_mem _ hother) hmem

theorem decodeSubscriptionIds_eq_ok {index : ℕ} {ids : List String} :
    decodeSubscriptionIds fields index = .ok ids ↔
      fields[index]? = some (.array (ids.map .string)) ∧ ids ≠ [] ∧ ids.Nodup := by
  unfold decodeSubscriptionIds
  cases hfield : fields[index]? with
  | none => exact ⟨fun h => (nomatch h), fun h => (nomatch h.1)⟩
  | some value =>
    cases value with
    | array values =>
      cases values with
      | nil =>
        refine ⟨fun h => (nomatch h), ?_⟩
        rintro ⟨hvalues, hne, -⟩
        rw [Option.some.injEq, Value.array.injEq, List.nil_eq, List.map_eq_nil_iff] at hvalues
        exact absurd hvalues hne
      | cons value rest =>
        simp only [Option.bind_some, Value.asArray, Option.some.injEq, Value.array.injEq]
        rw [collectSubscriptionIds_eq_ok]
        constructor
        · rintro ⟨hvalues, hnodup, -⟩
          refine ⟨hvalues, ?_, hnodup⟩
          rintro rfl
          cases hvalues
        · rintro ⟨hvalues, -, hnodup⟩
          exact ⟨hvalues, hnodup, fun _ _ => List.not_mem_nil⟩
    | null => exact ⟨fun h => (nomatch h), fun h => (nomatch h.1)⟩
    | bool _ => exact ⟨fun h => (nomatch h), fun h => (nomatch h.1)⟩
    | number _ => exact ⟨fun h => (nomatch h), fun h => (nomatch h.1)⟩
    | string _ => exact ⟨fun h => (nomatch h), fun h => (nomatch h.1)⟩
    | object _ => exact ⟨fun h => (nomatch h), fun h => (nomatch h.1)⟩

theorem decodeUnsigned_eq_ok {max index n : ℕ} {name : String} :
    decodeUnsigned max fields index name = .ok n ↔
      fields[index]?.bind Value.asU64 = some n ∧ n ≤ max := by
  unfold decodeUnsigned
  cases hfield : fields[index]?.bind Value.asU64 with
  | none => exact ⟨fun h => (nomatch h), fun h => (nomatch h.1)⟩
  | some value =>
    simp only [Option.some.injEq]
    by_cases hle : value ≤ max
    · rw [if_pos hle]
      constructor
      · rintro ⟨⟩
        exact ⟨rfl, hle⟩
      · rintro ⟨rfl, -⟩
        rfl
    · rw [if_neg hle]
      refine ⟨fun h => (nomatch h), ?_⟩
      rintro ⟨rfl, hle'⟩
      exact absurd hle' hle

theorem decodeEventId_eq_ok {index : ℕ} {messageType : String} {eventId : EventId} :
    decodeEventId json fields index messageType = .ok eventId ↔
      ∃ text, fields[index]?.bind Value.asStr = some text ∧
        json.eventIdFromHex text = .ok eventId := by
  unfold decodeEventId
  cases hfield : fields[index]?.bind Value.asStr with
  | none => exact ⟨fun h => (nomatch h), fun ⟨_, h, _⟩ => (nomatch h)⟩
  | some text =>
    simp only [Option.some.injEq, exists_eq_left']
    cases json.eventIdFromHex text with
    | ok id => simp
    | error error => exact ⟨fun h => (nomatch h), fun h => (nomatch h)⟩

/-- The inventory that is read from fields. -/
theorem decodeInv_eq_ok :
    decodeInv json fields = .ok message ↔
      ∃ ids eventId eventKind payloadBytes hopLimit,
        decodeSubscriptionIds fields 1 = .ok ids ∧
        decodeEventId json fields 2 "INV" = .ok eventId ∧
        decodeUnsigned 65535 fields 3 "INV event kind" = .ok eventKind ∧
        decodeUnsigned 4294967295 fields 4 "INV payload bytes" = .ok payloadBytes ∧
        decodeUnsigned 255 fields 5 "INV hop limit" = .ok hopLimit ∧ hopLimit ≠ 0 ∧
        message = .inv ids eventId (.ofNat eventKind) (.ofNat payloadBytes) (.ofNat hopLimit) := by
  constructor
  · intro h
    obtain ⟨ids, hids, h⟩ := Except.bind_eq_ok.mp h
    obtain ⟨eventId, hid, h⟩ := Except.bind_eq_ok.mp h
    obtain ⟨eventKind, hkind, h⟩ := Except.bind_eq_ok.mp h
    obtain ⟨payloadBytes, hbytes, h⟩ := Except.bind_eq_ok.mp h
    obtain ⟨hopLimit, hhops, h⟩ := Except.bind_eq_ok.mp h
    split at h
    · cases h
    · next hne =>
      cases h
      exact ⟨ids, eventId, eventKind, payloadBytes, hopLimit, hids, hid, hkind, hbytes, hhops, hne,
        rfl⟩
  · rintro ⟨ids, eventId, eventKind, payloadBytes, hopLimit, hids, hid, hkind, hbytes, hhops, hne,
      rfl⟩
    simp only [decodeInv, hids, hid, hkind, hbytes, hhops, if_neg hne, bind, Except.bind]
    rfl

theorem decodeWant_eq_ok :
    decodeWant json fields = .ok message ↔
      ∃ eventId, decodeEventId json fields 1 "WANT" = .ok eventId ∧ message = .want eventId := by
  constructor
  · intro h
    obtain ⟨eventId, hid, h⟩ := Except.bind_eq_ok.mp h
    cases h
    exact ⟨eventId, hid, rfl⟩
  · rintro ⟨eventId, hid, rfl⟩
    exact Except.bind_eq_ok.mpr ⟨eventId, hid, rfl⟩

/-- What the dispatch accepts is well formed. -/
theorem wellFormed_of_decodeFields (hfilters : json.ReadsFilters) {messageType : String}
    (h : decodeFields json messageType fields = .ok message) : message.WellFormed := by
  unfold decodeFields at h
  split at h
  · split at h
    · next hcount =>
      obtain ⟨subscriptionId, filters, hclient, rfl⟩ := decodeReq_eq_ok h
      have hlength := hfilters fields subscriptionId filters hcount hclient
      intro hnil
      rw [hnil, List.length_nil] at hlength
      omega
    · cases h
  · split at h
    · obtain ⟨_, rfl⟩ := decodeClose_eq_ok h
      trivial
    · cases h
  · split at h
    · obtain ⟨_, rfl⟩ := decodePublishedEvent_eq_ok h
      trivial
    split at h
    · obtain ⟨_, _, rfl⟩ := decodeDeliveredEvent_eq_ok h
      trivial
    · cases h
  · split at h
    · obtain ⟨_, _, _, rfl⟩ := decodeOk_eq_ok h
      trivial
    · cases h
  · split at h
    · obtain ⟨ids, _, _, _, hopLimit, hids, -, -, -, hhops, hne, rfl⟩ := decodeInv_eq_ok.mp h
      obtain ⟨-, hnonempty, hnodup⟩ := decodeSubscriptionIds_eq_ok.mp hids
      refine ⟨hnonempty, hnodup, fun hzero => hne ?_⟩
      have hle := (decodeUnsigned_eq_ok.mp hhops).2
      have htoNat := congrArg UInt8.toNat hzero
      simp only [UInt8.toNat_ofNat', UInt8.toNat_zero] at htoNat
      omega
    · cases h
  · split at h
    · obtain ⟨_, -, rfl⟩ := decodeWant_eq_ok.mp h
      trivial
    · cases h
  · cases h

/-- What a frame is accepted as is well formed. -/
theorem wellFormed_of_decodeFrame (hfilters : json.ReadsFilters) {codec : FipsPubsubWireCodec}
    {frame : Frame} (h : codec.decodeFrame json frame = .ok message) : message.WellFormed := by
  unfold FipsPubsubWireCodec.decodeFrame at h
  obtain ⟨-, -, h⟩ := Except.bind_eq_ok.mp h
  split at h
  · cases h
  split at h
  · cases h
  · next value _ =>
    unfold decodeValue at h
    split at h
    · cases h
    split at h
    · cases h
    · exact wellFormed_of_decodeFields hfilters h

end Accepted

/-! ## What is emitted is accepted -/

/-- The `nostr` crate reads the JSON form of the message as that message. -/
def NostrJson.ReadsValue (json : NostrJson) (message : FipsPubsubWireMessage nostr) : Prop :=
  match message with
  | .req subscriptionId filters =>
    filters ≠ [] →
      json.clientFromValue (message.toValue json) = .ok (.req subscriptionId filters)
  | .close subscriptionId => json.clientFromValue (message.toValue json) = .ok (.close subscriptionId)
  | .event none verified => json.clientFromValue (message.toValue json) = .ok (.event verified.event)
  | .event (some subscriptionId) verified =>
    json.relayFromValue (message.toValue json) = .ok (.event subscriptionId verified.event)
  | .ok eventId accepted text =>
    json.relayFromValue (message.toValue json) = .ok (.ok eventId accepted text)
  | .inv _ eventId _ _ _ => json.eventIdFromHex eventId.toHex = .ok eventId
  | .want eventId => json.eventIdFromHex eventId.toHex = .ok eventId

/-- `serde_json` and the `nostr` crate read back what they write for the message. -/
structure NostrJson.RoundTrips (json : NostrJson) (message : FipsPubsubWireMessage nostr) : Prop where
  toBytes_ne : json.toBytes (message.toValue json) ≠ []
  fromSlice : json.fromSlice (json.toBytes (message.toValue json)) = .ok (message.toValue json)
  readsValue : json.ReadsValue message

section Emitted

variable {json : NostrJson} {message : FipsPubsubWireMessage nostr}

/-- The dispatch of a JSON array whose first field is the text `messageType`. -/
theorem decodeValue_array (messageType : String) (fields : List Value) :
    @decodeValue nostr json (.array (.string messageType :: fields)) =
      decodeFields json messageType (.string messageType :: fields) := rfl

/-- The fields of a well-formed inventory are decoded as that inventory. -/
theorem decodeInv_of_fields {ids : List String} {text : String} {eventId : EventId}
    {eventKind : UInt16} {payloadBytes : UInt32} {hopLimit : UInt8}
    (hid : json.eventIdFromHex text = .ok eventId) (hids : ids ≠ []) (hnodup : ids.Nodup)
    (hhops : hopLimit ≠ 0) :
    @decodeInv nostr json
        [.string "INV", .array (ids.map .string), .string text, .nat eventKind.toNat,
          .nat payloadBytes.toNat, .nat hopLimit.toNat] =
      .ok (.inv ids eventId eventKind payloadBytes hopLimit) := by
  refine decodeInv_eq_ok.mpr ⟨ids, eventId, eventKind.toNat, payloadBytes.toNat, hopLimit.toNat,
    decodeSubscriptionIds_eq_ok.mpr ⟨rfl, hids, hnodup⟩, decodeEventId_eq_ok.mpr ⟨_, rfl, hid⟩,
    decodeUnsigned_eq_ok.mpr ⟨rfl, ?_⟩, decodeUnsigned_eq_ok.mpr ⟨rfl, ?_⟩,
    decodeUnsigned_eq_ok.mpr ⟨rfl, ?_⟩, ?_, ?_⟩
  · exact Nat.le_of_lt_succ eventKind.toNat_lt
  · exact Nat.le_of_lt_succ payloadBytes.toNat_lt
  · exact Nat.le_of_lt_succ hopLimit.toNat_lt
  · exact fun hzero => hhops (UInt8.toNat_inj.mp hzero)
  · rw [UInt16.ofNat_toNat, UInt32.ofNat_toNat, UInt8.ofNat_toNat]

/-- The JSON form of a well-formed message is decoded as that message. -/
theorem decodeValue_toValue (hreads : json.ReadsValue message) (hwell : message.WellFormed) :
    decodeValue json (message.toValue json) = .ok message := by
  cases message with
  | req subscriptionId filters =>
    -- A request has at least one filter, which the decoder counts.
    have hcount : 3 ≤ (filters.map json.filterValue).length + 1 + 1 := by
      have hpos := List.length_pos_of_ne_nil hwell
      rw [List.length_map]
      omega
    have hclient := hreads hwell
    simp only [FipsPubsubWireMessage.toValue] at hclient ⊢
    simp only [decodeValue_array, decodeFields, List.length_cons, if_pos hcount, decodeReq, hclient]
    rfl
  | close subscriptionId =>
    have hclient : json.clientFromValue _ = _ := hreads
    simp only [FipsPubsubWireMessage.toValue] at hclient ⊢
    simp only [decodeValue_array, decodeFields, List.length_cons, List.length_nil, if_pos,
      decodeClose, hclient]
    rfl
  | event subscriptionId verified =>
    cases subscriptionId with
    | none =>
      have hclient : json.clientFromValue _ = _ := hreads
      simp only [FipsPubsubWireMessage.toValue] at hclient ⊢
      simp only [decodeValue_array, decodeFields, List.length_cons, List.length_nil, if_pos,
        decodePublishedEvent, hclient]
      exact Except.bind_eq_ok.mpr ⟨_, rfl,
        Except.bind_eq_ok.mpr ⟨verified, VerifiedEvent.tryFrom_event verified, rfl⟩⟩
    | some subscriptionId =>
      have hrelay : json.relayFromValue _ = _ := hreads
      simp only [FipsPubsubWireMessage.toValue] at hrelay ⊢
      simp only [decodeValue_array, decodeFields, List.length_cons, List.length_nil,
        decodeDeliveredEvent, hrelay]
      exact Except.bind_eq_ok.mpr ⟨_, rfl,
        Except.bind_eq_ok.mpr ⟨verified, VerifiedEvent.tryFrom_event verified, rfl⟩⟩
  | ok eventId accepted text =>
    have hrelay : json.relayFromValue _ = _ := hreads
    simp only [FipsPubsubWireMessage.toValue] at hrelay ⊢
    simp only [decodeValue_array, decodeFields, List.length_cons, List.length_nil, if_pos, decodeOk,
      hrelay]
    rfl
  | inv ids eventId eventKind payloadBytes hopLimit =>
    obtain ⟨hids, hnodup, hhops⟩ := hwell
    exact decodeInv_of_fields hreads hids hnodup hhops
  | want eventId =>
    exact decodeWant_eq_ok.mpr ⟨eventId, decodeEventId_eq_ok.mpr ⟨_, rfl, hreads⟩, rfl⟩

/-- The frame of a well-formed message is decoded as that message. -/
theorem decodeFrame_of_encodeFrame (htrips : json.RoundTrips message) (hwell : message.WellFormed)
    {codec : FipsPubsubWireCodec} {frame : Frame}
    (h : codec.encodeFrame json message = .ok frame) :
    codec.decodeFrame json frame = .ok message := by
  obtain ⟨_, hsize, h⟩ := Except.bind_eq_ok.mp h
  cases h
  refine Except.bind_eq_ok.mpr ⟨(), hsize, ?_⟩
  rw [if_neg htrips.toBytes_ne, htrips.fromSlice]
  exact decodeValue_toValue htrips.readsValue hwell

/-- The codec reads back a frame that it emits for a message exactly if the message is well formed,
and what it emits for a message that it accepted is always read back. -/
theorem frames_read_back_iff (hfilters : json.ReadsFilters) (message : FipsPubsubWireMessage nostr)
    (htrips : json.RoundTrips message) (codec : FipsPubsubWireCodec) :
    (∀ frame, codec.encodeFrame json message = .ok frame →
      (codec.decodeFrame json frame = .ok message ↔ message.WellFormed)) ∧
    (∀ frame frame', codec.decodeFrame json frame = .ok message →
      codec.encodeFrame json message = .ok frame' →
        codec.decodeFrame json frame' = .ok message) := by
  refine ⟨?_, ?_⟩
  · intro frame hencode
    constructor
    · exact wellFormed_of_decodeFrame hfilters
    · intro hwell
      exact decodeFrame_of_encodeFrame htrips hwell hencode
  · intro frame frame' hdecode hencode
    have hwell := wellFormed_of_decodeFrame hfilters hdecode
    exact decodeFrame_of_encodeFrame htrips hwell hencode

end Emitted

/-! ## An inventory without hops -/

/-- An inventory of the first note. -/
def noteInventory (hopLimit : UInt8) : FipsPubsubWireMessage noteCrate :=
  .inv ["live"] noteA.id 1 10 hopLimit

/-- The JSON value of `noteInventory`. -/
def noteInventoryValue (hopLimit : UInt8) : Value :=
  .array [.string "INV", .array [.string "live"], .string noteA.id.toHex, .nat 1, .nat 10,
    .nat hopLimit.toNat]

/-- `Value::to_string` of an inventory for one subscription whose id needs no escapes. -/
def inventoryBytes : Value → Frame
  | .array [.string "INV", .array [.string subscriptionId], .string eventId, .number (.posInt kind),
      .number (.posInt bytes), .number (.posInt hops)] =>
    utf8Bytes s!"[\"INV\",[\"{subscriptionId}\"],\"{eventId}\",{kind},{bytes},{hops}]"
  | _ => []

/-- The crates as they behave on the inventories of the first note with no hop and with four. -/
def inventoryJson : NostrJson where
  fromSlice frame :=
    if frame = inventoryBytes (noteInventoryValue 0) then .ok (noteInventoryValue 0)
    else if frame = inventoryBytes (noteInventoryValue 4) then .ok (noteInventoryValue 4)
    else .error "expected value at line 1 column 1"
  toBytes := inventoryBytes
  filterValue _ := .object []
  eventValue _ := .object []
  clientFromValue _ := .error "Invalid message format"
  relayFromValue _ := .error "Invalid message format"
  eventIdFromHex text :=
    if text = noteA.id.toHex then .ok noteA.id else .error "Invalid character"

/-- The hypotheses hold of an inventory with hops, and it is read back. -/
theorem frames_read_back_iff_fourHops :
    inventoryJson.ReadsFilters ∧ inventoryJson.RoundTrips (noteInventory 4) ∧
      ∃ frame, (FipsPubsubWireCodec.mk 1024 (by decide)).encodeFrame inventoryJson (noteInventory 4)
          = .ok frame ∧
        (FipsPubsubWireCodec.mk 1024 (by decide)).decodeFrame inventoryJson frame
          = .ok (noteInventory 4) := by
  have hfilters : inventoryJson.ReadsFilters := by
    intro fields subscriptionId filters _ hclient
    cases hclient
  have htrips : inventoryJson.RoundTrips (noteInventory 4) := by
    have hne : inventoryBytes (noteInventoryValue 4) ≠ inventoryBytes (noteInventoryValue 0) := by
      decide +kernel
    refine ⟨by decide +kernel, ?_, ?_⟩
    · show inventoryJson.fromSlice (inventoryBytes (noteInventoryValue 4))
        = .ok (noteInventoryValue 4)
      simp only [inventoryJson, if_neg hne, if_true]
    · show inventoryJson.eventIdFromHex noteA.id.toHex = .ok noteA.id
      simp only [inventoryJson, if_true]
  refine ⟨hfilters, htrips, inventoryBytes (noteInventoryValue 4), by decide +kernel, ?_⟩
  refine ((frames_read_back_iff hfilters (noteInventory 4) htrips _).1 _ (by decide +kernel)).mpr ?_
  exact ⟨by decide, by decide, by decide⟩

/-- An inventory without hops is emitted, and its frame is refused. -/
theorem inventory_without_hops_refused :
    ∃ frame, (FipsPubsubWireCodec.mk 1024 (by decide)).encodeFrame inventoryJson (noteInventory 0)
        = .ok frame ∧
      (FipsPubsubWireCodec.mk 1024 (by decide)).decodeFrame inventoryJson frame
        = (.error (invalidFrame "INV hop limit must be greater than zero") :
          Except PubsubError (FipsPubsubWireMessage noteCrate)) := by
  refine ⟨inventoryBytes (noteInventoryValue 0), by decide +kernel, ?_⟩
  decide +kernel

end NostrPubsub.Fips
