import NostrPubsub.Mesh.Defs
import NostrPubsub.ToMathlib.Except
import NostrPubsub.ToMathlib.LengthPrefix

/-!
# Envelopes and records

The two wire layers under the stream carrier: the JSON envelope of a message
(`InvWantCodec`, `mesh.rs`) and the length-prefixed record it travels in (`RecordDecoder` and
`encode_record`, `stream.rs`).

`serde_json` itself is a parameter. A decoder is indexed by its `max_record_bytes`, and its
buffer never holds more than one record of that size.
-/

namespace NostrPubsub

/-! ## The envelope -/

/-- `InvWantEnvelope`. -/
structure InvWantEnvelope where
  protocol : String
  version : ℕ
  message : InvWantWireMessage
  deriving DecidableEq

/-- What the codec uses of `serde_json`. -/
structure SerdeJson where
  /-- `serde_json::to_vec` of an envelope. -/
  toVec : InvWantEnvelope → Except String (List UInt8)
  /-- `serde_json::from_slice` into an envelope. -/
  fromSlice : List UInt8 → Except String InvWantEnvelope

/-- `InvWantCodec`. -/
structure InvWantCodec where
  protocol : String
  version : ℕ
  maxWireBytes : ℕ
  deriving DecidableEq

namespace InvWantCodec

/-- `InvWantCodec::new`. -/
def new (protocol : String) (version maxWireBytes : ℕ) : InvWantCodec :=
  { protocol, version, maxWireBytes := max maxWireBytes 1 }

/-- `InvWantCodec::check_wire_len`. -/
def checkWireLen (codec : InvWantCodec) (len : ℕ) : Except PubsubError Unit :=
  if codec.maxWireBytes < len then
    .error (.validation
      s!"inv/want wire payload is {len} bytes, maximum is {codec.maxWireBytes}")
  else .ok ()

/-- `InvWantCodec::encode`. -/
def encode (codec : InvWantCodec) (serde : SerdeJson) (message : InvWantWireMessage) :
    Except PubsubError (List UInt8) :=
  match serde.toVec { protocol := codec.protocol, version := codec.version, message } with
  | .error error => .error (.validation s!"invalid inv/want JSON: {error}")
  | .ok encoded => do
    codec.checkWireLen encoded.length
    .ok encoded

/-- `InvWantCodec::decode`. -/
def decode (codec : InvWantCodec) (serde : SerdeJson) (payload : List UInt8) :
    Except PubsubError InvWantWireMessage := do
  codec.checkWireLen payload.length
  match serde.fromSlice payload with
  | .error error => .error (.validation s!"invalid inv/want JSON: {error}")
  | .ok envelope =>
    if envelope.protocol ≠ codec.protocol then
      .error (.validation s!"unsupported inv/want protocol {envelope.protocol.quote}")
    else if envelope.version ≠ codec.version then
      .error (.validation s!"unsupported inv/want version {envelope.version}")
    else .ok envelope.message

end InvWantCodec

/-! ## The record -/

/-- `LENGTH_PREFIX_BYTES`. -/
def lengthPrefixBytes : ℕ := 4

/-- `encode_record`. -/
def encodeRecord (payload : List UInt8) (maxRecordBytes : ℕ) : Except PubsubError (List UInt8) :=
  if maxRecordBytes < payload.length then
    .error (.validation s!"record is {payload.length} bytes, maximum is {maxRecordBytes}")
  else if u32Max < payload.length then .error (.validation "record is too large")
  else .ok (LengthPrefix.frame lengthPrefixBytes payload)

/-- The loop of `RecordDecoder::push`: at most `maxRecords` complete records off the front of
the input, and what is left of it. -/
def takeRecords (maxRecordBytes : ℕ) :
    ℕ → List UInt8 → Except PubsubError (List (List UInt8) × List UInt8)
  | 0, input => .ok ([], input)
  | maxRecords + 1, input =>
    match LengthPrefix.front lengthPrefixBytes maxRecordBytes input with
    | .incomplete => .ok ([], input)
    | .tooLong declared =>
      .error (.validation s!"record declares {declared} bytes, maximum is {maxRecordBytes}")
    | .record payload rest => do
      let (records, left) ← takeRecords maxRecordBytes maxRecords rest
      .ok (payload :: records, left)

/-- The records taken and the rest are no longer than the input. -/
theorem length_of_takeRecords {maxRecordBytes maxRecords : ℕ} {input left : List UInt8}
    {records : List (List UInt8)}
    (h : takeRecords maxRecordBytes maxRecords input = .ok (records, left)) :
    left.length ≤ input.length := by
  induction maxRecords generalizing input records with
  | zero =>
    cases h
    exact Nat.le_refl _
  | succ maxRecords ih =>
    rw [takeRecords] at h
    split at h
    · cases h
      exact Nat.le_refl _
    · cases h
    · next payload rest hfront =>
      obtain ⟨⟨records', left'⟩, hrest, heq⟩ := Except.bind_eq_ok.mp h
      cases heq
      have hle := ih hrest
      have hlength := LengthPrefix.length_of_front_record hfront
      omega

/-- `RecordDecoder`: the input of a peer that is not yet a complete record, or waits for its
turn. -/
structure RecordDecoder (maxRecordBytes : ℕ) where
  buffer : List UInt8
  length_le : buffer.length ≤ maxRecordBytes + lengthPrefixBytes

namespace RecordDecoder

variable {maxRecordBytes : ℕ}

/-- `RecordDecoder::new`, and a cleared decoder. -/
def new (maxRecordBytes : ℕ) : RecordDecoder maxRecordBytes :=
  { buffer := [], length_le := Nat.zero_le _ }

/-- `RecordDecoder::len`. -/
def len (decoder : RecordDecoder maxRecordBytes) : ℕ := decoder.buffer.length

/-- `RecordDecoder::remaining_capacity`. -/
def remainingCapacity (decoder : RecordDecoder maxRecordBytes) : ℕ :=
  maxRecordBytes + lengthPrefixBytes - decoder.buffer.length

/-- `RecordDecoder::has_complete_record`. -/
def hasCompleteRecord (decoder : RecordDecoder maxRecordBytes) : Bool :=
  if decoder.buffer.length < lengthPrefixBytes then false
  else
    let declared := LengthPrefix.declared lengthPrefixBytes decoder.buffer
    decide (declared ≤ maxRecordBytes ∧ lengthPrefixBytes + declared ≤ decoder.buffer.length)

/-- `RecordDecoder::push`. -/
def push (decoder : RecordDecoder maxRecordBytes) (bytes : List UInt8) (maxRecords : ℕ) :
    Except PubsubError (List (List UInt8)) × RecordDecoder maxRecordBytes :=
  let input := decoder.buffer ++ bytes
  if hfits : maxRecordBytes + lengthPrefixBytes < input.length then
    (.error (.validation (s!"record input is {input.length} bytes, "
      ++ s!"maximum buffered input is {maxRecordBytes + lengthPrefixBytes}")), new maxRecordBytes)
  else
    match htake : takeRecords maxRecordBytes maxRecords input with
    | .error error => (.error error, new maxRecordBytes)
    | .ok (records, left) =>
      (.ok records,
        { buffer := left
          length_le := (length_of_takeRecords htake).trans (Nat.le_of_not_lt hfits) })

variable {decoder : RecordDecoder maxRecordBytes} {bytes : List UInt8} {maxRecords : ℕ}

@[ext]
theorem ext {d d' : RecordDecoder maxRecordBytes} (h : d.buffer = d'.buffer) : d = d' := by
  cases d
  cases d'
  cases h
  rfl

/-- Input within the remaining capacity is never refused for its size. -/
theorem not_overflows (h : bytes.length ≤ decoder.remainingCapacity) :
    ¬maxRecordBytes + lengthPrefixBytes < (decoder.buffer ++ bytes).length := by
  have hle := decoder.length_le
  rw [remainingCapacity] at h
  rw [List.length_append]
  omega

theorem push_eq_ok {records : List (List UInt8)} {left : List UInt8}
    (hfits : bytes.length ≤ decoder.remainingCapacity)
    (htake : takeRecords maxRecordBytes maxRecords (decoder.buffer ++ bytes)
      = .ok (records, left)) :
    ∃ hle, decoder.push bytes maxRecords = (.ok records, { buffer := left, length_le := hle }) := by
  refine ⟨(length_of_takeRecords htake).trans (Nat.le_of_not_lt (not_overflows hfits)), ?_⟩
  unfold push
  simp only [not_overflows hfits, dite_false]
  split
  · next htake' => simp [htake] at htake'
  · next htake' =>
    cases htake.symm.trans htake'
    rfl

theorem push_eq_error {error : PubsubError} (hfits : bytes.length ≤ decoder.remainingCapacity)
    (htake : takeRecords maxRecordBytes maxRecords (decoder.buffer ++ bytes) = .error error) :
    decoder.push bytes maxRecords = (.error error, new maxRecordBytes) := by
  unfold push
  simp only [not_overflows hfits, dite_false]
  split
  · next htake' =>
    cases htake.symm.trans htake'
    rfl
  · next htake' => simp [htake] at htake'

/-- A decoder without a complete record has no records to give. -/
theorem records_buffer (h : decoder.hasCompleteRecord = false) :
    LengthPrefix.records lengthPrefixBytes maxRecordBytes decoder.buffer = [] := by
  refine LengthPrefix.records_eq_nil fun payload rest hfront => ?_
  unfold LengthPrefix.front at hfront
  split_ifs at hfront with hprefix hlong hshort
  simp [hasCompleteRecord, hprefix, hlong, hshort] at h

end RecordDecoder

/-! ## The two notes on the wire -/

/-- The JSON form of a message about an event whose JSON form is plain. -/
def InvWantWireMessage.plainJson : InvWantWireMessage → List UInt8
  | .inventory eventId eventKind payloadBytes hopLimit =>
    utf8Bytes "\x7b\"type\":\"inventory\",\"event_id\":\"" ++ utf8Bytes eventId
      ++ utf8Bytes "\",\"event_kind\":" ++ utf8Bytes (toString eventKind)
      ++ utf8Bytes ",\"payload_bytes\":" ++ utf8Bytes (toString payloadBytes)
      ++ utf8Bytes ",\"hop_limit\":" ++ utf8Bytes (toString hopLimit) ++ utf8Bytes "\x7d"
  | .want eventId =>
    utf8Bytes "\x7b\"type\":\"want\",\"event_id\":\"" ++ utf8Bytes eventId
      ++ utf8Bytes "\"\x7d"
  | .frame eventId event =>
    utf8Bytes "\x7b\"type\":\"frame\",\"event_id\":\"" ++ utf8Bytes eventId
      ++ utf8Bytes "\",\"event\":" ++ event.plainJson ++ utf8Bytes "\x7d"

/-- The JSON form of an envelope around such a message. -/
def InvWantEnvelope.plainJson (envelope : InvWantEnvelope) : List UInt8 :=
  utf8Bytes "\x7b\"protocol\":\"" ++ utf8Bytes envelope.protocol
    ++ utf8Bytes "\",\"version\":" ++ utf8Bytes (toString envelope.version)
    ++ utf8Bytes ",\"message\":" ++ envelope.message.plainJson ++ utf8Bytes "\x7d"

/-- The envelope of a message under the default namespace. -/
def noteEnvelope (message : InvWantWireMessage) : InvWantEnvelope :=
  { protocol := "nostr.pubsub", version := 1, message }

/-- The frame of a note. -/
def noteFrame (event : Event) : InvWantWireMessage := .frame event.id.toHex event

/-- The messages of the runs below: the inventories and the frames of the two notes, and a
frame that carries the second under the id of the first. -/
def noteMessages : List InvWantWireMessage :=
  [noteInventory noteA, noteFrame noteA, .frame noteA.id.toHex noteB, noteInventory noteB,
    noteFrame noteB]

/-- `serde_json` as it behaves on these messages and on an empty record. -/
def noteSerde : SerdeJson where
  toVec envelope := .ok envelope.plainJson
  fromSlice bytes :=
    match noteMessages.find? fun message => (noteEnvelope message).plainJson = bytes with
    | some message => .ok (noteEnvelope message)
    | none => .error "EOF while parsing a value at line 1 column 0"

/-- The record of a message. -/
def noteRecord (message : InvWantWireMessage) : List UInt8 :=
  LengthPrefix.frame lengthPrefixBytes (noteEnvelope message).plainJson

end NostrPubsub
