import NostrPubsub.Reconcile.Wire

/-!
# The validator

`validation.rs` of `nostr-pubsub-reconcile`: every frame of a peer passes it before the engine reads it.
It accepts the frames that spell ranges whose bounds do not decrease (`validate_eq_ok_iff`).

The source drops what it reads. Here the loop returns it, so that it can be compared with what the
engine reads; `validate` forgets it.
-/

namespace NostrPubsub.Reconcile

namespace Validation

/-- `take`. -/
def take (bytes : List UInt8) (n : ℕ) : Except String (List UInt8 × List UInt8) :=
  takeBytes "truncated reconciliation frame" n bytes

/-- `varint`. -/
def varint (bytes : List UInt8) : Except String (ℕ × List UInt8) :=
  VarInt.read ⟨"truncated reconciliation frame", "varint overflow", "varint too long"⟩ u64Max 10 0
    bytes

/-- One range as a decoder reads it: the timestamp, the bytes of the id, the mode and, for a list of
ids, the 32 bytes of each. -/
structure ReadRange where
  timestamp : ℕ
  id : List UInt8
  mode : ℕ
  /-- The fingerprint, or the ids. -/
  items : List (List UInt8)
  deriving DecidableEq

/-- The bound of a range, as an array of 32 bytes. -/
def paddedId (id : List UInt8) : List UInt8 := id ++ List.replicate (idSize - id.length) 0

/-- `(timestamp, id)`, compared by timestamp and then byte by byte. -/
def previousOf (timestamp : ℕ) (id : List UInt8) : ℕ ×ₗ List ℕ :=
  toLex (timestamp, (paddedId id).map UInt8.toNat)

/-- The ids in the bytes taken for a list. -/
def chunks : ℕ → List UInt8 → List (List UInt8)
  | 0, _ => []
  | count + 1, bytes => bytes.take idSize :: chunks count (bytes.drop idSize)

/-- The timestamp that a difference spells, with a checked addition. -/
def nextTimestamp (timestamp delta : ℕ) : Except String ℕ :=
  if delta = 0 ∨ timestamp = u64Max then .ok u64Max
  else if u64Max < timestamp + (delta - 1) then .error "timestamp overflow"
  else .ok (timestamp + (delta - 1))

/-- The part of the loop in `validate` that reads a bound. -/
def readBound (timestamp : ℕ) (bytes : List UInt8) :
    Except String (ℕ × List UInt8 × List UInt8) := do
  let (delta, bytes) ← varint bytes
  let timestamp ← nextTimestamp timestamp delta
  let (len, bytes) ← varint bytes
  if 32 < len then .error "invalid bound length"
  else
    let (id, bytes) ← take bytes len
    return (timestamp, id, bytes)

/-- The part of the loop in `validate` that reads what a range carries. -/
def readItems (bytes : List UInt8) : Except String (ℕ × List (List UInt8) × List UInt8) := do
  let (mode, bytes) ← varint bytes
  match mode with
  | 0 => return (0, [], bytes)
  | 1 =>
    let (fingerprint, bytes) ← take bytes 16
    return (1, [fingerprint], bytes)
  | 2 =>
    let (count, bytes) ← varint bytes
    if u64Max < count * 32 then .error "ID count overflow"
    else
      let (ids, bytes) ← take bytes (count * 32)
      return (2, chunks count ids, bytes)
  | _ => .error "invalid reconciliation mode"

/-- `while !bytes.is_empty()`. Every turn takes a byte, so the bytes at hand bound them. -/
def readRanges : ℕ → (timestamp : ℕ) → (previous : ℕ ×ₗ List ℕ) → List UInt8 →
    Except String (List ReadRange)
  | 0, _, _, _ => .ok []
  | fuel + 1, timestamp, previous, bytes =>
    if bytes = [] then .ok []
    else do
      let (timestamp, id, bytes) ← readBound timestamp bytes
      if previousOf timestamp id < previous then .error "unordered reconciliation ranges"
      else
        let (mode, items, bytes) ← readItems bytes
        let rest ← readRanges fuel timestamp (previousOf timestamp id) bytes
        return ⟨timestamp, id, mode, items⟩ :: rest

/-- What `validate` reads of a frame. -/
def readFrame (bytes : List UInt8) : Except String (List ReadRange) := do
  let (version, bytes) ← take bytes 1
  if version ≠ [0x61] then .error "unsupported Negentropy version"
  else readRanges bytes.length 0 (previousOf 0 []) bytes

/-- `validate`. -/
def validate (bytes : List UInt8) : Except String Unit := (readFrame bytes).map fun _ => ()

/-- What a range carries, as the decoders read it. -/
def readPayloadOf : Payload → ℕ × List (List UInt8)
  | .skip => (0, [])
  | .fingerprint fingerprint => (1, [fingerprint.toList])
  | .idList ids => (2, ids.map List.Vector.toList)

/-- A range in the form the decoders read it. -/
def ReadRange.ofRange (range : Range) : ReadRange where
  timestamp := range.bound.timestamp
  id := range.bound.id
  mode := (readPayloadOf range.payload).1
  items := (readPayloadOf range.payload).2

/-! ## What is read -/

theorem previousOf_eq_position (bound : Bound) :
    previousOf bound.timestamp bound.id = bound.position := by
  rw [previousOf, paddedId, List.map_append, List.map_replicate, Bound.position, padKey]
  rfl

theorem varint_eq_ok {bytes : List UInt8} {r : ℕ × List UInt8} :
    varint bytes = .ok r ↔ readVarInt bytes = some r := read_eq_ok_iff

theorem take_eq_ok {bytes : List UInt8} {n : ℕ} {r : List UInt8 × List UInt8} :
    take bytes n = .ok r ↔ n ≤ bytes.length ∧ r = (bytes.take n, bytes.drop n) := takeBytes_eq_ok

theorem nextTimestamp_eq_ok {last delta timestamp : ℕ} :
    nextTimestamp last delta = .ok timestamp ↔
      timestamp = timestampAfter last delta ∧ timestamp ≤ u64Max := by
  rw [nextTimestamp, timestampAfter]
  split
  · constructor
    · intro h
      cases h
      exact ⟨rfl, le_rfl⟩
    · rintro ⟨rfl, -⟩
      rfl
  · split
    · next hover =>
      constructor
      · intro h
        cases h
      · rintro ⟨rfl, hle⟩
        exact absurd hle (Nat.not_le.mpr hover)
    · next hfits =>
      constructor
      · intro h
        cases h
        exact ⟨rfl, Nat.le_of_not_lt hfits⟩
      · rintro ⟨rfl, -⟩
        rfl

theorem readBound_eq_ok {last timestamp : ℕ} {bytes id rest : List UInt8} :
    readBound last bytes = .ok (timestamp, id, rest) ↔
      ∃ bound : Bound, Reconcile.readBound last bytes = some (bound, rest) ∧
        bound.timestamp = timestamp ∧ bound.id = id := by
  rw [readBound]
  constructor
  · intro h
    obtain ⟨⟨delta, afterDelta⟩, hdelta, h⟩ := Except.bind_eq_ok.mp h
    obtain ⟨time, htime, h⟩ := Except.bind_eq_ok.mp h
    obtain ⟨⟨len, afterLen⟩, hlen, h⟩ := Except.bind_eq_ok.mp h
    simp only at h
    split at h
    · cases h
    next hle =>
    obtain ⟨⟨taken, afterId⟩, htaken, h⟩ := Except.bind_eq_ok.mp h
    cases h
    obtain ⟨hlength, heq⟩ := take_eq_ok.mp htaken
    cases heq
    have htimestamp := nextTimestamp_eq_ok.mp htime
    have hidLength : (afterLen.take len).length ≤ idSize :=
      (List.length_take_le _ _).trans (Nat.le_of_not_lt hle)
    refine ⟨⟨timestamp, afterLen.take len, htimestamp.2, hidLength⟩, ?_, rfl, rfl⟩
    exact readBound_eq_some.mpr ⟨delta, afterDelta, len, afterLen, varint_eq_ok.mp hdelta,
      varint_eq_ok.mp hlen, hlength, htimestamp.1, rfl, rfl⟩
  · rintro ⟨bound, hread, rfl, rfl⟩
    obtain ⟨delta, afterDelta, len, afterLen, hdelta, hlen, hlength, htimestamp, hid, rfl⟩ :=
      readBound_eq_some.mp hread
    have hle : ¬32 < len := by
      have hidLength := bound.length_le
      rw [hid, List.length_take, Nat.min_eq_left hlength] at hidLength
      exact Nat.not_lt.mpr hidLength
    have htime : nextTimestamp last delta = .ok bound.timestamp :=
      nextTimestamp_eq_ok.mpr ⟨htimestamp, bound.timestamp_le⟩
    refine Except.bind_eq_ok.mpr ⟨(delta, afterDelta), varint_eq_ok.mpr hdelta, ?_⟩
    refine Except.bind_eq_ok.mpr ⟨bound.timestamp, htime, ?_⟩
    refine Except.bind_eq_ok.mpr ⟨(len, afterLen), varint_eq_ok.mpr hlen, ?_⟩
    simp only [if_neg hle]
    refine Except.bind_eq_ok.mpr ⟨(afterLen.take len, afterLen.drop len),
      take_eq_ok.mpr ⟨hlength, rfl⟩, ?_⟩
    rw [hid]
    rfl

theorem chunks_of_readIds {count : ℕ} {bytes rest : List UInt8} {ids : List Id}
    (h : readIds count bytes = some (ids, rest)) :
    rest = bytes.drop (count * 32) ∧
      chunks count (bytes.take (count * 32)) = ids.map List.Vector.toList := by
  induction count generalizing bytes ids with
  | zero =>
    cases h
    exact ⟨by simp, rfl⟩
  | succ count ih =>
    simp only [readIds, Option.bind_eq_bind, Option.bind_eq_some_iff, Prod.exists] at h
    obtain ⟨id, afterId, hid, ids', rest', hids, h⟩ := h
    cases h
    obtain ⟨-, hbytes, rfl⟩ := readVector_eq_some.mp hid
    obtain ⟨hrest, hchunks⟩ := ih hids
    have hcount : (count + 1) * 32 = 32 + count * 32 := by omega
    have hfirst : (bytes.take (32 + count * 32)).take idSize = bytes.take 32 := by
      rw [List.take_take, idSize]
      exact congrArg (List.take · bytes) (Nat.min_eq_left (Nat.le_add_right _ _))
    have hafter : (bytes.take (32 + count * 32)).drop idSize = (bytes.drop 32).take (count * 32) := by
      rw [List.drop_take, idSize, Nat.add_sub_cancel_left]
    constructor
    · rw [hrest, List.drop_drop, hcount]
    · rw [hcount, chunks, hfirst, hafter, hchunks, ← hbytes]
      rfl

/-- A list of ids is read from as many bytes as it takes. -/
theorem exists_readIds {count : ℕ} {bytes : List UInt8} (h : count * 32 ≤ bytes.length) :
    ∃ r, readIds count bytes = some r := by
  induction count generalizing bytes with
  | zero => exact ⟨_, rfl⟩
  | succ count ih =>
    have hfirst : 32 ≤ bytes.length := by omega
    obtain ⟨id, hid⟩ : ∃ id, readVector 32 bytes = some (id, bytes.drop 32) :=
      ⟨(⟨bytes.take 32, List.length_take_of_le hfirst⟩ : Id),
        readVector_eq_some.mpr ⟨hfirst, rfl, rfl⟩⟩
    obtain ⟨r, hr⟩ := @ih (bytes.drop 32) (by rw [List.length_drop]; omega)
    refine ⟨(id :: r.1, r.2), ?_⟩
    simp only [readIds, hid, hr, Option.bind_eq_bind, Option.bind_some]
    rfl

/-- What the validator reads is a payload of the wire. -/
theorem exists_readPayload {bytes rest : List UInt8} {mode : ℕ} {items : List (List UInt8)}
    (h : readItems bytes = .ok (mode, items, rest)) :
    ∃ payload, readPayload bytes = some (payload, rest) ∧ readPayloadOf payload = (mode, items) := by
  rw [readItems] at h
  obtain ⟨⟨read, afterMode⟩, hmode, h⟩ := Except.bind_eq_ok.mp h
  have hread := varint_eq_ok.mp hmode
  simp only at h
  split at h
  · cases h
    exact ⟨.skip, readPayload_eq_some.mpr ⟨0, rest, hread, .inl ⟨rfl, rfl, rfl⟩⟩, rfl⟩
  · obtain ⟨⟨taken, afterItems⟩, htaken, h⟩ := Except.bind_eq_ok.mp h
    cases h
    obtain ⟨hle, heq⟩ := take_eq_ok.mp htaken
    cases heq
    have hvector : readVector 16 afterMode = some
        ((⟨afterMode.take 16, List.length_take_of_le hle⟩ : Fingerprint), afterMode.drop 16) :=
      readVector_eq_some.mpr ⟨hle, rfl, rfl⟩
    exact ⟨_, readPayload_eq_some.mpr ⟨1, afterMode, hread, .inr (.inl ⟨_, rfl, rfl, hvector⟩)⟩, rfl⟩
  · obtain ⟨⟨count, afterCount⟩, hcount, h⟩ := Except.bind_eq_ok.mp h
    simp only at h
    split at h
    · cases h
    obtain ⟨⟨taken, afterItems⟩, htaken, h⟩ := Except.bind_eq_ok.mp h
    cases h
    obtain ⟨hle, heq⟩ := take_eq_ok.mp htaken
    cases heq
    obtain ⟨⟨ids, afterIds⟩, hids⟩ := exists_readIds hle
    obtain ⟨rfl, hchunks⟩ := chunks_of_readIds hids
    refine ⟨.idList ids, readPayload_eq_some.mpr ⟨2, afterMode, hread, .inr (.inr ⟨ids, count,
      afterCount, rfl, rfl, varint_eq_ok.mp hcount, hids⟩)⟩, ?_⟩
    rw [readPayloadOf, hchunks]
  · cases h

/-- A payload of the wire is read. The number of bytes of its ids fits 64 bits if that of the whole
frame does. -/
theorem readItems_of_read {bytes rest : List UInt8} {payload : Payload}
    (h : readPayload bytes = some (payload, rest)) (hbytes : bytes.length ≤ u64Max) :
    readItems bytes = .ok ((readPayloadOf payload).1, (readPayloadOf payload).2, rest) := by
  obtain ⟨mode, afterMode, hmode, hcase⟩ := readPayload_eq_some.mp h
  have hmodeLt := length_readVarInt_lt hmode
  rw [readItems]
  refine Except.bind_eq_ok.mpr ⟨(mode, afterMode), varint_eq_ok.mpr hmode, ?_⟩
  rcases hcase with ⟨rfl, rfl, rfl⟩ | ⟨fingerprint, rfl, rfl, hvector⟩ |
    ⟨ids, count, afterCount, rfl, rfl, hcount, hids⟩
  · rfl
  · obtain ⟨hle, htaken, rfl⟩ := readVector_eq_some.mp hvector
    refine Except.bind_eq_ok.mpr ⟨_, take_eq_ok.mpr ⟨hle, rfl⟩, ?_⟩
    rw [← htaken]
    rfl
  · have hcountLt := length_readVarInt_lt hcount
    have hsize := (length_of_readIds hids).2
    have hle : count * 32 ≤ afterCount.length := by
      rw [idSize] at hsize
      omega
    have hfits : ¬u64Max < count * 32 := by omega
    obtain ⟨rfl, hchunks⟩ := chunks_of_readIds hids
    refine Except.bind_eq_ok.mpr ⟨(count, afterCount), varint_eq_ok.mpr hcount, ?_⟩
    simp only [if_neg hfits]
    refine Except.bind_eq_ok.mpr ⟨_, take_eq_ok.mpr ⟨hle, rfl⟩, ?_⟩
    rw [hchunks]
    rfl

/-! ## What is accepted -/

/-- The validator accepts ranges in order, and reads them as they are. -/
theorem exists_parses {fuel last : ℕ} {previous : ℕ ×ₗ List ℕ} {bytes : List UInt8}
    {reads : List ReadRange} (hfuel : bytes.length ≤ fuel)
    (h : readRanges fuel last previous bytes = .ok reads) :
    ∃ ranges, Parses last bytes ranges ∧ Ordered previous ranges ∧
      ranges.map ReadRange.ofRange = reads := by
  induction fuel generalizing last previous bytes reads with
  | zero =>
    cases h
    rw [List.eq_nil_of_length_eq_zero (Nat.le_zero.mp hfuel)]
    exact ⟨[], .nil last, trivial, rfl⟩
  | succ fuel ih =>
    rw [readRanges] at h
    split at h
    · next hnil =>
      cases h
      rw [hnil]
      exact ⟨[], .nil last, trivial, rfl⟩
    obtain ⟨⟨timestamp, id, afterBound⟩, hbound, h⟩ := Except.bind_eq_ok.mp h
    simp only at h
    split at h
    · cases h
    next hordered =>
    obtain ⟨⟨mode, items, rest⟩, hitems, h⟩ := Except.bind_eq_ok.mp h
    obtain ⟨tail, htail, h⟩ := Except.bind_eq_ok.mp h
    cases h
    obtain ⟨bound, hread, rfl, rfl⟩ := readBound_eq_ok.mp hbound
    obtain ⟨payload, hpayload, hof⟩ := exists_readPayload hitems
    rw [previousOf_eq_position] at hordered htail
    have hrange : readRange last bytes = some (⟨bound, payload⟩, rest) :=
      readRange_eq_some.mpr ⟨afterBound, hread, hpayload⟩
    have hshorter := length_readRange_lt hrange
    have hlength : rest.length ≤ fuel := by omega
    obtain ⟨ranges, hparses, hrest, rfl⟩ := ih hlength htail
    refine ⟨⟨bound, payload⟩ :: ranges, .cons hrange hparses, ⟨not_lt.mp hordered, hrest⟩, ?_⟩
    rw [List.map_cons, ReadRange.ofRange, hof]

theorem readRanges_of_parses {fuel last : ℕ} {previous : ℕ ×ₗ List ℕ} {bytes : List UInt8}
    {ranges : List Range} (hparses : Parses last bytes ranges) (hordered : Ordered previous ranges)
    (hfuel : bytes.length ≤ fuel) (hbytes : bytes.length ≤ u64Max) :
    readRanges fuel last previous bytes = .ok (ranges.map ReadRange.ofRange) := by
  induction ranges generalizing fuel last previous bytes with
  | nil =>
    cases hparses
    cases fuel <;> rfl
  | cons range ranges ih =>
    cases hparses with
    | cons hread htail =>
      rename_i rest
      obtain ⟨hle, hrest⟩ := ordered_cons.mp hordered
      have hshorter := length_readRange_lt hread
      obtain ⟨fuel, rfl⟩ : ∃ n, fuel = n + 1 := ⟨fuel - 1, by omega⟩
      have hne : bytes ≠ [] := by
        rintro rfl
        exact absurd hshorter (Nat.not_lt_zero _)
      obtain ⟨afterBound, hbound, hpayload⟩ := readRange_eq_some.mp hread
      have hafter := length_readBound_lt hbound
      have hposition := previousOf_eq_position range.bound
      rw [readRanges, if_neg hne]
      refine Except.bind_eq_ok.mpr ⟨_, readBound_eq_ok.mpr ⟨range.bound, hbound, rfl, rfl⟩, ?_⟩
      simp only [hposition, if_neg (not_lt.mpr hle)]
      refine Except.bind_eq_ok.mpr ⟨_, readItems_of_read hpayload (by omega), ?_⟩
      have hlength : rest.length ≤ fuel := by omega
      have hfits : rest.length ≤ u64Max := by omega
      exact Except.bind_eq_ok.mpr ⟨_, ih htail hrest hlength hfits, rfl⟩

/-- An accepted frame spells ranges in order. -/
theorem exists_ranges {bytes : List UInt8} {reads : List ReadRange}
    (h : readFrame bytes = .ok reads) : ∃ body ranges, bytes = protocolVersion :: body ∧
      Parses 0 body ranges ∧ Ordered Bound.zero.position ranges ∧
      ranges.map ReadRange.ofRange = reads := by
  rw [readFrame] at h
  obtain ⟨⟨version, body⟩, htake, h⟩ := Except.bind_eq_ok.mp h
  obtain ⟨hle, heq⟩ := take_eq_ok.mp htake
  cases heq
  simp only at h
  split at h
  · cases h
  next hversion =>
  obtain ⟨ranges, hparses, hordered, hreads⟩ := exists_parses le_rfl h
  refine ⟨bytes.drop 1, ranges, ?_, hparses, ?_, hreads⟩
  · rw [← List.take_append_drop 1 bytes, not_not.mp hversion]
    rfl
  · rwa [← previousOf_eq_position]

/-- The validator accepts the frames that spell ranges in order. -/
theorem validate_frame {body : List UInt8} {ranges : List Range} (hparses : Parses 0 body ranges)
    (hordered : Ordered Bound.zero.position ranges) (hbytes : body.length ≤ u64Max) :
    validate (protocolVersion :: body) = .ok () := by
  have hreads := readRanges_of_parses hparses hordered le_rfl hbytes
  rw [← previousOf_eq_position] at hreads
  rw [validate, readFrame]
  refine Except.map_eq_ok.mpr ⟨_, Except.bind_eq_ok.mpr ⟨([protocolVersion], body), ?_, hreads⟩, rfl⟩
  exact take_eq_ok.mpr ⟨by simp, rfl⟩

end Validation

end NostrPubsub.Reconcile
