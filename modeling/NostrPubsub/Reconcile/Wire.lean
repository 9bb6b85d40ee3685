import NostrPubsub.Core
import NostrPubsub.ToMathlib.Along
import NostrPubsub.ToMathlib.Except
import NostrPubsub.ToMathlib.VarInt

/-!
# Frames of the reconciliation protocol

A frame of `nostr-pubsub-reconcile` is a version byte and a sequence of ranges. A range ends at
a bound, starts where the one before it ended, and carries nothing, the fingerprint of the
sender's records in it, or their ids. Timestamps of bounds are coded as differences to the
timestamp before.

`encodeRanges` writes ranges the way both engines do; `Parses` says what they spell when read
with checked arithmetic. What is written with nondecreasing timestamps is read back
(`parses_encodeRanges`).
-/

namespace NostrPubsub.Reconcile

/-- `ID_SIZE`. -/
def idSize : ℕ := 32

/-- `FINGERPRINT_SIZE`. -/
def fingerprintSize : ℕ := 16

/-- The id of a record. -/
abbrev Id := EventId

/-- A fingerprint as it travels. -/
abbrev Fingerprint := List.Vector UInt8 16

/-- `encode_var_int`. -/
def encodeVarInt (n : ℕ) : List UInt8 :=
  if n = 0 then [0]
  else
    let o := ((Nat.digits 128 n).map UInt8.ofNat).reverse
    o.dropLast.map (· ||| 0x80) ++ o.drop (o.length - 1)

theorem encodeVarInt_eq (n : ℕ) : encodeVarInt n = VarInt.encode n := by
  rcases Nat.eq_zero_or_pos n with rfl | hn
  · rfl
  · have hdigits := Nat.digits_def' (b := 128) (by decide) hn
    have hhigh : ∀ d ∈ Nat.digits 128 (n / 128),
        UInt8.ofNat d ||| 128 = UInt8.ofNat (128 + d) :=
      fun d hd => VarInt.ofNat_or_high (Nat.digits_lt_base (by decide) hd)
    rw [encodeVarInt, if_neg hn.ne', hdigits]
    simp only [List.map_cons, List.reverse_cons, List.dropLast_concat, List.length_append,
      List.length_cons, List.length_nil, Nat.zero_add, Nat.add_sub_cancel, List.drop_left]
    rw [VarInt.encode, VarInt.leading, List.map_reverse, List.map_map]
    congr 2
    exact List.map_congr_left hhigh

/-! ## Ranges -/

/-- The end of a range: a timestamp and the first bytes of an id. -/
@[ext]
structure Bound where
  timestamp : ℕ
  id : List UInt8
  timestamp_le : timestamp ≤ u64Max
  length_le : id.length ≤ idSize
  deriving DecidableEq

/-- The bytes of an id that is cut short are filled up with zeros. -/
def padKey (bytes : List UInt8) : List ℕ :=
  bytes.map UInt8.toNat ++ List.replicate (idSize - bytes.length) 0

/-- The place of a bound among the records. -/
def Bound.position (bound : Bound) : ℕ ×ₗ List ℕ := toLex (bound.timestamp, padKey bound.id)

/-- The bound after every record. -/
def Bound.infinity : Bound := ⟨u64Max, [], le_rfl, Nat.zero_le _⟩

/-- The bound before every record. -/
def Bound.zero : Bound := ⟨0, [], Nat.zero_le _, Nat.zero_le _⟩

/-- What a range carries. -/
inductive Payload where
  | skip
  | fingerprint (fingerprint : Fingerprint)
  | idList (ids : List Id)
  deriving DecidableEq

/-- One range of a frame. It starts at the bound of the range before it. -/
structure Range where
  bound : Bound
  payload : Payload
  deriving DecidableEq

/-! ## Writing -/

/-- `encode_timestamp_out`, the last timestamp written being `last`. -/
def encodeTimestamp (last timestamp : ℕ) : List UInt8 :=
  if timestamp = u64Max then encodeVarInt 0
  else encodeVarInt (satAdd (timestamp - last) 1)

def encodeBound (last : ℕ) (bound : Bound) : List UInt8 :=
  encodeTimestamp last bound.timestamp ++ (encodeVarInt bound.id.length ++ bound.id)

def encodeIds (ids : List Id) : List UInt8 := ids.flatMap List.Vector.toList

def encodePayload : Payload → List UInt8
  | .skip => encodeVarInt 0
  | .fingerprint fingerprint => encodeVarInt 1 ++ fingerprint.toList
  | .idList ids => encodeVarInt 2 ++ (encodeVarInt ids.length ++ encodeIds ids)

def encodeRange (last : ℕ) (range : Range) : List UInt8 :=
  encodeBound last range.bound ++ encodePayload range.payload

/-- The timestamp that the next bound is coded against. -/
def lastTimestamp (last : ℕ) : List Range → ℕ
  | [] => last
  | range :: ranges => lastTimestamp range.bound.timestamp ranges

def encodeRanges (last : ℕ) : List Range → List UInt8
  | [] => []
  | range :: ranges => encodeRange last range ++ encodeRanges range.bound.timestamp ranges

/-- `PROTOCOL_VERSION`. -/
def protocolVersion : UInt8 := 0x61

/-- A whole frame. -/
def encodeFrame (ranges : List Range) : List UInt8 := protocolVersion :: encodeRanges 0 ranges

theorem lastTimestamp_append (last : ℕ) (a b : List Range) :
    lastTimestamp last (a ++ b) = lastTimestamp (lastTimestamp last a) b := by
  induction a generalizing last with
  | nil => rfl
  | cons range a ih => exact ih _

@[simp]
theorem lastTimestamp_concat (last : ℕ) (a : List Range) (range : Range) :
    lastTimestamp last (a ++ [range]) = range.bound.timestamp := by
  rw [lastTimestamp_append]
  rfl

theorem encodeRanges_append (last : ℕ) (a b : List Range) :
    encodeRanges last (a ++ b) = encodeRanges last a ++ encodeRanges (lastTimestamp last a) b := by
  induction a generalizing last with
  | nil => rfl
  | cons range a ih => simp [encodeRanges, lastTimestamp, ih]

theorem encodeFrame_append (a b : List Range) :
    encodeFrame (a ++ b) = encodeFrame a ++ encodeRanges (lastTimestamp 0 a) b := by
  rw [encodeFrame, encodeRanges_append, ← List.cons_append, encodeFrame]

theorem encodeRanges_eq_nil {last : ℕ} {ranges : List Range} :
    encodeRanges last ranges = [] ↔ ranges = [] := by
  cases ranges with
  | nil => simp [encodeRanges]
  | cons range ranges =>
    have htimestamp : encodeTimestamp last range.bound.timestamp ≠ [] := by
      rw [encodeTimestamp]
      split
      · rw [encodeVarInt_eq]
        exact VarInt.encode_ne_nil _
      · rw [encodeVarInt_eq]
        exact VarInt.encode_ne_nil _
    simp [encodeRanges, encodeRange, encodeBound, htimestamp]

@[simp]
theorem length_encodeIds (ids : List Id) : (encodeIds ids).length = idSize * ids.length := by
  induction ids with
  | nil => rfl
  | cons id ids ih =>
    rw [encodeIds, List.flatMap_cons, List.length_append, ← encodeIds, ih, id.toList_length]
    simp only [List.length_cons, idSize]
    omega

/-! ## Reading -/

/-- Cut `n` bytes off the front. -/
def takeBytes {ε : Type} (error : ε) (n : ℕ) (bytes : List UInt8) :
    Except ε (List UInt8 × List UInt8) :=
  if bytes.length < n then .error error else .ok (bytes.take n, bytes.drop n)

/-- The number at the front, however its faults are reported. -/
def readVarInt (bytes : List UInt8) : Option (ℕ × List UInt8) :=
  (VarInt.read ⟨(), (), ()⟩ u64Max 10 0 bytes).toOption

def readVector (n : ℕ) (bytes : List UInt8) : Option (List.Vector UInt8 n × List UInt8) :=
  if h : n ≤ bytes.length then
    some (⟨bytes.take n, List.length_take_of_le h⟩, bytes.drop n)
  else none

def readIds : ℕ → List UInt8 → Option (List Id × List UInt8)
  | 0, bytes => some ([], bytes)
  | count + 1, bytes => do
    let (id, rest) ← readVector 32 bytes
    let (ids, rest) ← readIds count rest
    return (id :: ids, rest)

/-- The timestamp that a difference spells after `last`. -/
def timestampAfter (last delta : ℕ) : ℕ :=
  if delta = 0 ∨ last = u64Max then u64Max else last + (delta - 1)

def readBound (last : ℕ) (bytes : List UInt8) : Option (Bound × List UInt8) := do
  let (delta, rest) ← readVarInt bytes
  let (length, rest) ← readVarInt rest
  let (id, rest) ← readVector length rest
  if h : timestampAfter last delta ≤ u64Max ∧ id.toList.length ≤ idSize then
    return (⟨timestampAfter last delta, id.toList, h.1, h.2⟩, rest)
  else none

def readPayload (bytes : List UInt8) : Option (Payload × List UInt8) := do
  let (mode, rest) ← readVarInt bytes
  match mode with
  | 0 => return (.skip, rest)
  | 1 =>
    let (fingerprint, rest) ← readVector 16 rest
    return (.fingerprint fingerprint, rest)
  | 2 =>
    let (count, rest) ← readVarInt rest
    let (ids, rest) ← readIds count rest
    return (.idList ids, rest)
  | _ => none

def readRange (last : ℕ) (bytes : List UInt8) : Option (Range × List UInt8) := do
  let (bound, rest) ← readBound last bytes
  let (payload, rest) ← readPayload rest
  return (⟨bound, payload⟩, rest)

/-- The bytes spell the ranges, the last timestamp read being `last`. -/
inductive Parses : ℕ → List UInt8 → List Range → Prop
  | nil (last : ℕ) : Parses last [] []
  | cons {last : ℕ} {bytes rest : List UInt8} {range : Range} {ranges : List Range}
      (head : readRange last bytes = some (range, rest))
      (tail : Parses range.bound.timestamp rest ranges) : Parses last bytes (range :: ranges)

/-! ## What the readers accept -/

theorem takeBytes_eq_ok {ε : Type} {error : ε} {n : ℕ} {bytes : List UInt8}
    {r : List UInt8 × List UInt8} :
    takeBytes error n bytes = .ok r ↔ n ≤ bytes.length ∧ r = (bytes.take n, bytes.drop n) := by
  rw [takeBytes]
  split
  · next h => simp [Nat.not_le.mpr h]
  · next h => simp [Nat.not_lt.mp h, eq_comm]

/-- However faults are reported, the same numbers are read. -/
theorem read_eq_ok_iff {ε : Type} {errors : VarInt.Errors ε} {bytes : List UInt8}
    {r : ℕ × List UInt8} :
    VarInt.read errors u64Max 10 0 bytes = .ok r ↔ readVarInt bytes = some r := by
  rw [readVarInt, Except.toOption_eq_some]
  exact ⟨VarInt.read_ok _, VarInt.read_ok _⟩

theorem length_readVarInt_lt {bytes rest : List UInt8} {n : ℕ}
    (h : readVarInt bytes = some (n, rest)) : rest.length < bytes.length :=
  VarInt.length_read_lt (Except.toOption_eq_some.mp h)

theorem readVector_eq_some {n : ℕ} {bytes rest : List UInt8} {v : List.Vector UInt8 n} :
    readVector n bytes = some (v, rest)
      ↔ n ≤ bytes.length ∧ v.toList = bytes.take n ∧ rest = bytes.drop n := by
  rw [readVector]
  split
  · next h =>
    constructor
    · intro hread
      obtain ⟨rfl, rfl⟩ := Prod.mk.inj (Option.some.inj hread)
      exact ⟨h, rfl, rfl⟩
    · rintro ⟨_, hv, rfl⟩
      have hv' : v = ⟨bytes.take n, List.length_take_of_le h⟩ := List.Vector.toList_injective hv
      rw [hv']
  · next h => simp [h]

/-- A bound is a difference, a length and that many bytes. -/
theorem readBound_eq_some {last : ℕ} {bytes rest : List UInt8} {bound : Bound} :
    readBound last bytes = some (bound, rest) ↔ ∃ delta afterDelta length afterLength,
      readVarInt bytes = some (delta, afterDelta) ∧
      readVarInt afterDelta = some (length, afterLength) ∧ length ≤ afterLength.length ∧
      bound.timestamp = timestampAfter last delta ∧ bound.id = afterLength.take length ∧
      rest = afterLength.drop length := by
  simp only [readBound, Option.bind_eq_bind, Option.bind_eq_some_iff, Prod.exists]
  constructor
  · rintro ⟨delta, afterDelta, hdelta, length, afterLength, hlength, id, rest', hid, h⟩
    obtain ⟨hle, hidList, rfl⟩ := readVector_eq_some.mp hid
    split at h
    · obtain ⟨rfl, rfl⟩ := Prod.mk.inj (Option.some.inj h)
      exact ⟨delta, afterDelta, length, afterLength, hdelta, hlength, hle, rfl, hidList, rfl⟩
    · cases h
  · rintro ⟨delta, afterDelta, length, afterLength, hdelta, hlength, hle, htime, hid, rfl⟩
    refine ⟨delta, afterDelta, hdelta, length, afterLength, hlength,
      ⟨afterLength.take length, List.length_take_of_le hle⟩, afterLength.drop length,
      readVector_eq_some.mpr ⟨hle, rfl, rfl⟩, ?_⟩
    obtain ⟨timestamp, id, hle, hlen⟩ := bound
    obtain rfl : timestamp = _ := htime
    obtain rfl : id = _ := hid
    rw [dif_pos ⟨hle, hlen⟩]
    rfl

/-- A payload is a mode and, after it, nothing, a fingerprint, or a number of ids and these. -/
theorem readPayload_eq_some {bytes rest : List UInt8} {payload : Payload} :
    readPayload bytes = some (payload, rest) ↔ ∃ mode afterMode,
      readVarInt bytes = some (mode, afterMode) ∧
      (mode = 0 ∧ payload = .skip ∧ rest = afterMode ∨
        (∃ fingerprint, mode = 1 ∧ payload = .fingerprint fingerprint ∧
          readVector 16 afterMode = some (fingerprint, rest)) ∨
        ∃ ids count afterCount, mode = 2 ∧ payload = .idList ids ∧
          readVarInt afterMode = some (count, afterCount) ∧
          readIds count afterCount = some (ids, rest)) := by
  simp only [readPayload, Option.bind_eq_bind, Option.bind_eq_some_iff, Prod.exists]
  constructor
  · rintro ⟨mode, afterMode, hmode, h⟩
    refine ⟨mode, afterMode, hmode, ?_⟩
    split at h
    · cases h
      exact Or.inl ⟨rfl, rfl, rfl⟩
    · simp only [Option.bind_eq_some_iff, Prod.exists] at h
      obtain ⟨fingerprint, rest', hread, h⟩ := h
      cases h
      exact Or.inr (Or.inl ⟨fingerprint, rfl, rfl, hread⟩)
    · simp only [Option.bind_eq_some_iff, Prod.exists] at h
      obtain ⟨count, afterCount, hcount, ids, rest', hids, h⟩ := h
      cases h
      exact Or.inr (Or.inr ⟨ids, count, afterCount, rfl, rfl, hcount, hids⟩)
    · cases h
  · rintro ⟨mode, afterMode, hmode, hcase⟩
    refine ⟨mode, afterMode, hmode, ?_⟩
    rcases hcase with ⟨rfl, rfl, rfl⟩ | ⟨fingerprint, rfl, rfl, hvector⟩ |
      ⟨ids, count, afterCount, rfl, rfl, hcount, hids⟩
    · rfl
    · simp only [hvector]
      rfl
    · simp only [hcount, Option.bind_some, hids]
      rfl

/-- A list of ids takes the bytes of that many ids. -/
theorem length_of_readIds {count : ℕ} {bytes rest : List UInt8} {ids : List Id}
    (h : readIds count bytes = some (ids, rest)) :
    ids.length = count ∧ idSize * count + rest.length = bytes.length := by
  induction count generalizing bytes ids with
  | zero =>
    cases h
    exact ⟨rfl, by simp⟩
  | succ count ih =>
    simp only [readIds, Option.bind_eq_bind, Option.bind_eq_some_iff, Prod.exists] at h
    obtain ⟨id, afterId, hid, ids', rest', hids, h⟩ := h
    cases h
    obtain ⟨hle, -, rfl⟩ := readVector_eq_some.mp hid
    obtain ⟨hlength, hbytes⟩ := ih hids
    rw [List.length_drop] at hbytes
    refine ⟨by rw [List.length_cons, hlength], ?_⟩
    rw [idSize] at hbytes ⊢
    omega

theorem readRange_eq_some {last : ℕ} {bytes rest : List UInt8} {range : Range} :
    readRange last bytes = some (range, rest) ↔ ∃ afterBound,
      readBound last bytes = some (range.bound, afterBound) ∧
      readPayload afterBound = some (range.payload, rest) := by
  simp only [readRange, Option.bind_eq_bind, Option.bind_eq_some_iff, Prod.exists]
  constructor
  · rintro ⟨bound, afterBound, hbound, payload, rest', hpayload, h⟩
    obtain ⟨rfl, rfl⟩ := Prod.mk.inj (Option.some.inj h)
    exact ⟨afterBound, hbound, hpayload⟩
  · rintro ⟨afterBound, hbound, hpayload⟩
    exact ⟨range.bound, afterBound, hbound, range.payload, rest, hpayload, rfl⟩

theorem length_readBound_lt {last : ℕ} {bytes rest : List UInt8} {bound : Bound}
    (h : readBound last bytes = some (bound, rest)) : rest.length < bytes.length := by
  obtain ⟨_, afterDelta, _, afterLength, hdelta, hlength, -, -, -, rfl⟩ := readBound_eq_some.mp h
  have hdeltaLt := length_readVarInt_lt hdelta
  have hlengthLt := length_readVarInt_lt hlength
  rw [List.length_drop]
  omega

theorem length_readRange_lt {last : ℕ} {bytes rest : List UInt8} {range : Range}
    (h : readRange last bytes = some (range, rest)) : rest.length < bytes.length := by
  obtain ⟨afterBound, hbound, hpayload⟩ := readRange_eq_some.mp h
  obtain ⟨mode, afterMode, hmode, hcase⟩ := readPayload_eq_some.mp hpayload
  have hboundLt := length_readBound_lt hbound
  have hmodeLt := length_readVarInt_lt hmode
  have hrest : rest.length ≤ afterMode.length := by
    rcases hcase with ⟨-, -, rfl⟩ | ⟨_, -, -, hvector⟩ | ⟨_, _, _, -, -, hcount, hids⟩
    · exact le_rfl
    · obtain ⟨-, -, rfl⟩ := readVector_eq_some.mp hvector
      rw [List.length_drop]
      omega
    · have hcountLt := length_readVarInt_lt hcount
      have hidsLength := (length_of_readIds hids).2
      omega
  omega

/-! ## What is written is read back -/

theorem readVarInt_encode {n : ℕ} (h : n ≤ u64Max) (rest : List UInt8) :
    readVarInt (encodeVarInt n ++ rest) = some (n, rest) := by
  rw [encodeVarInt_eq, readVarInt,
    VarInt.read_encode rest h (h.trans_lt (by rw [u64Max]; norm_num))]
  rfl

theorem readVector_append {n : ℕ} (v : List.Vector UInt8 n) (rest : List UInt8) :
    readVector n (v.toList ++ rest) = some (v, rest) := by
  have hlen : v.toList.length = n := v.toList_length
  refine readVector_eq_some.mpr ⟨by simp [hlen], ?_, ?_⟩
  · exact (List.take_left' hlen).symm
  · exact (List.drop_left' hlen).symm

theorem readIds_encode (ids : List Id) (rest : List UInt8) :
    readIds ids.length (encodeIds ids ++ rest) = some (ids, rest) := by
  induction ids with
  | nil => rfl
  | cons id ids ih =>
    rw [encodeIds, List.flatMap_cons, List.append_assoc, ← encodeIds, List.length_cons, readIds]
    simp [readVector_append, ih]

theorem timestampAfter_delta {last timestamp : ℕ} (h : last ≤ timestamp) (hlt : timestamp < u64Max) :
    timestampAfter last (satAdd (timestamp - last) 1) = timestamp := by
  have hdelta : satAdd (timestamp - last) 1 = timestamp - last + 1 := by
    rw [satAdd]
    omega
  have hlast : last ≠ u64Max := by omega
  rw [hdelta, timestampAfter, if_neg (by omega)]
  omega

theorem readBound_encode {last : ℕ} {bound : Bound} (h : last ≤ bound.timestamp)
    (rest : List UInt8) :
    readBound last (encodeBound last bound ++ rest) = some (bound, rest) := by
  have hlength : bound.id.length ≤ u64Max := bound.length_le.trans (by decide)
  have hrest := readVarInt_encode hlength (bound.id ++ rest)
  -- a bound at the last timestamp is written as the difference 0, and read as such
  obtain ⟨delta, hwrite, hle, hread⟩ : ∃ delta,
      encodeTimestamp last bound.timestamp = encodeVarInt delta ∧ delta ≤ u64Max ∧
      timestampAfter last delta = bound.timestamp := by
    rw [encodeTimestamp]
    split
    · next hmax => exact ⟨0, rfl, Nat.zero_le _, by rw [timestampAfter, if_pos (.inl rfl), hmax]⟩
    · next hmax =>
      have hlt := bound.timestamp_le.lt_of_ne hmax
      exact ⟨_, rfl, min_le_right _ _, timestampAfter_delta h hlt⟩
  refine readBound_eq_some.mpr ⟨delta, encodeVarInt bound.id.length ++ (bound.id ++ rest),
    bound.id.length, bound.id ++ rest, ?_, hrest, ?_, hread.symm, ?_, ?_⟩
  · rw [encodeBound, hwrite, List.append_assoc, List.append_assoc]
    exact readVarInt_encode hle _
  · simp
  · exact List.take_left.symm
  · exact List.drop_left.symm

theorem readPayload_encode {payload : Payload} (h : ∀ ids, payload = .idList ids → ids.length ≤ u64Max)
    (rest : List UInt8) :
    readPayload (encodePayload payload ++ rest) = some (payload, rest) := by
  cases payload with
  | skip => simp [readPayload, encodePayload, readVarInt_encode (n := 0) (by decide)]
  | fingerprint f =>
    simp [readPayload, encodePayload, readVarInt_encode (n := 1) (by decide), readVector_append]
  | idList ids =>
    simp [readPayload, encodePayload, readVarInt_encode (n := 2) (by decide),
      readVarInt_encode (h ids rfl), readIds_encode]

/-- Where a range ends. -/
def Range.stop (range : Range) : ℕ ×ₗ List ℕ := range.bound.position

/-- Each range ends at or after the one before it, the first at or after `start`. -/
def Ordered (start : ℕ ×ₗ List ℕ) (ranges : List Range) : Prop :=
  ranges.Along Range.stop (fun start range => start ≤ range.stop) start

theorem ordered_cons {start : ℕ ×ₗ List ℕ} {range : Range} {ranges : List Range} :
    Ordered start (range :: ranges) ↔
      start ≤ range.bound.position ∧ Ordered range.bound.position ranges :=
  Iff.rfl

/-- The timestamps of the bounds do not decrease. -/
def TimeOrdered (start : ℕ ×ₗ List ℕ) (ranges : List Range) : Prop :=
  ranges.Along Range.stop (fun start range => (ofLex start).1 ≤ range.bound.timestamp) start

/-- The ids of a range can be counted in 64 bits. -/
def Range.Countable (range : Range) : Prop :=
  ∀ ids, range.payload = .idList ids → ids.length ≤ u64Max

theorem timestamp_le_of_position_le {a b : ℕ ×ₗ List ℕ} (h : a ≤ b) : (ofLex a).1 ≤ (ofLex b).1 :=
  (Prod.Lex.le_iff.mp h).elim le_of_lt fun h => h.1.le

theorem Ordered.timeOrdered {start : ℕ ×ₗ List ℕ} {ranges : List Range} (h : Ordered start ranges) :
    TimeOrdered start ranges :=
  List.Along.mono (fun _ _ hle => timestamp_le_of_position_le hle) h

theorem parses_encodeRanges {start : ℕ ×ₗ List ℕ} {ranges : List Range} (h : TimeOrdered start ranges)
    (hcount : ∀ range ∈ ranges, range.Countable) :
    Parses (ofLex start).1 (encodeRanges (ofLex start).1 ranges) ranges := by
  induction ranges generalizing start with
  | nil => exact .nil _
  | cons range ranges ih =>
    obtain ⟨hle, hrest⟩ := h
    have hbound := readBound_encode hle
      (encodePayload range.payload ++ encodeRanges range.bound.timestamp ranges)
    have hpayload := readPayload_encode (hcount range List.mem_cons_self)
      (encodeRanges range.bound.timestamp ranges)
    rw [encodeRanges, encodeRange, List.append_assoc]
    exact .cons (readRange_eq_some.mpr ⟨_, hbound, hpayload⟩)
      (ih hrest fun r hr => hcount r (List.mem_cons_of_mem _ hr))

/-- Bytes spell one list of ranges at most. -/
theorem Parses.unique {last : ℕ} {bytes : List UInt8} {ranges ranges' : List Range}
    (h : Parses last bytes ranges) (h' : Parses last bytes ranges') : ranges = ranges' := by
  induction h generalizing ranges' with
  | nil last =>
    cases h' with
    | nil => rfl
    | cons head _ => exact absurd (length_readRange_lt head) (Nat.not_lt_zero _)
  | cons head _ ih =>
    cases h' with
    | nil => exact absurd (length_readRange_lt head) (Nat.not_lt_zero _)
    | cons head' tail' =>
      obtain ⟨rfl, rfl⟩ := Prod.mk.inj (Option.some.inj (head.symm.trans head'))
      rw [ih tail']

end NostrPubsub.Reconcile
