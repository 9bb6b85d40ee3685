import NostrPubsub.Stream.TcpDriver
import NostrPubsub.ToMathlib.LengthPrefix

/-!
# Records of the wire driver

The queue of a peer and the decoder of its input, of `nostr-pubsub-fips/src/wire_tcp.rs`. A frame
travels as a record: its length in four bytes, then its bytes.

A queue is the frames that are not completely written, with what was written of the first one
(`PeerQueue.Holds`); writing takes bytes off it in order (`PeerQueue.Holds.consume`).
-/

namespace NostrPubsub.WireTcp

/-- `IO_CHUNK_BYTES`. -/
def ioChunkBytes : ℕ := 16 * 1024

/-- `storage_error`. -/
def storageContext (context error : String) : PubsubError := .storage s!"{context}: {error}"

/-! ## Queues -/

/-- The record of a frame. -/
abbrev recordOf (frame : List UInt8) : List UInt8 := LengthPrefix.frame 4 frame

/-- `encode_record`. -/
def encodeRecord (frame : List UInt8) : Except PubsubError (List UInt8) :=
  if frame.length ≤ u32Max then .ok (recordOf frame)
  else .error (.storage "pubsub frame is too large")

namespace PeerQueue

/-- `PeerQueue::restart`. -/
def restart (queue : PeerQueue) : PeerQueue where
  records := queue.records.map fun record => { record with offset := 0 }
  bytes := (queue.records.map fun record => record.bytes.length).sum

/-- The bytes that are still to be written. -/
def unsent (records : List QueuedRecord) : List UInt8 :=
  records.flatMap fun record => record.bytes.drop record.offset

/-- The loop of `flush_queues` that takes written bytes off the records. It does not take more than
there is. -/
def consume : List QueuedRecord → ℕ → List QueuedRecord
  | [], _ => []
  | record :: records, remaining =>
    if remaining = 0 then record :: records
    else
      let consumed := min remaining (record.bytes.length - record.offset)
      if record.offset + consumed = record.bytes.length then consume records (remaining - consumed)
      else { record with offset := record.offset + consumed } :: records

/-- The records are those of these frames, with so many bytes of the first one written. -/
inductive Holds : List QueuedRecord → List (List UInt8) → ℕ → Prop
  | nil : Holds [] [] 0
  | cons {frame : List UInt8} {frames : List (List UInt8)} {offset : ℕ}
    (h : offset < (recordOf frame).length) :
    Holds ({ bytes := recordOf frame, offset } ::
      frames.map fun frame => { bytes := recordOf frame, offset := 0 }) (frame :: frames) offset

/-- The bytes of frames on the wire. -/
def wire (frames : List (List UInt8)) : List UInt8 := (frames.map recordOf).flatten

theorem wire_cons (frame : List UInt8) (frames : List (List UInt8)) :
    wire (frame :: frames) = recordOf frame ++ wire frames := by
  simp [wire]

theorem wire_append (frames frames' : List (List UInt8)) :
    wire (frames ++ frames') = wire frames ++ wire frames' := by
  simp [wire]

theorem length_recordOf_pos (frame : List UInt8) : 0 < (recordOf frame).length := by
  rw [LengthPrefix.length_frame]
  omega

theorem unsent_of_start (frames : List (List UInt8)) :
    unsent (frames.map fun frame => { bytes := recordOf frame, offset := 0 }) = wire frames := by
  rw [unsent, List.flatMap_map, wire, List.flatMap_def]
  rfl

/-- Records of which nothing is written. -/
theorem holds_start (frames : List (List UInt8)) :
    Holds (frames.map fun frame => { bytes := recordOf frame, offset := 0 }) frames 0 := by
  cases frames with
  | nil => exact .nil
  | cons frame frames => exact .cons (length_recordOf_pos frame)

variable {records : List QueuedRecord} {frames : List (List UInt8)} {offset : ℕ}

theorem Holds.unsent_eq (h : Holds records frames offset) :
    unsent records = (wire frames).drop offset := by
  cases h with
  | nil => rfl
  | cons hoffset =>
    rw [wire_cons, List.drop_append_of_le_length hoffset.le, unsent, List.flatMap_cons, ← unsent,
      unsent_of_start]

/-- After a restart the first frame is sent from its first byte. -/
theorem Holds.restart (h : Holds records frames offset) {bytes : ℕ} :
    Holds (PeerQueue.restart { records, bytes }).records frames 0 := by
  have hstart : (PeerQueue.restart { records, bytes }).records
      = frames.map fun frame => { bytes := recordOf frame, offset := 0 } := by
    cases h with
    | nil => rfl
    | cons _ => simp [PeerQueue.restart]
  rw [hstart]
  exact holds_start frames

/-- One frame more. -/
theorem Holds.push (h : Holds records frames offset) (frame : List UInt8) :
    Holds (records ++ [{ bytes := recordOf frame, offset := 0 }]) (frames ++ [frame]) offset := by
  cases h with
  | nil => exact holds_start [frame]
  | @cons first frames offset hoffset =>
    have hcons : Holds _ (first :: (frames ++ [frame])) offset := .cons hoffset
    rwa [List.map_append] at hcons

/-- Writing bytes takes some frames off completely, and some bytes of the next. -/
theorem Holds.consume (h : Holds records frames offset) {n : ℕ} (hn : n ≤ (unsent records).length) :
    ∃ taken rest offset', frames = taken ++ rest ∧ Holds (consume records n) rest offset' ∧
      (wire frames).take (offset + n) = wire taken ++ (wire rest).take offset' := by
  induction frames generalizing records offset n with
  | nil =>
    cases h
    exact ⟨[], [], 0, rfl, .nil, by simp [wire]⟩
  | cons frame frames ih =>
    cases h with
    | cons hoffset =>
      rw [PeerQueue.consume]
      by_cases hzero : n = 0
      · subst hzero
        rw [if_pos rfl]
        exact ⟨[], frame :: frames, offset, rfl, .cons hoffset, by simp [wire]⟩
      · rw [if_neg hzero]
        rcases Nat.lt_or_ge n ((recordOf frame).length - offset) with hpart | hwhole
        · -- the first record is not used up
          dsimp only
          rw [min_eq_left hpart.le, if_neg (by omega)]
          exact ⟨[], frame :: frames, offset + n, rfl, .cons (by omega), by simp [wire]⟩
        · dsimp only
          rw [min_eq_right hwhole, if_pos (by omega)]
          have hrest : n - ((recordOf frame).length - offset)
              ≤ (unsent (frames.map fun frame => { bytes := recordOf frame, offset := 0 })).length := by
            rw [unsent, List.flatMap_cons, ← unsent, List.length_append, List.length_drop] at hn
            dsimp only at hn
            omega
          obtain ⟨taken, rest, offset', rfl, hholds, hwire⟩ := ih (holds_start frames) hrest
          refine ⟨frame :: taken, rest, offset', rfl, hholds, ?_⟩
          have hsum : offset + n = (recordOf frame).length
              + (0 + (n - ((recordOf frame).length - offset))) := by omega
          rw [hsum, wire_cons, List.take_length_add_append, hwire, wire_cons, List.append_assoc]

end PeerQueue

/-! ## Decoders -/

/-- `RecordDecoder`. -/
structure RecordDecoder where
  maxFrameBytes : ℕ
  buffer : List UInt8 := []
  deriving DecidableEq

namespace RecordDecoder

/-- `RecordDecoder::push`. -/
def push (decoder : RecordDecoder) (bytes : List UInt8) :
    Except PubsubError Unit × RecordDecoder :=
  if decoder.maxFrameBytes + 4 < decoder.buffer.length + bytes.length then
    (.error (.storage "TCP/FIPS pubsub input exceeds frame bound"), { decoder with buffer := [] })
  else (.ok (), { decoder with buffer := decoder.buffer ++ bytes })

/-- The loop of `RecordDecoder::take`: the frames, and what is left of the buffer. -/
def takeFrames (maxFrameBytes : ℕ) : ℕ → List UInt8 →
    Except PubsubError (List (List UInt8) × List UInt8)
  | 0, buffer => .ok ([], buffer)
  | maxFrames + 1, buffer =>
    match LengthPrefix.front 4 maxFrameBytes buffer with
    | .incomplete => .ok ([], buffer)
    | .tooLong _ => .error (.storage "TCP/FIPS pubsub frame exceeds configured bound")
    | .record frame rest =>
      (takeFrames maxFrameBytes maxFrames rest).map fun (frames, buffer) => (frame :: frames, buffer)

/-- `RecordDecoder::take`. -/
def take (decoder : RecordDecoder) (maxFrames : ℕ) :
    Except PubsubError (List (List UInt8)) × RecordDecoder :=
  match takeFrames decoder.maxFrameBytes maxFrames decoder.buffer with
  | .ok (frames, buffer) => (.ok frames, { decoder with buffer })
  | .error error => (.error error, { decoder with buffer := [] })

/-- `RecordDecoder::has_complete_record`. -/
def hasCompleteRecord (decoder : RecordDecoder) : Bool :=
  4 ≤ decoder.buffer.length ∧
    (decoder.maxFrameBytes < LengthPrefix.declared 4 decoder.buffer ∨
      4 + LengthPrefix.declared 4 decoder.buffer ≤ decoder.buffer.length)

/-- `RecordDecoder::remaining_capacity`. -/
def remainingCapacity (decoder : RecordDecoder) : ℕ :=
  decoder.maxFrameBytes + 4 - decoder.buffer.length

/-- Nothing to take is neither a complete record nor a length over the bound. -/
theorem hasCompleteRecord_eq_false {decoder : RecordDecoder} :
    decoder.hasCompleteRecord = false ↔
      LengthPrefix.front 4 decoder.maxFrameBytes decoder.buffer = .incomplete := by
  rw [hasCompleteRecord, decide_eq_false_iff_not, LengthPrefix.front]
  constructor
  · intro h
    by_cases hshort : decoder.buffer.length < 4
    · rw [if_pos hshort]
    · rw [if_neg hshort, if_neg, if_pos]
      · by_contra hwhole
        exact h ⟨by omega, .inr (by omega)⟩
      · exact fun hlong => h ⟨by omega, .inl hlong⟩
  · rintro h ⟨hlength, hready⟩
    rw [if_neg (by omega)] at h
    split_ifs at h with hlong hpart
    omega

/-- A full decoder is never stuck. -/
theorem hasCompleteRecord_of_full {decoder : RecordDecoder} (h : decoder.remainingCapacity = 0) :
    decoder.hasCompleteRecord = true := by
  rw [remainingCapacity] at h
  rw [hasCompleteRecord, decide_eq_true_iff]
  refine ⟨by omega, ?_⟩
  rcases Nat.lt_or_ge decoder.maxFrameBytes (LengthPrefix.declared 4 decoder.buffer) with hlong | hfits
  · exact .inl hlong
  · exact .inr (by omega)

/-- No more frames are taken than asked for. -/
theorem length_takeFrames {maxFrameBytes maxFrames : ℕ} {buffer rest : List UInt8}
    {frames : List (List UInt8)}
    (h : takeFrames maxFrameBytes maxFrames buffer = .ok (frames, rest)) :
    frames.length ≤ maxFrames := by
  induction maxFrames generalizing buffer frames with
  | zero =>
    cases h
    exact Nat.le_refl 0
  | succ maxFrames ih =>
    rw [takeFrames] at h
    split at h
    · cases h
      exact Nat.zero_le _
    · cases h
    · rename_i frame rest' _
      cases hrest : takeFrames maxFrameBytes maxFrames rest' with
      | error error =>
        rw [hrest] at h
        cases h
      | ok result =>
        rw [hrest] at h
        cases h
        exact Nat.succ_le_succ (ih hrest)

/-- Taking frames leaves no more in the buffer. -/
theorem length_le_of_takeFrames {maxFrameBytes maxFrames : ℕ} {buffer rest : List UInt8}
    {frames : List (List UInt8)}
    (h : takeFrames maxFrameBytes maxFrames buffer = .ok (frames, rest)) :
    rest.length ≤ buffer.length := by
  induction maxFrames generalizing buffer frames with
  | zero =>
    cases h
    exact Nat.le_refl _
  | succ maxFrames ih =>
    rw [takeFrames] at h
    split at h
    · cases h
      exact Nat.le_refl _
    · cases h
    · rename_i frame rest' hfront
      have hlength := LengthPrefix.length_of_front_record hfront
      cases hrest : takeFrames maxFrameBytes maxFrames rest' with
      | error error =>
        rw [hrest] at h
        cases h
      | ok result =>
        rw [hrest] at h
        cases h
        have hle := ih hrest
        omega

/-- The decoder never holds more than one whole record: a push. -/
theorem length_push_le (decoder : RecordDecoder) (bytes : List UInt8) :
    (decoder.push bytes).2.buffer.length ≤ decoder.maxFrameBytes + 4 := by
  unfold push
  split
  · exact Nat.zero_le _
  · rw [List.length_append]
    omega

theorem push_eq {decoder : RecordDecoder} {bytes : List UInt8}
    (h : decoder.buffer.length ≤ decoder.maxFrameBytes + 4)
    (hroom : bytes.length ≤ decoder.remainingCapacity) :
    decoder.push bytes = (.ok (), { decoder with buffer := decoder.buffer ++ bytes }) := by
  rw [remainingCapacity] at hroom
  rw [push, if_neg (by omega)]

/-- The decoder never holds more than one whole record: taking frames. -/
theorem length_take_le (decoder : RecordDecoder) (maxFrames : ℕ) :
    (decoder.take maxFrames).2.buffer.length ≤ decoder.buffer.length := by
  unfold take
  split
  · rename_i hframes
    exact length_le_of_takeFrames hframes
  · exact Nat.zero_le _

end RecordDecoder

end NostrPubsub.WireTcp
