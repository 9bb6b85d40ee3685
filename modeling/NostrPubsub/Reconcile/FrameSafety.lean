import NostrPubsub.Reconcile.EngineLoop
import NostrPubsub.Reconcile.Validation

/-!
# Validated frames cannot break the engine

`validation.rs` and the engine read a frame with decoders of their own: the validator adds timestamps
with a check and takes the bytes of all ids at once, the engine adds with saturation and takes ids one
by one. On a frame that the validator accepts both read the same ranges, and the engine returns: no
decoder of it fails, no call of the storage or slice is out of range and no subtraction underflows
(`validated_frame_answered`).

`decodeRange` puts the decoders of the engine together as an iteration of its loop calls them
(`decodeRange_of_iteration`).
-/

namespace NostrPubsub.Reconcile

namespace Negentropy

/-! ## What the engine reads -/

/-- The ids of a list, in their order. -/
def decodeIds : ℕ → List UInt8 → Except Error (List (List UInt8) × List UInt8)
  | 0, encoded => .ok ([], encoded)
  | num + 1, encoded => do
    let (e, encoded) ← getByteArray 32 encoded
    let (ids, encoded) ← decodeIds num encoded
    return (e.toList :: ids, encoded)

/-- What an iteration reads. -/
def decodeRange (lastTimestampIn : ℕ) (query : List UInt8) :
    Except Error (Validation.ReadRange × List UInt8) := do
  let (currBound, query) ← decodeBound lastTimestampIn query
  let (mode, query) ← decodeMode query
  let id := currBound.id.toList.take currBound.idLen
  match mode with
  | .skip => return (⟨currBound.timestamp, id, 0, []⟩, query)
  | .fingerprint =>
    let (theirFingerprint, query) ← getByteArray 16 query
    return (⟨currBound.timestamp, id, 1, [theirFingerprint.toList]⟩, query)
  | .idList =>
    let (numIds, query) ← decodeVarInt query
    if query.length / idSize < numIds then .error .parseEndsPrematurely
    else
      let (ids, query) ← decodeIds numIds query
      return (⟨currBound.timestamp, id, 2, ids⟩, query)

/-- The decoders of the engine, run over all bytes. -/
def decodeRanges : ℕ → (lastTimestampIn : ℕ) → List UInt8 →
    Except Error (List Validation.ReadRange)
  | 0, _, _ => .ok []
  | fuel + 1, lastTimestampIn, query =>
    if query = [] then .ok []
    else do
      let (read, query) ← decodeRange lastTimestampIn query
      let rest ← decodeRanges fuel read.timestamp query
      return read :: rest

/-- The decoders of the engine, run over a whole frame. -/
def decodeFrame (bytes : List UInt8) : Except Error (List Validation.ReadRange) := do
  let (_version, query) ← getByteArray 1 bytes
  decodeRanges query.length 0 query

variable (self : Negentropy)

/-- What the loop reads until it is done, and whether it stopped before the end of the query. -/
def loopReads : ℕ → Locals → List UInt8 → List Validation.ReadRange × Bool
  | 0, _, _ => ([], false)
  | fuel + 1, locals, query =>
    if query = [] then ([], false)
    else
      match decodeRange locals.lastTimestampIn query, self.iteration locals query with
      | .ok (read, _), .ok (.next locals, query) =>
        let (reads, stopped) := loopReads fuel locals query
        (read :: reads, stopped)
      | .ok (read, _), .ok (.stop _, _) => ([read], true)
      | _, _ => ([], true)

/-- What `reconcile_aux` reads of a frame. -/
def frameReads (bytes : List UInt8) : List Validation.ReadRange × Bool :=
  self.loopReads (bytes.drop 1).length Locals.init (bytes.drop 1)

/-! ## An iteration reads what the decoders read -/

theorem decodeIds_of_decodeElems {num : ℕ} {theirElems elems : Finset Id}
    {encoded rest : List UInt8} (h : decodeElems num theirElems encoded = .ok (elems, rest)) :
    ∃ ids, decodeIds num encoded = .ok (ids, rest) := by
  induction num generalizing theirElems encoded with
  | zero =>
    cases h
    exact ⟨[], rfl⟩
  | succ num ih =>
    rw [decodeElems] at h
    obtain ⟨⟨e, afterId⟩, he, h⟩ := Except.bind_eq_ok.mp h
    obtain ⟨ids, hids⟩ := ih h
    exact ⟨e.toList :: ids, Except.bind_eq_ok.mpr ⟨_, he, Except.bind_eq_ok.mpr ⟨_, hids, rfl⟩⟩⟩

/-- In every state, an iteration that returns reads what `decodeRange` says. -/
theorem decodeRange_of_iteration {locals : Locals} {query rest : List UInt8}
    {flow : Party.Flow Locals} (h : self.iteration locals query = .ok (flow, rest)) :
    ∃ read, decodeRange locals.lastTimestampIn query = .ok (read, rest) := by
  rw [iteration] at h
  obtain ⟨⟨currBound, afterBound⟩, hbound, h⟩ := Except.bind_eq_ok.mp h
  obtain ⟨⟨mode, afterMode⟩, hmode, h⟩ := Except.bind_eq_ok.mp h
  obtain ⟨upper, -, h⟩ := Except.bind_eq_ok.mp h
  rw [decodeRange, hbound]
  simp only [Except.ok_bind, hmode]
  cases mode with
  | skip =>
    obtain ⟨flow', -, h⟩ := Except.bind_eq_ok.mp h
    cases h
    exact ⟨_, rfl⟩
  | fingerprint =>
    obtain ⟨⟨theirs, afterTheirs⟩, htheirs, h⟩ := Except.bind_eq_ok.mp h
    obtain ⟨turn, -, h⟩ := Except.bind_eq_ok.mp h
    obtain ⟨flow', -, h⟩ := Except.bind_eq_ok.mp h
    cases h
    simp only [htheirs, Except.ok_bind]
    exact ⟨_, rfl⟩
  | idList =>
    obtain ⟨⟨numIds, afterNum⟩, hnum, h⟩ := Except.bind_eq_ok.mp h
    simp only at h
    split at h
    · cases h
    next henough =>
    obtain ⟨⟨theirElems, afterElems⟩, helems, h⟩ := Except.bind_eq_ok.mp h
    obtain ⟨turn, -, h⟩ := Except.bind_eq_ok.mp h
    obtain ⟨flow', -, h⟩ := Except.bind_eq_ok.mp h
    cases h
    obtain ⟨ids, hids⟩ := decodeIds_of_decodeElems helems
    simp only [hnum, Except.ok_bind, if_neg henough, hids]
    exact ⟨_, rfl⟩

/-! ## The decoders agree -/

theorem decodeIds_of_read {count : ℕ} {bytes rest : List UInt8} {ids : List Id}
    (h : readIds count bytes = some (ids, rest)) :
    decodeIds count bytes = .ok (ids.map List.Vector.toList, rest) := by
  induction count generalizing bytes ids with
  | zero =>
    cases h
    rfl
  | succ count ih =>
    simp only [readIds, Option.bind_eq_bind, Option.bind_eq_some_iff, Prod.exists] at h
    obtain ⟨id, afterId, hid, ids', rest', hids, h⟩ := h
    cases h
    exact Except.bind_eq_ok.mpr ⟨_, getByteArray_of_read hid,
      Except.bind_eq_ok.mpr ⟨_, ih hids, rfl⟩⟩

theorem take_idLen_ofWire (bound : Reconcile.Bound) :
    (Bound.ofWire bound).id.toList.take (Bound.ofWire bound).idLen = bound.id := by
  show List.take bound.id.length ((bound.id ++ List.replicate 32 0).take 32) = bound.id
  have hlen : bound.id.length ≤ 32 := bound.length_le
  rw [List.take_take, Nat.min_eq_left hlen, List.take_left]

theorem decodeRange_of_read {last : ℕ} {bytes rest : List UInt8} {range : Range}
    (h : readRange last bytes = some (range, rest)) :
    decodeRange last bytes = .ok (Validation.ReadRange.ofRange range, rest) := by
  obtain ⟨bound, payload⟩ := range
  obtain ⟨afterBound, hbound, hpayload⟩ := readRange_eq_some.mp h
  obtain ⟨mode, afterMode, hmode, hcase⟩ := readPayload_eq_some.mp hpayload
  have hid := take_idLen_ofWire bound
  have htimestamp : (Bound.ofWire bound).timestamp = bound.timestamp := rfl
  rw [decodeRange, decodeBound_of_read hbound, Except.ok_bind]
  simp only [decodeMode, decodeVarInt_of_read hmode, Except.ok_bind, hid, htimestamp]
  rcases hcase with ⟨rfl, rfl, rfl⟩ | ⟨fingerprint, rfl, rfl, hvector⟩ |
    ⟨ids, count, afterCount, rfl, rfl, hcount, hids⟩
  · rfl
  · simp only [Mode.tryFrom, pure, Except.pure, Except.ok_bind, getByteArray_of_read hvector]
    rfl
  · have hbytes := (length_of_readIds hids).2
    have henough : ¬afterCount.length / idSize < count := by
      rw [idSize] at hbytes ⊢
      omega
    simp only [Mode.tryFrom, pure, Except.pure, Except.ok_bind, decodeVarInt_of_read hcount,
      if_neg henough, decodeIds_of_read hids]
    rfl

theorem decodeRanges_of_parses {fuel last : ℕ} {bytes : List UInt8} {ranges : List Range}
    (hparses : Parses last bytes ranges) (hfuel : bytes.length ≤ fuel) :
    decodeRanges fuel last bytes = .ok (ranges.map Validation.ReadRange.ofRange) := by
  induction ranges generalizing fuel last bytes with
  | nil =>
    cases hparses
    cases fuel <;> rfl
  | cons range ranges ih =>
    cases hparses with
    | cons hread htail =>
      rename_i rest
      have hshorter := length_readRange_lt hread
      obtain ⟨fuel, rfl⟩ : ∃ n, fuel = n + 1 := ⟨fuel - 1, by omega⟩
      have hne : bytes ≠ [] := by
        rintro rfl
        exact absurd hshorter (Nat.not_lt_zero _)
      have hrest := @ih fuel range.bound.timestamp rest htail (by omega)
      rw [decodeRanges, if_neg hne, decodeRange_of_read hread, Except.ok_bind]
      exact Except.bind_eq_ok.mpr ⟨_, hrest, rfl⟩

/-- The loop reads the ranges one after the other, and all of them if it does not stop before. -/
theorem loopReads_of_parses {progress : Party.Progress} {ranges : List Range} {query : List UInt8}
    {fuel : ℕ} (hparses : Parses progress.prevBound.timestamp query ranges)
    (hordered : Ordered progress.prevBound.position ranges) (hfuel : query.length ≤ fuel) :
    let reads := self.loopReads fuel (Locals.ofProgress self progress) query
    reads.1 <+: ranges.map Validation.ReadRange.ofRange ∧
      (reads.2 = false → reads.1 = ranges.map Validation.ReadRange.ofRange) := by
  induction ranges generalizing progress query fuel with
  | nil =>
    cases hparses
    cases fuel <;> exact ⟨List.nil_prefix, fun _ => rfl⟩
  | cons range ranges ih =>
    cases hparses with
    | cons hread htail =>
      rename_i rest
      obtain ⟨hle, hrest⟩ := ordered_cons.mp hordered
      have hshorter := length_readRange_lt hread
      obtain ⟨fuel, rfl⟩ : ∃ n, fuel = n + 1 := ⟨fuel - 1, by omega⟩
      have hne : query ≠ [] := by
        rintro rfl
        exact absurd hshorter (Nat.not_lt_zero _)
      have hdecoded : decodeRange (Locals.ofProgress self progress).lastTimestampIn query =
          .ok (Validation.ReadRange.ofRange range, rest) := decodeRange_of_read hread
      obtain ⟨flow, hiteration, hfollows⟩ := self.iteration_eq hle hread
      rw [loopReads, if_neg hne, hdecoded, hiteration, List.map_cons]
      cases hstep : self.party.step progress range with
      | next progress' =>
        rw [hstep] at hfollows
        cases flow with
        | next locals =>
          obtain rfl : locals = Locals.ofProgress self progress' := hfollows
          have hprev := prevBound_of_step hstep
          rw [← hprev] at htail hrest
          obtain ⟨hreads, hall⟩ := @ih progress' rest fuel htail hrest (by omega)
          exact ⟨List.cons_prefix_cons.mpr ⟨rfl, hreads⟩, fun h => congrArg _ (hall h)⟩
        | stop locals => exact hfollows.elim
      | stop progress' =>
        rw [hstep] at hfollows
        cases flow with
        | next locals => exact hfollows.elim
        | stop locals =>
          exact ⟨List.cons_prefix_cons.mpr ⟨rfl, List.nil_prefix⟩, fun h => Bool.noConfusion h⟩

end Negentropy

open Negentropy

/-- An accepted frame is answered by a responder and by an initiator, in every state of the engine
and over every snapshot. The engine reads of it what the validator reads: its decoders over the whole
frame, and its loop until it cuts the answer. -/
theorem validated_frame_answered (self : Negentropy) {bytes : List UInt8}
    (h : Validation.validate bytes = .ok ()) :
    (self.isInitiator = false → ∃ r, self.reconcile bytes = .ok r) ∧
      (self.isInitiator = true → ∃ r, self.reconcileWithIds bytes = .ok r) ∧
      ∃ reads, Validation.readFrame bytes = .ok reads ∧ decodeFrame bytes = .ok reads ∧
        (self.frameReads bytes).1 <+: reads ∧
        ((self.frameReads bytes).2 = false → (self.frameReads bytes).1 = reads) := by
  obtain ⟨reads, hreads, -⟩ := Except.map_eq_ok.mp h
  obtain ⟨body, ranges, rfl, hparses, hordered, rfl⟩ := Validation.exists_ranges hreads
  obtain ⟨locals, haux, -⟩ := self.reconcileAux_eq hparses hordered
  refine ⟨?_, ?_, ranges.map Validation.ReadRange.ofRange, hreads, ?_, ?_⟩
  · intro hresponder
    refine ⟨(locals.fullOutput, self.afterFrame locals), ?_⟩
    rw [reconcile, hresponder, haux]
    rfl
  · intro hinitiator
    refine ⟨(if locals.fullOutput.length = 1 then none else some locals.fullOutput, locals.haveIds,
      locals.needIds, self.afterFrame locals), ?_⟩
    rw [reconcileWithIds, hinitiator, haux]
    rfl
  · exact decodeRanges_of_parses hparses le_rfl
  · have hloop := @loopReads_of_parses self Party.Progress.init ranges body body.length hparses
      hordered le_rfl
    rw [← Locals.init_eq] at hloop
    exact hloop

theorem small_lt_u64Max (timestamp : Fin 1000) : (timestamp : ℕ) < u64Max :=
  timestamp.isLt.trans (by decide)

private def recordAt (timestamp : Fin 1000) (id : UInt8) : Item :=
  ⟨timestamp, List.Vector.replicate 32 id, small_lt_u64Max timestamp⟩

theorem length_take_padded (bytes : List UInt8) :
    ((bytes ++ List.replicate 32 0).take 32).length = 32 := by
  simp

private theorem nodup_records : ([recordAt 5 1, recordAt 5 2].map Item.id).Nodup := by decide

/-- A responder with two records and no limit, and hashing that keeps the first bytes. -/
private def responder : Negentropy where
  sha256 := fun bytes => ⟨(bytes ++ List.replicate 32 0).take 32, length_take_padded bytes⟩
  storage := .seal [recordAt 5 1, recordAt 5 2] nodup_records
  frameSizeLimit := 4096
  frameSizeLimit_ok := .inr le_rfl

theorem validated_frame_answered_idList :
    Validation.validate [0x61, 6, 1, 2, 0, 0, 0, 2, 0] = .ok () ∧
      ∃ r, responder.reconcile [0x61, 6, 1, 2, 0, 0, 0, 2, 0] = .ok r := by
  have hvalid : Validation.validate [0x61, 6, 1, 2, 0, 0, 0, 2, 0] = .ok () := by decide +kernel
  exact ⟨hvalid, (validated_frame_answered responder hvalid).1 rfl⟩

end NostrPubsub.Reconcile
