import NostrPubsub.Reconcile.EngineLoop

/-!
# The coding of numbers and bounds

A number is read back from its bytes, and of the bytes that spell it only those with a zero digit
in front are not what `encode_var_int` writes. A bound is coded against the timestamp of the bound
before it, on both sides in a field of the engine; bounds that do not decrease are read back in
order, also past the timestamp that stands for infinity.
-/

namespace NostrPubsub.Reconcile

namespace Negentropy

/-- Calls of `encode_bound`, one bound after another. -/
def encodeBounds (lastTimestampOut : ℕ) : List Bound → List UInt8 × ℕ
  | [] => ([], lastTimestampOut)
  | bound :: bounds =>
    let (output, lastTimestampOut) := encodeBound lastTimestampOut bound
    let (outputs, lastTimestampOut) := encodeBounds lastTimestampOut bounds
    (output ++ outputs, lastTimestampOut)

/-- Calls of `decode_bound` on what the call before left. -/
def decodeBounds : (count lastTimestampIn : ℕ) → List UInt8 →
    Except Error (List Bound × List UInt8)
  | 0, _, encoded => .ok ([], encoded)
  | count + 1, lastTimestampIn, encoded => do
    let (bound, encoded) ← decodeBound lastTimestampIn encoded
    let (bounds, encoded) ← decodeBounds count bound.timestamp encoded
    return (bound :: bounds, encoded)

/-- The bound has a 64-bit timestamp and the first bytes of an id. -/
def Bound.Valid (bound : Bound) : Prop :=
  ∃ timestamp id, timestamp ≤ u64Max ∧ Bound.withTimestampAndId timestamp id = .ok bound

theorem Bound.Valid.exists_ofWire {bound : Bound} (h : bound.Valid) :
    ∃ wire, bound = Bound.ofWire wire := by
  obtain ⟨timestamp, id, htimestamp, hbound⟩ := h
  rw [withTimestampAndId] at hbound
  split at hbound
  · cases hbound
  · next hlength =>
    exact ⟨⟨timestamp, id, htimestamp, Nat.not_lt.mp hlength⟩, (Except.ok.inj hbound).symm⟩

theorem Bound.timestamp_le_of_position_le {a b : Bound} (h : a.position ≤ b.position) :
    a.timestamp ≤ b.timestamp :=
  Reconcile.timestamp_le_of_position_le h

/-- The next bound is read back, and what follows it is left. -/
theorem decodeBound_encodeBound {last : ℕ} {bound : Bound} (hvalid : bound.Valid)
    (hlast : last ≤ bound.timestamp) (rest : List UInt8) :
    decodeBound last ((encodeBound last bound).1 ++ rest) = .ok (bound, rest) := by
  obtain ⟨wire, rfl⟩ := hvalid.exists_ofWire
  rw [encodeBound_ofWire]
  exact decodeBound_of_read (readBound_encode hlast rest)

/-- After any bound, the two sides code against the same timestamp. -/
theorem decodeBounds_encodeBounds {last : ℕ} {bounds : List Bound} (rest : List UInt8)
    (hvalid : ∀ bound ∈ bounds, bound.Valid) (hlast : ∀ bound ∈ bounds, last ≤ bound.timestamp)
    (hsorted : bounds.Pairwise fun a b => a.timestamp ≤ b.timestamp) :
    decodeBounds bounds.length last ((encodeBounds last bounds).1 ++ rest) = .ok (bounds, rest) := by
  induction bounds generalizing last with
  | nil => rfl
  | cons bound bounds ih =>
    obtain ⟨hfirst, hsorted⟩ := List.pairwise_cons.mp hsorted
    have hhead := decodeBound_encodeBound (hvalid bound List.mem_cons_self)
      (hlast bound List.mem_cons_self) ((encodeBounds bound.timestamp bounds).1 ++ rest)
    have htail := @ih bound.timestamp (fun b hb => hvalid b (List.mem_cons_of_mem _ hb)) hfirst hsorted
    show decodeBounds (bounds.length + 1) last
      (((encodeBound last bound).1 ++ (encodeBounds bound.timestamp bounds).1) ++ rest) = _
    rw [List.append_assoc, decodeBounds, hhead]
    simp only [Except.ok_bind, htail]
    rfl

/-- Numbers and sequences of bounds are read back, and a number has one encoding without a zero
digit in front. -/
theorem coding_round_trips :
    (∀ n ≤ u64Max, ∀ suffix, decodeVarInt (encodeVarInt n ++ suffix) = .ok (n, suffix)) ∧
    (∀ n ≤ u64Max, (encodeVarInt n).length ≤ 10 ∧ (encodeVarInt n).head? ≠ some 0x80 ∧
      ∀ encoded, decodeVarInt encoded = .ok (n, []) → encoded.head? ≠ some 0x80 →
        encoded = encodeVarInt n) ∧
    (∀ bounds : List Bound, (∀ bound ∈ bounds, bound.Valid) →
      bounds.Pairwise (fun a b => a.position ≤ b.position) →
      decodeBounds bounds.length 0 (encodeBounds 0 bounds).1 = .ok (bounds, [])) := by
  refine ⟨fun n hn suffix => ?_, fun n hn => ⟨?_, ?_, fun encoded h hhead => ?_⟩,
    fun bounds hvalid hsorted => ?_⟩
  · exact decodeVarInt_of_read (readVarInt_encode hn suffix)
  · rw [encodeVarInt_eq]
    exact VarInt.length_encode_le (hn.trans_lt (by rw [u64Max]; norm_num))
  · rw [encodeVarInt_eq]
    exact VarInt.head?_encode_ne n
  · have := VarInt.append_of_read h (.inr hhead)
    rwa [VarInt.leading_zero, List.nil_append, List.append_nil, ← encodeVarInt_eq] at this
  · have htimes := hsorted.imp fun hle => Bound.timestamp_le_of_position_le hle
    have := decodeBounds_encodeBounds [] hvalid (fun bound _ => Nat.zero_le bound.timestamp) htimes
    rwa [List.append_nil] at this

/-- Two bounds past every record, the second with a byte of an id. -/
theorem coding_round_trips_infinity :
    decodeBounds 2 0 (encodeBounds 0 [Bound.ofPrefix u64Max [], Bound.ofPrefix u64Max [1]]).1 =
      .ok ([Bound.ofPrefix u64Max [], Bound.ofPrefix u64Max [1]], []) := by
  refine coding_round_trips.2.2 [Bound.ofPrefix u64Max [], Bound.ofPrefix u64Max [1]]
    (fun bound hbound => ?_) ?_
  · rcases List.mem_pair.mp hbound with rfl | rfl
    · exact ⟨u64Max, [], le_rfl, rfl⟩
    · exact ⟨u64Max, [1], le_rfl, rfl⟩
  · decide

end Negentropy

end NostrPubsub.Reconcile
