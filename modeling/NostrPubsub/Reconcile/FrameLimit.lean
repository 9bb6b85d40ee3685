import NostrPubsub.Reconcile.RangeEngine

/-!
# The size of an answer

The engine asks for 200 bytes of room before it writes on, and appends to a frame without it only
what fits into them: a pending skip, the rest of a list of ids, the skip and the fingerprint that
stand for everything after the cut. `Party.Turn` lists what a range can do to the answer, and
`Party.length_reply_le` bounds the frame for every input.
-/

namespace NostrPubsub.Reconcile

/-! ## The bytes of a range -/

theorem length_encodeVarInt_le {n : ℕ} (h : n ≤ u64Max) : (encodeVarInt n).length ≤ 10 := by
  rw [encodeVarInt_eq]
  exact VarInt.length_encode_le (h.trans_lt (by rw [u64Max]; norm_num))

theorem length_encodeVarInt_of_lt {n : ℕ} (h : n < 128) : (encodeVarInt n).length = 1 := by
  rw [encodeVarInt_eq, VarInt.encode_of_lt h]
  rfl

theorem length_encodeBound_le (last : ℕ) (bound : Bound) :
    (encodeBound last bound).length ≤ 43 := by
  have htimestamp : (encodeTimestamp last bound.timestamp).length ≤ 10 := by
    rw [encodeTimestamp]
    split
    · exact length_encodeVarInt_le (Nat.zero_le _)
    · exact length_encodeVarInt_le (min_le_right _ _)
  have hid : bound.id.length ≤ 32 := bound.length_le
  have hlength := length_encodeVarInt_of_lt (n := bound.id.length) (by omega)
  rw [encodeBound, List.length_append, List.length_append, hlength]
  omega

theorem length_encodeRange_skip_le (last : ℕ) (bound : Bound) :
    (encodeRange last ⟨bound, .skip⟩).length ≤ 44 := by
  have hbound := length_encodeBound_le last bound
  have hmode := length_encodeVarInt_of_lt (n := 0) (by decide)
  simp only [encodeRange, encodePayload, List.length_append, hmode]
  omega

theorem length_encodeRange_fingerprint_le (last : ℕ) (bound : Bound) (fingerprint : Fingerprint) :
    (encodeRange last ⟨bound, .fingerprint fingerprint⟩).length ≤ 60 := by
  have hbound := length_encodeBound_le last bound
  have hmode := length_encodeVarInt_of_lt (n := 1) (by decide)
  simp only [encodeRange, encodePayload, List.length_append, hmode, fingerprint.toList_length]
  omega

theorem length_encodeRange_idList_le (last : ℕ) (bound : Bound) {ids : List Id}
    (h : ids.length ≤ u64Max) :
    (encodeRange last ⟨bound, .idList ids⟩).length ≤ 54 + idSize * ids.length := by
  have hbound := length_encodeBound_le last bound
  have hmode := length_encodeVarInt_of_lt (n := 2) (by decide)
  have hcount := length_encodeVarInt_le h
  simp only [encodeRange, encodePayload, List.length_append, hmode, length_encodeIds]
  omega

@[simp]
theorem encodeRanges_singleton (last : ℕ) (range : Range) :
    encodeRanges last [range] = encodeRange last range := by
  rw [encodeRanges, encodeRanges, List.append_nil]

namespace Party

variable (party : Party)

/-! ## What a range does to the answer -/

/-- The party writes something for a range that begins at `start`. -/
def Answers (start : ℕ ×ₗ List ℕ) (range : Range) : Prop :=
  match range.payload with
  | .skip => False
  | .fingerprint theirs =>
    theirs ≠ party.fingerprint (party.snapshot.cut start) (party.snapshot.cut range.stop)
  | .idList _ => party.isInitiator = false

/-- What is kept of a range that nothing is written for. -/
def heed (progress : Progress) (range : Range) : Progress :=
  match range.payload with
  | .idList theirs => party.learnIds progress range.bound theirs
  | _ => { progress with skip := true }

/-- What stands for everything after a bound. -/
def cutOff (boundary : Bound) : List Range :=
  [⟨boundary, .skip⟩, party.tail (party.snapshot.cut boundary.position)]

/-- The ids that a responder has in a range. -/
def ownIds (progress : Progress) (range : Range) : List Id :=
  party.ids (party.lower progress) (party.snapshot.cut range.stop)

/-- The number of them that go into the answer. -/
def fitting (progress : Progress) (range : Range) : ℕ :=
  party.fittingIds (encodeFrame progress.output).length 0 (party.ownIds progress range)

/-- The record that a list of ids is cut at. -/
def firstUnfit (progress : Progress) (range : Range) : Item :=
  party.snapshot.items.getD (party.lower progress + party.fitting progress range) defaultItem

/-- The ranges that a mismatch is answered by. -/
def divided (progress : Progress) (range : Range) : List Range :=
  party.splitRange (party.lower progress) (party.snapshot.cut range.stop) range.bound

@[simp]
theorem heed_output (progress : Progress) (range : Range) :
    (party.heed progress range).output = progress.output := by
  rw [heed]
  split <;> rfl

@[simp]
theorem heed_prevBound (progress : Progress) (range : Range) :
    (party.heed progress range).prevBound = progress.prevBound := by
  rw [heed]
  split <;> rfl

@[simp]
theorem heed_skip (progress : Progress) (range : Range) :
    (party.heed progress range).skip = true := by
  rw [heed]
  split <;> rfl

/-- Everything that one range can do. -/
inductive Turn (progress : Progress) (range : Range) : Flow Progress → Prop
  | pass (hquiet : ¬ party.Answers progress.prevBound.position range)
      (hroom : ¬ party.ExceededFrameSizeLimit (encodeFrame progress.output).length) :
      Turn progress range (.next { party.heed progress range with prevBound := range.bound })
  | passCut (hquiet : ¬ party.Answers progress.prevBound.position range)
      (hfull : party.ExceededFrameSizeLimit (encodeFrame progress.output).length) :
      Turn progress range (.stop { party.heed progress range with
        output := progress.output ++ party.cutOff range.bound })
  | split {theirs : Fingerprint} (hpayload : range.payload = .fingerprint theirs)
      (hanswers : party.Answers progress.prevBound.position range)
      (hroom : ¬ party.ExceededFrameSizeLimit (encodeFrame (progress.output ++
        (progress.pendingSkip ++ party.divided progress range))).length) :
      Turn progress range (.next { progress with
        output := progress.output ++ (progress.pendingSkip ++ party.divided progress range)
        prevBound := range.bound, skip := false })
  | splitCut {theirs : Fingerprint} (hpayload : range.payload = .fingerprint theirs)
      (hanswers : party.Answers progress.prevBound.position range)
      (hfull : party.ExceededFrameSizeLimit (encodeFrame (progress.output ++
        (progress.pendingSkip ++ party.divided progress range))).length) :
      Turn progress range (.stop { progress with
        output := progress.output ++ party.cutOff progress.prevBound, skip := false })
  | list {theirs : List Id} (hpayload : range.payload = .idList theirs)
      (hanswers : party.Answers progress.prevBound.position range)
      (hroom : ¬ party.ExceededFrameSizeLimit (encodeFrame (progress.output ++
        progress.pendingSkip ++ [⟨range.bound, .idList (party.ownIds progress range)⟩])).length) :
      Turn progress range (.next { progress with
        output := progress.output ++ progress.pendingSkip ++
          [⟨range.bound, .idList (party.ownIds progress range)⟩]
        prevBound := range.bound, skip := false })
  | listCut {theirs : List Id} (hpayload : range.payload = .idList theirs)
      (hanswers : party.Answers progress.prevBound.position range)
      (hall : party.fitting progress range = (party.ownIds progress range).length) :
      Turn progress range (.stop { progress with
        output := progress.output ++ progress.pendingSkip ++
          [⟨range.bound, .idList (party.ownIds progress range)⟩] ++ party.cutOff range.bound
        skip := false })
  | listPart {theirs : List Id} (hpayload : range.payload = .idList theirs)
      (hanswers : party.Answers progress.prevBound.position range)
      (hpart : party.fitting progress range < (party.ownIds progress range).length) :
      Turn progress range (.stop { progress with
        output := progress.output ++ progress.pendingSkip ++
          [⟨(party.firstUnfit progress range).toBound,
            .idList ((party.ownIds progress range).take (party.fitting progress range))⟩] ++
          [party.tail (party.lower progress + party.fitting progress range)]
        skip := false })

theorem splitRange_ne_nil (lower upper : ℕ) (upperBound : Bound) :
    party.splitRange lower upper upperBound ≠ [] := by
  rw [splitRange]
  split
  · exact List.cons_ne_nil _ _
  · rw [show List.range buckets = 0 :: (List.range 15).map (· + 1) from rfl, splitBuckets]
    exact List.cons_ne_nil _ _

theorem fittingIds_le (fullOutput taken : ℕ) (ids : List Id) :
    party.fittingIds fullOutput taken ids ≤ taken + ids.length := by
  induction ids generalizing taken with
  | nil => exact le_rfl
  | cons id ids ih =>
    rw [fittingIds, List.length_cons]
    split
    · omega
    · have := ih (taken + 1)
      omega

theorem fitting_le (progress : Progress) (range : Range) :
    party.fitting progress range ≤ (party.ownIds progress range).length := by
  have h := party.fittingIds_le (encodeFrame progress.output).length 0 (party.ownIds progress range)
  rwa [Nat.zero_add] at h

/-- A range that nothing is written for. -/
theorem turn_of_quiet {progress : Progress} {range : Range}
    (hquiet : ¬ party.Answers progress.prevBound.position range) :
    party.Turn progress range (party.advance (party.heed progress range) range.bound []) := by
  rw [advance, List.append_nil, heed_output]
  split
  · next hfull => exact .passCut hquiet hfull
  · next hroom =>
    have hturn : party.Turn progress range _ := .pass hquiet hroom
    dsimp only at hturn
    rwa [heed_output] at hturn

/-- Each step is one of these turns. -/
theorem step_turn (progress : Progress) (range : Range) :
    party.Turn progress range (party.step progress range) := by
  obtain ⟨bound, payload⟩ := range
  cases payload with
  | skip => exact @turn_of_quiet party _ ⟨bound, .skip⟩ not_false
  | fingerprint theirs =>
    simp only [step]
    split
    · next hsame =>
      exact @turn_of_quiet party _ ⟨bound, .fingerprint theirs⟩ (not_not.mpr hsame)
    · next hne =>
      have hanswers : party.Answers progress.prevBound.position ⟨bound, .fingerprint theirs⟩ := hne
      -- A split writes at least one range, so the pending skip goes out with it.
      have hwritten : progress.pendingSkip ++
          party.splitRange (party.lower progress) (party.snapshot.cut bound.position) bound ≠ [] :=
        List.append_ne_nil_of_right_ne_nil _ (party.splitRange_ne_nil _ _ _)
      rw [advance]
      simp only [if_neg hwritten]
      split
      · next hfull => exact .splitCut rfl hanswers hfull
      · next hroom => exact .split rfl hanswers hroom
  | idList theirs =>
    simp only [step]
    split
    · next hinitiator =>
      refine @turn_of_quiet party _ ⟨bound, .idList theirs⟩ ?_
      exact fun hresponder : party.isInitiator = false => Bool.noConfusion (hinitiator.symm.trans hresponder)
    · next hresponder =>
      have hanswers : party.Answers progress.prevBound.position ⟨bound, .idList theirs⟩ :=
        Bool.eq_false_of_not_eq_true hresponder
      rw [answerIds]
      simp only
      split
      · next hpart => exact .listPart rfl hanswers hpart
      · next hall =>
        -- All of the own ids fit, and then only the whole frame can be over the limit.
        have hfitting : party.fitting progress ⟨bound, .idList theirs⟩ =
            (party.ownIds progress ⟨bound, .idList theirs⟩).length :=
          le_antisymm (party.fitting_le _ _) (not_lt.mp hall)
        have htake : (party.ids (party.lower progress) (party.snapshot.cut bound.position)).take
            (party.fittingIds (encodeFrame progress.output).length 0
              (party.ids (party.lower progress) (party.snapshot.cut bound.position))) =
            party.ids (party.lower progress) (party.snapshot.cut bound.position) :=
          List.take_of_length_le (not_lt.mp hall)
        rw [advance, htake]
        simp only [List.append_nil, if_true]
        split
        · exact .listCut rfl hanswers hfitting
        · next hroom => exact .list rfl hanswers hroom

/-! ## The bytes of an answer -/

theorem length_pendingSkip_le (last : ℕ) (progress : Progress) :
    (encodeRanges last progress.pendingSkip).length ≤ 44 := by
  rw [Progress.pendingSkip]
  split
  · rw [encodeRanges_singleton]
    exact length_encodeRange_skip_le _ _
  · exact Nat.zero_le _

theorem length_encodeTail (last remaining : ℕ) :
    (encodeRange last (party.tail remaining)).length = 19 := by
  have hzero := length_encodeVarInt_of_lt (n := 0) (by decide)
  have hone := length_encodeVarInt_of_lt (n := 1) (by decide)
  have htimestamp : encodeTimestamp last u64Max = encodeVarInt 0 := if_pos rfl
  simp only [tail, encodeRange, encodeBound, Bound.infinity, htimestamp, encodePayload,
    List.length_append, List.length_nil, hzero, hone, List.Vector.toList_length]

theorem length_cutOff_le (last : ℕ) (boundary : Bound) :
    (encodeRanges last (party.cutOff boundary)).length ≤ 63 := by
  have hskip := length_encodeRange_skip_le last boundary
  rw [cutOff, encodeRanges, encodeRanges_singleton, List.length_append, length_encodeTail]
  omega

variable {party}

theorem not_exceeded (hlimit : party.frameSizeLimit = 0 ∨ 4096 ≤ party.frameSizeLimit) {n : ℕ}
    (h : n ≤ 3896) : ¬ party.ExceededFrameSizeLimit n := by
  rintro ⟨hne, hlt⟩
  omega

/-- Ids are taken while there is room before them, so the last one may end behind the mark. -/
theorem fittingIds_room {fullOutput taken : ℕ} (ids : List Id) (hlimit : party.frameSizeLimit ≠ 0)
    (h : fullOutput + idSize * taken ≤ party.frameSizeLimit - 200 + idSize) :
    fullOutput + idSize * party.fittingIds fullOutput taken ids ≤
      party.frameSizeLimit - 200 + idSize := by
  induction ids generalizing taken with
  | nil => exact h
  | cons id ids ih =>
    rw [fittingIds]
    split
    · exact h
    · next hroom =>
      refine ih ?_
      have hlt : fullOutput + idSize * taken ≤ party.frameSizeLimit - 200 :=
        not_lt.mp fun hlt => hroom ⟨hlimit, hlt⟩
      rw [Nat.mul_succ]
      omega

theorem fitting_room {progress : Progress} (range : Range) (hlimit : party.frameSizeLimit ≠ 0)
    (hroom : ¬ party.ExceededFrameSizeLimit (encodeFrame progress.output).length) :
    (encodeFrame progress.output).length + idSize * party.fitting progress range ≤
      party.frameSizeLimit - 200 + idSize := by
  refine fittingIds_room _ hlimit ?_
  have hlt := not_lt.mp fun hlt => hroom ⟨hlimit, hlt⟩
  omega

/-- A frame with some of the own ids behind it. -/
theorem length_listed_le {progress : Progress} (range : Range) {count : ℕ} (bound : Bound)
    (hlimit : 4096 ≤ party.frameSizeLimit) (hmax : party.frameSizeLimit ≤ u64Max)
    (hroom : ¬ party.ExceededFrameSizeLimit (encodeFrame progress.output).length)
    (hcount : count ≤ party.fitting progress range) :
    (encodeFrame (progress.output ++ progress.pendingSkip ++
        [⟨bound, .idList ((party.ownIds progress range).take count)⟩])).length ≤
      party.frameSizeLimit - 70 := by
  have hfitting := fitting_room range (by omega) hroom
  have htake := List.length_take_le count (party.ownIds progress range)
  have hids := Nat.mul_le_mul_left idSize (htake.trans hcount)
  have hskip := length_pendingSkip_le (lastTimestamp 0 progress.output) progress
  have hsmall : ((party.ownIds progress range).take count).length ≤ u64Max := by
    rw [idSize] at hids hfitting
    omega
  have hlist := length_encodeRange_idList_le
    (lastTimestamp 0 (progress.output ++ progress.pendingSkip)) bound hsmall
  rw [encodeFrame_append, encodeFrame_append, encodeRanges_singleton, List.length_append,
    List.length_append]
  rw [idSize] at hids hfitting hlist
  omega

/-- The answer stays within the limit, wherever it is cut. -/
theorem length_steps_le (hlimit : 4096 ≤ party.frameSizeLimit)
    (hmax : party.frameSizeLimit ≤ u64Max) {progress : Progress} (ranges : List Range)
    (hroom : ¬ party.ExceededFrameSizeLimit (encodeFrame progress.output).length) :
    (encodeFrame (party.steps progress ranges).output).length ≤ party.frameSizeLimit := by
  have hne : party.frameSizeLimit ≠ 0 := by omega
  induction ranges generalizing progress with
  | nil =>
    have hlt := not_lt.mp fun hlt => hroom ⟨hne, hlt⟩
    rw [steps]
    omega
  | cons range ranges ih =>
    have hturn := party.step_turn progress range
    rw [steps]
    generalize party.step progress range = flow at hturn ⊢
    cases hturn with
    | pass _ _ => exact ih (by rwa [heed_output])
    | passCut _ hfull => exact absurd hfull hroom
    | split _ _ hroom' => exact ih hroom'
    | splitCut _ _ _ =>
      have hcut := party.length_cutOff_le (lastTimestamp 0 progress.output)
        progress.prevBound
      have hlt := not_lt.mp fun hlt => hroom ⟨hne, hlt⟩
      rw [encodeFrame_append, List.length_append]
      omega
    | list _ _ hroom' => exact ih hroom'
    | listCut _ _ hall =>
      have hlisted := length_listed_le range range.bound hlimit hmax hroom hall.ge
      rw [List.take_length] at hlisted
      have hcut := party.length_cutOff_le (lastTimestamp 0 (progress.output ++
        progress.pendingSkip ++ [⟨range.bound, .idList (party.ownIds progress range)⟩])) range.bound
      rw [encodeFrame_append, List.length_append]
      omega
    | listPart _ _ _ =>
      have hlisted := length_listed_le range (party.firstUnfit progress range).toBound hlimit hmax
        hroom le_rfl
      rw [encodeFrame_append, List.length_append, encodeRanges_singleton, length_encodeTail]
      omega

variable (party) in
/-- An answer stays within the limit. -/
theorem length_reply_le (hlimit : 4096 ≤ party.frameSizeLimit)
    (hmax : party.frameSizeLimit ≤ u64Max) (ranges : List Range) :
    (encodeFrame (party.reply ranges).output).length ≤ party.frameSizeLimit :=
  length_steps_le hlimit hmax ranges (not_exceeded (.inr hlimit) (by decide))

/-! ## Splitting a range -/

variable (party) in
theorem length_encodeBuckets_le (numElems upper : ℕ) (upperBound : Bound) (is : List ℕ)
    (last curr : ℕ) :
    (encodeRanges last (party.splitBuckets numElems upper upperBound is curr)).length ≤
      60 * is.length := by
  induction is generalizing last curr with
  | nil => exact Nat.zero_le _
  | cons i is ih =>
    rw [splitBuckets, encodeRanges, List.length_append, List.length_cons]
    have hhead := length_encodeRange_fingerprint_le last
      (party.bucketBound upper upperBound (curr + bucketSize numElems i))
      (party.fingerprint curr (curr + bucketSize numElems i))
    have htail := ih (party.bucketBound upper upperBound (curr + bucketSize numElems i)).timestamp
      (curr + bucketSize numElems i)
    dsimp only at htail ⊢
    omega

variable (party) in
theorem length_ids_le (lower upper : ℕ) : (party.ids lower upper).length ≤ upper - lower := by
  rw [ids, List.length_map, List.extract_eq_take_drop]
  exact List.length_take_le _ _

variable (party) in
theorem length_encodeSplit_le (last lower upper : ℕ) (upperBound : Bound) :
    (encodeRanges last (party.splitRange lower upper upperBound)).length ≤ 1046 := by
  rw [splitRange]
  split
  · next hfew =>
    have hids := party.length_ids_le lower upper
    have hbuckets : buckets * 2 = 32 := rfl
    have hsmall : (party.ids lower upper).length ≤ u64Max := by
      rw [u64Max]
      omega
    have hlist := length_encodeRange_idList_le last upperBound hsmall
    rw [encodeRanges_singleton]
    rw [idSize] at hlist
    omega
  · have hbuckets := party.length_encodeBuckets_le (upper - lower) upper upperBound
      (List.range buckets) last lower
    rw [List.length_range] at hbuckets
    exact hbuckets.trans (by decide)

/-- The first ranges of an answer are never cut off. -/
theorem room_for_first (hlimit : party.frameSizeLimit = 0 ∨ 4096 ≤ party.frameSizeLimit)
    {progress : Progress} (hempty : progress.output = []) (lower upper : ℕ) (upperBound : Bound) :
    ¬ party.ExceededFrameSizeLimit (encodeFrame (progress.output ++ (progress.pendingSkip ++
      party.splitRange lower upper upperBound))).length := by
  refine not_exceeded hlimit ?_
  have hskip := length_pendingSkip_le 0 progress
  have hsplit := party.length_encodeSplit_le (lastTimestamp 0 progress.pendingSkip)
    lower upper upperBound
  rw [hempty, List.nil_append, encodeFrame, List.length_cons, encodeRanges_append,
    List.length_append]
  omega

variable (party) in
/-- The first frame is within the limit. -/
theorem length_initiate_le (hlimit : 4096 ≤ party.frameSizeLimit) :
    (encodeFrame party.initiate).length ≤ party.frameSizeLimit := by
  have hsplit := party.length_encodeSplit_le 0 0 party.snapshot.items.length
    Bound.infinity
  rw [encodeFrame, List.length_cons, initiate]
  omega

end Party

end NostrPubsub.Reconcile
