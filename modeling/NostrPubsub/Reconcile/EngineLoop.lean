import NostrPubsub.Reconcile.EngineOutput

/-!
# The loop of the engine follows the ranges

On the bytes of one more range an iteration of the loop in `reconcile_aux` computes what `Party.step`
says (`iteration_eq`), and on the bytes of a frame whose bounds do not decrease the loop computes
`Party.steps` (`reconcileLoop_eq`). The engine adds the differences of timestamps with saturation, which
makes no difference on what can be read with checked additions.
-/

namespace NostrPubsub.Reconcile

namespace Negentropy

/-! ## The decoder of the engine -/

theorem decodeVarInt_of_read {bytes : List UInt8} {r : ℕ × List UInt8}
    (h : readVarInt bytes = some r) : decodeVarInt bytes = .ok r :=
  read_eq_ok_iff.mpr h

theorem getByteArray_of_read {n : ℕ} {bytes : List UInt8} {r : List.Vector UInt8 n × List UInt8}
    (h : readVector n bytes = some r) : getByteArray n bytes = .ok r := by
  rw [getByteArray, h]

/-- Saturating additions read what checked additions read. -/
theorem satAdd_timestampAfter {last delta : ℕ} (h : timestampAfter last delta ≤ u64Max) :
    satAdd (if delta = 0 then u64Max else delta - 1) last = timestampAfter last delta := by
  unfold timestampAfter at h ⊢
  unfold satAdd
  by_cases hdelta : delta = 0
  · simp only [hdelta, if_true, true_or]
    omega
  · by_cases hlast : last = u64Max
    · simp only [hlast, or_true, if_true]
      omega
    · simp only [hdelta, hlast, or_self, if_false] at h ⊢
      omega

theorem decodeBound_of_read {last : ℕ} {bytes rest : List UInt8} {bound : Reconcile.Bound}
    (h : readBound last bytes = some (bound, rest)) :
    decodeBound last bytes = .ok (Bound.ofWire bound, rest) := by
  obtain ⟨delta, afterDelta, length, afterLength, hdelta, hlength, hle, htimestamp, hid, rfl⟩ :=
    readBound_eq_some.mp h
  have htime : decodeTimestampIn last bytes = .ok (bound.timestamp, afterDelta) := by
    have hsat := satAdd_timestampAfter (htimestamp ▸ bound.timestamp_le)
    rw [decodeTimestampIn, decodeVarInt_of_read hdelta, htimestamp, ← hsat]
    rfl
  have hbytes : getBytes length afterLength = .ok (bound.id, afterLength.drop length) := by
    rw [hid]
    exact takeBytes_eq_ok.mpr ⟨hle, rfl⟩
  have hbound : Bound.withTimestampAndId bound.timestamp bound.id = .ok (Bound.ofWire bound) :=
    if_neg (Nat.not_lt.mpr bound.length_le)
  rw [decodeBound, htime]
  simp only [bind, Except.bind]
  rw [decodeVarInt_of_read hlength]
  simp only [hbytes, hbound]
  rfl

theorem decodeElems_of_read {count : ℕ} {theirElems : Finset Id} {bytes rest : List UInt8}
    {ids : List Id} (h : readIds count bytes = some (ids, rest)) :
    decodeElems count theirElems bytes = .ok (theirElems ∪ ids.toFinset, rest) := by
  induction count generalizing theirElems bytes ids with
  | zero =>
    cases h
    simp [decodeElems]
  | succ count ih =>
    simp only [readIds, Option.bind_eq_bind, Option.bind_eq_some_iff, Prod.exists] at h
    obtain ⟨id, afterId, hid, ids', rest', hids, h⟩ := h
    cases h
    have hrest := @ih (insert id theirElems) _ _ hids
    rw [decodeElems, getByteArray_of_read hid]
    simp only [bind, Except.bind]
    rw [hrest, List.toFinset_cons, Finset.insert_union, Finset.union_insert]

/-! ## Comparing and answering ids -/

/-- No id comes twice, so that a removal does not change a later test. -/
theorem compareElems_eq (isInitiator : Bool) {items : List Item} (h : (items.map Item.id).Nodup)
    (theirElems : Finset Id) (haveIds : List Id) :
    compareElems isInitiator items (theirElems, haveIds) =
      (theirElems.filter (· ∉ items.map Item.id),
        haveIds ++ if isInitiator then (items.map Item.id).filter (· ∉ theirElems) else []) := by
  induction items generalizing theirElems haveIds with
  | nil => simp [compareElems]
  | cons item rest ih =>
    obtain ⟨hnew, hrest⟩ := List.nodup_cons.mp h
    rw [compareElems]
    by_cases hmem : item.id ∈ theirElems
    · -- the id is known to both and drops out
      rw [if_neg (not_not.mpr hmem), ih hrest]
      have hset : (theirElems.erase item.id).filter (· ∉ rest.map Item.id) =
          theirElems.filter (· ∉ (item :: rest).map Item.id) := by
        ext id
        simp only [Finset.mem_filter, Finset.mem_erase, List.map_cons, List.mem_cons, not_or]
        exact ⟨fun hid => ⟨hid.1.2, hid.1.1, hid.2⟩, fun hid => ⟨⟨hid.2.1, hid.1⟩, hid.2.2⟩⟩
      have hlist : (rest.map Item.id).filter (· ∉ theirElems.erase item.id) =
          ((item :: rest).map Item.id).filter (· ∉ theirElems) := by
        rw [List.map_cons, List.filter_cons_of_neg (by simp [hmem])]
        refine List.filter_congr fun id hid => ?_
        have hne : id ≠ item.id := fun heq => hnew (heq ▸ hid)
        simp [hne]
      rw [hset, hlist]
    · rw [if_pos hmem, ih hrest]
      have hset : theirElems.filter (· ∉ rest.map Item.id) =
          theirElems.filter (· ∉ (item :: rest).map Item.id) := by
        refine Finset.filter_congr fun id hid => ?_
        have hne : id ≠ item.id := fun heq => hmem (heq ▸ hid)
        simp [hne]
      rw [hset, List.map_cons, List.filter_cons_of_pos (by simp [hmem])]
      cases isInitiator <;> simp

variable (self : Negentropy)

/-- The response ids are the first ones that fit. -/
theorem responseLoop_eq (fullOutput index : ℕ) (items : List Item) (responseIds : List UInt8)
    (taken : ℕ) (h : responseIds.length = idSize * taken) :
    ∃ k, self.party.fittingIds fullOutput taken (items.map Item.id) = taken + k ∧
      k ≤ items.length ∧
      self.responseLoop fullOutput index items responseIds taken =
        .ok (responseIds ++ encodeIds ((items.map Item.id).take k), taken + k,
          (items[k]?).map fun item => (item, index + k)) := by
  induction items generalizing index responseIds taken with
  | nil => exact ⟨0, rfl, Nat.le_refl 0, by simp [responseLoop, encodeIds]⟩
  | cons item rest ih =>
    rw [responseLoop, List.map_cons, Party.fittingIds, h, self.exceededFrameSizeLimit_eq,
      Except.ok_bind]
    simp only [decide_eq_true_eq]
    by_cases hexceeded : self.party.ExceededFrameSizeLimit (fullOutput + idSize * taken)
    · rw [if_pos hexceeded, if_pos hexceeded]
      exact ⟨0, rfl, Nat.zero_le _, by simp [encodeIds, pure, Except.pure]⟩
    · rw [if_neg hexceeded, if_neg hexceeded]
      have hlength : (responseIds ++ item.id.toList).length = idSize * (taken + 1) := by
        rw [List.length_append, h, item.id.toList_length, idSize]
        omega
      obtain ⟨k, hfitting, hle, hloop⟩ := ih (index + 1) _ (taken + 1) hlength
      refine ⟨k + 1, by rw [hfitting]; omega, Nat.succ_le_succ hle, ?_⟩
      rw [hloop, List.take_succ_cons, List.getElem?_cons_succ]
      simp only [encodeIds, List.flatMap_cons, List.append_assoc, Except.ok.injEq, Prod.mk.injEq,
        true_and]
      refine ⟨by omega, ?_⟩
      rw [Nat.add_assoc, Nat.add_comm 1 k]

/-! ## One iteration -/

theorem nodup_ids (lower upper : ℕ) :
    ((self.storage.items.extract lower upper).map Item.id).Nodup := by
  have hsublist : (self.storage.items.extract lower upper).Sublist self.storage.items := by
    rw [List.extract_eq_take_drop]
    exact (List.take_sublist _ _).trans (List.drop_sublist _ _)
  exact self.storage.nodup.sublist (hsublist.map Item.id)

/-- Writing a pending skip. -/
theorem doSkip_eq {progress : Party.Progress} {locals : Locals}
    (hskip : locals.skip = progress.skip)
    (hlast : locals.lastTimestampOut = lastTimestamp 0 progress.output)
    (hbound : locals.prevBound = Bound.ofWire progress.prevBound) :
    doSkip locals =
      (encodeRanges (lastTimestamp 0 progress.output) progress.pendingSkip,
        { locals with
          skip := false
          lastTimestampOut := lastTimestamp 0 (progress.output ++ progress.pendingSkip) }) := by
  rw [doSkip, Party.Progress.pendingSkip, hskip]
  by_cases hpending : progress.skip = true
  · rw [if_pos hpending, if_pos hpending, hbound, hlast, encodeBound_ofWire]
    simp [encodeRanges, encodeRange, encodePayload, encodeMode, Mode.asU64]
  · have hnone : locals.skip = false := hskip.trans (Bool.eq_false_of_not_eq_true hpending)
    rw [if_neg hpending, if_neg hpending, List.append_nil, ← hlast]
    obtain ⟨_, _, _, _, _, skip, _, _⟩ := locals
    cases hnone
    rfl

/-- The variables after the bound of the next range was read. -/
def Locals.atBound (progress : Party.Progress) (bound : Reconcile.Bound) : Locals :=
  { Locals.ofProgress self progress with lastTimestampIn := bound.timestamp }

theorem lower_le {progress : Party.Progress} {bound : Reconcile.Bound}
    (hsorted : progress.prevBound.position ≤ bound.position) :
    self.party.lower progress ≤ self.storage.cut bound.position :=
  List.cutAt_mono _ hsorted

/-- A range that nothing is written for. -/
theorem endRange_silent {progress : Party.Progress} {bound : Reconcile.Bound} {haveIds : List Id}
    {needIds : Multiset Id} (timestampBeforeRange : ℕ) :
    self.Follows
      (self.endRange timestampBeforeRange (self.party.lower progress) (Bound.ofWire bound)
        ⟨{ Locals.atBound self progress bound with skip := true, haveIds, needIds }, [],
          self.storage.cut bound.position, false⟩)
      (self.party.advance { progress with skip := true, haveIds, needIds } bound []) := by
  have hend := @endRange_eq self { progress with skip := true, haveIds, needIds } bound []
    timestampBeforeRange (fun hne => absurd rfl hne)
  rw [List.append_nil] at hend
  exact hend

/-- A fingerprint is compared, and answered by the ranges it is split into. -/
theorem onFingerprint_follows {progress : Party.Progress} {bound : Reconcile.Bound}
    (theirFingerprint : Fingerprint) (hsorted : progress.prevBound.position ≤ bound.position) :
    self.Follows
      (self.onFingerprint (Locals.atBound self progress bound) (self.party.lower progress)
          (self.storage.cut bound.position) (Bound.ofWire bound) theirFingerprint >>=
        self.endRange (lastTimestamp 0 progress.output) (self.party.lower progress)
          (Bound.ofWire bound))
      (self.party.step progress ⟨bound, .fingerprint theirFingerprint⟩) := by
  have hlower := self.lower_le hsorted
  have hupper : self.storage.cut bound.position ≤ self.storage.items.length := self.storage.cut_le _
  have hstorage : self.party.snapshot = self.storage := rfl
  rw [onFingerprint, Party.step, self.fingerprint_eq hlower hupper, Except.ok_bind]
  simp only [hstorage]
  by_cases hsame : theirFingerprint = self.party.fingerprint (self.party.lower progress)
      (self.storage.cut bound.position)
  · rw [if_neg (not_not.mpr hsame), if_pos hsame]
    exact self.endRange_silent _
  · rw [if_pos hsame, if_neg hsame]
    have hsplit := self.splitRange_eq
      (lastTimestamp 0 (progress.output ++ progress.pendingSkip)) bound hlower hupper
    simp only [@doSkip_eq progress (Locals.atBound self progress bound) rfl rfl rfl, hsplit,
      Except.ok_bind]
    have hend := @endRange_eq self { progress with skip := false } bound
      (progress.pendingSkip ++ self.party.splitRange (self.party.lower progress)
        (self.storage.cut bound.position) bound)
      (lastTimestamp 0 progress.output) (fun _ => rfl)
    rw [encodeRanges_append, ← lastTimestamp_append, ← List.append_assoc, lastTimestamp_append] at hend
    exact hend

/-- The initiator learns from a list of ids. -/
theorem onIdList_learns {progress : Party.Progress} {bound : Reconcile.Bound} {theirs : List Id}
    (hsorted : progress.prevBound.position ≤ bound.position) (h : self.isInitiator = true) :
    self.Follows
      (self.onIdList (Locals.atBound self progress bound) (self.party.lower progress)
          (self.storage.cut bound.position) (Bound.ofWire bound) theirs.toFinset >>=
        self.endRange (lastTimestamp 0 progress.output) (self.party.lower progress)
          (Bound.ofWire bound))
      (self.party.step progress ⟨bound, .idList theirs⟩) := by
  have hinitiator : self.party.isInitiator = true := h
  have hcompare := compareElems_eq true
    (self.nodup_ids (self.party.lower progress) (self.storage.cut bound.position))
    theirs.toFinset progress.haveIds
  have hhave : ((self.storage.items.extract (self.party.lower progress)
        (self.storage.cut bound.position)).map Item.id).filter (· ∉ theirs.toFinset) =
      (self.party.ids (self.party.lower progress) (self.party.snapshot.cut bound.position)).filter
        (· ∉ theirs) := by
    refine List.filter_congr fun id _ => ?_
    simp
  rw [onIdList, Party.step, h, self.iterate_eq (self.lower_le hsorted) (self.storage.cut_le _),
    Except.ok_bind]
  simp only [hinitiator, if_true, Locals.atBound, Locals.ofProgress, hcompare, hhave]
  exact self.endRange_silent _

/-- The bytes of a list of ids behind a pending skip. -/
theorem encodeFrame_listed (output pending : List Range) (endBound : Reconcile.Bound)
    (ids : List Id) :
    encodeFrame output ++ (encodeRanges (lastTimestamp 0 output) pending ++
        ((encodeBound (lastTimestamp 0 (output ++ pending)) (Bound.ofWire endBound)).1 ++
          (encodeMode .idList ++ (encodeVarInt ids.length ++ encodeIds ids)))) =
      encodeFrame (output ++ pending ++ [⟨endBound, .idList ids⟩]) := by
  rw [encodeFrame_append, encodeFrame_append, encodeBound_ofWire]
  simp [encodeRanges, encodeRange, encodePayload, encodeMode, Mode.asU64]

/-- The responder answers a list of ids by its own, as many as fit. -/
theorem onIdList_answers {progress : Party.Progress} {bound : Reconcile.Bound} {theirs : List Id}
    (hsorted : progress.prevBound.position ≤ bound.position) (h : self.isInitiator = false) :
    self.Follows
      (self.onIdList (Locals.atBound self progress bound) (self.party.lower progress)
          (self.storage.cut bound.position) (Bound.ofWire bound) theirs.toFinset >>=
        self.endRange (lastTimestamp 0 progress.output) (self.party.lower progress)
          (Bound.ofWire bound))
      (self.party.step progress ⟨bound, .idList theirs⟩) := by
  have hinitiator : self.party.isInitiator = false := h
  have hlower := self.lower_le hsorted
  have hupper : self.storage.cut bound.position ≤ self.storage.items.length := self.storage.cut_le _
  have hcompare := compareElems_eq false
    (self.nodup_ids (self.party.lower progress) (self.storage.cut bound.position))
    theirs.toFinset progress.haveIds
  simp only [Bool.false_eq_true, if_false, List.append_nil] at hcompare
  -- `k` is the number of own ids that still fit into the frame.
  obtain ⟨k, hfitting, hk, hloop⟩ := self.responseLoop_eq (encodeFrame progress.output).length
    (self.party.lower progress)
    (self.storage.items.extract (self.party.lower progress) (self.storage.cut bound.position)) [] 0
    rfl
  rw [Nat.zero_add] at hfitting
  rw [Nat.zero_add, List.nil_append] at hloop
  have hlength : (self.storage.items.extract (self.party.lower progress)
      (self.storage.cut bound.position)).length =
        self.storage.cut bound.position - self.party.lower progress := by
    rw [List.extract_eq_take_drop, List.length_take, List.length_drop]
    omega
  have hskip := @doSkip_eq progress { Locals.atBound self progress bound with
    haveIds := progress.haveIds } rfl rfl rfl
  -- The engine and the party compare the same elements and write the same pending skip.
  rw [onIdList, Party.step, h, self.iterate_eq hlower hupper, Except.ok_bind]
  simp only [hinitiator, Bool.false_eq_true, if_false]
  rw [show (Locals.atBound self progress bound).haveIds = progress.haveIds from rfl, hcompare]
  simp only [hskip, Except.ok_bind]
  rw [show (Locals.atBound self progress bound).fullOutput = encodeFrame progress.output from rfl,
    hloop, Except.ok_bind, Party.answerIds]
  have hids : self.party.ids (self.party.lower progress) (self.party.snapshot.cut bound.position) =
      (self.storage.items.extract (self.party.lower progress)
        (self.storage.cut bound.position)).map Item.id := rfl
  simp only [hids, hfitting, List.length_map, hlength]
  have htake : (((self.storage.items.extract (self.party.lower progress)
      (self.storage.cut bound.position)).map Item.id).take k).length = k := by
    rw [List.length_take, List.length_map]
    exact Nat.min_eq_left hk
  by_cases hcut : k < self.storage.cut bound.position - self.party.lower progress
  · -- the item that does not fit is the first of the remaining range
    have hindex : self.party.lower progress + k < self.storage.items.length := by omega
    have hitem : (self.storage.items.extract (self.party.lower progress)
        (self.storage.cut bound.position))[k]? =
          some (self.storage.items.getD (self.party.lower progress + k) defaultItem) := by
      rw [List.extract_eq_take_drop, List.getElem?_take_of_lt hcut, List.getElem?_drop,
        List.getD_eq_getElem?_getD, List.getElem?_eq_getElem hindex]
      rfl
    have hbytes := encodeFrame_listed progress.output progress.pendingSkip
      (self.storage.items.getD (self.party.lower progress + k) defaultItem).toBound
      (((self.storage.items.extract (self.party.lower progress)
        (self.storage.cut bound.position)).map Item.id).take k)
    rw [htake, Bound.ofWire_toBound] at hbytes
    have hremaining : self.party.lower progress + k ≤ self.storage.items.length := hindex.le
    rw [if_pos hcut, hitem]
    simp only [pure, Except.pure, Except.ok_bind, Option.map_some, Option.isSome_some, endRange,
      cutsFrame, if_true, not_true_eq_false, if_false, ne_eq, List.nil_append,
      self.fingerprint_eq hremaining le_rfl]
    refine ⟨?_, rfl, rfl⟩
    simp only [hbytes]
    rw [encodeTail, encodeFrame_append _ [self.party.tail _], lastTimestamp_concat]
    rfl
  · -- all ids fit, and the range is done
    have hnone : (self.storage.items.extract (self.party.lower progress)
        (self.storage.cut bound.position))[k]? = none :=
      List.getElem?_eq_none (by omega)
    have hbytes := encodeFrame_listed progress.output progress.pendingSkip bound
      (((self.storage.items.extract (self.party.lower progress)
        (self.storage.cut bound.position)).map Item.id).take k)
    rw [htake] at hbytes
    have hend := @endRange_eq self
      { progress with
        output := progress.output ++ progress.pendingSkip ++ [⟨bound, .idList
          (((self.storage.items.extract (self.party.lower progress)
            (self.storage.cut bound.position)).map Item.id).take k)⟩]
        skip := false } bound [] (lastTimestamp 0 progress.output) (fun hne => absurd rfl hne)
    simp only [List.append_nil, lastTimestamp_concat] at hend
    rw [if_neg hcut, hnone]
    simp only [Option.map_none, Option.isSome_none, hbytes]
    exact hend

variable {self} in
/-- What follows a step has returned. -/
theorem Follows.exists_ok {result : Except Error (Party.Flow Locals)}
    {flow' : Party.Flow Party.Progress} (h : self.Follows result flow') :
    ∃ flow, result = .ok flow ∧ self.Follows (.ok flow) flow' := by
  cases result with
  | error e => exact h.elim
  | ok flow => exact ⟨flow, rfl, h⟩

/-- On the bytes of a range that does not go back, an iteration does what `Party.step` does on the
range, and leaves the bytes after it. -/
theorem iteration_eq {progress : Party.Progress} {range : Range} {query rest : List UInt8}
    (hsorted : progress.prevBound.position ≤ range.bound.position)
    (hread : readRange progress.prevBound.timestamp query = some (range, rest)) :
    ∃ flow, self.iteration (Locals.ofProgress self progress) query = .ok (flow, rest) ∧
      self.Follows (.ok flow) (self.party.step progress range) := by
  obtain ⟨bound, payload⟩ := range
  obtain ⟨afterBound, hbound, hpayload⟩ := readRange_eq_some.mp hread
  obtain ⟨mode, afterMode, hmode, hcase⟩ := readPayload_eq_some.mp hpayload
  have hcut : self.findLowerBound (self.party.lower progress) (Bound.ofWire bound) =
      .ok (self.storage.cut bound.position) := self.findLowerBound_eq (self.lower_le hsorted)
  have hdecoded : decodeBound (Locals.ofProgress self progress).lastTimestampIn query =
      .ok (Bound.ofWire bound, afterBound) := decodeBound_of_read hbound
  have hlower : (Locals.ofProgress self progress).prevIndex = self.party.lower progress := rfl
  -- The bound and the mode are read as `readRange` reads them; then a case for each payload.
  rw [iteration, hdecoded, Except.ok_bind]
  simp only [decodeMode, decodeVarInt_of_read hmode, Except.ok_bind, hlower]
  rcases hcase with ⟨rfl, rfl, rfl⟩ | ⟨fingerprint, rfl, rfl, hvector⟩ |
    ⟨ids, count, afterCount, rfl, rfl, hcount, hids⟩
  · obtain ⟨flow, hflow, hfollows⟩ := (self.endRange_silent
      (lastTimestamp 0 progress.output)).exists_ok
    refine ⟨flow, ?_, hfollows⟩
    simp only [Mode.tryFrom, pure, Except.pure, Except.ok_bind, hcut]
    exact Except.bind_eq_ok.mpr ⟨flow, hflow, rfl⟩
  · obtain ⟨flow, hflow, hfollows⟩ := (self.onFingerprint_follows fingerprint hsorted).exists_ok
    obtain ⟨turn, hturn, hend⟩ := Except.bind_eq_ok.mp hflow
    refine ⟨flow, ?_, hfollows⟩
    simp only [Mode.tryFrom, pure, Except.pure, Except.ok_bind, hcut, getByteArray_of_read hvector]
    exact Except.bind_eq_ok.mpr ⟨turn, hturn, Except.bind_eq_ok.mpr ⟨flow, hend, rfl⟩⟩
  · obtain ⟨hlength, hbytes⟩ := length_of_readIds hids
    -- The check of the count against the bytes that are left, which a list that was read passes.
    have henough : ¬afterCount.length / idSize < count := by
      rw [idSize] at hbytes ⊢
      omega
    have helems := @decodeElems_of_read count ∅ afterCount rest ids hids
    rw [Finset.empty_union] at helems
    have hidList : self.Follows
        (self.onIdList (Locals.atBound self progress bound) (self.party.lower progress)
            (self.storage.cut bound.position) (Bound.ofWire bound) ids.toFinset >>=
          self.endRange (lastTimestamp 0 progress.output) (self.party.lower progress)
            (Bound.ofWire bound))
        (self.party.step progress ⟨bound, .idList ids⟩) := by
      cases hinitiator : self.isInitiator with
      | true => exact self.onIdList_learns hsorted hinitiator
      | false => exact self.onIdList_answers hsorted hinitiator
    obtain ⟨flow, hflow, hfollows⟩ := hidList.exists_ok
    obtain ⟨turn, hturn, hend⟩ := Except.bind_eq_ok.mp hflow
    refine ⟨flow, ?_, hfollows⟩
    simp only [Mode.tryFrom, pure, Except.pure, Except.ok_bind, hcut, decodeVarInt_of_read hcount,
      if_neg henough, helems]
    exact Except.bind_eq_ok.mpr ⟨turn, hturn, Except.bind_eq_ok.mpr ⟨flow, hend, rfl⟩⟩

/-! ## The whole frame -/

/-- A step that is followed reads on after the bound of its range. -/
theorem prevBound_of_step {party : Party} {progress progress' : Party.Progress} {range : Range}
    (h : party.step progress range = .next progress') : progress'.prevBound = range.bound := by
  have hadvance : ∀ (before : Party.Progress) (o : List Range),
      party.advance before range.bound o = .next progress' →
        progress'.prevBound = range.bound := by
    intro before o hnext
    rw [Party.advance] at hnext
    split at hnext
    · cases hnext
    · cases hnext
      rfl
  rw [Party.step] at h
  split at h
  · exact hadvance _ _ h
  · split at h
    · exact hadvance _ _ h
    · exact hadvance _ _ h
  · split at h
    · exact hadvance _ _ h
    · rw [Party.answerIds] at h
      simp only at h
      split at h
      · cases h
      · exact hadvance _ _ h

/-- On the bytes of ranges in order the loop does what `Party.steps` does on them. -/
theorem reconcileLoop_eq {progress : Party.Progress} {ranges : List Range} {query : List UInt8}
    {fuel : ℕ} (hparses : Parses progress.prevBound.timestamp query ranges)
    (hordered : Ordered progress.prevBound.position ranges) (hfuel : query.length ≤ fuel) :
    ∃ locals, self.reconcileLoop fuel (Locals.ofProgress self progress) query = .ok locals ∧
      locals.Shows (self.party.steps progress ranges) := by
  induction ranges generalizing progress query fuel with
  | nil =>
    cases hparses
    refine ⟨Locals.ofProgress self progress, ?_, rfl, rfl, rfl⟩
    cases fuel <;> rfl
  | cons range ranges ih =>
    cases hparses with
    | cons hread htail =>
      rename_i rest
      obtain ⟨hle, hrest⟩ := ordered_cons.mp hordered
      have hshorter := length_readRange_lt hread
      obtain ⟨fuel, rfl⟩ : ∃ n, fuel = n + 1 := ⟨fuel - 1, by omega⟩
      have hne : query ≠ [] := by
        rintro rfl
        exact absurd hshorter (Nat.not_lt_zero _)
      obtain ⟨flow, hiteration, hfollows⟩ := self.iteration_eq hle hread
      rw [reconcileLoop, if_neg hne, hiteration]
      simp only [bind, Except.bind, Party.steps]
      cases hstep : self.party.step progress range with
      | next progress' =>
        rw [hstep] at hfollows
        cases flow with
        | next locals =>
          obtain rfl : locals = Locals.ofProgress self progress' := hfollows
          have hprev := prevBound_of_step hstep
          rw [← hprev] at htail hrest
          exact ih htail hrest (by omega)
        | stop locals => exact hfollows.elim
      | stop progress' =>
        rw [hstep] at hfollows
        cases flow with
        | next locals => exact hfollows.elim
        | stop locals => exact ⟨locals, rfl, hfollows⟩

theorem Locals.init_eq : Locals.init = Locals.ofProgress self Party.Progress.init := by
  simp only [Locals.init, Locals.ofProgress, Party.Progress.init, Party.lower]
  rw [Snapshot.cut_zero]
  rfl

/-- What the engine makes of a frame is what the party makes of its ranges. -/
theorem reconcileAux_eq {ranges : List Range} {body : List UInt8} (hparses : Parses 0 body ranges)
    (hordered : Ordered Bound.zero.position ranges) :
    ∃ locals, self.reconcileAux (protocolVersion :: body) = .ok locals ∧
      locals.Shows (self.party.reply ranges) := by
  obtain ⟨locals, hloop, hshows⟩ := @reconcileLoop_eq self Party.Progress.init ranges body
    body.length hparses hordered le_rfl
  rw [← Locals.init_eq] at hloop
  exact ⟨locals, hloop, hshows⟩

end Negentropy

end NostrPubsub.Reconcile
