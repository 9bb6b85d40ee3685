import NostrPubsub.Reconcile.Engine

/-!
# What the engine writes

The bytes that the engine appends to its answer are the encoding of ranges that `Party` names: for
a range that is split (`splitRange_eq`), and at the end of an iteration (`endRange_eq`). The storage
is asked for nothing outside it and no subtraction underflows, since the indices of a range are cuts
of the snapshot.
-/

namespace NostrPubsub.Reconcile

namespace Negentropy

variable (self : Negentropy)

/-- The party that the engine plays. -/
def party : Party := ⟨self.sha256, self.storage, self.frameSizeLimit, self.isInitiator⟩

/-! ## Calls that are in range -/

theorem checkBounds_eq {begin_ end_ : ℕ} (h : begin_ ≤ end_)
    (hend : end_ ≤ self.storage.items.length) : self.checkBounds begin_ end_ = .ok () :=
  if_pos ⟨h, hend⟩

theorem fingerprint_eq {begin_ end_ : ℕ} (h : begin_ ≤ end_)
    (hend : end_ ≤ self.storage.items.length) :
    self.fingerprint begin_ end_ = .ok (self.party.fingerprint begin_ end_) := by
  rw [fingerprint, self.checkBounds_eq h hend]
  rfl

theorem iterate_eq {begin_ end_ : ℕ} (h : begin_ ≤ end_)
    (hend : end_ ≤ self.storage.items.length) :
    self.iterate begin_ end_ = .ok (self.storage.items.extract begin_ end_) := by
  rw [iterate, self.checkBounds_eq h hend]
  rfl

theorem checkedSub_eq {a b : ℕ} (h : b ≤ a) : checkedSub a b = .ok (a - b) :=
  if_neg (Nat.not_lt.mpr h)

theorem exceededFrameSizeLimit_eq (n : ℕ) :
    self.exceededFrameSizeLimit n = .ok (decide (self.party.ExceededFrameSizeLimit n)) := by
  have hparty : self.party.ExceededFrameSizeLimit n ↔
      self.frameSizeLimit ≠ 0 ∧ self.frameSizeLimit - 200 < n := Iff.rfl
  rw [exceededFrameSizeLimit]
  split
  · next hzero => simp [hparty, hzero]
  · next hzero =>
    have hroom : 200 ≤ self.frameSizeLimit := by
      rcases self.frameSizeLimit_ok with h | h
      · exact absurd h hzero
      · omega
    rw [checkedSub_eq hroom]
    simp [hparty, hzero, pure, Except.pure]

/-! ## Bounds -/

/-- The engine's form of a bound of the wire. -/
def Bound.ofWire (bound : Reconcile.Bound) : Bound := Bound.ofPrefix bound.timestamp bound.id

theorem Bound.position_ofWire (bound : Reconcile.Bound) :
    (Bound.ofWire bound).position = bound.position := by
  have hlen : bound.id.length ≤ 32 := bound.length_le
  have hkey : EventId.key (Bound.ofWire bound).id = padKey bound.id := by
    show List.map UInt8.toNat ((bound.id ++ List.replicate 32 0).take 32) = padKey bound.id
    rw [List.take_append, List.take_of_length_le hlen, padKey, List.map_append, List.take_replicate]
    simp [idSize]
  rw [Bound.position, hkey]
  rfl

theorem Bound.ofWire_toBound (item : Item) : Bound.ofWire item.toBound = Bound.fromItem item := by
  have hlen : item.id.toList.length = 32 := item.id.toList_length
  refine Bound.ext rfl ?_ hlen
  apply List.Vector.toList_injective
  exact List.take_left' hlen

/-- Two records of a storage have different ids, so that the slice of an id ends within it. -/
theorem getMinimalBound_eq {prev curr : Item} (h : prev.id ≠ curr.id) :
    getMinimalBound prev curr = .ok (Bound.ofWire (minimalBound prev curr)) := by
  rw [getMinimalBound, minimalBound]
  split
  · rfl
  · have hshared : sharedPrefixBytes curr.id.toList prev.id.toList < curr.id.toList.length := by
      apply sharedPrefixBytes_lt
      · rw [curr.id.toList_length, prev.id.toList_length]
      · exact fun heq => h (List.Vector.toList_injective heq).symm
    have hslice : sliceTo curr.id.toList (sharedPrefixBytes curr.id.toList prev.id.toList + 1) =
        .ok (curr.id.toList.take (sharedPrefixBytes curr.id.toList prev.id.toList + 1)) :=
      if_neg (Nat.not_lt.mpr hshared)
    have hlength : (curr.id.toList.take
        (sharedPrefixBytes curr.id.toList prev.id.toList + 1)).length ≤ idSize :=
      (List.length_take_le' _ _).trans curr.id.toList_length.le
    simp only [hslice, Except.ok_bind, Bound.withTimestampAndId, if_neg (Nat.not_lt.mpr hlength)]
    rfl

theorem findLowerBound_eq {first : ℕ} {bound : Reconcile.Bound}
    (h : first ≤ self.storage.cut bound.position) :
    self.findLowerBound first (Bound.ofWire bound) = .ok (self.storage.cut bound.position) := by
  have hfirst : first ≤ self.storage.items.length := h.trans (self.storage.cut_le _)
  rw [findLowerBound, checkedSub_eq hfirst, Except.ok_bind, Bound.position_ofWire]
  exact congrArg Except.ok (List.add_length_takeWhile_drop _ h)

theorem encodeBound_ofWire (last : ℕ) (bound : Reconcile.Bound) :
    encodeBound last (Bound.ofWire bound) = (Reconcile.encodeBound last bound, bound.timestamp) := by
  have hlen : bound.id.length ≤ 32 := bound.length_le
  have hslice : ((Bound.ofWire bound).id.toList ++ List.replicate
      ((Bound.ofWire bound).idLen - idSize) 0).take (Bound.ofWire bound).idLen = bound.id := by
    show List.take bound.id.length ((bound.id ++ List.replicate 32 0).take 32 ++ _) = bound.id
    rw [List.take_append_of_le_length (by simp; omega), List.take_take,
      Nat.min_eq_left hlen, List.take_left]
  simp only [encodeBound, Reconcile.encodeBound, hslice]
  rfl

/-! ## Splitting a range -/

/-- The two records at an index inside the storage. -/
theorem itemsAround_eq {curr : ℕ} (hcurr : 0 < curr) (hlt : curr < self.storage.items.length) :
    self.itemsAround curr = .ok (self.storage.items.getD (curr - 1) defaultItem,
      self.storage.items.getD curr defaultItem) := by
  rw [itemsAround, checkedSub_eq hcurr, Except.ok_bind, self.iterate_eq (by omega) hlt,
    Except.ok_bind]
  have hfirst : (self.storage.items.extract (curr - 1) (curr + 1)).getD 0 defaultItem =
      self.storage.items.getD (curr - 1) defaultItem := by
    simp only [List.getD_eq_getElem?_getD, List.extract_eq_take_drop]
    rw [List.getElem?_take_of_lt (by omega), List.getElem?_drop, Nat.add_zero]
  have hsecond : (self.storage.items.extract (curr - 1) (curr + 1)).getD 1 defaultItem =
      self.storage.items.getD curr defaultItem := by
    simp only [List.getD_eq_getElem?_getD, List.extract_eq_take_drop]
    rw [List.getElem?_take_of_lt (by omega), List.getElem?_drop, Nat.sub_add_cancel hcurr]
  rw [hfirst, hsecond]
  rfl

/-- Neighbours in the storage have different ids. -/
theorem id_ne_of_neighbours {curr : ℕ} (hcurr : 0 < curr) (hlt : curr < self.storage.items.length) :
    (self.storage.items.getD (curr - 1) defaultItem).id ≠
      (self.storage.items.getD curr defaultItem).id := by
  have hbefore : curr - 1 < self.storage.items.length := by omega
  simp only [List.getD_eq_getElem?_getD, List.getElem?_eq_getElem hbefore,
    List.getElem?_eq_getElem hlt, Option.getD_some]
  intro heq
  have hfirst : curr - 1 < (self.storage.items.map Item.id).length := by simpa using hbefore
  have hsecond : curr < (self.storage.items.map Item.id).length := by simpa using hlt
  have hids : (self.storage.items.map Item.id)[curr - 1] =
      (self.storage.items.map Item.id)[curr] := by simpa using heq
  have hindex := (List.Nodup.getElem_inj_iff self.storage.nodup).mp hids
  omega

/-- The bound after a bucket that is not the last. -/
theorem nextBound_eq {curr upper : ℕ} (upperBound : Reconcile.Bound) (hcurr : 0 < curr)
    (hle : curr ≤ upper) (hupper : upper ≤ self.storage.items.length) :
    self.nextBound upper (Bound.ofWire upperBound) curr =
      .ok (Bound.ofWire (self.party.bucketBound upper upperBound curr)) := by
  rw [nextBound, Party.bucketBound]
  split
  · rfl
  · have hlt : curr < self.storage.items.length := by omega
    rw [self.itemsAround_eq hcurr hlt]
    exact getMinimalBound_eq (self.id_ne_of_neighbours hcurr hlt)

theorem splitBuckets_eq {numElems upper : ℕ} (upperBound : Reconcile.Bound) (is : List ℕ)
    (o : List UInt8) (last : ℕ) {curr : ℕ} (hbuckets : buckets ≤ numElems)
    (hsum : curr + (is.map (bucketSize numElems)).sum ≤ upper)
    (hupper : upper ≤ self.storage.items.length) :
    self.splitBuckets numElems upper (Bound.ofWire upperBound) is o last curr =
      .ok (o ++ encodeRanges last (self.party.splitBuckets numElems upper upperBound is curr),
        lastTimestamp last (self.party.splitBuckets numElems upper upperBound is curr)) := by
  induction is generalizing o last curr with
  | nil => simp [splitBuckets, Party.splitBuckets, encodeRanges, lastTimestamp]
  | cons i is ih =>
    rw [List.map_cons, List.sum_cons] at hsum
    have hsize : (numElems / buckets + if i < numElems % buckets then 1 else 0) =
        bucketSize numElems i := rfl
    have hpos : 0 < bucketSize numElems i :=
      Nat.add_pos_left (Nat.div_pos hbuckets (by decide)) _
    have hnext := @nextBound_eq self (curr + bucketSize numElems i) upper upperBound
      (by omega) (by omega) hupper
    rw [splitBuckets]
    simp only [hsize]
    rw [self.fingerprint_eq (Nat.le_add_right _ _) (by omega), Except.ok_bind, hnext,
      Except.ok_bind]
    simp only [encodeBound_ofWire]
    rw [ih _ _ (by omega)]
    simp [Party.splitBuckets, encodeRanges, encodeRange, encodePayload, lastTimestamp, encodeMode,
      Mode.asU64]

theorem splitRange_eq (last : ℕ) {lower upper : ℕ} (upperBound : Reconcile.Bound)
    (hlower : lower ≤ upper) (hupper : upper ≤ self.storage.items.length) :
    self.splitRange last lower upper (Bound.ofWire upperBound) =
      .ok (encodeRanges last (self.party.splitRange lower upper upperBound),
        lastTimestamp last (self.party.splitRange lower upper upperBound)) := by
  rw [splitRange, checkedSub_eq hlower, Except.ok_bind, Party.splitRange]
  split
  · have hlength : (self.party.ids lower upper).length = upper - lower := by
      simp only [Party.ids, party, List.length_map, List.extract_eq_take_drop, List.length_take,
        List.length_drop]
      omega
    simp only [encodeBound_ofWire, self.iterate_eq hlower hupper, Except.ok_bind, encodeRanges,
      encodeRange, encodePayload, lastTimestamp, hlength, List.append_nil]
    simp only [encodeMode, Mode.asU64, encodeIds, Party.ids, party, List.flatMap_map, pure,
      Except.pure]
  · next hmany =>
    have hbuckets : buckets ≤ upper - lower := by
      rw [buckets] at hmany ⊢
      omega
    have hsum := sum_bucketSize_buckets (upper - lower)
    rw [self.splitBuckets_eq _ _ _ _ hbuckets (by omega) hupper, List.nil_append]

/-! ## The end of an iteration -/

/-- The variables of the loop after the ranges of `progress`. -/
def Locals.ofProgress (progress : Party.Progress) : Locals where
  lastTimestampIn := progress.prevBound.timestamp
  lastTimestampOut := lastTimestamp 0 progress.output
  fullOutput := encodeFrame progress.output
  prevBound := Bound.ofWire progress.prevBound
  prevIndex := self.party.lower progress
  skip := progress.skip
  haveIds := progress.haveIds
  needIds := progress.needIds

/-- The loop wrote and learned what `progress` says. -/
structure Locals.Shows (locals : Locals) (progress : Party.Progress) : Prop where
  fullOutput : locals.fullOutput = encodeFrame progress.output
  haveIds : locals.haveIds = progress.haveIds
  needIds : locals.needIds = progress.needIds

/-- The loop goes on, or ends, as `Party.step` does. -/
def Follows : Except Error (Party.Flow Locals) → Party.Flow Party.Progress → Prop
  | .ok (.next locals), .next progress => locals = Locals.ofProgress self progress
  | .ok (.stop locals), .stop progress => locals.Shows progress
  | _, _ => False

theorem encodeTail (last remaining : ℕ) :
    (encodeBound last (Bound.withTimestamp u64Max)).1 ++ (encodeMode .fingerprint
      ++ (self.party.fingerprint remaining self.storage.items.length).toList)
      = encodeRanges last [self.party.tail remaining] := by
  have hinfinity : Bound.withTimestamp u64Max = Bound.ofWire Bound.infinity := rfl
  rw [hinfinity, encodeBound_ofWire]
  simp [encodeRanges, encodeRange, encodePayload, Party.tail, encodeMode, Mode.asU64, party]

/-- A cut answer: what was written, a skip up to the boundary and the tail. -/
theorem encodeCut (output : List Range) (boundary : Reconcile.Bound) (remaining : ℕ) :
    encodeFrame output ++ (Reconcile.encodeBound (lastTimestamp 0 output) boundary
        ++ encodeMode .skip
      ++ ((encodeBound boundary.timestamp (Bound.withTimestamp u64Max)).1 ++ (encodeMode .fingerprint
        ++ (self.party.fingerprint remaining self.storage.items.length).toList)))
      = encodeFrame (output ++ [⟨boundary, .skip⟩, self.party.tail remaining]) := by
  rw [encodeTail, encodeFrame_append]
  simp [encodeRanges, encodeRange, encodePayload, encodeMode, Mode.asU64]

/-- The end of an iteration that did not stop inside a list of ids. -/
theorem endRange_eq {progress : Party.Progress} {currBound : Reconcile.Bound} {o : List Range}
    {timestampBeforeRange : ℕ}
    (hbefore : o ≠ [] → timestampBeforeRange = lastTimestamp 0 progress.output) :
    self.Follows
      (self.endRange timestampBeforeRange (self.party.lower progress) (Bound.ofWire currBound)
        ⟨{ Locals.ofProgress self progress with
            lastTimestampIn := currBound.timestamp
            lastTimestampOut := lastTimestamp 0 (progress.output ++ o) },
          encodeRanges (lastTimestamp 0 progress.output) o, self.storage.cut currBound.position,
          false⟩)
      (self.party.advance progress currBound o) := by
  have hlength : (encodeFrame progress.output).length
      + (encodeRanges (lastTimestamp 0 progress.output) o).length
      = (encodeFrame (progress.output ++ o)).length := by
    rw [encodeFrame_append, List.length_append]
  have hfingerprint : ∀ position, self.fingerprint (self.storage.cut position)
      self.storage.items.length =
        .ok (self.party.fingerprint (self.storage.cut position) self.storage.items.length) :=
    fun position => self.fingerprint_eq (self.storage.cut_le position) le_rfl
  simp only [endRange, cutsFrame, Party.advance, Locals.ofProgress, hlength, encodeRanges_eq_nil,
    Bool.false_eq_true, if_false, self.exceededFrameSizeLimit_eq, Except.ok_bind, decide_eq_true_eq]
  by_cases hexceeded : self.party.ExceededFrameSizeLimit (encodeFrame (progress.output ++ o)).length
  · rw [if_pos hexceeded, if_pos hexceeded]
    by_cases ho : o = []
    · subst ho
      have hnil : encodeRanges (lastTimestamp 0 progress.output) [] = [] := rfl
      simp only [hnil, ne_eq, not_true_eq_false, not_false_eq_true, if_true, if_false,
        encodeBound_ofWire, hfingerprint, Except.ok_bind, List.append_nil]
      exact ⟨self.encodeCut _ _ _, rfl, rfl⟩
    · have hne : encodeRanges (lastTimestamp 0 progress.output) o ≠ [] :=
        fun h => ho (encodeRanges_eq_nil.mp h)
      have hlower : self.party.lower progress = self.storage.cut progress.prevBound.position := rfl
      simp only [if_neg ho, if_pos hne, not_false_eq_true, if_true, encodeBound_ofWire, hbefore ho,
        hlower, hfingerprint, Except.ok_bind]
      exact ⟨self.encodeCut _ _ _, rfl, rfl⟩
  · rw [if_neg hexceeded, if_neg hexceeded]
    show _ = _
    simp [Locals.ofProgress, encodeFrame_append, Party.lower, party]

end Negentropy

end NostrPubsub.Reconcile
