import NostrPubsub.Reconcile.Account
import NostrPubsub.Reconcile.FrameSafety

/-!
# Answers tell the truth

Every range that a party writes ends at or after the range before it and carries exactly what the
party has between the two bounds: the fingerprint of its records there, or their ids. This holds of
the first frame (`Party.truthful_initiate`), of the answer to any ordered ranges
(`Party.truthful_reply`), and so of the bytes of every frame that the engine emits
(`emitted_frame_truthful`).
-/

namespace NostrPubsub.Reconcile

/-- The cut between two neighbouring records. -/
theorem Snapshot.cut_minimalBound (snapshot : Snapshot) {i : ℕ} (hi : 0 < i)
    (h : i < snapshot.items.length) :
    snapshot.cut (minimalBound (snapshot.items.getD (i - 1) defaultItem)
      (snapshot.items.getD i defaultItem)).position = i := by
  have hsorted := List.pairwise_iff_getElem.mp snapshot.sorted
  have hbefore : i - 1 < snapshot.items.length := by omega
  have hlt := hsorted (i - 1) i hbefore h (by omega)
  rw [List.getD_eq_getElem _ _ h, List.getD_eq_getElem _ _ hbefore]
  -- The bound lies above the item before the cut and not above the one at it.
  refine List.cutAt_eq_of h.le (fun j hj hji => ?_) (fun j hj hij => ?_)
  · refine lt_of_le_of_lt ?_ (position_lt_minimalBound hlt)
    rcases (Nat.le_sub_one_of_lt hji).eq_or_lt with rfl | hjlt
    · exact le_rfl
    · exact (hsorted j (i - 1) hj hbefore hjlt).le
  · refine (minimalBound_le_position hlt).trans ?_
    rcases hij.eq_or_lt with rfl | hlt'
    · exact le_rfl
    · exact (hsorted i j h hj hlt').le

/-- A smaller cut is at a smaller place. -/
theorem Snapshot.lt_of_cut_lt (snapshot : Snapshot) {a b : Place}
    (h : snapshot.cut a < snapshot.cut b) : a < b := by
  by_contra hle
  exact absurd (snapshot.cut_mono (not_lt.mp hle)) (not_le.mpr h)

theorem Bound.zero_le_infinity : Bound.zero.position ≤ Bound.infinity.position := by decide

namespace Party

variable (party : Party)

/-- A range says what the party has in it. -/
def Tells (start : Place) (range : Range) : Prop :=
  match range.payload with
  | .skip => True
  | .fingerprint fingerprint =>
    fingerprint = fingerprintOf party.sha256 (party.snapshot.between start range.stop)
  | .idList ids => ids = (party.snapshot.between start range.stop).map Item.id

/-- Every range ends at or after the one before it and says what the party has in it. -/
def Truthful (ranges : List Range) : Prop :=
  ranges.Along Range.stop (fun start range => start ≤ range.stop ∧ party.Tells start range)
    Bound.zero.position

variable {party} in
theorem Truthful.ordered {ranges : List Range} (h : party.Truthful ranges) :
    Ordered Bound.zero.position ranges :=
  List.Along.mono (fun _ _ h => h.1) h

theorem fingerprint_between {start stop : Place} (h : start ≤ stop) :
    party.fingerprint (party.snapshot.cut start) (party.snapshot.cut stop) =
      fingerprintOf party.sha256 (party.snapshot.between start stop) := by
  rw [fingerprint, Snapshot.fingerprint, Snapshot.extract_cut h]

theorem idsBetween_eq {start stop : Place} (h : start ≤ stop) :
    party.idsBetween start stop = (party.snapshot.between start stop).map Item.id := by
  rw [idsBetween, ids, Snapshot.extract_cut h]

/-! ## Splitting -/

/-- One of the buckets of a range with `numElems` records. -/
structure IsBucket (party : Party) (numElems : ℕ) (start : Place) (range : Range) : Prop where
  le : start ≤ range.stop
  /-- It holds a record, and not all of them. -/
  cut_lt : party.snapshot.cut start < party.snapshot.cut range.stop
  few : party.snapshot.cut range.stop - party.snapshot.cut start < numElems
  payload : range.payload = .fingerprint
    (party.fingerprint (party.snapshot.cut start) (party.snapshot.cut range.stop))

variable {party} in
theorem cut_bucketBound {upper curr : ℕ} {upperBound : Bound}
    (hupper : party.snapshot.cut upperBound.position = upper) (hcurr : 0 < curr) (hle : curr ≤ upper) :
    party.snapshot.cut (party.bucketBound upper upperBound curr).position = curr := by
  rw [bucketBound]
  split
  · next heq => rw [hupper, heq]
  · have hlength := party.snapshot.cut_le upperBound.position
    exact party.snapshot.cut_minimalBound hcurr (by omega)

variable {party} in
theorem along_splitBuckets {numElems upper : ℕ} {upperBound : Bound}
    (hupper : party.snapshot.cut upperBound.position = upper) {is : List ℕ} {curr : ℕ}
    {start : Place} (hcut : party.snapshot.cut start = curr)
    (hsize : ∀ i ∈ is, 0 < bucketSize numElems i ∧ bucketSize numElems i < numElems)
    (hsum : curr + (is.map (bucketSize numElems)).sum ≤ upper) :
    (party.splitBuckets numElems upper upperBound is curr).Along Range.stop
      (party.IsBucket numElems) start := by
  induction is generalizing curr start with
  | nil => exact trivial
  | cons i is ih =>
    obtain ⟨hpos, hfew⟩ := hsize i List.mem_cons_self
    rw [List.map_cons, List.sum_cons, ← Nat.add_assoc] at hsum
    have hnext : party.snapshot.cut (party.bucketBound upper upperBound
        (curr + bucketSize numElems i)).position = curr + bucketSize numElems i :=
      cut_bucketBound hupper (by omega) (by omega)
    -- A bucket is not empty, so the next place lies behind this one.
    have hlt : party.snapshot.cut start <
        party.snapshot.cut (party.bucketBound upper upperBound
          (curr + bucketSize numElems i)).position := by
      rw [hnext, hcut]
      omega
    rw [splitBuckets]
    refine ⟨⟨(party.snapshot.lt_of_cut_lt hlt).le, hlt, ?_, ?_⟩,
      ih hnext (fun j hj => hsize j (List.mem_cons_of_mem _ hj)) hsum⟩
    · rw [Range.stop, hnext, hcut]
      omega
    · rw [Range.stop, hnext, hcut]

/-- The buckets of many records. -/
theorem bucketSize_of_many {numElems : ℕ} (h : ¬ numElems < buckets * 2) (i : ℕ) :
    0 < bucketSize numElems i ∧ bucketSize numElems i < numElems := by
  rw [buckets] at h
  rw [bucketSize, buckets]
  split <;> omega

/-- A range is answered by the list of its ids or by buckets. -/
theorem splitRange_cases (start : Place) (bound : Bound) :
    party.snapshot.cut bound.position - party.snapshot.cut start < buckets * 2 ∧
        party.splitRange (party.snapshot.cut start) (party.snapshot.cut bound.position) bound =
          [⟨bound, .idList (party.idsBetween start bound.position)⟩] ∨
      buckets * 2 ≤ party.snapshot.cut bound.position - party.snapshot.cut start ∧
        (party.splitRange (party.snapshot.cut start) (party.snapshot.cut bound.position) bound).Along
          Range.stop (party.IsBucket
            (party.snapshot.cut bound.position - party.snapshot.cut start)) start := by
  rw [splitRange]
  split
  · next hfew => exact .inl ⟨hfew, rfl⟩
  · next hmany =>
    refine .inr ⟨not_lt.mp hmany, along_splitBuckets rfl rfl
      (fun i _ => bucketSize_of_many hmany i) ?_⟩
    rw [sum_bucketSize_buckets]
    rw [buckets] at hmany
    omega

theorem tells_splitRange {start : Place} {bound : Bound} (h : start ≤ bound.position) :
    (party.splitRange (party.snapshot.cut start) (party.snapshot.cut bound.position) bound).Along
      Range.stop (fun start range => start ≤ range.stop ∧ party.Tells start range) start := by
  rcases party.splitRange_cases start bound with
    ⟨-, heq⟩ | ⟨-, hbuckets⟩
  · rw [heq]
    exact ⟨⟨h, party.idsBetween_eq h⟩, trivial⟩
  · refine hbuckets.mono fun start range hbucket => ⟨hbucket.le, ?_⟩
    rw [Tells, hbucket.payload]
    exact party.fingerprint_between hbucket.le

theorem truthful_initiate : party.Truthful party.initiate := by
  have hsplit := party.tells_splitRange
    Bound.zero_le_infinity
  rwa [Snapshot.cut_zero, Snapshot.cut_of_max _ rfl] at hsplit

/-! ## Answering -/

/-- The account of a truthful answer. The fingerprint of the rest is bounded by infinity, which is
not the last place: a bound may have bytes of an id at the last timestamp. -/
def truth (party : Party) : Account where
  Writes start range := start ≤ range.stop ∧ party.Tells start range
  Passes start stop := start ≤ stop
  Defers place := place ≤ Bound.infinity.position
  passes_refl _ := le_rfl
  passes_trans := le_trans
  writes_skip h := ⟨h, trivial⟩

theorem tells_tail {bound : Bound} (h : bound.position ≤ Bound.infinity.position) :
    party.Tells bound.position (party.tail (party.snapshot.cut bound.position)) := by
  have hfingerprint := party.fingerprint_between h
  have hlast : Bound.infinity.timestamp = u64Max := rfl
  rw [Snapshot.cut_of_max _ hlast] at hfingerprint
  exact hfingerprint

/-- The records from the cut at a place on, up to the record at an index. -/
theorem take_idsBetween {start stop : Place} {count : ℕ}
    (hcount : count < (party.idsBetween start stop).length) :
    let item := party.snapshot.items.getD (party.snapshot.cut start + count) defaultItem
    start ≤ item.position ∧
      (party.idsBetween start stop).take count = party.idsBetween start item.position := by
  have hlength := party.length_ids_le (party.snapshot.cut start) (party.snapshot.cut stop)
  have hupper := party.snapshot.cut_le stop
  have hindex : party.snapshot.cut start + count < party.snapshot.items.length := by
    rw [idsBetween] at hcount
    omega
  have hcut := party.snapshot.cut_getD hindex
  refine ⟨?_, ?_⟩
  · rw [List.getD_eq_getElem _ _ hindex]
    exact List.le_of_cutAt_le party.snapshot.sorted hindex (Nat.le_add_right _ _)
  · have hle : party.snapshot.cut start + count ≤ party.snapshot.cut stop := by
      rw [idsBetween] at hcount
      omega
    rw [idsBetween, idsBetween, hcut, ids, ids, ← List.map_take, List.extract_eq_take_drop,
      List.extract_eq_take_drop, List.take_take, Nat.add_sub_cancel_left]
    congr 2
    omega

variable {party} in
theorem truth_covers {final : Progress} {start : Place} {range : Range} (h : start ≤ range.stop)
    (hend : range.stop ≤ Bound.infinity.position) :
    (truth party).Covers party final start range where
  le := h
  passes _ _ := h
  defers _ := hend
  split _ _ _ := party.tells_splitRange h
  list _ _ _ := ⟨h, party.idsBetween_eq h⟩
  part _ _ _ count _ hcount := by
    obtain ⟨hle, htake⟩ := party.take_idsBetween hcount
    refine ⟨⟨?_, ?_⟩, (Item.position_lt_infinity _).le⟩
    · rwa [Range.stop, Item.position_toBound]
    · rw [Tells, htake, Range.stop, Item.position_toBound]
      exact party.idsBetween_eq hle

variable {party} in
/-- The answer to ranges in order is truthful, and goes as far as they do or to the end. -/
theorem truthful_reply (hlimit : party.frameSizeLimit = 0 ∨ 4096 ≤ party.frameSizeLimit)
    {ranges : List Range} (hordered : Ordered Bound.zero.position ranges)
    (hend : endOf Bound.zero.position ranges ≤ Bound.infinity.position) :
    party.Truthful (party.reply ranges).output ∧
      endOf Bound.zero.position (party.reply ranges).output ≤ Bound.infinity.position := by
  have hcloses := Account.reply (truth party) party hlimit (fun bound h => ⟨h, party.tells_tail h⟩)
    (List.Along.mono (fun start range h => truth_covers h.2.1 (h.2.2.trans hend))
      (List.Along.within hordered))
  refine ⟨hcloses.writes, ?_⟩
  rcases hcloses.reaches with hle | heq
  · exact le_trans hle hend
  · exact heq.le

end Party

/-! ## Bytes -/

/-- The frame consists of the ranges. -/
def Spells (frame : List UInt8) (ranges : List Range) : Prop :=
  ∃ body, frame = protocolVersion :: body ∧ Parses 0 body ranges

/-- No more ids than bytes. -/
theorem countable_of_length {last : ℕ} {ranges : List Range}
    (h : (encodeRanges last ranges).length ≤ u64Max) : ∀ range ∈ ranges, range.Countable := by
  induction ranges generalizing last with
  | nil => exact fun _ hmem => absurd hmem List.not_mem_nil
  | cons range ranges ih =>
    rw [encodeRanges, List.length_append] at h
    intro other hmem
    rcases List.mem_cons.mp hmem with rfl | hmem
    · intro ids hpayload
      rw [encodeRange, hpayload, encodePayload, List.length_append, List.length_append,
        List.length_append, length_encodeIds, idSize] at h
      omega
    · have hrest : (encodeRanges range.bound.timestamp ranges).length ≤ u64Max := by omega
      exact ih hrest other hmem

theorem spells_encodeFrame {ranges : List Range} (hordered : Ordered Bound.zero.position ranges)
    (hlength : (encodeFrame ranges).length ≤ u64Max) : Spells (encodeFrame ranges) ranges := by
  refine ⟨encodeRanges 0 ranges, rfl, parses_encodeRanges hordered.timeOrdered ?_⟩
  have hbytes : (encodeRanges 0 ranges).length ≤ u64Max := (Nat.le_succ _).trans hlength
  exact countable_of_length hbytes

theorem Spells.validate {frame : List UInt8} {ranges : List Range} (h : Spells frame ranges)
    (hordered : Ordered Bound.zero.position ranges) (hlength : frame.length ≤ u64Max) :
    Validation.validate frame = .ok () := by
  obtain ⟨body, rfl, hparses⟩ := h
  rw [List.length_cons] at hlength
  exact Validation.validate_frame hparses hordered (by omega)

/-- An accepted frame consists of ranges in order. -/
theorem exists_spells {frame : List UInt8} (h : Validation.validate frame = .ok ()) :
    ∃ ranges, Spells frame ranges ∧ Ordered Bound.zero.position ranges := by
  obtain ⟨reads, hreads, -⟩ := Except.map_eq_ok.mp h
  obtain ⟨body, ranges, rfl, hparses, hordered, -⟩ := Validation.exists_ranges hreads
  exact ⟨ranges, ⟨body, rfl, hparses⟩, hordered⟩

namespace Negentropy

variable {self : Negentropy}

/-- The first frame of an engine that has written nothing yet. -/
theorem initiate_eq (hinitiator : self.isInitiator = false) (hfresh : self.lastTimestampOut = 0) :
    ∃ last, self.initiate = .ok (encodeFrame self.party.initiate,
      { self with isInitiator := true, lastTimestampOut := last }) := by
  have hsplit := self.splitRange_eq 0 Bound.infinity (Nat.zero_le _) (le_refl _)
  have hinfinity : Bound.withTimestamp u64Max = Bound.ofWire Bound.infinity := rfl
  refine ⟨lastTimestamp 0 self.party.initiate, ?_⟩
  rw [initiate, if_neg (by rw [hinitiator]; exact Bool.false_ne_true), hfresh, hinfinity, hsplit]
  rfl

/-- The answer of a responder. -/
theorem reconcile_eq (hinitiator : self.isInitiator = false) {frame : List UInt8}
    {ranges : List Range} (hspells : Spells frame ranges)
    (hordered : Ordered Bound.zero.position ranges) :
    ∃ next, self.reconcile frame = .ok (encodeFrame (self.party.reply ranges).output, next) ∧
      next.party = self.party := by
  obtain ⟨body, rfl, hparses⟩ := hspells
  obtain ⟨locals, haux, hshows⟩ := self.reconcileAux_eq hparses hordered
  refine ⟨self.afterFrame locals, ?_, rfl⟩
  rw [reconcile, hinitiator, haux, ← hshows.fullOutput]
  rfl

/-- What an initiator makes of a frame. -/
theorem reconcileWithIds_eq (hinitiator : self.isInitiator = true) {frame : List UInt8}
    {ranges : List Range} (hspells : Spells frame ranges)
    (hordered : Ordered Bound.zero.position ranges) :
    ∃ next, self.reconcileWithIds frame =
        .ok (if (self.party.reply ranges).output = [] then none
            else some (encodeFrame (self.party.reply ranges).output),
          (self.party.reply ranges).haveIds, (self.party.reply ranges).needIds, next) ∧
      next.party = self.party := by
  obtain ⟨body, rfl, hparses⟩ := hspells
  obtain ⟨locals, haux, hshows⟩ := self.reconcileAux_eq hparses hordered
  have hempty : (encodeFrame (self.party.reply ranges).output).length = 1 ↔
      (self.party.reply ranges).output = [] := by
    rw [encodeFrame, List.length_cons, Nat.add_eq_right, List.length_eq_zero_iff, encodeRanges_eq_nil]
  refine ⟨self.afterFrame locals, ?_, rfl⟩
  rw [reconcileWithIds, hinitiator, haux]
  simp only [not_true_eq_false, if_false, bind, Except.bind, pure, Except.pure, hempty,
    hshows.fullOutput, hshows.haveIds, hshows.needIds]

variable (self) in
theorem party_limit :
    self.party.frameSizeLimit = 0 ∨ 4096 ≤ self.party.frameSizeLimit :=
  self.frameSizeLimit_ok

/-- The frames that an engine emits: the first one, and the answers to frames that were accepted and
whose bounds do not go beyond infinity. -/
inductive Emits (self : Negentropy) : List UInt8 → Prop
  | first {frame : List UInt8} {next : Negentropy} (hfresh : self.lastTimestampOut = 0)
      (h : self.initiate = .ok (frame, next)) : Emits self frame
  | answer {query frame : List UInt8} {next : Negentropy} {ranges : List Range}
      (hvalid : Validation.validate query = .ok ()) (hspells : Spells query ranges)
      (hend : endOf Bound.zero.position ranges ≤ Bound.infinity.position)
      (h : self.reconcile query = .ok (frame, next)) : Emits self frame
  | next {query frame : List UInt8} {haveIds : List Id} {needIds : Multiset Id}
      {next : Negentropy} {ranges : List Range}
      (hvalid : Validation.validate query = .ok ()) (hspells : Spells query ranges)
      (hend : endOf Bound.zero.position ranges ≤ Bound.infinity.position)
      (h : self.reconcileWithIds query = .ok (some frame, haveIds, needIds, next)) : Emits self frame

theorem Spells.ordered {frame : List UInt8} {ranges : List Range} (h : Spells frame ranges)
    (hvalid : Validation.validate frame = .ok ()) : Ordered Bound.zero.position ranges := by
  obtain ⟨ranges', ⟨body', hframe', hparses'⟩, hordered⟩ := exists_spells hvalid
  obtain ⟨body, rfl, hparses⟩ := h
  obtain rfl := List.cons_injective hframe'
  rwa [hparses.unique hparses']

/-- The ranges of an emitted frame. -/
theorem Emits.exists_ranges {frame : List UInt8} (h : self.Emits frame) :
    ∃ ranges, frame = encodeFrame ranges ∧ self.party.Truthful ranges ∧
      endOf Bound.zero.position ranges ≤ Bound.infinity.position ∧
      (4096 ≤ self.frameSizeLimit → self.frameSizeLimit ≤ u64Max →
        frame.length ≤ self.frameSizeLimit) := by
  -- A frame is a first one, the answer of a responder, or the next one of an initiator.
  cases h with
  | first hfresh h =>
    have hinitiator : self.isInitiator = false := by
      by_contra htrue
      rw [initiate, if_pos (Bool.eq_true_of_not_eq_false htrue)] at h
      cases h
    obtain ⟨last, heq⟩ := initiate_eq hinitiator hfresh
    rw [heq] at h
    cases h
    refine ⟨_, rfl, self.party.truthful_initiate, ?_, fun hlimit _ => ?_⟩
    · exact (self.party.lastStop_splitRange _ _ _ _).le
    · exact self.party.length_initiate_le hlimit
  | answer hvalid hspells hend h =>
    have hordered := Spells.ordered hspells hvalid
    have hinitiator : self.isInitiator = false := by
      by_contra htrue
      rw [reconcile, if_pos (Bool.eq_true_of_not_eq_false htrue)] at h
      cases h
    obtain ⟨next', heq, -⟩ := reconcile_eq hinitiator hspells hordered
    rw [heq] at h
    cases h
    obtain ⟨htruthful, hend'⟩ := Party.truthful_reply self.party_limit hordered hend
    exact ⟨_, rfl, htruthful, hend', fun hlimit hmax => self.party.length_reply_le hlimit hmax _⟩
  | next hvalid hspells hend h =>
    have hordered := Spells.ordered hspells hvalid
    have hinitiator : self.isInitiator = true := by
      by_contra hfalse
      rw [reconcileWithIds, if_pos hfalse] at h
      cases h
    obtain ⟨next', heq, -⟩ := reconcileWithIds_eq hinitiator hspells hordered
    rw [heq] at h
    split at h
    · cases h
    · cases h
      obtain ⟨htruthful, hend'⟩ := Party.truthful_reply self.party_limit hordered hend
      exact ⟨_, rfl, htruthful, hend', fun hlimit hmax => self.party.length_reply_le hlimit hmax _⟩

end Negentropy

/-- An emitted frame is within the limit, the validator of the other side accepts it, and every range
in it carries exactly the fingerprint, or the ids, of the records that the sender has between the bound
before it and its own. The answers that were cut short are no exception. -/
theorem emitted_frame_truthful (self : Negentropy) (hlimit : 4096 ≤ self.frameSizeLimit)
    (hmax : self.frameSizeLimit ≤ 65536) {frame : List UInt8} (h : self.Emits frame) :
    frame.length ≤ self.frameSizeLimit ∧ Validation.validate frame = .ok () ∧
      ∃ ranges, Spells frame ranges ∧ self.party.Truthful ranges := by
  have hsmall : self.frameSizeLimit ≤ u64Max := hmax.trans (by decide)
  obtain ⟨ranges, rfl, htruthful, -, hlength⟩ := h.exists_ranges
  have hfits := hlength hlimit hsmall
  have hspells := spells_encodeFrame htruthful.ordered (hfits.trans hsmall)
  exact ⟨hfits, hspells.validate htruthful.ordered (hfits.trans hsmall), ranges, hspells, htruthful⟩

/-- A hash that keeps the first bytes. -/
def firstBytes (bytes : List UInt8) : List.Vector UInt8 32 :=
  ⟨(bytes ++ List.replicate 32 0).take 32, length_take_padded bytes⟩

/-- A record at the seventh second. -/
def itemOf (byte : UInt8) : Item := ⟨7, List.Vector.replicate 32 byte, by decide⟩

theorem sorted_pair : [itemOf 2, itemOf 4].Pairwise fun a b => a.position < b.position := by
  decide +kernel

theorem nodup_pair : ([itemOf 2, itemOf 4].map Item.id).Nodup := by decide +kernel

theorem sorted_single : [itemOf 2].Pairwise fun a b => a.position < b.position := by decide +kernel

theorem nodup_single : ([itemOf 2].map Item.id).Nodup := by decide +kernel

theorem frameSizeLimit_ok_least : 4096 = 0 ∨ 4096 ≤ 4096 := .inr le_rfl

/-- An engine over two records. -/
def pairEngine : Negentropy where
  sha256 := firstBytes
  storage := ⟨[itemOf 2, itemOf 4], sorted_pair, nodup_pair⟩
  frameSizeLimit := 4096
  frameSizeLimit_ok := frameSizeLimit_ok_least

/-- An engine over one of them. -/
def singleEngine : Negentropy where
  sha256 := firstBytes
  storage := ⟨[itemOf 2], sorted_single, nodup_single⟩
  frameSizeLimit := 4096
  frameSizeLimit_ok := frameSizeLimit_ok_least

/-- The first frame of the engine over one record is answered by the one over two, with more bytes than
their two ids have. -/
theorem pairEngine_answers : (singleEngine.initiate.toOption.any fun first =>
    (pairEngine.reconcile first.1).toOption.any fun answer => decide (64 < answer.1.length)) = true := by
  decide +kernel

theorem emitted_frame_truthful_answer : ∃ query first frame next,
    singleEngine.initiate = .ok (query, first) ∧ pairEngine.reconcile query = .ok (frame, next) ∧
      64 < frame.length ∧ frame.length ≤ 4096 ∧ Validation.validate frame = .ok () ∧
        ∃ ranges, Spells frame ranges ∧ pairEngine.party.Truthful ranges := by
  obtain ⟨⟨query, first⟩, hfirst, hanswers⟩ := Option.any_eq_true _ _ |>.mp pairEngine_answers
  obtain ⟨⟨frame, next⟩, hanswer, hlong⟩ := Option.any_eq_true _ _ |>.mp hanswers
  rw [Except.toOption_eq_some] at hfirst hanswer
  -- the query is a first frame, so it is spelled by ranges that stay below infinity
  obtain ⟨ranges, rfl, htruthful, hend, hlength⟩ := (Negentropy.Emits.first rfl hfirst).exists_ranges
  have hfits := (hlength le_rfl (by decide)).trans (show 4096 ≤ u64Max by decide)
  have hspells := spells_encodeFrame htruthful.ordered hfits
  obtain ⟨hshort, hvalid, htold⟩ := emitted_frame_truthful pairEngine le_rfl (by decide)
    (.answer (hspells.validate htruthful.ordered hfits) hspells hend hanswer)
  exact ⟨_, first, frame, next, hfirst, hanswer, of_decide_eq_true hlong, hshort, hvalid, htold⟩

end NostrPubsub.Reconcile
