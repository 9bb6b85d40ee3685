import NostrPubsub.Reconcile.BrowserOutput

/-!
# The loop of the browser follows the ranges

On the bytes of one more range an iteration of the loop in `process` computes what `Party.step` says
(`Plays.iteration_eq`), and on a frame of ranges in order the method computes `Party.reply`
(`Plays.processFrame_eq`): the function that the native engine computes as well.
-/

namespace NostrPubsub.Reconcile.Browser

/-! ## Maps of ids -/

theorem nodup_setId {theirs : List (List UInt8)} (h : theirs.Nodup) (id : List UInt8) :
    (setId theirs id).Nodup := by
  rw [setId]
  split
  · exact h
  · next hnew => exact List.nodup_append'.mpr ⟨h, List.nodup_singleton _, by simpa using hnew⟩

theorem mem_setId {theirs : List (List UInt8)} {id other : List UInt8} :
    other ∈ setId theirs id ↔ other ∈ theirs ∨ other = id := by
  rw [setId]
  split
  · next hold =>
    refine ⟨.inl, ?_⟩
    rintro (hmem | rfl)
    · exact hmem
    · exact hold
  · rw [List.mem_append, List.mem_singleton]

/-- The keys that are set, each once. -/
theorem foldl_setId (theirs ids : List (List UInt8)) (h : theirs.Nodup) :
    (ids.foldl setId theirs).Nodup ∧
      ∀ id, id ∈ ids.foldl setId theirs ↔ id ∈ theirs ∨ id ∈ ids := by
  induction ids generalizing theirs with
  | nil => simp [h]
  | cons id ids ih =>
    obtain ⟨hnodup, hmem⟩ := ih (setId theirs id) (nodup_setId h id)
    refine ⟨hnodup, fun other => ?_⟩
    rw [List.foldl_cons, hmem, mem_setId, List.mem_cons, or_assoc]

/-- No id comes twice, so that a deletion does not change a later one. -/
theorem deleteIds_eq {ids theirs : List (List UInt8)} (hids : ids.Nodup) (htheirs : theirs.Nodup)
    (haveIds : List (List UInt8)) :
    deleteIds ids theirs haveIds =
      (theirs.filter (· ∉ ids), haveIds ++ ids.filter (· ∉ theirs)) := by
  induction ids generalizing theirs haveIds with
  | nil => simp [deleteIds]
  | cons id ids ih =>
    obtain ⟨hnew, hrest⟩ := List.nodup_cons.mp hids
    rw [deleteIds]
    by_cases hmem : id ∈ theirs
    · rw [if_pos hmem, ih hrest (htheirs.erase id), htheirs.erase_eq_filter, List.filter_filter,
        List.filter_cons_of_neg (by simpa using hmem)]
      congr 1
      · refine List.filter_congr fun other _ => ?_
        simp [bne, Bool.beq_eq_decide_eq, Bool.and_comm]
      · congr 1
        refine List.filter_congr fun other hother => ?_
        have hne : other ≠ id := fun heq => hnew (heq ▸ hother)
        simp [hne]
    · rw [if_neg hmem, ih hrest htheirs, List.filter_cons_of_pos (by simpa using hmem),
        List.append_assoc, List.singleton_append]
      congr 1
      refine List.filter_congr fun other hother => ?_
      have hne : other ≠ id := fun heq => hmem (heq ▸ hother)
      simp [hne]

namespace Reconciliation

variable {peer : Reconciliation} {party : Party}

/-! ## Ids of a range -/

theorem takeIds_eq {count last : ℕ} {bytes rest : List UInt8} {ids : List Id}
    (h : readIds count bytes = some (ids, rest)) (theirs : List (List UInt8)) :
    peer.takeIds count theirs ⟨bytes, last⟩ =
      .ok (if peer.initiator then (ids.map List.Vector.toList).foldl setId theirs else theirs,
        ⟨rest, last⟩) := by
  induction count generalizing bytes ids theirs with
  | zero =>
    cases h
    rw [takeIds]
    split <;> rfl
  | succ count ih =>
    simp only [readIds, Option.bind_eq_bind, Option.bind_eq_some_iff, Prod.exists] at h
    obtain ⟨id, afterId, hid, ids', rest', hids, h⟩ := h
    cases h
    obtain ⟨hle, htaken, rfl⟩ := readVector_eq_some.mp hid
    have htake : Reader.take ⟨bytes, last⟩ 32 = .ok (id.toList, ⟨bytes.drop 32, last⟩) := by
      rw [htaken]
      exact Reader.take_eq_ok.mpr ⟨hle, rfl⟩
    rw [takeIds, htake, Except.ok_bind]
    simp only [ih hids]
    split <;> rfl

theorem ids_succ {start count : ℕ} (h : start + count < party.snapshot.items.length) :
    party.ids start (start + (count + 1)) =
      (party.snapshot.items.getD start defaultItem).id :: party.ids (start + 1) (start + 1 + count) := by
  have hstart : start < party.snapshot.items.length := by omega
  rw [Party.ids, Party.ids, List.extract_eq_take_drop, List.extract_eq_take_drop,
    List.drop_eq_getElem_cons hstart, Nat.add_sub_cancel_left, Nat.add_sub_cancel_left,
    List.take_succ_cons, List.map_cons, List.getD_eq_getElem _ _ hstart]

/-- The ids that fit, and the record that is cut off. -/
theorem Plays.answerLoop_eq (h : peer.Plays party) (outputLength : ℕ) (count : ℕ) {start : ℕ}
    (hcount : start + count ≤ party.snapshot.items.length) (ids : List (List UInt8)) :
    ∃ k, party.fittingIds outputLength ids.length (party.ids start (start + count)) =
        ids.length + k ∧ k ≤ count ∧
      peer.answerLoop outputLength (List.range' start count) ids =
        .ok (ids ++ ((party.ids start (start + count)).take k).map List.Vector.toList,
          if k < count then
            some (Bound.ofItem (party.snapshot.items.getD (start + k) defaultItem), start + k)
          else none) := by
  induction count generalizing start ids with
  | zero =>
    have hnone : party.ids start (start + 0) = [] := by
      rw [Party.ids, List.extract_eq_take_drop, Nat.add_zero, Nat.sub_self, List.take_zero,
        List.map_nil]
    refine ⟨0, ?_, le_rfl, ?_⟩
    · rw [hnone]
      rfl
    · rw [hnone, List.take_nil, List.map_nil, List.append_nil]
      rfl
  | succ count ih =>
    have hitem := h.shows.item_eq (show start < party.snapshot.items.length by omega)
    have hsucc := @ids_succ party start count (by omega)
    have hexceeded : peer.frameBytes - 200 < outputLength + ids.length * 32 ↔
        party.ExceededFrameSizeLimit (outputLength + idSize * ids.length) := by
      rw [h.exceeded_iff, idSize, Nat.mul_comm]
    rw [List.range'_succ, answerLoop, hitem, Except.ok_bind, hsucc, Party.fittingIds]
    by_cases hfull : party.ExceededFrameSizeLimit (outputLength + idSize * ids.length)
    · rw [if_pos hfull, if_pos (hexceeded.mpr hfull)]
      exact ⟨0, rfl, Nat.zero_le _, by simp [pure, Except.pure]⟩
    · rw [if_neg hfull, if_neg (mt hexceeded.mp hfull)]
      obtain ⟨k, hfitting, hle, hloop⟩ := ih (show start + 1 + count ≤ _ by omega)
        (ids ++ [(Bound.ofItem (party.snapshot.items.getD start defaultItem)).id])
      rw [List.length_append, List.length_singleton] at hfitting
      refine ⟨k + 1, by omega, by omega, ?_⟩
      rw [hloop, List.take_succ_cons, List.map_cons, List.append_assoc, List.singleton_append]
      have hindex : start + 1 + k = start + (k + 1) := by omega
      simp only [hindex, Nat.add_lt_add_iff_right]
      rfl

/-! ## One iteration -/

/-- The last timestamp written is that of the last bound. -/
theorem lastTimestamp_eq (start : Place) (ranges : List Range) :
    lastTimestamp (ofLex start).1 ranges = (ofLex (endOf start ranges)).1 := by
  induction ranges generalizing start with
  | nil => rfl
  | cons range ranges ih => exact ih range.stop

/-- Writing a pending skip. -/
theorem Locals.Stands.flushSkip_eq {locals : Locals} {progress : Party.Progress} {input : Reader}
    (h : locals.Stands party progress input) (hbehind : Behind progress) :
    flushSkip locals { timestamp := lastTimestamp 0 progress.output } =
      .ok ({ locals with skip := false },
        Writer.written { timestamp := lastTimestamp 0 progress.output } progress.pendingSkip) := by
  rw [flushSkip, Party.Progress.pendingSkip, h.skip]
  by_cases hpending : progress.skip = true
  · have hskip := @Writer.write_skip { timestamp := lastTimestamp 0 progress.output }
      progress.prevBound hbehind
    obtain ⟨bounded, hbounded, hskip⟩ := Except.bind_eq_ok.mp hskip
    rw [if_pos hpending, if_pos hpending, h.previous, hbounded, Except.ok_bind, hskip]
    rfl
  · rw [if_neg hpending, if_neg hpending, Writer.written_nil]
    have hnone : locals.skip = false := h.skip.trans (Bool.eq_false_of_not_eq_true hpending)
    obtain ⟨_, _, _, _, _, _, skip⟩ := locals
    cases hnone
    rfl

/-- What was written and the pending skip do not end behind the next range. -/
theorem Behind.pending {progress : Party.Progress} (h : Behind progress) :
    lastTimestamp 0 (progress.output ++ progress.pendingSkip) ≤ progress.prevBound.timestamp := by
  rw [Party.Progress.pendingSkip]
  split
  · rw [lastTimestamp_concat]
  · rw [List.append_nil]
    exact h

variable {progress : Party.Progress} {bound : Reconcile.Bound} {locals : Locals}
  {query rest : List UInt8}

/-- A range that nothing is written for. -/
theorem Plays.endRange_silent (h : peer.Plays party) {progress' : Party.Progress}
    (hstands : locals.Stands party progress' ⟨rest, bound.timestamp⟩)
    (hlast : lastTimestamp 0 progress'.output ≤ bound.timestamp) :
    Follows party rest
      (peer.endRange party.sha256 (party.lower progress') (Bound.ofWire bound)
        ⟨locals, { timestamp := lastTimestamp 0 progress'.output },
          party.snapshot.cut bound.position, false⟩)
      (party.advance progress' bound []) := by
  have hend := @Plays.endRange_eq peer party h progress' bound [] locals rest hstands
    (fun hne => absurd rfl hne) (by rwa [List.append_nil])
  rwa [Writer.written_nil] at hend

/-- A fingerprint is compared, and answered by the ranges it is split into. -/
theorem Plays.onFingerprint_follows (h : peer.Plays party) {theirs : Fingerprint}
    (hstands : locals.Stands party progress ⟨query, bound.timestamp⟩) (hbehind : Behind progress)
    (hle : progress.prevBound.position ≤ bound.position)
    (hread : readVector 16 query = some (theirs, rest)) :
    Follows party rest
      (peer.onFingerprint party.sha256 locals { timestamp := lastTimestamp 0 progress.output }
          (party.lower progress) (party.snapshot.cut bound.position) (Bound.ofWire bound) >>=
        peer.endRange party.sha256 (party.lower progress) (Bound.ofWire bound))
      (party.step progress ⟨bound, .fingerprint theirs⟩) := by
  obtain ⟨hlength, htheirs, rfl⟩ := readVector_eq_some.mp hread
  have htake : locals.input.take 16 = .ok (theirs.toList, ⟨query.drop 16, bound.timestamp⟩) := by
    rw [htheirs, hstands.input]
    exact Reader.take_eq_ok.mpr ⟨hlength, rfl⟩
  have hlower : party.lower progress ≤ party.snapshot.cut bound.position :=
    party.snapshot.cut_mono hle
  have hours := h.fingerprint_eq hlower (party.snapshot.cut_le bound.position)
  -- The engine compares the fingerprints as byte strings.
  have hsame : compareIds theirs.toList
      (party.fingerprint (party.lower progress) (party.snapshot.cut bound.position)).toList = 0 ↔
        theirs = party.fingerprint (party.lower progress) (party.snapshot.cut bound.position) := by
    rw [compareIds_eq_zero (by rw [theirs.toList_length, List.Vector.toList_length])
      (by rw [List.Vector.toList_length]; decide)]
    exact List.Vector.toList_injective.eq_iff
  have hnext : Locals.Stands { locals with input := ⟨query.drop 16, bound.timestamp⟩ } party progress
      ⟨query.drop 16, bound.timestamp⟩ := { hstands with input := rfl }
  rw [onFingerprint, htake, Party.step]
  simp only [Except.ok_bind, hours, ne_eq, hsame]
  split
  · next hdiffers =>
    -- The pending skip is written before the ranges, and both move the last timestamp on.
    have hflush := hnext.flushSkip_eq hbehind
    have hsplit := @Plays.split_eq peer party h progress.prevBound.position bound
      (Writer.written { timestamp := lastTimestamp 0 progress.output } progress.pendingSkip) hle
      (by
        rw [Writer.written, ← lastTimestamp_append]
        exact hbehind.pending)
    have hsplit' : peer.split party.sha256 (party.lower progress) (party.snapshot.cut bound.position)
        (Bound.ofWire bound) (Writer.written { timestamp := lastTimestamp 0 progress.output }
          progress.pendingSkip) = _ := hsplit
    simp only [hflush, Except.ok_bind, hsplit']
    have hlast : lastTimestamp 0 (progress.output ++ (progress.pendingSkip ++
        party.splitRange (party.lower progress) (party.snapshot.cut bound.position) bound)) =
          bound.timestamp := by
      have hstop := lastTimestamp_eq
        (toLex (lastTimestamp 0 (progress.output ++ progress.pendingSkip), []))
        (party.splitRange (party.lower progress) (party.snapshot.cut bound.position) bound)
      rw [party.lastStop_splitRange] at hstop
      rw [← List.append_assoc, lastTimestamp_append]
      exact hstop
    have hend := @Plays.endRange_eq peer party h { progress with skip := false } bound
      (progress.pendingSkip ++ party.splitRange (party.lower progress)
        (party.snapshot.cut bound.position) bound)
      { locals with input := ⟨query.drop 16, bound.timestamp⟩, skip := false } (query.drop 16)
      { hnext with skip := rfl } (fun _ => hbehind) hlast.le
    rw [Writer.written_append] at hend
    exact hend
  · next hequal =>
    rw [if_pos (not_not.mp hequal)]
    exact @Plays.endRange_silent peer party bound
      { locals with input := ⟨query.drop 16, bound.timestamp⟩, skip := true } (query.drop 16) h
      { progress with skip := true } { hnext with skip := rfl }
      (hbehind.trans (timestamp_le_of_position_le hle))

/-- A list of ids is read. -/
theorem Locals.Stands.readIds_eq {count : ℕ} {afterCount : List UInt8} {ids : List Id}
    (hstands : locals.Stands party progress ⟨query, bound.timestamp⟩)
    (hcount : readVarInt query = some (count, afterCount))
    (hids : readIds count afterCount = some (ids, rest)) :
    locals.input.varint = .ok (count, ⟨afterCount, bound.timestamp⟩) ∧
      ¬ afterCount.length / 32 < count ∧
      peer.takeIds count [] ⟨afterCount, bound.timestamp⟩ =
        .ok (if peer.initiator then (ids.map List.Vector.toList).foldl setId [] else [],
          ⟨rest, bound.timestamp⟩) ∧
      Locals.Stands { locals with input := ⟨rest, bound.timestamp⟩ } party progress
        ⟨rest, bound.timestamp⟩ := by
  refine ⟨?_, ?_, takeIds_eq hids [], { hstands with input := rfl }⟩
  · rw [hstands.input]
    exact Reader.varint_eq_ok.mpr ⟨hcount, rfl⟩
  · have hsize := (length_of_readIds hids).2
    rw [idSize] at hsize
    omega

/-- What drops out of the keys of `theirs`, and what is pushed. -/
theorem deleteIds_learns {ours theirs : List Id} (hours : ours.Nodup) (haveIds : List (List UInt8)) :
    ∃ left : List (List UInt8),
      deleteIds (ours.map List.Vector.toList) ((theirs.map List.Vector.toList).foldl setId []) haveIds =
        (left, haveIds ++ (ours.filter (· ∉ theirs)).map List.Vector.toList) ∧
      (left : Multiset (List UInt8)) =
        (theirs.toFinset.filter (· ∉ ours)).val.map List.Vector.toList := by
  obtain ⟨hnodup, hmem⟩ := foldl_setId [] (theirs.map List.Vector.toList) List.nodup_nil
  have hkeys : (ours.map List.Vector.toList).Nodup := hours.map List.Vector.toList_injective
  have hpushed : (ours.map List.Vector.toList).filter
      (· ∉ (theirs.map List.Vector.toList).foldl setId []) =
        (ours.filter (· ∉ theirs)).map List.Vector.toList := by
    rw [List.filter_map]
    refine congrArg (List.map List.Vector.toList) (List.filter_congr fun id _ => ?_)
    simp only [Function.comp_apply, hmem, List.not_mem_nil, false_or,
      List.mem_map_of_injective List.Vector.toList_injective]
  refine ⟨((theirs.map List.Vector.toList).foldl setId []).filter
    (· ∉ ours.map List.Vector.toList), by rw [deleteIds_eq hkeys hnodup, hpushed], ?_⟩
  · have hnodupLeft : (((theirs.map List.Vector.toList).foldl setId []).filter
        (· ∉ ours.map List.Vector.toList)).Nodup := hnodup.filter _
    have hnodupVal : ((theirs.toFinset.filter (· ∉ ours)).val.map List.Vector.toList).Nodup :=
      (theirs.toFinset.filter (· ∉ ours)).nodup.map List.Vector.toList_injective
    refine (Multiset.Nodup.ext (Multiset.coe_nodup.mpr hnodupLeft) hnodupVal).mpr fun id => ?_
    simp only [Multiset.mem_coe, List.mem_filter, hmem, List.not_mem_nil, false_or,
      decide_eq_true_eq, Multiset.mem_map, Finset.mem_val, Finset.mem_filter, List.mem_toFinset,
      List.mem_map]
    constructor
    · rintro ⟨⟨other, hother, rfl⟩, hnew⟩
      exact ⟨other, ⟨hother, fun hours => hnew ⟨other, hours, rfl⟩⟩, rfl⟩
    · rintro ⟨other, ⟨hother, hnew⟩, rfl⟩
      refine ⟨⟨other, hother, rfl⟩, ?_⟩
      rintro ⟨same, hsame, heq⟩
      exact hnew (List.Vector.toList_injective heq ▸ hsame)

/-- The initiator learns from a list of ids. -/
theorem Plays.onIdList_learns (h : peer.Plays party) {count : ℕ} {afterCount : List UInt8}
    {theirs : List Id} (hstands : locals.Stands party progress ⟨query, bound.timestamp⟩)
    (hbehind : Behind progress) (hle : progress.prevBound.position ≤ bound.position)
    (hcount : readVarInt query = some (count, afterCount))
    (hids : readIds count afterCount = some (theirs, rest)) (hinitiator : party.isInitiator = true) :
    Follows party rest
      (peer.onIdList locals { timestamp := lastTimestamp 0 progress.output } (party.lower progress)
          (party.snapshot.cut bound.position) (Bound.ofWire bound) >>=
        peer.endRange party.sha256 (party.lower progress) (Bound.ofWire bound))
      (party.step progress ⟨bound, .idList theirs⟩) := by
  obtain ⟨hvarint, henough, htake, hnext⟩ := @Locals.Stands.readIds_eq peer _ _ _ _ _ _ _ _ _ hstands hcount hids
  have hpeer : peer.initiator = true := h.initiator.trans hinitiator
  have hours := @Plays.idsBetween_eq _ _ h (party.lower progress)
    (party.snapshot.cut bound.position) (party.snapshot.cut_le _)
  have hnodup : (party.ids (party.lower progress) (party.snapshot.cut bound.position)).Nodup :=
    Negentropy.nodup_ids ⟨party.sha256, party.snapshot, 0, false, 0, 0, .inl rfl⟩ _ _
  obtain ⟨left, hdelete, hleft⟩ := @deleteIds_learns _ theirs hnodup locals.haveIds
  rw [onIdList, hvarint, Party.step]
  simp only [Except.ok_bind, if_neg henough, htake, hpeer, if_true, hours, hdelete, hinitiator]
  refine @Plays.endRange_silent peer party bound { locals with
      input := ⟨rest, bound.timestamp⟩
      haveIds := locals.haveIds ++ ((party.ids (party.lower progress)
        (party.snapshot.cut bound.position)).filter (· ∉ theirs)).map List.Vector.toList
      needIds := locals.needIds ++ left, skip := true } rest h
    (party.learnIds progress bound theirs) { hnext with
      haveIds := ?_, needIds := ?_, skip := rfl } (hbehind.trans (timestamp_le_of_position_le hle))
  · rw [Party.learnIds, List.map_append, hstands.haveIds]
  · rw [Party.learnIds, Multiset.map_add, ← hstands.needIds, ← hleft]
    rfl

/-- The responder answers a list of ids by its own, as many as fit. -/
theorem Plays.onIdList_answers (h : peer.Plays party) {count : ℕ} {afterCount : List UInt8}
    {theirs : List Id} (hstands : locals.Stands party progress ⟨query, bound.timestamp⟩)
    (hbehind : Behind progress) (hle : progress.prevBound.position ≤ bound.position)
    (hcount : readVarInt query = some (count, afterCount))
    (hids : readIds count afterCount = some (theirs, rest)) (hresponder : party.isInitiator = false) :
    Follows party rest
      (peer.onIdList locals { timestamp := lastTimestamp 0 progress.output } (party.lower progress)
          (party.snapshot.cut bound.position) (Bound.ofWire bound) >>=
        peer.endRange party.sha256 (party.lower progress) (Bound.ofWire bound))
      (party.step progress ⟨bound, .idList theirs⟩) := by
  obtain ⟨hvarint, henough, htake, hnext⟩ := @Locals.Stands.readIds_eq peer _ _ _ _ _ _ _ _ _ hstands hcount hids
  have hpeer : peer.initiator = false := h.initiator.trans hresponder
  have hlower : party.lower progress ≤ party.snapshot.cut bound.position :=
    party.snapshot.cut_mono hle
  have hupper := party.snapshot.cut_le bound.position
  have hspan : party.lower progress + (party.snapshot.cut bound.position - party.lower progress) =
      party.snapshot.cut bound.position := by omega
  obtain ⟨k, hfitting, hk, hloop⟩ := h.answerLoop_eq (encodeFrame progress.output).length
    (party.snapshot.cut bound.position - party.lower progress) (hspan.le.trans hupper) []
  rw [hspan, List.length_nil, Nat.zero_add] at hfitting
  rw [hspan, List.nil_append] at hloop
  have hlength : (party.ids (party.lower progress) (party.snapshot.cut bound.position)).length =
      party.snapshot.cut bound.position - party.lower progress := by
    rw [Party.ids, List.length_map, List.extract_eq_take_drop, List.length_take, List.length_drop]
    omega
  have htaken : ((party.ids (party.lower progress) (party.snapshot.cut bound.position)).take k).length
      = k := by
    rw [List.length_take, hlength]
    exact Nat.min_eq_left hk
  have hflush := hnext.flushSkip_eq hbehind
  have houtput : locals.output.bytes.length = (encodeFrame progress.output).length := by
    rw [hstands.output]
  have hpending : (Writer.written { timestamp := lastTimestamp 0 progress.output }
      progress.pendingSkip).timestamp ≤ progress.prevBound.timestamp := by
    rw [Writer.written, ← lastTimestamp_append]
    exact hbehind.pending
  have hmany : ((party.ids (party.lower progress) (party.snapshot.cut bound.position)).take k).length
      ≤ u64Max := by
    have hall := h.length_le
    omega
  -- what is written behind the pending skip, whatever bound it ends at
  have hlisted : ∀ endBound : Reconcile.Bound, ((Writer.written
      { timestamp := lastTimestamp 0 progress.output } progress.pendingSkip).written
        [⟨endBound, .idList ((party.ids (party.lower progress)
          (party.snapshot.cut bound.position)).take k)⟩]) =
      Writer.written { timestamp := lastTimestamp 0 progress.output } (progress.pendingSkip ++
        [⟨endBound, .idList ((party.ids (party.lower progress)
          (party.snapshot.cut bound.position)).take k)⟩]) :=
    fun endBound => (Writer.written_append _ _ _).symm
  rw [onIdList, hvarint, Party.step]
  simp only [Except.ok_bind, if_neg henough, htake, hpeer, hresponder, Bool.false_eq_true, if_false,
    hflush, houtput, hloop, Party.answerIds, hfitting, hlength]
  by_cases hcut : k < party.snapshot.cut bound.position - party.lower progress
  · -- the record that does not fit is the first of the remaining range
    have hindex : party.lower progress + k < party.snapshot.items.length := by omega
    generalize hitem : party.snapshot.items.getD (party.lower progress + k) defaultItem = item
    have hposition : progress.prevBound.position ≤ item.toBound.position := by
      rw [Item.position_toBound, ← hitem, List.getD_eq_getElem _ _ hindex]
      exact List.le_of_cutAt_le party.snapshot.sorted hindex (Nat.le_add_right _ _)
    have hwrite := Writer.write_idList
      (hpending.trans (timestamp_le_of_position_le hposition)) hmany
    obtain ⟨bounded, hbounded, hwrite⟩ := Except.bind_eq_ok.mp hwrite
    obtain ⟨moded, hmoded, hwrite⟩ := Except.bind_eq_ok.mp hwrite
    obtain ⟨counted, hcounted, hwrite⟩ := Except.bind_eq_ok.mp hwrite
    have htail := @Plays.writeTail _ _ h ⟨encodeFrame (progress.output ++ (progress.pendingSkip ++
      [⟨item.toBound, .idList ((party.ids (party.lower progress)
        (party.snapshot.cut bound.position)).take k)⟩])), lastTimestamp 0 (progress.output ++
      (progress.pendingSkip ++ [⟨item.toBound, .idList ((party.ids (party.lower progress)
        (party.snapshot.cut bound.position)).take k)⟩]))⟩ (party.lower progress + k)
      (by rw [← List.append_assoc, lastTimestamp_concat]; exact item.toBound.timestamp_le) hindex.le
    obtain ⟨tailBound, htailBound, htail⟩ := Except.bind_eq_ok.mp htail
    obtain ⟨tailMode, htailMode, htail⟩ := Except.bind_eq_ok.mp htail
    obtain ⟨fingerprint, hfingerprint, htail⟩ := Except.bind_eq_ok.mp htail
    simp only [if_pos hcut, Option.getD_some, Bound.ofItem_eq, hbounded, Except.ok_bind, hmoded,
      List.length_map, hcounted, Option.isSome_some, Except.ok.inj hwrite, hlisted, hstands.output,
      take_over]
    simp only [endRange, pure, Except.pure, Except.ok_bind, true_or, if_true, htailBound, htailMode,
      hfingerprint]
    refine .stop ⟨?_, hnext.haveIds, hnext.needIds⟩
    show (tailMode.append fingerprint).bytes = _
    rw [Except.ok.inj htail, written_frame, ← List.append_assoc progress.output]
  · -- all ids fit, and the range is done
    have hwrite := Writer.write_idList (hpending.trans (timestamp_le_of_position_le hle)) hmany
    obtain ⟨bounded, hbounded, hwrite⟩ := Except.bind_eq_ok.mp hwrite
    obtain ⟨moded, hmoded, hwrite⟩ := Except.bind_eq_ok.mp hwrite
    obtain ⟨counted, hcounted, hwrite⟩ := Except.bind_eq_ok.mp hwrite
    simp only [if_neg hcut, Option.getD_none, hbounded, Except.ok_bind, hmoded, List.length_map,
      hcounted, Option.isSome_none, Except.ok.inj hwrite, hlisted, hstands.output, take_over]
    have htimestamp : ∀ o, (Writer.written { timestamp := lastTimestamp 0 progress.output } o).timestamp =
        lastTimestamp 0 (progress.output ++ o) := fun o => (lastTimestamp_append _ _ _).symm
    have hlast : lastTimestamp 0 (progress.output ++ progress.pendingSkip ++ [⟨bound, .idList
        ((party.ids (party.lower progress) (party.snapshot.cut bound.position)).take k)⟩]) ≤
          bound.timestamp := by rw [lastTimestamp_concat]
    rw [htimestamp, ← List.append_assoc progress.output]
    simp only [pure, Except.pure, Except.ok_bind]
    generalize progress.output ++ progress.pendingSkip ++ [(⟨bound, .idList
      ((party.ids (party.lower progress) (party.snapshot.cut bound.position)).take k)⟩ : Range)] =
        output at hlast ⊢
    exact @Plays.endRange_silent peer party bound
      ⟨⟨rest, bound.timestamp⟩, ⟨encodeFrame output, lastTimestamp 0 output⟩, locals.haveIds,
        locals.needIds, locals.previous, locals.previousIndex, false⟩ rest h
      { progress with output := output, skip := false }
      ⟨rfl, rfl, hnext.haveIds, hnext.needIds, hnext.previous, hnext.previousIndex, rfl⟩ hlast

/-- What follows a step has returned. -/
theorem Follows.exists_ok {result : Except String (Party.Flow Locals)}
    {flow' : Party.Flow Party.Progress} (h : Follows party query result flow') :
    ∃ flow, result = .ok flow ∧ Follows party query (.ok flow) flow' := by
  cases h with
  | next stands behind => exact ⟨_, rfl, .next stands behind⟩
  | stop shows => exact ⟨_, rfl, .stop shows⟩

/-- On the bytes of a range that does not go back, an iteration does what `Party.step` does on the
range, and leaves the bytes after it. -/
theorem Plays.iteration_follows (h : peer.Plays party) {range : Range}
    (hstands : locals.Stands party progress ⟨query, progress.prevBound.timestamp⟩)
    (hbehind : Behind progress) (hle : progress.prevBound.position ≤ range.bound.position)
    (hread : readRange progress.prevBound.timestamp query = some (range, rest)) :
    Follows party rest (peer.iteration party.sha256 locals) (party.step progress range) := by
  obtain ⟨bound, payload⟩ := range
  obtain ⟨input, output, haveIds, needIds, previous, previousIndex, skip⟩ := locals
  obtain rfl : input = ⟨query, progress.prevBound.timestamp⟩ := hstands.input
  obtain rfl : output = ⟨encodeFrame progress.output, lastTimestamp 0 progress.output⟩ :=
    hstands.output
  obtain rfl : previousIndex = party.lower progress := hstands.previousIndex
  obtain rfl : previous = Bound.ofWire progress.prevBound := hstands.previous
  obtain ⟨afterBound, hbound, hpayload⟩ := readRange_eq_some.mp hread
  obtain ⟨mode, afterMode, hmode, hcase⟩ := readPayload_eq_some.mp hpayload
  have hcurrent : Reader.bound ⟨query, progress.prevBound.timestamp⟩ =
      .ok (Bound.ofWire bound, ⟨afterBound, bound.timestamp⟩) :=
    Reader.bound_eq_ok.mpr ⟨bound, hbound, rfl, rfl⟩
  have hvarint : Reader.varint ⟨afterBound, bound.timestamp⟩ =
      .ok (mode, ⟨afterMode, bound.timestamp⟩) := Reader.varint_eq_ok.mpr ⟨hmode, rfl⟩
  have hordered : ¬ compare (Bound.ofWire bound) (Bound.ofWire progress.prevBound) < 0 := by
    rw [compare_ofWire]
    exact not_lt.mpr hle
  have hlower : party.lower progress ≤ party.snapshot.cut bound.position :=
    party.snapshot.cut_mono hle
  have hupper : peer.storage.lowerBound (party.lower progress) (Bound.ofWire bound) =
      party.snapshot.cut bound.position := h.shows.lowerBound_eq hlower
  have hnext := fun input : Reader => (⟨rfl, rfl, hstands.haveIds, hstands.needIds, rfl, rfl,
    hstands.skip⟩ : Locals.Stands ⟨input, ⟨encodeFrame progress.output,
      lastTimestamp 0 progress.output⟩, haveIds, needIds, Bound.ofWire progress.prevBound,
      party.lower progress, skip⟩ party progress input)
  rw [iteration, hcurrent]
  simp only [Except.ok_bind, if_neg hordered, hvarint, hupper]
  rcases hcase with ⟨rfl, rfl, rfl⟩ | ⟨fingerprint, rfl, rfl, hvector⟩ |
    ⟨ids, count, afterCount, rfl, rfl, hcount, hids⟩
  · have hlast := hbehind.trans (timestamp_le_of_position_le hle)
    exact @Plays.endRange_silent peer party bound _ rest h { progress with skip := true }
      { hnext ⟨rest, bound.timestamp⟩ with skip := rfl } hlast
  · exact h.onFingerprint_follows (hnext _) hbehind hle hvector
  · cases hinitiator : party.isInitiator with
    | true => exact h.onIdList_learns (hnext _) hbehind hle hcount hids hinitiator
    | false => exact h.onIdList_answers (hnext _) hbehind hle hcount hids hinitiator

/-! ## The whole frame -/

/-- On the bytes of ranges in order the loop does what `Party.steps` does on them. -/
theorem Plays.processLoop_eq (h : peer.Plays party) {ranges : List Range} {fuel : ℕ}
    (hstands : locals.Stands party progress ⟨query, progress.prevBound.timestamp⟩)
    (hbehind : Behind progress) (hparses : Parses progress.prevBound.timestamp query ranges)
    (hordered : Ordered progress.prevBound.position ranges) (hfuel : query.length ≤ fuel) :
    ∃ locals', peer.processLoop party.sha256 fuel locals = .ok locals' ∧
      locals'.Shows (party.steps progress ranges) := by
  induction ranges generalizing progress locals query fuel with
  | nil =>
    cases hparses
    refine ⟨locals, ?_, by rw [hstands.output]; rfl, hstands.haveIds, hstands.needIds⟩
    cases fuel with
    | zero => rfl
    | succ fuel => rw [processLoop, hstands.input, if_pos rfl]
  | cons range ranges ih =>
    cases hparses with
    | cons hread htail =>
      rename_i rest
      obtain ⟨hle, hrest⟩ := ordered_cons.mp hordered
      have hshorter := length_readRange_lt hread
      obtain ⟨fuel, rfl⟩ : ∃ n, fuel = n + 1 := ⟨fuel - 1, by omega⟩
      have hne : locals.input.bytes ≠ [] := by
        rw [hstands.input]
        rintro rfl
        exact absurd hshorter (Nat.not_lt_zero _)
      obtain ⟨flow, hiteration, hfollows⟩ :=
        (h.iteration_follows hstands hbehind hle hread).exists_ok
      rw [processLoop, if_neg hne, hiteration, Except.ok_bind, Party.steps]
      generalize hstep : party.step progress range = flow' at hfollows
      cases hfollows with
      | next stands behind =>
        have hprev := Negentropy.prevBound_of_step hstep
        rw [← hprev] at htail hrest
        exact ih stands behind htail hrest (by omega)
      | stop shows => exact ⟨_, rfl, shows⟩

/-- What the session makes of a frame is what the party makes of its ranges. -/
theorem Plays.processFrame_eq (h : peer.Plays party) {frame : List UInt8} {ranges : List Range}
    (hlength : frame.length ≤ peer.frameBytes) (hspells : Spells frame ranges)
    (hordered : Ordered Reconcile.Bound.zero.position ranges) :
    ∃ step, peer.processFrame party.sha256 frame = .ok step ∧
      step.next = (if (party.reply ranges).output = [] ∧ party.isInitiator = true then none
        else some (encodeFrame (party.reply ranges).output)) ∧
      step.haveIds = (party.reply ranges).haveIds.map List.Vector.toList ∧
      (step.needIds : Multiset (List UInt8)) =
        (party.reply ranges).needIds.map List.Vector.toList := by
  have hvalid : validateFrame frame = .ok () := validateFrame_eq_ok.mpr ⟨ranges, hspells, hordered⟩
  obtain ⟨body, rfl, hparses⟩ := hspells
  have htake : Reader.take { bytes := protocolVersion :: body } 1 =
      .ok ([protocolVersion], ⟨body, 0⟩) :=
    Reader.take_eq_ok.mpr ⟨Nat.succ_le_succ (Nat.zero_le _), rfl⟩
  have hinit : Locals.Stands (Locals.init ⟨body, 0⟩) party Party.Progress.init ⟨body, 0⟩ :=
    ⟨rfl, rfl, rfl, rfl, rfl, (party.snapshot.cut_zero).symm, rfl⟩
  obtain ⟨locals, hloop, hshows⟩ := h.processLoop_eq hinit (Nat.zero_le _) hparses hordered le_rfl
  have hshows : locals.Shows (party.reply ranges) := hshows
  have hempty : locals.output.bytes.length = 1 ↔ (party.reply ranges).output = [] := by
    rw [hshows.output, encodeFrame, List.length_cons, Nat.add_eq_right, List.length_eq_zero_iff,
      encodeRanges_eq_nil]
  refine ⟨⟨if locals.output.bytes.length = 1 ∧ peer.initiator then none
    else some locals.output.bytes, locals.haveIds, locals.needIds⟩, ?_, ?_, hshows.haveIds,
    hshows.needIds⟩
  · rw [processFrame, if_neg (not_lt.mpr hlength), hvalid, Except.ok_bind, htake]
    simp only [Except.ok_bind]
    rw [if_neg (by decide), hloop]
    rfl
  · simp only [hempty, h.initiator]
    rw [hshows.output]

/-- A frame that does not consist of ranges in order is refused. -/
theorem processFrame_error {sha256 : List UInt8 → List.Vector UInt8 32} {frame : List UInt8}
    (h : peer.frameBytes < frame.length ∨ validateFrame frame ≠ .ok ()) :
    ∃ error, peer.processFrame sha256 frame = .error error := by
  rw [processFrame]
  split
  · exact ⟨_, rfl⟩
  · next hfits =>
    cases hvalid : validateFrame frame with
    | error error => exact ⟨error, rfl⟩
    | ok _ => exact absurd hvalid (h.resolve_left hfits)

/-- The first frame without `fingerprintFirst`. -/
theorem Plays.firstFrame_eq (h : peer.Plays party) :
    peer.firstFrame party.sha256 false = .ok (encodeFrame party.initiate) := by
  have hsplit := @Plays.split_eq peer party h Reconcile.Bound.zero.position
    Reconcile.Bound.infinity { bytes := [protocolVersion] } (by decide) (Nat.zero_le _)
  rw [Snapshot.cut_zero, Snapshot.cut_of_max _ rfl, ← h.shows.length] at hsplit
  rw [firstFrame]
  simp only [Bool.false_eq_true, false_and, if_false]
  have hinfinity : Bound.infinity = Bound.ofWire Reconcile.Bound.infinity := rfl
  have hversion : ([0x61] : List UInt8) = [protocolVersion] := rfl
  rw [hinfinity, hversion, hsplit, Except.ok_bind, Party.initiate, h.shows.length]
  rfl

/-- The first frame with `fingerprintFirst`, which an empty storage ignores. -/
theorem Plays.firstFrame_cases (h : peer.Plays party) (fingerprintFirst : Bool) :
    peer.firstFrame party.sha256 fingerprintFirst = .ok (encodeFrame party.initiate) ∨
      peer.firstFrame party.sha256 fingerprintFirst = .ok (encodeFrame [party.tail 0]) := by
  by_cases hasked : fingerprintFirst = true ∧ 0 < peer.storage.items.length
  · right
    have hwrite := @Plays.writeTail _ _ h { bytes := [protocolVersion] } 0 (Nat.zero_le _)
      (Nat.zero_le _)
    obtain ⟨hfirst, hcount⟩ := hasked
    obtain ⟨bound, hbound, hwrite⟩ := Except.bind_eq_ok.mp hwrite
    obtain ⟨mode, hmode, hwrite⟩ := Except.bind_eq_ok.mp hwrite
    obtain ⟨fingerprint, hfingerprint, hwrite⟩ := Except.bind_eq_ok.mp hwrite
    have hversion : ([0x61] : List UInt8) = [protocolVersion] := rfl
    rw [firstFrame, if_pos ⟨hfirst, hcount⟩, hversion, hbound, Except.ok_bind, hmode, Except.ok_bind,
      hfingerprint, Except.ok_bind]
    show Except.ok (mode.append fingerprint).bytes = _
    rw [Except.ok.inj hwrite]
    rfl
  · left
    rw [← h.firstFrame_eq, firstFrame, firstFrame]
    simp only [if_neg hasked, Bool.false_eq_true, false_and, if_false]

end Reconciliation

end NostrPubsub.Reconcile.Browser
