import NostrPubsub.Reconcile.BrowserEngine

/-!
# What the browser writes

The bytes that the browser's session appends are the encoding of the ranges that `Party` names, for a
range that is split (`Plays.split_eq`) and at the end of an iteration (`Plays.endRange_eq`). Its writer
refuses a timestamp before the last one, so that every statement carries the order of the bounds.
-/

namespace NostrPubsub.Reconcile.Browser

/-- A writer after ranges. -/
def Writer.written (out : Writer) (ranges : List Range) : Writer :=
  ⟨out.bytes ++ encodeRanges out.timestamp ranges, lastTimestamp out.timestamp ranges⟩

@[simp]
theorem Writer.written_nil (out : Writer) : out.written [] = out := by
  rw [written, encodeRanges, List.append_nil]
  rfl

theorem Writer.written_append (out : Writer) (a b : List Range) :
    out.written (a ++ b) = (out.written a).written b := by
  simp only [written, encodeRanges_append, lastTimestamp_append, List.append_assoc]

/-- A skip is a bound and the mode 0. -/
theorem Writer.write_skip {out : Writer} {bound : Reconcile.Bound}
    (h : out.timestamp ≤ bound.timestamp) :
    (out.bound (Bound.ofWire bound) >>= fun out => out.varint 0) =
      .ok (out.written [⟨bound, .skip⟩]) := by
  rw [out.bound_eq h, Except.ok_bind, ← Nat.cast_zero, Writer.varint_eq _ (Nat.zero_le _)]
  simp [written, encodeRange, encodePayload, lastTimestamp]

/-- A fingerprint is a bound, the mode 1 and 16 bytes. -/
theorem Writer.write_fingerprint {out : Writer} {bound : Reconcile.Bound}
    (h : out.timestamp ≤ bound.timestamp) (fingerprint : Fingerprint) :
    (out.bound (Bound.ofWire bound) >>= fun out => out.varint 1 >>= fun out =>
        Except.ok (out.append fingerprint.toList)) =
      .ok (out.written [⟨bound, .fingerprint fingerprint⟩]) := by
  rw [out.bound_eq h, Except.ok_bind, ← Nat.cast_one, Writer.varint_eq _ (by decide), Except.ok_bind]
  simp [written, encodeRange, encodePayload, lastTimestamp, append]

/-- A list of ids is a bound, the mode 2, their number and the ids. -/
theorem Writer.write_idList {out : Writer} {bound : Reconcile.Bound}
    (h : out.timestamp ≤ bound.timestamp) {ids : List Id} (hcount : ids.length ≤ u64Max) :
    (out.bound (Bound.ofWire bound) >>= fun out => out.varint 2 >>= fun out =>
        out.varint ids.length >>= fun out =>
          Except.ok (out.append (ids.map List.Vector.toList).flatten)) =
      .ok (out.written [⟨bound, .idList ids⟩]) := by
  have hmode : (2 : ℤ) = ((2 : ℕ) : ℤ) := rfl
  rw [out.bound_eq h, Except.ok_bind, hmode, Writer.varint_eq _ (by decide), Except.ok_bind,
    Writer.varint_eq _ hcount, Except.ok_bind]
  simp [written, encodeRange, encodePayload, lastTimestamp, append, encodeIds, List.flatMap_def]

theorem sharedBytes_eq {a b : List UInt8} (hlength : a.length = b.length) (hne : a ≠ b) :
    sharedBytes a b = .ok (sharedPrefixBytes b a) := by
  induction a generalizing b with
  | nil => exact absurd (List.eq_nil_of_length_eq_zero hlength.symm).symm hne
  | cons x a ih =>
    cases b with
    | nil => exact absurd hlength (Nat.succ_ne_zero _)
    | cons y b =>
      rw [sharedBytes, sharedPrefixBytes]
      by_cases hxy : x = y
      · subst hxy
        have htail : a ≠ b := fun heq => hne (by rw [heq])
        rw [if_pos rfl, if_pos rfl, ih (Nat.succ_injective hlength) htail]
        rfl
      · rw [if_neg hxy, if_neg (Ne.symm hxy)]

namespace Reconciliation

/-- The session is one side of a conversation. -/
structure Plays (peer : Reconciliation) (party : Party) : Prop where
  shows : peer.storage.Shows party.snapshot
  length_le : party.snapshot.items.length ≤ u64Max
  frameBytes : peer.frameBytes = party.frameSizeLimit
  limit : 4096 ≤ party.frameSizeLimit
  initiator : peer.initiator = party.isInitiator

variable {peer : Reconciliation} {party : Party}

theorem Plays.exceeded_iff (h : peer.Plays party) (n : ℕ) :
    peer.frameBytes - 200 < n ↔ party.ExceededFrameSizeLimit n := by
  have hlimit := h.limit
  rw [h.frameBytes, Party.ExceededFrameSizeLimit]
  exact ⟨fun hlt => ⟨by omega, hlt⟩, fun hexceeded => hexceeded.2⟩

theorem Plays.fingerprint_eq (h : peer.Plays party) {begin_ end_ : ℕ} (hle : begin_ ≤ end_)
    (hend : end_ ≤ party.snapshot.items.length) :
    peer.storage.fingerprint party.sha256 begin_ end_ =
      .ok (party.fingerprint begin_ end_).toList :=
  h.shows.fingerprint_eq party.sha256 hle hend h.length_le

/-! ## Splitting a range -/

theorem mapM_ok {α β : Type} {f : α → Except String β} {g : α → β} {l : List α}
    (h : ∀ a ∈ l, f a = .ok (g a)) : l.mapM f = .ok (l.map g) := by
  induction l with
  | nil => rfl
  | cons a l ih =>
    rw [List.mapM_cons, h a List.mem_cons_self, Except.ok_bind,
      ih fun b hb => h b (List.mem_cons_of_mem _ hb)]
    rfl

theorem Plays.idsBetween_eq (h : peer.Plays party) {lower upper : ℕ}
    (hupper : upper ≤ party.snapshot.items.length) :
    peer.idsBetween lower upper = .ok ((party.ids lower upper).map List.Vector.toList) := by
  have hitem : ∀ i ∈ List.range' lower (upper - lower),
      (peer.storage.item i >>= fun item => pure item.id) =
        Except.ok (party.snapshot.items.getD i defaultItem).id.toList := by
    intro i hi
    rw [h.shows.item_eq (by have := List.mem_range'_1.mp hi; omega)]
    rfl
  have hids : party.ids lower upper = (List.range' lower (upper - lower)).map fun i =>
      (party.snapshot.items.getD i defaultItem).id := by
    apply List.ext_getElem
    · rw [Party.ids, List.length_map, List.length_map, List.length_range', List.extract_eq_take_drop,
        List.length_take, List.length_drop]
      omega
    · intro i hi hi'
      rw [List.length_map, List.length_range'] at hi'
      simp only [Party.ids, List.extract_eq_take_drop, List.getElem_map, List.getElem_take,
        List.getElem_drop, List.getElem_range', Nat.one_mul]
      rw [List.getD_eq_getElem _ _ (by omega)]
  rw [idsBetween, mapM_ok hitem, hids, List.map_map]
  rfl

/-- The bound after a bucket that is not the last. -/
theorem Plays.nextBound_eq (h : peer.Plays party) {upper cursor : ℕ} (bound : Reconcile.Bound)
    (hcursor : 0 < cursor) (hle : cursor ≤ upper) (hupper : upper ≤ party.snapshot.items.length) :
    peer.nextBound upper (Bound.ofWire bound) cursor =
      .ok (Bound.ofWire (party.bucketBound upper bound cursor)) := by
  rw [nextBound, Party.bucketBound]
  split
  · rfl
  next hne =>
  have hlt : cursor < party.snapshot.items.length := by omega
  have hneighbours : (party.snapshot.items.getD (cursor - 1) defaultItem).id ≠
      (party.snapshot.items.getD cursor defaultItem).id :=
    Negentropy.id_ne_of_neighbours ⟨party.sha256, party.snapshot, 0, false, 0, 0, .inl rfl⟩ hcursor hlt
  rw [if_neg hcursor.ne', h.shows.item_eq (by omega), h.shows.item_eq hlt, minimalBound]
  simp only [Except.ok_bind]
  generalize party.snapshot.items.getD (cursor - 1) defaultItem = before at hneighbours
  generalize party.snapshot.items.getD cursor defaultItem = after at hneighbours
  have hshared : sharedBytes before.id.toList after.id.toList =
      .ok (sharedPrefixBytes after.id.toList before.id.toList) := by
    refine sharedBytes_eq ?_ fun heq => hneighbours (List.Vector.toList_injective heq)
    rw [before.id.toList_length, after.id.toList_length]
  by_cases htime : before.timestamp = after.timestamp
  · have hsame : (Bound.ofItem before).timestamp = (Bound.ofItem after).timestamp := htime
    rw [if_pos hsame, if_neg (not_not.mpr htime.symm)]
    simp only [Bound.ofItem, hshared]
    rfl
  · have hother : ¬ (Bound.ofItem before).timestamp = (Bound.ofItem after).timestamp := htime
    rw [if_neg hother, if_pos (Ne.symm htime)]
    rfl

theorem Plays.splitBuckets_eq (h : peer.Plays party) {count upper : ℕ} (bound : Reconcile.Bound)
    (is : List ℕ) {cursor : ℕ} {out : Writer} {start : Place} (hcount : buckets ≤ count)
    (hsum : cursor + (is.map (bucketSize count)).sum ≤ upper)
    (hupper : upper ≤ party.snapshot.items.length) (hout : out.timestamp ≤ (ofLex start).1)
    (hordered : TimeOrdered start (party.splitBuckets count upper bound is cursor)) :
    peer.splitBuckets party.sha256 count upper (Bound.ofWire bound) is cursor out =
      .ok (out.written (party.splitBuckets count upper bound is cursor)) := by
  induction is generalizing cursor out start with
  | nil =>
    rw [splitBuckets, Party.splitBuckets, Writer.written_nil]
  | cons i is ih =>
    rw [List.map_cons, List.sum_cons] at hsum
    have hsize : (count / 16 + if i < count % 16 then 1 else 0) = bucketSize count i := rfl
    have hpos : 0 < bucketSize count i :=
      Nat.add_pos_left (Nat.div_pos hcount (by decide)) _
    obtain ⟨hle, hrest⟩ := hordered
    have hwrite := Writer.write_fingerprint (hout.trans hle)
      (party.fingerprint cursor (cursor + bucketSize count i))
    have hnext := h.nextBound_eq bound (show 0 < cursor + bucketSize count i by omega)
      (by omega) hupper
    have hpeer := h.fingerprint_eq (Nat.le_add_right cursor (bucketSize count i)) (by omega)
    rw [splitBuckets, Party.splitBuckets]
    simp only [hsize, hpeer, hnext, Except.ok_bind]
    obtain ⟨bounded, hbounded, hwrite⟩ := Except.bind_eq_ok.mp hwrite
    obtain ⟨moded, hmoded, hwrite⟩ := Except.bind_eq_ok.mp hwrite
    rw [hbounded, Except.ok_bind, hmoded, Except.ok_bind, Except.ok.inj hwrite,
      ih (by omega) le_rfl hrest, ← Writer.written_append, List.singleton_append]

/-- A range is split into the ranges that the native engine splits it into. -/
theorem Plays.split_eq (h : peer.Plays party) {start : Place} {bound : Reconcile.Bound} {out : Writer}
    (hle : start ≤ bound.position) (hout : out.timestamp ≤ (ofLex start).1) :
    peer.split party.sha256 (party.snapshot.cut start) (party.snapshot.cut bound.position)
        (Bound.ofWire bound) out =
      .ok (out.written
        (party.splitRange (party.snapshot.cut start) (party.snapshot.cut bound.position) bound)) := by
  have hlower : party.snapshot.cut start ≤ party.snapshot.cut bound.position :=
    party.snapshot.cut_mono hle
  have hupper := party.snapshot.cut_le bound.position
  have htime : TimeOrdered start
      (party.splitRange (party.snapshot.cut start) (party.snapshot.cut bound.position) bound) :=
    Ordered.timeOrdered (List.Along.mono (fun _ _ hrange => hrange.1) (party.tells_splitRange hle))
  have hcount : ((party.snapshot.cut bound.position : ℤ) - party.snapshot.cut start) =
      (party.snapshot.cut bound.position - party.snapshot.cut start : ℕ) :=
    (Nat.cast_sub hlower).symm
  have hlength := h.length_le
  rw [Party.splitRange] at htime
  rw [split, Party.splitRange]
  simp only [hcount, Int.toNat_natCast]
  have hfew : ((party.snapshot.cut bound.position - party.snapshot.cut start : ℕ) : ℤ) < 32 ↔
      party.snapshot.cut bound.position - party.snapshot.cut start < buckets * 2 := by
    rw [buckets]
    omega
  simp only [hfew]
  split
  · next hlt =>
    have hids : (party.ids (party.snapshot.cut start) (party.snapshot.cut bound.position)).length =
        party.snapshot.cut bound.position - party.snapshot.cut start := by
      rw [Party.ids, List.length_map, List.extract_eq_take_drop, List.length_take, List.length_drop]
      omega
    have hwrite := @Writer.write_idList out bound (hout.trans (timestamp_le_of_position_le hle))
      (party.ids (party.snapshot.cut start) (party.snapshot.cut bound.position)) (by omega)
    rw [hids] at hwrite
    rw [h.idsBetween_eq hupper]
    exact hwrite
  · next hmany =>
    rw [if_neg hmany] at htime
    have hsum := sum_bucketSize_buckets
      (party.snapshot.cut bound.position - party.snapshot.cut start)
    exact h.splitBuckets_eq bound (List.range buckets)
      (by rw [buckets] at hmany ⊢; omega) (by omega) hupper hout htime

/-! ## The end of an iteration -/

/-- The loop wrote and learned what `progress` says. -/
structure Locals.Shows (locals : Locals) (progress : Party.Progress) : Prop where
  output : locals.output.bytes = encodeFrame progress.output
  haveIds : locals.haveIds = progress.haveIds.map List.Vector.toList
  needIds : (locals.needIds : Multiset (List UInt8)) = progress.needIds.map List.Vector.toList

/-- The variables of the loop after the ranges of `progress`, when `input` is left to read. -/
structure Locals.Stands (locals : Locals) (party : Party) (progress : Party.Progress)
    (input : Reader) : Prop where
  input : locals.input = input
  output : locals.output = ⟨encodeFrame progress.output, lastTimestamp 0 progress.output⟩
  haveIds : locals.haveIds = progress.haveIds.map List.Vector.toList
  needIds : (locals.needIds : Multiset (List UInt8)) = progress.needIds.map List.Vector.toList
  previous : locals.previous = Bound.ofWire progress.prevBound
  previousIndex : locals.previousIndex = party.lower progress
  skip : locals.skip = progress.skip

/-- What was written does not end behind what was read. -/
def Behind (progress : Party.Progress) : Prop :=
  lastTimestamp 0 progress.output ≤ progress.prevBound.timestamp

/-- The loop goes on before the bytes of `query`, or ends, as `Party.step` does. -/
inductive Follows (party : Party) (query : List UInt8) :
    Except String (Party.Flow Locals) → Party.Flow Party.Progress → Prop
  | next {locals : Locals} {progress : Party.Progress}
      (stands : locals.Stands party progress ⟨query, progress.prevBound.timestamp⟩)
      (behind : Behind progress) : Follows party query (.ok (.next locals)) (.next progress)
  | stop {locals : Locals} {progress : Party.Progress} (shows : locals.Shows progress) :
      Follows party query (.ok (.stop locals)) (.stop progress)

theorem written_frame (output o : List Range) :
    Writer.written ⟨encodeFrame output, lastTimestamp 0 output⟩ o =
      ⟨encodeFrame (output ++ o), lastTimestamp 0 (output ++ o)⟩ := by
  rw [Writer.written, encodeFrame_append, lastTimestamp_append]

/-- Ranges written apart are taken over. -/
theorem take_over (output o : List Range) :
    (⟨encodeFrame output ++ (Writer.written { timestamp := lastTimestamp 0 output } o).bytes,
        (Writer.written { timestamp := lastTimestamp 0 output } o).timestamp⟩ : Writer) =
      ⟨encodeFrame (output ++ o), lastTimestamp 0 (output ++ o)⟩ := by
  rw [encodeFrame_append, lastTimestamp_append]
  rfl

/-- The end of an answer that is cut: the fingerprint of everything after an index. -/
theorem Plays.writeTail (h : peer.Plays party) {output : Writer} {remaining : ℕ}
    (hlast : output.timestamp ≤ u64Max) (hremaining : remaining ≤ party.snapshot.items.length) :
    (do
      let output ← output.bound Bound.infinity
      let output ← output.varint 1
      let fingerprint ← peer.storage.fingerprint party.sha256 remaining peer.storage.items.length
      Except.ok (output.append fingerprint)) = .ok (output.written [party.tail remaining]) := by
  have hfingerprint := h.fingerprint_eq hremaining le_rfl
  rw [← h.shows.length] at hfingerprint
  simp only [hfingerprint, Except.ok_bind]
  rw [h.shows.length]
  exact @Writer.write_fingerprint output Reconcile.Bound.infinity hlast _

/-- The end of an iteration that did not stop inside a list of ids. -/
theorem Plays.endRange_eq (h : peer.Plays party) {progress : Party.Progress}
    {currBound : Reconcile.Bound} {o : List Range} {locals : Locals} {rest : List UInt8}
    (hstands : locals.Stands party progress ⟨rest, currBound.timestamp⟩)
    (hbehind : o ≠ [] → Behind progress)
    (hlast : lastTimestamp 0 (progress.output ++ o) ≤ currBound.timestamp) :
    Follows party rest
      (peer.endRange party.sha256 (party.lower progress) (Bound.ofWire currBound)
        ⟨locals, Writer.written { timestamp := lastTimestamp 0 progress.output } o,
          party.snapshot.cut currBound.position, false⟩)
      (party.advance progress currBound o) := by
  have hbytes : (Writer.written { timestamp := lastTimestamp 0 progress.output } o).bytes =
      encodeRanges (lastTimestamp 0 progress.output) o := List.nil_append _
  have hlength : (encodeFrame progress.output).length
      + (encodeRanges (lastTimestamp 0 progress.output) o).length
      = (encodeFrame (progress.output ++ o)).length := by
    rw [encodeFrame_append, List.length_append]
  simp only [endRange, Party.advance, hstands.output, hstands.previous, hbytes, hlength,
    h.exceeded_iff, Bool.false_eq_true, false_or, if_false, encodeRanges_eq_nil]
  -- Over the limit, the frame is cut at the last bound that was written, and the rest is asked for
  -- as one range.
  by_cases hexceeded : party.ExceededFrameSizeLimit (encodeFrame (progress.output ++ o)).length
  · rw [if_pos hexceeded, if_pos hexceeded]
    obtain ⟨boundary, hboundary, hwire, hindex, hbefore⟩ : ∃ boundary : Reconcile.Bound,
        (if o = [] then currBound else progress.prevBound) = boundary ∧
          (if o = [] then Bound.ofWire currBound else Bound.ofWire progress.prevBound) =
            Bound.ofWire boundary ∧
          (if o = [] then party.snapshot.cut currBound.position else party.lower progress) =
            party.snapshot.cut boundary.position ∧
          lastTimestamp 0 progress.output ≤ boundary.timestamp := by
      split
      · next hnil =>
        rw [hnil, List.append_nil] at hlast
        exact ⟨_, rfl, rfl, rfl, hlast⟩
      · next hsome => exact ⟨_, rfl, rfl, rfl, hbehind hsome⟩
    have hskip := @Writer.write_skip ⟨encodeFrame progress.output, lastTimestamp 0 progress.output⟩
      boundary hbefore
    have htail := @Plays.writeTail _ _ h (Writer.written ⟨encodeFrame progress.output,
      lastTimestamp 0 progress.output⟩ [⟨boundary, .skip⟩]) _ boundary.timestamp_le
      (party.snapshot.cut_le boundary.position)
    obtain ⟨bounded, hbounded, hskip⟩ := Except.bind_eq_ok.mp hskip
    obtain ⟨tailBound, htailBound, htail⟩ := Except.bind_eq_ok.mp htail
    obtain ⟨tailMode, htailMode, htail⟩ := Except.bind_eq_ok.mp htail
    obtain ⟨fingerprint, hfingerprint, htail⟩ := Except.bind_eq_ok.mp htail
    simp only [hwire, hindex, hboundary, hbounded, hskip, htailBound, htailMode, hfingerprint,
      Except.ok_bind]
    refine .stop ⟨?_, hstands.haveIds, hstands.needIds⟩
    show (tailMode.append fingerprint).bytes = _
    rw [Except.ok.inj htail, written_frame, written_frame, List.append_assoc]
    rfl
  · rw [if_neg hexceeded, if_neg hexceeded]
    refine .next ⟨hstands.input, ?_, hstands.haveIds, hstands.needIds, rfl, rfl, hstands.skip⟩ hlast
    rw [← take_over, hbytes]

end Reconciliation

end NostrPubsub.Reconcile.Browser
