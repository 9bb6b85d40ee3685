import Mathlib.Data.List.GetD
import NostrPubsub.Reconcile.FrameLimit

/-!
# What holds along an answer

The ranges of an answer lie one after the other from the first place on. An `Account` says what may
be written from a place on, which places may be passed over, and from where on everything may be left
to one fingerprint. If every range of a frame is accounted for, so is every range of the answer, where
ranges were merged into one skip or the frame was cut included (`Account.reply`).
-/

namespace NostrPubsub.Reconcile

/-- A place among the records. -/
abbrev Place := ℕ ×ₗ List ℕ

/-- Where the ranges that begin at `start` end. -/
abbrev endOf (start : Place) (ranges : List Range) : Place := ranges.lastStop Range.stop start

theorem Snapshot.cut_mono (snapshot : Snapshot) {a b : Place} (h : a ≤ b) :
    snapshot.cut a ≤ snapshot.cut b :=
  List.cutAt_mono _ h

/-- The cut at a record is its index. -/
theorem Snapshot.cut_getD (snapshot : Snapshot) {i : ℕ} (h : i < snapshot.items.length) :
    snapshot.cut (snapshot.items.getD i defaultItem).position = i := by
  rw [List.getD_eq_getElem _ _ h]
  refine List.cutAt_eq_of h.le (fun j hj hlt => ?_) (fun j hj hle => ?_)
  · exact List.pairwise_iff_getElem.mp snapshot.sorted j i hj h hlt
  · rcases hle.eq_or_lt with rfl | hlt
    · exact le_rfl
    · exact (List.pairwise_iff_getElem.mp snapshot.sorted i j h hj hlt).le

/-- What may be said along the line of records. -/
structure Account where
  /-- The range may be written from the place on. -/
  Writes : Place → Range → Prop
  /-- Nothing need be written between the places. -/
  Passes : Place → Place → Prop
  /-- All records from the place on may be left to one fingerprint. -/
  Defers : Place → Prop
  passes_refl : ∀ place, Passes place place
  passes_trans : ∀ {a b c}, Passes a b → Passes b c → Passes a c
  writes_skip : ∀ {start : Place} {bound : Bound}, Passes start bound.position →
    Writes start ⟨bound, .skip⟩

namespace Party

variable (party : Party)

/-- The ids of a party between two places. -/
def idsBetween (start stop : Place) : List Id :=
  party.ids (party.snapshot.cut start) (party.snapshot.cut stop)

/-- What a list of ids teaches has been learnt. -/
def Learnt (final : Progress) (start : Place) (range : Range) : Prop :=
  ∀ theirs, range.payload = .idList theirs →
    (∀ id ∈ party.idsBetween start range.stop, id ∉ theirs → id ∈ final.haveIds) ∧
      ∀ id ∈ theirs, id ∉ party.idsBetween start range.stop → id ∈ final.needIds

variable {party}

theorem lastStop_splitBuckets (numElems upper : ℕ) (upperBound : Bound) (is : List ℕ) (curr : ℕ)
    (hne : is ≠ []) (start : Place) :
    endOf start (party.splitBuckets numElems upper upperBound is curr) =
      (party.bucketBound upper upperBound (curr + (is.map (bucketSize numElems)).sum)).position := by
  induction is generalizing curr start with
  | nil => exact absurd rfl hne
  | cons i is ih =>
    rw [splitBuckets, endOf, List.lastStop_cons, List.map_cons, List.sum_cons, ← Nat.add_assoc]
    cases is with
    | nil => rfl
    | cons j is => exact ih (curr + bucketSize numElems i) (List.cons_ne_nil _ _) _

variable (party) in
/-- A range is split up to its end. -/
theorem lastStop_splitRange (start : Place) (lower upper : ℕ) (upperBound : Bound) :
    endOf start (party.splitRange lower upper upperBound) = upperBound.position := by
  rw [splitRange]
  split
  · rfl
  · next hmany =>
    have hbuckets : buckets * 2 = 32 := rfl
    have hupper : lower + (upper - lower) = upper := by omega
    rw [lastStop_splitBuckets _ _ _ _ _ (by decide), sum_bucketSize_buckets, hupper, bucketBound,
      if_pos rfl]

theorem le_fittingIds (fullOutput taken : ℕ) (ids : List Id) :
    taken ≤ party.fittingIds fullOutput taken ids := by
  induction ids generalizing taken with
  | nil => exact le_rfl
  | cons id ids ih =>
    rw [fittingIds]
    split
    · exact le_rfl
    · exact (Nat.le_succ taken).trans (ih (taken + 1))

/-- At least one id goes into an answer that has room. -/
theorem fitting_pos {progress : Progress} {range : Range}
    (hroom : ¬ party.ExceededFrameSizeLimit (encodeFrame progress.output).length)
    (hids : party.ownIds progress range ≠ []) : 0 < party.fitting progress range := by
  rw [fitting]
  cases hown : party.ownIds progress range with
  | nil => exact absurd hown hids
  | cons id ids =>
    rw [fittingIds, Nat.mul_zero, Nat.add_zero, if_neg hroom]
    exact le_fittingIds _ 1 ids

/-- What is learnt is kept. -/
def Progress.Extends (progress later : Progress) : Prop :=
  (∀ id ∈ progress.haveIds, id ∈ later.haveIds) ∧ ∀ id ∈ progress.needIds, id ∈ later.needIds

variable (party) in
theorem heed_extends (progress : Progress) (range : Range) :
    progress.Extends (party.heed progress range) := by
  rw [heed]
  split
  · exact ⟨fun id h => List.mem_append_left _ h, fun id h => Multiset.mem_add.mpr (.inl h)⟩
  · exact ⟨fun _ h => h, fun _ h => h⟩

/-- What a flow goes on or stops with. -/
def Flow.state {σ : Type} : Flow σ → σ
  | .next state => state
  | .stop state => state

theorem Turn.extends {progress : Progress} {range : Range} {flow : Flow Progress}
    (hturn : party.Turn progress range flow) : progress.Extends flow.state := by
  cases hturn with
  | pass _ _ => exact party.heed_extends progress range
  | passCut _ _ => exact party.heed_extends progress range
  | split _ _ _ => exact ⟨fun _ h => h, fun _ h => h⟩
  | splitCut _ _ _ => exact ⟨fun _ h => h, fun _ h => h⟩
  | list _ _ _ => exact ⟨fun _ h => h, fun _ h => h⟩
  | listCut _ _ _ => exact ⟨fun _ h => h, fun _ h => h⟩
  | listPart _ _ _ => exact ⟨fun _ h => h, fun _ h => h⟩

variable (party) in
theorem steps_extends (progress : Progress) (ranges : List Range) :
    progress.Extends (party.steps progress ranges) := by
  induction ranges generalizing progress with
  | nil => exact ⟨fun _ h => h, fun _ h => h⟩
  | cons range ranges ih =>
    have hturn := (party.step_turn progress range).extends
    rw [steps]
    generalize party.step progress range = flow at hturn ⊢
    cases flow with
    | next progress' =>
      exact ⟨fun id h => (ih progress').1 id (hturn.1 id h), fun id h => (ih progress').2 id (hturn.2 id h)⟩
    | stop progress' => exact hturn

/-- What the initiator hears of a range is learnt at once. -/
theorem learnt_heed {progress final : Progress} {range : Range}
    (hfinal : (party.heed progress range).Extends final) :
    party.Learnt final progress.prevBound.position range := by
  intro theirs hpayload
  obtain ⟨hhave, hneed⟩ := hfinal
  rw [heed, hpayload] at hhave hneed
  refine ⟨fun id hid hnot => hhave id (List.mem_append_right _ ?_),
    fun id hid hnot => hneed id (Multiset.mem_add.mpr (.inr ?_))⟩
  · exact List.mem_filter.mpr ⟨hid, by simpa using hnot⟩
  · exact Finset.mem_filter.mpr ⟨List.mem_toFinset.mpr hid, hnot⟩

end Party

namespace Account

variable (account : Account) (party : Party)

/-- A range of a frame is accounted for, and so is all that is written for it. -/
structure Covers (final : Party.Progress) (start : Place) (range : Range) : Prop where
  le : start ≤ range.stop
  passes : ¬ party.Answers start range → party.Learnt final start range →
    account.Passes start range.stop
  defers : party.Answers start range ∨ account.Defers start → account.Defers range.stop
  split : party.Answers start range → ∀ theirs, range.payload = .fingerprint theirs →
    (party.splitRange (party.snapshot.cut start) (party.snapshot.cut range.stop) range.bound).Along
      Range.stop account.Writes start
  list : party.Answers start range → ∀ theirs, range.payload = .idList theirs →
    account.Writes start ⟨range.bound, .idList (party.idsBetween start range.stop)⟩
  /-- The list may end before any record but the first. -/
  part : party.Answers start range → ∀ theirs, range.payload = .idList theirs →
    ∀ count, 0 < count → count < (party.idsBetween start range.stop).length →
      let item := party.snapshot.items.getD (party.snapshot.cut start + count) defaultItem
      account.Writes start ⟨item.toBound, .idList ((party.idsBetween start range.stop).take count)⟩ ∧
        account.Defers item.position

/-- What holds between two ranges. -/
structure Holds (progress : Party.Progress) : Prop where
  writes : progress.output.Along Range.stop account.Writes Bound.zero.position
  passes : account.Passes (endOf Bound.zero.position progress.output) progress.prevBound.position
  caught : progress.skip = false →
    endOf Bound.zero.position progress.output = progress.prevBound.position
  defers : progress.output ≠ [] → account.Defers progress.prevBound.position
  room : ¬ party.ExceededFrameSizeLimit (encodeFrame progress.output).length

/-- What holds of a whole answer, to ranges that ended at `stop`. -/
structure Closes (stop : Place) (output : List Range) : Prop where
  writes : output.Along Range.stop account.Writes Bound.zero.position
  reaches : account.Passes (endOf Bound.zero.position output) stop ∨
    endOf Bound.zero.position output = Bound.infinity.position

variable {account party} {progress final : Party.Progress} {range : Range}

/-- With the pending skip the answer reaches the range. -/
theorem Holds.pending (h : account.Holds party progress) :
    (progress.output ++ progress.pendingSkip).Along Range.stop account.Writes Bound.zero.position ∧
      endOf Bound.zero.position (progress.output ++ progress.pendingSkip) =
        progress.prevBound.position := by
  rw [Party.Progress.pendingSkip]
  split
  · refine ⟨List.along_append.mpr ⟨h.writes, account.writes_skip h.passes, trivial⟩, ?_⟩
    rw [endOf, List.lastStop_append]
    rfl
  · next hskip =>
    rw [List.append_nil]
    exact ⟨h.writes, h.caught (Bool.eq_false_of_not_eq_true hskip)⟩

/-- An answer is cut behind a place that may be deferred. -/
theorem closes_cutOff {output : List Range} {boundary : Bound} {stop : Place}
    (htail : ∀ bound : Bound, account.Defers bound.position →
      account.Writes bound.position (party.tail (party.snapshot.cut bound.position)))
    (hwrites : output.Along Range.stop account.Writes Bound.zero.position)
    (hpasses : account.Passes (endOf Bound.zero.position output) boundary.position)
    (hdefers : account.Defers boundary.position) :
    account.Closes stop (output ++ party.cutOff boundary) := by
  refine ⟨List.along_append.mpr ⟨hwrites, account.writes_skip hpasses, htail boundary hdefers,
    trivial⟩, .inr ?_⟩
  rw [endOf, List.lastStop_append]
  rfl

/-- After a range that was answered by its own list of ids. -/
theorem Holds.listed (h : account.Holds party progress) {bound : Bound} {ids : List Id}
    (hlist : account.Writes progress.prevBound.position ⟨bound, .idList ids⟩) :
    let output := progress.output ++ progress.pendingSkip ++ [(⟨bound, .idList ids⟩ : Range)]
    output.Along Range.stop account.Writes Bound.zero.position ∧
      endOf Bound.zero.position output = bound.position := by
  obtain ⟨hwrites, hend⟩ := h.pending
  refine ⟨List.along_append.mpr ⟨hwrites, ?_, trivial⟩, ?_⟩
  · rw [endOf] at hend
    rwa [hend]
  · rw [endOf, List.lastStop_append]
    rfl

/-- One range more. -/
theorem Holds.next (h : account.Holds party progress)
    (hcovers : account.Covers party final progress.prevBound.position range)
    {progress' : Party.Progress} (hturn : party.Turn progress range (.next progress'))
    (hfinal : progress'.Extends final) :
    account.Holds party progress' ∧ progress'.prevBound = range.bound := by
  cases hturn with
  | pass hquiet hroom =>
    refine ⟨⟨?_, ?_, ?_, ?_, ?_⟩, rfl⟩
    · rw [Party.heed_output]
      exact h.writes
    · rw [Party.heed_output]
      exact account.passes_trans h.passes (hcovers.passes hquiet (Party.learnt_heed hfinal))
    · intro hskip
      rw [Party.heed_skip] at hskip
      cases hskip
    · intro hne
      rw [Party.heed_output] at hne
      exact hcovers.defers (.inr (h.defers hne))
    · rwa [Party.heed_output]
  | split hpayload hanswers hroom =>
    obtain ⟨hwrites, hend⟩ := h.pending
    have hstop : endOf Bound.zero.position
        (progress.output ++ (progress.pendingSkip ++ party.divided progress range)) =
          range.bound.position := by
      rw [← List.append_assoc, endOf, List.lastStop_append]
      exact party.lastStop_splitRange _ _ _ _
    refine ⟨⟨?_, ?_, fun _ => hstop, fun _ => hcovers.defers (.inl hanswers), hroom⟩, rfl⟩
    · rw [← List.append_assoc]
      refine List.along_append.mpr ⟨hwrites, ?_⟩
      rw [endOf] at hend
      rw [hend]
      exact hcovers.split hanswers _ hpayload
    · rw [hstop]
      exact account.passes_refl _
  | list hpayload hanswers hroom =>
    obtain ⟨hwrites, hstop⟩ := h.listed (hcovers.list hanswers _ hpayload)
    refine ⟨⟨hwrites, ?_, fun _ => hstop, fun _ => hcovers.defers (.inl hanswers), hroom⟩, rfl⟩
    exact hstop.symm ▸ account.passes_refl _

/-- The range where the answer is cut. -/
theorem Holds.stop (h : account.Holds party progress)
    (hlimit : party.frameSizeLimit = 0 ∨ 4096 ≤ party.frameSizeLimit)
    (htail : ∀ bound : Bound, account.Defers bound.position →
      account.Writes bound.position (party.tail (party.snapshot.cut bound.position)))
    (hcovers : account.Covers party final progress.prevBound.position range)
    {progress' : Party.Progress} (hturn : party.Turn progress range (.stop progress'))
    (stop : Place) : account.Closes stop progress'.output := by
  cases hturn with
  | passCut _ hfull => exact absurd hfull h.room
  | splitCut _ _ hfull =>
    -- The first ranges written always have room, so something was written before.
    have hne : progress.output ≠ [] := fun hempty =>
      Party.room_for_first hlimit hempty _ _ _ hfull
    exact closes_cutOff htail h.writes h.passes (h.defers hne)
  | listCut hpayload hanswers _ =>
    obtain ⟨hwrites, hstop⟩ := h.listed (hcovers.list hanswers _ hpayload)
    refine closes_cutOff htail hwrites ?_ (hcovers.defers (.inl hanswers))
    exact hstop.symm ▸ account.passes_refl _
  | listPart hpayload hanswers hpart =>
    have hne : party.ownIds progress range ≠ [] := by
      intro hnil
      rw [hnil] at hpart
      exact Nat.not_lt_zero _ hpart
    obtain ⟨hlist, hdefers⟩ := hcovers.part hanswers _ hpayload _ (Party.fitting_pos h.room hne) hpart
    obtain ⟨hwrites, hstop⟩ := h.listed hlist
    have hindex : party.lower progress + party.fitting progress range <
        party.snapshot.items.length := by
      have hlength : (party.ownIds progress range).length ≤ _ := party.length_ids_le _ _
      have hupper := party.snapshot.cut_le range.stop
      omega
    refine ⟨List.along_append.mpr ⟨hwrites, ?_, trivial⟩, .inr ?_⟩
    · rw [endOf] at hstop
      have hwrite := htail (party.firstUnfit progress range).toBound
        (by rw [Item.position_toBound]; exact hdefers)
      have hcut : party.snapshot.cut (party.firstUnfit progress range).toBound.position =
          party.lower progress + party.fitting progress range := by
        rw [Item.position_toBound]
        exact party.snapshot.cut_getD hindex
      rw [hcut] at hwrite
      exact hstop ▸ hwrite
    · rw [endOf, List.lastStop_append]
      rfl

/-- The rest of a frame. -/
theorem Holds.steps (h : account.Holds party progress)
    (hlimit : party.frameSizeLimit = 0 ∨ 4096 ≤ party.frameSizeLimit)
    (htail : ∀ bound : Bound, account.Defers bound.position →
      account.Writes bound.position (party.tail (party.snapshot.cut bound.position)))
    {ranges : List Range} (hfinal : party.steps progress ranges = final)
    (hcovers : ranges.Along Range.stop (account.Covers party final) progress.prevBound.position) :
    account.Closes (endOf progress.prevBound.position ranges) final.output := by
  induction ranges generalizing progress with
  | nil =>
    rw [← hfinal]
    exact ⟨h.writes, .inl h.passes⟩
  | cons range ranges ih =>
    have hturn := party.step_turn progress range
    rw [Party.steps] at hfinal
    obtain ⟨hhead, hrest⟩ := hcovers
    cases hstep : party.step progress range with
    | next progress' =>
      rw [hstep] at hturn hfinal
      have hextends := party.steps_extends progress' ranges
      rw [show party.steps progress' ranges = final from hfinal] at hextends
      obtain ⟨hholds, hprev⟩ := h.next hhead hturn hextends
      have hclosed := ih hholds hfinal (by rw [hprev]; exact hrest)
      rwa [hprev] at hclosed
    | stop progress' =>
      rw [hstep] at hturn hfinal
      rw [← show progress' = final from hfinal]
      exact h.stop hlimit htail hhead hturn _

/-- If all ranges of a frame are accounted for, the whole answer is. -/
theorem reply (account : Account) (party : Party)
    (hlimit : party.frameSizeLimit = 0 ∨ 4096 ≤ party.frameSizeLimit)
    (htail : ∀ bound : Bound, account.Defers bound.position →
      account.Writes bound.position (party.tail (party.snapshot.cut bound.position)))
    {ranges : List Range}
    (hcovers : ranges.Along Range.stop (account.Covers party (party.reply ranges))
      Bound.zero.position) :
    account.Closes (endOf Bound.zero.position ranges) (party.reply ranges).output := by
  have hinit : account.Holds party Party.Progress.init := by
    refine ⟨trivial, account.passes_refl _, fun _ => rfl, fun hne => absurd rfl hne, ?_⟩
    exact Party.not_exceeded hlimit (by decide)
  exact hinit.steps hlimit htail rfl hcovers

end Account

end NostrPubsub.Reconcile
