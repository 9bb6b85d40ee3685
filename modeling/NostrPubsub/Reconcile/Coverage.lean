import NostrPubsub.Reconcile.Truth

/-!
# What a conversation settles

An initiator and a responder exchange frames over two fixed snapshots. A record that only one of them
has is settled once the initiator lists its id as had or needed; a record that both have, or neither,
is settled from the start. `Covered` says that no record is lost: what a frame passes over, or does not
reach, is settled. It holds of the first frame and is kept by every answer of the responder
(`Pair.covered_answer`) and of the initiator (`Pair.covered_next`), wherever these are cut. Nothing
else than a difference is ever listed (`Pair.sound_next`).
-/

namespace NostrPubsub.Reconcile

/-- Two parties that talk to each other. -/
structure Pair where
  /-- The side that sends the first frame. -/
  A : Party
  /-- The side that answers. -/
  B : Party
  initiates : A.isInitiator = true
  responds : B.isInitiator = false
  sha256_eq : B.sha256 = A.sha256
  /-- No id belongs to two records. -/
  same_record : ∀ a ∈ A.snapshot.items, ∀ b ∈ B.snapshot.items, a.id = b.id → a = b
  /-- Different records between the same places have different fingerprints. -/
  fingerprint_injective : ∀ start stop,
    fingerprintOf A.sha256 (A.snapshot.between start stop) =
        fingerprintOf A.sha256 (B.snapshot.between start stop) →
      A.snapshot.between start stop = B.snapshot.between start stop
  limitA : A.frameSizeLimit = 0 ∨ 4096 ≤ A.frameSizeLimit
  limitB : B.frameSizeLimit = 0 ∨ 4096 ≤ B.frameSizeLimit

theorem Snapshot.mem_between {snapshot : Snapshot} {start stop : Place} {item : Item} :
    item ∈ snapshot.between start stop ↔
      item ∈ snapshot.items ∧ start ≤ item.position ∧ item.position < stop := by
  simp [Snapshot.between]

/-- No written range of an answer is a skip, but those of its account. -/
theorem Party.splitRange_ne_skip (party : Party) (start : Place) (bound : Bound) :
    (party.splitRange (party.snapshot.cut start) (party.snapshot.cut bound.position) bound).Along
      Range.stop (fun _ range => range.payload ≠ .skip) start := by
  rcases party.splitRange_cases start bound with ⟨-, heq⟩ | ⟨-, hbuckets⟩
  · rw [heq]
    exact ⟨Payload.noConfusion, trivial⟩
  · refine hbuckets.mono fun start range hbucket => ?_
    rw [hbucket.payload]
    exact Payload.noConfusion

namespace Pair

variable (pair : Pair)

/-- What the initiator has listed decides the record. -/
def Settled (haveIds : List Id) (needIds : Multiset Id) (item : Item) : Prop :=
  (item ∈ pair.A.snapshot.items ↔ item ∈ pair.B.snapshot.items) ∨
    (item ∈ pair.A.snapshot.items ∧ item.id ∈ haveIds) ∨
      item ∈ pair.B.snapshot.items ∧ item.id ∈ needIds

/-- Every record in a skip, or behind the last range, has the property. -/
def Covered (settled : Item → Prop) (ranges : List Range) : Prop :=
  ranges.Along Range.stop
      (fun start range => range.payload = .skip →
        ∀ item, start ≤ item.position → item.position < range.stop → settled item)
      Bound.zero.position ∧
    ∀ item : Item, endOf Bound.zero.position ranges ≤ item.position → settled item

/-- The account of the records with a property. -/
def coverage (settled : Item → Prop) : Account where
  Writes start range := range.payload = .skip →
    ∀ item, start ≤ item.position → item.position < range.stop → settled item
  Passes start stop := ∀ item : Item, start ≤ item.position → item.position < stop → settled item
  Defers _ := True
  passes_refl place item hle hlt := absurd hlt (not_lt.mpr hle)
  passes_trans := by
    intro a b c hab hbc item hle hlt
    rcases lt_or_ge item.position b with hb | hb
    · exact hab item hle hb
    · exact hbc item hb hlt
  writes_skip h _ := h

variable {pair}

theorem Settled.mono {haveIds haveIds' : List Id} {needIds needIds' : Multiset Id} {item : Item}
    (h : pair.Settled haveIds needIds item) (hhave : ∀ id ∈ haveIds, id ∈ haveIds')
    (hneed : ∀ id ∈ needIds, id ∈ needIds') : pair.Settled haveIds' needIds' item := by
  rcases h with hsame | ⟨hmem, hid⟩ | ⟨hmem, hid⟩
  · exact .inl hsame
  · exact .inr (.inl ⟨hmem, hhave _ hid⟩)
  · exact .inr (.inr ⟨hmem, hneed _ hid⟩)

theorem Covered.mono {settled settled' : Item → Prop} {ranges : List Range}
    (h : Covered settled ranges) (hsettled : ∀ item, settled item → settled' item) :
    Covered settled' ranges :=
  ⟨h.1.mono fun _ _ hskip hpayload item hle hlt => hsettled item (hskip hpayload item hle hlt),
    fun item hle => hsettled item (h.2 item hle)⟩

/-- Records that both have between two places are settled. -/
theorem settled_of_between_eq {haveIds : List Id} {needIds : Multiset Id} {start stop : Place}
    (h : pair.A.snapshot.between start stop = pair.B.snapshot.between start stop) {item : Item}
    (hle : start ≤ item.position) (hlt : item.position < stop) :
    pair.Settled haveIds needIds item := by
  refine .inl ⟨fun hmem => ?_, fun hmem => ?_⟩
  · have hbetween := Snapshot.mem_between.mpr ⟨hmem, hle, hlt⟩
    rw [h] at hbetween
    exact (Snapshot.mem_between.mp hbetween).1
  · have hbetween := Snapshot.mem_between.mpr ⟨hmem, hle, hlt⟩
    rw [← h] at hbetween
    exact (Snapshot.mem_between.mp hbetween).1

/-- A fingerprint that agrees with the own one settles its range. -/
theorem settled_of_fingerprint {haveIds : List Id} {needIds : Multiset Id} {start : Place}
    {range : Range} {theirs : Fingerprint} (hpayload : range.payload = .fingerprint theirs)
    (hle : start ≤ range.stop) {item : Item} (hstart : start ≤ item.position)
    (hstop : item.position < range.stop) :
    (pair.A.Tells start range → ¬ pair.B.Answers start range → pair.Settled haveIds needIds item) ∧
      (pair.B.Tells start range → ¬ pair.A.Answers start range →
        pair.Settled haveIds needIds item) := by
  refine ⟨fun htells hquiet => ?_, fun htells hquiet => ?_⟩
  · rw [Party.Tells, hpayload] at htells
    rw [Party.Answers, hpayload, not_not, pair.B.fingerprint_between hle, pair.sha256_eq] at hquiet
    exact settled_of_between_eq (pair.fingerprint_injective _ _ (htells.symm.trans hquiet)) hstart hstop
  · rw [Party.Tells, hpayload, pair.sha256_eq] at htells
    rw [Party.Answers, hpayload, not_not, pair.A.fingerprint_between hle] at hquiet
    exact settled_of_between_eq (pair.fingerprint_injective _ _ (hquiet.symm.trans htells)) hstart hstop

/-- What is left of an answer's account when its splits and lists are no skips. -/
theorem coverage_covers {settled : Item → Prop} {party : Party} {final : Party.Progress}
    {start : Place} {range : Range} (hle : start ≤ range.stop)
    (hquiet : ¬ party.Answers start range → party.Learnt final start range →
      ∀ item : Item, start ≤ item.position → item.position < range.stop → settled item) :
    (coverage settled).Covers party final start range where
  le := hle
  passes := hquiet
  defers _ := trivial
  split _ _ _ := (party.splitRange_ne_skip start range.bound).mono fun _ _ hne hskip =>
    absurd hskip hne
  list _ _ _ := Payload.noConfusion
  part _ _ _ _ _ _ := ⟨Payload.noConfusion, trivial⟩

/-- An answer reaches as far as the frame does, or to the end. -/
theorem covered_of_closes {settled : Item → Prop} {ranges output : List Range}
    (hranges : ∀ item : Item, endOf Bound.zero.position ranges ≤ item.position → settled item)
    (h : (coverage settled).Closes (endOf Bound.zero.position ranges) output) :
    Covered settled output := by
  refine ⟨h.writes, fun item hle => ?_⟩
  rcases h.reaches with hpasses | hinfinity
  · rcases lt_or_ge item.position (endOf Bound.zero.position ranges) with hlt | hge
    · exact hpasses item hle hlt
    · exact hranges item hge
  · rw [hinfinity] at hle
    exact absurd (Item.position_lt_infinity item) (not_lt.mpr hle)

/-- The first frame passes over nothing. -/
theorem covered_initiate (settled : Item → Prop) : Covered settled pair.A.initiate := by
  refine ⟨?_, fun item hle => ?_⟩
  · have hskip := pair.A.splitRange_ne_skip Bound.zero.position Bound.infinity
    rw [Snapshot.cut_zero, Snapshot.cut_of_max _ (show Bound.infinity.timestamp = u64Max from rfl)]
      at hskip
    exact hskip.mono fun _ _ hne hpayload => absurd hpayload hne
  · have hend : endOf Bound.zero.position pair.A.initiate = Bound.infinity.position :=
      pair.A.lastStop_splitRange _ _ _ _
    rw [hend] at hle
    exact absurd (Item.position_lt_infinity item) (not_lt.mpr hle)

/-- The responder's answer keeps what is settled. -/
theorem covered_answer {haveIds : List Id} {needIds : Multiset Id} {frame : List Range}
    (htruthful : pair.A.Truthful frame) (hcovered : Covered (pair.Settled haveIds needIds) frame) :
    Covered (pair.Settled haveIds needIds) (pair.B.reply frame).output := by
  refine covered_of_closes hcovered.2 (Account.reply _ pair.B pair.limitB
    (fun _ _ => Payload.noConfusion) ((htruthful.and hcovered.1).mono ?_))
  rintro start range ⟨⟨hle, htells⟩, hskip⟩
  refine coverage_covers hle fun hquiet _ item hstart hstop => ?_
  cases hpayload : range.payload with
  | skip => exact hskip hpayload item hstart hstop
  | fingerprint theirs =>
    exact (settled_of_fingerprint hpayload hle hstart hstop).1 htells hquiet
  | idList theirs =>
    rw [Party.Answers, hpayload] at hquiet
    exact absurd pair.responds hquiet

/-- A record in a range whose ids were learnt is settled. -/
theorem settled_of_learnt {final : Party.Progress} {start : Place} {range : Range} {theirs : List Id}
    (hpayload : range.payload = .idList theirs) (hle : start ≤ range.stop)
    (htells : pair.B.Tells start range) (hlearnt : pair.A.Learnt final start range) {item : Item}
    (hstart : start ≤ item.position) (hstop : item.position < range.stop) :
    pair.Settled final.haveIds final.needIds item := by
  obtain ⟨hhave, hneed⟩ := hlearnt theirs hpayload
  rw [Party.Tells, hpayload] at htells
  rw [pair.A.idsBetween_eq hle] at hhave hneed
  by_cases hA : item ∈ pair.A.snapshot.items
  · by_cases hB : item ∈ pair.B.snapshot.items
    · exact .inl ⟨fun _ => hB, fun _ => hA⟩
    · refine .inr (.inl ⟨hA, hhave _ ?_ fun hmem => hB ?_⟩)
      · exact List.mem_map_of_mem (Snapshot.mem_between.mpr ⟨hA, hstart, hstop⟩)
      · rw [htells] at hmem
        obtain ⟨other, hother, hid⟩ := List.mem_map.mp hmem
        have hotherB := (Snapshot.mem_between.mp hother).1
        rw [pair.same_record item hA other hotherB hid.symm]
        exact hotherB
  · by_cases hB : item ∈ pair.B.snapshot.items
    · refine .inr (.inr ⟨hB, hneed _ ?_ fun hmem => hA ?_⟩)
      · rw [htells]
        exact List.mem_map_of_mem (Snapshot.mem_between.mpr ⟨hB, hstart, hstop⟩)
      · obtain ⟨other, hother, hid⟩ := List.mem_map.mp hmem
        have hotherA := (Snapshot.mem_between.mp hother).1
        rw [← pair.same_record other hotherA item hB hid]
        exact hotherA
    · exact .inl ⟨fun h => absurd h hA, fun h => absurd h hB⟩

/-- The initiator's next frame keeps what is settled, with what it learnt. -/
theorem covered_next {haveIds : List Id} {needIds : Multiset Id} {frame : List Range}
    (htruthful : pair.B.Truthful frame) (hcovered : Covered (pair.Settled haveIds needIds) frame) :
    Covered (pair.Settled (haveIds ++ (pair.A.reply frame).haveIds)
      (needIds + (pair.A.reply frame).needIds)) (pair.A.reply frame).output := by
  have hmore := hcovered.mono fun item h => h.mono
    (fun id hid => List.mem_append_left (pair.A.reply frame).haveIds hid)
    (fun id hid => Multiset.mem_add.mpr (.inl (b := id ∈ (pair.A.reply frame).needIds) hid))
  refine covered_of_closes hmore.2 (Account.reply _ pair.A pair.limitA
    (fun _ _ => Payload.noConfusion) ((htruthful.and hmore.1).mono ?_))
  rintro start range ⟨⟨hle, htells⟩, hskip⟩
  refine coverage_covers hle fun hquiet hlearnt item hstart hstop => ?_
  cases hpayload : range.payload with
  | skip => exact hskip hpayload item hstart hstop
  | fingerprint theirs =>
    exact (settled_of_fingerprint hpayload hle hstart hstop).2 htells hquiet
  | idList theirs =>
    exact (settled_of_learnt hpayload hle htells hlearnt hstart hstop).mono
      (fun id hid => List.mem_append_right _ hid) (fun id hid => Multiset.mem_add.mpr (.inr hid))

/-! ## Only differences are listed -/

variable (pair) in
/-- What is listed is a difference. -/
def Sound (haveIds : List Id) (needIds : Multiset Id) : Prop :=
  (∀ id ∈ haveIds, id ∈ pair.A.snapshot.items.map Item.id ∧ id ∉ pair.B.snapshot.items.map Item.id) ∧
    ∀ id ∈ needIds, id ∈ pair.B.snapshot.items.map Item.id ∧ id ∉ pair.A.snapshot.items.map Item.id

theorem Sound.add {haveIds haveIds' : List Id} {needIds needIds' : Multiset Id}
    (h : pair.Sound haveIds needIds) (h' : pair.Sound haveIds' needIds') :
    pair.Sound (haveIds ++ haveIds') (needIds + needIds') := by
  refine ⟨fun id hid => ?_, fun id hid => ?_⟩
  · exact (List.mem_append.mp hid).elim (h.1 id) (h'.1 id)
  · exact (Multiset.mem_add.mp hid).elim (h.2 id) (h'.2 id)

/-- What is learnt from a truthful range is a difference. -/
theorem sound_heed {progress : Party.Progress} {range : Range}
    (hle : progress.prevBound.position ≤ range.stop)
    (htells : pair.B.Tells progress.prevBound.position range)
    (h : pair.Sound progress.haveIds progress.needIds) :
    pair.Sound (pair.A.heed progress range).haveIds (pair.A.heed progress range).needIds := by
  rw [Party.heed]
  split
  · next theirs hpayload =>
    rw [Party.Tells, hpayload] at htells
    have hids : pair.A.ids (pair.A.lower progress) (pair.A.snapshot.cut range.bound.position) = _ :=
      pair.A.idsBetween_eq hle
    refine h.add ⟨fun id hid => ?_, fun id hid => ?_⟩
    · obtain ⟨hown, hnot⟩ := List.mem_filter.mp hid
      rw [hids] at hown
      obtain ⟨item, hitem, rfl⟩ := List.mem_map.mp hown
      obtain ⟨hA, hstart, hstop⟩ := Snapshot.mem_between.mp hitem
      refine ⟨List.mem_map_of_mem hA, fun hmem => ?_⟩
      obtain ⟨other, hB, hid⟩ := List.mem_map.mp hmem
      obtain rfl := pair.same_record item hA other hB hid.symm
      have hlisted : item.id ∈ theirs := by
        rw [htells]
        exact List.mem_map_of_mem (Snapshot.mem_between.mpr ⟨hB, hstart, hstop⟩)
      simp [hlisted] at hnot
    · obtain ⟨hlisted, hnot⟩ := Finset.mem_filter.mp (Finset.mem_val.mp hid)
      rw [List.mem_toFinset, htells] at hlisted
      obtain ⟨item, hitem, rfl⟩ := List.mem_map.mp hlisted
      obtain ⟨hB, hstart, hstop⟩ := Snapshot.mem_between.mp hitem
      refine ⟨List.mem_map_of_mem hB, fun hmem => hnot ?_⟩
      obtain ⟨other, hA, hid⟩ := List.mem_map.mp hmem
      obtain rfl := pair.same_record other hA item hB hid
      rw [hids]
      exact List.mem_map_of_mem (Snapshot.mem_between.mpr ⟨hA, hstart, hstop⟩)
  · exact h

theorem sound_steps {progress : Party.Progress} {ranges : List Range}
    (htruthful : ranges.Along Range.stop
      (fun start range => start ≤ range.stop ∧ pair.B.Tells start range) progress.prevBound.position)
    (h : pair.Sound progress.haveIds progress.needIds) :
    pair.Sound (pair.A.steps progress ranges).haveIds (pair.A.steps progress ranges).needIds := by
  induction ranges generalizing progress with
  | nil => exact h
  | cons range ranges ih =>
    obtain ⟨⟨hle, htells⟩, hrest⟩ := htruthful
    have hturn := pair.A.step_turn progress range
    rw [Party.steps]
    generalize pair.A.step progress range = flow at hturn ⊢
    cases hturn with
    | pass _ _ =>
      have hheed := sound_heed hle htells h
      exact @ih { pair.A.heed progress range with prevBound := range.bound } hrest hheed
    | passCut _ _ => exact sound_heed hle htells h
    | split _ _ _ => exact @ih { progress with prevBound := range.bound, output := _, skip := _ } hrest h
    | splitCut _ _ _ => exact h
    | list _ _ _ => exact @ih { progress with prevBound := range.bound, output := _, skip := _ } hrest h
    | listCut _ _ _ => exact h
    | listPart _ _ _ => exact h

/-- What the initiator lists after a truthful frame is a difference. -/
theorem sound_next {frame : List Range} (htruthful : pair.B.Truthful frame) :
    pair.Sound (pair.A.reply frame).haveIds (pair.A.reply frame).needIds := by
  refine sound_steps htruthful ⟨fun id hid => ?_, fun id hid => ?_⟩
  · exact absurd hid List.not_mem_nil
  · exact absurd hid (Multiset.notMem_zero id)

end Pair

end NostrPubsub.Reconcile
