import NostrPubsub.Reconcile.Coverage

/-!
# A conversation ends

The measure is the first place that is still disputed. A range weighs the records from its start on,
and after these the records in it. What the responder fingerprints in answer to a range that it
disputes weighs less, and what the initiator then sends weighs no more than what it disputes in turn,
so every round lowers the weight of all ranges that the responder disputes (`Pair.below_round`). When it
disputes none, it answers with an empty frame and the conversation is over. However it began, it is
over after `(total + 1) ^ 2` rounds and one more (`Pair.Opens.frame_rounds_eq_nil`).
-/

namespace NostrPubsub.Reconcile

namespace Pair

variable (pair : Pair)

/-- The number of records of both sides. -/
def total : ℕ := pair.A.snapshot.items.length + pair.B.snapshot.items.length

/-- The number of records from a place on. -/
def remaining (place : Place) : ℕ :=
  pair.A.snapshot.items.length - pair.A.snapshot.cut place +
    (pair.B.snapshot.items.length - pair.B.snapshot.cut place)

/-- The number of records between two places. -/
def count (start stop : Place) : ℕ :=
  pair.A.snapshot.cut stop - pair.A.snapshot.cut start +
    (pair.B.snapshot.cut stop - pair.B.snapshot.cut start)

/-- The records from the start on, and then the records in the range. -/
def weight (start stop : Place) : ℕ := pair.remaining start * (pair.total + 1) + pair.count start stop

/-- Whatever begins here weighs less than `m`. -/
def Late (m : ℕ) (place : Place) : Prop := pair.remaining place * (pair.total + 1) + pair.total < m

variable {m : ℕ} {start stop place : Place}

theorem remaining_le (h : start ≤ stop) : pair.remaining stop ≤ pair.remaining start := by
  have hA := pair.A.snapshot.cut_mono h
  have hB := pair.B.snapshot.cut_mono h
  simp only [remaining]
  omega

theorem remaining_le_total (place : Place) : pair.remaining place ≤ pair.total := by
  simp only [remaining, total]
  omega

theorem count_le_total (start stop : Place) : pair.count start stop ≤ pair.total := by
  have hA := pair.A.snapshot.cut_le stop
  have hB := pair.B.snapshot.cut_le stop
  simp only [count, total]
  omega

variable {pair}

/-- What is in a range does not come after it. -/
theorem remaining_lt (h : 0 < pair.count start stop) :
    pair.remaining stop < pair.remaining start := by
  have hA := pair.A.snapshot.cut_le stop
  have hB := pair.B.snapshot.cut_le stop
  simp only [remaining, count] at h ⊢
  by_cases hle : start ≤ stop
  · have hA' := pair.A.snapshot.cut_mono hle
    have hB' := pair.B.snapshot.cut_mono hle
    omega
  · have hA' := pair.A.snapshot.cut_mono (not_le.mp hle).le
    have hB' := pair.B.snapshot.cut_mono (not_le.mp hle).le
    omega

@[simp]
theorem remaining_infinity : pair.remaining Bound.infinity.position = 0 := by
  have hlast : Bound.infinity.timestamp = u64Max := rfl
  rw [remaining, Snapshot.cut_of_max _ hlast, Snapshot.cut_of_max _ hlast, Nat.sub_self, Nat.sub_self]

theorem weight_le {start' stop' : Place} (hstart : start ≤ start') (hstop : stop' ≤ stop) :
    pair.weight start' stop' ≤ pair.weight start stop := by
  have hremaining := Nat.mul_le_mul_right (pair.total + 1) (pair.remaining_le hstart)
  have hA := pair.A.snapshot.cut_mono hstart
  have hB := pair.B.snapshot.cut_mono hstart
  have hA' := pair.A.snapshot.cut_mono hstop
  have hB' := pair.B.snapshot.cut_mono hstop
  simp only [weight, count]
  omega

theorem Late.weight_lt (h : pair.Late m place) (stop : Place) : pair.weight place stop < m := by
  have hcount := pair.count_le_total place stop
  rw [Late] at h
  rw [weight]
  omega

theorem Late.mono (h : pair.Late m place) (hle : place ≤ stop) : pair.Late m stop := by
  have hremaining := Nat.mul_le_mul_right (pair.total + 1) (pair.remaining_le hle)
  rw [Late] at h ⊢
  omega

theorem Late.infinity (h : pair.Late m place) : pair.Late m Bound.infinity.position := by
  rw [Late] at h ⊢
  rw [remaining_infinity]
  omega

/-- A place behind some records of a range that weighs at most `m`. -/
theorem late_of_remaining_lt (h : pair.remaining place < pair.remaining start)
    (hweight : pair.weight start stop ≤ m) : pair.Late m place := by
  have hremaining := Nat.mul_le_mul_right (pair.total + 1) (Nat.succ_le_of_lt h)
  rw [Nat.succ_mul] at hremaining
  rw [weight] at hweight
  rw [Late]
  omega

/-! ## Disputed ranges -/

variable (pair) in
/-- What the responder disputes in a frame weighs at most `m`, and what comes after it less. -/
def Below (m : ℕ) (frame : List Range) : Prop :=
  frame.Along Range.stop
    (fun start range => pair.B.Answers start range →
      pair.weight start range.stop ≤ m ∧ pair.Late m range.stop)
    Bound.zero.position

/-- There is something to dispute in a range with another fingerprint. -/
theorem count_pos_of_mismatch {range : Range} {theirs : Fingerprint}
    (hpayload : range.payload = .fingerprint theirs) (hle : start ≤ range.stop) :
    (pair.A.Tells start range → pair.B.Answers start range → 0 < pair.count start range.stop) ∧
      (pair.B.Tells start range → pair.A.Answers start range →
        0 < pair.count start range.stop) := by
  have hnone : ¬ 0 < pair.count start range.stop → pair.A.fingerprint (pair.A.snapshot.cut start)
      (pair.A.snapshot.cut range.stop) = pair.B.fingerprint (pair.B.snapshot.cut start)
      (pair.B.snapshot.cut range.stop) := by
    intro hzero
    have hA := pair.A.snapshot.cut_mono hle
    have hB := pair.B.snapshot.cut_mono hle
    simp only [count] at hzero
    have hA' : pair.A.snapshot.cut start = pair.A.snapshot.cut range.stop := by omega
    have hB' : pair.B.snapshot.cut start = pair.B.snapshot.cut range.stop := by omega
    simp only [Party.fingerprint, Snapshot.fingerprint, hA', hB', pair.sha256_eq,
      List.extract_eq_take_drop, Nat.sub_self, List.take_zero]
  refine ⟨fun htells hanswers => ?_, fun htells hanswers => ?_⟩
  · by_contra hzero
    rw [Party.Tells, hpayload] at htells
    rw [Party.Answers, hpayload] at hanswers
    refine hanswers ?_
    rw [← hnone hzero, pair.A.fingerprint_between hle]
    exact htells
  · by_contra hzero
    rw [Party.Tells, hpayload] at htells
    rw [Party.Answers, hpayload] at hanswers
    refine hanswers ?_
    rw [hnone hzero, pair.B.fingerprint_between hle]
    exact htells

/-! ## The responder's answer -/

variable (pair) in
/-- The account of an answer in which every fingerprint weighs less than `m`. -/
def answered (m : ℕ) : Account where
  Writes start range := ∀ theirs, range.payload = .fingerprint theirs →
    pair.weight start range.stop < m ∧ pair.Late m range.stop
  Passes _ _ := True
  Defers place := pair.Late m place
  passes_refl _ := trivial
  passes_trans _ _ := trivial
  writes_skip _ _ := Payload.noConfusion

/-- The buckets of a disputed range weigh less than it. -/
theorem weight_bucket_lt {bound : Bound} {u : Place} {range : Range} (hstart : start ≤ u)
    (hstop : range.stop ≤ bound.position) (hbucket : pair.B.IsBucket
      (pair.B.snapshot.cut bound.position - pair.B.snapshot.cut start) u range) :
    pair.weight u range.stop < pair.weight start bound.position ∧ 0 < pair.count u range.stop := by
  have hremaining := Nat.mul_le_mul_right (pair.total + 1) (pair.remaining_le hstart)
  have hA := pair.A.snapshot.cut_mono hstart
  have hA' := pair.A.snapshot.cut_mono hstop
  have hlt := hbucket.cut_lt
  have hfew := hbucket.few
  simp only [weight, count]
  omega

theorem answered_covers {final : Party.Progress} {range : Range} (hle : start ≤ range.stop)
    (hbelow : pair.B.Answers start range →
      pair.weight start range.stop ≤ m ∧ pair.Late m range.stop) :
    (pair.answered m).Covers pair.B final start range where
  le := hle
  passes _ _ := trivial
  defers h := h.elim (fun hanswers => (hbelow hanswers).2) fun hlate => Late.mono hlate hle
  split hanswers theirs hpayload := by
    obtain ⟨hweight, -⟩ := hbelow hanswers
    rcases pair.B.splitRange_cases start range.bound with ⟨-, heq⟩ | ⟨-, hbuckets⟩
    · have hlist : (pair.B.splitRange (pair.B.snapshot.cut start) (pair.B.snapshot.cut range.stop)
          range.bound) = _ := heq
      rw [hlist]
      exact ⟨fun _ => Payload.noConfusion, trivial⟩
    · have hwithin := (hbuckets.mono fun _ _ hbucket => hbucket.le).within
      have hend := pair.B.lastStop_splitRange start (pair.B.snapshot.cut start)
        (pair.B.snapshot.cut range.bound.position) range.bound
      refine (hwithin.and hbuckets).mono ?_
      rintro u bucket ⟨⟨hstart, -, hstop⟩, hbucket⟩ _ _
      obtain ⟨hlt, hcount⟩ := weight_bucket_lt hstart (hstop.trans hend.le) hbucket
      have hlt' := hlt.trans_le hweight
      exact ⟨hlt', late_of_remaining_lt (remaining_lt hcount) hlt'.le⟩
  list _ _ _ _ := Payload.noConfusion
  part hanswers theirs hpayload count hpos hcount := by
    obtain ⟨hweight, -⟩ := hbelow hanswers
    refine ⟨fun _ => Payload.noConfusion, ?_⟩
    -- The list ends behind a record of the responder, so fewer records remain.
    have hlength := pair.B.length_ids_le (pair.B.snapshot.cut start) (pair.B.snapshot.cut range.stop)
    have hupper := pair.B.snapshot.cut_le range.stop
    have hindex : pair.B.snapshot.cut start + count < pair.B.snapshot.items.length := by
      rw [Party.idsBetween] at hcount
      omega
    have hcut := pair.B.snapshot.cut_getD hindex
    refine late_of_remaining_lt (remaining_lt ?_) hweight
    simp only [Pair.count]
    omega

theorem answered_reply {frame : List Range} (hordered : Ordered Bound.zero.position frame)
    (hbelow : pair.Below m frame) :
    (pair.B.reply frame).output.Along Range.stop (pair.answered m).Writes Bound.zero.position := by
  refine (Account.reply (pair.answered m) pair.B pair.limitB (fun bound hlate _ _ => ?_)
    ((hordered.and hbelow).mono fun _ _ h => answered_covers h.1 h.2)).writes
  exact ⟨Late.weight_lt hlate _, Late.infinity hlate⟩

/-! ## The initiator's next frame -/

variable (pair) in
/-- The account of a frame whose ranges weigh less than `m`, and whose lists are about something. -/
def proposed (m : ℕ) : Account where
  Writes start range := range.payload ≠ .skip → pair.weight start range.stop < m ∧
    ∀ ids, range.payload = .idList ids → 0 < pair.count start range.stop
  Passes _ _ := True
  Defers place := pair.Late m place
  passes_refl _ := trivial
  passes_trans _ _ := trivial
  writes_skip _ hskip := absurd rfl hskip

theorem proposed_covers {final : Party.Progress} {range : Range} (hle : start ≤ range.stop)
    (htells : pair.B.Tells start range) (hanswered : (pair.answered m).Writes start range) :
    (pair.proposed m).Covers pair.A final start range := by
  -- The initiator writes only for fingerprints that differ from its own.
  have hfingerprint : pair.A.Answers start range → ∃ theirs, range.payload = .fingerprint theirs := by
    intro hanswers
    rw [Party.Answers] at hanswers
    split at hanswers
    · exact hanswers.elim
    · exact ⟨_, ‹_›⟩
    · rw [pair.initiates] at hanswers
      cases hanswers
  have hlist : pair.A.Answers start range → ∀ theirs, range.payload ≠ .idList theirs := by
    intro hanswers theirs hpayload
    obtain ⟨other, hother⟩ := hfingerprint hanswers
    rw [hpayload] at hother
    cases hother
  refine ⟨hle, fun _ _ => trivial, ?_, ?_, ?_, ?_⟩
  · rintro (hanswers | hlate)
    · obtain ⟨theirs, hpayload⟩ := hfingerprint hanswers
      exact (hanswered theirs hpayload).2
    · exact Late.mono hlate hle
  · intro hanswers theirs hpayload
    obtain ⟨hweight, -⟩ := hanswered theirs hpayload
    have hcount := (count_pos_of_mismatch hpayload hle).2 htells hanswers
    rcases pair.A.splitRange_cases start range.bound with ⟨-, heq⟩ | ⟨-, hbuckets⟩
    · have hsplit : (pair.A.splitRange (pair.A.snapshot.cut start) (pair.A.snapshot.cut range.stop)
          range.bound) = _ := heq
      rw [hsplit]
      exact ⟨fun _ => ⟨hweight, fun _ _ => hcount⟩, trivial⟩
    · have hwithin := (hbuckets.mono fun _ _ hbucket => hbucket.le).within
      have hend := pair.A.lastStop_splitRange start (pair.A.snapshot.cut start)
        (pair.A.snapshot.cut range.bound.position) range.bound
      refine (hwithin.and hbuckets).mono ?_
      rintro u bucket ⟨⟨hstart, -, hstop⟩, hbucket⟩ _
      refine ⟨(weight_le hstart (hstop.trans hend.le)).trans_lt hweight, fun ids hids => ?_⟩
      rw [hbucket.payload] at hids
      cases hids
  · exact fun hanswers theirs hpayload => absurd hpayload (hlist hanswers theirs)
  · exact fun hanswers theirs hpayload => absurd hpayload (hlist hanswers theirs)

theorem proposed_reply {frame : List Range} (htruthful : pair.B.Truthful frame)
    (hanswered : frame.Along Range.stop (pair.answered m).Writes Bound.zero.position) :
    (pair.A.reply frame).output.Along Range.stop (pair.proposed m).Writes Bound.zero.position := by
  refine (Account.reply (pair.proposed m) pair.A pair.limitA (fun bound hlate _ => ?_)
    ((htruthful.and hanswered).mono fun _ _ h => proposed_covers h.1.1 h.1.2 h.2)).writes
  exact ⟨Late.weight_lt hlate _, fun _ => Payload.noConfusion⟩

/-- What is proposed is disputed less. -/
theorem below_of_proposed {frame : List Range} (htruthful : pair.A.Truthful frame)
    (hproposed : frame.Along Range.stop (pair.proposed (m + 1)).Writes Bound.zero.position) :
    pair.Below m frame := by
  refine (htruthful.and hproposed).mono ?_
  rintro start range ⟨⟨hle, htells⟩, hwrites⟩ hanswers
  have hskip : range.payload ≠ .skip := by
    intro hskip
    rw [Party.Answers, hskip] at hanswers
    exact hanswers
  obtain ⟨hweight, hids⟩ := hwrites hskip
  have hcount : 0 < pair.count start range.stop := by
    cases hpayload : range.payload with
    | skip => exact absurd hpayload hskip
    | fingerprint theirs => exact (count_pos_of_mismatch hpayload hle).1 htells hanswers
    | idList theirs => exact hids theirs hpayload
  have hle' := Nat.le_of_lt_succ hweight
  exact ⟨hle', late_of_remaining_lt (remaining_lt hcount) hle'⟩

/-! ## Rounds -/

/-- A frame in which the responder disputes nothing is answered by an empty one. -/
theorem output_of_quiet {progress : Party.Progress} {party : Party} {ranges : List Range}
    (hquiet : ranges.Along Range.stop (fun start range => ¬ party.Answers start range)
      progress.prevBound.position)
    (hroom : ¬ party.ExceededFrameSizeLimit (encodeFrame progress.output).length) :
    (party.steps progress ranges).output = progress.output := by
  induction ranges generalizing progress with
  | nil => rfl
  | cons range ranges ih =>
    obtain ⟨hhead, hrest⟩ := hquiet
    have hturn := party.step_turn progress range
    rw [Party.steps]
    generalize party.step progress range = flow at hturn ⊢
    cases hturn with
    | pass _ _ =>
      rw [← party.heed_output progress range] at hroom
      have hsame := @ih { party.heed progress range with prevBound := range.bound } hrest hroom
      exact hsame.trans (party.heed_output progress range)
    | passCut _ hfull => exact absurd hfull hroom
    | split _ hanswers _ => exact absurd hanswers hhead
    | splitCut _ hanswers _ => exact absurd hanswers hhead
    | list _ hanswers _ => exact absurd hanswers hhead
    | listCut _ hanswers _ => exact absurd hanswers hhead
    | listPart _ hanswers _ => exact absurd hanswers hhead

/-- What the initiator sent last, and what it has listed so far. -/
structure Talk where
  frame : List Range
  haveIds : List Id
  needIds : Multiset Id

variable (pair)

/-- The start of a conversation. -/
def Talk.first : Talk := ⟨pair.A.initiate, [], 0⟩

/-- The start with one fingerprint over everything. -/
def Talk.asked : Talk := ⟨[pair.A.tail 0], [], 0⟩

/-- One answer of the responder, and what the initiator makes of it. -/
def Talk.next (talk : Talk) : Talk :=
  let heard := pair.A.reply (pair.B.reply talk.frame).output
  ⟨heard.output, talk.haveIds ++ heard.haveIds, talk.needIds + heard.needIds⟩

/-- The conversation after a number of rounds. -/
def talkAfter (first : Talk) (rounds : ℕ) : Talk := (Talk.next pair)^[rounds] first

/-- What holds between two rounds. -/
structure Kept (talk : Talk) : Prop where
  truthful : pair.A.Truthful talk.frame
  ends : endOf Bound.zero.position talk.frame ≤ Bound.infinity.position
  covered : Covered (pair.Settled talk.haveIds talk.needIds) talk.frame
  sound : pair.Sound talk.haveIds talk.needIds

/-- What can begin a conversation. -/
structure Opens (talk : Talk) : Prop where
  kept : pair.Kept talk
  below : pair.Below ((pair.total + 1) * (pair.total + 1)) talk.frame

variable {pair}

theorem sound_nothing : pair.Sound [] 0 :=
  ⟨fun _ hid => absurd hid List.not_mem_nil, fun id hid => absurd hid (Multiset.notMem_zero id)⟩

theorem kept_first : pair.Kept (Talk.first pair) where
  truthful := pair.A.truthful_initiate
  ends := (pair.A.lastStop_splitRange _ _ _ _).le
  covered := covered_initiate _
  sound := sound_nothing

theorem kept_asked : pair.Kept (Talk.asked pair) where
  truthful := by
    have htells := pair.A.tells_tail Bound.zero_le_infinity
    rw [Snapshot.cut_zero] at htells
    exact ⟨⟨Bound.zero_le_infinity, htells⟩, trivial⟩
  ends := le_rfl
  covered := by
    refine ⟨⟨Payload.noConfusion, trivial⟩, fun item hle => ?_⟩
    exact absurd (Item.position_lt_infinity item) (not_lt.mpr hle)
  sound := sound_nothing

theorem Kept.next {talk : Talk} (h : pair.Kept talk) : pair.Kept (Talk.next pair talk) := by
  obtain ⟨htruthful, hends⟩ := Party.truthful_reply pair.limitB h.truthful.ordered h.ends
  obtain ⟨htruthful', hends'⟩ := Party.truthful_reply pair.limitA htruthful.ordered hends
  exact ⟨htruthful', hends', covered_next htruthful (covered_answer h.truthful h.covered),
    h.sound.add (sound_next htruthful)⟩

/-- A round lowers what the responder can dispute. -/
theorem below_round {talk : Talk} (h : pair.Kept talk) (hbelow : pair.Below (m + 1) talk.frame) :
    pair.Below m (Talk.next pair talk).frame := by
  obtain ⟨htruthful, hends⟩ := Party.truthful_reply pair.limitB h.truthful.ordered h.ends
  have hanswered := answered_reply h.truthful.ordered hbelow
  exact below_of_proposed h.next.truthful (proposed_reply htruthful hanswered)

/-- When nothing can be disputed, the conversation is over. -/
theorem frame_next_eq_nil {talk : Talk} (hbelow : pair.Below 0 talk.frame) :
    (Talk.next pair talk).frame = [] := by
  have hquiet : (pair.B.reply talk.frame).output = [] := by
    refine output_of_quiet (hbelow.mono fun start range h hanswers => ?_) ?_
    · exact absurd (h hanswers).2 (Nat.not_lt_zero _)
    · exact Party.not_exceeded pair.limitB (by decide)
  rw [Talk.next, hquiet]
  rfl

/-- An empty frame stays empty. -/
theorem frame_next_of_nil {talk : Talk} (h : talk.frame = []) : (Talk.next pair talk).frame = [] := by
  rw [Talk.next, h]
  rfl

theorem weight_lt_total (start stop : Place) :
    pair.weight start stop < (pair.total + 1) * (pair.total + 1) := by
  have hremaining := Nat.mul_le_mul_right (pair.total + 1) (pair.remaining_le_total start)
  have hcount := pair.count_le_total start stop
  rw [weight, Nat.succ_mul]
  omega

theorem late_infinity_total :
    pair.Late ((pair.total + 1) * (pair.total + 1)) Bound.infinity.position := by
  rw [Late, remaining_infinity, Nat.succ_mul]
  omega

theorem opens_first : pair.Opens (Talk.first pair) := by
  refine ⟨kept_first, ?_⟩
  have hsplit := pair.A.splitRange_cases Bound.zero.position Bound.infinity
  rw [Snapshot.cut_zero, Snapshot.cut_of_max _ (show Bound.infinity.timestamp = u64Max from rfl)]
    at hsplit
  rcases hsplit with ⟨-, heq⟩ | ⟨-, hbuckets⟩
  · rw [Below, Talk.first, Party.initiate, heq]
    exact ⟨fun _ => ⟨(weight_lt_total _ _).le, late_infinity_total⟩, trivial⟩
  · refine List.Along.mono (fun start range hbucket _ => ⟨(weight_lt_total _ _).le, ?_⟩) hbuckets
    refine late_of_remaining_lt (remaining_lt ?_) (weight_lt_total start range.stop).le
    have hlt := hbucket.cut_lt
    simp only [count]
    omega

theorem opens_asked : pair.Opens (Talk.asked pair) :=
  ⟨kept_asked, fun _ => ⟨(weight_lt_total _ _).le, late_infinity_total⟩, trivial⟩

theorem Opens.kept_talkAfter {first : Talk} (hopens : pair.Opens first) (rounds : ℕ) :
    pair.Kept (pair.talkAfter first rounds) := by
  induction rounds with
  | zero => exact hopens.kept
  | succ rounds ih =>
    rw [talkAfter, Function.iterate_succ_apply']
    exact Kept.next ih

theorem Opens.below_talkAfter {first : Talk} (hopens : pair.Opens first) {rounds : ℕ}
    (h : rounds + m = (pair.total + 1) * (pair.total + 1)) :
    pair.Below m (pair.talkAfter first rounds).frame := by
  induction rounds generalizing m with
  | zero =>
    obtain rfl : m = _ := (Nat.zero_add m).symm.trans h
    exact hopens.below
  | succ rounds ih =>
    rw [talkAfter, Function.iterate_succ_apply']
    exact below_round (hopens.kept_talkAfter rounds) (ih (by omega))

/-- The initiator has nothing more to say after `(total + 1) ^ 2` rounds and one more. -/
theorem Opens.frame_rounds_eq_nil {first : Talk} (hopens : pair.Opens first) {rounds : ℕ}
    (h : (pair.total + 1) * (pair.total + 1) < rounds) :
    (pair.talkAfter first rounds).frame = [] := by
  obtain ⟨later, rfl⟩ := Nat.exists_eq_add_of_lt h
  induction later with
  | zero =>
    rw [Nat.add_zero, talkAfter, Function.iterate_succ_apply']
    exact frame_next_eq_nil (hopens.below_talkAfter rfl)
  | succ later ih =>
    rw [talkAfter, Function.iterate_succ_apply']
    exact frame_next_of_nil (ih (by omega))

/-- When the initiator has nothing more to say, it has listed exactly the differences. -/
theorem Kept.exact {talk : Talk} (h : pair.Kept talk) (hframe : talk.frame = []) (id : Id) :
    (id ∈ talk.haveIds ↔
        id ∈ pair.A.snapshot.items.map Item.id ∧ id ∉ pair.B.snapshot.items.map Item.id) ∧
      (id ∈ talk.needIds ↔
        id ∈ pair.B.snapshot.items.map Item.id ∧ id ∉ pair.A.snapshot.items.map Item.id) := by
  have hsettled : ∀ item, pair.Settled talk.haveIds talk.needIds item := by
    intro item
    refine h.covered.2 item ?_
    rw [hframe]
    exact Bound.zero_le_position item
  refine ⟨⟨h.sound.1 id, ?_⟩, ⟨h.sound.2 id, ?_⟩⟩
  · rintro ⟨hA, hB⟩
    obtain ⟨item, hitem, rfl⟩ := List.mem_map.mp hA
    have hnot : item ∉ pair.B.snapshot.items := fun hmem => hB (List.mem_map_of_mem hmem)
    rcases hsettled item with hsame | ⟨-, hid⟩ | ⟨hmem, -⟩
    · exact absurd (hsame.mp hitem) hnot
    · exact hid
    · exact absurd hmem hnot
  · rintro ⟨hB, hA⟩
    obtain ⟨item, hitem, rfl⟩ := List.mem_map.mp hB
    have hnot : item ∉ pair.A.snapshot.items := fun hmem => hA (List.mem_map_of_mem hmem)
    rcases hsettled item with hsame | ⟨hmem, -⟩ | ⟨-, hid⟩
    · exact absurd (hsame.mpr hitem) hnot
    · exact absurd hmem hnot
    · exact hid

end Pair

end NostrPubsub.Reconcile
