import NostrPubsub.Reconcile.Session

/-!
# Two sessions list exactly the differences

A conversation of two sessions over the bytes of their frames is the conversation of their parties
over ranges (`Talking.round`): every frame is within the limit of the other side and passes its
validator, so no call fails but at the round limit.
-/

namespace NostrPubsub.Reconcile

namespace Session

variable (display : Error → String)

/-- A session before a number of its rounds. -/
structure Stands (session : Session) (party : Party) (limits : Limits) (rounds : ℕ) : Prop where
  party_eq : session.engine.party = party
  limits_eq : session.limits = limits
  rounds_eq : session.rounds = rounds
  unfinished : session.finished = false

/-- A session whose rounds are used up refuses every call. -/
theorem Stands.accept_of_le {session : Session} {party : Party} {limits : Limits} {rounds : ℕ}
    (h : session.Stands party limits rounds) (hrounds : limits.maxRounds ≤ rounds)
    (frame : List UInt8) : session.accept frame = (.error roundLimit, session) := by
  have htick : session.tick = (.error roundLimit, session) := by
    rw [tick, if_pos (.inr (by rw [h.limits_eq, h.rounds_eq]; exact hrounds))]
  rw [accept, htick]

/-- Before its rounds are used up it accepts a valid frame within the limit. -/
theorem Stands.accept_of_lt {session : Session} {party : Party} {limits : Limits} {rounds : ℕ}
    (h : session.Stands party limits rounds) (hrounds : rounds < limits.maxRounds)
    {frame : List UInt8} (hlength : frame.length ≤ limits.maxFrameBytes)
    (hvalid : Validation.validate frame = .ok ()) :
    session.accept frame = (.ok (), { session with rounds := rounds + 1 }) := by
  have htick : session.tick = (.ok (), { session with rounds := rounds + 1 }) := by
    rw [tick, if_neg, h.rounds_eq]
    rintro (hfinished | hle)
    · rw [h.unfinished] at hfinished
      cases hfinished
    · rw [h.limits_eq, h.rounds_eq] at hle
      omega
  rw [accept, htick]
  simp only [h.limits_eq, if_neg (Nat.not_lt.mpr hlength), hvalid]

section Answers

variable {session : Session} {party : Party} {limits : Limits} {rounds : ℕ} {frame : List UInt8}
  {ranges : List Range}

theorem Stands.respond (h : session.Stands party limits rounds) (hresponder : party.isInitiator = false)
    (hrounds : rounds < limits.maxRounds) (hlength : frame.length ≤ limits.maxFrameBytes)
    (hvalid : Validation.validate frame = .ok ()) (hspells : Spells frame ranges) :
    ∃ session', session.respond display frame =
        (.ok (encodeFrame (party.reply ranges).output), session') ∧
      session'.Stands party limits (rounds + 1) := by
  have hinitiator : session.engine.isInitiator = false := by
    rw [← h.party_eq] at hresponder
    exact hresponder
  obtain ⟨engine, hreconcile, hparty⟩ := Negentropy.reconcile_eq hinitiator hspells
    (Negentropy.Spells.ordered hspells hvalid)
  refine ⟨{ session with rounds := rounds + 1, engine }, ?_, ?_⟩
  · rw [Session.respond, h.accept_of_lt hrounds hlength hvalid]
    simp only [hreconcile, h.party_eq]
  · exact ⟨hparty.trans h.party_eq, h.limits_eq, rfl, h.unfinished⟩

theorem Stands.reconcile (h : session.Stands party limits rounds)
    (hinitiates : party.isInitiator = true) (hrounds : rounds < limits.maxRounds)
    (hlength : frame.length ≤ limits.maxFrameBytes)
    (hvalid : Validation.validate frame = .ok ()) (hspells : Spells frame ranges) :
    ∃ session', session.reconcile display frame =
        (.ok ⟨if (party.reply ranges).output = [] then none
            else some (encodeFrame (party.reply ranges).output),
          (party.reply ranges).haveIds, (party.reply ranges).needIds⟩, session') ∧
      ((party.reply ranges).output ≠ [] → session'.Stands party limits (rounds + 1)) := by
  have hinitiator : session.engine.isInitiator = true := by
    rw [← h.party_eq] at hinitiates
    exact hinitiates
  obtain ⟨engine, hreconcile, hparty⟩ := Negentropy.reconcileWithIds_eq hinitiator hspells
    (Negentropy.Spells.ordered hspells hvalid)
  rw [h.party_eq] at hreconcile
  refine ⟨{ session with
    rounds := rounds + 1, engine
    finished := (if (party.reply ranges).output = [] then none
      else some (encodeFrame (party.reply ranges).output)).isNone }, ?_, ?_⟩
  · rw [Session.reconcile, h.accept_of_lt hrounds hlength hvalid]
    simp only [hreconcile]
  · intro hne
    refine ⟨hparty.trans h.party_eq, h.limits_eq, rfl, ?_⟩
    simp only [if_neg hne, Option.isNone_some]

end Answers

/-! ## Rounds -/

/-- The sessions have talked for a number of rounds, and there is a frame to answer. -/
structure Talking (pair : Pair) (first : Pair.Talk) (limitsA limitsB : Limits) (rounds : ℕ)
    (a b : Session) (frame : List UInt8) (haveIds : List Id) (needIds : Multiset Id) : Prop where
  a : a.Stands pair.A limitsA (rounds + 1)
  b : b.Stands pair.B limitsB rounds
  frame_eq : frame = encodeFrame (pair.talkAfter first rounds).frame
  length_le : frame.length ≤ limitsB.maxFrameBytes
  haveIds_eq : haveIds = (pair.talkAfter first rounds).haveIds
  needIds_eq : needIds = (pair.talkAfter first rounds).needIds
  goes : rounds = 0 ∨ (pair.talkAfter first rounds).frame ≠ []

/-- The limits of the two sides fit together. -/
structure Agree (pair : Pair) (limitsA limitsB : Limits) : Prop where
  limitA : pair.A.frameSizeLimit = limitsA.maxFrameBytes
  limitB : pair.B.frameSizeLimit = limitsA.maxFrameBytes
  same : limitsB.maxFrameBytes = limitsA.maxFrameBytes
  low : 4096 ≤ limitsA.maxFrameBytes
  high : limitsA.maxFrameBytes ≤ u64Max

variable {pair : Pair} {first : Pair.Talk} {limitsA limitsB : Limits} {rounds : ℕ} {a b : Session} {frame : List UInt8}
  {haveIds : List Id} {needIds : Multiset Id}

/-- The conversation has not gone on for longer than it can. -/
theorem Talking.rounds_le (hopens : pair.Opens first)
    (h : Talking pair first limitsA limitsB rounds a b frame haveIds needIds) :
    rounds ≤ (pair.total + 1) * (pair.total + 1) := by
  rcases h.goes with rfl | hne
  · exact Nat.zero_le _
  · by_contra hlt
    exact hne (hopens.frame_rounds_eq_nil (not_le.mp hlt))

/-- How a round goes: a side is at its limit, the initiator has nothing more to say, or there is a
next frame. -/
inductive Round (pair : Pair) (first : Pair.Talk) (limitsA limitsB : Limits) (rounds : ℕ)
    (a b : Session) (frame : List UInt8) (haveIds : List Id) (needIds : Multiset Id) : Prop
  | respondRefused (hrespond : b.respond display frame = (.error roundLimit, b))
      (hlimit : limitsB.maxRounds ≤ rounds)
  | reconcileRefused (answer : List UInt8) (b' : Session)
      (hrespond : b.respond display frame = (.ok answer, b'))
      (hreconcile : a.reconcile display answer = (.error roundLimit, a))
      (hlimit : limitsA.maxRounds ≤ rounds + 1)
  | done (answer : List UInt8) (a' b' : Session) (have' : List Id) (need' : Multiset Id)
      (hrespond : b.respond display frame = (.ok answer, b'))
      (hreconcile : a.reconcile display answer = (.ok ⟨none, have', need'⟩, a'))
      (hframe : (pair.talkAfter first (rounds + 1)).frame = [])
      (hhave : haveIds ++ have' = (pair.talkAfter first (rounds + 1)).haveIds)
      (hneed : needIds + need' = (pair.talkAfter first (rounds + 1)).needIds)
  | goes (answer next : List UInt8) (a' b' : Session) (have' : List Id) (need' : Multiset Id)
      (hrespond : b.respond display frame = (.ok answer, b'))
      (hreconcile : a.reconcile display answer = (.ok ⟨some next, have', need'⟩, a'))
      (htalking : Talking pair first limitsA limitsB (rounds + 1) a' b' next (haveIds ++ have')
        (needIds + need'))

theorem Talking.round (hagree : Agree pair limitsA limitsB) (hopens : pair.Opens first)
    (h : Talking pair first limitsA limitsB rounds a b frame haveIds needIds) :
    Round display pair first limitsA limitsB rounds a b frame haveIds needIds := by
  have hkept := hopens.kept_talkAfter rounds
  obtain ⟨hanswer, hanswerEnds⟩ := Party.truthful_reply pair.limitB hkept.truthful.ordered hkept.ends
  have hlow := hagree.low
  have hhigh := hagree.high
  have hsame := hagree.same
  have hframe := h.length_le
  have hspells := spells_encodeFrame hkept.truthful.ordered (by rw [← h.frame_eq]; omega)
  rw [← h.frame_eq] at hspells
  have hvalid := hspells.validate hkept.truthful.ordered (by omega)
  have hanswerLength := pair.B.length_reply_le (by rw [hagree.limitB]; exact hlow)
    (by rw [hagree.limitB]; exact hhigh) (pair.talkAfter first rounds).frame
  rw [hagree.limitB] at hanswerLength
  -- The answering side may be at its round limit, then the asking one; otherwise the round is that
  -- of the abstract dialogue.
  by_cases hlimitB : limitsB.maxRounds ≤ rounds
  · refine .respondRefused ?_ hlimitB
    rw [respond, h.b.accept_of_le hlimitB]
  obtain ⟨b', hrespond, hb'⟩ := h.b.respond display pair.responds (not_le.mp hlimitB) hframe hvalid
    hspells
  by_cases hlimitA : limitsA.maxRounds ≤ rounds + 1
  · refine .reconcileRefused _ b' hrespond ?_ hlimitA
    rw [reconcile, h.a.accept_of_le hlimitA]
  have hspells' := spells_encodeFrame hanswer.ordered (hanswerLength.trans hhigh)
  have hvalid' := hspells'.validate hanswer.ordered (hanswerLength.trans hhigh)
  obtain ⟨a', hreconcile, ha'⟩ := h.a.reconcile display pair.initiates (not_le.mp hlimitA)
    hanswerLength hvalid' hspells'
  have hnext : pair.talkAfter first (rounds + 1) =
      Pair.Talk.next pair (pair.talkAfter first rounds) := Function.iterate_succ_apply' _ _ _
  have hhave : haveIds ++ (pair.A.reply (pair.B.reply (pair.talkAfter first rounds).frame).output).haveIds
      = (pair.talkAfter first (rounds + 1)).haveIds := by
    rw [hnext, h.haveIds_eq]
    rfl
  have hneed : needIds + (pair.A.reply (pair.B.reply (pair.talkAfter first rounds).frame).output).needIds
      = (pair.talkAfter first (rounds + 1)).needIds := by
    rw [hnext, h.needIds_eq]
    rfl
  -- An empty answer ends the dialogue.
  by_cases hnil : (pair.A.reply (pair.B.reply (pair.talkAfter first rounds).frame).output).output = []
  · rw [if_pos hnil] at hreconcile
    refine .done _ a' b' _ _ hrespond hreconcile ?_ hhave hneed
    rw [hnext]
    exact hnil
  · rw [if_neg hnil] at hreconcile
    have hnextLength := pair.A.length_reply_le (by rw [hagree.limitA]; exact hlow)
      (by rw [hagree.limitA]; exact hhigh) (pair.B.reply (pair.talkAfter first rounds).frame).output
    rw [hagree.limitA] at hnextLength
    refine .goes _ _ a' b' _ _ hrespond hreconcile
      ⟨ha' hnil, hb', ?_, hnextLength.trans hsame.ge, hhave, hneed, .inr ?_⟩
    · rw [hnext]
      rfl
    · rw [hnext]
      exact hnil

/-- What a conversation comes to: the limit of a side, or the differences. -/
def Exact (pair : Pair) (limitsA limitsB : Limits) (rounds : ℕ) : Outcome → Prop
  | .running => rounds ≤ (pair.total + 1) * (pair.total + 1)
  | .done haveIds needIds => ∀ id,
      (id ∈ haveIds ↔
          id ∈ pair.A.snapshot.items.map Item.id ∧ id ∉ pair.B.snapshot.items.map Item.id) ∧
        (id ∈ needIds ↔
          id ∈ pair.B.snapshot.items.map Item.id ∧ id ∉ pair.A.snapshot.items.map Item.id)
  | .failed error => error = roundLimit ∧
      (limitsA.maxRounds ≤ (pair.total + 1) * (pair.total + 1) + 1 ∨
        limitsB.maxRounds ≤ (pair.total + 1) * (pair.total + 1))

/-- A conversation ends at a limit or with the differences. -/
theorem Talking.converse (hagree : Agree pair limitsA limitsB) (hopens : pair.Opens first)
    (h : Talking pair first limitsA limitsB rounds a b frame haveIds needIds) (more : ℕ) :
    Exact pair limitsA limitsB (rounds + more)
      (converse display more a b frame haveIds needIds) := by
  induction more generalizing rounds a b frame haveIds needIds with
  | zero => exact h.rounds_le hopens
  | succ more ih =>
    have hrounds := h.rounds_le hopens
    rw [Session.converse]
    cases h.round display hagree hopens with
    | respondRefused hrespond hlimit =>
      simp only [hrespond]
      exact ⟨rfl, .inr (hlimit.trans hrounds)⟩
    | reconcileRefused answer b' hrespond hreconcile hlimit =>
      simp only [hrespond, hreconcile]
      exact ⟨rfl, .inl (hlimit.trans (Nat.succ_le_succ hrounds))⟩
    | done answer a' b' have' need' hrespond hreconcile hframe hhave hneed =>
      simp only [hrespond, hreconcile, hhave, hneed]
      exact (hopens.kept_talkAfter (rounds + 1)).exact hframe
    | goes answer next a' b' have' need' hrespond hreconcile htalking =>
      simp only [hrespond, hreconcile]
      have hrest := ih htalking
      rwa [Nat.succ_add_eq_add_succ] at hrest

/-! ## Two new sessions -/

theorem splitBuckets_congr {p q : Party} (hsha256 : p.sha256 = q.sha256)
    (hsnapshot : p.snapshot = q.snapshot) (numElems upper : ℕ) (upperBound : Bound) (is : List ℕ)
    (curr : ℕ) : p.splitBuckets numElems upper upperBound is curr =
      q.splitBuckets numElems upper upperBound is curr := by
  induction is generalizing curr with
  | nil => rfl
  | cons i is ih =>
    rw [Party.splitBuckets, Party.splitBuckets, ih]
    simp only [Party.bucketBound, Party.fingerprint, hsha256, hsnapshot]

/-- The first frame does not depend on who sends it. -/
theorem initiate_congr {p q : Party} (hsha256 : p.sha256 = q.sha256)
    (hsnapshot : p.snapshot = q.snapshot) : p.initiate = q.initiate := by
  rw [Party.initiate, Party.initiate, Party.splitRange, Party.splitRange, hsnapshot,
    splitBuckets_congr hsha256 hsnapshot, Party.ids, Party.ids, hsnapshot]

variable {sha256 : List UInt8 → List.Vector UInt8 32} {recordsA recordsB : List Record}
  {filter : Filter}

/-- The parties of two new sessions. -/
def pairOf (hA : Fresh sha256 recordsA filter limitsA a) (hB : Fresh sha256 recordsB filter limitsB b)
    (hsame : ∀ x ∈ recordsA, ∀ y ∈ recordsB, x.id = y.id → x.timestamp = y.timestamp)
    (hinjective : ∀ start stop,
      fingerprintOf sha256 (a.engine.storage.between start stop) =
          fingerprintOf sha256 (b.engine.storage.between start stop) →
        a.engine.storage.between start stop = b.engine.storage.between start stop) : Pair where
  A := { a.engine.party with isInitiator := true }
  B := b.engine.party
  initiates := rfl
  responds := hB.isInitiator_eq
  sha256_eq := hB.sha256_eq.trans hA.sha256_eq.symm
  same_record x hx y hy hid := by
    obtain ⟨record, hrecord, -, htime, hrecordId⟩ := (hA.mem_storage x).mp hx
    obtain ⟨record', hrecord', -, htime', hrecordId'⟩ := (hB.mem_storage y).mp hy
    have htimestamp := hsame record hrecord record' hrecord'
      (hrecordId.symm.trans (hid.trans hrecordId'))
    exact Item.ext (htime.trans (htimestamp.trans htime'.symm)) hid
  fingerprint_injective start stop h := by
    have hsha256 : a.engine.party.sha256 = sha256 := hA.sha256_eq
    exact hinjective start stop (by rw [← hsha256]; exact h)
  limitA := a.engine.party_limit
  limitB := b.engine.party_limit

theorem agree_pairOf (hA : Fresh sha256 recordsA filter limitsA a)
    (hB : Fresh sha256 recordsB filter limitsB b) (hframe : limitsB.maxFrameBytes = limitsA.maxFrameBytes)
    (hsame : ∀ x ∈ recordsA, ∀ y ∈ recordsB, x.id = y.id → x.timestamp = y.timestamp)
    (hinjective : ∀ start stop,
      fingerprintOf sha256 (a.engine.storage.between start stop) =
          fingerprintOf sha256 (b.engine.storage.between start stop) →
        a.engine.storage.between start stop = b.engine.storage.between start stop) :
    Agree (pairOf hA hB hsame hinjective) limitsA limitsB := by
  have hvalid := hA.valid
  rw [Limits.Invalid] at hvalid
  have hsmall : 65536 ≤ u64Max := by decide
  exact ⟨hA.frameSizeLimit_eq, hB.frameSizeLimit_eq.trans hframe, hframe, by omega, by omega⟩

/-- The initiator's first frame. -/
theorem initiate_eq (hA : Fresh sha256 recordsA filter limitsA a)
    (hB : Fresh sha256 recordsB filter limitsB b) (hframe : limitsB.maxFrameBytes = limitsA.maxFrameBytes)
    (hsame : ∀ x ∈ recordsA, ∀ y ∈ recordsB, x.id = y.id → x.timestamp = y.timestamp)
    (hinjective : ∀ start stop,
      fingerprintOf sha256 (a.engine.storage.between start stop) =
          fingerprintOf sha256 (b.engine.storage.between start stop) →
        a.engine.storage.between start stop = b.engine.storage.between start stop) :
    ∃ frame a', a.initiate display = (.ok frame, a') ∧
      Talking (pairOf hA hB hsame hinjective) (Pair.Talk.first (pairOf hA hB hsame hinjective))
        limitsA limitsB 0 a' b frame [] 0 := by
  have hvalid := hA.valid
  rw [Limits.Invalid] at hvalid
  have hrounds : ¬ (a.finished = true ∨ a.limits.maxRounds ≤ a.rounds) := by
    rw [hA.unfinished, hA.limits_eq, hA.rounds_eq]
    simp only [Bool.false_eq_true, false_or]
    omega
  have htick : a.tick = (.ok (), { a with rounds := a.rounds + 1 }) := if_neg hrounds
  obtain ⟨last, hinitiate⟩ := Negentropy.initiate_eq hA.isInitiator_eq hA.lastTimestampOut_eq
  have hsent : a.engine.party.initiate = (pairOf hA hB hsame hinjective).A.initiate :=
    initiate_congr rfl rfl
  refine ⟨encodeFrame (pairOf hA hB hsame hinjective).A.initiate, { a with
    rounds := a.rounds + 1
    engine := { a.engine with isInitiator := true, lastTimestampOut := last } }, ?_, ?_⟩
  · rw [initiate, htick]
    simp only [hinitiate, hsent]
  · refine ⟨⟨rfl, hA.limits_eq, ?_, hA.unfinished⟩, ⟨rfl, hB.limits_eq, hB.rounds_eq, hB.unfinished⟩,
      rfl, ?_, rfl, rfl, .inl rfl⟩
    · rw [hA.rounds_eq]
    · have hlimit : (pairOf hA hB hsame hinjective).A.frameSizeLimit = limitsA.maxFrameBytes :=
        hA.frameSizeLimit_eq
      have hlength := (pairOf hA hB hsame hinjective).A.length_initiate_le
        (by rw [hlimit]; omega)
      rw [hlimit] at hlength
      exact hlength.trans hframe.ge

end Session

open Session

/-- Two new sessions over the same window list exactly the differences. The conversation fails at the
round limit of a side only, and a limit of more than `(total + 1) ^ 2 + 1` rounds is out of reach; as
long as neither limit is reached, it ends. -/
theorem reconciliation_exact {sha256 : List UInt8 → List.Vector UInt8 32} {display : Error → String}
    {recordsA recordsB : List Record} {filter : Filter} {limitsA limitsB : Limits} {a b : Session}
    (hA : Session.new sha256 display recordsA filter limitsA = .ok a)
    (hB : Session.new sha256 display recordsB filter limitsB = .ok b)
    (hframe : limitsB.maxFrameBytes = limitsA.maxFrameBytes)
    (hsame : ∀ x ∈ recordsA, ∀ y ∈ recordsB, x.id = y.id → x.timestamp = y.timestamp)
    (hinjective : ∀ start stop,
      fingerprintOf sha256 (a.engine.storage.between start stop) =
          fingerprintOf sha256 (b.engine.storage.between start stop) →
        a.engine.storage.between start stop = b.engine.storage.between start stop) :
    let total := a.engine.storage.items.length + b.engine.storage.items.length
    ∃ frame a', a.initiate display = (.ok frame, a') ∧ ∀ rounds,
      match converse display rounds a' b frame [] 0 with
      | .running => rounds ≤ (total + 1) * (total + 1)
      | .done haveIds needIds => ∀ id,
          (id ∈ haveIds ↔ InWindow recordsA filter id ∧ ¬ InWindow recordsB filter id) ∧
            (id ∈ needIds ↔ InWindow recordsB filter id ∧ ¬ InWindow recordsA filter id)
      | .failed error => error = roundLimit ∧
          (limitsA.maxRounds ≤ (total + 1) * (total + 1) + 1 ∨
            limitsB.maxRounds ≤ (total + 1) * (total + 1)) := by
  have hfreshA := fresh_of_new hA
  have hfreshB := fresh_of_new hB
  obtain ⟨frame, a', hinitiate, htalking⟩ := initiate_eq display hfreshA hfreshB hframe hsame
    hinjective
  have hagree := agree_pairOf hfreshA hfreshB hframe hsame hinjective
  refine ⟨frame, a', hinitiate, fun rounds => ?_⟩
  have hconverse := htalking.converse display hagree Pair.opens_first rounds
  rw [Nat.zero_add] at hconverse
  generalize converse display rounds a' b frame [] 0 = outcome at hconverse ⊢
  cases outcome with
  | running => exact hconverse
  | failed error => exact hconverse
  | done haveIds needIds =>
    intro id
    rw [← hfreshA.mem_ids, ← hfreshB.mem_ids]
    exact hconverse id

def sampleRecord (timestamp : ℕ) (byte : UInt8) : Record := ⟨timestamp, List.Vector.replicate 32 byte⟩

def sampleWindow : Filter := ⟨0, 100, by decide⟩

/-- A session over some sample records, if it is accepted. -/
def sampleSession (records : List Record) : Except String Session :=
  Session.new firstBytes (fun _ => "") records sampleWindow {}

def sampleA : List Record := [sampleRecord 7 2, sampleRecord 5 1]

def sampleB : List Record := [sampleRecord 7 2, sampleRecord 7 4]

/-- The fingerprints of the records that the two samples can have in a range tell them apart. -/
def Distinguished (a b : Session) : Prop :=
  ∀ items ∈ a.engine.storage.items.sublists, ∀ items' ∈ b.engine.storage.items.sublists,
    fingerprintOf firstBytes items = fingerprintOf firstBytes items' → items = items'
  deriving Decidable

theorem samples_distinguished :
    ((sampleSession sampleA).toOption.all fun a => (sampleSession sampleB).toOption.all fun b =>
      decide (Distinguished a b)) = true := by
  decide +kernel

theorem exists_sample {records : List Record}
    (h : (sampleSession records).toOption.isSome = true) :
    ∃ session, sampleSession records = .ok session := by
  obtain ⟨session, hsession⟩ := Option.isSome_iff_exists.mp h
  exact ⟨session, Except.toOption_eq_some.mp hsession⟩

/-- Both samples are accepted. -/
theorem exists_samples : ∃ a b, sampleSession sampleA = .ok a ∧ sampleSession sampleB = .ok b ∧
    Distinguished a b := by
  obtain ⟨a, ha⟩ := exists_sample (show (sampleSession sampleA).toOption.isSome = true by
    decide +kernel)
  obtain ⟨b, hb⟩ := exists_sample (show (sampleSession sampleB).toOption.isSome = true by
    decide +kernel)
  have h := samples_distinguished
  rw [ha, hb] at h
  exact ⟨a, b, ha, hb, of_decide_eq_true h⟩

theorem samples_agree : ∀ x ∈ sampleA, ∀ y ∈ sampleB, x.id = y.id → x.timestamp = y.timestamp := by
  decide +kernel

/-- The ids that only one of the samples has. -/
theorem samples_differ :
    (InWindow sampleA sampleWindow (List.Vector.replicate 32 1) ∧
        ¬ InWindow sampleB sampleWindow (List.Vector.replicate 32 1)) ∧
      InWindow sampleB sampleWindow (List.Vector.replicate 32 4) ∧
        ¬ InWindow sampleA sampleWindow (List.Vector.replicate 32 4) := by
  unfold InWindow
  decide +kernel

theorem reconciliation_exact_sample : ∃ a b, sampleSession sampleA = .ok a ∧
    sampleSession sampleB = .ok b ∧ ∃ frame a', a.initiate (fun _ => "") = (.ok frame, a') ∧
      ∀ rounds haveIds needIds,
        converse (fun _ => "") rounds a' b frame [] 0 = .done haveIds needIds →
          List.Vector.replicate 32 1 ∈ haveIds ∧ List.Vector.replicate 32 4 ∈ needIds := by
  obtain ⟨a, b, ha, hb, hdistinguished⟩ := exists_samples
  obtain ⟨frame, a', hinitiate, hconverse⟩ := reconciliation_exact ha hb rfl samples_agree
    fun start stop h => hdistinguished _ (List.mem_sublists.mpr List.filter_sublist) _
      (List.mem_sublists.mpr List.filter_sublist) h
  refine ⟨a, b, ha, hb, frame, a', hinitiate, fun rounds haveIds needIds hdone => ?_⟩
  have hexact := hconverse rounds
  rw [hdone] at hexact
  exact ⟨(hexact _).1.mpr samples_differ.1, (hexact _).2.mpr samples_differ.2⟩

end NostrPubsub.Reconcile
