import NostrPubsub.Reconcile.Interop

/-!
# Sessions on different engines

Who runs which engine makes no difference: two sessions over the same window list exactly the
differences, also when one of them or both are a browser's, and also when a browser begins with one
fingerprint over everything instead of the first frame of the native side (`mixed_exact`).

A browser's session has a native one that is at the same point of the conversation (`Shadows`), so a
dialogue of two sides is the conversation of their shadows (`Talking.dialogue_eq`).
-/

namespace NostrPubsub.Reconcile

open Browser Session

/-- The implementations of a session. -/
inductive Platform where
  | native
  | browser

/-- A session on one of the implementations. -/
inductive Side where
  | native (session : Session)
  | browser (peer : Reconciliation)

/-- What a dialogue comes to. -/
inductive Verdict where
  /-- There is still a frame to answer. -/
  | running
  /-- The initiator has no more to say, and this is what it listed. -/
  | done (haveIds : List (List UInt8)) (needIds : Multiset (List UInt8))
  /-- A side did not answer. -/
  | refused

namespace Side

variable (sha256 : List UInt8 → List.Vector UInt8 32) (display : Error → String)

/-- The constructor of an implementation. -/
def new (records : List Record) (filter : Filter) (limits : Limits) :
    Platform → Except String Side
  | .native => (Session.new sha256 display records filter limits).map .native
  | .browser => (Reconciliation.new (records.map ReconciliationRecord.ofRecord)
      (ReconciliationFilter.ofFilter filter) (ReconciliationLimits.ofLimits limits)).map .browser

/-- The first frame. Only the browser can be asked to begin with one fingerprint. -/
def initiate (fingerprintFirst : Bool) : Side → Except String (List UInt8) × Side
  | .native session => Prod.map id .native (session.initiate display)
  | .browser peer => Prod.map id .browser (peer.initiate sha256 fingerprintFirst)

/-- A call of a side. -/
def call (request : Call) : Side → Option Said × Side
  | .native session => Prod.map id .native (Session.call display request session)
  | .browser peer => Prod.map id .browser (Reconciliation.call sha256 request peer)

/-- A number of rounds: the responder answers a frame and the initiator answers the answer. -/
def dialogue : ℕ → (a b : Side) → (frame : List UInt8) → List (List UInt8) →
    Multiset (List UInt8) → Verdict
  | 0, _, _, _, _, _ => .running
  | rounds + 1, a, b, frame, haveIds, needIds =>
    match b.call sha256 display (.respond frame) with
    | (some ⟨some answer, _, _⟩, b) =>
      match a.call sha256 display (.reconcile answer) with
      | (some ⟨some frame, haveIds', needIds'⟩, a) =>
        dialogue rounds a b frame (haveIds ++ haveIds') (needIds + needIds')
      | (some ⟨none, haveIds', needIds'⟩, _) => .done (haveIds ++ haveIds') (needIds + needIds')
      | (none, _) => .refused
    | _ => .refused

end Side

/-- What the sides of a conversation see of its outcome. -/
def Session.Outcome.verdict : Outcome → Verdict
  | .running => .running
  | .done haveIds needIds =>
    .done (haveIds.map List.Vector.toList) (needIds.map List.Vector.toList)
  | .failed _ => .refused

/-- The native session that a side is, or that is at the same point. -/
inductive Shadows (sha256 : List UInt8 → List.Vector UInt8 32) : Side → Session → Prop
  | native (session : Session) : Shadows sha256 (.native session) session
  | browser {session : Session} {peer : Reconciliation} (h : Mirrors sha256 session peer) :
      Shadows sha256 (.browser peer) session

variable {sha256 : List UInt8 → List.Vector UInt8 32} {display : Error → String} {side : Side}
  {session : Session}

theorem Shadows.respond (h : Shadows sha256 side session)
    (hresponder : session.engine.isInitiator = false) (frame : List UInt8) :
    ∃ side', side.call sha256 display (.respond frame) =
        ((Session.call display (.respond frame) session).1, side') ∧
      Shadows sha256 side' (Session.call display (.respond frame) session).2 := by
  cases h with
  | native => exact ⟨_, rfl, .native _⟩
  | browser h =>
    obtain ⟨hout, hnext, -⟩ := @Mirrors.respond _ _ display _ h hresponder frame
    refine ⟨_, ?_, .browser hnext⟩
    rw [hout]
    rfl

theorem Shadows.reconcile (h : Shadows sha256 side session)
    (hinitiator : session.engine.isInitiator = true) (frame : List UInt8) :
    ∃ side', side.call sha256 display (.reconcile frame) =
        ((Session.call display (.reconcile frame) session).1, side') ∧
      Shadows sha256 side' (Session.call display (.reconcile frame) session).2 := by
  cases h with
  | native => exact ⟨_, rfl, .native _⟩
  | browser h =>
    obtain ⟨hout, hnext, -⟩ := @Mirrors.reconcile _ _ display _ h hinitiator frame
    refine ⟨_, ?_, .browser hnext⟩
    rw [hout]
    rfl

variable {pair : Pair} {first : Pair.Talk} {limitsA limitsB : Limits} {rounds : ℕ}
  {sideA sideB : Side} {a b : Session} {frame : List UInt8} {haveIds : List Id}
  {needIds : Multiset Id}

variable (display) in
/-- A dialogue goes as the conversation of the shadows does. -/
theorem Session.Talking.dialogue_eq (hagree : Agree pair limitsA limitsB)
    (hopens : pair.Opens first) (hA : Shadows sha256 sideA a) (hB : Shadows sha256 sideB b)
    (h : Talking pair first limitsA limitsB rounds a b frame haveIds needIds) (more : ℕ) :
    Side.dialogue sha256 display more sideA sideB frame (haveIds.map List.Vector.toList)
        (needIds.map List.Vector.toList) =
      (Session.converse display more a b frame haveIds needIds).verdict := by
  induction more generalizing rounds sideA sideB a b frame haveIds needIds with
  | zero => rfl
  | succ more ih =>
    have hinitiator : a.engine.isInitiator = true := by
      have hparty := congrArg Party.isInitiator h.a.party_eq
      exact hparty.trans pair.initiates
    have hresponder : b.engine.isInitiator = false := by
      have hparty := congrArg Party.isInitiator h.b.party_eq
      exact hparty.trans pair.responds
    obtain ⟨sideB', hcallB, hB'⟩ := @Shadows.respond _ display _ _ hB hresponder frame
    rw [Side.dialogue, Session.converse]
    cases h.round display hagree hopens with
    | respondRefused hrespond hlimit =>
      simp only [Session.call, hrespond, Except.toOption, Option.map_none] at hcallB
      simp only [hcallB, hrespond, Outcome.verdict]
    | reconcileRefused answer b' hrespond hreconcile hlimit =>
      obtain ⟨sideA', hcallA, hA'⟩ := @Shadows.reconcile _ display _ _ hA hinitiator answer
      simp only [Session.call, hrespond, Except.toOption, Option.map_some, Said.ofFrame] at hcallB
      simp only [Session.call, hreconcile, Except.toOption, Option.map_none] at hcallA
      simp only [hcallB, hcallA, hrespond, hreconcile, Outcome.verdict]
    | done answer a' b' have' need' hrespond hreconcile hframe hhave hneed =>
      obtain ⟨sideA', hcallA, hA'⟩ := @Shadows.reconcile _ display _ _ hA hinitiator answer
      simp only [Session.call, hrespond, Except.toOption, Option.map_some, Said.ofFrame] at hcallB
      simp only [Session.call, hreconcile, Except.toOption, Option.map_some] at hcallA
      simp only [hcallB, hcallA, hrespond, hreconcile, Outcome.verdict, List.map_append,
        Multiset.map_add]
    | goes answer next a' b' have' need' hrespond hreconcile htalking =>
      obtain ⟨sideA', hcallA, hA'⟩ := @Shadows.reconcile _ display _ _ hA hinitiator answer
      simp only [Session.call, hrespond, Except.toOption, Option.map_some, Said.ofFrame] at hcallB hB'
      simp only [Session.call, hreconcile, Except.toOption, Option.map_some] at hcallA hA'
      have hrest := ih hA' hB' htalking
      rw [List.map_append, Multiset.map_add] at hrest
      simp only [hcallB, hcallA, hrespond, hreconcile, hrest]

/-! ## Two new sides -/

/-- The records of the window between two places, in order. -/
def Windowed (records : List Record) (filter : Filter) (start stop : Place) (items : List Item) :
    Prop :=
  items.Pairwise (fun x y => x.position < y.position) ∧
    ∀ item, item ∈ items ↔ start ≤ item.position ∧ item.position < stop ∧ ∃ record ∈ records,
      filter.contains record.timestamp = true ∧ item.timestamp = record.timestamp ∧
        item.id = record.id

variable {records recordsA recordsB : List Record} {filter : Filter} {limits : Limits}

theorem Session.Fresh.windowed (h : Fresh sha256 records filter limits session)
    (start stop : Place) : Windowed records filter start stop
      (session.engine.storage.between start stop) := by
  refine ⟨session.engine.storage.sorted.sublist List.filter_sublist, fun item => ?_⟩
  rw [Snapshot.mem_between, h.mem_storage]
  exact ⟨fun ⟨hmem, hle, hlt⟩ => ⟨hle, hlt, hmem⟩, fun ⟨hle, hlt, hmem⟩ => ⟨hmem, hle, hlt⟩⟩

/-- There is one such list. -/
theorem Windowed.unique {start stop : Place} {xs ys : List Item}
    (hx : Windowed records filter start stop xs) (hy : Windowed records filter start stop ys) :
    xs = ys := by
  have hnodup : ∀ {items : List Item}, items.Pairwise (fun x y => x.position < y.position) →
      items.Nodup := fun h => h.imp fun hlt heq => absurd (heq ▸ hlt) (lt_irrefl _)
  have hperm : xs.Perm ys := (List.perm_ext_iff_of_nodup (hnodup hx.1) (hnodup hy.1)).mpr
    fun item => (hx.2 item).trans (hy.2 item).symm
  exact hperm.eq_of_pairwise (fun x y _ _ hlt hgt => absurd (hlt.trans hgt) (lt_irrefl _)) hx.1 hy.1

theorem exists_shadow {platform : Platform}
    (h : Side.new sha256 display records filter limits platform = .ok side) :
    ∃ session, Fresh sha256 records filter limits session ∧ Shadows sha256 side session := by
  cases platform with
  | native =>
    obtain ⟨session, hsession, rfl⟩ := Except.map_eq_ok.mp h
    exact ⟨session, fresh_of_new hsession, .native _⟩
  | browser =>
    obtain ⟨peer, hpeer, rfl⟩ := Except.map_eq_ok.mp h
    obtain ⟨session, hsession, hmirrors, -⟩ := @mirrors_of_new _ display _ _ _ _ hpeer
    exact ⟨session, fresh_of_new hsession, .browser hmirrors⟩

theorem Session.Fresh.not_spent (h : Fresh sha256 records filter limits session) :
    ¬ Spent session := by
  have hvalid := h.valid
  rw [Limits.Invalid] at hvalid
  rintro (hfinished | hrounds)
  · rw [h.unfinished] at hfinished
    cases hfinished
  · rw [h.limits_eq, h.rounds_eq] at hrounds
    omega

/-- The windows hold no more records than there are. -/
theorem Session.Fresh.length_le (h : Fresh sha256 records filter limits session) :
    session.engine.storage.items.length ≤ records.length := by
  have hsubset : ∀ id ∈ session.engine.storage.items.map Item.id, id ∈ records.map Record.id := by
    intro id hid
    obtain ⟨record, hrecord, -, rfl⟩ := (h.mem_ids id).mp hid
    exact List.mem_map_of_mem hrecord
  have hlength := (session.engine.storage.nodup.subperm hsubset).length_le
  rwa [List.length_map, List.length_map] at hlength

/-- A side begins with the first frame of its party, or with one fingerprint. -/
theorem Shadows.initiate (hfresh : Fresh sha256 records filter limits session)
    (h : Shadows sha256 side session) (fingerprintFirst : Bool) :
    ∃ ranges side' session', side.initiate sha256 display fingerprintFirst =
        (.ok (encodeFrame ranges), side') ∧
      (ranges = session.engine.party.initiate ∨ ranges = [session.engine.party.tail 0]) ∧
      Shadows sha256 side' session' ∧
      session'.Stands { session.engine.party with isInitiator := true } limits 1 := by
  have hrounds : session.rounds + 1 = 1 := by rw [hfresh.rounds_eq]
  cases h with
  | native =>
    obtain ⟨last, hinitiate⟩ :=
      Negentropy.initiate_eq hfresh.isInitiator_eq hfresh.lastTimestampOut_eq
    refine ⟨_, .native { session with
      rounds := session.rounds + 1
      engine := { session.engine with isInitiator := true, lastTimestampOut := last } }, _, ?_,
      .inl rfl, .native _, rfl, hfresh.limits_eq, hrounds, hfresh.unfinished⟩
    simp only [Side.initiate, Session.initiate, tick_of_not_spent hfresh.not_spent, hinitiate,
      Prod.map_apply, id_eq]
  | @browser _ peer h =>
    have hresponder : ¬ peer.initiator = true := by
      rw [h.plays.initiator.trans hfresh.isInitiator_eq]
      exact Bool.false_ne_true
    -- The browser counts the round and marks itself busy before it builds the frame.
    have hplays : Reconciliation.Plays { peer with rounds := peer.rounds + 1, busy := true }
        session.engine.party :=
      ⟨h.plays.shows, h.plays.length_le, h.plays.frameBytes, h.plays.limit, h.plays.initiator⟩
    have hcases := hplays.firstFrame_cases fingerprintFirst
    rw [h.sha256_eq] at hcases
    have hnext : Mirrors sha256 { session with
        rounds := session.rounds + 1, engine := { session.engine with isInitiator := true } }
        { peer with rounds := peer.rounds + 1, initiator := true, busy := false } :=
      { h.counted with
        sha256_eq := h.sha256_eq
        plays := ⟨h.plays.shows, h.plays.length_le, h.plays.frameBytes, h.plays.limit, rfl⟩ }
    have hstands : Stands { session with
        rounds := session.rounds + 1, engine := { session.engine with isInitiator := true } }
        { session.engine.party with isInitiator := true } limits 1 :=
      ⟨rfl, hfresh.limits_eq, hrounds, hfresh.unfinished⟩
    have hinitiate : ∀ frame, Reconciliation.firstFrame sha256
        { peer with rounds := peer.rounds + 1, busy := true } fingerprintFirst = .ok frame →
        (Side.browser peer).initiate sha256 display fingerprintFirst = (.ok frame,
          .browser { peer with rounds := peer.rounds + 1, initiator := true, busy := false }) := by
      intro frame hframe
      simp only [Side.initiate, Reconciliation.initiate, if_neg hresponder,
        h.enter_of_not_spent hfresh.not_spent, hframe, Prod.map_apply, id_eq]
    rcases hcases with hframe | hframe
    · exact ⟨_, _, _, hinitiate _ hframe, .inl rfl, .browser hnext, hstands⟩
    · exact ⟨_, _, _, hinitiate _ hframe, .inr rfl, .browser hnext, hstands⟩

/-- Two sides over the same window list exactly the differences, whichever engine each of them runs on
and however a browser begins. A side refuses to answer at its round limit only, which a limit of more
than `(total + 1) ^ 2 + 1` rounds puts out of reach; as long as no limit is reached, the dialogue
ends. -/
theorem mixed_exact {platformA platformB : Platform} {sideA sideB : Side} (fingerprintFirst : Bool)
    (hA : Side.new sha256 display recordsA filter limitsA platformA = .ok sideA)
    (hB : Side.new sha256 display recordsB filter limitsB platformB = .ok sideB)
    (hframe : limitsB.maxFrameBytes = limitsA.maxFrameBytes)
    (hsame : ∀ x ∈ recordsA, ∀ y ∈ recordsB, x.id = y.id → x.timestamp = y.timestamp)
    (hinjective : ∀ start stop xs ys, Windowed recordsA filter start stop xs →
      Windowed recordsB filter start stop ys →
        fingerprintOf sha256 xs = fingerprintOf sha256 ys → xs = ys) :
    let total := recordsA.length + recordsB.length
    ∃ frame sideA', sideA.initiate sha256 display fingerprintFirst = (.ok frame, sideA') ∧
      ∀ rounds, match Side.dialogue sha256 display rounds sideA' sideB frame [] 0 with
        | .running => rounds ≤ (total + 1) * (total + 1)
        | .done haveIds needIds => ∀ bytes,
            (bytes ∈ haveIds ↔ ∃ id : Id, id.toList = bytes ∧
              InWindow recordsA filter id ∧ ¬ InWindow recordsB filter id) ∧
            (bytes ∈ needIds ↔ ∃ id : Id, id.toList = bytes ∧
              InWindow recordsB filter id ∧ ¬ InWindow recordsA filter id)
        | .refused => limitsA.maxRounds ≤ (total + 1) * (total + 1) + 1 ∨
            limitsB.maxRounds ≤ (total + 1) * (total + 1) := by
  -- Each side is shadowed by a native session over the same records, so that the dialogue is the
  -- one of two native sessions.
  obtain ⟨a, hfreshA, hshadowA⟩ := exists_shadow hA
  obtain ⟨b, hfreshB, hshadowB⟩ := exists_shadow hB
  have hapart : ∀ start stop,
      fingerprintOf sha256 (a.engine.storage.between start stop) =
          fingerprintOf sha256 (b.engine.storage.between start stop) →
        a.engine.storage.between start stop = b.engine.storage.between start stop :=
    fun start stop => hinjective start stop _ _ (hfreshA.windowed start stop)
      (hfreshB.windowed start stop)
  obtain ⟨ranges, sideA', a', hinitiate, hranges, hshadow, hstands⟩ :=
    @Shadows.initiate _ display _ _ _ _ _ hfreshA hshadowA fingerprintFirst
  refine ⟨_, sideA', hinitiate, fun rounds => ?_⟩
  have hagree := agree_pairOf hfreshA hfreshB hframe hsame hapart
  -- Either beginning, by ids or by a fingerprint first, opens the pair.
  obtain ⟨first, hopens, hfirst, hhave, hneed⟩ :
      ∃ first, (pairOf hfreshA hfreshB hsame hapart).Opens first ∧ first.frame = ranges ∧
        first.haveIds = [] ∧ first.needIds = 0 := by
    rcases hranges with rfl | rfl
    · exact ⟨_, Pair.opens_first, initiate_congr rfl rfl, rfl, rfl⟩
    · exact ⟨_, Pair.opens_asked, rfl, rfl, rfl⟩
  have hlength : (encodeFrame ranges).length ≤ limitsB.maxFrameBytes := by
    have hlimit : a.engine.party.frameSizeLimit = limitsA.maxFrameBytes := hfreshA.frameSizeLimit_eq
    have hlow := hagree.low
    rw [hframe, ← hlimit] at *
    rcases hranges with rfl | rfl
    · exact a.engine.party.length_initiate_le hlow
    · rw [encodeFrame, List.length_cons, encodeRanges_singleton, Party.length_encodeTail]
      omega
  have htalking : Talking (pairOf hfreshA hfreshB hsame hapart) first limitsA limitsB 0 a' b
      (encodeFrame ranges) [] 0 :=
    ⟨hstands, ⟨rfl, hfreshB.limits_eq, hfreshB.rounds_eq, hfreshB.unfinished⟩,
      congrArg encodeFrame hfirst.symm, hlength, hhave.symm, hneed.symm, .inl rfl⟩
  have hdialogue := htalking.dialogue_eq display hagree hopens hshadow hshadowB rounds
  rw [List.map_nil, Multiset.map_zero] at hdialogue
  have hconverse := htalking.converse display hagree hopens rounds
  -- A window holds no more than the records do, so the bound on the rounds carries over.
  have htotal : (pairOf hfreshA hfreshB hsame hapart).total ≤ recordsA.length + recordsB.length :=
    Nat.add_le_add hfreshA.length_le hfreshB.length_le
  have hsquare := Nat.mul_self_le_mul_self (Nat.succ_le_succ htotal)
  rw [hdialogue]
  rw [Nat.zero_add] at hconverse
  generalize Session.converse display rounds a' b (encodeFrame ranges) [] 0 = outcome at hconverse ⊢
  cases outcome with
  | running => exact hconverse.trans hsquare
  | failed error =>
    exact hconverse.2.imp (fun h => h.trans (Nat.succ_le_succ hsquare)) fun h => h.trans hsquare
  | done haveIds needIds =>
    intro bytes
    refine ⟨List.mem_map.trans (exists_congr fun id => ?_),
      Multiset.mem_map.trans (exists_congr fun id => ?_)⟩
    · rw [← hfreshA.mem_ids, ← hfreshB.mem_ids, and_comm]
      exact and_congr_right' (hconverse id).1
    · rw [← hfreshA.mem_ids, ← hfreshB.mem_ids, and_comm]
      exact and_congr_right' (hconverse id).2

theorem mixed_exact_sample : ∃ sideA sideB,
    Side.new firstBytes (fun _ => "") sampleA sampleWindow {} .browser = .ok sideA ∧
    Side.new firstBytes (fun _ => "") sampleB sampleWindow {} .native = .ok sideB ∧
    ∃ frame sideA', sideA.initiate firstBytes (fun _ => "") true = (.ok frame, sideA') ∧
      ∀ rounds haveIds needIds,
        Side.dialogue firstBytes (fun _ => "") rounds sideA' sideB frame [] 0 =
            .done haveIds needIds →
          List.replicate 32 1 ∈ haveIds ∧ List.replicate 32 4 ∈ needIds := by
  obtain ⟨a, b, ha, hb, hdistinguished⟩ := exists_samples
  have haccepted : samplePeer.toOption.isSome = true := by decide +kernel
  obtain ⟨peer, hpeer⟩ := Option.isSome_iff_exists.mp haccepted
  have hpeer := Except.toOption_eq_some.mp hpeer
  have hsideA : Side.new firstBytes (fun _ => "") sampleA sampleWindow {} .browser =
      .ok (.browser peer) := Except.map_eq_ok.mpr ⟨peer, hpeer, rfl⟩
  have hsideB : Side.new firstBytes (fun _ => "") sampleB sampleWindow {} .native =
      .ok (.native b) := Except.map_eq_ok.mpr ⟨b, hb, rfl⟩
  have hinjective : ∀ start stop xs ys, Windowed sampleA sampleWindow start stop xs →
      Windowed sampleB sampleWindow start stop ys →
        fingerprintOf firstBytes xs = fingerprintOf firstBytes ys → xs = ys := by
    intro start stop xs ys hxs hys
    rw [hxs.unique ((fresh_of_new ha).windowed start stop),
      hys.unique ((fresh_of_new hb).windowed start stop)]
    exact hdistinguished _ (List.mem_sublists.mpr List.filter_sublist) _
      (List.mem_sublists.mpr List.filter_sublist)
  obtain ⟨frame, sideA', hinitiate, hdialogue⟩ :=
    mixed_exact true hsideA hsideB rfl samples_agree hinjective
  refine ⟨_, _, hsideA, hsideB, frame, sideA', hinitiate, fun rounds haveIds needIds hdone => ?_⟩
  have hexact := hdialogue rounds
  rw [hdone] at hexact
  exact ⟨(hexact _).1.mpr ⟨_, rfl, samples_differ.1⟩, (hexact _).2.mpr ⟨_, rfl, samples_differ.2⟩⟩

end NostrPubsub.Reconcile
