import NostrPubsub.Reconcile.BrowserLoop
import NostrPubsub.Reconcile.Exactness
import NostrPubsub.ToMathlib.Mealy

/-!
# Both engines say the same

A session of the native side and one of the browser that were built from the same records, window and
limits are told apart by no sequence of frames: in either role they return the same bytes and the same
ids, refuse the same frames and finish at the same call (`browser_transcript_eq`).
-/

namespace NostrPubsub.Reconcile

/-- A call of a session. -/
inductive Call where
  | initiate
  | respond (frame : List UInt8)
  | reconcile (frame : List UInt8)

/-- The sides of a conversation. -/
inductive Role where
  | initiator
  | responder

/-- The calls of a side, by the frames that reach it. -/
def Role.calls (frames : List (List UInt8)) : Role → List Call
  | .initiator => .initiate :: frames.map .reconcile
  | .responder => frames.map .respond

/-- What a call returns to its caller. -/
structure Said where
  frame : Option (List UInt8)
  haveIds : List (List UInt8)
  needIds : Multiset (List UInt8)

/-- What is returned by a method that returns a frame. -/
def Said.ofFrame (frame : List UInt8) : Said := ⟨some frame, [], 0⟩

/-- A call of the native session, an error being no answer. -/
def Session.call (display : Error → String) : Call → Session → Option Said × Session
  | .initiate, self =>
    let (result, self) := self.initiate display
    (result.toOption.map Said.ofFrame, self)
  | .respond frame, self =>
    let (result, self) := self.respond display frame
    (result.toOption.map Said.ofFrame, self)
  | .reconcile frame, self =>
    let (result, self) := self.reconcile display frame
    (result.toOption.map fun step => ⟨step.next, step.haveIds.map List.Vector.toList,
      step.needIds.map List.Vector.toList⟩, self)

namespace Browser

/-- A call of the browser's session. -/
def Reconciliation.call (sha256 : List UInt8 → List.Vector UInt8 32) :
    Call → Reconciliation → Option Said × Reconciliation
  | .initiate, self =>
    let (result, self) := self.initiate sha256
    (result.toOption.map Said.ofFrame, self)
  | .respond frame, self =>
    let (result, self) := self.respond sha256 frame
    (result.toOption.map fun frame => ⟨frame, [], 0⟩, self)
  | .reconcile frame, self =>
    let (result, self) := self.reconcile sha256 frame
    (result.toOption.map fun step => ⟨step.next, step.haveIds, step.needIds⟩, self)

/-- A record of the native side, as it is given to the browser. -/
def ReconciliationRecord.ofRecord (record : Record) : ReconciliationRecord :=
  ⟨record.timestamp, record.id.toList⟩

def ReconciliationFilter.ofFilter (filter : Filter) : ReconciliationFilter :=
  ⟨filter.since, filter.until_⟩

def ReconciliationLimits.ofLimits (limits : Limits) : ReconciliationLimits where
  maxRecords := some (.integer limits.maxRecords)
  maxFrameBytes := some (.integer limits.maxFrameBytes)
  maxRounds := some (.integer limits.maxRounds)

/-- The two sessions are at the same point of the same conversation. -/
structure Mirrors (sha256 : List UInt8 → List.Vector UInt8 32) (session : Session)
    (peer : Reconciliation) : Prop where
  sha256_eq : session.engine.party.sha256 = sha256
  plays : peer.Plays session.engine.party
  frameBytes : peer.frameBytes = session.limits.maxFrameBytes
  small : peer.frameBytes ≤ u64Max
  maxRounds : peer.maxRounds = session.limits.maxRounds
  rounds : peer.rounds = session.rounds
  finished : peer.finished = session.finished
  idle : peer.busy = false

variable {session : Session} {peer : Reconciliation} {display : Error → String}
  {sha256 : List UInt8 → List.Vector UInt8 32} {frame : List UInt8}

/-! ## One call -/

/-- No round is left, on either side. -/
def Spent (session : Session) : Prop :=
  session.finished = true ∨ session.limits.maxRounds ≤ session.rounds

theorem tick_of_spent (h : Spent session) : session.tick = (.error Session.roundLimit, session) :=
  if_pos h

theorem tick_of_not_spent (h : ¬ Spent session) :
    session.tick = (.ok (), { session with rounds := session.rounds + 1 }) := if_neg h

theorem Mirrors.enter_of_spent (h : Mirrors sha256 session peer) (hspent : Spent session) :
    ∃ error, peer.enter = .error error := by
  rw [Reconciliation.enter, if_pos (.inr (by rwa [h.finished, h.maxRounds, h.rounds]))]
  exact ⟨_, rfl⟩

theorem Mirrors.enter_of_not_spent (h : Mirrors sha256 session peer) (hspent : ¬ Spent session) :
    peer.enter = .ok { peer with rounds := peer.rounds + 1, busy := true } := by
  rw [Reconciliation.enter, if_neg]
  rintro (hbusy | hlimit)
  · rw [h.idle] at hbusy
    cases hbusy
  · rw [h.finished, h.maxRounds, h.rounds] at hlimit
    exact hspent hlimit

/-- A frame is accepted by both or by neither. -/
theorem Mirrors.refuses_iff (h : Mirrors sha256 session peer) :
    (session.limits.maxFrameBytes < frame.length ∨ Validation.validate frame ≠ .ok ()) ↔
      (peer.frameBytes < frame.length ∨ validateFrame frame ≠ .ok ()) := by
  rw [h.frameBytes]
  refine or_congr_right' fun hfits => not_congr ?_
  have hsmall := h.small
  rw [h.frameBytes] at hsmall
  exact (validateFrame_iff ((not_lt.mp hfits).trans hsmall)).symm

theorem accept_of_refuses (hspent : ¬ Spent session)
    (h : session.limits.maxFrameBytes < frame.length ∨ Validation.validate frame ≠ .ok ()) :
    ∃ error, session.accept frame = (.error error, { session with rounds := session.rounds + 1 }) := by
  rw [Session.accept, tick_of_not_spent hspent]
  simp only
  split
  · exact ⟨_, rfl⟩
  · next hfits =>
    cases hvalid : Validation.validate frame with
    | error error => exact ⟨error, rfl⟩
    | ok _ => exact absurd hvalid (h.resolve_left hfits)

theorem accept_of_accepts (hspent : ¬ Spent session)
    (hlength : frame.length ≤ session.limits.maxFrameBytes)
    (hvalid : Validation.validate frame = .ok ()) :
    session.accept frame = (.ok (), { session with rounds := session.rounds + 1 }) := by
  rw [Session.accept, tick_of_not_spent hspent]
  simp only [if_neg (not_lt.mpr hlength), hvalid]

/-- After a call that was counted and did not change the engine. -/
theorem Mirrors.counted (h : Mirrors sha256 session peer) : Mirrors sha256
    { session with rounds := session.rounds + 1 }
    { peer with rounds := peer.rounds + 1, busy := false } :=
  { h with
    plays := ⟨h.plays.shows, h.plays.length_le, h.plays.frameBytes, h.plays.limit, h.plays.initiator⟩
    rounds := congrArg (· + 1) h.rounds, idle := rfl }

/-- What the browser makes of a frame that both sides accept. -/
theorem Mirrors.process_eq (h : Mirrors sha256 session peer) (hspent : ¬ Spent session)
    {ranges : List Range} (hlength : frame.length ≤ session.limits.maxFrameBytes)
    (hspells : Spells frame ranges) (hordered : Ordered Reconcile.Bound.zero.position ranges) :
    ∃ step, peer.process sha256 frame = (.ok step,
        { peer with rounds := peer.rounds + 1, finished := step.next.isNone, busy := false }) ∧
      step.next = (if (session.engine.party.reply ranges).output = [] ∧
          session.engine.party.isInitiator = true then none
        else some (encodeFrame (session.engine.party.reply ranges).output)) ∧
      step.haveIds = (session.engine.party.reply ranges).haveIds.map List.Vector.toList ∧
      (step.needIds : Multiset (List UInt8)) =
        (session.engine.party.reply ranges).needIds.map List.Vector.toList := by
  have hplays : Reconciliation.Plays { peer with rounds := peer.rounds + 1, busy := true }
      session.engine.party :=
    ⟨h.plays.shows, h.plays.length_le, h.plays.frameBytes, h.plays.limit, h.plays.initiator⟩
  obtain ⟨step, hstep, hrest⟩ := hplays.processFrame_eq (hlength.trans_eq h.frameBytes.symm) hspells
    hordered
  rw [h.sha256_eq] at hstep
  refine ⟨step, ?_, hrest⟩
  rw [Reconciliation.process, h.enter_of_not_spent hspent]
  simp only [hstep]

/-- A frame that is refused counts, and nothing else happens. -/
theorem Mirrors.process_of_refuses (h : Mirrors sha256 session peer) (hspent : ¬ Spent session)
    (hrefuses : peer.frameBytes < frame.length ∨ validateFrame frame ≠ .ok ()) :
    ∃ error, peer.process sha256 frame =
      (.error error, { peer with rounds := peer.rounds + 1, busy := false }) := by
  obtain ⟨error, herror⟩ := @Reconciliation.processFrame_error
    { peer with rounds := peer.rounds + 1, busy := true } sha256 frame hrefuses
  refine ⟨error, ?_⟩
  rw [Reconciliation.process, h.enter_of_not_spent hspent]
  simp only [herror]

theorem Mirrors.process_of_spent (h : Mirrors sha256 session peer) (hspent : Spent session) :
    ∃ error, peer.process sha256 frame = (.error error, peer) := by
  obtain ⟨error, herror⟩ := h.enter_of_spent hspent
  exact ⟨error, by rw [Reconciliation.process, herror]⟩

/-- A responder's answer. -/
theorem Mirrors.respond (h : Mirrors sha256 session peer)
    (hresponder : session.engine.isInitiator = false) (frame : List UInt8) :
    (Session.call display (.respond frame) session).1 =
        (Reconciliation.call sha256 (.respond frame) peer).1 ∧
      Mirrors sha256 (Session.call display (.respond frame) session).2
        (Reconciliation.call sha256 (.respond frame) peer).2 ∧
      (Session.call display (.respond frame) session).2.engine.isInitiator = false := by
  have hpeer : ¬ peer.initiator = true := by
    rw [h.plays.initiator.trans hresponder]
    exact Bool.false_ne_true
  simp only [Session.call, Reconciliation.call, Session.respond, Reconciliation.respond, if_neg hpeer]
  -- A spent session refuses everything; otherwise both check the frame in the same way.
  by_cases hspent : Spent session
  · obtain ⟨error, herror⟩ := @Mirrors.process_of_spent _ _ _ frame h hspent
    simp only [Session.accept, tick_of_spent hspent, herror]
    exact ⟨rfl, h, hresponder⟩
  by_cases hrefuses : session.limits.maxFrameBytes < frame.length ∨
      Validation.validate frame ≠ .ok ()
  · obtain ⟨error, haccept⟩ := accept_of_refuses hspent hrefuses
    obtain ⟨error', hprocess⟩ := h.process_of_refuses hspent (h.refuses_iff.mp hrefuses)
    simp only [haccept, hprocess]
    exact ⟨rfl, h.counted, hresponder⟩
  · obtain ⟨hlength, hvalid⟩ := not_or.mp hrefuses
    have hvalid := not_not.mp hvalid
    obtain ⟨ranges, hspells, hordered⟩ := exists_spells hvalid
    obtain ⟨step, hprocess, hnext, -, -⟩ := h.process_eq hspent (not_lt.mp hlength) hspells hordered
    obtain ⟨engine, hreconcile, hparty⟩ := Negentropy.reconcile_eq hresponder hspells hordered
    rw [if_neg (fun hboth => hpeer (h.plays.initiator.trans hboth.2))] at hnext
    simp only [accept_of_accepts hspent (not_lt.mp hlength) hvalid, hreconcile, hprocess, Except.map,
      hnext, Option.isNone_some]
    have hfinished : session.finished = false := by
      by_contra hdone
      exact hspent (.inl (Bool.eq_true_of_not_eq_false hdone))
    refine ⟨rfl, { h.counted with
      sha256_eq := ?_, plays := ?_, finished := ?_ }, ?_⟩
    · rw [hparty]
      exact h.sha256_eq
    · rw [hparty]
      exact ⟨h.plays.shows, h.plays.length_le, h.plays.frameBytes, h.plays.limit, h.plays.initiator⟩
    · exact hfinished.symm
    · have hsame : engine.isInitiator = session.engine.isInitiator :=
        congrArg Party.isInitiator hparty
      exact hsame.trans hresponder

/-- What an initiator makes of an answer. -/
theorem Mirrors.reconcile (h : Mirrors sha256 session peer)
    (hinitiator : session.engine.isInitiator = true) (frame : List UInt8) :
    (Session.call display (.reconcile frame) session).1 =
        (Reconciliation.call sha256 (.reconcile frame) peer).1 ∧
      Mirrors sha256 (Session.call display (.reconcile frame) session).2
        (Reconciliation.call sha256 (.reconcile frame) peer).2 ∧
      (Session.call display (.reconcile frame) session).2.engine.isInitiator = true := by
  have hpeer : ¬ ¬ peer.initiator = true := not_not.mpr (h.plays.initiator.trans hinitiator)
  simp only [Session.call, Reconciliation.call, Session.reconcile, Reconciliation.reconcile,
    if_neg hpeer]
  by_cases hspent : Spent session
  · obtain ⟨error, herror⟩ := @Mirrors.process_of_spent _ _ _ frame h hspent
    simp only [Session.accept, tick_of_spent hspent, herror]
    exact ⟨rfl, h, hinitiator⟩
  by_cases hrefuses : session.limits.maxFrameBytes < frame.length ∨
      Validation.validate frame ≠ .ok ()
  · obtain ⟨error, haccept⟩ := accept_of_refuses hspent hrefuses
    obtain ⟨error', hprocess⟩ := h.process_of_refuses hspent (h.refuses_iff.mp hrefuses)
    simp only [haccept, hprocess]
    exact ⟨rfl, h.counted, hinitiator⟩
  · obtain ⟨hlength, hvalid⟩ := not_or.mp hrefuses
    have hvalid := not_not.mp hvalid
    obtain ⟨ranges, hspells, hordered⟩ := exists_spells hvalid
    obtain ⟨step, hprocess, hnext, hhave, hneed⟩ :=
      h.process_eq hspent (not_lt.mp hlength) hspells hordered
    obtain ⟨engine, hreconcile, hparty⟩ :=
      Negentropy.reconcileWithIds_eq hinitiator hspells hordered
    have hboth : session.engine.party.isInitiator = true := hinitiator
    simp only [hboth, and_true] at hnext
    simp only [accept_of_accepts hspent (not_lt.mp hlength) hvalid, hreconcile, hprocess, hnext]
    refine ⟨by simp only [Except.toOption, Option.map_some, hnext, hhave, hneed], { h.counted with
      sha256_eq := ?_, plays := ?_, finished := rfl }, ?_⟩
    · rw [hparty]
      exact h.sha256_eq
    · rw [hparty]
      exact ⟨h.plays.shows, h.plays.length_le, h.plays.frameBytes, h.plays.limit, h.plays.initiator⟩
    · have hsame : engine.isInitiator = session.engine.isInitiator :=
        congrArg Party.isInitiator hparty
      exact hsame.trans hinitiator

/-- The first frame of a session that has not written yet. -/
theorem Mirrors.initiate (h : Mirrors sha256 session peer)
    (hresponder : session.engine.isInitiator = false) (hlast : session.engine.lastTimestampOut = 0)
    (hspent : ¬ Spent session) :
    (Session.call display .initiate session).1 = (Reconciliation.call sha256 .initiate peer).1 ∧
      Mirrors sha256 (Session.call display .initiate session).2
        (Reconciliation.call sha256 .initiate peer).2 ∧
      (Session.call display .initiate session).2.engine.isInitiator = true := by
  have hpeer : ¬ peer.initiator = true := by
    rw [h.plays.initiator.trans hresponder]
    exact Bool.false_ne_true
  obtain ⟨last, hinitiate⟩ := Negentropy.initiate_eq hresponder hlast
  have hplays : Reconciliation.Plays { peer with rounds := peer.rounds + 1, busy := true }
      session.engine.party :=
    ⟨h.plays.shows, h.plays.length_le, h.plays.frameBytes, h.plays.limit, h.plays.initiator⟩
  have hfirst := hplays.firstFrame_eq
  rw [h.sha256_eq] at hfirst
  simp only [Session.call, Reconciliation.call, Session.initiate, Reconciliation.initiate, if_neg hpeer,
    tick_of_not_spent hspent, hinitiate, h.enter_of_not_spent hspent, hfirst]
  exact ⟨trivial, { h.counted with
    sha256_eq := h.sha256_eq
    plays := ⟨h.plays.shows, h.plays.length_le, h.plays.frameBytes, h.plays.limit, rfl⟩ }, trivial⟩

/-! ## Two new sessions -/

/-- What the browser's constructor accepts, the native one accepts as well. -/
theorem mirrors_of_new {records : List Record} {filter : Filter} {limits : Limits}
    (h : Reconciliation.new (records.map ReconciliationRecord.ofRecord)
      (ReconciliationFilter.ofFilter filter) (ReconciliationLimits.ofLimits limits) = .ok peer) :
    ∃ session, Session.new sha256 display records filter limits = .ok session ∧
      Mirrors sha256 session peer ∧ ¬ Spent session ∧ session.engine.isInitiator = false ∧
      session.engine.lastTimestampOut = 0 := by
  simp only [Reconciliation.new, ReconciliationLimits.ofLimits, Option.getD_some,
    ReconciliationFilter.ofFilter, List.length_map] at h
  split at h
  · cases h
  next hlimits =>
  split at h
  · cases h
  next hrecords =>
  obtain ⟨storage, hstorage, h⟩ := Except.bind_eq_ok.mp h
  cases h
  -- What the browser checks of the limits implies what the native constructor checks.
  have hwindow : ¬ (filter.until_ < filter.since ∨ filter.until_ = u64Max) := by
    have hlast := filter.until_le
    omega
  have hvalid : ¬ limits.Invalid := by
    rw [Limits.Invalid]
    omega
  have hmap : (records.map ReconciliationRecord.ofRecord).map
      (fun record => (⟨record.timestamp.toNat, record.id⟩ : Bound)) =
        records.map fun record => ⟨record.timestamp, record.id.toList⟩ := by
    rw [List.map_map]
    exact List.map_congr_left fun record _ => rfl
  rw [hmap, Int.toNat_natCast] at hstorage
  obtain ⟨unique, hunique, hshows⟩ := Storage.new_shows hwindow hstorage
  have hlimit : ¬ (limits.maxFrameBytes ≠ 0 ∧ limits.maxFrameBytes < 4096) := by omega
  -- The browser takes at most a million records, so the native count of them cannot overflow.
  have hcount : unique.items.length ≤ u64Max := by
    have hsubset : ∀ id ∈ unique.items.map Item.id, id ∈ records.map Record.id := by
      intro id hid
      obtain ⟨item, hitem, rfl⟩ := List.mem_map.mp hid
      rcases (Session.foldlM_insertRecord hunique item).mp hitem with
        hnone | ⟨record, hrecord, -, -, heq⟩
      · exact absurd hnone List.not_mem_nil
      · exact heq ▸ List.mem_map_of_mem hrecord
    have hlength := (unique.nodup.subperm hsubset).length_le
    rw [List.length_map, List.length_map] at hlength
    have hmax : 1000000 ≤ u64Max := by decide
    omega
  have hsealed : (Snapshot.seal unique.items unique.nodup).items.length = unique.items.length :=
    (perm_sortByRank Item.position unique.items).length_eq
  refine ⟨⟨⟨sha256, Snapshot.seal unique.items unique.nodup, limits.maxFrameBytes, false, 0, 0,
    by omega⟩, limits, 0, false⟩, ?_, ?_, ?_, rfl, rfl⟩
  · have howned : Negentropy.owned sha256 (Snapshot.seal unique.items unique.nodup)
        limits.maxFrameBytes = .ok ⟨sha256, Snapshot.seal unique.items unique.nodup,
          limits.maxFrameBytes, false, 0, 0, by omega⟩ := dif_neg hlimit
    rw [Session.new, dif_neg hwindow, if_neg hvalid, hunique, Except.ok_bind]
    simp only [howned]
    rfl
  · have hbytes : ((limits.maxFrameBytes : ℕ) : ℤ).toNat = limits.maxFrameBytes := Int.toNat_natCast _
    have hsmall : 65536 ≤ u64Max := by decide
    refine ⟨rfl, ⟨hshows, hsealed.trans_le hcount, hbytes, ?_, rfl⟩, hbytes, ?_,
      Int.toNat_natCast _, rfl, rfl, rfl⟩
    · show 4096 ≤ limits.maxFrameBytes
      omega
    · show ((limits.maxFrameBytes : ℕ) : ℤ).toNat ≤ u64Max
      omega
  · rintro (hfinished | hrounds)
    · cases hfinished
    · have hnone : limits.maxRounds ≤ 0 := hrounds
      omega

end Browser

open Browser

/-- What the browser's constructor accepts, the native one accepts, and from then on the two sessions
are told apart by no sequence of frames in either role: every call returns the same bytes, the same ids
to send and the same set of ids to ask for, or an error on both sides. -/
theorem browser_transcript_eq {sha256 : List UInt8 → List.Vector UInt8 32}
    {display : Error → String} {records : List Record} {filter : Filter} {limits : Limits}
    {peer : Reconciliation}
    (h : Reconciliation.new (records.map ReconciliationRecord.ofRecord)
      (ReconciliationFilter.ofFilter filter) (ReconciliationLimits.ofLimits limits) = .ok peer) :
    ∃ session, Session.new sha256 display records filter limits = .ok session ∧
      ∀ (role : Role) (frames : List (List UInt8)),
        Mealy.outputs (Session.call display) session (role.calls frames) =
          Mealy.outputs (Reconciliation.call sha256) peer (role.calls frames) := by
  obtain ⟨session, hnew, hmirrors, hspent, hresponder, hlast⟩ :=
    @mirrors_of_new peer display sha256 records filter limits h
  refine ⟨session, hnew, fun role frames => ?_⟩
  cases role with
  | responder =>
    refine @Mealy.outputs_eq_of_related _ _ _ (Session.call display) _ (Reconciliation.call sha256)
      (fun session peer => Mirrors sha256 session peer ∧ session.engine.isInitiator = false)
      (fun call => ∃ frame, call = .respond frame) ?_ _ _ ⟨hmirrors, hresponder⟩ _ ?_
    · rintro _ s s' ⟨frame, rfl⟩ ⟨hm, hr⟩
      exact hm.respond hr frame
    · intro call hcall
      obtain ⟨frame, -, rfl⟩ := List.mem_map.mp hcall
      exact ⟨frame, rfl⟩
  | initiator =>
    obtain ⟨hout, hnext, hinitiator⟩ := @Mirrors.initiate _ _ display _ hmirrors hresponder hlast hspent
    rw [Role.calls, Mealy.outputs_cons, Mealy.outputs_cons, hout]
    refine congrArg _ (@Mealy.outputs_eq_of_related _ _ _ (Session.call display) _
      (Reconciliation.call sha256)
      (fun session peer => Mirrors sha256 session peer ∧ session.engine.isInitiator = true)
      (fun call => ∃ frame, call = .reconcile frame) ?_ _ _ ⟨hnext, hinitiator⟩ _ ?_)
    · rintro _ s s' ⟨frame, rfl⟩ ⟨hm, hr⟩
      exact hm.reconcile hr frame
    · intro call hcall
      obtain ⟨frame, -, rfl⟩ := List.mem_map.mp hcall
      exact ⟨frame, rfl⟩

/-- The browser's session over the records of the sample of one side. -/
def samplePeer : Except String Reconciliation :=
  Reconciliation.new (sampleA.map ReconciliationRecord.ofRecord)
    (ReconciliationFilter.ofFilter sampleWindow) (ReconciliationLimits.ofLimits {})

theorem browser_transcript_eq_sample : ∃ peer session, samplePeer = .ok peer ∧
    sampleSession sampleA = .ok session ∧ ∀ frames,
      Mealy.outputs (Session.call fun _ => "") session (Role.initiator.calls frames) =
        Mealy.outputs (Reconciliation.call firstBytes) peer (Role.initiator.calls frames) := by
  have haccepted : samplePeer.toOption.isSome = true := by decide +kernel
  obtain ⟨peer, hpeer⟩ := Option.isSome_iff_exists.mp haccepted
  have hpeer := Except.toOption_eq_some.mp hpeer
  obtain ⟨session, hsession, hsame⟩ := browser_transcript_eq hpeer
  exact ⟨peer, session, hpeer, hsession, hsame .initiator⟩

end NostrPubsub.Reconcile
