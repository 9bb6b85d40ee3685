import NostrPubsub.WireTcp.Driver

/-!
# No input is left behind

A turn of the wire driver reads its selected streams with three limits: bytes, frames, and turns for
each stream. When a limit ends the loop over a stream, the driver is told to go on at once
(`continue_ready`). So a turn that ends without has emptied every stream it read: the last read
returned nothing, and the decoder has nothing to take.

`ReadsStream` says what the loop over one stream does, for every way it can end. What follows in the
turn reads nothing and only forgets decoders (`Quiet`).
-/

namespace NostrPubsub.WireTcp

variable {τ : Type}

namespace WireEvent

/-- How many bytes were read. -/
def readBytes (events : List WireEvent) : ℕ :=
  (events.map fun event => match event with
    | .read _ bytes => bytes.length
    | _ => 0).sum

/-- What the loop over a stream leaves in the trace. -/
inductive OfStream (id : ConnectionId) : WireEvent → Prop
  | read (bytes : List UInt8) : OfStream id (.read id bytes)
  | rejected : OfStream id (.rejected id)
  | changed (peer : String) (next : Option ConnectionId) : OfStream id (.changed peer next)

/-- The last read of a stream returned nothing. -/
def LastReadEmpty (id : ConnectionId) (trace : List WireEvent) : Prop :=
  ∃ before after, trace = before ++ .read id [] :: after ∧ ∀ bytes, .read id bytes ∉ after

theorem readBytes_append (events events' : List WireEvent) :
    readBytes (events ++ events') = readBytes events + readBytes events' := by
  simp [readBytes]

theorem readBytes_reading (streams : List (String × ConnectionId)) (events : List WireEvent) :
    readBytes (.reading streams :: events) = readBytes events := by
  simp [readBytes]

theorem LastReadEmpty.append {id : ConnectionId} {trace : List WireEvent}
    (h : LastReadEmpty id trace) {events : List WireEvent} (hother : ∀ bytes, .read id bytes ∉ events) :
    LastReadEmpty id (trace ++ events) := by
  obtain ⟨before, after, rfl, hafter⟩ := h
  refine ⟨before, after ++ events, by simp, fun bytes hmem => ?_⟩
  rcases List.mem_append.mp hmem with hmem | hmem
  · exact hafter bytes hmem
  · exact hother bytes hmem

end WireEvent

namespace WireTcpDriver

open WireM WireEvent

variable {config : WireConfig τ} {nowMs : ℕ}

/-- The decoder of a peer has nothing to take: no complete record, and no length over the bound. -/
def Emptied (d : WireTcpDriver τ) (peer : String) : Prop :=
  ∀ decoder, d.inputs.lookup peer = some decoder →
    LengthPrefix.front 4 decoder.maxFrameBytes decoder.buffer = .incomplete

/-- What the loop over a stream does to the rest of the driver, to the limits and to the trace. -/
structure ReadsStream (config : WireConfig τ) (peer : String) (id : ConnectionId) (r : Reading)
    (t : WireTurn τ) (r' : Reading) (t' : WireTurn τ) (events : List WireEvent) : Prop where
  trace_eq : t'.trace = t.trace ++ events
  ofStream : ∀ event ∈ events, OfStream id event
  budget_eq : r'.budget + readBytes events = r.budget
  frames_le : r.frames.length ≤ config.options.driveFrames →
    r'.frames.length ≤ config.options.driveFrames
  ready_eq : t'.driver.continueReady = t.driver.continueReady
  inputs_other : ∀ other decoder, other ≠ peer → t'.driver.inputs.lookup other = some decoder →
    t.driver.inputs.lookup other = some decoder

namespace ReadsStream

variable {peer : String} {id : ConnectionId} {r r' r'' : Reading} {t t' t'' : WireTurn τ}
  {events events' : List WireEvent}

theorem refl : ReadsStream config peer id r t r t [] where
  trace_eq := by simp
  ofStream _ h := absurd h List.not_mem_nil
  budget_eq := rfl
  frames_le h := h
  ready_eq := rfl
  inputs_other _ _ _ h := h

theorem trans (h : ReadsStream config peer id r t r' t' events)
    (h' : ReadsStream config peer id r' t' r'' t'' events') :
    ReadsStream config peer id r t r'' t'' (events ++ events') where
  trace_eq := by rw [h'.trace_eq, h.trace_eq, List.append_assoc]
  ofStream event hevent := by
    rcases List.mem_append.mp hevent with hevent | hevent
    · exact h.ofStream event hevent
    · exact h'.ofStream event hevent
  budget_eq := by
    have hb := h.budget_eq
    have hb' := h'.budget_eq
    rw [readBytes_append]
    omega
  frames_le hle := h'.frames_le (h.frames_le hle)
  ready_eq := h'.ready_eq.trans h.ready_eq
  inputs_other other decoder hne hlookup :=
    h.inputs_other other decoder hne (h'.inputs_other other decoder hne hlookup)

end ReadsStream

/-- How the loop over a stream ends. -/
inductive StreamDone (config : WireConfig τ) (peer : String) (id : ConnectionId) (r' : Reading)
    (t' : WireTurn τ) : StreamEnd → Prop
  /-- The peer was aborted. -/
  | aborted (hrejected : .rejected id ∈ t'.trace) (hemptied : t'.driver.Emptied peer) :
    StreamDone config peer id r' t' .aborted
  /-- A limit was reached. -/
  | limit {turnsLeft : ℕ}
    (h : r'.budget = 0 ∨ turnsLeft = 0 ∨ config.options.driveFrames ≤ r'.frames.length) :
    StreamDone config peer id r' t' (.finished turnsLeft)
  /-- There was nothing more to read. -/
  | drained {turnsLeft : ℕ} (hread : LastReadEmpty id t'.trace) (hemptied : t'.driver.Emptied peer) :
    StreamDone config peer id r' t' (.finished turnsLeft)

/-- A decoder that failed is empty. -/
theorem front_take_error {decoder : RecordDecoder} {maxFrames : ℕ} {error : PubsubError}
    (h : (decoder.take maxFrames).1 = .error error) :
    LengthPrefix.front 4 (decoder.take maxFrames).2.maxFrameBytes (decoder.take maxFrames).2.buffer
      = .incomplete := by
  unfold RecordDecoder.take at h ⊢
  split at h
  · cases h
  · rfl

theorem length_take {decoder : RecordDecoder} {maxFrames : ℕ} {frames : List (List UInt8)}
    (h : (decoder.take maxFrames).1 = .ok frames) : frames.length ≤ maxFrames := by
  unfold RecordDecoder.take at h
  split at h
  · rename_i hframes
    cases h
    exact RecordDecoder.length_takeFrames hframes
  · cases h

/-- Putting the decoder of a peer in leaves the others. -/
theorem ReadsStream.insertInput {peer : String} {id : ConnectionId} {r : Reading} {t : WireTurn τ}
    (decoder : RecordDecoder) (tcp : τ) :
    ReadsStream config peer id r t r
      { t with driver := { t.driver with tcp, inputs := t.driver.inputs.insert peer decoder } } [] where
  trace_eq := by simp
  ofStream _ h := absurd h List.not_mem_nil
  budget_eq := rfl
  frames_le h := h
  ready_eq := rfl
  inputs_other other decoder' hne hlookup := by rwa [Finmap.lookup_insert_of_ne _ hne] at hlookup

theorem emptied_insert {d : WireTcpDriver τ} {peer : String} {decoder : RecordDecoder} {tcp : τ}
    (h : LengthPrefix.front 4 decoder.maxFrameBytes decoder.buffer = .incomplete) :
    ({ d with tcp, inputs := d.inputs.insert peer decoder } : WireTcpDriver τ).Emptied peer := by
  intro decoder' hlookup
  rw [Finmap.lookup_insert] at hlookup
  cases hlookup
  exact h

/-- Aborting a peer only forgets decoders. -/
theorem abortPeer_spec {peer : String} {t t' : WireTurn τ} {result : Except PubsubError Unit}
    (h : abortPeer config peer t = (result, t')) :
    t'.trace = t.trace ++ [.changed peer none] ∧
      t'.driver.continueReady = t.driver.continueReady ∧
      ∀ other decoder, t'.driver.inputs.lookup other = some decoder →
        t.driver.inputs.lookup other = some decoder := by
  cases h
  refine ⟨rfl, ?_, fun other decoder hlookup => ?_⟩
  · unfold restartQueue
    split <;> rfl
  · have hinputs : (restartQueue { t.driver with
        tcp := (config.endpoint.abortPeer t.driver.tcp peer).2
        connections := t.driver.connections.filter fun _ connection => connection.peer != peer
        active := t.driver.active.erase peer
        inputs := t.driver.inputs.erase peer } peer).inputs = t.driver.inputs.erase peer := by
      unfold restartQueue
      split <;> rfl
    rw [hinputs] at hlookup
    exact (Finmap.lookup_erase_eq_some.mp hlookup).2

/-- The turn of the loop that takes frames. -/
theorem takeDecoded_spec {peer : String} {id : ConnectionId} {r : Reading} {t t' : WireTurn τ}
    {decoder : RecordDecoder} {result : Option Reading}
    (hroom : r.frames.length < config.options.driveFrames)
    (h : takeDecoded config peer id decoder r t = (.ok result, t')) :
    (result = none ∧ (∃ events, ReadsStream config peer id r t r t' events) ∧
      .rejected id ∈ t'.trace ∧ t'.driver.Emptied peer) ∨
    ∃ r', result = some r' ∧ ReadsStream config peer id r t r' t' [] := by
  rw [takeDecoded, modifyDriver_bind, getDriver_bind] at h
  generalize htaken : decoder.take (config.options.driveFrames - r.frames.length) = taken at h
  have hinsert : ReadsStream config peer id r t r { t with
      driver := { t.driver with inputs := t.driver.inputs.insert peer taken.2 } } [] :=
    .insertInput taken.2 t.driver.tcp
  rcases hpeer : config.endpoint.peer t.driver.tcp id with _ | identity
  · simp only [hpeer] at h
    cases h
  · simp only [hpeer] at h
    rcases hdecoded : taken.1 with error | decoded
    · -- the decoder fails, which empties it, and the stream is aborted
      left
      simp only [hdecoded, note_bind] at h
      obtain ⟨_, t₁, habort, h⟩ := bind_eq_ok h
      cases h
      obtain ⟨htrace, hready, hinputs⟩ := abortPeer_spec habort
      refine ⟨rfl, ⟨[.rejected id, .changed identity none], ?_⟩, ?_, ?_⟩
      · refine ⟨by simp [htrace], fun event hevent => ?_, rfl, fun hle => hle, hready, ?_⟩
        · rcases List.mem_cons.mp hevent with rfl | hevent
          · exact .rejected
          · rw [List.mem_singleton.mp hevent]
            exact .changed identity none
        · intro other decoder' hne hlookup
          exact hinsert.inputs_other other decoder' hne (hinputs other decoder' hlookup)
      · simp [htrace]
      · intro decoder' hlookup
        have hlookup' := hinputs peer decoder' hlookup
        rw [Finmap.lookup_insert] at hlookup'
        cases hlookup'
        rw [← htaken] at hdecoded ⊢
        exact front_take_error hdecoded
    · -- the decoder gave up frames, no more than there was room for
      right
      simp only [hdecoded] at h
      cases h
      refine ⟨_, rfl, { hinsert with frames_le := fun _ => ?_ }⟩
      rw [← htaken] at hdecoded
      have hlength := length_take hdecoded
      rw [List.length_append, List.length_map]
      omega

/-- The turn of the loop that reads. A decoder without a complete record has room, so there is always
something to ask for. -/
theorem readChunk_spec {peer : String} {id : ConnectionId} {r : Reading} {t t' : WireTurn τ}
    {decoder : RecordDecoder} {result : Option Reading} (hincomplete : decoder.hasCompleteRecord = false)
    (hbudget : r.budget ≠ 0)
    (h : readChunk config nowMs peer id decoder r t = (.ok result, t')) :
    (result = none ∧ (∃ events, ReadsStream config peer id r t r t' events) ∧
      LastReadEmpty id t'.trace ∧ t'.driver.Emptied peer) ∨
    ∃ r' events, result = some r' ∧ ReadsStream config peer id r t r' t' events := by
  -- A full decoder holds a complete record, since no record is longer than the buffer.
  have hroom : decoder.remainingCapacity ≠ 0 := by
    intro hfull
    rw [RecordDecoder.hasCompleteRecord_of_full hfull] at hincomplete
    cases hincomplete
  have hmax : min (min decoder.remainingCapacity ioChunkBytes) r.budget ≠ 0 := by
    unfold ioChunkBytes
    omega
  rw [readChunk, modifyDriver_bind, if_neg hmax] at h
  obtain ⟨bytes, t₁, hcall, h⟩ := bind_eq_ok h
  obtain ⟨tcp, hread, rfl⟩ := callTcp_eq_ok hcall
  have hle := config.endpoint.read_le _ _ _ _ _ _ hread
  rw [note_bind] at h
  -- An empty read ends the loop over this peer.
  by_cases hempty : bytes = []
  · subst hempty
    left
    cases h
    refine ⟨rfl, ⟨[.read id []], by simp, ?_, rfl, fun hle => hle, rfl, ?_⟩, ?_, ?_⟩
    · intro event hevent
      rw [List.mem_singleton.mp hevent]
      exact .read []
    · intro other decoder' hne hlookup
      rwa [Finmap.lookup_insert_of_ne _ hne] at hlookup
    · exact ⟨t.trace, [], rfl, fun _ => List.not_mem_nil⟩
    · exact emptied_insert (RecordDecoder.hasCompleteRecord_eq_false.mp hincomplete)
  · right
    rw [if_neg (by simpa using hempty), modifyDriver_bind] at h
    obtain ⟨_, t₂, hcheck, h⟩ := bind_eq_ok h
    rcases hpush : (decoder.push bytes).1 with error | _
    · rw [hpush] at hcheck
      cases hcheck
    · rw [hpush] at hcheck
      cases hcheck
      cases h
      refine ⟨_, [.read id bytes], rfl, by simp, ?_, ?_, fun hle => hle, rfl, ?_⟩
      · intro event hevent
        rw [List.mem_singleton.mp hevent]
        exact .read bytes
      · have hbytes : readBytes [.read id bytes] = bytes.length := by simp [readBytes]
        rw [hbytes]
        dsimp only
        omega
      · intro other decoder' hne hlookup
        rw [Finmap.lookup_insert_of_ne _ hne, Finmap.lookup_insert_of_ne _ hne] at hlookup
        exact hlookup

theorem readPeer_spec {peer : String} {id : ConnectionId} {turns : ℕ} {r r' : Reading}
    {t t' : WireTurn τ} {streamEnd : StreamEnd}
    (h : readPeer config nowMs peer id turns r t = (.ok (streamEnd, r'), t')) :
    (∃ events, ReadsStream config peer id r t r' t' events) ∧
      StreamDone config peer id r' t' streamEnd := by
  induction turns generalizing r t with
  | zero =>
    cases h
    exact ⟨⟨[], .refl⟩, .limit (.inr (.inl rfl))⟩
  | succ turns ih =>
    rw [readPeer] at h
    by_cases hfull : config.options.driveFrames ≤ r.frames.length
    · rw [if_pos hfull] at h
      cases h
      exact ⟨⟨[], .refl⟩, .limit (.inr (.inr hfull))⟩
    rw [if_neg hfull, getDriver_bind] at h
    generalize (t.driver.inputs.lookup peer).getD
      { maxFrameBytes := config.options.frameCapacity } = decoder at h
    by_cases hcomplete : decoder.hasCompleteRecord = true
    · rw [if_pos hcomplete] at h
      obtain ⟨result, t₁, htake, h⟩ := bind_eq_ok h
      rcases takeDecoded_spec (by omega) htake with
        ⟨rfl, ⟨events, hreads⟩, hrejected, hemptied⟩ | ⟨r₁, rfl, hreads⟩
      · cases h
        exact ⟨⟨events, { hreads with }⟩, .aborted hrejected hemptied⟩
      · obtain ⟨⟨events, hrest⟩, hdone⟩ := ih h
        exact ⟨⟨events, hreads.trans hrest⟩, hdone⟩
    rw [if_neg hcomplete] at h
    by_cases hbudget : r.budget = 0
    · rw [if_pos hbudget] at h
      cases h
      exact ⟨⟨[], .refl⟩, .limit (.inl hbudget)⟩
    rw [if_neg hbudget] at h
    obtain ⟨result, t₁, hread, h⟩ := bind_eq_ok h
    rcases readChunk_spec (Bool.not_eq_true _ ▸ hcomplete) hbudget hread with
      ⟨rfl, hreads, hlast, hemptied⟩ | ⟨r₁, events, rfl, hreads⟩
    · cases h
      exact ⟨hreads, .drained hlast hemptied⟩
    · obtain ⟨⟨events', hrest⟩, hdone⟩ := ih h
      exact ⟨⟨events ++ events', hreads.trans hrest⟩, hdone⟩

/-- A stream was read to its end, unless its peer was aborted. -/
structure Drained (t : WireTurn τ) (peer : String) (id : ConnectionId) : Prop where
  emptied : t.driver.Emptied peer
  last_read : LastReadEmpty id t.trace ∨ .rejected id ∈ t.trace

/-- Reading a stream to its end leaves the others as they are. -/
theorem Drained.readsStream {peer other : String} {id otherId : ConnectionId} {r r' : Reading}
    {t t' : WireTurn τ} {events : List WireEvent} (h : Drained t other otherId)
    (hreads : ReadsStream config peer id r t r' t' events) (hdrained : Drained t' peer id) :
    Drained t' other otherId where
  emptied := by
    by_cases hpeer : other = peer
    · rw [hpeer]
      exact hdrained.emptied
    · exact fun decoder hlookup =>
        h.emptied decoder (hreads.inputs_other other decoder hpeer hlookup)
  last_read := by
    by_cases hid : otherId = id
    · rw [hid]
      exact hdrained.last_read
    · rw [hreads.trace_eq]
      refine h.last_read.imp (fun hlast => hlast.append fun bytes hmem => ?_)
        (List.mem_append_left _)
      cases hreads.ofStream _ hmem
      exact hid rfl

/-- The loop over the streams, when no limit was reached. -/
structure ReadsStreams (config : WireConfig τ) (r : Reading) (t : WireTurn τ) (r' : Reading)
    (t' : WireTurn τ) (events : List WireEvent) : Prop where
  trace_eq : t'.trace = t.trace ++ events
  no_reading : ∀ streams, .reading streams ∉ events
  budget_eq : r'.budget + readBytes events = r.budget
  frames_le : r.frames.length ≤ config.options.driveFrames →
    r'.frames.length ≤ config.options.driveFrames
  ready : t.driver.continueReady = true → t'.driver.continueReady = true

theorem ReadsStream.streams {peer : String} {id : ConnectionId} {r r' : Reading}
    {t t' : WireTurn τ} {events : List WireEvent} (h : ReadsStream config peer id r t r' t' events) :
    ReadsStreams config r t r' t' events where
  trace_eq := h.trace_eq
  no_reading streams hmem := by cases h.ofStream _ hmem
  budget_eq := h.budget_eq
  frames_le := h.frames_le
  ready hready := h.ready_eq.trans hready

theorem ReadsStreams.trans {r r' r'' : Reading} {t t' t'' : WireTurn τ}
    {events events' : List WireEvent} (h : ReadsStreams config r t r' t' events)
    (h' : ReadsStreams config r' t' r'' t'' events') :
    ReadsStreams config r t r'' t'' (events ++ events') where
  trace_eq := by rw [h'.trace_eq, h.trace_eq, List.append_assoc]
  no_reading streams hmem :=
    (List.mem_append.mp hmem).elim (h.no_reading streams) (h'.no_reading streams)
  budget_eq := by
    have hb := h.budget_eq
    have hb' := h'.budget_eq
    rw [readBytes_append]
    omega
  frames_le hle := h'.frames_le (h.frames_le hle)
  ready hready := h'.ready (h.ready hready)

/-- The first stream of the loop. -/
theorem readStreams_cons {peer : String} {id : ConnectionId} {streams : List (String × ConnectionId)}
    {r r' : Reading} {t t' : WireTurn τ}
    (h : readStreams config nowMs ((peer, id) :: streams) r t = (.ok r', t')) :
    ∃ r₁ t₁ events, readStreams config nowMs streams r₁ t₁ = (.ok r', t') ∧
      ReadsStreams config r t r₁ t₁ events ∧
      (r.frames.length ≤ config.options.driveFrames → t₁.driver.continueReady = false →
        Drained t₁ peer id ∧ ∀ other otherId, Drained t other otherId → Drained t₁ other otherId) := by
  obtain ⟨⟨streamEnd, r₁⟩, t₁, hread, h⟩ := bind_eq_ok h
  obtain ⟨⟨events, hreads⟩, hdone⟩ := readPeer_spec hread
  cases streamEnd with
  | aborted =>
    refine ⟨r₁, t₁, events, h, hreads.streams, fun _ _ => ?_⟩
    cases hdone with
    | aborted hrejected hemptied =>
      have hdrained : Drained t₁ peer id := ⟨hemptied, .inr hrejected⟩
      exact ⟨hdrained, fun other otherId hother => hother.readsStream hreads hdrained⟩
  | finished turnsLeft =>
    change (modifyDriver _ >>= fun _ => readStreams config nowMs streams r₁) t₁ = _ at h
    rw [modifyDriver_bind] at h
    refine ⟨r₁, _, events, h, ?_, fun hle hready => ?_⟩
    · refine { hreads.streams with ready := fun hready => ?_ }
      rw [Bool.or_eq_true_iff]
      exact .inl (hreads.streams.ready hready)
    · obtain ⟨-, hflag⟩ := Bool.or_eq_false_iff.mp hready
      have hdrained : Drained t₁ peer id := by
        cases hdone with
        | limit hlimit =>
          -- the flag would have been set
          refine absurd ?_ (of_decide_eq_false hflag)
          have hfull := hreads.frames_le hle
          exact hlimit.imp_right (Or.imp_right fun hframes => Nat.le_antisymm hfull hframes)
        | drained hlast hemptied => exact ⟨hemptied, .inl hlast⟩
      refine ⟨⟨hdrained.emptied, hdrained.last_read⟩, fun other otherId hother => ?_⟩
      have hother' := hother.readsStream hreads hdrained
      exact ⟨hother'.emptied, hother'.last_read⟩

theorem readStreams_spec {streams : List (String × ConnectionId)} {r r' : Reading}
    {t t' : WireTurn τ} (h : readStreams config nowMs streams r t = (.ok r', t')) :
    (∃ events, ReadsStreams config r t r' t' events) ∧
      (r.frames.length ≤ config.options.driveFrames → t'.driver.continueReady = false →
        (∀ peer id, (peer, id) ∈ streams → Drained t' peer id) ∧
        ∀ peer id, Drained t peer id → Drained t' peer id) := by
  induction streams generalizing r t with
  | nil =>
    cases h
    exact ⟨⟨[], by simp, fun _ => List.not_mem_nil, rfl, fun hle => hle, fun hready => hready⟩,
      fun _ _ => ⟨fun _ _ hmem => absurd hmem List.not_mem_nil, fun _ _ hdrained => hdrained⟩⟩
  | cons stream streams ih =>
    obtain ⟨peer, id⟩ := stream
    obtain ⟨r₁, t₁, events, hrest, hreads, hhead⟩ := readStreams_cons h
    obtain ⟨⟨events', hreads'⟩, htail⟩ := ih hrest
    refine ⟨⟨_, hreads.trans hreads'⟩, fun hle hready => ?_⟩
    have hready₁ : t₁.driver.continueReady = false := by
      by_contra hset
      rw [hreads'.ready ((Bool.not_eq_false _).mp hset)] at hready
      cases hready
    obtain ⟨hdrained, hkeep⟩ := hhead hle hready₁
    obtain ⟨hstreams, hkeep'⟩ := htail (hreads.frames_le hle) hready
    refine ⟨fun other otherId hmem => ?_, fun other otherId hother =>
      hkeep' other otherId (hkeep other otherId hother)⟩
    rcases List.mem_cons.mp hmem with heq | hmem
    · cases heq
      exact hkeep' peer id hdrained
    · exact hstreams other otherId hmem

/-! ## The rest of the turn -/

/-- Nothing is read, decoders are only forgotten, and the driver is not told to wait. -/
structure Quiet (t t' : WireTurn τ) : Prop where
  trace : ∃ events, t'.trace = t.trace ++ events ∧ readBytes events = 0 ∧
    (∀ id bytes, .read id bytes ∉ events) ∧ ∀ streams, .reading streams ∉ events
  ready : t.driver.continueReady = true → t'.driver.continueReady = true
  inputs : ∀ peer decoder, t'.driver.inputs.lookup peer = some decoder →
    t.driver.inputs.lookup peer = some decoder

theorem Quiet.refl (t : WireTurn τ) : Quiet t t where
  trace := ⟨[], by simp, rfl, fun _ _ => List.not_mem_nil, fun _ => List.not_mem_nil⟩
  ready h := h
  inputs _ _ h := h

theorem Quiet.trans {t t' t'' : WireTurn τ} (h : Quiet t t') (h' : Quiet t' t'') : Quiet t t'' where
  trace := by
    obtain ⟨events, heq, hbytes, hread, hreading⟩ := h.trace
    obtain ⟨events', heq', hbytes', hread', hreading'⟩ := h'.trace
    refine ⟨events ++ events', by rw [heq', heq, List.append_assoc], ?_, ?_, ?_⟩
    · rw [readBytes_append, hbytes, hbytes']
    · intro id bytes hmem
      exact (List.mem_append.mp hmem).elim (hread id bytes) (hread' id bytes)
    · intro streams hmem
      exact (List.mem_append.mp hmem).elim (hreading streams) (hreading' streams)
  ready hready := h'.ready (h.ready hready)
  inputs peer decoder hlookup := h.inputs peer decoder (h'.inputs peer decoder hlookup)

/-- A change of the driver that leaves the input alone. -/
theorem Quiet.of_driver {t : WireTurn τ} {d : WireTcpDriver τ} (hinputs : d.inputs = t.driver.inputs)
    (hready : t.driver.continueReady = true → d.continueReady = true) :
    Quiet t { t with driver := d } where
  trace := ⟨[], by simp, rfl, fun _ _ => List.not_mem_nil, fun _ => List.not_mem_nil⟩
  ready := hready
  inputs peer decoder hlookup := by rwa [hinputs] at hlookup

theorem preserves_modifyDriver {t₀ : WireTurn τ} {change : WireTcpDriver τ → WireTcpDriver τ}
    (hinputs : ∀ d, (change d).inputs = d.inputs)
    (hready : ∀ d, d.continueReady = true → (change d).continueReady = true) :
    Preserves (Quiet t₀) (modifyDriver change) := fun t h =>
  h.trans (.of_driver (hinputs t.driver) (hready t.driver))

theorem preserves_callTcp {t₀ : WireTurn τ} {α : Type} (context : String)
    (call : τ → Except String α × τ) : Preserves (Quiet t₀) (callTcp context call) := fun _ h =>
  h.trans (.of_driver rfl fun hready => hready)

/-- One event that is no read. -/
theorem Quiet.of_event {t t' : WireTurn τ} {event : WireEvent} (htrace : t'.trace = t.trace ++ [event])
    (hread : ∀ id bytes, event ≠ .read id bytes) (hreading : ∀ streams, event ≠ .reading streams)
    (hready : t.driver.continueReady = true → t'.driver.continueReady = true)
    (hinputs : ∀ peer decoder, t'.driver.inputs.lookup peer = some decoder →
      t.driver.inputs.lookup peer = some decoder) : Quiet t t' where
  trace := by
    refine ⟨[event], htrace, ?_, ?_, ?_⟩
    · cases event with
      | read id bytes => exact absurd rfl (hread id bytes)
      | _ => rfl
    · intro id bytes hmem
      exact hread id bytes (List.mem_singleton.mp hmem).symm
    · intro streams hmem
      exact hreading streams (List.mem_singleton.mp hmem).symm
  ready := hready
  inputs := hinputs

theorem restartQueue_inputs (d : WireTcpDriver τ) (peer : String) :
    (d.restartQueue peer).inputs = d.inputs := by
  unfold restartQueue
  split <;> rfl

theorem restartQueue_continueReady (d : WireTcpDriver τ) (peer : String) :
    (d.restartQueue peer).continueReady = d.continueReady := by
  unfold restartQueue
  split <;> rfl

variable {t₀ : WireTurn τ}

theorem preserves_abortPeer (peer : String) : Preserves (Quiet t₀) (abortPeer config peer) := by
  intro t h
  rcases habort : abortPeer config peer t with ⟨result, t'⟩
  obtain ⟨htrace, hready, hinputs⟩ := abortPeer_spec habort
  exact h.trans (.of_event htrace nofun nofun (fun hset => hready.trans hset) hinputs)

theorem preserves_note {event : WireEvent} (hread : ∀ id bytes, event ≠ .read id bytes)
    (hreading : ∀ streams, event ≠ .reading streams) : Preserves (Quiet t₀) (note event) := fun _ h =>
  h.trans (.of_event rfl hread hreading (fun hset => hset) fun _ _ hlookup => hlookup)

theorem preserves_forgetPeer (peer : String) : Preserves (Quiet t₀) (forgetPeer config peer) := by
  have hnote : Preserves (Quiet t₀) (note (.forgotten peer)) := preserves_note nofun nofun
  refine (preserves_modifyDriver ?_ ?_).bind fun _ => ?_
  · exact fun _ => rfl
  · exact fun _ h => h
  · exact hnote.bind fun _ => preserves_abortPeer peer

theorem preserves_activatePeer (next : Table ConnectionId) (peer : String) :
    Preserves (Quiet t₀) (activatePeer next peer) := by
  intro t h
  refine h.trans (.of_event rfl nofun nofun (fun hset => ?_) fun other decoder hlookup => ?_)
  · exact (restartQueue_continueReady _ _).trans hset
  · have hinputs : (activatePeer next peer t).2.driver.inputs = t.driver.inputs.erase peer :=
      restartQueue_inputs _ _
    rw [hinputs] at hlookup
    exact (Finmap.lookup_erase_eq_some.mp hlookup).2

theorem preserves_refreshActive : Preserves (Quiet t₀) (refreshActive config) := by
  refine preserves_getDriver.bind fun d => ?_
  split
  · exact preserves_pure _
  · refine (preserves_modifyDriver ?_ ?_).bind fun _ => preserves_getDriver.bind fun d => ?_
    · exact fun _ => rfl
    · exact fun _ h => h
    refine (preserves_forEach (fun id => (preserves_callTcp _ _).bind fun _ => ?_) _).bind fun _ => ?_
    · exact preserves_modifyDriver (fun _ => rfl) fun _ h => h
    refine (preserves_modifyDriver ?_ ?_).bind fun _ => ?_
    · exact fun _ => rfl
    · exact fun _ h => h
    exact (preserves_forEach (preserves_activatePeer _) _).bind fun _ => preserves_pure _

theorem preserves_takeWritten (peer : String) (id : ConnectionId) (queue : PeerQueue)
    (accepted : List UInt8) : Preserves (Quiet t₀) (flushPeer.takeWritten peer id queue accepted) :=
  fun _ h => h.trans (.of_event rfl nofun nofun (fun hset => hset) fun _ _ hlookup => hlookup)

theorem preserves_flushPeer (nowMs : ℕ) (peer : String) (id : ConnectionId) (fuel budget : ℕ) :
    Preserves (Quiet t₀) (flushPeer config nowMs peer id fuel budget) := by
  induction fuel generalizing budget with
  | zero => exact preserves_pure budget
  | succ fuel ih =>
    refine preserves_ite (preserves_pure budget) (preserves_getDriver.bind fun d => ?_)
    split
    · exact preserves_pure budget
    · refine preserves_ite (preserves_pure budget) ((preserves_callTcp _ _).bind fun accepted => ?_)
      refine preserves_ite (preserves_pure budget) ?_
      exact (preserves_takeWritten peer id _ _).bind fun _ => ih _

theorem preserves_flushStreams (nowMs : ℕ) (streams : List (String × ConnectionId)) (budget : ℕ) :
    Preserves (Quiet t₀) (flushStreams config nowMs streams budget) := by
  induction streams generalizing budget with
  | nil => exact preserves_pure budget
  | cons stream streams ih =>
    refine (preserves_flushPeer nowMs stream.1 stream.2 budget budget).bind fun budget => ?_
    refine (preserves_modifyDriver (fun d => ?_) fun d hset => ?_).bind fun _ => ih budget
    · unfold dropEmptyQueue
      split <;> rfl
    · unfold dropEmptyQueue
      split <;> exact hset

theorem preserves_flushQueues (nowMs alreadyWritten : ℕ) :
    Preserves (Quiet t₀) (flushQueues config nowMs alreadyWritten) := by
  refine preserves_getDriver.bind fun d => ?_
  split
  · exact preserves_pure _
  · refine (preserves_flushStreams nowMs _ _).bind fun budget => ?_
    refine (preserves_modifyDriver ?_ fun d hset => ?_).bind fun _ => preserves_pure _
    · exact fun _ => rfl
    · exact (Bool.or_eq_true_iff.mpr (.inl hset))

theorem preserves_finishRemoteCloses (nowMs : ℕ) :
    Preserves (Quiet t₀) (finishRemoteCloses config nowMs) :=
  preserves_getDriver.bind fun _ => preserves_forEach (fun _ => preserves_callTcp _ _) _

theorem preserves_acceptConnections (backlog : ℕ) :
    Preserves (Quiet t₀) (acceptConnections config backlog) := by
  induction backlog with
  | zero => exact preserves_pure ()
  | succ backlog ih =>
    refine (preserves_callTcp _ _).bind fun accepted => ?_
    cases accepted with
    | none => exact preserves_pure ()
    | some id =>
      refine preserves_getDriver.bind fun d => ?_
      cases config.endpoint.peer d.tcp id with
      | none => exact preserves_fail _
      | some peer =>
        refine preserves_getDriver.bind fun d => ?_
        cases d.ensurePeerCapacity config peer with
        | error _ => exact (preserves_callTcp _ _).bind fun _ => ih
        | ok _ =>
          refine (preserves_modifyDriver (fun d => ?_) fun d hset => ?_).bind fun _ => ih
          · split <;> rfl
          · split <;> exact hset

/-! ## A turn -/

/-- What reading the active streams does. -/
theorem readActive_spec {t t' : WireTurn τ} {frames : List (String × List UInt8)} {rejected : ℕ}
    (h : readActive config nowMs t = (.ok (frames, rejected), t')) :
    frames.length ≤ config.options.driveFrames ∧
    (∃ events, t'.trace = t.trace ++ .reading t.driver.active.entriesAscending :: events ∧
      (∀ streams, .reading streams ∉ events) ∧ readBytes events ≤ config.options.driveIoBytes) ∧
    (t'.driver.continueReady = false →
      ∀ peer id, (peer, id) ∈ t.driver.active.entriesAscending → Drained t' peer id) := by
  rw [readActive, getDriver_bind, note_bind] at h
  obtain ⟨r, t₁, hread, h⟩ := bind_eq_ok h
  cases h
  obtain ⟨⟨events, hreads⟩, hdrain⟩ := readStreams_spec hread
  refine ⟨hreads.frames_le (Nat.zero_le _), ⟨events, ?_, hreads.no_reading, ?_⟩, fun hready => ?_⟩
  · rw [hreads.trace_eq]
    simp
  · have hbudget := hreads.budget_eq
    dsimp only at hbudget
    omega
  · exact (hdrain (Nat.zero_le _) hready).1

theorem Drained.quiet {t t' : WireTurn τ} {peer : String} {id : ConnectionId} (h : Drained t peer id)
    (hquiet : Quiet t t') : Drained t' peer id where
  emptied decoder hlookup := h.emptied decoder (hquiet.inputs peer decoder hlookup)
  last_read := by
    obtain ⟨events, htrace, -, hread, -⟩ := hquiet.trace
    rw [htrace]
    exact h.last_read.imp (fun hlast => hlast.append (hread id)) (List.mem_append_left _)

/-- A turn that ends without the order to go on has read every stream to its end: the streams that
were selected when it began to read and whose peers it did not abort. It stays within its limits. -/
theorem driveReady_drained (config : WireConfig τ) (nowMs : ℕ) (d : WireTcpDriver τ)
    (report : WireTcpReport) (t : WireTurn τ)
    (h : driveReady config nowMs { driver := d, trace := [] } = (.ok report, t)) :
    report.frames.length ≤ config.options.driveFrames ∧
    readBytes t.trace ≤ config.options.driveIoBytes ∧
    ∃ streams, (∀ streams', .reading streams' ∈ t.trace ↔ streams' = streams) ∧
      (t.driver.continueReady = false → ∀ peer id, (peer, id) ∈ streams → .rejected id ∉ t.trace →
        LastReadEmpty id t.trace ∧ t.driver.Emptied peer) := by
  rw [driveReady, modifyDriver_bind, getDriver_bind] at h
  obtain ⟨_, t₁, haccept, h⟩ := bind_eq_ok h
  obtain ⟨_, t₂, hrefresh, h⟩ := bind_eq_ok h
  obtain ⟨⟨frames, rejectedFrames⟩, t₃, hread, h⟩ := bind_eq_ok h
  obtain ⟨written, t₄, hflush, h⟩ := bind_eq_ok h
  obtain ⟨_, t₅, hclose, h⟩ := bind_eq_ok h
  obtain ⟨more, t₆, hmore, h⟩ := bind_eq_ok h
  rw [getDriver_bind] at h
  obtain ⟨_, t₇, hforget, h⟩ := bind_eq_ok h
  cases h
  -- before and after the reads nothing is read
  have hbefore : Quiet { driver := { d with continueReady := false }, trace := [] } t₂ := by
    have h₁ := (preserves_acceptConnections _).apply (Quiet.refl _) haccept
    exact preserves_refreshActive.apply h₁ hrefresh
  have hafter : Quiet t₃ t := by
    have h₄ := (preserves_flushQueues nowMs 0).apply (Quiet.refl t₃) hflush
    have h₅ := (preserves_finishRemoteCloses nowMs).apply h₄ hclose
    have h₆ := preserves_refreshActive.apply h₅ hmore
    exact (preserves_forEach (fun peer => (preserves_forgetPeer peer).ignoreError) _).apply h₆ hforget
  obtain ⟨hframes, ⟨events, htrace, hreading, hbytes⟩, hdrain⟩ := readActive_spec hread
  obtain ⟨events₂, htrace₂, hbytes₂, -, hreading₂⟩ := hbefore.trace
  obtain ⟨events₇, htrace₇, hbytes₇, -, hreading₇⟩ := hafter.trace
  have hall : t.trace = events₂ ++ .reading t₂.driver.active.entriesAscending :: (events ++ events₇) := by
    rw [htrace₇, htrace, htrace₂]
    simp
  refine ⟨hframes, ?_, t₂.driver.active.entriesAscending, fun streams => ?_, fun hready peer id hmem
    hnot => ?_⟩
  · rw [hall, readBytes_append, readBytes_reading, readBytes_append]
    omega
  · rw [hall, List.mem_append, List.mem_cons, List.mem_append]
    constructor
    · rintro (hmem | heq | hmem | hmem)
      · exact absurd hmem (hreading₂ streams)
      · exact WireEvent.reading.inj heq
      · exact absurd hmem (hreading streams)
      · exact absurd hmem (hreading₇ streams)
    · rintro rfl
      exact .inr (.inl rfl)
  · have hready₃ : t₃.driver.continueReady = false := by
      by_contra hset
      rw [hafter.ready ((Bool.not_eq_false _).mp hset)] at hready
      cases hready
    have hdrained := (hdrain hready₃ peer id hmem).quiet hafter
    exact ⟨hdrained.last_read.resolve_right hnot, hdrained.emptied⟩

/-- An adapter with one established connection, whose state is the input that waits there. -/
def oneConnection : WireTcpEndpoint (List UInt8) where
  accept input := (none, input)
  peer _ id := if id = 1 then some "npub1b" else none
  state _ id := if id = 1 then some .established else none
  isReadClosed _ _ := false
  read input _ readMax _ := (.ok (input.take readMax), input.drop readMax)
  write input _ chunk _ := (.ok chunk.length, input)
  abort input _ := (.ok (), input)
  close input _ _ := (.ok (), input)
  poll input _ := (.ok (), input)
  receiveReportFiltered input _ _ _ s := ((.ok { datagrams := 0, rejected := 0 }, input), s)
  backlog _ := 0
  accept_lt _ _ _ h := by cases h
  abort_le _ _ := Nat.le_refl 0
  read_le _ _ _ _ _ _ h := by
    cases h
    exact List.length_take_le _ _
  write_le _ _ _ _ _ _ h := by
    cases h
    exact Nat.le_refl _
  connect input _ _ := (.ok 1, input)
  abortPeer input _ := (.ok (), input)

/-- A driver of small limits on this adapter. -/
def oneConnectionConfig : WireConfig (List UInt8) where
  endpoint := oneConnection
  options :=
    { frameCapacity := 8, peerCapacity := 2, inboundPeerCapacity := 1, queueRecordsPerPeer := 4,
      queueBytesPerPeer := 64, driveIoBytes := 64, driveFrames := 4 }
  localNpub := "npub1a"

/-- The driver when a record of one byte has arrived. -/
def oneRecordWaiting : WireTcpDriver (List UInt8) where
  selectedPeers := {"npub1b"}
  inbound := ∅
  tcp := [0, 0, 0, 1, 7]
  connections := (∅ : Connections).insert 1 { peer := "npub1b", direction := .outbound }
  active := (∅ : Table ConnectionId).insert "npub1b" 1
  queues := ∅
  inputs := ∅
  continueReady := false

/-- Its turn. -/
def oneRecordTurn : Except PubsubError WireTcpReport × WireTurn (List UInt8) :=
  driveReady oneConnectionConfig 0 { driver := oneRecordWaiting, trace := [] }

theorem driveReady_drained_one :
    oneRecordTurn.2.trace = [.reading [("npub1b", 1)], .read 1 [0, 0, 0, 1, 7], .read 1 []] ∧
    oneRecordTurn.2.driver.Emptied "npub1b" := by
  let report : WireTcpReport :=
    { frames := [("npub1b", [7])], newlyConnected := [], disconnected := [], connectedPeers := 1
      rejectedFrames := 0, writtenBytes := 0 }
  have htrace : oneRecordTurn.2.trace
      = [.reading [("npub1b", 1)], .read 1 [0, 0, 0, 1, 7], .read 1 []] := by decide +kernel
  have hok : oneRecordTurn.1 = .ok report := by decide +kernel
  obtain ⟨-, -, streams, hstreams, hdrained⟩ := driveReady_drained oneConnectionConfig 0
    oneRecordWaiting report oneRecordTurn.2 (Prod.ext hok rfl)
  refine ⟨htrace, (hdrained (by decide +kernel) "npub1b" 1 ?_ ?_).2⟩
  · have hmem := (hstreams [("npub1b", 1)]).mp (by rw [htrace]; decide)
    rw [← hmem]
    exact List.mem_cons_self
  · rw [htrace]
    decide

end WireTcpDriver

end NostrPubsub.WireTcp
