import Mathlib.Logic.Function.Basic
import NostrPubsub.Fips.ClientSafety

/-!
# A network of clients

Clients that know each other by their npubs, each with threads of its own. A frame arrives at a client
only after the client of its sender queued it. Nothing else is assumed of the transport: frames may be
lost, repeated, and overtake each other. Of the JSON that the clients share it is assumed that it reads
back what they wrote in the run (`ReadsBack`).

Every announcement that arrives anywhere goes back, hop by hop, to a client that the event starts from,
and has at most the hop limit that it started with. Every event that an application gets starts from a
client of the network.
-/

namespace NostrPubsub.Fips

open Threads

variable {nostr : NostrCrate}

/-! ## What is read back -/

/-- A message whose JSON form is accepted is well formed. -/
theorem wellFormed_of_decodeValue {json : NostrJson} {message read : FipsPubsubWireMessage nostr}
    (h : decodeValue json (message.toValue json) = .ok read) : message.WellFormed := by
  cases message with
  | req subscriptionId filters =>
    rintro rfl
    simp [FipsPubsubWireMessage.toValue, decodeValue_array, decodeFields] at h
  | inv ids eventId eventKind payloadBytes hopLimit =>
    have hinv : decodeInv json [.string "INV", .array (ids.map .string), .string eventId.toHex,
        .nat eventKind.toNat, .nat payloadBytes.toNat, .nat hopLimit.toNat] = .ok read := h
    obtain ⟨accepted, _, _, _, hops, hids, -, -, -, hhops, hpositive, -⟩ := decodeInv_eq_ok.mp hinv
    obtain ⟨hfield, hne, hnodup⟩ := decodeSubscriptionIds_eq_ok.mp hids
    have hsame : ids = accepted := by
      have hmap : ids.map Value.string = accepted.map Value.string := by simpa using hfield
      exact List.map_injective_iff.mpr (fun _ _ htext => Value.string.inj htext) hmap
    subst hsame
    refine ⟨hne, hnodup, ?_⟩
    rintro rfl
    have hzero : some 0 = some hops := (decodeUnsigned_eq_ok.mp hhops).1
    exact hpositive (Option.some.inj hzero).symm
  | _ => trivial

/-- A frame that one codec wrote is read as what was written by any other, if it is read at all. -/
theorem eq_of_decodeFrame {json : NostrJson} {message read : FipsPubsubWireMessage nostr}
    (htrips : json.RoundTrips message) {writer reader : FipsPubsubWireCodec} {frame : Frame}
    (hencode : writer.encodeFrame json message = .ok frame)
    (hdecode : reader.decodeFrame json frame = .ok read) : read = message := by
  obtain ⟨_, -, hframe⟩ := Except.bind_eq_ok.mp hencode
  cases hframe
  obtain ⟨_, -, hvalue⟩ := Except.bind_eq_ok.mp hdecode
  rw [if_neg htrips.toBytes_ne, htrips.fromSlice] at hvalue
  have hvalue' : decodeValue json (message.toValue json) = .ok read := hvalue
  rw [decodeValue_toValue htrips.readsValue (wellFormed_of_decodeValue hvalue')] at hvalue'
  exact (Except.ok.inj hvalue').symm

/-! ## Networks -/

/-- Clients by their npubs. They share the JSON of the `nostr` crate. -/
structure ClientNetwork where
  setup : String → ClientSetup
  json : NostrJson

variable (nostr) in
/-- What may happen next at a client. -/
abbrev ClientMove : Type := World.Move (Input nostr) (@Request.Answer nostr)

variable (nostr) in
/-- The clients of a network while they run. -/
abbrev ClientWorlds : Type := String → World (ClientInner nostr) (Input nostr) (@Request.Answer nostr)

namespace ClientNetwork

/-- The frame was queued for a peer. -/
def isQueued (peer : String) (frame : Frame) (history : History nostr) : Bool :=
  history.any fun entry =>
    match entry with
    | .answered (.queueFrame receiver queued) _ =>
      decide (receiver = peer) && decide (queued = frame)
    | _ => false

/-- Every frame of a report was queued by its sender. -/
def isDelivered (worlds : ClientWorlds nostr) (npub : String) : ClientMove nostr → Bool
  | .start (.wireReport report) =>
    report.frames.all fun entry => isQueued npub entry.2 (worlds entry.1).history
  | _ => true

variable (network : ClientNetwork)

/-- A client of the network. -/
def client (npub : String) : ClientSetup := { network.setup npub with json := network.json }

/-- The JSON reads back the messages whose frames the clients queued. -/
def ReadsBack (worlds : ClientWorlds nostr) : Prop :=
  ∀ npub peer frame (message : FipsPubsubWireMessage nostr),
    isQueued peer frame (worlds npub).history = true →
      (network.client npub).encode message = .ok frame → network.json.RoundTrips message

/-- A move of one client. Nothing happens where a frame arrives that was not sent. -/
def step (move : String × ClientMove nostr) (worlds : ClientWorlds nostr) :
    Unit × ClientWorlds nostr :=
  if isDelivered worlds move.1 move.2 then
    ((), Function.update worlds move.1
      (World.step (network.client move.1).program move.2 (worlds move.1)).2)
  else ((), worlds)

/-- The network after some moves. -/
def run (moves : List (String × ClientMove nostr)) : ClientWorlds nostr :=
  Mealy.after network.step (fun npub => ⟨(network.client npub).start, [], []⟩) moves

/-- An event with the id starts from a client of the network, with at least so many hops. -/
def Traced (worlds : ClientWorlds nostr) (eventId : EventId) (hops : ℕ) : Prop :=
  ∃ (origin : String) (event : VerifiedEvent nostr), event.event.id = eventId ∧
    (network.client origin).Originates (worlds origin).history event ∧
    hops ≤ (network.client origin).options.maxHops.toNat

/-- Every announcement that arrived goes back to a client that the event starts from. -/
def TracesBack (worlds : ClientWorlds nostr) : Prop :=
  ∀ npub peer subscriptionIds eventId eventKind payloadBytes hopLimit,
    (network.client npub).Received (worlds npub).history peer
        (.inv subscriptionIds eventId eventKind payloadBytes hopLimit) →
      network.Traced worlds eventId hopLimit.toNat

/-- The event starts from a client of the network. -/
def Starts (worlds : ClientWorlds nostr) (event : VerifiedEvent nostr) : Prop :=
  ∃ origin, (network.client origin).Originates (worlds origin).history event

/-- Every event that a client knows starts from a client of the network. -/
def EventsStart (worlds : ClientWorlds nostr) : Prop :=
  ∀ npub event, (network.client npub).Known (worlds npub).history event → network.Starts worlds event

/-- Every event that an application got starts from a client of the network. -/
def HandsOverStarted (worlds : ClientWorlds nostr) : Prop :=
  ∀ npub key found, Entry.answered (Request.handOver key found) () ∈ (worlds npub).history →
    network.Starts worlds found.event

variable {network} {worlds later : ClientWorlds nostr}

/-- What a client wrote, another reads back or not at all. -/
theorem ReadsBack.reads (h : network.ReadsBack worlds) {sender receiver peer : String}
    {message read : FipsPubsubWireMessage nostr} {frame : Frame}
    (hqueued : isQueued peer frame (worlds sender).history = true)
    (hencode : (network.client sender).encode message = .ok frame)
    (hdecode : (network.client receiver).decode frame = .ok read) : read = message :=
  eq_of_decodeFrame (h sender peer frame message hqueued hencode) hencode hdecode

/-- A frame that was queued stays queued as the history grows. -/
theorem isQueued_mono {peer : String} {frame : Frame} {history longer : History nostr}
    (h : isQueued peer frame history = true) (hlonger : history <+: longer) :
    isQueued peer frame longer = true := by
  obtain ⟨entry, hmem, hentry⟩ := List.any_eq_true.mp h
  exact List.any_eq_true.mpr ⟨entry, hlonger.subset hmem, hentry⟩

/-- What was read back in a run was read back until then. -/
theorem ReadsBack.anti (h : network.ReadsBack later)
    (hlater : ∀ npub, (worlds npub).history <+: (later npub).history) : network.ReadsBack worlds :=
  fun npub peer frame message hqueued =>
    h npub peer frame message (isQueued_mono hqueued (hlater npub))

/-- A frame that was queued was queued at some point of the history. -/
theorem exists_of_isQueued {peer : String} {frame : Frame} {history : History nostr}
    (h : isQueued peer frame history = true) :
    ∃ (before : History nostr) (answer : Except PubsubError Unit),
      before ++ [.answered (Request.queueFrame peer frame) answer] <+: history := by
  obtain ⟨entry, hmem, hentry⟩ := List.any_eq_true.mp h
  obtain ⟨before, after, rfl⟩ := List.append_of_mem hmem
  split at hentry
  · next receiver queued answer =>
    rw [Bool.and_eq_true, decide_eq_true_eq, decide_eq_true_eq] at hentry
    obtain ⟨rfl, rfl⟩ := hentry
    exact ⟨before, answer, after, by rw [List.append_assoc]; rfl⟩
  · cases hentry

/-- An event that started somewhere has started as the histories grow. -/
theorem Starts.mono {event : VerifiedEvent nostr} (h : network.Starts worlds event)
    (hlater : ∀ npub, (worlds npub).history <+: (later npub).history) :
    network.Starts later event := by
  obtain ⟨origin, horiginates⟩ := h
  exact ⟨origin, horiginates.mono (hlater origin)⟩

/-- An announcement that was traced back stays so as the histories grow. -/
theorem Traced.mono {eventId : EventId} {hops : ℕ} (h : network.Traced worlds eventId hops)
    (hlater : ∀ npub, (worlds npub).history <+: (later npub).history) :
    network.Traced later eventId hops := by
  obtain ⟨origin, event, hid, horiginates, hhops⟩ := h
  exact ⟨origin, event, hid, horiginates.mono (hlater origin), hhops⟩

variable (network) in
/-- What holds of a network at any time: every client keeps its contract, and the announcements and the
events that arrived go back to where the events start. -/
structure Sound (worlds : ClientWorlds nostr) : Prop where
  keeps : ∀ npub, (worlds npub).Keeps (network.client npub).contract
  traces : network.TracesBack worlds
  starts : network.EventsStart worlds

/-- What a client queued was explained by what had happened to it until then. -/
theorem Sound.explained_of_isQueued (h : network.Sound worlds) {sender receiver : String}
    {frame : Frame} (hqueued : isQueued receiver frame (worlds sender).history = true) :
    ∃ before, before <+: (worlds sender).history ∧
      (network.client sender).Explained before receiver frame := by
  obtain ⟨before, answer, hbefore⟩ := exists_of_isQueued hqueued
  refine ⟨before, (List.prefix_append _ _).trans hbefore, ?_⟩
  exact (h.keeps sender).asked before (Request.queueFrame receiver frame) answer hbefore

/-- An announcement that a client queued goes back to where its event starts: from the client itself, or
from where an earlier announcement goes back to. -/
theorem Sound.traced_of_isQueued (h : network.Sound worlds) (hreads : network.ReadsBack worlds)
    {sender receiver : String} {frame : Frame}
    (hqueued : isQueued receiver frame (worlds sender).history = true)
    {subscriptionIds : List String} {eventId : EventId} {eventKind : UInt16} {payloadBytes : UInt32}
    {hopLimit : UInt8} (hdecode : (network.client receiver).decode frame =
      .ok (.inv subscriptionIds eventId eventKind payloadBytes hopLimit : FipsPubsubWireMessage nostr)) :
    network.Traced worlds eventId hopLimit.toNat := by
  obtain ⟨before, hearlier, hexplained⟩ := h.explained_of_isQueued hqueued
  -- an announcement is only ever read from a frame that was written as one
  cases hexplained with
  | closed hencode => cases hreads.reads hqueued hencode hdecode
  | replayed hencode hopened => cases hreads.reads hqueued hencode hdecode
  | retried hannounced hid hencode => cases hreads.reads hqueued hencode hdecode
  | guarded hencode hjustified =>
    cases hreads.reads hqueued hencode hdecode
    cases hjustified with
    | inv hasks hpassed hbytes hbudget =>
      rcases hbudget with ⟨rfl, horiginates⟩ | hannounced
      · -- the event starts at the sender itself
        exact ⟨sender, _, rfl, horiginates.mono hearlier, le_rfl⟩
      · -- the sender heard of the event with one hop more
        obtain ⟨peer, ids, otherId, kind, bytes, hops, hreceived, hid, hhops⟩ := hannounced
        obtain ⟨origin, event, rfl, horiginates, hle⟩ :=
          h.traces sender peer ids otherId kind bytes hops (hreceived.mono hearlier)
        refine ⟨origin, event, EventId.toHex_injective hid, horiginates, ?_⟩
        omega

/-- An event that a client queued starts from a client of the network. -/
theorem Sound.starts_of_isQueued (h : network.Sound worlds) (hreads : network.ReadsBack worlds)
    {sender receiver : String} {frame : Frame}
    (hqueued : isQueued receiver frame (worlds sender).history = true) {subscriptionId : String}
    {event : VerifiedEvent nostr} (hdecode : (network.client receiver).decode frame =
      .ok (.event (some subscriptionId) event)) : network.Starts worlds event := by
  obtain ⟨before, hearlier, hexplained⟩ := h.explained_of_isQueued hqueued
  -- an event under a subscription is only ever read from the answer to a WANT
  cases hexplained with
  | closed hencode => cases hreads.reads hqueued hencode hdecode
  | replayed hencode hopened => cases hreads.reads hqueued hencode hdecode
  | retried hannounced hid hencode => cases hreads.reads hqueued hencode hdecode
  | guarded hencode hjustified =>
    cases hreads.reads hqueued hencode hdecode
    cases hjustified with
    | answer hwanted hasks hpassed => exact h.starts sender event (hpassed.1.mono hearlier)

/-- A report that has come to a client came before the last move, or its frames were queued by their
senders. -/
theorem started_or_queued {mover npub : String} {move : ClientMove nostr}
    (hdelivered : isDelivered worlds mover move = true) {report : ClientReport}
    (hstarted : Entry.started (Input.wireReport report) ∈ (Function.update worlds mover
      (World.step (network.client mover).program move (worlds mover)).2 npub).history) :
    Entry.started (Input.wireReport report) ∈ (worlds npub).history ∨
      ∀ entry ∈ report.frames, isQueued npub entry.2 (worlds entry.1).history = true := by
  by_cases hnpub : npub = mover
  · subst hnpub
    rw [Function.update_self] at hstarted
    rcases World.started_of_step hstarted with hold | rfl
    · exact .inl hold
    · exact .inr (List.all_eq_true.mp hdelivered)
  · rw [Function.update_of_ne hnpub] at hstarted
    exact .inl hstarted

/-- A client moves, and every frame that arrives with the move was queued by its sender. -/
theorem Sound.update (h : network.Sound worlds) (hreads : network.ReadsBack worlds) {mover : String}
    {move : ClientMove nostr}
    (hdelivered : isDelivered worlds mover move = true) :
    network.Sound (Function.update worlds mover
      (World.step (network.client mover).program move (worlds mover)).2) := by
  -- histories only grow, so what went back to a client still does
  have hlater : ∀ npub, (worlds npub).history <+: (Function.update worlds mover
      (World.step (network.client mover).program move (worlds mover)).2 npub).history := by
    intro npub
    by_cases hnpub : npub = mover
    · subst hnpub
      rw [Function.update_self]
      exact World.prefix_step move _
    · rw [Function.update_of_ne hnpub]
  refine ⟨fun npub => ?_, fun npub peer ids eventId kind bytes hops hreceived => ?_,
    fun npub event hknown => ?_⟩
  · by_cases hnpub : npub = mover
    · subst hnpub
      rw [Function.update_self]
      exact World.Keeps.step (fun history input => ClientSetup.runs_program history input) move
        (h.keeps npub)
    · rw [Function.update_of_ne hnpub]
      exact h.keeps npub
  · obtain ⟨report, frame, hstarted, hframe, hdecode⟩ := hreceived
    refine Traced.mono ?_ hlater
    rcases started_or_queued hdelivered hstarted with hold | hqueued
    · exact h.traces npub peer ids eventId kind bytes hops ⟨report, frame, hold, hframe, hdecode⟩
    · exact h.traced_of_isQueued hreads (hqueued (peer, frame) hframe) hdecode
  · rcases hknown with horiginates | ⟨peer, subscriptionId, report, frame, hstarted, hframe, hdecode⟩
    · exact ⟨npub, horiginates⟩
    · refine Starts.mono ?_ hlater
      rcases started_or_queued hdelivered hstarted with hold | hqueued
      · have hreceived : (network.client npub).Received (worlds npub).history peer
            (.event (some subscriptionId) event) := ⟨report, frame, hold, hframe, hdecode⟩
        exact h.starts npub event (.inr ⟨peer, subscriptionId, hreceived⟩)
      · exact h.starts_of_isQueued hreads (hqueued (peer, frame) hframe) hdecode

/-- Histories only grow. -/
theorem prefix_step (move : String × ClientMove nostr) (npub : String) :
    (worlds npub).history <+: ((network.step move worlds).2 npub).history := by
  unfold ClientNetwork.step
  split
  · dsimp only
    by_cases hnpub : npub = move.1
    · rw [hnpub, Function.update_self]
      exact World.prefix_step move.2 _
    · rw [Function.update_of_ne hnpub]
  · exact List.prefix_rfl

/-- A move of one client keeps the network sound; a frame that was never queued is not delivered. -/
theorem Sound.step (h : network.Sound worlds) (hreads : network.ReadsBack worlds)
    (move : String × ClientMove nostr) : network.Sound (network.step move worlds).2 := by
  unfold ClientNetwork.step
  split
  · next hdelivered => exact h.update hreads hdelivered
  · exact h

/-- Every run is sound whose messages are read back as they were written. -/
theorem sound_run {moves : List (String × ClientMove nostr)}
    (h : network.ReadsBack (network.run moves)) : network.Sound (network.run moves) := by
  induction moves using List.reverseRecOn with
  | nil =>
    -- at first nothing has come to any client
    refine ⟨fun npub => ?_, ?_, ?_⟩
    · exact World.safe_run (ClientSetup.holds_start _)
        (fun history input => ClientSetup.runs_program history input) []
    · rintro npub peer ids eventId kind bytes hops ⟨report, frame, hstarted, -⟩
      cases hstarted
    · rintro npub event (horiginates | ⟨peer, subscriptionId, report, frame, hstarted, -⟩)
      · exact ⟨npub, horiginates⟩
      · cases hstarted
  | append_singleton moves move ih =>
    unfold run at h ih ⊢
    rw [Mealy.after_concat] at h ⊢
    have hreads := h.anti (prefix_step move)
    exact (ih hreads).step hreads move

/-- Whatever the clients of a network do, and however their frames are lost, repeated or delayed, every
announcement that arrives anywhere goes back to a client that the event starts from, with no more hops
than that client gave it. -/
theorem announcements_trace_back (network : ClientNetwork)
    (moves : List (String × ClientMove nostr)) (hreads : network.ReadsBack (network.run moves)) :
    network.TracesBack (network.run moves) :=
  (sound_run hreads).traces

/-- No client of a network hands its application an event that did not start at some client of it. -/
theorem handed_over_events_start (network : ClientNetwork)
    (moves : List (String × ClientMove nostr)) (hreads : network.ReadsBack (network.run moves)) :
    network.HandsOverStarted (network.run moves) := by
  intro npub key found hmem
  have h := sound_run hreads
  obtain ⟨before, after, hsplit⟩ := List.append_of_mem hmem
  have hbefore : before ++ [Entry.answered (Request.handOver key found) ()] <+:
      (network.run moves npub).history := ⟨after, by rw [hsplit, List.append_assoc]; rfl⟩
  -- the contract held at the moment the application got the event
  obtain ⟨hsourced, -⟩ := (h.keeps npub).asked before (Request.handOver key found) () hbefore
  exact h.starts npub found.event (hsourced.1.mono ((List.prefix_append _ _).trans hbefore))

/-! ## Turn by turn

Where every thread runs to its end before the next starts, and what arrives was sent, each client goes
its own way. -/

variable (nostr) in
/-- A client starts a thread and goes on with its threads. -/
structure ClientTurn where
  npub : String
  input : Input nostr
  rest : List (ClientMove nostr)
  calm : ∀ move ∈ rest, ∀ input, move ≠ .start input

/-- What the client does in a turn. -/
def ClientTurn.own (turn : ClientTurn nostr) : List (ClientMove nostr) := .start turn.input :: turn.rest

/-- The turn as moves of the network. -/
def ClientTurn.moves (turn : ClientTurn nostr) : List (String × ClientMove nostr) :=
  turn.own.map fun move => (turn.npub, move)

variable (network) in
/-- Every client after its own turns. -/
def apart (turns : List (ClientTurn nostr)) : ClientWorlds nostr := fun npub =>
  (network.client npub).run nostr ((turns.filter fun turn => turn.npub = npub).flatMap ClientTurn.own)

variable (network) in
/-- What arrives with each of the turns was sent in those before. -/
def allDelivered : List (ClientTurn nostr) → List (ClientTurn nostr) → Bool
  | _, [] => true
  | before, turn :: rest =>
    isDelivered (network.apart before) turn.npub (.start turn.input) &&
      allDelivered (before ++ [turn]) rest

/-- A delivered move changes its own client. -/
theorem step_of_isDelivered {npub : String} {move : ClientMove nostr}
    (h : isDelivered worlds npub move = true) :
    (network.step (npub, move) worlds).2 = Function.update worlds npub
      (World.step (network.client npub).program move (worlds npub)).2 := by
  rw [step, if_pos h]

/-- Moves that start nothing change their own client. -/
theorem after_calm {npub : String} {moves : List (ClientMove nostr)}
    (hcalm : ∀ move ∈ moves, ∀ input, move ≠ .start input) :
    Mealy.after network.step worlds (moves.map fun move => (npub, move)) =
      Function.update worlds npub
        (Mealy.after (World.step (network.client npub).program) (worlds npub) moves) := by
  induction moves generalizing worlds with
  | nil => exact (Function.update_eq_self npub worlds).symm
  | cons move moves ih =>
    obtain ⟨hmove, hmoves⟩ := List.forall_mem_cons.mp hcalm
    have hdelivered : isDelivered worlds npub move = true := by
      cases move with
      | start input => exact absurd rfl (hmove input)
      | proceed index => rfl
      | reply index answers => rfl
      | cancel index => rfl
    rw [List.map_cons, Mealy.after_cons, step_of_isDelivered hdelivered, ih hmoves,
      Function.update_idem, Function.update_self, Mealy.after_cons]

/-- One more turn moves its own client only. -/
theorem apart_concat (turns : List (ClientTurn nostr)) (turn : ClientTurn nostr) :
    network.apart (turns ++ [turn]) = Function.update (network.apart turns) turn.npub
      (Mealy.after (World.step (network.client turn.npub).program) (network.apart turns turn.npub)
        turn.own) := by
  funext npub
  by_cases hnpub : npub = turn.npub
  · subst hnpub
    rw [Function.update_self]
    simp only [apart, ClientSetup.run, World.run, List.filter_append, List.flatMap_append,
      Mealy.after_append]
    simp
  · rw [Function.update_of_ne hnpub]
    simp [apart, Ne.symm hnpub]

/-- Turn by turn, the network is its clients apart. -/
theorem run_eq_apart {turns : List (ClientTurn nostr)} (h : network.allDelivered [] turns = true) :
    network.run (turns.flatMap ClientTurn.moves) = network.apart turns := by
  have hstep : ∀ before rest : List (ClientTurn nostr),
      network.run (before.flatMap ClientTurn.moves) = network.apart before →
        network.allDelivered before rest = true →
          network.run ((before ++ rest).flatMap ClientTurn.moves) = network.apart (before ++ rest) := by
    intro before rest
    induction rest generalizing before with
    | nil =>
      intro hbefore _
      rwa [List.append_nil]
    | cons turn rest ih =>
      intro hbefore hdelivered
      rw [allDelivered, Bool.and_eq_true] at hdelivered
      have hturn : network.run ((before ++ [turn]).flatMap ClientTurn.moves) =
          network.apart (before ++ [turn]) := by
        unfold run at hbefore ⊢
        rw [List.flatMap_append, List.flatMap_singleton, Mealy.after_append, hbefore,
          ClientTurn.moves, ClientTurn.own, List.map_cons, Mealy.after_cons,
          step_of_isDelivered hdelivered.1, after_calm turn.calm, Function.update_idem,
          Function.update_self, apart_concat, ClientTurn.own, Mealy.after_cons]
      have hrest := ih (before ++ [turn]) hturn hdelivered.2
      rwa [List.append_assoc] at hrest
  exact hstep [] turns rfl h

/-! ## Three clients in a row -/

/-- No other filter has the JSON form of this one. -/
theorem eq_of_limitValue {filter : WireFilter}
    (h : limitValue filter = limitValue { limit := some 8 }) : filter = { limit := some 8 } := by
  unfold limitValue at h
  rw [if_pos (show ({ limit := some 8 } : WireFilter) = { limit := some 8 } from rfl)] at h
  split at h
  · next honly =>
    rw [honly]
    cases hlimit : filter.limit with
    | none => simp [hlimit] at h
    | some limit =>
      have hsame : limit = 8 := by simpa [hlimit, Value.nat] using h
      rw [hsame]
  · cases h

/-- The JSON forms of these messages tell them from all others. -/
theorem eq_of_toValue {message relayed : FipsPubsubWireMessage noteCrate}
    (hrelayed : relayed ∈ relayMessages)
    (h : message.toValue writingJson = relayed.toValue writingJson) : message = relayed := by
  -- Only two events verify in this crate, and their values differ.
  have hevent : ∀ event : VerifiedEvent noteCrate,
      untaggedValue event.event = untaggedValue noteA → event = verifiedA := by
    rintro ⟨event, hverified⟩ hvalue
    rcases noteCrate_verify hverified with rfl | rfl
    · rfl
    · exact absurd hvalue (show untaggedValue noteB ≠ untaggedValue noteA by decide +kernel)
  have hid : ∀ eventId : EventId, eventId.toHex = noteA.id.toHex → eventId = noteA.id :=
    fun eventId => @EventId.toHex_injective eventId noteA.id
  have hinventory : ∀ hopLimit, message.toValue writingJson =
      (relayInventory hopLimit).toValue writingJson → message = relayInventory hopLimit := by
    intro hopLimit hvalue
    cases message with
    | inv ids eventId eventKind payloadBytes hops =>
      simp only [FipsPubsubWireMessage.toValue, relayInventory, Value.array.injEq, List.cons.injEq,
        Value.string.injEq, Value.nat, Value.number.injEq, Number.posInt.injEq, UInt16.toNat_inj,
        UInt32.toNat_inj, UInt8.toNat_inj, true_and, and_true, List.map_cons, List.map_nil] at hvalue
      obtain ⟨hids, heventId, rfl, rfl, rfl⟩ := hvalue
      obtain ⟨id, rfl, hname⟩ := List.map_eq_singleton_iff.mp hids
      rw [hid eventId heventId, Value.string.inj hname]
      rfl
    | event subscriptionId _ =>
      cases subscriptionId <;> simp [FipsPubsubWireMessage.toValue, relayInventory] at hvalue
    | _ => simp [FipsPubsubWireMessage.toValue, relayInventory] at hvalue
  -- Any other kind of message starts with another word.
  simp only [relayMessages, List.mem_cons, List.not_mem_nil, or_false] at hrelayed
  rcases hrelayed with rfl | rfl | rfl | rfl | rfl
  · cases message with
    | req subscriptionId filters =>
      simp only [FipsPubsubWireMessage.toValue, relayRequest, writingJson, Value.array.injEq,
        List.cons.injEq, Value.string.injEq, true_and, List.map_cons, List.map_nil] at h
      obtain ⟨rfl, hfilters⟩ := h
      obtain ⟨filter, rfl, hfilter⟩ := List.map_eq_singleton_iff.mp hfilters
      rw [eq_of_limitValue hfilter]
      rfl
    | event subscriptionId _ =>
      cases subscriptionId <;> simp [FipsPubsubWireMessage.toValue, relayRequest] at h
    | _ => simp [FipsPubsubWireMessage.toValue, relayRequest] at h
  · exact hinventory 4 h
  · exact hinventory 3 h
  · cases message with
    | want eventId =>
      simp only [FipsPubsubWireMessage.toValue, relayWant, Value.array.injEq, List.cons.injEq,
        Value.string.injEq, true_and, and_true] at h
      rw [hid eventId h]
      rfl
    | event subscriptionId _ =>
      cases subscriptionId <;> simp [FipsPubsubWireMessage.toValue, relayWant] at h
    | _ => simp [FipsPubsubWireMessage.toValue, relayWant] at h
  · cases message with
    | event subscriptionId event =>
      cases subscriptionId with
      | none => simp [FipsPubsubWireMessage.toValue, relayEvent] at h
      | some subscriptionId =>
        simp only [FipsPubsubWireMessage.toValue, relayEvent, writingJson, Value.array.injEq,
          List.cons.injEq, Value.string.injEq, true_and, and_true] at h
        obtain ⟨rfl, hvalue⟩ := h
        rw [hevent event hvalue]
        rfl
    | _ => simp [FipsPubsubWireMessage.toValue, relayEvent] at h

/-- What the crates write of these messages, and what they read of that. -/
theorem relayJson_reads :
    (∀ message ∈ relayMessages, relayJson.toBytes (message.toValue relayJson) ≠ [] ∧
      relayJson.fromSlice (relayJson.toBytes (message.toValue relayJson)) =
        .ok (message.toValue relayJson)) ∧
    relayJson.clientFromValue (relayRequest.toValue relayJson) =
      .ok (.req "fips-1" [{ limit := some 8 }]) ∧
    relayJson.relayFromValue (relayEvent.toValue relayJson) = .ok (.event "fips-1" noteA) ∧
    relayJson.eventIdFromHex noteA.id.toHex = .ok noteA.id := by
  decide +kernel

/-- The crates read back each of these messages. -/
theorem roundTrips_relay : ∀ message ∈ relayMessages, relayJson.RoundTrips message := by
  obtain ⟨hwritten, hrequest, hevent, hid⟩ := relayJson_reads
  have hreads : ∀ message ∈ relayMessages, relayJson.ReadsValue message := by
    intro message hmem
    simp only [relayMessages, List.mem_cons, List.not_mem_nil, or_false] at hmem
    rcases hmem with rfl | rfl | rfl | rfl | rfl
    · exact fun _ => hrequest
    · exact hid
    · exact hid
    · exact hid
    · exact hevent
  exact fun message hmem => ⟨(hwritten message hmem).1, (hwritten message hmem).2, hreads message hmem⟩

/-- What these crates write at all, they read back. -/
theorem roundTrips_of_toBytes_ne {message : FipsPubsubWireMessage noteCrate}
    (h : relayJson.toBytes (message.toValue relayJson) ≠ []) : relayJson.RoundTrips message := by
  have hwritten : (relayMessage (message.toValue relayJson)).isSome = true := by
    by_contra hnone
    exact h (if_neg hnone)
  obtain ⟨relayed, hrelayed⟩ := Option.isSome_iff_exists.mp hwritten
  have hfound : relayMessages.find? (fun other =>
      other.toValue writingJson = message.toValue relayJson) = some relayed := hrelayed
  have hvalue : relayed.toValue writingJson = message.toValue relayJson := by
    simpa using List.find?_some hfound
  have hsame : message.toValue relayJson = message.toValue writingJson := by
    cases message with
    | event subscriptionId _ => cases subscriptionId <;> rfl
    | _ => rfl
  rw [eq_of_toValue (List.mem_of_find?_eq_some hfound) (hsame.symm.trans hvalue.symm)]
  exact roundTrips_relay relayed (List.mem_of_find?_eq_some hfound)

/-- Client `b` is linked to `a`, and client `c` to `b`. -/
def relayNetwork : ClientNetwork where
  setup := relayClient
  json := relayJson

/-- The moves that run a thread to its end start no other. -/
theorem relay_calm (peers : List String) (index : ℕ) :
    ∀ move ∈ (List.replicate 16 [World.Move.proceed index, .reply index (relayAnswers peers)]).flatten,
      ∀ input : Input noteCrate, move ≠ .start input := by
  intro move hmem input
  obtain ⟨moves, hmoves, hmove⟩ := List.mem_flatten.mp hmem
  rw [(List.mem_replicate.mp hmoves).2] at hmove
  rintro rfl
  simp at hmove

/-- A client that is linked to these peers runs the thread of an input to its end. -/
def relayTurnOf (npub : String) (peers : List String) (index : ℕ) (input : Input noteCrate) :
    ClientTurn noteCrate where
  npub
  input
  rest := (List.replicate 16 [.proceed index, .reply index (relayAnswers peers)]).flatten
  calm := relay_calm peers index

/-- The requests go up the row, and a note that `a` publishes comes down. -/
def networkTurns : List (ClientTurn noteCrate) :=
  [relayTurnOf "b" ["a"] 0 (.subscribe [] false), relayTurnOf "b" [] 1 .readyTurn,
    relayTurnOf "c" ["b"] 0 (.subscribe [] false), relayTurnOf "c" [] 1 .readyTurn,
    relayTurnOf "a" [] 0 (relayReport "b" relayRequest),
    relayTurnOf "b" [] 2 (relayReport "c" relayRequest),
    relayTurnOf "a" [] 1 (.publish verifiedA ⟨"app", .localIndex, none⟩),
    relayTurnOf "a" [] 2 .readyTurn,
    relayTurnOf "b" [] 3 (relayReport "a" (relayInventory 4)), relayTurnOf "b" [] 4 .readyTurn,
    relayTurnOf "a" [] 3 (relayReport "b" relayWant), relayTurnOf "a" [] 4 .readyTurn,
    relayTurnOf "b" [] 5 (relayReport "a" relayEvent), relayTurnOf "b" [] 6 .readyTurn,
    relayTurnOf "c" [] 2 (relayReport "b" (relayInventory 3)), relayTurnOf "c" [] 3 .readyTurn,
    relayTurnOf "b" [] 7 (relayReport "c" relayWant), relayTurnOf "b" [] 8 .readyTurn,
    relayTurnOf "c" [] 4 (relayReport "b" relayEvent), relayTurnOf "c" [] 5 (.receive "fips-1")]

/-- In the run every frame that arrives was queued before, and none was queued without a message in
it. The announcement reaches `c` through `b`, and in the end the application of `c` takes the note. -/
theorem network_run :
    relayNetwork.allDelivered [] networkTurns = true ∧
    (∀ npub ∈ ["a", "b", "c"], ((relayNetwork.apart networkTurns) npub).history.all (fun entry =>
      match entry with
      | .answered (.queueFrame _ frame) _ => decide (frame ≠ [])
      | _ => true) = true) ∧
    ((relayNetwork.apart networkTurns) "c").history.any (fun entry =>
      match entry with
      | .started (.wireReport report) => report.frames.any fun entry => decide (entry.1 = "b" ∧
          (relayNetwork.client "c").decode entry.2 = .ok (relayInventory 3))
      | _ => false) = true ∧
    ((relayNetwork.apart networkTurns) "c").history.any (fun entry =>
      match entry with
      | .answered (.handOver _ found) _ => decide (found.event = verifiedA)
      | _ => false) = true := by
  decide +kernel

/-- The network may take the turns one by one. -/
theorem run_networkTurns : relayNetwork.run (networkTurns.flatMap ClientTurn.moves) =
    relayNetwork.apart networkTurns :=
  run_eq_apart network_run.1

/-- No frame was queued without a message in it. -/
theorem networkTurns_write (npub : String) :
    ((relayNetwork.apart networkTurns) npub).history.all (fun entry =>
      match entry with
      | .answered (.queueFrame _ frame) _ => decide (frame ≠ [])
      | _ => true) = true := by
  by_cases hnpub : npub ∈ ["a", "b", "c"]
  · exact network_run.2.1 npub hnpub
  · -- nothing happens at any other client
    have hrow : ∀ turn ∈ networkTurns, turn.npub ∈ ["a", "b", "c"] := by decide +kernel
    have hnone : networkTurns.filter (fun turn => turn.npub = npub) = [] := by
      refine List.filter_eq_nil_iff.mpr fun turn hturn hsame => hnpub ?_
      rw [← of_decide_eq_true hsame]
      exact hrow turn hturn
    rw [apart, hnone]
    rfl

/-- The messages of the turns are read back as they were written. -/
theorem relay_readsBack : relayNetwork.ReadsBack (relayNetwork.apart networkTurns) := by
  intro npub peer frame message hqueued hencode
  obtain ⟨entry, hmem, hentry⟩ := List.any_eq_true.mp hqueued
  have hwrites := List.all_eq_true.mp (networkTurns_write npub) entry hmem
  obtain ⟨_, -, hframe⟩ := Except.bind_eq_ok.mp hencode
  cases hframe
  split at hentry
  · rw [Bool.and_eq_true, decide_eq_true_eq, decide_eq_true_eq] at hentry
    obtain ⟨rfl, rfl⟩ := hentry
    -- a message that is not one of those written has no bytes
    exact roundTrips_of_toBytes_ne (of_decide_eq_true hwrites)
  · cases hentry

/-- The announcement that reaches `c` traces back to the publication at `a`, with three hops left. -/
theorem announcements_trace_back_relay :
    (relayNetwork.client "c").Received
        (relayNetwork.run (networkTurns.flatMap ClientTurn.moves) "c").history "b" (relayInventory 3) ∧
      relayNetwork.Traced (relayNetwork.run (networkTurns.flatMap ClientTurn.moves)) noteA.id 3 := by
  have htraces := announcements_trace_back relayNetwork (networkTurns.flatMap ClientTurn.moves)
  rw [run_networkTurns] at htraces ⊢
  obtain ⟨entry, hmem, hentry⟩ := List.any_eq_true.mp network_run.2.2.1
  split at hentry
  · next report =>
    obtain ⟨⟨peer, frame⟩, hframe, hdecode⟩ := List.any_eq_true.mp hentry
    obtain ⟨rfl, hdecode⟩ := of_decide_eq_true hdecode
    have hreceived : (relayNetwork.client "c").Received (relayNetwork.apart networkTurns "c").history
        "b" (relayInventory 3) := ⟨report, frame, hmem, hframe, hdecode⟩
    exact ⟨hreceived, htraces relay_readsBack "c" "b" _ _ _ _ _ hreceived⟩
  · cases hentry

/-- The note that the application of `c` takes started at a client of the network. -/
theorem handed_over_events_start_relay : ∃ key found, found.event = verifiedA ∧
    Entry.answered (Request.handOver key found) () ∈
        (relayNetwork.run (networkTurns.flatMap ClientTurn.moves) "c").history ∧
      relayNetwork.Starts (relayNetwork.run (networkTurns.flatMap ClientTurn.moves)) found.event := by
  have hstarts := handed_over_events_start relayNetwork (networkTurns.flatMap ClientTurn.moves)
  rw [run_networkTurns] at hstarts ⊢
  obtain ⟨entry, hmem, hentry⟩ := List.any_eq_true.mp network_run.2.2.2
  split at hentry
  · next key found _ =>
    exact ⟨key, found, of_decide_eq_true hentry, hmem, hstarts relay_readsBack "c" key found hmem⟩
  · cases hentry

end ClientNetwork

end NostrPubsub.Fips
