import NostrPubsub.Stream.Faults

/-!
# Coalesced records

A peer's bytes reach the stream in pieces. `receiveChunks` feeds the pieces, one call of
`receive_bytes` each, and collects the actions; feeding every record in its own call is the
same function on the framed records. The two agree, and nothing that the mesh has booked is lost,
unless a call takes the first bad record out of the buffer together with records before it, or a
record before the first bad one has an answer that does not fit into a record: the error then returns
in place of actions that the mesh has already booked.
-/

namespace NostrPubsub

/-- The policies of a comparison between runs: they never fail, and which peers are selected
does not depend on the calls so far. -/
structure StreamConfig.FixedPolicies {nostr : NostrCrate} {σ : Type}
    (config : StreamConfig nostr σ) : Prop where
  peers : ∀ selectMeshPeer, config.peerPolicy = some selectMeshPeer →
    ∃ chosen : String → Option MeshPeer, ∀ policies peerId,
      selectMeshPeer policies peerId = (.ok (chosen peerId), policies)
  events : ∀ checkEvent, config.eventPolicy = some checkEvent →
    ∀ policies verified source, ∃ decision, (checkEvent policies verified source).1 = .ok decision

namespace FipsInvWantStream

variable {nostr : NostrCrate} {σ : Type} {config : StreamConfig nostr σ}

/-- Every id that entered the delivered window since `s` is among the actions. -/
def HandsOver (s : FipsInvWantStream config)
    (result : List (FipsInvWantStreamAction nostr) × FipsInvWantStream config) : Prop :=
  ∀ eventId ∈ result.2.mesh.deliveredEvents, eventId ∈ s.mesh.deliveredEvents ∨
    ∃ delivered : QueryEvent nostr,
      .deliver delivered ∈ result.1 ∧ delivered.event.event.id.toHex = eventId

/-- An id that entered the window without a delivery is not handed over. -/
theorem not_handsOver {s : FipsInvWantStream config}
    {result : List (FipsInvWantStreamAction nostr) × FipsInvWantStream config} {eventId : String}
    (hbooked : (result.2.mesh.deliveredEvents.lookup eventId).isSome = true)
    (hbefore : s.mesh.deliveredEvents.lookup eventId = none)
    (hnone : deliveries result.1 = []) : ¬HandsOver s result := by
  intro h
  rcases h eventId (Finmap.lookup_isSome.mp hbooked) with hold | ⟨delivered, hmem, _⟩
  · exact Finmap.lookup_eq_none.mp hbefore hold
  · have hdelivered := mem_deliveries.mpr hmem
    rw [hnone] at hdelivered
    exact absurd hdelivered List.not_mem_nil

section Calls

variable (order : RouteOrder) (sourcePeer : String) (connectedPeers : List String) (nowMs : ℕ)

/-- Feed pieces of a peer's bytes, one call each, up to the first error: the actions returned
to the caller, and the stream after the last call. -/
def receiveChunks : List (List UInt8) → FipsInvWantStream config →
    List (FipsInvWantStreamAction nostr) × FipsInvWantStream config
  | [], s => ([], s)
  | chunk :: chunks, s =>
    match s.receiveBytes order sourcePeer chunk connectedPeers nowMs with
    | (.error _, s) => ([], s)
    | (.ok actions, s) =>
      let (rest, s) := receiveChunks chunks s
      (actions ++ rest, s)

/-- Every piece respects the remaining input capacity at its call, and unless a call failed
no complete record is left in the buffer at the end. Pieces may be empty. -/
def ProperCut : List (List UInt8) → FipsInvWantStream config → Prop
  | [], s => s.hasReadyInput sourcePeer = false
  | chunk :: chunks, s =>
    chunk.length ≤ s.remainingInputCapacity sourcePeer ∧
      match s.receiveBytes order sourcePeer chunk connectedPeers nowMs with
      | (.error _, _) => True
      | (.ok _, s) => ProperCut chunks s

instance decidableProperCut : ∀ (chunks : List (List UInt8)) (s : FipsInvWantStream config),
    Decidable (ProperCut order sourcePeer connectedPeers nowMs chunks s)
  | [], s => decidable_of_iff (s.hasReadyInput sourcePeer = false) (by rw [ProperCut])
  | chunk :: chunks, s =>
    match h : s.receiveBytes order sourcePeer chunk connectedPeers nowMs with
    | (.error _, _) =>
      decidable_of_iff (chunk.length ≤ s.remainingInputCapacity sourcePeer ∧ True)
        (by rw [ProperCut, h])
    | (.ok _, s') =>
      have := decidableProperCut chunks s'
      decidable_of_iff (chunk.length ≤ s.remainingInputCapacity sourcePeer ∧
        ProperCut order sourcePeer connectedPeers nowMs chunks s') (by rw [ProperCut, h])

/-- The bytes of a record in its own call. -/
def framed (record : List UInt8) : List UInt8 := LengthPrefix.frame lengthPrefixBytes record

/-- The connected peers of a call, as far as the peer policy selects them. -/
def selectedPeers (s : FipsInvWantStream config) : List MeshPeer :=
  (s.selectPeers connectedPeers).1.toOption.getD []

/-- The records before the first bad one, each on the stream that those before it leave. -/
def goodRecords : List (List UInt8) → FipsInvWantStream config → List (List UInt8)
  | [], _ => []
  | record :: records, s =>
    if isBad order sourcePeer (selectedPeers connectedPeers s) nowMs record s then []
    else
      record :: goodRecords records
        (s.receiveBytes order sourcePeer (framed record) connectedPeers nowMs).2

/-- Every record before the first bad one is answered with messages that fit into records. -/
def AnswersFit : List (List UInt8) → FipsInvWantStream config → Prop
  | [], _ => True
  | record :: records, s =>
    isBad order sourcePeer (selectedPeers connectedPeers s) nowMs record s = true ∨
      answerFits order sourcePeer (selectedPeers connectedPeers s) nowMs record s = true ∧
        AnswersFit records (s.receiveBytes order sourcePeer (framed record) connectedPeers nowMs).2

instance decidableAnswersFit : ∀ (records : List (List UInt8)) (s : FipsInvWantStream config),
    Decidable (AnswersFit order sourcePeer connectedPeers nowMs records s)
  | [], _ => inferInstanceAs (Decidable True)
  | record :: records, s =>
    have := decidableAnswersFit records
      (s.receiveBytes order sourcePeer (framed record) connectedPeers nowMs).2
    inferInstanceAs (Decidable
      (isBad order sourcePeer (selectedPeers connectedPeers s) nowMs record s = true ∨
        answerFits order sourcePeer (selectedPeers connectedPeers s) nowMs record s = true ∧
          AnswersFit order sourcePeer connectedPeers nowMs records
            (s.receiveBytes order sourcePeer (framed record) connectedPeers nowMs).2))

/-- No work is lost by cutting the bytes into `chunks`: the caller gets the actions of the
records fed one by one, and every id that enters the delivered window is handed to it. -/
structure NoLostWork (chunks : List (List UInt8)) (s : FipsInvWantStream config) : Prop where
  actions_eq : (receiveChunks order sourcePeer connectedPeers nowMs chunks s).1 =
    (receiveChunks order sourcePeer connectedPeers nowMs
      ((LengthPrefix.records lengthPrefixBytes config.options.maxRecordBytes
        chunks.flatten).map framed) s).1
  handed : HandsOver s (receiveChunks order sourcePeer connectedPeers nowMs chunks s)

end Calls

/-- While good records are left, every call takes good records only: the first bad record
(undecodable, rejected or over-long) is never taken out of the buffer with one before it. -/
def NeverMixed (maxRecordBytes maxRecords : ℕ) : ℕ → List UInt8 → List (List UInt8) → Prop
  | 0, _, _ => True
  | _ + 1, _, [] => True
  | good + 1, buffer, chunk :: chunks =>
    match takeRecords maxRecordBytes maxRecords (buffer ++ chunk) with
    | .error _ => False
    | .ok (records, left) =>
      records.length ≤ good + 1 ∧
        NeverMixed maxRecordBytes maxRecords (good + 1 - records.length) left chunks

instance decidableNeverMixed (maxRecordBytes maxRecords : ℕ) : ∀ good buffer chunks,
    Decidable (NeverMixed maxRecordBytes maxRecords good buffer chunks)
  | 0, _, _ => decidable_of_iff True (by simp [NeverMixed])
  | _ + 1, _, [] => decidable_of_iff True (by simp [NeverMixed])
  | good + 1, buffer, chunk :: chunks =>
    match h : takeRecords maxRecordBytes maxRecords (buffer ++ chunk) with
    | .error _ => decidable_of_iff False (by rw [NeverMixed, h])
    | .ok (records, left) =>
      have := decidableNeverMixed maxRecordBytes maxRecords (good + 1 - records.length) left chunks
      decidable_of_iff (records.length ≤ good + 1 ∧
        NeverMixed maxRecordBytes maxRecords (good + 1 - records.length) left chunks)
        (by rw [NeverMixed, h])

/-- When nothing is lost: every record before the first bad one has an answer that fits, and no call
takes the first bad record together with one before it. -/
structure TakesBadAlone (order : RouteOrder) (sourcePeer : String) (connectedPeers : List String)
    (nowMs : ℕ) (chunks : List (List UInt8)) (s : FipsInvWantStream config) : Prop where
  fit : AnswersFit order sourcePeer connectedPeers nowMs
    (LengthPrefix.records lengthPrefixBytes config.options.maxRecordBytes chunks.flatten) s
  apart : NeverMixed config.options.maxRecordBytes config.options.maxRecordsPerReceive
    (goodRecords order sourcePeer connectedPeers nowMs
      (LengthPrefix.records lengthPrefixBytes config.options.maxRecordBytes chunks.flatten)
      s).length [] chunks

/-- While a good record is left, a call takes a batch of good records. -/
theorem NeverMixed.taken {maxRecordBytes maxRecords good : ℕ} {buffer chunk : List UInt8}
    {chunks : List (List UInt8)}
    (h : NeverMixed maxRecordBytes maxRecords good buffer (chunk :: chunks)) (hgood : good ≠ 0) :
    ∃ records left, takeRecords maxRecordBytes maxRecords (buffer ++ chunk) = .ok (records, left) ∧
      records.length ≤ good ∧
      NeverMixed maxRecordBytes maxRecords (good - records.length) left chunks := by
  obtain ⟨good, rfl⟩ := Nat.exists_eq_succ_of_ne_zero hgood
  rw [Nat.succ_eq_add_one, NeverMixed] at h
  split at h
  · exact absurd h id
  · next records left htake => exact ⟨records, left, htake, h⟩

/-! ## Records of a cut stream -/

/-- The records that a call takes are the first of the stream. -/
theorem records_append_of_takeRecords {maxRecordBytes maxRecords : ℕ} {input left : List UInt8}
    {records : List (List UInt8)}
    (h : takeRecords maxRecordBytes maxRecords input = .ok (records, left)) (more : List UInt8) :
    LengthPrefix.records lengthPrefixBytes maxRecordBytes (input ++ more) =
      records ++ LengthPrefix.records lengthPrefixBytes maxRecordBytes (left ++ more) := by
  induction maxRecords generalizing input records with
  | zero =>
    cases h
    rfl
  | succ maxRecords ih =>
    rw [takeRecords] at h
    split at h
    · cases h
      rfl
    · cases h
    · next payload rest hfront =>
      obtain ⟨⟨records', left'⟩, hrest, heq⟩ := Except.bind_eq_ok.mp h
      cases heq
      rw [LengthPrefix.records_of_record (by decide)
        (LengthPrefix.front_append_of_record hfront more), ih hrest, List.cons_append]

/-- A framed record is taken whole, and nothing is left. -/
theorem takeRecords_framed {maxRecordBytes maxRecords : ℕ} (hlimit : maxRecordBytes ≤ u32Max)
    (hrecords : 0 < maxRecords) {record : List UInt8} (h : record.length ≤ maxRecordBytes) :
    takeRecords maxRecordBytes maxRecords (framed record) = .ok ([record], []) := by
  obtain ⟨maxRecords, rfl⟩ := Nat.exists_eq_add_of_lt hrecords
  have hfits : record.length < 256 ^ lengthPrefixBytes := by
    have hpow : 256 ^ lengthPrefixBytes = u32Max + 1 := by decide
    omega
  have hfront : LengthPrefix.front lengthPrefixBytes maxRecordBytes (framed record)
      = .record record [] := by
    simpa [framed] using LengthPrefix.front_frame_append hfits h []
  have hnone : takeRecords maxRecordBytes maxRecords [] = .ok ([], []) := by
    cases maxRecords with
    | zero => rfl
    | succ n => simp [takeRecords, LengthPrefix.front, lengthPrefixBytes]
  rw [Nat.zero_add, takeRecords, hfront]
  simp only [hnone]
  rfl

/-! ## Handling records one by one -/

section Handling

variable {order : RouteOrder} {sourcePeer : String} {peers : List MeshPeer} {nowMs : ℕ}

/-- Handle records up to the first that fails: the actions of those before it, and the stream
after it. -/
def handleEach (order : RouteOrder) (sourcePeer : String) (peers : List MeshPeer) (nowMs : ℕ) :
    List (List UInt8) → FipsInvWantStream config →
      List (FipsInvWantStreamAction nostr) × FipsInvWantStream config
  | [], s => ([], s)
  | record :: records, s =>
    match s.receiveRecord order sourcePeer peers nowMs record with
    | (.error _, s) => ([], s)
    | (.ok actions, s) =>
      let (rest, s) := handleEach order sourcePeer peers nowMs records s
      (actions ++ rest, s)

/-- How many records are handled before the first that fails. -/
def handledCount (order : RouteOrder) (sourcePeer : String) (peers : List MeshPeer) (nowMs : ℕ) :
    List (List UInt8) → FipsInvWantStream config → ℕ
  | [], _ => 0
  | record :: records, s =>
    match s.receiveRecord order sourcePeer peers nowMs record with
    | (.error _, _) => 0
    | (.ok _, s) => handledCount order sourcePeer peers nowMs records s + 1

/-- The first record that fails, if any, is bad. -/
def StopsAtBad (order : RouteOrder) (sourcePeer : String) (peers : List MeshPeer) (nowMs : ℕ) :
    List (List UInt8) → FipsInvWantStream config → Prop
  | [], _ => True
  | record :: records, s =>
    match s.receiveRecord order sourcePeer peers nowMs record with
    | (.error _, _) => isBad order sourcePeer peers nowMs record s = true
    | (.ok _, s) => StopsAtBad order sourcePeer peers nowMs records s

theorem handleEach_withInputs (records : List (List UInt8)) (s : FipsInvWantStream config)
    (inputs : Table (RecordDecoder config.options.maxRecordBytes)) :
    handleEach order sourcePeer peers nowMs records (s.withInputs inputs) =
      ((handleEach order sourcePeer peers nowMs records s).1,
        (handleEach order sourcePeer peers nowMs records s).2.withInputs inputs) := by
  induction records generalizing s with
  | nil => rfl
  | cons record records ih =>
    rw [handleEach, handleEach, receiveRecord_withInputs]
    rcases s.receiveRecord order sourcePeer peers nowMs record with ⟨error | actions, s'⟩
    · rfl
    · simp only [ih]

theorem handledCount_withInputs (records : List (List UInt8)) (s : FipsInvWantStream config)
    (inputs : Table (RecordDecoder config.options.maxRecordBytes)) :
    handledCount order sourcePeer peers nowMs records (s.withInputs inputs) =
      handledCount order sourcePeer peers nowMs records s := by
  induction records generalizing s with
  | nil => rfl
  | cons record records ih =>
    rw [handledCount, handledCount, receiveRecord_withInputs]
    rcases s.receiveRecord order sourcePeer peers nowMs record with ⟨error | actions, s'⟩
    · rfl
    · simp only [ih]

theorem stopsAtBad_withInputs (records : List (List UInt8)) (s : FipsInvWantStream config)
    (inputs : Table (RecordDecoder config.options.maxRecordBytes)) :
    StopsAtBad order sourcePeer peers nowMs records (s.withInputs inputs) ↔
      StopsAtBad order sourcePeer peers nowMs records s := by
  induction records generalizing s with
  | nil => rfl
  | cons record records ih =>
    rw [StopsAtBad, StopsAtBad, receiveRecord_withInputs, isBad_withInputs]
    rcases s.receiveRecord order sourcePeer peers nowMs record with ⟨error | actions, s'⟩
    · rfl
    · simp only [ih]

/-- A batch without a failing record returns what its records return one by one, and the
stream goes on from there. -/
theorem receiveRecords_of_handled {records rest : List (List UInt8)}
    {s : FipsInvWantStream config}
    (h : records.length ≤ handledCount order sourcePeer peers nowMs (records ++ rest) s) :
    receiveRecords order sourcePeer peers nowMs records s =
        (.ok (handleEach order sourcePeer peers nowMs records s).1,
          (handleEach order sourcePeer peers nowMs records s).2) ∧
      (handleEach order sourcePeer peers nowMs (records ++ rest) s).1 =
        (handleEach order sourcePeer peers nowMs records s).1 ++
          (handleEach order sourcePeer peers nowMs rest
            (handleEach order sourcePeer peers nowMs records s).2).1 ∧
      handledCount order sourcePeer peers nowMs (records ++ rest) s = records.length +
        handledCount order sourcePeer peers nowMs rest
          (handleEach order sourcePeer peers nowMs records s).2 ∧
      (StopsAtBad order sourcePeer peers nowMs (records ++ rest) s →
        StopsAtBad order sourcePeer peers nowMs rest
          (handleEach order sourcePeer peers nowMs records s).2) := by
  induction records generalizing s with
  | nil => simp [receiveRecords, handleEach]
  | cons record records ih =>
    rw [List.cons_append, handledCount] at h
    rw [receiveRecords, List.cons_append, handleEach, handleEach, handledCount, StopsAtBad]
    rcases hrecord : s.receiveRecord order sourcePeer peers nowMs record
      with ⟨error | actions, s'⟩
    · rw [hrecord] at h
      simp at h
    · rw [hrecord] at h
      simp only [List.length_cons, Nat.add_le_add_iff_right] at h
      obtain ⟨hreceive, hactions, hcount, hstops⟩ := ih h
      simp only [hreceive, hactions, hcount, List.append_assoc, List.length_cons]
      exact ⟨trivial, trivial, by omega, hstops⟩

/-- Nothing enters the delivered window unseen while the records are handled. -/
theorem handleEach_handsOver {records rest : List (List UInt8)} {s : FipsInvWantStream config}
    (h : records.length ≤ handledCount order sourcePeer peers nowMs (records ++ rest) s) :
    HandsOver s (handleEach order sourcePeer peers nowMs records s) := by
  intro eventId hdelivered
  induction records generalizing s with
  | nil => exact Or.inl hdelivered
  | cons record records ih =>
    rw [List.cons_append, handledCount] at h
    rw [handleEach] at hdelivered ⊢
    rcases hrecord : s.receiveRecord order sourcePeer peers nowMs record
      with ⟨error | actions, s'⟩
    · rw [hrecord] at h
      simp at h
    · rw [hrecord] at h hdelivered
      simp only [List.length_cons, Nat.add_le_add_iff_right] at h
      rcases ih h hdelivered with hbefore | ⟨delivered, hmem, hid⟩
      · have hs' : eventId
            ∈ (s.receiveRecord order sourcePeer peers nowMs record).2.mesh.deliveredEvents := by
          rw [hrecord]
          exact hbefore
        rcases receiveRecord_delivered (by rw [hrecord]) hs' with hold | ⟨delivered, hmem, hid⟩
        · exact Or.inl hold
        · exact Or.inr ⟨delivered, List.mem_append_left _ hmem, hid⟩
      · exact Or.inr ⟨delivered, List.mem_append_right _ hmem, hid⟩

/-- A bad record delivers nothing. -/
theorem deliveredEvents_of_isBad {record : List UInt8} {s : FipsInvWantStream config}
    (hbad : isBad order sourcePeer peers nowMs record s = true) {eventId : String}
    (h : eventId
      ∈ (s.receiveRecord order sourcePeer peers nowMs record).2.mesh.deliveredEvents) :
    eventId ∈ s.mesh.deliveredEvents := by
  obtain ⟨policies, hsnd⟩ := receiveRecord_snd order sourcePeer peers nowMs record s
  rw [hsnd] at h
  rcases apply_delivered h with hold | ⟨peer, event, hdeliver, _⟩
  · exact hold
  · have hnone := Handled.answer_of_isRejected hbad
    rw [Handled.answer] at hnone
    rw [hnone] at hdeliver
    exact absurd hdeliver List.not_mem_nil

end Handling

/-! ## One call -/

theorem selectPeer_of_fixed (h : config.FixedPolicies) :
    ∃ chosen : String → Option MeshPeer, ∀ (s : FipsInvWantStream config) (peerId : String),
      s.selectPeer peerId = (.ok (chosen peerId), s) := by
  cases hpolicy : config.peerPolicy with
  | none => exact ⟨fun peerId => some (.new peerId), fun s peerId => by simp [selectPeer, hpolicy]⟩
  | some selectMeshPeer =>
    obtain ⟨chosen, hchosen⟩ := h.peers selectMeshPeer hpolicy
    refine ⟨fun peerId => (chosen peerId).map fun peer => { peer with id := peerId }, ?_⟩
    intro s peerId
    simp [selectPeer, hpolicy, hchosen, Except.map]

theorem selectPeers_of_fixed (h : config.FixedPolicies) (connectedPeers : List String) :
    ∃ peers, ∀ s : FipsInvWantStream config, s.selectPeers connectedPeers = (.ok peers, s) := by
  obtain ⟨chosen, hchosen⟩ := selectPeer_of_fixed h
  have hinto : ∀ (peerIds : List String) (selected : Table MeshPeer),
      ∃ table, ∀ s : FipsInvWantStream config,
        selectPeersInto selected peerIds s = (.ok table, s) := by
    intro peerIds
    induction peerIds with
    | nil => exact fun selected => ⟨selected, fun s => rfl⟩
    | cons peerId peerIds ih =>
      intro selected
      cases hpeer : chosen peerId with
      | none =>
        obtain ⟨table, htable⟩ := ih selected
        exact ⟨table, fun s => by simp [selectPeersInto, hchosen, hpeer, htable]⟩
      | some peer =>
        obtain ⟨table, htable⟩ := ih (selected.insert peerId peer)
        exact ⟨table, fun s => by simp [selectPeersInto, hchosen, hpeer, htable]⟩
  obtain ⟨table, htable⟩ := hinto connectedPeers ∅
  exact ⟨_, fun s => by rw [selectPeers, htable]; rfl⟩

theorem remainingInputCapacity_eq (s : FipsInvWantStream config) (peerId : String) :
    s.remainingInputCapacity peerId = (s.decoder peerId).remainingCapacity := by
  unfold remainingInputCapacity decoder
  cases s.inputs.lookup peerId with
  | none => simp [RecordDecoder.remainingCapacity, RecordDecoder.new]
  | some decoder => rfl

theorem hasReadyInput_eq (s : FipsInvWantStream config) (peerId : String) :
    s.hasReadyInput peerId = (s.decoder peerId).hasCompleteRecord := by
  unfold hasReadyInput decoder
  cases s.inputs.lookup peerId with
  | none => simp [RecordDecoder.hasCompleteRecord, RecordDecoder.new, lengthPrefixBytes]
  | some decoder => rfl

/-- A peer whose bytes are handled: it is selected, the stream has or makes a decoder for it,
and `peers` are the connected peers selected with it. -/
structure Served (sourcePeer : String) (connectedPeers : List String) (peers : List MeshPeer)
    (s : FipsInvWantStream config) : Prop where
  selected : ∀ t : FipsInvWantStream config, ∃ peer, t.selectPeer sourcePeer = (.ok (some peer), t)
  connected : ∀ t : FipsInvWantStream config, t.selectPeers connectedPeers = (.ok peers, t)
  room : ¬(sourcePeer ∉ s.inputs ∧ config.options.maxInputPeers ≤ s.inputs.size)

section Served

variable {order : RouteOrder} {sourcePeer : String} {connectedPeers : List String}
  {peers : List MeshPeer} {nowMs : ℕ} {s : FipsInvWantStream config} {bytes : List UInt8}

/-- The stream with another decoder for the peer is still ready for it. -/
theorem Served.insert (h : Served sourcePeer connectedPeers peers s) (t : FipsInvWantStream config)
    (decoder : RecordDecoder config.options.maxRecordBytes) :
    Served sourcePeer connectedPeers peers
      (t.withInputs (s.inputs.insert sourcePeer decoder)) where
  selected := h.selected
  connected := h.connected
  room hfull := hfull.1 (Finmap.mem_insert.mpr (Or.inl rfl))

/-- A call whose bytes complete `records` handles them and buffers the rest. -/
theorem receiveBytes_of_take (h : Served sourcePeer connectedPeers peers s)
    (hfits : bytes.length ≤ s.remainingInputCapacity sourcePeer)
    {records : List (List UInt8)} {left : List UInt8}
    (htake : takeRecords config.options.maxRecordBytes config.options.maxRecordsPerReceive
      ((s.decoder sourcePeer).buffer ++ bytes) = .ok (records, left)) :
    ∃ decoder : RecordDecoder config.options.maxRecordBytes, decoder.buffer = left ∧
      s.receiveBytes order sourcePeer bytes connectedPeers nowMs =
        receiveRecords order sourcePeer peers nowMs records
          (s.withInputs (s.inputs.insert sourcePeer decoder)) := by
  rw [remainingInputCapacity_eq] at hfits
  obtain ⟨hle, hpush⟩ := RecordDecoder.push_eq_ok hfits htake
  obtain ⟨peer, hpeer⟩ := h.selected s
  refine ⟨{ buffer := left, length_le := hle }, rfl, ?_⟩
  simp only [receiveBytes, hpeer, decodeRecords, if_neg h.room, hpush, h.connected, withInputs]

/-- A call that meets an over-long length clears the buffer and fails. -/
theorem receiveBytes_of_tooLong (h : Served sourcePeer connectedPeers peers s)
    (hfits : bytes.length ≤ s.remainingInputCapacity sourcePeer) {error : PubsubError}
    (htake : takeRecords config.options.maxRecordBytes config.options.maxRecordsPerReceive
      ((s.decoder sourcePeer).buffer ++ bytes) = .error error) :
    s.receiveBytes order sourcePeer bytes connectedPeers nowMs =
      (.error error, s.withInputs (s.inputs.insert sourcePeer (.new _))) := by
  rw [remainingInputCapacity_eq] at hfits
  obtain ⟨peer, hpeer⟩ := h.selected s
  simp only [receiveBytes, hpeer, decodeRecords, if_neg h.room,
    RecordDecoder.push_eq_error hfits htake, withInputs]

/-- The decoder that a call leaves for its peer. -/
theorem decoder_insert (t : FipsInvWantStream config)
    (decoder : RecordDecoder config.options.maxRecordBytes) :
    (t.withInputs (s.inputs.insert sourcePeer decoder)).decoder sourcePeer = decoder := by
  simp [FipsInvWantStream.decoder, withInputs]

/-- Records fed in their own calls are handled one by one. -/
theorem receiveChunks_framed (h : Served sourcePeer connectedPeers peers s)
    (hpolicies : ∀ (record : List UInt8) (t : FipsInvWantStream config),
      policyFails sourcePeer record t = false)
    (hempty : (s.decoder sourcePeer).buffer = []) {records : List (List UInt8)}
    (hlength : ∀ record ∈ records, record.length ≤ config.options.maxRecordBytes) :
    (receiveChunks order sourcePeer connectedPeers nowMs (records.map framed) s).1 =
        (handleEach order sourcePeer peers nowMs records s).1 ∧
      (AnswersFit order sourcePeer connectedPeers nowMs records s →
        (goodRecords order sourcePeer connectedPeers nowMs records s).length =
            handledCount order sourcePeer peers nowMs records s ∧
          StopsAtBad order sourcePeer peers nowMs records s) := by
  induction records generalizing s with
  | nil => exact ⟨rfl, fun _ => ⟨rfl, trivial⟩⟩
  | cons record records ih =>
    obtain ⟨hlimit, -, hmany⟩ := config.limits
    have hrecord := hlength record List.mem_cons_self
    have hfits : (framed record).length ≤ s.remainingInputCapacity sourcePeer := by
      rw [remainingInputCapacity_eq, RecordDecoder.remainingCapacity, hempty]
      simp only [framed, LengthPrefix.frame, List.length_append,
        LengthPrefix.length_toBigEndian, List.length_nil]
      omega
    have htake : takeRecords config.options.maxRecordBytes config.options.maxRecordsPerReceive
        ((s.decoder sourcePeer).buffer ++ framed record) = .ok ([record], []) := by
      rw [hempty, List.nil_append]
      exact takeRecords_framed hlimit hmany hrecord
    obtain ⟨decoder, hdecoder, hcall⟩ := receiveBytes_of_take h hfits htake
    have hpeers : selectedPeers connectedPeers s = peers := by
      rw [selectedPeers, h.connected]
      rfl
    have hhandled : (s.receiveRecord order sourcePeer peers nowMs record).1.isOk =
        isHandled order sourcePeer peers nowMs record s := isOk_receiveRecord record s
    rw [List.map_cons, receiveChunks, goodRecords, AnswersFit, handleEach, handledCount,
      StopsAtBad, hcall, hpeers, receiveRecords, receiveRecord_withInputs]
    rcases hresult : s.receiveRecord order sourcePeer peers nowMs record with ⟨error | actions, s'⟩
    · rw [hresult] at hhandled
      refine ⟨rfl, fun hfit => ?_⟩
      -- the record is bad, as neither a policy nor an answer makes it fail
      have hbad : isBad order sourcePeer peers nowMs record s = true := by
        rcases hfit with hbad | ⟨hfit, -⟩
        · exact hbad
        · have hfailed : false = isHandled order sourcePeer peers nowMs record s := hhandled
          rw [isHandled, hfit, hpolicies record s] at hfailed
          simpa using hfailed.symm
      exact ⟨by rw [if_pos hbad]; rfl, hbad⟩
    · rw [hresult] at hhandled
      have hgood : ¬isBad order sourcePeer peers nowMs record s = true := by
        intro hbad
        rw [isHandled, hbad] at hhandled
        cases hhandled
      simp only [receiveRecords, List.append_nil]
      have hnext := ih (h.insert s' decoder) (by rw [decoder_insert, hdecoder])
        fun r hr => hlength r (List.mem_cons_of_mem record hr)
      rw [handleEach_withInputs, handledCount_withInputs, stopsAtBad_withInputs] at hnext
      obtain ⟨hactions, hcount⟩ := hnext
      refine ⟨by rw [hactions], fun hfit => ?_⟩
      obtain ⟨hgoods, hstops⟩ := hcount (hfit.resolve_left hgood).2
      exact ⟨by rw [if_neg hgood, List.length_cons, hgoods], hstops⟩

/-- A call that takes a batch of good records returns their actions. -/
theorem receiveBytes_of_handled (h : Served sourcePeer connectedPeers peers s)
    (hfits : bytes.length ≤ s.remainingInputCapacity sourcePeer)
    {batch rest : List (List UInt8)} {left : List UInt8}
    (htake : takeRecords config.options.maxRecordBytes config.options.maxRecordsPerReceive
      ((s.decoder sourcePeer).buffer ++ bytes) = .ok (batch, left))
    (hhandled : batch.length ≤ handledCount order sourcePeer peers nowMs (batch ++ rest) s) :
    ∃ decoder : RecordDecoder config.options.maxRecordBytes, decoder.buffer = left ∧
      s.receiveBytes order sourcePeer bytes connectedPeers nowMs =
        (.ok (handleEach order sourcePeer peers nowMs batch s).1,
          (handleEach order sourcePeer peers nowMs batch s).2.withInputs
            (s.inputs.insert sourcePeer decoder)) := by
  obtain ⟨decoder, hdecoder, hcall⟩ :=
    @receiveBytes_of_take _ _ _ order _ _ _ nowMs _ _ h hfits _ _ htake
  refine ⟨decoder, hdecoder, ?_⟩
  rw [← handledCount_withInputs _ _ (s.inputs.insert sourcePeer decoder)] at hhandled
  rw [hcall, (receiveRecords_of_handled hhandled).1, handleEach_withInputs]

/-- A call whose first record fails returns its error, and the rest of the batch is gone. -/
theorem receiveBytes_of_failed (h : Served sourcePeer connectedPeers peers s)
    (hfits : bytes.length ≤ s.remainingInputCapacity sourcePeer)
    {record : List UInt8} {batch rest : List (List UInt8)} {left : List UInt8}
    (htake : takeRecords config.options.maxRecordBytes config.options.maxRecordsPerReceive
      ((s.decoder sourcePeer).buffer ++ bytes) = .ok (record :: batch, left))
    (hfailed : handledCount order sourcePeer peers nowMs (record :: rest) s = 0) :
    ∃ error decoder, s.receiveBytes order sourcePeer bytes connectedPeers nowMs =
        (.error error,
          (s.receiveRecord order sourcePeer peers nowMs record).2.withInputs
            (s.inputs.insert sourcePeer decoder)) ∧
      (s.receiveRecord order sourcePeer peers nowMs record).1 = .error error := by
  obtain ⟨decoder, hdecoder, hcall⟩ :=
    @receiveBytes_of_take _ _ _ order _ _ _ nowMs _ _ h hfits _ _ htake
  rw [handledCount] at hfailed
  rw [hcall, receiveRecords, receiveRecord_withInputs]
  rcases hrecord : s.receiveRecord order sourcePeer peers nowMs record
    with ⟨error | actions, s'⟩
  · exact ⟨error, decoder, rfl, rfl⟩
  · rw [hrecord] at hfailed
    simp at hfailed

/-- The calls give the caller what the records still to come give one by one. -/
structure Faithful (order : RouteOrder) (sourcePeer : String) (connectedPeers : List String)
    (peers : List MeshPeer) (nowMs : ℕ) (chunks records : List (List UInt8))
    (s : FipsInvWantStream config) : Prop where
  actions_eq : (receiveChunks order sourcePeer connectedPeers nowMs chunks s).1 =
    (handleEach order sourcePeer peers nowMs records s).1
  handed : HandsOver s (receiveChunks order sourcePeer connectedPeers nowMs chunks s)

/-- A call that takes a batch of good records hands on their actions, and the later calls do
the rest. -/
theorem Faithful.cons {batch rest chunks : List (List UInt8)}
    {decoder : RecordDecoder config.options.maxRecordBytes}
    (hhandled : batch.length ≤ handledCount order sourcePeer peers nowMs (batch ++ rest) s)
    (hcall : s.receiveBytes order sourcePeer bytes connectedPeers nowMs =
      (.ok (handleEach order sourcePeer peers nowMs batch s).1,
        (handleEach order sourcePeer peers nowMs batch s).2.withInputs
          (s.inputs.insert sourcePeer decoder)))
    (hnext : Faithful order sourcePeer connectedPeers peers nowMs chunks rest
      ((handleEach order sourcePeer peers nowMs batch s).2.withInputs
        (s.inputs.insert sourcePeer decoder))) :
    Faithful order sourcePeer connectedPeers peers nowMs (bytes :: chunks) (batch ++ rest) s := by
  obtain ⟨_, hactions, _, _⟩ := receiveRecords_of_handled hhandled
  have hnextEq := hnext.actions_eq
  rw [handleEach_withInputs rest] at hnextEq
  refine ⟨?_, fun eventId hid => ?_⟩
  · rw [receiveChunks, hcall, hactions]
    simp only [hnextEq]
  · rw [receiveChunks, hcall] at hid ⊢
    rcases hnext.handed eventId hid with hbatch | ⟨delivered, hmem, heq⟩
    · rcases handleEach_handsOver hhandled eventId hbatch with hold | ⟨delivered, hmem, heq⟩
      · exact Or.inl hold
      · exact Or.inr ⟨delivered, List.mem_append_left _ hmem, heq⟩
    · exact Or.inr ⟨delivered, List.mem_append_right _ hmem, heq⟩

/-- A failing call that changes the delivered window in nothing has lost nothing, when no
good record is left. -/
theorem Faithful.failed {records chunks : List (List UInt8)} {error : PubsubError}
    {s' : FipsInvWantStream config}
    (hcall : s.receiveBytes order sourcePeer bytes connectedPeers nowMs = (.error error, s'))
    (hnone : handledCount order sourcePeer peers nowMs records s = 0)
    (hwindow : ∀ eventId ∈ s'.mesh.deliveredEvents, eventId ∈ s.mesh.deliveredEvents) :
    Faithful order sourcePeer connectedPeers peers nowMs (bytes :: chunks) records s := by
  have hsilent : (handleEach order sourcePeer peers nowMs records s).1 = [] := by
    cases records with
    | nil => rfl
    | cons record records =>
      rw [handledCount] at hnone
      rw [handleEach]
      rcases hrecord : s.receiveRecord order sourcePeer peers nowMs record
        with ⟨error | actions, s'⟩
      · rfl
      · rw [hrecord] at hnone
        simp at hnone
  refine ⟨?_, fun eventId hid => ?_⟩
  · rw [receiveChunks, hcall, hsilent]
  · rw [receiveChunks, hcall] at hid
    exact Or.inl (hwindow eventId hid)

/-- A cut that never mixes the first bad record with good ones is faithful. -/
theorem faithful_of_neverMixed (h : Served sourcePeer connectedPeers peers s)
    {chunks records : List (List UInt8)}
    (hrecords : LengthPrefix.records lengthPrefixBytes config.options.maxRecordBytes
      ((s.decoder sourcePeer).buffer ++ chunks.flatten) = records)
    (hcut : ProperCut order sourcePeer connectedPeers nowMs chunks s)
    (hmixed : NeverMixed config.options.maxRecordBytes config.options.maxRecordsPerReceive
      (handledCount order sourcePeer peers nowMs records s) (s.decoder sourcePeer).buffer chunks)
    (hstops : StopsAtBad order sourcePeer peers nowMs records s) :
    Faithful order sourcePeer connectedPeers peers nowMs chunks records s := by
  -- On the calls: `records` are the records still to come, in the buffer or in later pieces.
  induction chunks generalizing s records with
  | nil =>
    have hnone := RecordDecoder.records_buffer ((hasReadyInput_eq s sourcePeer).symm.trans hcut)
    rw [List.flatten_nil, List.append_nil, hnone] at hrecords
    subst hrecords
    exact ⟨rfl, fun eventId hid => Or.inl hid⟩
  | cons chunk chunks ih =>
    obtain ⟨hfits, hrest⟩ := hcut
    rw [List.flatten_cons, ← List.append_assoc] at hrecords
    have hgood : ∀ batch left, takeRecords config.options.maxRecordBytes
          config.options.maxRecordsPerReceive ((s.decoder sourcePeer).buffer ++ chunk)
            = .ok (batch, left) →
        batch.length ≤ handledCount order sourcePeer peers nowMs records s →
        NeverMixed config.options.maxRecordBytes config.options.maxRecordsPerReceive
          (handledCount order sourcePeer peers nowMs records s - batch.length) left chunks →
        Faithful order sourcePeer connectedPeers peers nowMs (chunk :: chunks) records s := by
      intro batch left htake hlength hnext
      rw [records_append_of_takeRecords htake] at hrecords
      subst hrecords
      obtain ⟨decoder, rfl, hcall⟩ := receiveBytes_of_handled h hfits htake hlength
      obtain ⟨_, _, hcount, hstop⟩ := receiveRecords_of_handled hlength
      rw [hcall] at hrest
      refine Faithful.cons hlength hcall (ih (h.insert _ decoder) ?_ hrest ?_ ?_)
      · rw [decoder_insert]
      · rw [decoder_insert, handledCount_withInputs]
        rwa [hcount, Nat.add_sub_cancel_left] at hnext
      · rw [stopsAtBad_withInputs]
        exact hstop hstops
    by_cases hnone : handledCount order sourcePeer peers nowMs records s = 0
    · -- No good record is left, so a failing call loses none.
      rcases htake : takeRecords config.options.maxRecordBytes config.options.maxRecordsPerReceive
        ((s.decoder sourcePeer).buffer ++ chunk) with error | ⟨batch, left⟩
      · exact .failed (receiveBytes_of_tooLong h hfits htake) hnone fun eventId hid => hid
      cases batch with
      | nil => exact hgood [] left htake (Nat.zero_le _) (by simp [hnone, NeverMixed])
      | cons record batch =>
        rw [records_append_of_takeRecords htake] at hrecords
        subst hrecords
        obtain ⟨error, decoder, hcall, hfailed⟩ := receiveBytes_of_failed h hfits htake hnone
        refine .failed hcall hnone fun eventId hid => deliveredEvents_of_isBad ?_ hid
        rw [List.cons_append, StopsAtBad] at hstops
        rcases hrecord : s.receiveRecord order sourcePeer peers nowMs record
          with ⟨error | actions, s'⟩
        · rw [hrecord] at hstops
          exact hstops
        · rw [hrecord] at hfailed
          cases hfailed
    · obtain ⟨batch, left, htake, hlength, hnext⟩ := hmixed.taken hnone
      exact hgood batch left htake hlength hnext

/-- The input of a peer that is not selected is ignored. -/
theorem receiveChunks_of_unselected
    (h : ∀ t : FipsInvWantStream config, t.selectPeer sourcePeer = (.ok none, t))
    (chunks : List (List UInt8)) :
    (receiveChunks order sourcePeer connectedPeers nowMs chunks s).1 = [] ∧
      (receiveChunks order sourcePeer connectedPeers nowMs chunks s).2.mesh = s.mesh := by
  induction chunks generalizing s with
  | nil => exact ⟨rfl, rfl⟩
  | cons chunk chunks ih =>
    have hcall : s.receiveBytes order sourcePeer chunk connectedPeers nowMs
        = (.ok [], s.disconnectPeer sourcePeer) := by
      simp only [receiveBytes, h]
    rw [receiveChunks, hcall]
    exact ih

/-- The input of a peer that the stream has no room for is refused. -/
theorem receiveChunks_of_full
    (hselected : ∃ peer, s.selectPeer sourcePeer = (.ok (some peer), s))
    (hfull : sourcePeer ∉ s.inputs ∧ config.options.maxInputPeers ≤ s.inputs.size)
    (chunks : List (List UInt8)) :
    receiveChunks order sourcePeer connectedPeers nowMs chunks s = ([], s) := by
  cases chunks with
  | nil => rfl
  | cons chunk chunks =>
    obtain ⟨peer, hpeer⟩ := hselected
    simp only [receiveChunks, receiveBytes, hpeer, decodeRecords, if_pos hfull]

end Served

end FipsInvWantStream

open FipsInvWantStream

/-- Fixed policies do not fail. -/
theorem policyFails_of_fixed {nostr : NostrCrate} {σ : Type} {config : StreamConfig nostr σ}
    (hpolicies : config.FixedPolicies) (sourcePeer : String) (record : List UInt8)
    (s : FipsInvWantStream config) : policyFails sourcePeer record s = false := by
  unfold policyFails checkEvent
  split
  · split
    · next verified _ =>
      cases hpolicy : config.eventPolicy with
      | none => rfl
      | some check =>
        obtain ⟨decision, hdecision⟩ :=
          hpolicies.events check hpolicy s.policies verified (.ofFipsEndpoint sourcePeer)
        simp only [hdecision]
        rfl
    · rfl
  · rfl

/-- No work is lost as long as every record before the first bad one has an answer that fits, and the
first bad record is never taken together with a record before it. -/
theorem noLostWork_of_takesBadAlone {nostr : NostrCrate} {σ : Type} {config : StreamConfig nostr σ}
    (hpolicies : config.FixedPolicies) (order : RouteOrder) (sourcePeer : String)
    (connectedPeers : List String) (nowMs : ℕ) (s : FipsInvWantStream config)
    (hempty : (s.decoder sourcePeer).buffer = []) (chunks : List (List UInt8))
    (hcut : ProperCut order sourcePeer connectedPeers nowMs chunks s)
    (h : TakesBadAlone order sourcePeer connectedPeers nowMs chunks s) :
    NoLostWork order sourcePeer connectedPeers nowMs chunks s := by
  obtain ⟨chosen, hchosen⟩ := selectPeer_of_fixed hpolicies
  obtain ⟨peers, hpeers⟩ := selectPeers_of_fixed hpolicies connectedPeers
  cases hsource : chosen sourcePeer with
  | none =>
    have hignored : ∀ t : FipsInvWantStream config, t.selectPeer sourcePeer = (.ok none, t) :=
      fun t => by rw [hchosen, hsource]
    refine ⟨?_, fun eventId hid => ?_⟩
    · rw [(receiveChunks_of_unselected hignored _).1, (receiveChunks_of_unselected hignored _).1]
    · rw [(receiveChunks_of_unselected hignored _).2] at hid
      exact Or.inl hid
  | some peer =>
    have hselected : ∀ t : FipsInvWantStream config,
        ∃ peer, t.selectPeer sourcePeer = (.ok (some peer), t) :=
      fun t => ⟨peer, by rw [hchosen, hsource]⟩
    by_cases hfull : sourcePeer ∉ s.inputs ∧ config.options.maxInputPeers ≤ s.inputs.size
    · refine ⟨?_, fun eventId hid => ?_⟩
      · rw [receiveChunks_of_full (hselected s) hfull, receiveChunks_of_full (hselected s) hfull]
      · rw [receiveChunks_of_full (hselected s) hfull] at hid
        exact Or.inl hid
    · have hserved : Served sourcePeer connectedPeers peers s := ⟨hselected, hpeers, hfull⟩
      obtain ⟨hactions, hfit⟩ :=
        receiveChunks_framed hserved (policyFails_of_fixed hpolicies sourcePeer) hempty
          fun record hmem => LengthPrefix.length_le_of_mem_records hmem
      obtain ⟨hcount, hstops⟩ := hfit h.fit
      have hapart := h.apart
      rw [hcount] at hapart
      have hfaithful := faithful_of_neverMixed hserved (by rw [hempty, List.nil_append]) hcut
        (by rwa [hempty]) hstops
      exact ⟨by rw [hfaithful.actions_eq, hactions], hfaithful.handed⟩

/-! ## A note and an empty record -/

theorem fixedPolicies_noteConfig : noteConfig.FixedPolicies where
  peers _ h := nomatch h
  events _ h := nomatch h

/-- The inventory and the frame of a note, with a cut inside the inventory, and an empty
record in a call of its own. -/
def noteCut : List (List UInt8) :=
  [(noteRecord (noteInventory noteA)).take 10,
    (noteRecord (noteInventory noteA)).drop 10 ++ noteRecord (noteFrame noteA), framed []]

/-- Cut so, the note is handed over. -/
theorem noLostWork_noteCut :
    NoLostWork (.ascending _) "p" [] 10 noteCut noteStream := by
  have hrun : ProperCut (.ascending _) "p" [] 10 noteCut noteStream ∧
      AnswersFit (.ascending _) "p" [] 10 (LengthPrefix.records lengthPrefixBytes
        noteConfig.options.maxRecordBytes noteCut.flatten) noteStream ∧
      NeverMixed noteConfig.options.maxRecordBytes noteConfig.options.maxRecordsPerReceive
        (goodRecords (.ascending _) "p" [] 10 (LengthPrefix.records lengthPrefixBytes
          noteConfig.options.maxRecordBytes noteCut.flatten) noteStream).length [] noteCut := by
    decide +kernel
  obtain ⟨hcut, hfits, hapart⟩ := hrun
  exact noLostWork_of_takesBadAlone fixedPolicies_noteConfig (.ascending _) "p" [] 10 noteStream rfl
    noteCut hcut ⟨hfits, hapart⟩

/-- The same bytes, with the frame and the empty record in one call. -/
def coalescedCut : List (List UInt8) :=
  [noteRecord (noteInventory noteA), noteRecord (noteFrame noteA) ++ framed []]

/-- Cut so, the mesh books the note as delivered and the caller never gets it. -/
theorem not_noLostWork_coalescedCut :
    noteConfig.FixedPolicies ∧ (noteStream.decoder "p").buffer = [] ∧
      ProperCut (.ascending _) "p" [] 10 coalescedCut noteStream ∧
      AnswersFit (.ascending _) "p" [] 10 (LengthPrefix.records lengthPrefixBytes
        noteConfig.options.maxRecordBytes coalescedCut.flatten) noteStream ∧
      ¬NoLostWork (.ascending _) "p" [] 10 coalescedCut noteStream := by
  have hrun : ProperCut (.ascending _) "p" [] 10 coalescedCut noteStream ∧
      AnswersFit (.ascending _) "p" [] 10 (LengthPrefix.records lengthPrefixBytes
        noteConfig.options.maxRecordBytes coalescedCut.flatten) noteStream ∧
      ((receiveChunks (.ascending _) "p" [] 10 coalescedCut
        noteStream).2.mesh.deliveredEvents.lookup noteA.id.toHex).isSome = true ∧
      (deliveries (receiveChunks (.ascending _) "p" [] 10 coalescedCut noteStream).1).length = 0 := by
    decide +kernel
  obtain ⟨hcut, hfits, hbooked, hnone⟩ := hrun
  exact ⟨fixedPolicies_noteConfig, rfl, hcut, hfits,
    fun h => not_handsOver hbooked rfl (List.eq_nil_of_length_eq_zero hnone) h.handed⟩

end NostrPubsub
