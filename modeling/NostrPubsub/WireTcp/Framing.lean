import NostrPubsub.WireTcp.Driver

/-!
# Framing is lossless

What a peer is sent, over one connection after the other. `History` collects from the trace of a run
the frames that were queued for the peer and the bytes that were written on each connection to it.

On each connection stand whole records and the beginning of the next, and every connection goes on
with the first frame that the earlier ones did not carry completely (`SentOn`). A decoder that is fed
the bytes of a connection in pieces gives back the frames (`Receives`).
-/

open NostrPubsub.WireTcp.PeerQueue (Holds wire unsent consume)

namespace NostrPubsub.WireTcp

/-! ## What was sent -/

/-- What a connection carried after its run of frames: nothing, or a part of the next. -/
def Part (next : List (List UInt8)) (part : List UInt8) : Prop :=
  part = [] ∨ ∃ frame, next.head? = some frame ∧ part <+: recordOf frame ∧ part ≠ recordOf frame

theorem Part.isPrefix {next : List (List UInt8)} {part : List UInt8} (h : Part next part) :
    part <+: wire next := by
  rcases h with rfl | ⟨frame, hhead, hbegin, -⟩
  · exact List.nil_prefix
  · obtain ⟨next, rfl⟩ := List.head?_eq_some_iff.mp hhead
    rw [PeerQueue.wire_cons]
    exact hbegin.trans (List.prefix_append _ _)

theorem Part.length_lt {frame : List UInt8} {next : List (List UInt8)} {part : List UInt8}
    (h : Part (frame :: next) part) : part.length < (recordOf frame).length := by
  rcases h with rfl | ⟨frame', hhead, hbegin, hne⟩
  · exact PeerQueue.length_recordOf_pos frame
  · cases hhead
    exact lt_of_le_of_ne hbegin.length_le fun hlength => hne (hbegin.eq_of_length hlength)

/-- The connections carried frames in order: the last one ends so many bytes into the first frame of
the rest. -/
inductive SentOn (queued : List (List UInt8)) : List (List UInt8) → List (List UInt8) → ℕ → Prop
  /-- There was no connection yet. -/
  | nil : SentOn queued [] queued 0
  /-- A connection carried whole frames, and a beginning of the next. -/
  | connection {connections : List (List UInt8)} {taken rest : List (List UInt8)} {offset offset' : ℕ}
    (h : SentOn queued connections (taken ++ rest) offset)
    (hpart : offset' = 0 ∨ ∃ frame frames, rest = frame :: frames ∧ offset' < (recordOf frame).length) :
    SentOn queued (connections ++ [wire taken ++ (wire rest).take offset']) rest offset'

namespace SentOn

variable {queued connections rest : List (List UInt8)} {offset : ℕ}

/-- One frame more. -/
theorem push (h : SentOn queued connections rest offset) (frame : List UInt8) :
    SentOn (queued ++ [frame]) connections (rest ++ [frame]) offset := by
  induction h with
  | nil => exact .nil
  | @connection connections taken rest offset offset' h hpart ih =>
    rw [List.append_assoc] at ih
    have htake : (wire rest).take offset' = (wire (rest ++ [frame])).take offset' := by
      rw [PeerQueue.wire_append]
      rcases hpart with rfl | ⟨first, frames, rfl, hlt⟩
      · simp
      · rw [List.take_append_of_le_length]
        rw [PeerQueue.wire_cons, List.length_append]
        omega
    rw [htake]
    refine .connection ih (hpart.imp_right ?_)
    rintro ⟨first, frames, rfl, hlt⟩
    exact ⟨first, frames ++ [frame], rfl, hlt⟩

/-- A new connection goes on with the first frame that was not carried completely. -/
theorem connect (h : SentOn queued connections rest offset) :
    SentOn queued (connections ++ [[]]) rest 0 := by
  have hnew : SentOn queued (connections ++ [wire [] ++ (wire rest).take 0]) rest 0 :=
    .connection (List.nil_append rest ▸ h) (.inl rfl)
  simpa [wire] using hnew

theorem exists_frame {records : List QueuedRecord} (h : Holds records rest offset) :
    offset = 0 ∨ ∃ frame frames, rest = frame :: frames ∧ offset < (recordOf frame).length := by
  cases h with
  | nil => exact .inl rfl
  | cons hlt => exact .inr ⟨_, _, rfl, hlt⟩

/-- Bytes of the queue are written to the last connection. -/
theorem write {bytes : List UInt8} (h : SentOn queued (connections ++ [bytes]) rest offset)
    {records : List QueuedRecord} (hholds : Holds records rest offset) {n : ℕ}
    (hn : n ≤ (unsent records).length) :
    ∃ rest' offset', SentOn queued (connections ++ [bytes ++ (unsent records).take n]) rest' offset' ∧
      Holds (consume records n) rest' offset' := by
  generalize hall : connections ++ [bytes] = all at h
  cases h with
  | nil => simp at hall
  | @connection connections' taken rest offset₀ offset h hpart =>
    obtain ⟨rfl, hbytes⟩ := List.append_inj' hall rfl
    obtain rfl := List.singleton_inj.mp hbytes
    obtain ⟨taken', rest', offset', rfl, hholds', hwire⟩ := hholds.consume hn
    refine ⟨rest', offset', ?_, hholds'⟩
    have hbytes : wire taken ++ (wire (taken' ++ rest')).take offset ++ (unsent records).take n
        = wire (taken ++ taken') ++ (wire rest').take offset' := by
      rw [hholds.unsent_eq, List.append_assoc, ← List.take_add, hwire, PeerQueue.wire_append,
        List.append_assoc]
    rw [hbytes]
    rw [← List.append_assoc] at h
    exact .connection h (exists_frame hholds')

/-- The runs of frames that the connections carried completely, and what is not. -/
theorem exists_runs (h : SentOn queued connections rest offset) :
    ∃ runs : List (List (List UInt8)), runs.flatten ++ rest = queued ∧
      runs.length = connections.length ∧
      ∀ i bytes, connections[i]? = some bytes → ∃ run part, runs[i]? = some run ∧
        bytes = wire run ++ part ∧
        Part ((runs.drop (i + 1)).flatten ++ rest) part := by
  induction h with
  | nil => exact ⟨[], rfl, rfl, by simp⟩
  | @connection connections taken rest offset offset' h hpart ih =>
    obtain ⟨runs, hqueued, hlength, hruns⟩ := ih
    refine ⟨runs ++ [taken], by simp [← hqueued], by simp [hlength], fun i bytes hbytes => ?_⟩
    rcases Nat.lt_trichotomy i connections.length with hlt | rfl | hgt
    · rw [List.getElem?_append_left hlt] at hbytes
      obtain ⟨run, part, hrun, heq, hnext⟩ := hruns i bytes hbytes
      refine ⟨run, part, ?_, heq, ?_⟩
      · rwa [List.getElem?_append_left (hlength ▸ hlt)]
      · rw [List.drop_append_of_le_length (by omega), List.flatten_append, List.flatten_singleton,
          List.append_assoc]
        exact hnext
    · rw [List.getElem?_concat_length] at hbytes
      cases hbytes
      refine ⟨taken, (wire rest).take offset', ?_, rfl, ?_⟩
      · rw [← hlength, List.getElem?_concat_length]
      · rcases hpart with rfl | ⟨frame, frames, rfl, hoffset⟩
        · exact .inl (List.take_zero)
        · right
          have htake : (wire (frame :: frames)).take offset' = (recordOf frame).take offset' := by
            rw [PeerQueue.wire_cons, List.take_append_of_le_length hoffset.le]
          refine ⟨frame, ?_, htake ▸ List.take_prefix _ _, fun heq => ?_⟩
          · rw [List.drop_eq_nil_of_le (by simp [hlength])]
            rfl
          · have hcard := congrArg List.length (htake ▸ heq)
            rw [List.length_take] at hcard
            omega
    · rw [List.getElem?_eq_none (by simp; omega)] at hbytes
      cases hbytes

end SentOn

/-! ## What is received -/

/-- A decoder was given these bytes, in pieces for which it had room, and these frames were taken. -/
inductive Receives (maxFrameBytes : ℕ) : List UInt8 → List (List UInt8) → RecordDecoder → Prop
  | new : Receives maxFrameBytes [] [] { maxFrameBytes }
  | push {pushed bytes : List UInt8} {frames : List (List UInt8)} {decoder : RecordDecoder}
    (h : Receives maxFrameBytes pushed frames decoder)
    (hroom : bytes.length ≤ decoder.remainingCapacity) :
    Receives maxFrameBytes (pushed ++ bytes) frames (decoder.push bytes).2
  | take {pushed : List UInt8} {frames taken : List (List UInt8)} {decoder : RecordDecoder}
    {maxFrames : ℕ} (h : Receives maxFrameBytes pushed frames decoder)
    (htaken : (decoder.take maxFrames).1 = .ok taken) :
    Receives maxFrameBytes pushed (frames ++ taken) (decoder.take maxFrames).2

/-- The frames that fit a decoder, and whose length fits four bytes. -/
def Fits (maxFrameBytes : ℕ) (frames : List (List UInt8)) : Prop :=
  ∀ frame ∈ frames, frame.length < 256 ^ 4 ∧ frame.length ≤ maxFrameBytes

theorem takeFrames_of_isPrefix {maxFrameBytes : ℕ} (maxFrames : ℕ) {sent : List (List UInt8)}
    {buffer : List UInt8} (hfits : Fits maxFrameBytes sent) (h : buffer <+: wire sent) :
    ∃ taken rest later, RecordDecoder.takeFrames maxFrameBytes maxFrames buffer = .ok (taken, rest) ∧
      sent = taken ++ later ∧ buffer = wire taken ++ rest := by
  induction maxFrames generalizing sent buffer with
  | zero => exact ⟨[], buffer, sent, rfl, rfl, rfl⟩
  | succ maxFrames ih =>
    rw [RecordDecoder.takeFrames]
    rcases LengthPrefix.front_of_isPrefix (by omega) hfits h with
      hfront | ⟨frame, later, rest, rfl, rfl, hrest, hfront⟩
    · rw [hfront]
      exact ⟨[], buffer, sent, rfl, rfl, rfl⟩
    · rw [hfront]
      obtain ⟨taken, rest', later', htake, rfl, rfl⟩ :=
        ih (fun frame hframe => hfits frame (List.mem_cons_of_mem _ hframe)) hrest
      refine ⟨frame :: taken, rest', later', ?_, rfl, ?_⟩
      · simp only [htake]
        rfl
      · rw [PeerQueue.wire_cons, List.append_assoc]

namespace Receives

variable {maxFrameBytes : ℕ} {pushed : List UInt8} {frames sent : List (List UInt8)}
  {decoder : RecordDecoder}

theorem maxFrameBytes_eq (h : Receives maxFrameBytes pushed frames decoder) :
    decoder.maxFrameBytes = maxFrameBytes := by
  induction h with
  | new => rfl
  | push _ _ ih =>
    unfold RecordDecoder.push
    split <;> exact ih
  | take _ _ ih =>
    unfold RecordDecoder.take
    split <;> exact ih

/-- The decoder never holds more than one whole record. -/
theorem length_buffer_le (h : Receives maxFrameBytes pushed frames decoder) :
    decoder.buffer.length ≤ maxFrameBytes + 4 := by
  induction h with
  | new => exact Nat.zero_le _
  | push h _ _ =>
    rw [← h.maxFrameBytes_eq]
    exact RecordDecoder.length_push_le _ _
  | take _ _ ih => exact (RecordDecoder.length_take_le _ _).trans ih

/-- A read that is no longer than what the decoder has room for is taken. -/
theorem push_eq (h : Receives maxFrameBytes pushed frames decoder) {bytes : List UInt8}
    (hroom : bytes.length ≤ decoder.remainingCapacity) :
    decoder.push bytes = (.ok (), { decoder with buffer := decoder.buffer ++ bytes }) :=
  RecordDecoder.push_eq (h.maxFrameBytes_eq ▸ h.length_buffer_le) hroom

/-- Frames are taken from the front of what the decoder holds. -/
theorem take_eq (hfits : Fits maxFrameBytes sent) (hmax : decoder.maxFrameBytes = maxFrameBytes)
    (hbuffer : decoder.buffer <+: wire sent) (maxFrames : ℕ) :
    ∃ taken rest later, decoder.take maxFrames = (.ok taken, { decoder with buffer := rest }) ∧
      sent = taken ++ later ∧ decoder.buffer = wire taken ++ rest := by
  subst hmax
  obtain ⟨taken, rest, later, htake, hsent, heq⟩ :=
    takeFrames_of_isPrefix maxFrames hfits hbuffer
  refine ⟨taken, rest, later, ?_, hsent, heq⟩
  rw [RecordDecoder.take, htake]

/-- The frames that were taken and what the decoder holds are what it was given. -/
theorem spec (h : Receives maxFrameBytes pushed frames decoder) (hfits : Fits maxFrameBytes sent)
    (hpushed : pushed <+: wire sent) :
    ∃ later, sent = frames ++ later ∧ pushed = wire frames ++ decoder.buffer := by
  induction h with
  | new => exact ⟨sent, rfl, rfl⟩
  | push h hroom ih =>
    obtain ⟨later, hsent, hbuffer⟩ := ih ((List.prefix_append _ _).trans hpushed)
    refine ⟨later, hsent, ?_⟩
    rw [h.push_eq hroom, hbuffer, List.append_assoc]
  | @take pushed frames taken decoder maxFrames h htaken ih =>
    obtain ⟨later, rfl, rfl⟩ := ih hpushed
    rw [PeerQueue.wire_append, List.prefix_append_right_inj] at hpushed
    have hlater : Fits maxFrameBytes later := fun frame hframe =>
      hfits frame (List.mem_append_right _ hframe)
    obtain ⟨taken', rest, later', htake, rfl, hbuffer⟩ :=
      take_eq hlater h.maxFrameBytes_eq hpushed maxFrames
    rw [htake] at htaken ⊢
    cases htaken
    refine ⟨later', by rw [List.append_assoc], ?_⟩
    rw [hbuffer, PeerQueue.wire_append, List.append_assoc]

/-- Input is never refused. -/
theorem take_ok (h : Receives maxFrameBytes pushed frames decoder) (hfits : Fits maxFrameBytes sent)
    (hpushed : pushed <+: wire sent) (maxFrames : ℕ) :
    ∃ taken, (decoder.take maxFrames).1 = .ok taken := by
  obtain ⟨later, rfl, rfl⟩ := h.spec hfits hpushed
  rw [PeerQueue.wire_append, List.prefix_append_right_inj] at hpushed
  have hlater : Fits maxFrameBytes later := fun frame hframe =>
    hfits frame (List.mem_append_right _ hframe)
  obtain ⟨taken, rest, later', htake, -⟩ := take_eq hlater h.maxFrameBytes_eq hpushed maxFrames
  exact ⟨taken, by rw [htake]⟩

section Run

variable {run next : List (List UInt8)} {part : List UInt8}

/-- From a connection that carried a run of frames and a part of another come frames of the run, in
order and once. -/
theorem isPrefix_run (h : Receives maxFrameBytes pushed frames decoder)
    (hfits : Fits maxFrameBytes (run ++ next)) (hpart : Part next part)
    (hpushed : pushed <+: wire run ++ part) : frames <+: run := by
  have hsent : pushed <+: wire (run ++ next) := by
    rw [PeerQueue.wire_append]
    exact hpushed.trans ((List.prefix_append_right_inj _).mpr hpart.isPrefix)
  obtain ⟨later, heq, rfl⟩ := h.spec hfits hsent
  rcases List.append_eq_append_iff.mp heq with ⟨extra, rfl, rfl⟩ | ⟨rest, rfl, -⟩
  · cases extra with
    | nil => rw [List.append_nil]
    | cons frame extra =>
      -- one frame more would be longer than what was carried
      have hlong := hpushed.length_le
      have hshort := hpart.length_lt
      rw [PeerQueue.wire_append, PeerQueue.wire_cons] at hlong
      simp only [List.length_append] at hlong
      omega
  · exact List.prefix_append _ _

/-- When everything was read and nothing is left to take, the frames are the whole run. -/
theorem eq_run (h : Receives maxFrameBytes (wire run ++ part) frames decoder)
    (hfits : Fits maxFrameBytes (run ++ next)) (hpart : Part next part)
    (hincomplete : decoder.hasCompleteRecord = false) : frames = run := by
  have hsent : wire run ++ part <+: wire (run ++ next) := by
    rw [PeerQueue.wire_append]
    exact (List.prefix_append_right_inj _).mpr hpart.isPrefix
  obtain ⟨later, -, hbuffer⟩ := h.spec hfits hsent
  obtain ⟨rest, rfl⟩ := h.isPrefix_run hfits hpart (List.prefix_refl _)
  cases rest with
  | nil => rw [List.append_nil]
  | cons frame rest =>
    -- the next frame would be complete
    rw [PeerQueue.wire_append, List.append_assoc, List.append_cancel_left_eq, PeerQueue.wire_cons,
      List.append_assoc] at hbuffer
    obtain ⟨hshort, hbound⟩ := hfits frame (by simp)
    have hfront := LengthPrefix.front_frame_append hshort hbound (wire rest ++ part)
    rw [RecordDecoder.hasCompleteRecord_eq_false, h.maxFrameBytes_eq, ← hbuffer, hfront] at hincomplete
    cases hincomplete

end Run

end Receives

/-- A decoder that is fed these bytes in pieces never refuses any of them, and gives back the frames
of a run, in order and once: all of them when everything was read and nothing is left to take. -/
def Delivers (maxFrameBytes : ℕ) (bytes : List UInt8) (run : List (List UInt8)) : Prop :=
  ∀ pushed frames decoder, Receives maxFrameBytes pushed frames decoder → pushed <+: bytes →
    frames <+: run ∧ pushed = wire frames ++ decoder.buffer ∧
    (∀ more, more.length ≤ decoder.remainingCapacity → (decoder.push more).1 = .ok ()) ∧
    (∀ maxFrames, ∃ taken, (decoder.take maxFrames).1 = .ok taken) ∧
    (pushed = bytes → decoder.hasCompleteRecord = false → frames = run)

theorem delivers_run {maxFrameBytes : ℕ} {run next : List (List UInt8)} {part : List UInt8}
    (hfits : Fits maxFrameBytes (run ++ next)) (hpart : Part next part) :
    Delivers maxFrameBytes (wire run ++ part) run := by
  intro pushed frames decoder hreceives hpushed
  have hsent : pushed <+: wire (run ++ next) := by
    rw [PeerQueue.wire_append]
    exact hpushed.trans ((List.prefix_append_right_inj _).mpr hpart.isPrefix)
  obtain ⟨later, -, hbuffer⟩ := hreceives.spec hfits hsent
  refine ⟨hreceives.isPrefix_run hfits hpart hpushed, hbuffer, fun more hmore => ?_, ?_, ?_⟩
  · rw [hreceives.push_eq hmore]
  · exact hreceives.take_ok hfits hsent
  · rintro rfl hincomplete
    exact hreceives.eq_run hfits hpart hincomplete

end NostrPubsub.WireTcp
