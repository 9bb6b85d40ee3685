import NostrPubsub.Fips.ClientOptions
import NostrPubsub.WireTcp.InboundPeers
import NostrPubsub.WireTcp.ReadTurns

/-!
# The queues of the wire driver keep their bounds

A queue counts the bytes that are still to be written. Writes take them off, and a restart counts the
written part of the first record again, so that the count may grow without a frame being taken. The
bound holds all the same: it is the number of records that is bounded, and with it all their bytes
(`Accounted.bytes_le`).
-/

open NostrPubsub.WireTcp.PeerQueue (Holds unsent consume)

namespace NostrPubsub.WireTcp

variable {τ : Type}

namespace PeerQueue

/-- All bytes of the records, written or not. -/
def total (records : List QueuedRecord) : ℕ := (records.map fun record => record.bytes.length).sum

theorem length_unsent (records : List QueuedRecord) :
    (unsent records).length = (records.map fun record => record.bytes.length - record.offset).sum := by
  simp [unsent, List.length_flatMap]

theorem length_unsent_le_total (records : List QueuedRecord) :
    (unsent records).length ≤ total records := by
  rw [length_unsent]
  exact List.sum_le_sum fun record _ => Nat.sub_le _ _

theorem length_consume_le (records : List QueuedRecord) (n : ℕ) :
    (consume records n).length ≤ records.length := by
  induction records generalizing n with
  | nil => exact le_rfl
  | cons record records ih =>
    rw [consume]
    split
    · exact le_rfl
    · dsimp only
      split
      · exact (ih _).trans (Nat.le_succ _)
      · exact le_rfl

/-- Written bytes are no longer unsent. -/
theorem unsent_consume {records : List QueuedRecord}
    (hoffset : ∀ record ∈ records, record.offset ≤ record.bytes.length) (n : ℕ) :
    unsent (consume records n) = (unsent records).drop n := by
  induction records generalizing n with
  | nil => simp [consume, unsent]
  | cons record records ih =>
    have hle := hoffset record List.mem_cons_self
    have hlength : (record.bytes.drop record.offset).length = record.bytes.length - record.offset :=
      List.length_drop
    have hcons : unsent (record :: records) = record.bytes.drop record.offset ++ unsent records := rfl
    rw [consume]
    split
    · next hzero => rw [hzero, List.drop_zero]
    · dsimp only
      split
      · next hwhole =>
        -- the first record is used up
        have hconsumed : min n (record.bytes.length - record.offset) =
            record.bytes.length - record.offset := by omega
        have hfirst : (record.bytes.drop record.offset).drop n = [] :=
          List.drop_eq_nil_of_le (by omega)
        rw [ih (fun r hr => hoffset r (List.mem_cons_of_mem _ hr)), hcons, List.drop_append, hlength,
          hconsumed, hfirst, List.nil_append]
      · next hpart =>
        have hconsumed : min n (record.bytes.length - record.offset) = n := by omega
        rw [hconsumed, hcons, List.drop_append_of_le_length (by omega), List.drop_drop]
        rfl

variable {records : List QueuedRecord} {frames : List (List UInt8)} {offset : ℕ}

/-- Only of the first record some bytes are written, and of none all. -/
theorem Holds.offsets (h : Holds records frames offset) :
    (∀ record ∈ records, record.offset < record.bytes.length) ∧
      ∀ record ∈ records.tail, record.offset = 0 := by
  cases h with
  | nil => exact ⟨fun _ h => absurd h List.not_mem_nil, fun _ h => absurd h List.not_mem_nil⟩
  | cons hoffset =>
    constructor
    · intro record hrecord
      rcases List.mem_cons.mp hrecord with rfl | hrecord
      · exact hoffset
      · obtain ⟨frame, -, rfl⟩ := List.mem_map.mp hrecord
        exact length_recordOf_pos frame
    · intro record hrecord
      obtain ⟨frame, -, rfl⟩ := List.mem_map.mp hrecord
      rfl

/-- Every record is that of a frame. -/
theorem Holds.exists_frame (h : Holds records frames offset) {record : QueuedRecord}
    (hrecord : record ∈ records) : ∃ frame ∈ frames, record.bytes = recordOf frame := by
  cases h with
  | nil => cases hrecord
  | cons hoffset =>
    rcases List.mem_cons.mp hrecord with rfl | hrecord
    · exact ⟨_, List.mem_cons_self, rfl⟩
    · obtain ⟨frame, hframe, rfl⟩ := List.mem_map.mp hrecord
      exact ⟨frame, List.mem_cons_of_mem _ hframe, rfl⟩

end PeerQueue

open NostrPubsub.WireTcp.PeerQueue (total length_unsent length_unsent_le_total length_consume_le
  unsent_consume)

/-! ## One queue -/

/-- Queues of these options have room for any frame, and for as many as they have records. -/
structure Ample (options : WireTcpOptions) : Prop where
  records_pos : 0 < options.queueRecordsPerPeer
  frame_le : options.frameCapacity + 4 ≤ options.queueBytesPerPeer
  bytes_le : options.queueBytesPerPeer ≤ u64Max
  bytes : options.queueBytesPerPeer ≠ u64Max →
    options.queueRecordsPerPeer * (options.frameCapacity + 4) = options.queueBytesPerPeer

theorem Ample.wireTcpOptions {options : Fips.FipsPubsubClientOptions}
    (h : options.validate = .ok ()) : Ample options.wireTcpOptions := by
  have hvalid := Fips.FipsPubsubClientOptions.valid_of_validate h
  have hframe : options.maxFrameBytes ≤ 65525 := hvalid.frame
  have hactive : 0 < options.maxActiveSubscriptions :=
    hvalid.positive ("max_active_subscriptions", options.maxActiveSubscriptions)
      (by simp [Fips.FipsPubsubClientOptions.positive])
  have hu64 : 65529 < u64Max := by decide
  have hrecords : 0 < options.queueRecords := by
    simp only [Fips.FipsPubsubClientOptions.queueRecords, satAdd]
    omega
  have hsum : satAdd options.maxFrameBytes 4 = options.maxFrameBytes + 4 := by
    rw [satAdd]
    omega
  have hbytes : options.wireTcpOptions.queueBytesPerPeer =
      min ((options.maxFrameBytes + 4) * options.queueRecords) u64Max := by
    rw [← hsum]
    rfl
  have hproduct : options.maxFrameBytes + 4 ≤ (options.maxFrameBytes + 4) * options.queueRecords :=
    Nat.le_mul_of_pos_right _ hrecords
  refine ⟨hrecords, ?_, min_le_right _ _, fun hne => ?_⟩
  · rw [hbytes]
    exact le_min hproduct (show options.maxFrameBytes + 4 ≤ u64Max by omega)
  · rw [hbytes] at hne ⊢
    show options.queueRecords * (options.maxFrameBytes + 4) = _
    rw [Nat.mul_comm, min_eq_left]
    by_contra hlarge
    exact hne (min_eq_right (Nat.not_le.mp hlarge).le)

/-- The queue counts its unsent bytes, and its records are those of few enough frames. -/
structure Accounted (options : WireTcpOptions) (queue : PeerQueue) : Prop where
  holds : ∃ frames offset, Holds queue.records frames offset ∧
    ∀ frame ∈ frames, frame.length ≤ options.frameCapacity
  bytes_eq : queue.bytes = (unsent queue.records).length
  records_le : queue.records.length ≤ options.queueRecordsPerPeer

namespace Accounted

variable {options : WireTcpOptions} {queue : PeerQueue}

theorem empty (options : WireTcpOptions) : Accounted options {} where
  holds := ⟨[], 0, .nil, fun _ hframe => absurd hframe List.not_mem_nil⟩
  bytes_eq := rfl
  records_le := Nat.zero_le _

/-- The bytes of all records are bounded by their number. -/
theorem total_le (h : Accounted options queue) :
    total queue.records ≤ queue.records.length * (options.frameCapacity + 4) := by
  obtain ⟨⟨frames, offset, hholds, hframes⟩, -, -⟩ := h
  have hrecord : ∀ record ∈ queue.records, record.bytes.length ≤ options.frameCapacity + 4 := by
    intro record hrecord
    obtain ⟨frame, hframe, hbytes⟩ := hholds.exists_frame hrecord
    have := hframes frame hframe
    rw [hbytes, LengthPrefix.length_frame]
    omega
  have hsum := List.sum_le_card_nsmul (queue.records.map fun record => record.bytes.length)
    (options.frameCapacity + 4) (by simpa using hrecord)
  simpa [total] using hsum

/-- A restart counts every byte of every record. -/
theorem restart (h : Accounted options queue) : Accounted options (PeerQueue.restart queue) := by
  obtain ⟨⟨frames, offset, hholds, hframes⟩, -, hrecords⟩ := h
  refine ⟨⟨frames, 0, hholds.restart, hframes⟩, ?_, ?_⟩
  · rw [length_unsent]
    simp [PeerQueue.restart, Function.comp_def]
  · rwa [PeerQueue.restart, List.length_map]

/-- Bytes are written. -/
theorem wrote (h : Accounted options queue) {n : ℕ} (hn : n ≤ (unsent queue.records).length) :
    Accounted options { records := consume queue.records n, bytes := queue.bytes - n } := by
  obtain ⟨⟨frames, offset, hholds, hframes⟩, hbytes, hrecords⟩ := h
  have hoffsets := hholds.offsets.1
  obtain ⟨taken, rest, offset', rfl, hrest, -⟩ := hholds.consume hn
  refine ⟨⟨rest, offset', hrest, fun frame hframe =>
    hframes frame (List.mem_append_right _ hframe)⟩, ?_, ?_⟩
  · show queue.bytes - n = _
    rw [unsent_consume (fun record hrecord => (hoffsets record hrecord).le), List.length_drop, hbytes]
  · exact (length_consume_le _ _).trans hrecords

/-- A frame is taken. -/
theorem push (h : Accounted options queue) {frame : List UInt8}
    (hframe : frame.length ≤ options.frameCapacity)
    (hroom : queue.records.length < options.queueRecordsPerPeer)
    (hbytes : queue.bytes + (recordOf frame).length ≤ u64Max) :
    Accounted options
      { records := queue.records ++ [{ bytes := recordOf frame, offset := 0 }]
        bytes := satAdd queue.bytes (recordOf frame).length } := by
  obtain ⟨⟨frames, offset, hholds, hframes⟩, heq, -⟩ := h
  refine ⟨⟨frames ++ [frame], offset, hholds.push frame, ?_⟩, ?_, ?_⟩
  · intro other hother
    rcases List.mem_append.mp hother with hother | hother
    · exact hframes other hother
    · rwa [List.mem_singleton.mp hother]
  · show satAdd queue.bytes (recordOf frame).length = _
    rw [satAdd, min_eq_left hbytes, heq]
    simp [unsent]
  · rw [List.length_append]
    exact hroom

/-- The count of a queue is within its bound. -/
theorem bytes_le (h : Accounted options queue) (hample : Ample options)
    (hmemory : options.queueBytesPerPeer = u64Max → total queue.records ≤ u64Max) :
    queue.bytes ≤ options.queueBytesPerPeer := by
  rw [h.bytes_eq]
  refine (length_unsent_le_total _).trans ?_
  by_cases hmax : options.queueBytesPerPeer = u64Max
  · rw [hmax]
    exact hmemory hmax
  · rw [← hample.bytes hmax]
    exact h.total_le.trans (Nat.mul_le_mul_right _ h.records_le)

end Accounted

/-! ## All queues -/

namespace WireTcpDriver

open WireM

/-- Every queue is accounted for, and there are no more than peers fit. -/
structure Accounts (options : WireTcpOptions) (d : WireTcpDriver τ) : Prop where
  queue : ∀ peer queue, d.queues.lookup peer = some queue → Accounted options queue
  size_le : d.queues.size ≤ options.peerCapacity

variable {config : WireConfig τ} {options : WireTcpOptions} {d : WireTcpDriver τ}

theorem accounts_bind (options : WireTcpOptions) (tcp : τ) : Accounts options (bind tcp) where
  queue peer queue hqueue := by
    rw [show (bind tcp).queues = ∅ from rfl, Finmap.lookup_empty] at hqueue
    cases hqueue
  size_le := Nat.zero_le _

theorem Accounts.of_queues_eq {d' : WireTcpDriver τ} (h : Accounts options d)
    (hqueues : d'.queues = d.queues) : Accounts options d' :=
  ⟨hqueues ▸ h.queue, hqueues ▸ h.size_le⟩

/-- A queue is replaced by one that is accounted for as well. -/
theorem Accounts.insert (h : Accounts options d) {peer : String} {queue : PeerQueue}
    (hroom : peer ∈ d.queues ∨ d.queues.size < options.peerCapacity) (hqueue : Accounted options queue) :
    Accounts options { d with queues := d.queues.insert peer queue } where
  queue other found hfound := by
    by_cases hother : other = peer
    · subst hother
      rw [Finmap.lookup_insert] at hfound
      rwa [← Option.some.inj hfound]
    · rw [Finmap.lookup_insert_of_ne _ hother] at hfound
      exact h.queue other found hfound
  size_le := by
    show (d.queues.insert peer queue).size ≤ _
    by_cases hmem : peer ∈ d.queues
    · rw [Finmap.size_insert_of_mem hmem]
      exact h.size_le
    · rw [Finmap.size_insert_of_notMem hmem]
      exact hroom.resolve_left hmem

theorem Accounts.erase (h : Accounts options d) (peer : String) :
    Accounts options { d with queues := d.queues.erase peer } where
  queue other found hfound := by
    have hother : other ≠ peer := by
      rintro rfl
      rw [Finmap.lookup_erase] at hfound
      cases hfound
    rw [Finmap.lookup_erase_ne hother] at hfound
    exact h.queue other found hfound
  size_le := by
    have hsubset : (d.queues.erase peer).keys ⊆ d.queues.keys := by
      intro other hother
      rw [Finmap.mem_keys] at hother ⊢
      exact (Finmap.mem_erase.mp hother).2
    exact (Finset.card_le_card hsubset).trans h.size_le

theorem stable_accounts : Stable config (Accounts options : WireTcpDriver τ → Prop) := by
  intro d d' hchange h
  cases hchange with
  | aside selectedPeers inbound connections active queues => exact h.of_queues_eq queues
  | tracked | untracked | activated | dismissed => exact h.of_queues_eq rfl
  | restarted peer =>
    rw [restartQueue]
    cases hqueue : d.queues.lookup peer with
    | none => exact h
    | some queue =>
      exact h.insert (.inl (Finmap.mem_of_lookup_eq_some hqueue)) (h.queue peer queue hqueue).restart
  | dropped peer => exact h.erase peer
  | wrote peer n hqueue hn =>
    exact h.insert (.inl (Finmap.mem_of_lookup_eq_some hqueue)) ((h.queue peer _ hqueue).wrote hn)

theorem accounts_modifyDriver {change : WireTcpDriver τ → WireTcpDriver τ}
    (hqueues : ∀ d, (change d).queues = d.queues) :
    Keeps (Accounts options) (modifyDriver change) :=
  fun t h => h.of_queues_eq (hqueues t.driver)

theorem accounts_selectPeers (peers expired : Finset String) :
    Keeps (Accounts options) (selectPeers config peers expired) := by
  have hforget : ∀ peer, Keeps (Accounts options) (ignoreError (forgetPeer config peer)) :=
    fun peer => (Stable.forgetPeer stable_accounts peer).ignoreError
  refine preserves_getDriver.bind fun d => (accounts_modifyDriver ?_).bind fun _ => ?_
  · exact fun _ => rfl
  refine (preserves_forEach (fun peer => ?_) _).bind fun _ => preserves_getDriver.bind fun _ => ?_
  · exact preserves_ite (preserves_pure ()) (hforget peer)
  refine (accounts_modifyDriver ?_).bind fun _ => ?_
  · exact fun _ => rfl
  exact (preserves_forEach hforget _).bind fun _ => preserves_pure _

/-! ## Taking a frame -/

/-- The queue of a peer, empty when there is none. -/
def queueOf (d : WireTcpDriver τ) (peer : String) : PeerQueue := (d.queues.lookup peer).getD {}

/-- The queue with one record more. -/
def pushed (queue : PeerQueue) (frame : List UInt8) : PeerQueue where
  records := queue.records ++ [{ bytes := recordOf frame, offset := 0 }]
  bytes := satAdd queue.bytes (recordOf frame).length

def withQueue (d : WireTcpDriver τ) (peer : String) (queue : PeerQueue) : WireTcpDriver τ :=
  { d with queues := d.queues.insert peer queue }

/-- What `queue_frame` does. -/
inductive Queued (options : WireTcpOptions) (peer : String) (frame : List UInt8)
    (d : WireTcpDriver τ) : Except PubsubError Unit → WireTcpDriver τ → Prop
  /-- The frame is refused before its queue is looked at. -/
  | refused (error : PubsubError) : Queued options peer frame d (.error error) d
  /-- Its queue is full. -/
  | full (error : PubsubError) (hroom : peer ∈ d.queues ∨ d.queues.size < options.peerCapacity)
    (hframe : frame.length ≤ options.frameCapacity)
    (hfull : options.queueRecordsPerPeer ≤ (d.queueOf peer).records.length ∨
      options.queueBytesPerPeer < satAdd (d.queueOf peer).bytes (recordOf frame).length) :
    Queued options peer frame d (.error error) (d.withQueue peer (d.queueOf peer))
  /-- It is taken. -/
  | taken (hroom : peer ∈ d.queues ∨ d.queues.size < options.peerCapacity)
    (hframe : frame.length ≤ options.frameCapacity)
    (hrecords : (d.queueOf peer).records.length < options.queueRecordsPerPeer)
    (hbytes : satAdd (d.queueOf peer).bytes (recordOf frame).length ≤ options.queueBytesPerPeer) :
    Queued options peer frame d (.ok ())
      ((d.withQueue peer (d.queueOf peer)).withQueue peer (pushed (d.queueOf peer) frame))

theorem result_ite {α : Type} {P : Except PubsubError α × WireTurn τ → Prop} {p : Prop} [Decidable p]
    {x y : WireM τ α} {t : WireTurn τ} (hx : p → P (x t)) (hy : ¬ p → P (y t)) :
    P ((if p then x else y) t) := by
  split
  · exact hx ‹p›
  · exact hy ‹¬ p›

/-- A check that fails ends the action. -/
theorem check_bind {α : Type} (result : Except PubsubError Unit) (f : Unit → WireM τ α)
    (t : WireTurn τ) :
    (check result >>= f) t = match result with
      | .error error => (.error error, t)
      | .ok () => f () t := by
  rcases result with error | _
  · rfl
  · rfl

theorem queued_queueFrame (config : WireConfig τ) (peer : String) (frame : List UInt8)
    (t : WireTurn τ) :
    Queued config.options peer frame t.driver (queueFrame config peer frame t).1
      (queueFrame config peer frame t).2.driver := by
  let P : Except PubsubError Unit × WireTurn τ → Prop :=
    fun r => Queued config.options peer frame t.driver r.1 r.2.driver
  show P (queueFrame config peer frame t)
  rw [queueFrame, getDriver_bind, check_bind]
  split
  · exact .refused _
  · refine result_ite (fun _ => .refused _) fun hlong => ?_
    rw [encodeRecord]
    split
    · refine result_ite (fun _ => .refused _) fun hlimit => ?_
      rw [modifyDriver_bind]
      have hroom : peer ∈ t.driver.queues ∨ t.driver.queues.size < config.options.peerCapacity := by
        rw [not_and_or, not_not, Nat.not_le] at hlimit
        exact hlimit
      have hframe := Nat.not_lt.mp hlong
      refine result_ite (fun hrecords => .full _ hroom hframe (.inl hrecords)) fun hrecords => ?_
      refine result_ite (fun hbytes => .full _ hroom hframe (.inr hbytes)) fun hbytes => ?_
      exact .taken hroom hframe (Nat.not_le.mp hrecords) (Nat.not_lt.mp hbytes)
    · exact .refused _

theorem Accounts.queueOf (h : Accounts options d) (peer : String) :
    Accounted options (d.queueOf peer) := by
  rw [WireTcpDriver.queueOf]
  cases hqueue : d.queues.lookup peer with
  | none => exact .empty options
  | some queue => exact h.queue peer queue hqueue

/-! ## Runs -/

/-- The bytes of every queue can be addressed. -/
def Addressable (d : WireTcpDriver τ) : Prop :=
  ∀ peer queue, d.queues.lookup peer = some queue → total queue.records ≤ u64Max

theorem Accounts.queueFrame (h : Accounts config.options d) (hample : Ample config.options)
    {peer : String} {frame : List UInt8}
    (hmemory : config.options.queueBytesPerPeer = u64Max →
      ((WireTcpDriver.queueFrame config peer frame).driverAfter d).Addressable) :
    Accounts config.options ((WireTcpDriver.queueFrame config peer frame).driverAfter d) := by
  have hqueued := queued_queueFrame config peer frame { driver := d, trace := [] }
  rw [WireM.driverAfter] at hmemory ⊢
  generalize (WireTcpDriver.queueFrame config peer frame { driver := d, trace := [] }).2.driver = d'
    at hqueued hmemory ⊢
  generalize (WireTcpDriver.queueFrame config peer frame { driver := d, trace := [] }).1 = result
    at hqueued
  cases hqueued with
  | refused error => exact h
  | full error hroom hframe hfull => exact h.insert hroom (h.queueOf peer)
  | taken hroom hframe hrecords hbytes =>
    refine (h.insert hroom (h.queueOf peer)).insert
      (.inl (Finmap.mem_insert.mpr (.inl rfl))) ((h.queueOf peer).push hframe hrecords ?_)
    by_cases hmax : config.options.queueBytesPerPeer = u64Max
    · -- the bound is no bound: the sum of all bytes is an address
      have htotal := hmemory hmax peer _ (Finmap.lookup_insert _)
      have hunsent := length_unsent_le_total (d.queueOf peer).records
      rw [(h.queueOf peer).bytes_eq]
      simp only [pushed, total, List.map_append, List.sum_append, List.map_singleton,
        List.sum_singleton] at htotal
      simp only [total] at hunsent
      omega
    · have hlimit := hample.bytes_le
      rw [satAdd] at hbytes
      change min ((d.queueOf peer).bytes + _) _ ≤ _ at hbytes
      omega

/-- A frame that is refused leaves the queues as they are: the queue of a peer that had none has
room for any frame. -/
theorem queues_of_error (hample : Ample config.options) {peer : String} {frame : List UInt8}
    {t : WireTurn τ} {error : PubsubError}
    (herror : (WireTcpDriver.queueFrame config peer frame t).1 = .error error) :
    (WireTcpDriver.queueFrame config peer frame t).2.driver.queues = t.driver.queues := by
  have hqueued := queued_queueFrame config peer frame t
  rw [herror] at hqueued
  generalize (WireTcpDriver.queueFrame config peer frame t).2.driver = d' at hqueued ⊢
  cases hqueued with
  | refused => rfl
  | full _ hroom hframe hfull =>
    show t.driver.queues.insert peer (t.driver.queueOf peer) = t.driver.queues
    rw [WireTcpDriver.queueOf] at hfull ⊢
    cases hqueue : t.driver.queues.lookup peer with
    | some queue => exact Finmap.insert_eq_self hqueue
    | none =>
      rw [hqueue] at hfull
      have hrecord := @LengthPrefix.length_frame 4 frame
      have hpos := hample.records_pos
      have hle := hample.frame_le
      have hlimit := hample.bytes_le
      rcases hfull with hfull | hfull
      · exact absurd hpos (Nat.not_lt.mpr hfull)
      · have hone : satAdd 0 (recordOf frame).length ≤ config.options.queueBytesPerPeer := by
          rw [satAdd, hrecord]
          omega
        exact absurd hone (Nat.not_le.mpr hfull)

/-- The calls of a run; where the options bound the bytes of a queue by nothing less, the queues of
every driver on the way can be addressed. -/
def Fits (config : WireConfig τ) (decode : List UInt8 → Option Segment) (tcp : τ)
    (calls : List (DriverCall τ)) : Prop :=
  config.options.queueBytesPerPeer = u64Max → ∀ first, first <+: calls →
    (runDriver config decode tcp first).Addressable

theorem accounts_runDriver (hample : Ample config.options) (decode : List UInt8 → Option Segment)
    (tcp : τ) {calls : List (DriverCall τ)} (hfits : Fits config decode tcp calls) :
    Accounts config.options (runDriver config decode tcp calls) := by
  induction calls using List.reverseRecOn with
  | nil => exact accounts_bind config.options tcp
  | append_singleton calls call ih =>
    have hbefore := ih fun hmax first hfirst =>
      hfits hmax first (hfirst.trans (List.prefix_append _ _))
    have hafter : config.options.queueBytesPerPeer = u64Max →
        (call.run config decode (runDriver config decode tcp calls)).Addressable := by
      intro hmax
      have := hfits hmax (calls ++ [call]) (List.prefix_refl _)
      rwa [runDriver, List.foldl_append, ← runDriver] at this
    rw [runDriver, List.foldl_append, ← runDriver]
    refine Stable.run stable_accounts hbefore call ?_ ?_ ?_
    · rintro peers expired rfl
      exact (accounts_selectPeers peers expired).driverAfter hbefore
    · rintro peer bytes rfl
      exact hbefore.of_queues_eq rfl
    · rintro peer frame rfl
      exact hbefore.queueFrame hample hafter

/-- With the options of a client: in every run each queue counts the unsent bytes of its records,
within its bound, and has no more records than it may; at most the first of them is written in part,
and none completely; there are no more queues than peers fit; and a frame that is refused changes no
queue. -/
theorem queues_accounted {options : Fips.FipsPubsubClientOptions} (hvalid : options.validate = .ok ())
    {config : WireConfig τ} (hconfig : config.options = options.wireTcpOptions)
    (decode : List UInt8 → Option Segment) (tcp : τ) {calls : List (DriverCall τ)}
    (hfits : Fits config decode tcp calls) :
    let d := runDriver config decode tcp calls
    (∀ peer queue, d.queues.lookup peer = some queue →
      queue.bytes = (queue.records.map fun record => record.bytes.length - record.offset).sum ∧
      queue.bytes ≤ config.options.queueBytesPerPeer ∧
      queue.records.length ≤ config.options.queueRecordsPerPeer ∧
      (∀ record ∈ queue.records.tail, record.offset = 0) ∧
      ∀ record ∈ queue.records, record.offset < record.bytes.length) ∧
    d.queues.size ≤ config.options.peerCapacity ∧
    ∀ peer frame error trace,
      (WireTcpDriver.queueFrame config peer frame ⟨d, trace⟩).1 = .error error →
      (WireTcpDriver.queueFrame config peer frame ⟨d, trace⟩).2.driver.queues = d.queues := by
  intro d
  have hample : Ample config.options := hconfig ▸ Ample.wireTcpOptions hvalid
  have haccounts : Accounts config.options d := accounts_runDriver hample decode tcp hfits
  refine ⟨fun peer queue hqueue => ?_, haccounts.size_le, fun _ _ _ _ => queues_of_error hample⟩
  have hqueued := haccounts.queue peer queue hqueue
  obtain ⟨frames, offset, hholds, -⟩ := hqueued.holds
  refine ⟨hqueued.bytes_eq.trans (length_unsent _), hqueued.bytes_le hample fun hmax => ?_,
    hqueued.records_le, hholds.offsets.2, hholds.offsets.1⟩
  exact hfits hmax calls (List.prefix_refl _) peer queue hqueue

/-- An adapter with one established connection, whose state is the room that is left for writing. -/
def narrowConnection : WireTcpEndpoint (List UInt8) :=
  { oneConnection with
    read := fun room _ _ _ => (.ok [], room)
    write := fun room _ chunk _ => (.ok (min chunk.length room.length), room.drop chunk.length)
    read_le := by
      intro _ _ _ _ _ _ h
      cases h
      exact Nat.zero_le _
    write_le := by
      intro _ _ _ _ _ _ h
      cases h
      exact Nat.min_le_left _ _ }

/-- A driver with the default options on it. -/
def narrowConfig : WireConfig (List UInt8) where
  endpoint := narrowConnection
  options := ({} : Fips.FipsPubsubClientOptions).wireTcpOptions
  localNpub := "npub1a"

/-- Two frames are queued, and as much is written as there is room for. -/
def partlyWritten : List (DriverCall (List UInt8)) :=
  [.selectPeers {"npub1b"} ∅, .connectPeer "npub1b" false 0, .refreshActive,
    .queueFrame "npub1b" [7, 8, 9], .queueFrame "npub1b" [5], .flushQueues 0 0]

/-- The first record is written in part, and again from its start when the stream is aborted. -/
theorem queues_accounted_restarted :
    ((runDriver narrowConfig (fun _ => none) (List.replicate 5 0) partlyWritten).queues.lookup
      "npub1b").map (fun queue => queue.records.map QueuedRecord.offset) = some [5, 0] ∧
    ∃ queue, (runDriver narrowConfig (fun _ => none) (List.replicate 5 0)
        (partlyWritten ++ [.abortPeer "npub1b"])).queues.lookup "npub1b" = some queue ∧
      queue.records.map QueuedRecord.offset = [0, 0] ∧
      queue.bytes = (queue.records.map fun record => record.bytes.length - record.offset).sum ∧
      queue.bytes ≤ narrowConfig.options.queueBytesPerPeer := by
  have hbound : narrowConfig.options.queueBytesPerPeer ≠ u64Max := by decide
  have hfits : Fits narrowConfig (fun _ => none) (List.replicate 5 0)
      (partlyWritten ++ [.abortPeer "npub1b"]) := fun hmax => absurd hmax hbound
  have hqueues := (queues_accounted Fips.FipsPubsubClientOptions.validate_default
    (show narrowConfig.options = _ from rfl) (fun _ => none) (List.replicate 5 0) hfits).1
  have hoffsets : ((runDriver narrowConfig (fun _ => none) (List.replicate 5 0)
      (partlyWritten ++ [.abortPeer "npub1b"])).queues.lookup "npub1b").map (fun queue =>
        queue.records.map QueuedRecord.offset) = some [0, 0] := by decide +kernel
  refine ⟨by decide +kernel, ?_⟩
  obtain ⟨queue, hqueue, hrestarted⟩ := Option.map_eq_some_iff.mp hoffsets
  obtain ⟨hbytes, hle, -⟩ := hqueues "npub1b" queue hqueue
  exact ⟨queue, hqueue, hrestarted, hbytes, hle⟩

end WireTcpDriver

end NostrPubsub.WireTcp
