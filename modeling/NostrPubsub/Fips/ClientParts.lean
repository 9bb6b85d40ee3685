import NostrPubsub.Fips.AskedProviders
import NostrPubsub.Fips.ClientTransport
import NostrPubsub.Query.Bookkeeping
import NostrPubsub.WireTcp.Selection

/-!
# What the parts of a client keep

For each part of the shared state, what a call can leave in it: a body, a waiting event, a
subscription or a pending request was there before, or is the one of the call.
-/

namespace NostrPubsub

/-! ## The subscriptions of peers -/

/-- A pop brings nothing in. -/
theorem lookup_of_lookup_popOver {α ν : Type} [DecidableEq α] {exceeds : ℕ → Bool} {order : List α}
    {s : Finmap fun _ : α => ν} {a : α} {b : ν}
    (h : (popOver exceeds order s).2.2.lookup a = some b) : s.lookup a = some b := by
  fun_induction popOver exceeds order s with
  | case1 s => exact h
  | case2 s oldest rest hover found hfound => exact (Finmap.lookup_erase_eq_some.mp h).2
  | case3 s oldest rest hover hnone ih => exact ih h
  | case4 s oldest rest hover => exact h

namespace PeerSubscriptionSet

variable {set : PeerSubscriptionSet} {subscription other : PubsubPeerSubscription}

/-- The subscription is one of the set. -/
def Lists (set : PeerSubscriptionSet) (subscription : PubsubPeerSubscription) : Prop :=
  ∃ id, set.subscriptions.lookup id = some subscription

/-- The values of a set are among those that it lists. -/
theorem lists_of_mem_intoValues (h : subscription ∈ set.intoValues) : set.Lists subscription := by
  obtain ⟨entry, hentry, rfl⟩ := List.mem_map.mp h
  exact ⟨entry.1, (Finmap.Enumeration.ascending _).mem_visit.mp hentry⟩

/-- An insertion lists at most the new subscription in addition. -/
theorem lists_of_upsert {limits : PubsubSubscriptionLimits}
    (h : (set.upsert subscription limits).2.2.Lists other) : set.Lists other ∨ other = subscription := by
  have hinsert : ∀ id, (set.subscriptions.insert subscription.subscriptionId subscription).lookup id =
      some other → set.Lists other ∨ other = subscription := by
    intro id hid
    rcases Finmap.lookup_insert_eq_some.mp hid with ⟨-, rfl⟩ | ⟨-, hold⟩
    · exact .inr rfl
    · exact .inl ⟨id, hold⟩
  obtain ⟨id, hid⟩ := h
  unfold upsert at hid
  dsimp only at hid
  split at hid
  · exact hinsert id (lookup_of_lookup_popOver hid)
  · exact hinsert id hid

/-- A removal lists nothing new. -/
theorem lists_of_remove {id : String} (h : (set.remove id).2.Lists other) : set.Lists other := by
  obtain ⟨key, hkey⟩ := h
  exact ⟨key, (Finmap.lookup_erase_eq_some.mp hkey).2⟩

end PeerSubscriptionSet

namespace PubsubPeerSubscriptionStore

variable {json : SubscriptionJson} {store : PubsubPeerSubscriptionStore} {peerId peer : String}
  {other : PubsubPeerSubscription}

/-- The subscription is one of the peer. -/
def Lists (store : PubsubPeerSubscriptionStore) (peer : String)
    (subscription : PubsubPeerSubscription) : Prop :=
  ∃ set, store.peers.lookup peer = some set ∧ set.Lists subscription

/-- Making room drops peers and changes none. -/
theorem lookup_of_lookup_makeRoom {set : PeerSubscriptionSet}
    (h : (store.makeRoom json peerId).peers.lookup peer = some set) :
    store.peers.lookup peer = some set := by
  unfold makeRoom at h
  dsimp only at h
  split at h
  · rw [subtractAll_peers] at h
    exact lookup_of_lookup_popOver h
  · exact h

/-- After an upsert a peer has what it had, or what was upserted for it. -/
theorem lists_of_upsertFilters {id : String} {filters : List Filter}
    (h : (store.upsertFilters json peerId id filters).2.Lists peer other) :
    store.Lists peer other ∨ peer = peerId ∧ other = ⟨id, filters⟩ := by
  unfold upsertFilters upsert at h
  split at h
  · exact .inl h
  split at h
  · exact .inl h
  split at h
  · exact .inl h
  split at h
  · exact .inl h
  obtain ⟨set, hset, hlists⟩ := h
  simp only [accept, countPeers, addRetained, subtractAll_peers] at hset
  rcases Finmap.lookup_insert_eq_some.mp hset with ⟨rfl, rfl⟩ | ⟨-, hold⟩
  · rcases PeerSubscriptionSet.lists_of_upsert hlists with hold | rfl
    · left
      cases hpeer : (store.makeRoom json peer).peers.lookup peer with
      | none =>
        rw [hpeer] at hold
        obtain ⟨id, hid⟩ := hold
        simp [PeerSubscriptionSet.empty] at hid
      | some old =>
        rw [hpeer] at hold
        exact ⟨old, lookup_of_lookup_makeRoom hpeer, hold⟩
    · exact .inr ⟨rfl, rfl⟩
  · exact .inl ⟨set, lookup_of_lookup_makeRoom hold, hlists⟩

/-- Removing a peer lists nothing new. -/
theorem lists_of_removePeer (h : (store.removePeer json peerId).2.Lists peer other) :
    store.Lists peer other := by
  obtain ⟨set, hset, hlists⟩ := h
  simp only [removePeer, countPeers, subtractAll_peers] at hset
  exact ⟨set, (Finmap.lookup_erase_eq_some.mp hset).2, hlists⟩

/-- A removal lists nothing new. -/
theorem lists_of_remove {id : String} (h : (store.remove json peerId id).2.Lists peer other) :
    store.Lists peer other := by
  unfold remove at h
  split at h
  · exact h
  · next old hold =>
    have hshrink : (store.shrinkPeer json peerId old id).Lists peer other →
        store.Lists peer other := by
      rintro ⟨set, hset, hlists⟩
      simp only [shrinkPeer, subtractAll_peers] at hset
      rcases Finmap.lookup_insert_eq_some.mp hset with ⟨rfl, rfl⟩ | ⟨-, hkept⟩
      · exact ⟨old, hold, PeerSubscriptionSet.lists_of_remove hlists⟩
      · exact ⟨set, hkept, hlists⟩
    dsimp only at h
    split at h
    · exact hshrink (lists_of_removePeer h)
    · exact hshrink h

end PubsubPeerSubscriptionStore

namespace Fips

variable {nostr : NostrCrate}

/-! ## Pending requests -/

namespace PendingWants

variable {iter : Finmap.Enumeration fun _ : String => PendingInventory} {wants : PendingWants}
  {Provides : String → String → Prop} {Hops : String → ℕ → Prop}

/-- Every provider of a pending event provides it, and its hop limit is one of the event. -/
def Tracks (Provides : String → String → Prop) (Hops : String → ℕ → Prop) (wants : PendingWants) :
    Prop :=
  ∀ id pending, wants.entries.lookup id = some pending →
    (∀ provider ∈ pending.providers, Provides id provider.peerNpub) ∧ Hops id pending.hopLimit

/-- A call adds at most the provider and the hop limit of an announcement. -/
theorem Tracks.step (h : Tracks Provides Hops wants) {op : Op}
    (hinsert : ∀ announcement, op = .insert announcement →
      Provides announcement.eventId announcement.peerNpub ∧
        Hops announcement.eventId announcement.hopLimit) :
    Tracks Provides Hops (PendingWants.step iter op wants).2 := by
  intro id pending' hlookup
  rcases step_entry hlookup with ⟨-, announcement, hop, rfl, -, rfl⟩ | ⟨pending, hold, hchanged⟩
  · obtain ⟨hprovides, hhops⟩ := hinsert announcement hop
    refine ⟨fun provider hprovider => ?_, hhops⟩
    rw [List.mem_singleton.mp hprovider]
    exact hprovides
  · obtain ⟨hproviders, hhops⟩ := h id pending hold
    -- every way to change keeps the hop limit and the peers of the providers
    cases hchanged with
    | unchanged hop => exact ⟨hproviders, hhops⟩
    | @announced announcement _ _ _ hid hkind hbytes =>
      refine ⟨fun provider hprovider => ?_, ?_⟩
      · rcases PendingInventory.announce_cases wants.maxAlternatives announcement.provider pending with
          ⟨before, p, after, hsplit, -, heq⟩ | ⟨-, -, heq⟩ | heq
        · rw [heq, List.mem_append, List.mem_cons] at hprovider
          rw [hsplit] at hproviders
          rcases hprovider with hmem | rfl | hmem
          · exact hproviders provider (List.mem_append_left _ hmem)
          · exact hproviders p (List.mem_append_right _ List.mem_cons_self)
          · exact hproviders provider (List.mem_append_right _ (List.mem_cons_of_mem _ hmem))
        · rw [heq, List.mem_append, List.mem_singleton] at hprovider
          rcases hprovider with hmem | rfl
          · exact hproviders provider hmem
          · rw [← hid]
            exact (hinsert announcement rfl).1
        · rw [heq] at hprovider
          exact hproviders provider hprovider
      · rw [(PendingInventory.announce_kept wants.maxAlternatives announcement.provider pending).2.2.1]
        exact hhops
    | unsubscribed hdrop =>
      obtain ⟨heq, -, -, hhop, -⟩ := PendingInventory.dropSubscription_eq_some hdrop
      refine ⟨fun provider hprovider => ?_, by rwa [hhop]⟩
      rw [heq] at hprovider
      obtain ⟨old, hold', rfl⟩ := List.mem_map.mp (List.mem_of_mem_filter hprovider)
      exact hproviders old hold'
    | retried hretry hbatch =>
      obtain ⟨⟨p, rest, hperm, heq⟩, -, -, hhop, -, -⟩ := PendingInventory.retry_eq_retried hretry
      refine ⟨fun provider hprovider => ?_, by rwa [hhop]⟩
      rw [heq, List.mem_cons] at hprovider
      rcases hprovider with rfl | hmem
      · exact hproviders p (hperm.mem_iff.mpr List.mem_cons_self)
      · exact hproviders provider (hperm.mem_iff.mpr (List.mem_cons_of_mem _ hmem))
    | disconnected hdrop =>
      obtain ⟨heq, -, -, hhop, -⟩ := PendingInventory.dropPeer_eq_some hdrop
      refine ⟨fun provider hprovider => ?_, by rwa [hhop]⟩
      rw [heq] at hprovider
      exact hproviders provider (List.mem_of_mem_filter hprovider)

/-- A retry asks a provider of the event. -/
theorem Tracks.retries (h : Tracks Provides Hops wants) {now after : ℕ}
    {retry : String × InventoryProvider} (hretry : retry ∈ (wants.retryDue iter now after).1.retries) :
    Provides retry.1 retry.2.peerNpub := by
  obtain ⟨entry, hentry, hsome⟩ := List.mem_filterMap.mp hretry
  have hold := iter.mem_visit.mp hentry
  split at hsome
  · next pending hretried =>
    cases hsome
    obtain ⟨⟨p, rest, hperm, heq⟩, -⟩ := PendingInventory.retry_eq_retried hretried
    have hselected : pending.selected = { p with requested := true } :=
      (List.cons.inj heq).1
    rw [hselected]
    exact (h entry.1 entry.2 hold).1 p (hperm.mem_iff.mpr List.mem_cons_self)
  · cases hsome

/-- What is taken was pending. -/
theorem lookup_of_takeMatching {eventId source subscriptionId : String} {kind bytes : ℕ}
    {pending : PendingInventory}
    (h : (wants.takeMatching eventId source subscriptionId kind bytes).1 = some pending) :
    wants.entries.lookup eventId = some pending := by
  unfold takeMatching at h
  split at h
  · cases h
  · next old hold =>
    split at h
    · cases h
    · split at h
      · cases h
      · cases h
        exact hold

end PendingWants

/-! ## The cache -/

namespace RecentEvents

variable {recent : RecentEvents nostr} {event : VerifiedEvent nostr} {source : EventSource}
  {hopLimit : UInt8} {cached : CachedEvent nostr}

/-- An insertion caches at most the new event in addition. -/
theorem mem_entries_insert (h : cached ∈ (recent.insert event source hopLimit).2.entries) :
    cached ∈ recent.entries ∨ cached = ⟨event, source, hopLimit⟩ := by
  unfold insert at h
  dsimp only at h
  split at h
  · exact .inl h
  · -- the window of bodies is a part of the old bodies and the new one
    have hmem : cached ∈ recent.entries ++ [CachedEvent.mk event source hopLimit] :=
      List.mem_of_mem_drop h
    rcases List.mem_append.mp hmem with hold | hnew
    · exact .inl hold
    · exact .inr (List.mem_singleton.mp hnew)

/-- So does the insertion of a publication. -/
theorem mem_entries_insertForPublish
    (h : cached ∈ (recent.insertForPublish event source hopLimit).2.entries) :
    cached ∈ recent.entries ∨ cached = ⟨event, source, hopLimit⟩ := by
  unfold insertForPublish at h
  dsimp only at h
  split at h
  · -- forgetting the id leaves the bodies
    have hmem := mem_entries_insert h
    exact hmem
  · exact mem_entries_insert h

/-- Only a receiver keeps an approved replay, under the source that says so. -/
theorem mem_entries_keepApproved {client : ReplayClient}
    (h : cached ∈ (client.keepApproved recent event hopLimit).entries) :
    cached ∈ recent.entries ∨
      (∃ authors, client.role = .receiver authors) ∧ cached.event = event ∧
        cached.source.id = "approved-public-replay" ∧ cached.hopLimit = hopLimit := by
  unfold ReplayClient.keepApproved at h
  split at h
  · next authors hrole =>
    split at h
    · rcases mem_entries_insertForPublish h with hold | rfl
      · exact .inl hold
      · exact .inr ⟨⟨authors, hrole⟩, rfl, rfl, rfl⟩
    · exact .inl h
  · exact .inl h

/-- A body that is found is one of the bodies. -/
theorem exists_of_event_eq_some {eventId : EventId} (h : recent.event eventId = some event) :
    event.event.id = eventId ∧ ∃ cached ∈ recent.entries, cached.event = event := by
  obtain ⟨cached, hfind, rfl⟩ := Option.map_eq_some_iff.mp h
  have hid := List.find?_some hfind
  exact ⟨of_decide_eq_true hid, cached, List.mem_of_find?_eq_some hfind, rfl⟩

end RecentEvents

/-! ## Local delivery -/

namespace LocalDelivery

variable {delivery : LocalDelivery nostr} {found event : QueryEvent nostr}

/-- A turn of the refill moves an event from the queue to the channel. -/
theorem mem_waiting_refillTurn {state : DeliveryState nostr} {channel : Channel (QueryEvent nostr)}
    (h : found ∈ LocalDelivery.waiting
      ⟨(state.refillTurn channel).2.1, (state.refillTurn channel).2.2⟩) :
    found ∈ LocalDelivery.waiting ⟨state, channel⟩ := by
  have hfinish : ∀ other : DeliveryState nostr, other.finishRefill.pending = other.pending := by
    intro other
    unfold DeliveryState.finishRefill
    split <;> rfl
  unfold waiting at h ⊢
  unfold DeliveryState.refillTurn Channel.trySend at h
  dsimp only at h ⊢
  cases hpending : state.pending with
  | nil =>
    simp only [hpending, hfinish] at h
    exact h
  | cons next rest =>
    simp only [hpending] at h
    split at h
    · split at h
      · next heq =>
        -- the next event goes from the queue to the end of the channel
        split at heq
        · cases heq
        · split at heq
          · cases heq
            simpa [DeliveryState.markDelivered] using h
          · cases heq
      · next heq =>
        split at heq
        · cases heq
        · split at heq
          · cases heq
          · cases heq
            simpa [hfinish, hpending] using h
      · next heq =>
        split at heq
        · cases heq
          rw [hfinish] at h
          simp only [DeliveryState.close, List.append_nil] at h
          exact List.mem_append_left _ h
        · split at heq
          · cases heq
          · cases heq
    · simpa [hfinish, hpending] using h

/-- So do all its turns. -/
theorem mem_waiting_refillLoop (fuel : ℕ) (h : found ∈ (refillLoop fuel delivery).waiting) :
    found ∈ delivery.waiting := by
  induction fuel generalizing delivery with
  | zero => exact h
  | succ fuel ih =>
    rw [refillLoop] at h
    dsimp only at h
    split at h
    · exact mem_waiting_refillTurn (ih h)
    · exact mem_waiting_refillTurn h

/-- What waits after a refill waited before. -/
theorem mem_waiting_refill (h : found ∈ delivery.refill.waiting) : found ∈ delivery.waiting :=
  mem_waiting_refillLoop _ h

/-- What waits after a call was waiting before, or is the event of the call. -/
theorem mem_waiting_enqueue (h : found ∈ (delivery.enqueue event).2.waiting) :
    found ∈ delivery.waiting ∨ found = event := by
  unfold enqueue at h
  split at h
  · have hrefill : ∀ other, other ∈ delivery.refill.waiting → other ∈ delivery.waiting :=
      fun other => mem_waiting_refill
    have hsend : found ∈ delivery.refill.waiting ∨ found = event := by
      unfold waiting at h ⊢
      unfold DeliveryState.send Channel.trySend at h
      dsimp only at h
      split at h
      · split at h
        · next heq =>
          split at heq
          · cases heq
          · split at heq
            · cases heq
              simp only [DeliveryState.markDelivered, List.mem_append, List.mem_singleton] at h ⊢
              tauto
            · cases heq
        · next heq =>
          split at heq
          · cases heq
          · split at heq
            · cases heq
            · cases heq
              split at h
              · exact .inl h
              · simp only [List.mem_append, List.mem_singleton] at h ⊢
                tauto
        · next heq =>
          split at heq
          · cases heq
            exact .inl h
          · split at heq
            · cases heq
            · cases heq
      · exact .inl h
    exact hsend.imp_left (hrefill found)
  · exact .inl h

/-- What waits after an event was taken waited before. -/
theorem mem_waiting_take (h : found ∈ delivery.take.2.waiting) : found ∈ delivery.waiting := by
  unfold take at h
  split at h
  · exact h
  · next next rest hbuffer =>
    unfold waiting at h ⊢
    rw [hbuffer]
    exact List.mem_cons_of_mem _ h

/-- What is taken was waiting. -/
theorem mem_waiting_of_take (h : delivery.take.1 = some found) : found ∈ delivery.waiting := by
  unfold take at h
  split at h
  · cases h
  · next next rest hbuffer =>
    cases h
    unfold waiting
    rw [hbuffer]
    exact List.mem_cons_self

end LocalDelivery

end Fips

end NostrPubsub
