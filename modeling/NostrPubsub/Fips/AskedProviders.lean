import NostrPubsub.Fips.PendingWants
import NostrPubsub.ToMathlib.Recency

/-!
# Only answers that were asked for

What a call can do to a pending event is said once (`Changed`, `step_entry`). From it follows what
holds of every pending event along a run: its providers are distinct peers, each with the
subscriptions it announced and that were not removed since, and a provider is marked as requested
only if it was asked during the lifetime of the event (`pendingWants_asked`).
-/

namespace NostrPubsub.Fips

/-! ## Providers -/

namespace PendingInventory

theorem mergeAlternative_eq_some {provider : InventoryProvider} {l l' : List InventoryProvider}
    (h : mergeAlternative provider l = some l') :
    ∃ before p after, l = before ++ p :: after ∧ p.peerNpub = provider.peerNpub ∧
      l' = before ++ p.merge provider :: after := by
  induction l generalizing l' with
  | nil => cases h
  | cons existing rest ih =>
    rw [mergeAlternative] at h
    split at h
    · next hpeer =>
      cases h
      exact ⟨[], existing, rest, rfl, hpeer, rfl⟩
    · obtain ⟨rest', hrest, rfl⟩ := Option.map_eq_some_iff.mp h
      obtain ⟨before, p, after, rfl, hpeer, rfl⟩ := ih hrest
      exact ⟨existing :: before, p, after, rfl, hpeer, rfl⟩

theorem mergeAlternative_eq_none {provider : InventoryProvider} {l : List InventoryProvider}
    (h : mergeAlternative provider l = none) : provider.peerNpub ∉ l.map InventoryProvider.peerNpub := by
  induction l with
  | nil => exact List.not_mem_nil
  | cons existing rest ih =>
    rw [mergeAlternative] at h
    split at h
    · cases h
    · next hpeer =>
      rw [List.map_cons, List.mem_cons, not_or]
      exact ⟨Ne.symm hpeer, ih (Option.map_eq_none_iff.mp h)⟩

/-- An announcement is merged into the provider of its peer, or adds a provider that was not
asked, or changes nothing. -/
theorem announce_cases (maxAlternatives : ℕ) (provider : InventoryProvider)
    (pending : PendingInventory) :
    (∃ before p after, pending.providers = before ++ p :: after ∧
      p.peerNpub = provider.peerNpub ∧
      (pending.announce maxAlternatives provider).providers = before ++ p.merge provider :: after) ∨
    (provider.peerNpub ∉ pending.providers.map InventoryProvider.peerNpub ∧
      pending.alternatives.length < maxAlternatives ∧
      (pending.announce maxAlternatives provider).providers = pending.providers ++
        [⟨provider.peerNpub, sortedSet id provider.subscriptionIds, false⟩]) ∨
    (pending.announce maxAlternatives provider).providers = pending.providers := by
  rw [announce]
  split
  · next hpeer => exact .inl ⟨[], pending.selected, pending.alternatives, rfl, hpeer.symm, rfl⟩
  · next hselected =>
    split
    · next alternatives hmerge =>
      obtain ⟨before, p, after, hl, hpeer, rfl⟩ := mergeAlternative_eq_some hmerge
      refine .inl ⟨pending.selected :: before, p, after, ?_, hpeer, rfl⟩
      rw [providers, hl, List.cons_append]
    · next hmerge =>
      split
      · next hroom =>
        refine .inr (.inl ⟨?_, hroom, rfl⟩)
        rw [providers, List.map_cons, List.mem_cons, not_or]
        exact ⟨hselected, mergeAlternative_eq_none hmerge⟩
      · exact .inr (.inr rfl)

theorem announce_kept (maxAlternatives : ℕ) (provider : InventoryProvider)
    (pending : PendingInventory) :
    (pending.announce maxAlternatives provider).eventKind = pending.eventKind ∧
    (pending.announce maxAlternatives provider).payloadBytes = pending.payloadBytes ∧
    (pending.announce maxAlternatives provider).hopLimit = pending.hopLimit ∧
    (pending.announce maxAlternatives provider).retryCount = pending.retryCount := by
  rw [announce]
  split
  · exact ⟨rfl, rfl, rfl, rfl⟩
  · split
    · exact ⟨rfl, rfl, rfl, rfl⟩
    · split <;> exact ⟨rfl, rfl, rfl, rfl⟩

/-- Removing a subscription takes it from every provider, and drops those that are left with
none. -/
theorem dropSubscription_eq_some {subscriptionId : String} {pending pending' : PendingInventory}
    (h : pending.dropSubscription subscriptionId = some pending') :
    pending'.providers = (pending.providers.map (·.dropSubscription subscriptionId)).filter
        (fun provider => provider.subscriptionIds ≠ []) ∧
      pending'.eventKind = pending.eventKind ∧ pending'.payloadBytes = pending.payloadBytes ∧
      pending'.hopLimit = pending.hopLimit ∧ pending'.retryCount = pending.retryCount := by
  rw [dropSubscription] at h
  rw [providers, providers, List.map_cons]
  split at h
  · next hempty =>
    rw [List.filter_cons_of_neg (by simpa using hempty)]
    split at h
    · next next rest halternatives =>
      cases h
      exact ⟨halternatives.symm, rfl, rfl, rfl, rfl⟩
    · cases h
  · next hsome =>
    rw [List.filter_cons_of_pos (by simpa using hsome)]
    cases h
    exact ⟨rfl, rfl, rfl, rfl, rfl⟩

/-- Removing a peer drops its provider. -/
theorem dropPeer_eq_some {peerNpub : String} {nowMs : ℕ} {pending pending' : PendingInventory}
    (h : pending.dropPeer peerNpub nowMs = some pending') :
    pending'.providers = pending.providers.filter (fun provider => provider.peerNpub ≠ peerNpub) ∧
      pending'.eventKind = pending.eventKind ∧ pending'.payloadBytes = pending.payloadBytes ∧
      pending'.hopLimit = pending.hopLimit ∧ pending'.retryCount ≤ pending.retryCount := by
  rw [dropPeer] at h
  rw [providers, providers]
  split at h
  · next hselected =>
    rw [List.filter_cons_of_neg (by simpa using hselected)]
    split at h
    · next next rest halternatives =>
      cases h
      exact ⟨halternatives.symm, rfl, rfl, rfl, Nat.zero_le _⟩
    · cases h
  · next hselected =>
    rw [List.filter_cons_of_pos (by simpa using hselected)]
    cases h
    exact ⟨rfl, rfl, rfl, rfl, le_rfl⟩

/-- A retry asks one of the providers, and counts. -/
theorem retry_eq_retried {nowMs retryAfterMs : ℕ} {pending pending' : PendingInventory}
    (h : pending.retry nowMs retryAfterMs = .retried pending') :
    (∃ p rest, pending.providers.Perm (p :: rest) ∧
      pending'.providers = { p with requested := true } :: rest) ∧
      pending'.eventKind = pending.eventKind ∧ pending'.payloadBytes = pending.payloadBytes ∧
      pending'.hopLimit = pending.hopLimit ∧
      pending'.retryCount = pending.retryCount + 1 ∧ pending.retryCount < maxWantRetries := by
  rw [retry] at h
  split at h
  · cases h
  · split at h
    · cases h
    · next hcount =>
      cases h
      refine ⟨?_, ?_, ?_, ?_, rfl, Nat.lt_of_not_ge hcount⟩
      · cases halternatives : pending.alternatives with
        | nil =>
          exact ⟨pending.selected, [], by rw [providers, halternatives], by simp [providers, halternatives]⟩
        | cons next rest =>
          refine ⟨next, rest ++ [pending.selected], ?_, rfl⟩
          rw [providers, halternatives]
          exact (List.perm_append_singleton pending.selected (next :: rest)).symm
      · split <;> rfl
      · split <;> rfl
      · split <;> rfl

end PendingInventory

namespace PendingWants

variable {iter : Finmap.Enumeration fun _ : String => PendingInventory}

/-! ## What a call does to a pending event -/

/-- What a call can do to a pending event that stays. -/
inductive Changed (maxAlternatives : ℕ) :
    Op → Output → String → PendingInventory → PendingInventory → Prop
  | unchanged {op : Op} {out : Output} {id : String} {pending : PendingInventory}
      (hop : ∀ subscription, op ≠ .removeSubscription subscription) :
      Changed maxAlternatives op out id pending pending
  | announced {announcement : Announcement} {out : Output} {id : String}
      {pending : PendingInventory} (hid : announcement.eventId = id)
      (hkind : announcement.eventKind = pending.eventKind)
      (hbytes : announcement.payloadBytes = pending.payloadBytes) :
      Changed maxAlternatives (.insert announcement) out id pending
        (pending.announce maxAlternatives announcement.provider)
  | unsubscribed {subscription : String} {out : Output} {id : String}
      {pending pending' : PendingInventory}
      (h : pending.dropSubscription subscription = some pending') :
      Changed maxAlternatives (.removeSubscription subscription) out id pending pending'
  | retried {now after : ℕ} {batch : PendingWantRetryBatch} {id : String}
      {pending pending' : PendingInventory} (h : pending.retry now after = .retried pending')
      (hbatch : (id, pending'.selected) ∈ batch.retries) :
      Changed maxAlternatives (.retryDue now after) (.due batch) id pending pending'
  | disconnected {peer : String} {now : String → ℕ} {out : Output} {id : String}
      {pending pending' : PendingInventory} (h : pending.dropPeer peer (now id) = some pending') :
      Changed maxAlternatives (.removePeer peer now) out id pending pending'

/-- The limits do not change. -/
theorem step_limits (op : Op) (wants : PendingWants) :
    (step iter op wants).2.maxEvents = wants.maxEvents ∧
      (step iter op wants).2.maxAlternatives = wants.maxAlternatives := by
  cases op with
  | insert announcement =>
    simp only [step, Prod.map, insert]
    split
    · split <;> exact ⟨rfl, rfl⟩
    · exact ⟨rfl, rfl⟩
  | takeMatching id source subscription kind bytes =>
    simp only [step, Prod.map, takeMatching]
    split
    · exact ⟨rfl, rfl⟩
    · split
      · exact ⟨rfl, rfl⟩
      · split <;> exact ⟨rfl, rfl⟩
  | removeSubscription subscription => exact ⟨rfl, rfl⟩
  | retryDue now after => exact ⟨rfl, rfl⟩
  | removePeer peer now => exact ⟨rfl, rfl⟩
  | clear => exact ⟨rfl, rfl⟩

theorem lookup_retain {f : String → PendingInventory → Option PendingInventory} {wants : PendingWants}
    {id : String} {pending' : PendingInventory}
    (h : (wants.retain f).entries.lookup id = some pending') :
    ∃ pending, wants.entries.lookup id = some pending ∧ f id pending = some pending' :=
  Finmap.lookup_filterMapValues_eq_some.mp h

/-- An entry after a call is new, or was there and changed in one of the ways above. -/
theorem step_entry {op : Op} {wants : PendingWants} {id : String} {pending' : PendingInventory}
    (h : (step iter op wants).2.entries.lookup id = some pending') :
    (wants.entries.lookup id = none ∧ ∃ announcement, op = .insert announcement ∧
      announcement.eventId = id ∧ (step iter op wants).1 = .inserted true ∧
      pending' = announcement.inventory) ∨
    ∃ pending, wants.entries.lookup id = some pending ∧
      Changed wants.maxAlternatives op (step iter op wants).1 id pending pending' := by
  cases op with
  | insert announcement =>
    have hop : ∀ subscription, Op.insert announcement ≠ .removeSubscription subscription := nofun
    simp only [step, Prod.map, insert] at h ⊢
    cases hlookup : wants.entries.lookup announcement.eventId with
    | some pending =>
      simp only [hlookup] at h ⊢
      split at h
      · next hdiffer =>
        rw [if_pos hdiffer]
        exact .inr ⟨pending', h, .unchanged hop⟩
      · next hsame =>
        rw [if_neg hsame]
        obtain ⟨hkind, hbytes⟩ := not_or.mp hsame
        rcases Finmap.lookup_insert_eq_some.mp h with ⟨rfl, rfl⟩ | ⟨hne, hold⟩
        · exact .inr ⟨pending, hlookup, .announced rfl (not_not.mp hkind).symm
            (not_not.mp hbytes).symm⟩
        · exact .inr ⟨pending', hold, .unchanged hop⟩
    -- The oldest event may be evicted for the new one, whose provider is asked at once.
    | none =>
      simp only [hlookup] at h ⊢
      rcases Finmap.lookup_insert_eq_some.mp (lookup_evictOldest h) with ⟨rfl, rfl⟩ | ⟨hne, hold⟩
      · exact .inl ⟨hlookup, announcement, rfl, rfl, trivial, rfl⟩
      · exact .inr ⟨pending', hold, .unchanged hop⟩
  | takeMatching eventId source subscription kind bytes =>
    have hop : ∀ sub, Op.takeMatching eventId source subscription kind bytes
      ≠ .removeSubscription sub := nofun
    simp only [step, Prod.map, takeMatching] at h
    -- A taken event is erased, so one that is still pending was not touched.
    refine .inr ⟨pending', ?_, .unchanged hop⟩
    split at h
    · exact h
    · split at h
      · exact h
      · split at h
        · exact h
        · exact (Finmap.lookup_erase_eq_some.mp h).2
  | removeSubscription subscription =>
    obtain ⟨pending, hold, hdrop⟩ := lookup_retain h
    exact .inr ⟨pending, hold, .unsubscribed hdrop⟩
  | retryDue now after =>
    -- `retain` keeps an event by what its own retry says.
    obtain ⟨pending, hold, hretry⟩ := lookup_retain h
    refine .inr ⟨pending, hold, ?_⟩
    cases hr : pending.retry now after with
    | waiting =>
      rw [hr] at hretry
      cases hretry
      exact .unchanged nofun
    | expired =>
      rw [hr] at hretry
      cases hretry
    | retried next =>
      rw [hr] at hretry
      cases hretry
      refine .retried hr (List.mem_filterMap.mpr ⟨⟨id, pending⟩, iter.mem_visit.mpr hold, ?_⟩)
      simp only [hr]
  | removePeer peer now =>
    obtain ⟨pending, hold, hdrop⟩ := lookup_retain h
    exact .inr ⟨pending, hold, .disconnected hdrop⟩
  | clear => simp [step, clear] at h

/-- The queue lists the pending events, within the limit. -/
structure Tabled (wants : PendingWants) : Prop where
  enumerates : Enumerates wants.order wants.entries
  size_le : wants.entries.size ≤ wants.maxEvents

theorem Tabled.retain {wants : PendingWants} (h : wants.Tabled)
    (f : String → PendingInventory → Option PendingInventory) : (wants.retain f).Tabled where
  enumerates := h.enumerates.filterMapValues _
  size_le := by
    refine le_trans (Finmap.size_le_size fun id hid => ?_) h.size_le
    obtain ⟨pending', hpending'⟩ := Finmap.mem_iff.mp hid
    obtain ⟨pending, hold, -⟩ := lookup_retain hpending'
    exact Finmap.mem_of_lookup_eq_some hold

theorem Tabled.step {wants : PendingWants} (h : wants.Tabled) (op : Op) :
    (step iter op wants).2.Tabled := by
  cases op with
  | insert announcement =>
    simp only [PendingWants.step, Prod.map, insert]
    cases hlookup : wants.entries.lookup announcement.eventId with
    | some pending =>
      have hmem : announcement.eventId ∈ wants.entries := Finmap.mem_of_lookup_eq_some hlookup
      simp only
      split
      · exact h
      · refine ⟨h.enumerates.replace hmem _, ?_⟩
        rw [Finmap.size_insert_of_mem hmem]
        exact h.size_le
    | none =>
      have hfresh : announcement.eventId ∉ wants.entries := Finmap.lookup_eq_none.mp hlookup
      have hpush := h.enumerates.push hfresh announcement.inventory
      exact ⟨hpush.of_evictOldest _,
        Nat.le_of_lt_succ (hpush.size_evictOldest_lt (Nat.succ_pos wants.maxEvents))⟩
  | takeMatching id source subscription kind bytes =>
    simp only [PendingWants.step, Prod.map, takeMatching]
    split
    · exact h
    · next pending hpending =>
      split
      · exact h
      · split
        · exact h
        · refine ⟨h.enumerates.remove id, ?_⟩
          have := Finmap.size_erase_of_lookup hpending
          have := h.size_le
          show (wants.entries.erase id).size ≤ wants.maxEvents
          omega
  | removeSubscription subscription => exact h.retain _
  | retryDue now after => exact h.retain _
  | removePeer peer now => exact h.retain _
  | clear => exact ⟨Enumerates.empty, Nat.zero_le _⟩

/-! ## Lifetimes -/

/-- For every pending event, the calls since it became pending and what they returned. -/
abbrev Lifetimes := String → List (Op × Output)

variable (iter) in
/-- One call, with the lifetimes of the events that are pending after it. -/
def lifetimeStep (op : Op) (s : PendingWants × Lifetimes) : Output × (PendingWants × Lifetimes) :=
  let (out, wants) := step iter op s.1
  (out, wants, fun id =>
    if id ∈ wants.entries then
      if id ∈ s.1.entries then s.2 id ++ [(op, out)] else [(op, out)]
    else [])

theorem fst_after_lifetimeStep (s : PendingWants × Lifetimes) (ops : List Op) :
    (Mealy.after (lifetimeStep iter) s ops).1 = Mealy.after (step iter) s.1 ops := by
  induction ops generalizing s with
  | nil => rfl
  | cons op ops ih => exact ih _

/-- The peer was asked for the event: a request went out when it announced the event, or in a
batch of retries. -/
def Asked (calls : List (Op × Output)) (id peer : String) : Prop :=
  (∃ announcement, (Op.insert announcement, Output.inserted true) ∈ calls ∧
    announcement.eventId = id ∧ announcement.peerNpub = peer) ∨
  ∃ now after batch provider, (Op.retryDue now after, Output.due batch) ∈ calls ∧
    (id, provider) ∈ batch.retries ∧ provider.peerNpub = peer

/-- The peer announced the event under the subscription, with this kind and size, and the
subscription was not removed since. -/
def Announced (calls : List (Op × Output)) (id peer subscription : String) (kind bytes : ℕ) : Prop :=
  ∃ before announcement out after, calls = before ++ (Op.insert announcement, out) :: after ∧
    announcement.eventId = id ∧ announcement.peerNpub = peer ∧
    subscription ∈ announcement.subscriptionIds ∧ announcement.eventKind = kind ∧
    announcement.payloadBytes = bytes ∧ ∀ call ∈ after, call.1 ≠ .removeSubscription subscription

theorem Asked.append {calls : List (Op × Output)} {id peer : String} (h : Asked calls id peer)
    (call : Op × Output) : Asked (calls ++ [call]) id peer := by
  rcases h with ⟨announcement, hmem, h⟩ | ⟨now, after, batch, provider, hmem, h⟩
  · exact .inl ⟨announcement, List.mem_append_left _ hmem, h⟩
  · exact .inr ⟨now, after, batch, provider, List.mem_append_left _ hmem, h⟩

theorem Announced.append {calls : List (Op × Output)} {id peer subscription : String}
    {kind bytes : ℕ} (h : Announced calls id peer subscription kind bytes) {call : Op × Output}
    (hcall : call.1 ≠ .removeSubscription subscription) :
    Announced (calls ++ [call]) id peer subscription kind bytes := by
  obtain ⟨before, announcement, out, after, rfl, hid, hpeer, hsub, hkind, hbytes, hafter⟩ := h
  refine ⟨before, announcement, out, after ++ [call], by simp, hid, hpeer, hsub, hkind, hbytes, ?_⟩
  intro c hc
  rcases List.mem_append.mp hc with hc | hc
  · exact hafter c hc
  · rwa [List.mem_singleton.mp hc]

theorem announced_concat (calls : List (Op × Output)) {announcement : Announcement} {out : Output}
    {subscription : String} (h : subscription ∈ announcement.subscriptionIds) :
    Announced (calls ++ [(.insert announcement, out)]) announcement.eventId announcement.peerNpub
      subscription announcement.eventKind announcement.payloadBytes :=
  ⟨calls, announcement, out, [], rfl, rfl, rfl, h, rfl, rfl, by simp⟩

/-! ## What holds of a pending event -/

/-- A pending event is in order, and the calls of its lifetime account for its providers. -/
structure Sound (maxAlternatives : ℕ) (calls : List (Op × Output)) (id : String)
    (pending : PendingInventory) : Prop where
  distinct : (pending.providers.map InventoryProvider.peerNpub).Nodup
  subscribed : ∀ p ∈ pending.providers, p.subscriptionIds ≠ [] ∧ p.subscriptionIds.Nodup
  alternatives_le : pending.alternatives.length ≤ maxAlternatives
  retryCount_le : pending.retryCount ≤ maxWantRetries
  asked : ∀ p ∈ pending.providers, p.requested = true → Asked calls id p.peerNpub
  announced : ∀ p ∈ pending.providers, ∀ subscription ∈ p.subscriptionIds,
    Announced calls id p.peerNpub subscription pending.eventKind pending.payloadBytes

theorem length_providers (pending : PendingInventory) :
    pending.providers.length = pending.alternatives.length + 1 := rfl

theorem Sound.born {maxAlternatives : ℕ} (announcement : Announcement) :
    Sound maxAlternatives [(.insert announcement, .inserted true)] announcement.eventId
      announcement.inventory where
  distinct := List.nodup_singleton _
  subscribed := by
    intro p hp
    rw [List.mem_singleton.mp hp]
    exact ⟨announcement.nonempty, announcement.nodup⟩
  alternatives_le := Nat.zero_le _
  retryCount_le := Nat.zero_le _
  asked := by
    intro p hp _
    rw [List.mem_singleton.mp hp]
    exact .inl ⟨announcement, List.mem_singleton.mpr rfl, rfl, rfl⟩
  announced := by
    intro p hp subscription hsub
    rw [List.mem_singleton.mp hp] at hsub ⊢
    exact announced_concat [] hsub

theorem mem_sortedSet_id {l : List String} {x : String} : x ∈ sortedSet id l ↔ x ∈ l :=
  mem_sortedSet Function.injective_id

theorem nodup_sortedSet_id (l : List String) : (sortedSet id l).Nodup :=
  (strict_sortedSet Function.injective_id l).imp fun h => ne_of_lt h

theorem sortedSet_id_ne_nil {l : List String} (h : l ≠ []) : sortedSet id l ≠ [] := by
  obtain ⟨x, hx⟩ := List.exists_mem_of_ne_nil l h
  exact List.ne_nil_of_mem (mem_sortedSet_id.mpr hx)

variable {maxAlternatives : ℕ} {calls : List (Op × Output)} {id : String}
  {pending pending' : PendingInventory}

/-- A call that adds no provider, asks nobody and takes subscriptions only from a provider keeps a
pending event in order. -/
theorem Sound.of_sublist (h : Sound maxAlternatives calls id pending) (call : Op × Output)
    (hpeers : List.Sublist (pending'.providers.map InventoryProvider.peerNpub)
      (pending.providers.map InventoryProvider.peerNpub))
    (hproviders : ∀ p' ∈ pending'.providers, p'.subscriptionIds ≠ [] ∧
      ∃ p ∈ pending.providers, p'.peerNpub = p.peerNpub ∧ p'.requested = p.requested ∧
        List.Sublist p'.subscriptionIds p.subscriptionIds ∧
        ∀ subscription ∈ p'.subscriptionIds, call.1 ≠ .removeSubscription subscription)
    (hkind : pending'.eventKind = pending.eventKind)
    (hbytes : pending'.payloadBytes = pending.payloadBytes)
    (hcount : pending'.retryCount ≤ pending.retryCount) :
    Sound maxAlternatives (calls ++ [call]) id pending' where
  distinct := h.distinct.sublist hpeers
  subscribed := by
    intro p' hp'
    obtain ⟨hne, p, hp, -, -, hsub, -⟩ := hproviders p' hp'
    exact ⟨hne, (h.subscribed p hp).2.sublist hsub⟩
  alternatives_le := by
    have hlength := hpeers.length_le
    rw [List.length_map, List.length_map, length_providers, length_providers] at hlength
    have := h.alternatives_le
    omega
  retryCount_le := hcount.trans h.retryCount_le
  asked := by
    intro p' hp' hrequested
    obtain ⟨-, p, hp, hpeer, hreq, -⟩ := hproviders p' hp'
    rw [hpeer]
    exact (h.asked p hp (hreq ▸ hrequested)).append call
  announced := by
    intro p' hp' subscription hsubscription
    obtain ⟨-, p, hp, hpeer, -, hsub, hcall⟩ := hproviders p' hp'
    rw [hpeer, hkind, hbytes]
    exact (h.announced p hp subscription (hsub.subset hsubscription)).append
      (hcall subscription hsubscription)

/-- An announcement keeps a pending event in order. A provider it adds was not asked. -/
theorem Sound.announce (h : Sound maxAlternatives calls id pending) {announcement : Announcement}
    {out : Output} (hid : announcement.eventId = id)
    (hkind : announcement.eventKind = pending.eventKind)
    (hbytes : announcement.payloadBytes = pending.payloadBytes) :
    Sound maxAlternatives (calls ++ [(.insert announcement, out)]) id
      (pending.announce maxAlternatives announcement.provider) := by
  subst hid
  obtain ⟨hkind', hbytes', -, hcount'⟩ :=
    PendingInventory.announce_kept maxAlternatives announcement.provider pending
  have hnew : ∀ subscription ∈ announcement.subscriptionIds,
      Announced (calls ++ [(.insert announcement, out)]) announcement.eventId
        announcement.peerNpub subscription pending.eventKind pending.payloadBytes := by
    intro subscription hsub
    rw [← hkind, ← hbytes]
    exact announced_concat calls hsub
  have hold : ∀ p ∈ pending.providers, ∀ subscription ∈ p.subscriptionIds,
      Announced (calls ++ [(.insert announcement, out)]) announcement.eventId p.peerNpub
        subscription pending.eventKind pending.payloadBytes :=
    fun p hp subscription hsub => (h.announced p hp subscription hsub).append nofun
  -- The announcement goes to the provider of its peer, to a new one, or nowhere.
  rcases PendingInventory.announce_cases maxAlternatives announcement.provider pending with
    ⟨before, p, after, hsplit, hpeer, hafter⟩ | ⟨hfresh, hroom, hafter⟩ | hafter
  · -- the provider of the peer takes over the announced subscriptions
    have hmem : p ∈ pending.providers := by simp [hsplit]
    have hrest : ∀ q, q ∈ before ∨ q ∈ after → q ∈ pending.providers := by
      intro q hq
      rw [hsplit, List.mem_append, List.mem_cons]
      tauto
    have hpeers : (pending.announce maxAlternatives announcement.provider).providers.map
        InventoryProvider.peerNpub = pending.providers.map InventoryProvider.peerNpub := by
      rw [hafter, hsplit]
      simp [InventoryProvider.merge]
    refine ⟨by rw [hpeers]; exact h.distinct, ?_, ?_, by rw [hcount']; exact h.retryCount_le,
      ?_, ?_⟩
    · intro q hq
      rw [hafter, List.mem_append, List.mem_cons] at hq
      rcases hq with hq | rfl | hq
      · exact h.subscribed q (hrest q (.inl hq))
      · exact ⟨sortedSet_id_ne_nil (by simp [(h.subscribed p hmem).1]), nodup_sortedSet_id _⟩
      · exact h.subscribed q (hrest q (.inr hq))
    · have hlength := congrArg List.length hpeers
      rw [List.length_map, List.length_map, length_providers, length_providers] at hlength
      have := h.alternatives_le
      omega
    · intro q hq hrequested
      rw [hafter, List.mem_append, List.mem_cons] at hq
      rcases hq with hq | rfl | hq
      · exact (h.asked q (hrest q (.inl hq)) hrequested).append _
      · exact (h.asked p hmem hrequested).append _
      · exact (h.asked q (hrest q (.inr hq)) hrequested).append _
    · intro q hq subscription hsub
      rw [hkind', hbytes']
      rw [hafter, List.mem_append, List.mem_cons] at hq
      rcases hq with hq | rfl | hq
      · exact hold q (hrest q (.inl hq)) subscription hsub
      · rcases List.mem_append.mp (mem_sortedSet_id.mp hsub) with hsub | hsub
        · exact hold p hmem subscription hsub
        · show Announced _ _ p.peerNpub _ _ _
          rw [hpeer]
          exact hnew subscription hsub
      · exact hold q (hrest q (.inr hq)) subscription hsub
  · -- the peer has no provider yet and gets one, at the end and not asked
    refine ⟨?_, ?_, ?_, by rw [hcount']; exact h.retryCount_le, ?_, ?_⟩
    · rw [hafter, List.map_append, List.nodup_append]
      refine ⟨h.distinct, List.nodup_singleton _, ?_⟩
      rintro a ha b hb rfl
      rw [List.map_singleton, List.mem_singleton] at hb
      exact hfresh (hb ▸ ha)
    · intro q hq
      rw [hafter, List.mem_append, List.mem_singleton] at hq
      rcases hq with hq | rfl
      · exact h.subscribed q hq
      · exact ⟨sortedSet_id_ne_nil announcement.nonempty, nodup_sortedSet_id _⟩
    · have hlength := congrArg List.length hafter
      rw [List.length_append, List.length_singleton, length_providers, length_providers] at hlength
      omega
    · intro q hq hrequested
      rw [hafter, List.mem_append, List.mem_singleton] at hq
      rcases hq with hq | rfl
      · exact (h.asked q hq hrequested).append _
      · cases hrequested
    · intro q hq subscription hsub
      rw [hkind', hbytes']
      rw [hafter, List.mem_append, List.mem_singleton] at hq
      rcases hq with hq | rfl
      · exact hold q hq subscription hsub
      · exact hnew subscription (mem_sortedSet_id.mp hsub)
  · -- a new peer, but no room for an alternative: nothing changes
    refine h.of_sublist _ (by rw [hafter]) ?_ hkind' hbytes' hcount'.le
    intro q hq
    rw [hafter] at hq
    exact ⟨(h.subscribed q hq).1, q, hq, rfl, rfl, List.Sublist.refl _, nofun⟩

/-- A retry keeps a pending event in order. The provider it selects is asked. -/
theorem Sound.retry (h : Sound maxAlternatives calls id pending) {now after : ℕ}
    {batch : PendingWantRetryBatch} (hretry : pending.retry now after = .retried pending')
    (hbatch : (id, pending'.selected) ∈ batch.retries) :
    Sound maxAlternatives (calls ++ [(.retryDue now after, .due batch)]) id pending' := by
  obtain ⟨⟨p, rest, hperm, hproviders⟩, hkind, hbytes, -, hcount, hlt⟩ :=
    PendingInventory.retry_eq_retried hretry
  have hselected : pending'.selected = { p with requested := true } := by
    rw [PendingInventory.providers, List.cons.injEq] at hproviders
    exact hproviders.1
  have hp : p ∈ pending.providers := hperm.symm.subset List.mem_cons_self
  have hrest : ∀ q ∈ rest, q ∈ pending.providers :=
    fun q hq => hperm.symm.subset (List.mem_cons_of_mem p hq)
  refine ⟨?_, ?_, ?_, by omega, ?_, ?_⟩
  · have hpeers : (pending.providers.map InventoryProvider.peerNpub).Perm
        (pending'.providers.map InventoryProvider.peerNpub) := by
      rw [hproviders]
      exact hperm.map _
    exact hpeers.nodup h.distinct
  · intro q hq
    rw [hproviders, List.mem_cons] at hq
    rcases hq with rfl | hq
    · exact h.subscribed p hp
    · exact h.subscribed q (hrest q hq)
  · have hlength := hperm.length_eq
    have hlength' := congrArg List.length hproviders
    rw [length_providers, List.length_cons] at hlength hlength'
    have := h.alternatives_le
    omega
  · intro q hq hrequested
    rw [hproviders, List.mem_cons] at hq
    rcases hq with rfl | hq
    · exact .inr ⟨now, after, batch, pending'.selected, by simp, hbatch, by rw [hselected]⟩
    · exact (h.asked q (hrest q hq) hrequested).append _
  · intro q hq subscription hsub
    rw [hkind, hbytes]
    rw [hproviders, List.mem_cons] at hq
    rcases hq with rfl | hq
    · exact (h.announced p hp subscription hsub).append nofun
    · exact (h.announced q (hrest q hq) subscription hsub).append nofun

/-- Every call keeps the pending events in order that it does not drop. -/
theorem Sound.changed (h : Sound maxAlternatives calls id pending) {op : Op} {out : Output}
    (hchanged : Changed maxAlternatives op out id pending pending') :
    Sound maxAlternatives (calls ++ [(op, out)]) id pending' := by
  cases hchanged with
  | unchanged hop =>
    refine h.of_sublist _ (List.Sublist.refl _) ?_ rfl rfl le_rfl
    intro p hp
    exact ⟨(h.subscribed p hp).1, p, hp, rfl, rfl, List.Sublist.refl _, fun _ _ => hop _⟩
  | announced hid hkind hbytes => exact h.announce hid hkind hbytes
  | @unsubscribed removed _ _ _ _ hdrop =>
    obtain ⟨hproviders, hkind, hbytes, -, hcount⟩ := PendingInventory.dropSubscription_eq_some hdrop
    refine h.of_sublist _ ?_ ?_ hkind hbytes hcount.le
    · rw [hproviders]
      refine (List.filter_sublist.map InventoryProvider.peerNpub).trans ?_
      rw [List.map_map]
      exact List.Sublist.refl _
    · intro p' hp'
      rw [hproviders, List.mem_filter, List.mem_map] at hp'
      obtain ⟨⟨p, hp, rfl⟩, hne⟩ := hp'
      refine ⟨of_decide_eq_true hne, p, hp, rfl, rfl, List.filter_sublist, ?_⟩
      rintro subscription hsub heq
      cases heq
      simpa using (List.mem_filter.mp hsub).2
  | retried hretry hbatch => exact h.retry hretry hbatch
  | disconnected hdrop =>
    obtain ⟨hproviders, hkind, hbytes, -, hcount⟩ := PendingInventory.dropPeer_eq_some hdrop
    refine h.of_sublist _ ?_ ?_ hkind hbytes hcount
    · rw [hproviders]
      exact List.filter_sublist.map _
    · intro p hp
      rw [hproviders] at hp
      have hmem := List.mem_of_mem_filter hp
      exact ⟨(h.subscribed p hmem).1, p, hmem, rfl, rfl, List.Sublist.refl _, nofun⟩

/-! ## Runs -/

variable (iter) in
/-- The lifetimes of the pending events after a run. -/
def lifetimes (maxEvents maxAlternatives : ℕ) (ops : List Op) : Lifetimes :=
  (Mealy.after (lifetimeStep iter) (new maxEvents maxAlternatives, fun _ => []) ops).2

/-- The queue lists the pending events, and all of them are in order. -/
structure Accounted (s : PendingWants × Lifetimes) : Prop where
  tabled : s.1.Tabled
  sound : ∀ id pending, s.1.entries.lookup id = some pending →
    Sound s.1.maxAlternatives (s.2 id) id pending

theorem Accounted.step {s : PendingWants × Lifetimes} (h : Accounted s) (op : Op) :
    Accounted (lifetimeStep iter op s).2 := by
  refine ⟨h.tabled.step op, ?_⟩
  intro id pending' hpending'
  have hmem' : id ∈ (PendingWants.step iter op s.1).2.entries :=
    Finmap.mem_of_lookup_eq_some hpending'
  have hlifetime : (lifetimeStep iter op s).2.2 id =
      if id ∈ s.1.entries then s.2 id ++ [(op, (PendingWants.step iter op s.1).1)]
      else [(op, (PendingWants.step iter op s.1).1)] := if_pos hmem'
  rw [hlifetime]
  show Sound (PendingWants.step iter op s.1).2.maxAlternatives _ id pending'
  rw [(step_limits op s.1).2]
  rcases step_entry hpending' with ⟨hnone, announcement, rfl, rfl, hout, rfl⟩ |
    ⟨pending, hold, hchanged⟩
  · rw [if_neg (Finmap.lookup_eq_none.mp hnone), hout]
    exact Sound.born announcement
  · rw [if_pos (Finmap.mem_of_lookup_eq_some hold)]
    exact (h.sound id pending hold).changed hchanged

variable (iter) in
theorem accounted_after (maxEvents maxAlternatives : ℕ) (ops : List Op) :
    Accounted (Mealy.after (lifetimeStep iter) (new maxEvents maxAlternatives, fun _ => []) ops) := by
  refine Mealy.invariant (fun op s hs => hs.step op) ?_ ops
  exact ⟨⟨Enumerates.empty, Nat.zero_le _⟩, fun id pending hpending => by simp [new] at hpending⟩

variable (iter) in
theorem after_limits (maxEvents maxAlternatives : ℕ) (ops : List Op) :
    (Mealy.after (step iter) (new maxEvents maxAlternatives) ops).maxEvents = maxEvents ∧
    (Mealy.after (step iter) (new maxEvents maxAlternatives) ops).maxAlternatives
      = maxAlternatives := by
  refine Mealy.invariant (I := fun wants : PendingWants => wants.maxEvents = maxEvents ∧
    wants.maxAlternatives = maxAlternatives) ?_ ⟨rfl, rfl⟩ ops
  intro op wants h
  obtain ⟨hevents, halternatives⟩ := @step_limits iter op wants
  exact ⟨hevents.trans h.1, halternatives.trans h.2⟩

/-- What is taken is a pending event whose requested provider announced the subscription. -/
theorem takeMatching_eq_some {wants : PendingWants} {id source subscription : String}
    {kind bytes : ℕ} {pending : PendingInventory}
    (h : (wants.takeMatching id source subscription kind bytes).1 = some pending) :
    wants.entries.lookup id = some pending ∧ pending.eventKind = kind ∧
      pending.payloadBytes = bytes ∧ ∃ p ∈ pending.providers, p.requested = true ∧
        p.peerNpub = source ∧ subscription ∈ p.subscriptionIds := by
  rw [takeMatching] at h
  split at h
  · cases h
  · next found hlookup =>
    split at h
    · cases h
    · next p hp =>
      split at h
      · cases h
      · next hmatch =>
        cases h
        push Not at hmatch
        obtain ⟨hsub, hkind, hbytes⟩ := hmatch
        rw [PendingInventory.requestedProvider] at hp
        have hfound : p.requested = true ∧ p.peerNpub = source := by
          simpa using List.find?_some hp
        exact ⟨hlookup, hkind, hbytes, p, List.mem_of_find?_eq_some hp, hfound.1, hfound.2, hsub⟩

/-- What expires are the requested providers of a pending event. -/
theorem mem_expiredProviders {wants : PendingWants} {now after : ℕ} {p : InventoryProvider}
    (h : p ∈ (wants.retryDue iter now after).1.expiredProviders) :
    ∃ id pending, wants.entries.lookup id = some pending ∧
      pending.retry now after = .expired ∧ p ∈ pending.providers ∧ p.requested = true := by
  obtain ⟨entry, hentry, hp⟩ := List.mem_flatMap.mp h
  obtain ⟨hvisit, hexpired⟩ := List.mem_filter.mp hentry
  obtain ⟨hmem, hrequested⟩ := List.mem_filter.mp hp
  exact ⟨entry.1, entry.2, iter.mem_visit.mp hvisit, of_decide_eq_true hexpired, hmem, hrequested⟩

/-- Along every run the queue lists the pending events within the limits, a pending event has
distinct providers with the subscriptions they announced, and only a peer that was asked for the
event while it is pending, under a subscription it announced and that was not removed since, can
answer for it or be blamed for not answering. -/
theorem pendingWants_asked (iter : Finmap.Enumeration fun _ : String => PendingInventory)
    (maxEvents maxAlternatives : ℕ) (ops : List Op) :
    let wants := Mealy.after (step iter) (new maxEvents maxAlternatives) ops
    let calls := lifetimes iter maxEvents maxAlternatives ops
    wants.order.Nodup ∧ (∀ id, id ∈ wants.order ↔ id ∈ wants.entries) ∧
    wants.order.length ≤ maxEvents ∧ wants.entries.size ≤ maxEvents ∧
    (∀ id pending, wants.entries.lookup id = some pending →
      (pending.providers.map InventoryProvider.peerNpub).Nodup ∧
      (∀ p ∈ pending.providers, p.subscriptionIds ≠ [] ∧ p.subscriptionIds.Nodup) ∧
      pending.alternatives.length ≤ maxAlternatives ∧ pending.retryCount ≤ maxWantRetries) ∧
    (∀ id peer subscription kind bytes pending,
      (wants.takeMatching id peer subscription kind bytes).1 = some pending →
        Asked (calls id) id peer ∧ Announced (calls id) id peer subscription kind bytes) ∧
    ∀ now after, ∀ p ∈ (wants.retryDue iter now after).1.expiredProviders,
      ∃ id pending, wants.entries.lookup id = some pending ∧
        pending.retry now after = .expired ∧ p ∈ pending.providers ∧
        Asked (calls id) id p.peerNpub := by
  intro wants calls
  obtain ⟨hevents, halternatives⟩ := after_limits iter maxEvents maxAlternatives ops
  have hrun := accounted_after iter maxEvents maxAlternatives ops
  have hwants : (Mealy.after (lifetimeStep iter) (new maxEvents maxAlternatives, fun _ => []) ops).1
      = wants := fst_after_lifetimeStep _ ops
  have htabled : wants.Tabled := hwants ▸ hrun.tabled
  have hsize : wants.entries.size ≤ maxEvents := hevents ▸ htabled.size_le
  have hsound : ∀ id pending, wants.entries.lookup id = some pending →
      Sound maxAlternatives (calls id) id pending := by
    intro id pending hpending
    have h := hrun.sound id pending (hwants ▸ hpending)
    rwa [hwants, show wants.maxAlternatives = maxAlternatives from halternatives] at h
  refine ⟨htabled.enumerates.nodup, htabled.enumerates.mem_iff, ?_, hsize, ?_, ?_, ?_⟩
  · rw [htabled.enumerates.length_eq]
    exact hsize
  · intro id pending hpending
    have h := hsound id pending hpending
    exact ⟨h.distinct, h.subscribed, h.alternatives_le, h.retryCount_le⟩
  · intro id peer subscription kind bytes pending htaken
    obtain ⟨hpending, rfl, rfl, p, hp, hrequested, rfl, hsub⟩ := takeMatching_eq_some htaken
    have h := hsound id pending hpending
    exact ⟨h.asked p hp hrequested, h.announced p hp subscription hsub⟩
  · intro now after p hp
    obtain ⟨id, pending, hpending, hexpired, hmem, hrequested⟩ := mem_expiredProviders hp
    exact ⟨id, pending, hpending, hexpired, hmem,
      (hsound id pending hpending).asked p hmem hrequested⟩

end PendingWants

end NostrPubsub.Fips
