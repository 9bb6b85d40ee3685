import NostrPubsub.Fips.InvWantState
import NostrPubsub.ToMathlib.Recency

/-!
# Which answers the want table accepts

What a call does to a pending event is said once (`Changed`, `step_entry`). From it follows what holds
of every pending event along a run: its providers are distinct peers with the subscriptions they
announced and that were not removed since, and the providers that were asked are the previous ones
and, unless it still waits for its request, the selected one (`PendingWant.askedPeers`).

The table accepts an answer of the selected provider also while that one waits for its request: the
provider was promoted when the selected peer or its subscription was lost, and nobody has asked it.
-/

namespace NostrPubsub.Fips.TypeScript

/-! ## Providers -/

theorem addTo_eq_some {provider : InventoryProvider} {l l' : List InventoryProvider}
    (h : addTo provider l = some l') :
    ∃ before p after, l = before ++ p :: after ∧ p.peerId = provider.peerId ∧
      l' = before ++ p.add provider :: after := by
  induction l generalizing l' with
  | nil => cases h
  | cons existing rest ih =>
    rw [addTo] at h
    split at h
    · next hpeer =>
      cases h
      exact ⟨[], existing, rest, rfl, hpeer, rfl⟩
    · obtain ⟨rest', hrest, rfl⟩ := Option.map_eq_some_iff.mp h
      obtain ⟨before, p, after, rfl, hpeer, rfl⟩ := ih hrest
      exact ⟨existing :: before, p, after, rfl, hpeer, rfl⟩

theorem addTo_eq_none {provider : InventoryProvider} {l : List InventoryProvider}
    (h : addTo provider l = none) : provider.peerId ∉ l.map InventoryProvider.peerId := by
  induction l with
  | nil => exact List.not_mem_nil
  | cons existing rest ih =>
    rw [addTo] at h
    split at h
    · cases h
    · next hpeer =>
      rw [List.map_cons, List.mem_cons, not_or]
      exact ⟨Ne.symm hpeer, ih (Option.map_eq_none_iff.mp h)⟩

theorem map_peerId_add (before after : List InventoryProvider) (p provider : InventoryProvider) :
    (before ++ p.add provider :: after).map InventoryProvider.peerId
      = (before ++ p :: after).map InventoryProvider.peerId := by
  simp [InventoryProvider.add]

namespace PendingWant

/-- The peers that were asked, as far as the table knows. -/
def askedPeers (pending : PendingWant) : List String :=
  if pending.needsRequest then pending.previous.map InventoryProvider.peerId
  else pending.answerable.map InventoryProvider.peerId

theorem length_providers (pending : PendingWant) :
    pending.providers.length = pending.alternatives.length + pending.previous.length + 1 := by
  rw [providers, List.length_cons, List.length_append]

/-- An announcement is added to the provider of its peer, or adds an alternative, or changes
nothing. -/
theorem announce_cases (maxAlternatives : ℕ) (provider : InventoryProvider) (pending : PendingWant) :
    (∃ before p after, pending.providers = before ++ p :: after ∧ p.peerId = provider.peerId ∧
      (pending.announce maxAlternatives provider).providers = before ++ p.add provider :: after) ∨
    (provider.peerId ∉ pending.providers.map InventoryProvider.peerId ∧
      pending.alternatives.length + pending.previous.length < maxAlternatives ∧
      (pending.announce maxAlternatives provider).providers.Perm (provider :: pending.providers)) ∨
    (pending.announce maxAlternatives provider).providers = pending.providers := by
  rw [announce]
  split
  · next hpeer =>
    exact .inl ⟨[], pending.selected, pending.alternatives ++ pending.previous, rfl, hpeer, rfl⟩
  · next hselected =>
    split
    · next alternatives _ hadd =>
      obtain ⟨before, p, after, hl, hpeer, rfl⟩ := addTo_eq_some hadd
      refine .inl ⟨pending.selected :: before, p, after ++ pending.previous, ?_, hpeer, ?_⟩
      · rw [providers, hl]
        simp
      · simp [providers]
    · next previous hnone hadd =>
      obtain ⟨before, p, after, hl, hpeer, rfl⟩ := addTo_eq_some hadd
      refine .inl ⟨pending.selected :: (pending.alternatives ++ before), p, after, ?_, hpeer, ?_⟩
      · rw [providers, hl]
        simp
      · simp [providers]
    · next hnone hnone' =>
      split
      · next hroom =>
        refine .inr (.inl ⟨?_, hroom, ?_⟩)
        · rw [providers, List.map_cons, List.map_append, List.mem_cons, List.mem_append, not_or, not_or]
          exact ⟨Ne.symm hselected, addTo_eq_none hnone, addTo_eq_none hnone'⟩
        · rw [providers, providers, List.append_assoc]
          refine (List.Perm.cons _ ?_).trans (List.Perm.swap _ _ _)
          exact List.perm_middle
      · exact .inr (.inr rfl)

theorem announce_kept (maxAlternatives : ℕ) (provider : InventoryProvider) (pending : PendingWant) :
    (pending.announce maxAlternatives provider).askedPeers = pending.askedPeers ∧
    (pending.announce maxAlternatives provider).eventKind = pending.eventKind ∧
    (pending.announce maxAlternatives provider).payloadBytes = pending.payloadBytes := by
  rw [announce]
  split
  · exact ⟨rfl, rfl, rfl⟩
  · split
    · exact ⟨rfl, rfl, rfl⟩
    · next previous hnone hadd =>
      obtain ⟨before, p, after, hl, -, rfl⟩ := addTo_eq_some hadd
      refine ⟨?_, rfl, rfl⟩
      simp only [askedPeers, answerable, List.map_cons, map_peerId_add, hl]
    · split <;> exact ⟨rfl, rfl, rfl⟩

/-- The next provider takes the place of the selected one. It was not asked by that. -/
theorem promote_eq_some {pending pending' : PendingWant} (h : pending.promote = some pending') :
    pending'.providers = pending.alternatives ++ pending.previous ∧
      pending'.askedPeers ⊆ pending.previous.map InventoryProvider.peerId ∧
      pending'.eventKind = pending.eventKind ∧ pending'.payloadBytes = pending.payloadBytes := by
  rw [promote] at h
  split at h
  · next next rest halternatives =>
    cases h
    refine ⟨?_, fun peer hpeer => hpeer, rfl, rfl⟩
    rw [providers, halternatives]
    rfl
  · next next rest halternatives hprevious =>
    cases h
    refine ⟨?_, ?_, rfl, rfl⟩
    · simp only [providers, halternatives, hprevious, List.nil_append]
    · intro peer hpeer
      rw [hprevious]
      exact List.mem_cons_of_mem _ hpeer
  · cases h

theorem subset_askedPeers {pending : PendingWant} :
    pending.previous.map InventoryProvider.peerId ⊆ pending.askedPeers := by
  intro peer hpeer
  rw [askedPeers]
  split
  · exact hpeer
  · exact List.mem_cons_of_mem _ hpeer

/-- Removing a subscription takes it from every provider, and drops those that are left with
none. -/
theorem dropSubscription_eq_some {subscriptionId : String} {pending pending' : PendingWant}
    (h : pending.dropSubscription subscriptionId = some pending') :
    pending'.providers = (pending.providers.map (·.dropSubscription subscriptionId)).filter
        (fun provider => provider.subscriptionIds ≠ ∅) ∧
      pending'.askedPeers ⊆ pending.askedPeers ∧
      pending'.eventKind = pending.eventKind ∧ pending'.payloadBytes = pending.payloadBytes := by
  have hprevious : ((pending.previous.map (·.dropSubscription subscriptionId)).filter
      (fun provider => provider.subscriptionIds ≠ ∅)).map InventoryProvider.peerId
        ⊆ pending.previous.map InventoryProvider.peerId := by
    intro peer hpeer
    obtain ⟨p', hp', rfl⟩ := List.mem_map.mp hpeer
    obtain ⟨p, hp, rfl⟩ := List.mem_map.mp (List.mem_of_mem_filter hp')
    exact List.mem_map.mpr ⟨p, hp, rfl⟩
  rw [dropSubscription] at h
  rw [providers, providers, List.map_cons, List.map_append]
  split at h
  · next hsome =>
    rw [List.filter_cons_of_pos (by simpa using hsome), List.filter_append]
    cases h
    refine ⟨rfl, ?_, rfl, rfl⟩
    simp only [askedPeers, answerable]
    split
    · exact hprevious
    · exact List.cons_subset_cons _ hprevious
  · next hempty =>
    rw [List.filter_cons_of_neg (by simpa using hempty), List.filter_append]
    obtain ⟨hproviders, hasked, hkind, hbytes⟩ := promote_eq_some h
    refine ⟨hproviders, ?_, hkind, hbytes⟩
    exact fun peer hpeer => subset_askedPeers (hprevious (hasked hpeer))

/-- Removing a peer drops its provider. -/
theorem dropPeer_eq_some {peerId : String} {pending pending' : PendingWant}
    (h : pending.dropPeer peerId = some pending') :
    pending'.providers = pending.providers.filter (fun provider => provider.peerId ≠ peerId) ∧
      pending'.askedPeers ⊆ pending.askedPeers ∧
      pending'.eventKind = pending.eventKind ∧ pending'.payloadBytes = pending.payloadBytes := by
  have hprevious : (pending.previous.filter (fun provider => provider.peerId ≠ peerId)).map
      InventoryProvider.peerId ⊆ pending.previous.map InventoryProvider.peerId :=
    List.map_subset _ (List.filter_subset_self _)
  rw [dropPeer] at h
  rw [providers, providers]
  split at h
  · next hother =>
    rw [List.filter_cons_of_pos (by simpa using hother), List.filter_append]
    cases h
    refine ⟨rfl, ?_, rfl, rfl⟩
    simp only [askedPeers, answerable]
    split
    · exact hprevious
    · exact List.cons_subset_cons _ hprevious
  · next hsame =>
    rw [List.filter_cons_of_neg (by simpa using hsame), List.filter_append]
    obtain ⟨hproviders, hasked, hkind, hbytes⟩ := promote_eq_some h
    refine ⟨hproviders, ?_, hkind, hbytes⟩
    exact fun peer hpeer => subset_askedPeers (hprevious (hasked hpeer))

/-- A retry asks the selected provider that waits for it, or the next alternative. -/
theorem retry_eq_retried {nowMs retryAfterMs : ℤ} {pending pending' : PendingWant}
    (h : pending.retry nowMs retryAfterMs = .retried pending') :
    pending'.providers.Perm pending.providers ∧
      pending'.askedPeers ⊆ pending'.selected.peerId :: pending.askedPeers ∧
      pending'.eventKind = pending.eventKind ∧ pending'.payloadBytes = pending.payloadBytes := by
  rw [retry] at h
  split at h
  · cases h
  split at h
  · next hneeds =>
    cases h
    refine ⟨List.Perm.refl _, ?_, rfl, rfl⟩
    simp only [askedPeers, answerable, hneeds, if_true]
    exact fun peer hpeer => hpeer
  · next hneeds =>
    split at h
    · cases h
    · split at h
      · cases h
      · next next rest halternatives =>
        cases h
        refine ⟨?_, ?_, rfl, rfl⟩
        · -- the selected provider goes behind the previous ones
          rw [providers, providers, halternatives]
          have hback : (rest ++ (pending.previous ++ [pending.selected])).Perm
              (pending.selected :: (rest ++ pending.previous)) := by
            rw [← List.append_assoc]
            exact List.perm_append_singleton _ _
          exact (hback.cons next).trans (List.Perm.swap _ _ _)
        · simp only [askedPeers, answerable, hneeds, Bool.false_eq_true, if_false, List.map_cons,
            List.map_append, List.map_nil]
          intro peer hpeer
          simp only [List.mem_cons, List.mem_append, List.not_mem_nil, or_false] at hpeer ⊢
          tauto

end PendingWant

namespace FipsPubsubInvWantState

variable {iter : Finmap.Enumeration fun _ : String => PendingWant}

/-! ## What a call does to a pending event -/

/-- What a call can do to a pending event that stays. -/
inductive Changed (maxAlternatives : ℕ) : Op → Output → String → PendingWant → PendingWant → Prop
  | unchanged {op : Op} {out : Output} {id : String} {pending : PendingWant}
      (hop : ∀ subscription, op ≠ .removeSubscription subscription) :
      Changed maxAlternatives op out id pending pending
  | announced {inventory : Inventory} {now : ℤ} {out : Output} {id : String} {pending : PendingWant}
      (hid : inventory.eventId = id) (hkind : inventory.eventKind = pending.eventKind)
      (hbytes : inventory.payloadBytes = pending.payloadBytes) :
      Changed maxAlternatives (.accept inventory now) out id pending
        (pending.announce maxAlternatives inventory.provider)
  | retried {now after : ℤ} {retries : List WantRequest} {id : String}
      {pending pending' : PendingWant} (h : pending.retry now after = .retried pending')
      (hretry : (⟨pending'.selected.peerId, id⟩ : WantRequest) ∈ retries) :
      Changed maxAlternatives (.retryDue now after) (.due retries) id pending pending'
  | unsubscribed {subscription : String} {out : Output} {id : String}
      {pending pending' : PendingWant} (h : pending.dropSubscription subscription = some pending') :
      Changed maxAlternatives (.removeSubscription subscription) out id pending pending'
  | disconnected {peer : String} {out : Output} {id : String} {pending pending' : PendingWant}
      (h : pending.dropPeer peer = some pending') :
      Changed maxAlternatives (.dropPeer peer) out id pending pending'

/-- The limits do not change. -/
theorem step_limits (op : Op) (state : FipsPubsubInvWantState) :
    (step iter op state).2.maxEvents = state.maxEvents ∧
      (step iter op state).2.maxAlternatives = state.maxAlternatives := by
  cases op with
  | accept inventory now =>
    simp only [step, Prod.map, accept]
    split
    · split <;> exact ⟨rfl, rfl⟩
    · exact ⟨rfl, rfl⟩
  | complete peer subscription id kind bytes =>
    simp only [step, Prod.map, complete]
    split
    · exact ⟨rfl, rfl⟩
    · split
      · exact ⟨rfl, rfl⟩
      · split <;> exact ⟨rfl, rfl⟩
  | retryDue now after => exact ⟨rfl, rfl⟩
  | removeSubscription subscription => exact ⟨rfl, rfl⟩
  | dropPeer peer => exact ⟨rfl, rfl⟩
  | clear => exact ⟨rfl, rfl⟩

theorem lookup_retain {f : PendingWant → Option PendingWant} {state : FipsPubsubInvWantState}
    {id : String} {pending' : PendingWant}
    (h : (state.retain f).pending.lookup id = some pending') :
    ∃ pending, state.pending.lookup id = some pending ∧ f pending = some pending' :=
  Finmap.lookup_filterMapValues_eq_some.mp h

/-- A pending event after a call is new, or was there and changed in one of the ways above. -/
theorem step_entry {op : Op} {state : FipsPubsubInvWantState} {id : String} {pending' : PendingWant}
    (h : (step iter op state).2.pending.lookup id = some pending') :
    (state.pending.lookup id = none ∧ ∃ inventory now, op = .accept inventory now ∧
      inventory.eventId = id ∧
      (step iter op state).1 = .requested (some ⟨inventory.peerId, id⟩) ∧
      pending' = inventory.want now) ∨
    ∃ pending, state.pending.lookup id = some pending ∧
      Changed state.maxAlternatives op (step iter op state).1 id pending pending' := by
  cases op with
  | accept inventory now =>
    have hop : ∀ subscription, Op.accept inventory now ≠ .removeSubscription subscription := nofun
    simp only [step, Prod.map, accept] at h ⊢
    cases hlookup : state.pending.lookup inventory.eventId with
    | some existing =>
      simp only [hlookup] at h ⊢
      split at h
      · next hdiffer =>
        rw [if_pos hdiffer]
        exact .inr ⟨pending', h, .unchanged hop⟩
      · next hsame =>
        rw [if_neg hsame]
        obtain ⟨hkind, hbytes⟩ := not_or.mp hsame
        rcases Finmap.lookup_insert_eq_some.mp h with ⟨rfl, rfl⟩ | ⟨hne, hold⟩
        · exact .inr ⟨existing, hlookup, .announced rfl (not_not.mp hkind).symm
            (not_not.mp hbytes).symm⟩
        · exact .inr ⟨pending', hold, .unchanged hop⟩
    -- The oldest event may be evicted for the new one, which is asked for at once.
    | none =>
      simp only [hlookup] at h ⊢
      rcases Finmap.lookup_insert_eq_some.mp (lookup_evictOldest h) with ⟨rfl, rfl⟩ | ⟨hne, hold⟩
      · exact .inl ⟨hlookup, inventory, now, rfl, rfl, rfl, rfl⟩
      · exact .inr ⟨pending', hold, .unchanged hop⟩
  | complete peer subscription eventId kind bytes =>
    have hop : ∀ sub, Op.complete peer subscription eventId kind bytes
      ≠ .removeSubscription sub := nofun
    simp only [step, Prod.map, complete] at h
    -- A completed event is erased, so one that is still pending was not touched.
    refine .inr ⟨pending', ?_, .unchanged hop⟩
    split at h
    · exact h
    · split at h
      · exact h
      · split at h
        · exact h
        · exact (Finmap.lookup_erase_eq_some.mp h).2
  | retryDue now after =>
    -- `retain` keeps an event by what its own retry says.
    obtain ⟨pending, hold, hretry⟩ := lookup_retain h
    refine .inr ⟨pending, hold, ?_⟩
    cases hr : pending.retry now after with
    | waiting =>
      rw [hr] at hretry
      cases hretry
      exact .unchanged nofun
    | expired =>
      rw [hr] at hretry
      cases hretry
    | retried next =>
      rw [hr] at hretry
      cases hretry
      refine .retried hr (List.mem_filterMap.mpr ⟨⟨id, pending⟩, iter.mem_visit.mpr hold, ?_⟩)
      simp only [hr]
  | removeSubscription subscription =>
    obtain ⟨pending, hold, hdrop⟩ := lookup_retain h
    exact .inr ⟨pending, hold, .unsubscribed hdrop⟩
  | dropPeer peer =>
    obtain ⟨pending, hold, hdrop⟩ := lookup_retain h
    exact .inr ⟨pending, hold, .disconnected hdrop⟩
  | clear => simp [step, clear] at h

/-- The queue lists the pending events, within the limit. -/
structure Tabled (state : FipsPubsubInvWantState) : Prop where
  enumerates : Enumerates state.order state.pending
  size_le : state.pending.size ≤ state.maxEvents

theorem Tabled.retain {state : FipsPubsubInvWantState} (h : state.Tabled)
    (f : PendingWant → Option PendingWant) : (state.retain f).Tabled where
  enumerates := h.enumerates.filterMapValues _
  size_le := by
    refine le_trans (Finmap.size_le_size fun id hid => ?_) h.size_le
    obtain ⟨pending', hpending'⟩ := Finmap.mem_iff.mp hid
    obtain ⟨pending, hold, -⟩ := lookup_retain hpending'
    exact Finmap.mem_of_lookup_eq_some hold

theorem Tabled.step {state : FipsPubsubInvWantState} (h : state.Tabled) (op : Op) :
    (step iter op state).2.Tabled := by
  cases op with
  | accept inventory now =>
    simp only [FipsPubsubInvWantState.step, Prod.map, accept]
    cases hlookup : state.pending.lookup inventory.eventId with
    | some existing =>
      have hmem : inventory.eventId ∈ state.pending := Finmap.mem_of_lookup_eq_some hlookup
      simp only
      split
      · exact h
      · refine ⟨h.enumerates.replace hmem _, ?_⟩
        rw [Finmap.size_insert_of_mem hmem]
        exact h.size_le
    | none =>
      have hfresh : inventory.eventId ∉ state.pending := Finmap.lookup_eq_none.mp hlookup
      have hpush := h.enumerates.push hfresh (inventory.want now)
      exact ⟨hpush.of_evictOldest _,
        Nat.le_of_lt_succ (hpush.size_evictOldest_lt (Nat.succ_pos state.maxEvents))⟩
  | complete peer subscription id kind bytes =>
    simp only [FipsPubsubInvWantState.step, Prod.map, complete]
    split
    · exact h
    · next pending hpending =>
      split
      · exact h
      · split
        · exact h
        · refine ⟨h.enumerates.remove id, ?_⟩
          have hsize := Finmap.size_erase_of_lookup hpending
          have hle := h.size_le
          show (state.pending.erase id).size ≤ state.maxEvents
          omega
  | retryDue now after => exact h.retain _
  | removeSubscription subscription => exact h.retain _
  | dropPeer peer => exact h.retain _
  | clear => exact ⟨Enumerates.empty, Nat.zero_le _⟩

/-! ## Lifetimes -/

/-- A request for the event went to the peer. -/
def Asked (calls : List (Op × Output)) (id peer : String) : Prop :=
  (∃ inventory now,
    (Op.accept inventory now, Output.requested (some ⟨peer, id⟩)) ∈ calls) ∨
  ∃ now after retries, (Op.retryDue now after, Output.due retries) ∈ calls ∧
    (⟨peer, id⟩ : WantRequest) ∈ retries

/-- The peer announced the event under the subscription, with this kind and size, and the
subscription was not removed since. -/
def Announced (calls : List (Op × Output)) (id peer subscription : String) (kind bytes : ℕ) : Prop :=
  ∃ before inventory now out after, calls = before ++ (Op.accept inventory now, out) :: after ∧
    inventory.eventId = id ∧ inventory.peerId = peer ∧
    subscription ∈ inventory.validSubscriptionIds ∧ inventory.eventKind = kind ∧
    inventory.payloadBytes = bytes ∧ ∀ call ∈ after, call.1 ≠ .removeSubscription subscription

variable {calls : List (Op × Output)} {id peer subscription : String} {kind bytes : ℕ}

theorem Asked.append (h : Asked calls id peer) (call : Op × Output) :
    Asked (calls ++ [call]) id peer := by
  rcases h with ⟨inventory, now, hmem⟩ | ⟨now, after, retries, hmem, hretry⟩
  · exact .inl ⟨inventory, now, List.mem_append_left _ hmem⟩
  · exact .inr ⟨now, after, retries, List.mem_append_left _ hmem, hretry⟩

theorem Announced.append (h : Announced calls id peer subscription kind bytes) {call : Op × Output}
    (hcall : call.1 ≠ .removeSubscription subscription) :
    Announced (calls ++ [call]) id peer subscription kind bytes := by
  obtain ⟨before, inventory, now, out, after, rfl, hid, hpeer, hsub, hkind, hbytes, hafter⟩ := h
  refine ⟨before, inventory, now, out, after ++ [call], by simp, hid, hpeer, hsub, hkind, hbytes, ?_⟩
  intro c hc
  rcases List.mem_append.mp hc with hc | hc
  · exact hafter c hc
  · rwa [List.mem_singleton.mp hc]

theorem announced_concat (calls : List (Op × Output)) {inventory : Inventory} {now : ℤ} {out : Output}
    (h : subscription ∈ inventory.validSubscriptionIds) :
    Announced (calls ++ [(.accept inventory now, out)]) inventory.eventId inventory.peerId
      subscription inventory.eventKind inventory.payloadBytes :=
  ⟨calls, inventory, now, out, [], rfl, rfl, rfl, h, rfl, rfl, by simp⟩

/-! ## What holds of a pending event -/

/-- A pending event is in order, and the calls of its lifetime account for its providers. -/
structure Sound (maxAlternatives : ℕ) (calls : List (Op × Output)) (id : String)
    (pending : PendingWant) : Prop where
  distinct : (pending.providers.map InventoryProvider.peerId).Nodup
  subscribed : ∀ p ∈ pending.providers, p.subscriptionIds ≠ ∅
  count_le : pending.providers.length ≤ maxAlternatives + 1
  asked : ∀ peer ∈ pending.askedPeers, Asked calls id peer
  announced : ∀ p ∈ pending.providers, ∀ subscription ∈ p.subscriptionIds,
    Announced calls id p.peerId subscription pending.eventKind pending.payloadBytes

variable {maxAlternatives : ℕ} {pending pending' : PendingWant}

theorem Sound.born (inventory : Inventory) (now : ℤ) :
    Sound maxAlternatives
      [(.accept inventory now, .requested (some ⟨inventory.peerId, inventory.eventId⟩))]
      inventory.eventId (inventory.want now) where
  distinct := List.nodup_singleton _
  subscribed := by
    intro p hp
    rw [List.mem_singleton.mp hp]
    exact inventory.nonempty.ne_empty
  count_le := Nat.succ_le_succ (Nat.zero_le _)
  asked := by
    intro peer hpeer
    rw [List.mem_singleton.mp hpeer]
    exact .inl ⟨inventory, now, List.mem_singleton.mpr rfl⟩
  announced := by
    intro p hp subscription hsub
    rw [List.mem_singleton.mp hp] at hsub ⊢
    exact announced_concat [] hsub

/-- A call that adds no provider, asks nobody and takes subscriptions only from a provider keeps a
pending event in order. -/
theorem Sound.of_sublist (h : Sound maxAlternatives calls id pending) (call : Op × Output)
    (hpeers : List.Sublist (pending'.providers.map InventoryProvider.peerId)
      (pending.providers.map InventoryProvider.peerId))
    (hproviders : ∀ p' ∈ pending'.providers, p'.subscriptionIds ≠ ∅ ∧
      ∃ p ∈ pending.providers, p'.peerId = p.peerId ∧ p'.subscriptionIds ⊆ p.subscriptionIds ∧
        ∀ subscription ∈ p'.subscriptionIds, call.1 ≠ .removeSubscription subscription)
    (hasked : pending'.askedPeers ⊆ pending.askedPeers)
    (hkind : pending'.eventKind = pending.eventKind)
    (hbytes : pending'.payloadBytes = pending.payloadBytes) :
    Sound maxAlternatives (calls ++ [call]) id pending' where
  distinct := h.distinct.sublist hpeers
  subscribed := fun p' hp' => (hproviders p' hp').1
  count_le := by
    have hlength := hpeers.length_le
    rw [List.length_map, List.length_map] at hlength
    exact hlength.trans h.count_le
  asked := fun peer hpeer => (h.asked peer (hasked hpeer)).append call
  announced := by
    intro p' hp' subscription hsubscription
    obtain ⟨-, p, hp, hpeer, hsub, hcall⟩ := hproviders p' hp'
    rw [hpeer, hkind, hbytes]
    exact (h.announced p hp subscription (hsub hsubscription)).append
      (hcall subscription hsubscription)

/-- An announcement keeps a pending event in order. A provider it adds was not asked. -/
theorem Sound.announce (h : Sound maxAlternatives calls id pending) {inventory : Inventory} {now : ℤ}
    {out : Output} (hid : inventory.eventId = id) (hkind : inventory.eventKind = pending.eventKind)
    (hbytes : inventory.payloadBytes = pending.payloadBytes) :
    Sound maxAlternatives (calls ++ [(.accept inventory now, out)]) id
      (pending.announce maxAlternatives inventory.provider) := by
  subst hid
  obtain ⟨hasked', hkind', hbytes'⟩ :=
    PendingWant.announce_kept maxAlternatives inventory.provider pending
  have hnew : ∀ subscription ∈ inventory.validSubscriptionIds,
      Announced (calls ++ [(.accept inventory now, out)]) inventory.eventId inventory.peerId
        subscription pending.eventKind pending.payloadBytes := by
    intro subscription hsub
    rw [← hkind, ← hbytes]
    exact announced_concat calls hsub
  have hold : ∀ p ∈ pending.providers, ∀ subscription ∈ p.subscriptionIds,
      Announced (calls ++ [(.accept inventory now, out)]) inventory.eventId p.peerId subscription
        pending.eventKind pending.payloadBytes :=
    fun p hp subscription hsub => (h.announced p hp subscription hsub).append nofun
  have hasked : ∀ peer ∈ (pending.announce maxAlternatives inventory.provider).askedPeers,
      Asked (calls ++ [(.accept inventory now, out)]) inventory.eventId peer := by
    rw [hasked']
    exact fun peer hpeer => (h.asked peer hpeer).append _
  -- The announcement goes to the provider of its peer, to a new one, or nowhere.
  rcases PendingWant.announce_cases maxAlternatives inventory.provider pending with
    ⟨before, p, after, hsplit, hpeer, hafter⟩ | ⟨hfresh, hroom, hafter⟩ | hafter
  · -- the provider of the peer takes over the announced subscriptions
    have hmem : p ∈ pending.providers := by simp [hsplit]
    have hrest : ∀ q, q ∈ before ∨ q ∈ after → q ∈ pending.providers := by
      intro q hq
      rw [hsplit, List.mem_append, List.mem_cons]
      tauto
    have hpeers : (pending.announce maxAlternatives inventory.provider).providers.map
        InventoryProvider.peerId = pending.providers.map InventoryProvider.peerId := by
      rw [hafter, hsplit, map_peerId_add]
    refine ⟨by rw [hpeers]; exact h.distinct, ?_, ?_, hasked, ?_⟩
    · intro q hq
      rw [hafter, List.mem_append, List.mem_cons] at hq
      rcases hq with hq | rfl | hq
      · exact h.subscribed q (hrest q (.inl hq))
      · intro hempty
        exact h.subscribed p hmem (Finset.union_eq_empty.mp hempty).1
      · exact h.subscribed q (hrest q (.inr hq))
    · have hlength := congrArg List.length hpeers
      rw [List.length_map, List.length_map] at hlength
      rw [hlength]
      exact h.count_le
    · intro q hq subscription hsub
      rw [hkind', hbytes']
      rw [hafter, List.mem_append, List.mem_cons] at hq
      rcases hq with hq | rfl | hq
      · exact hold q (hrest q (.inl hq)) subscription hsub
      · rcases Finset.mem_union.mp hsub with hsub | hsub
        · exact hold p hmem subscription hsub
        · show Announced _ _ p.peerId _ _ _
          rw [hpeer]
          exact hnew subscription hsub
      · exact hold q (hrest q (.inr hq)) subscription hsub
  · -- the peer is added behind the alternatives
    refine ⟨?_, ?_, ?_, hasked, ?_⟩
    · rw [(hafter.map InventoryProvider.peerId).nodup_iff, List.map_cons, List.nodup_cons]
      exact ⟨hfresh, h.distinct⟩
    · intro q hq
      rcases List.mem_cons.mp (hafter.subset hq) with rfl | hq
      · exact inventory.nonempty.ne_empty
      · exact h.subscribed q hq
    · rw [hafter.length_eq, List.length_cons, PendingWant.length_providers]
      omega
    · intro q hq subscription hsub
      rw [hkind', hbytes']
      rcases List.mem_cons.mp (hafter.subset hq) with rfl | hq
      · exact hnew subscription hsub
      · exact hold q hq subscription hsub
  · -- a new peer, but no room for an alternative: nothing changes
    refine h.of_sublist _ (by rw [hafter]) ?_ (by rw [hasked']; exact List.Subset.refl _) hkind'
      hbytes'
    intro q hq
    rw [hafter] at hq
    exact ⟨h.subscribed q hq, q, hq, rfl, Finset.Subset.refl _, nofun⟩

/-- A retry keeps a pending event in order. The provider it selects is asked. -/
theorem Sound.retry (h : Sound maxAlternatives calls id pending) {now after : ℤ}
    {retries : List WantRequest} (hretried : pending.retry now after = .retried pending')
    (hretry : (⟨pending'.selected.peerId, id⟩ : WantRequest) ∈ retries) :
    Sound maxAlternatives (calls ++ [(.retryDue now after, .due retries)]) id pending' := by
  obtain ⟨hperm, hasked, hkind, hbytes⟩ := PendingWant.retry_eq_retried hretried
  refine ⟨?_, ?_, ?_, ?_, ?_⟩
  · exact ((hperm.map InventoryProvider.peerId).nodup_iff).mpr h.distinct
  · exact fun p hp => h.subscribed p (hperm.subset hp)
  · rw [hperm.length_eq]
    exact h.count_le
  · intro peer hpeer
    rcases List.mem_cons.mp (hasked hpeer) with rfl | hpeer
    · exact .inr ⟨now, after, retries, by simp, hretry⟩
    · exact (h.asked peer hpeer).append _
  · intro p hp subscription hsub
    rw [hkind, hbytes]
    exact (h.announced p (hperm.subset hp) subscription hsub).append nofun

/-- Every call keeps the pending events in order that it does not drop. -/
theorem Sound.changed (h : Sound maxAlternatives calls id pending) {op : Op} {out : Output}
    (hchanged : Changed maxAlternatives op out id pending pending') :
    Sound maxAlternatives (calls ++ [(op, out)]) id pending' := by
  cases hchanged with
  | unchanged hop =>
    refine h.of_sublist _ (List.Sublist.refl _) ?_ (List.Subset.refl _) rfl rfl
    intro p hp
    exact ⟨h.subscribed p hp, p, hp, rfl, Finset.Subset.refl _, fun _ _ => hop _⟩
  | announced hid hkind hbytes => exact h.announce hid hkind hbytes
  | retried hretried hretry => exact h.retry hretried hretry
  | @unsubscribed removed _ _ _ _ hdrop =>
    obtain ⟨hproviders, hasked, hkind, hbytes⟩ := PendingWant.dropSubscription_eq_some hdrop
    refine h.of_sublist _ ?_ ?_ hasked hkind hbytes
    · rw [hproviders]
      refine (List.filter_sublist.map InventoryProvider.peerId).trans ?_
      rw [List.map_map]
      exact List.Sublist.refl _
    · intro p' hp'
      rw [hproviders, List.mem_filter, List.mem_map] at hp'
      obtain ⟨⟨p, hp, rfl⟩, hne⟩ := hp'
      refine ⟨of_decide_eq_true hne, p, hp, rfl, Finset.erase_subset _ _, ?_⟩
      rintro subscription hsub heq
      cases heq
      exact Finset.notMem_erase _ _ hsub
  | disconnected hdrop =>
    obtain ⟨hproviders, hasked, hkind, hbytes⟩ := PendingWant.dropPeer_eq_some hdrop
    refine h.of_sublist _ ?_ ?_ hasked hkind hbytes
    · rw [hproviders]
      exact List.filter_sublist.map _
    · intro p hp
      rw [hproviders] at hp
      have hmem := List.mem_of_mem_filter hp
      exact ⟨h.subscribed p hmem, p, hmem, rfl, Finset.Subset.refl _, nofun⟩

/-! ## Runs -/

/-- The event is pending. -/
def Holds (state : FipsPubsubInvWantState) (id : String) : Prop := id ∈ state.pending

instance (state : FipsPubsubInvWantState) : DecidablePred state.Holds :=
  fun id => inferInstanceAs (Decidable (id ∈ state.pending))

variable (iter) in
theorem tabled_after (maxEvents maxAlternatives : ℕ) (ops : List Op) :
    (Mealy.after (step iter) (new maxEvents maxAlternatives) ops).Tabled :=
  Mealy.invariant (fun op _ hs => hs.step op) ⟨Enumerates.empty, Nat.zero_le _⟩ ops

variable (iter) in
theorem after_limits (maxEvents maxAlternatives : ℕ) (ops : List Op) :
    (Mealy.after (step iter) (new maxEvents maxAlternatives) ops).maxEvents = maxEvents ∧
    (Mealy.after (step iter) (new maxEvents maxAlternatives) ops).maxAlternatives
      = maxAlternatives := by
  refine Mealy.invariant (I := fun state : FipsPubsubInvWantState => state.maxEvents = maxEvents ∧
    state.maxAlternatives = maxAlternatives) ?_ ⟨rfl, rfl⟩ ops
  intro op state h
  obtain ⟨hevents, halternatives⟩ := @step_limits iter op state
  exact ⟨hevents.trans h.1, halternatives.trans h.2⟩

variable (iter) in
/-- Every pending event is in order after a run. -/
theorem sound_after (maxEvents maxAlternatives : ℕ) (ops : List Op) {id : String}
    {pending : PendingWant}
    (h : (Mealy.after (step iter) (new maxEvents maxAlternatives) ops).pending.lookup id
      = some pending) :
    Sound maxAlternatives
      (Mealy.lifetimes (step iter) Holds (new maxEvents maxAlternatives) ops id) id pending := by
  have hinvariant := Mealy.lifetime_invariant (step iter) Holds
    (I := fun calls id state => ∀ pending, state.pending.lookup id = some pending →
      Sound state.maxAlternatives calls id pending) (s := new maxEvents maxAlternatives)
    ?_ ?_ ?_ ops (Finmap.mem_of_lookup_eq_some h) pending h
  · rwa [(after_limits iter maxEvents maxAlternatives ops).2] at hinvariant
  · exact fun id => Finmap.notMem_empty
  · intro op state id hfresh _ pending' hpending'
    rcases step_entry hpending' with ⟨-, inventory, now, rfl, rfl, hout, rfl⟩ | ⟨pending, hold, -⟩
    · rw [hout]
      exact Sound.born inventory now
    · exact absurd (Finmap.mem_of_lookup_eq_some hold) hfresh
  · intro op state id calls hheld _ hsound pending' hpending'
    rw [(step_limits op state).2]
    rcases step_entry hpending' with ⟨hnone, -⟩ | ⟨pending, hold, hchanged⟩
    · exact absurd hheld (Finmap.lookup_eq_none.mp hnone)
    · exact (hsound pending hold).changed hchanged

/-- The selected provider of a pending event still waits for its request. -/
def Waits (state : FipsPubsubInvWantState) (id peer : String) : Prop :=
  ∃ pending, state.pending.lookup id = some pending ∧ pending.needsRequest = true ∧
    pending.selected.peerId = peer

/-- What is completed is a pending event with an acceptable provider under the subscription. -/
theorem complete_eq_some {state : FipsPubsubInvWantState} {result : ℕ × Finset String}
    (h : (state.complete peer subscription id kind bytes).1 = some result) :
    ∃ pending, state.pending.lookup id = some pending ∧ pending.eventKind = kind ∧
      pending.payloadBytes = bytes ∧ ∃ p ∈ pending.answerable, p.peerId = peer ∧
        subscription ∈ p.subscriptionIds := by
  rw [complete] at h
  split at h
  · cases h
  · next pending hlookup =>
    split at h
    · cases h
    · next p hp =>
      split at h
      · cases h
      · next hmatch =>
        obtain ⟨hkind, hbytes⟩ := not_or.mp hmatch
        have hfound : p.peerId = peer ∧ subscription ∈ p.subscriptionIds := by
          simpa using List.find?_some hp
        exact ⟨pending, hlookup, not_not.mp hkind, not_not.mp hbytes, p,
          List.mem_of_find?_eq_some hp, hfound⟩

theorem answerable_subset (pending : PendingWant) : pending.answerable ⊆ pending.providers :=
  List.cons_subset_cons _ (List.subset_append_right _ _)

/-- Along every run the queue lists the pending events within the limits, a pending event has distinct
providers with the subscriptions they announced, and an answer is accepted only under a subscription
that its peer announced for an event of this kind and size. Unless the peer is the selected one and
still waits for its request, it was asked for the event while it is pending. -/
theorem invWant_asked_unless_waiting (iter : Finmap.Enumeration fun _ : String => PendingWant)
    (maxEvents maxAlternatives : ℕ) (ops : List Op) :
    let state := Mealy.after (step iter) (new maxEvents maxAlternatives) ops
    let calls := Mealy.lifetimes (step iter) Holds (new maxEvents maxAlternatives) ops
    state.order.Nodup ∧ (∀ id, id ∈ state.order ↔ id ∈ state.pending) ∧
    state.order.length ≤ maxEvents ∧ state.pending.size ≤ maxEvents ∧
    (∀ id pending, state.pending.lookup id = some pending →
      (pending.providers.map InventoryProvider.peerId).Nodup ∧
      (∀ p ∈ pending.providers, p.subscriptionIds ≠ ∅) ∧
      pending.providers.length ≤ maxAlternatives + 1) ∧
    ∀ peer subscription id kind bytes result,
      (state.complete peer subscription id kind bytes).1 = some result →
        Announced (calls id) id peer subscription kind bytes ∧
        (¬state.Waits id peer → Asked (calls id) id peer) := by
  intro state calls
  obtain ⟨hevents, -⟩ := after_limits iter maxEvents maxAlternatives ops
  have htabled : state.Tabled := tabled_after iter maxEvents maxAlternatives ops
  have hsize : state.pending.size ≤ maxEvents := hevents ▸ htabled.size_le
  refine ⟨htabled.enumerates.nodup, htabled.enumerates.mem_iff, ?_, hsize, ?_, ?_⟩
  · rw [htabled.enumerates.length_eq]
    exact hsize
  · intro id pending hpending
    have h := sound_after iter maxEvents maxAlternatives ops hpending
    exact ⟨h.distinct, h.subscribed, h.count_le⟩
  · intro peer subscription id kind bytes result hcomplete
    obtain ⟨pending, hpending, rfl, rfl, p, hp, rfl, hsub⟩ := complete_eq_some hcomplete
    have h := sound_after iter maxEvents maxAlternatives ops hpending
    refine ⟨h.announced p (answerable_subset pending hp) subscription hsub, fun hwaits => ?_⟩
    refine h.asked p.peerId ?_
    -- the selected provider counts as asked unless it waits for its request
    rw [PendingWant.askedPeers]
    split
    · next hneeds =>
      rcases List.mem_cons.mp hp with rfl | hp
      · exact absurd ⟨pending, hpending, hneeds, rfl⟩ hwaits
      · exact List.mem_map_of_mem hp
    · exact List.mem_map_of_mem hp

/-! ## An answer that nobody asked for -/

/-- An inventory of an event by a peer, under one subscription. -/
def inventoryFrom (peer : String) : Inventory where
  peerId := peer
  eventId := "e"
  eventKind := 1
  payloadBytes := 10
  hopLimit := 4
  validSubscriptionIds := {"live"}
  nonempty := ⟨"live", Finset.mem_singleton_self _⟩

/-- Two peers announce an event, and the one that was asked disconnects. -/
def promotionRun : List Op :=
  [.accept (inventoryFrom "a") 0, .accept (inventoryFrom "b") 1, .dropPeer "a"]

/-- The other peer takes its place, and its answer is accepted before it is asked. -/
theorem promoted_answer_accepted :
    let iter := Finmap.Enumeration.ascending fun _ : String => PendingWant
    let state := Mealy.after (step iter) (new 16 4) promotionRun
    let calls := Mealy.lifetimes (step iter) Holds (new 16 4) promotionRun
    (state.complete "b" "live" "e" 1 10).1 = some (3, {"live"}) ∧ ¬Asked (calls "e") "e" "b" := by
  intro iter state calls
  have hcalls : calls "e" =
      [(.accept (inventoryFrom "a") 0, .requested (some ⟨"a", "e"⟩)),
        (.accept (inventoryFrom "b") 1, .requested none), (.dropPeer "a", .nothing)] := by
    decide +kernel
  refine ⟨by decide +kernel, ?_⟩
  rw [hcalls]
  rintro (⟨inventory, now, hmem⟩ | ⟨now, after, retries, hmem, -⟩)
  · simp [inventoryFrom] at hmem
  · simp at hmem

end FipsPubsubInvWantState

end NostrPubsub.Fips.TypeScript
