import NostrPubsub.Query.Subscriptions

/-!
# Bookkeeping of peer subscriptions

The store adjusts its counters on every replacement, eviction, close and removal, and keeps
two kinds of queues beside its tables. This file shows that the counters are those of a count
from scratch, that the queues list the keys of their tables in the order of the last upsert,
and that the limits hold, along every run.

- `PubsubPeerSubscriptionStore.Bookkept`: queues, tables and limits;
- `PubsubPeerSubscriptionStore.Exact`: the counters are those of a count from scratch;
- `PubsubPeerSubscriptionStore.ByRecency`: the queues are in the order of the last upsert.
-/

namespace NostrPubsub

/-! ## Counting from scratch -/

/-- The four counters of a snapshot that subscriptions contribute to. -/
inductive RetainedCounter where
  | subscriptions
  | filters
  | filterBytes
  | reqBytes

/-- The counter of a snapshot. -/
def PubsubPeerSubscriptionSnapshot.get (self : PubsubPeerSubscriptionSnapshot) :
    RetainedCounter → ℕ
  | .subscriptions => self.subscriptionCount
  | .filters => self.filterCount
  | .filterBytes => self.encodedFilterBytes
  | .reqBytes => self.encodedReqBytes

/-- The part of a contribution that goes to a counter. -/
def SubscriptionContribution.get (self : SubscriptionContribution) : RetainedCounter → ℕ
  | .subscriptions => 1
  | .filters => self.filterCount
  | .filterBytes => self.encodedFilterBytes
  | .reqBytes => self.encodedReqBytes

/-- The bytes of an encoding. -/
def encodedBytes (encoded : Except String String) : ℕ :=
  match encoded with
  | .ok encoded => encoded.utf8ByteSize
  | .error _ => 0

/-- What a subscription counts for, without a bound on the counters. -/
def PubsubPeerSubscription.weight (json : SubscriptionJson) (self : PubsubPeerSubscription) :
    RetainedCounter → ℕ
  | .subscriptions => 1
  | .filters => self.filters.length
  | .filterBytes => (self.filters.map fun filter => encodedBytes (json.filter filter)).sum
  | .reqBytes => encodedBytes (json.req self.subscriptionId self.filters)

/-- What the subscriptions of a peer count for. -/
def PeerSubscriptionSet.weight (json : SubscriptionJson) (self : PeerSubscriptionSet)
    (counter : RetainedCounter) : ℕ :=
  self.subscriptions.total fun _ subscription => subscription.weight json counter

namespace PubsubPeerSubscriptionStore

/-- What all stored subscriptions count for. -/
def weight (json : SubscriptionJson) (self : PubsubPeerSubscriptionStore)
    (counter : RetainedCounter) : ℕ :=
  self.peers.total fun _ peer => peer.weight json counter

/-- The snapshot recomputed from scratch over the stored subscriptions. -/
def recomputed (json : SubscriptionJson) (self : PubsubPeerSubscriptionStore) :
    PubsubPeerSubscriptionSnapshot where
  peerCount := self.peers.size
  subscriptionCount := self.weight json .subscriptions
  filterCount := self.weight json .filters
  encodedFilterBytes := self.weight json .filterBytes
  encodedReqBytes := self.weight json .reqBytes

/-- No recomputed counter leaves the range of a `usize`. -/
def FitsUsize (json : SubscriptionJson) (self : PubsubPeerSubscriptionStore) : Prop :=
  ∀ counter, self.weight json counter ≤ u64Max

end PubsubPeerSubscriptionStore

variable {json : SubscriptionJson}

theorem encodedFilterBytes_eq {filters : List Filter} {total bytes : ℕ} (htotal : total ≤ u64Max)
    (h : encodedFilterBytes json filters total = .ok bytes) :
    bytes = satAdd total (filters.map fun filter => encodedBytes (json.filter filter)).sum := by
  induction filters generalizing total with
  | nil =>
    cases h
    rw [List.map_nil, List.sum_nil, satAdd]
    omega
  | cons filter rest ih =>
    rw [encodedFilterBytes] at h
    cases hfilter : json.filter filter with
    | error error => simp [hfilter] at h
    | ok encoded =>
      simp only [hfilter] at h
      rw [ih (Nat.min_le_right _ _) h, List.map_cons, List.sum_cons, hfilter]
      simp only [encodedBytes, satAdd]
      omega

/-- A contribution is what the subscription counts for, unless the counter overflows. -/
theorem contribution_get {subscription : PubsubPeerSubscription}
    {added : SubscriptionContribution} (h : subscriptionContribution json subscription = .ok added)
    (counter : RetainedCounter) (hfits : subscription.weight json counter ≤ u64Max) :
    added.get counter = subscription.weight json counter := by
  unfold subscriptionContribution at h
  cases hbytes : encodedFilterBytes json subscription.filters 0 with
  | error error => simp [hbytes, bind, Except.bind] at h
  | ok bytes =>
    cases hreq : json.req subscription.subscriptionId subscription.filters with
    | error error => simp [hbytes, hreq, bind, Except.bind] at h
    | ok encoded =>
      simp only [hbytes, hreq, bind, Except.bind, Except.ok.injEq] at h
      subst h
      cases counter with
      | subscriptions => rfl
      | filters => rfl
      | filterBytes =>
        have heq := encodedFilterBytes_eq (Nat.zero_le _) hbytes
        simp only [PubsubPeerSubscription.weight] at hfits
        simp only [SubscriptionContribution.get, PubsubPeerSubscription.weight, heq, satAdd]
        omega
      | reqBytes => simp [SubscriptionContribution.get, PubsubPeerSubscription.weight, hreq,
          encodedBytes]

/-! ## Subtracting what was dropped -/

/-- What is subtracted from a counter for a dropped subscription. -/
def PubsubPeerSubscription.subtracted (json : SubscriptionJson) (self : PubsubPeerSubscription)
    (counter : RetainedCounter) : ℕ :=
  (subscriptionContributionInfallible json self).get counter

namespace PubsubPeerSubscriptionStore

/-- Subtracting for a subscription that may be there. -/
private theorem sum_toList (removed : Option PubsubPeerSubscription)
    (f : PubsubPeerSubscription → ℕ) : (removed.toList.map f).sum = removed.elim 0 f := by
  cases removed <;> simp

section Subtract

variable (self : PubsubPeerSubscriptionStore) (removed : List PubsubPeerSubscription)

/-- Subtraction touches the four counters only. -/
theorem subtractAll_frame :
    (self.subtractAll json removed).limits = self.limits
    ∧ (self.subtractAll json removed).peers = self.peers
    ∧ (self.subtractAll json removed).peerOrder = self.peerOrder
    ∧ (self.subtractAll json removed).retained.peerCount = self.retained.peerCount := by
  induction removed generalizing self with
  | nil => exact ⟨rfl, rfl, rfl, rfl⟩
  | cons subscription rest ih => exact ih (self.subtractRetained json subscription)

@[simp]
theorem subtractAll_limits : (self.subtractAll json removed).limits = self.limits :=
  (self.subtractAll_frame removed).1

@[simp]
theorem subtractAll_peers : (self.subtractAll json removed).peers = self.peers :=
  (self.subtractAll_frame removed).2.1

@[simp]
theorem subtractAll_peerOrder : (self.subtractAll json removed).peerOrder = self.peerOrder :=
  (self.subtractAll_frame removed).2.2.1

@[simp]
theorem subtractAll_peerCount :
    (self.subtractAll json removed).retained.peerCount = self.retained.peerCount :=
  (self.subtractAll_frame removed).2.2.2

@[simp]
theorem subtractAll_get (counter : RetainedCounter) :
    (self.subtractAll json removed).retained.get counter
      = self.retained.get counter - (removed.map (·.subtracted json counter)).sum := by
  induction removed generalizing self with
  | nil => rfl
  | cons subscription rest ih =>
    have hone : (self.subtractRetained json subscription).retained.get counter
        = self.retained.get counter - subscription.subtracted json counter := by
      cases counter <;> rfl
    rw [subtractAll, List.foldl_cons, ← subtractAll, ih, hone, List.map_cons, List.sum_cons,
      Nat.sub_sub]

@[simp]
theorem countPeers_get (counter : RetainedCounter) :
    self.countPeers.retained.get counter = self.retained.get counter := by
  cases counter <;> rfl

@[simp]
theorem addRetained_get (added : SubscriptionContribution) (counter : RetainedCounter) :
    (self.addRetained added).retained.get counter
      = satAdd (self.retained.get counter) (added.get counter) := by
  cases counter <;> rfl

end Subtract

end PubsubPeerSubscriptionStore

/-! ## The subscriptions of one peer -/

/-- What holds of a stored subscription. -/
structure PubsubPeerSubscription.Bookkept (json : SubscriptionJson)
    (limits : PubsubSubscriptionLimits) (id : String) (subscription : PubsubPeerSubscription) :
    Prop where
  subscriptionId_eq : subscription.subscriptionId = id
  filters_le : subscription.filters.length ≤ limits.maxFiltersPerSubscription
  encodes : ∃ added, subscriptionContribution json subscription = .ok added

theorem PubsubPeerSubscription.Bookkept.subtracted_eq {limits : PubsubSubscriptionLimits}
    {id : String} {subscription : PubsubPeerSubscription} (h : subscription.Bookkept json limits id)
    {counter : RetainedCounter} (hfits : subscription.weight json counter ≤ u64Max) :
    subscription.subtracted json counter = subscription.weight json counter := by
  obtain ⟨added, hadded⟩ := h.encodes
  rw [PubsubPeerSubscription.subtracted, subscriptionContributionInfallible]
  simp only [hadded]
  exact contribution_get hadded counter hfits

/-- What is subtracted for a subscription that may be there. -/
theorem elim_subtracted_eq {limits : PubsubSubscriptionLimits}
    {removed : Option PubsubPeerSubscription}
    (h : ∀ subscription, removed = some subscription → ∃ id, subscription.Bookkept json limits id)
    (counter : RetainedCounter) (hfits : removed.elim 0 (·.weight json counter) ≤ u64Max) :
    removed.elim 0 (·.subtracted json counter) = removed.elim 0 (·.weight json counter) := by
  cases removed with
  | none => rfl
  | some subscription =>
    obtain ⟨id, hid⟩ := h subscription rfl
    exact hid.subtracted_eq hfits

namespace PeerSubscriptionSet

/-- What holds of the subscriptions of a peer. -/
structure Bookkept (json : SubscriptionJson) (limits : PubsubSubscriptionLimits)
    (peer : PeerSubscriptionSet) : Prop where
  enumerates : Enumerates peer.order peer.subscriptions
  size_le : peer.subscriptions.size ≤ limits.maxSubscriptionsPerPeer
  subscriptions : ∀ {id subscription}, peer.subscriptions.lookup id = some subscription →
    subscription.Bookkept json limits id

variable {limits : PubsubSubscriptionLimits} {self : PeerSubscriptionSet}

theorem empty_bookkept : empty.Bookkept json limits where
  enumerates := .empty
  size_le := Nat.zero_le _
  subscriptions := fun h => by simp [empty] at h

/-- An upsert is a bounded insertion of the subscription. -/
theorem upsert_put (h : Enumerates self.order self.subscriptions)
    (hlimit : 0 < limits.maxSubscriptionsPerPeer) (subscription : PubsubPeerSubscription) :
    LruPut limits.maxSubscriptionsPerPeer self.order self.subscriptions
      subscription.subscriptionId subscription (self.upsert subscription limits).2.1
      (self.upsert subscription limits).2.2.order
      (self.upsert subscription limits).2.2.subscriptions := by
  cases hold : self.subscriptions.lookup subscription.subscriptionId with
  | none =>
    have hnew := Finmap.lookup_eq_none.mp hold
    simp only [upsert, hold, Option.isNone_none, if_true, evictOldestOverLimit]
    exact LruPut.of_insert_popOver h hlimit hnew subscription
  | some old =>
    simp only [upsert, hold, Option.isNone_some, Bool.false_eq_true, if_false]
    exact .known (Finmap.mem_of_lookup_eq_some hold)

theorem upsert_replaced (subscription : PubsubPeerSubscription) :
    (self.upsert subscription limits).1
      = self.subscriptions.lookup subscription.subscriptionId := by
  simp only [upsert]
  split <;> rfl

/-- An upsert keeps the books of the peer. -/
theorem Bookkept.upsert (h : self.Bookkept json limits)
    (hlimit : 0 < limits.maxSubscriptionsPerPeer) {subscription : PubsubPeerSubscription}
    (hsubscription : subscription.Bookkept json limits subscription.subscriptionId) :
    (self.upsert subscription limits).2.2.Bookkept json limits := by
  have hput := upsert_put h.enumerates hlimit subscription
  refine ⟨hput.enumerates h.enumerates, hput.size_le h.size_le, fun {id stored} hstored => ?_⟩
  by_cases hid : id = subscription.subscriptionId
  · subst hid
    rw [hput.lookup_self, Option.some.injEq] at hstored
    exact hstored ▸ hsubscription
  · exact h.subscriptions (hput.lookup_of_ne hid hstored)

theorem Bookkept.remove (h : self.Bookkept json limits) (id : String) :
    (self.remove id).2.Bookkept json limits where
  enumerates := h.enumerates.remove id
  size_le := (Finmap.size_le_size fun _ ha => (Finmap.mem_erase.mp ha).2).trans h.size_le
  subscriptions := fun hstored => h.subscriptions (Finmap.lookup_erase_eq_some.mp hstored).2

variable (json) in
/-- A removal takes the weight of what it returns. -/
theorem weight_remove (self : PeerSubscriptionSet) (id : String) (counter : RetainedCounter) :
    (self.remove id).2.weight json counter + (self.remove id).1.elim 0 (·.weight json counter)
      = self.weight json counter := by
  cases hold : self.subscriptions.lookup id with
  | none =>
    simp only [remove, weight, hold, Finmap.erase_eq_self hold, Option.elim_none, Nat.add_zero]
  | some old =>
    simp only [remove, weight, hold, Option.elim_some]
    rw [Finmap.total_eq_add_erase _ hold, Nat.add_comm]

/-- What is subtracted for all subscriptions of a peer. -/
theorem sum_subtracted_intoValues (h : self.Bookkept json limits) {counter : RetainedCounter}
    (hfits : self.weight json counter ≤ u64Max) :
    (self.intoValues.map (·.subtracted json counter)).sum = self.weight json counter := by
  have heach : ∀ entry ∈ (Finmap.Enumeration.ascending _).visit self.subscriptions,
      entry.2.subtracted json counter = entry.2.weight json counter := by
    rintro ⟨id, subscription⟩ hentry
    rw [(Finmap.Enumeration.ascending _).mem_visit] at hentry
    refine (h.subscriptions hentry).subtracted_eq (le_trans ?_ hfits)
    rw [weight, Finmap.total_eq_add_erase _ hentry]
    exact Nat.le_add_right _ _
  rw [intoValues, List.map_map, weight, ← (Finmap.Enumeration.ascending _).sum_visit]
  exact congrArg List.sum (List.map_congr_left heach)

end PeerSubscriptionSet

/-! ## The books of the store -/

namespace PubsubPeerSubscriptionStore

/-- Queues, tables and limits of the store agree; a peer may be left without subscriptions. -/
structure Tabled (json : SubscriptionJson) (store : PubsubPeerSubscriptionStore) : Prop where
  /-- The queue lists the peers, each once. -/
  enumerates : Enumerates store.peerOrder store.peers
  size_le : store.peers.size ≤ store.limits.maxPeers
  /-- The books of every peer are in order. -/
  peers : ∀ {peerId peer}, store.peers.lookup peerId = some peer → peer.Bookkept json store.limits

/-- The books of the store between two operations. -/
structure Bookkept (json : SubscriptionJson) (store : PubsubPeerSubscriptionStore) : Prop
    extends Tabled json store where
  /-- No peer is kept without a subscription. -/
  nonempty : ∀ {peerId peer}, store.peers.lookup peerId = some peer → 0 < peer.subscriptions.size

/-- The counters are those of a count from scratch. -/
def Exact (json : SubscriptionJson) (store : PubsubPeerSubscriptionStore) : Prop :=
  store.retained = store.recomputed json

variable {store : PubsubPeerSubscriptionStore}

theorem exact_iff :
    store.Exact json ↔ store.retained.peerCount = store.peers.size
      ∧ ∀ counter, store.retained.get counter = store.weight json counter := by
  constructor
  · intro h
    rw [h]
    exact ⟨rfl, fun counter => by cases counter <;> rfl⟩
  · rintro ⟨hpeers, hcounters⟩
    exact PubsubPeerSubscriptionSnapshot.ext hpeers (hcounters .subscriptions)
      (hcounters .filters) (hcounters .filterBytes) (hcounters .reqBytes)

theorem new_bookkept (json : SubscriptionJson) (limits : PubsubSubscriptionLimits) :
    (new limits).Bookkept json where
  enumerates := .empty
  size_le := Nat.zero_le _
  peers := fun h => by simp [new] at h
  nonempty := fun h => by simp [new] at h

theorem new_exact (json : SubscriptionJson) (limits : PubsubSubscriptionLimits) :
    (new limits).Exact json := rfl

/-- The subscriptions of a peer before an upsert. -/
def peerOrDefault (self : PubsubPeerSubscriptionStore) (peerId : String) : PeerSubscriptionSet :=
  (self.peers.lookup peerId).getD .empty

theorem Bookkept.peerOrDefault (h : store.Bookkept json) (peerId : String) :
    (store.peerOrDefault peerId).Bookkept json store.limits := by
  rw [PubsubPeerSubscriptionStore.peerOrDefault]
  cases hpeer : store.peers.lookup peerId with
  | none => exact PeerSubscriptionSet.empty_bookkept
  | some peer => exact h.peers hpeer

theorem weight_peerOrDefault (peerId : String) (counter : RetainedCounter) :
    (store.peerOrDefault peerId).weight json counter
      = (store.peers.lookup peerId).elim 0 (·.weight json counter) := by
  rw [peerOrDefault]
  cases store.peers.lookup peerId with
  | none => rfl
  | some peer => rfl

theorem weight_peer_le {peerId : String} {peer : PeerSubscriptionSet}
    (h : store.peers.lookup peerId = some peer) (counter : RetainedCounter) :
    peer.weight json counter ≤ store.weight json counter := by
  rw [weight, Finmap.total_eq_add_erase _ h]
  exact Nat.le_add_right _ _

/-! ## Accepted upserts -/

/-- What making room for a peer does: the peer can be put into the table, and the counters lose
what an evicted peer contributed. -/
structure MadeRoom (json : SubscriptionJson) (store : PubsubPeerSubscriptionStore)
    (peerId : String) (evictedPeer : Option PeerSubscriptionSet)
    (roomy : PubsubPeerSubscriptionStore) : Prop where
  limits_eq : roomy.limits = store.limits
  lookup_eq : roomy.peers.lookup peerId = store.peers.lookup peerId
  put : ∀ peer, LruPut store.limits.maxPeers store.peerOrder store.peers peerId peer evictedPeer
    roomy.peerOrder (roomy.peers.insert peerId peer)
  get_eq : ∀ counter, roomy.retained.get counter = store.retained.get counter
    - ((evictedPeer.elim [] (·.intoValues)).map (·.subtracted json counter)).sum

theorem makeRoom_madeRoom (h : store.Bookkept json) (hlimit : 0 < store.limits.maxPeers)
    (peerId : String) :
    ∃ evictedPeer, MadeRoom json store peerId evictedPeer (store.makeRoom json peerId) := by
  cases hpeer : store.peers.lookup peerId with
  | some peer =>
    have hroom : store.makeRoom json peerId = store.touchPeer peerId := by simp [makeRoom, hpeer]
    rw [hroom]
    refine ⟨none, rfl, rfl, fun peer' => ?_, fun counter => ?_⟩
    · exact .known (Finmap.mem_of_lookup_eq_some hpeer)
    · simp [touchPeer]
  | none =>
    have hnew := Finmap.lookup_eq_none.mp hpeer
    have hroom : store.makeRoom json peerId
        = (store.touchPeer peerId).evictPeersOverLimit.2.subtractAll json
          (store.touchPeer peerId).evictPeersOverLimit.1 := by simp [makeRoom, hpeer]
    rw [hroom]
    refine ⟨(popOver (fun size => store.limits.maxPeers ≤ size)
      (moveToBack store.peerOrder peerId) store.peers).1.map (·.2), ?_, ?_, fun peer' => ?_,
      fun counter => ?_⟩
    · rw [subtractAll_limits]
      rfl
    · rw [subtractAll_peers, hpeer]
      exact lookup_popOver_eq_none hpeer
    · rw [subtractAll_peers, subtractAll_peerOrder]
      exact LruPut.of_popOver_insert h.enumerates hlimit hnew peer'
    · rw [subtractAll_get, Option.elim_map]
      rfl

/-- What an accepted upsert does: a bounded insertion of the peer, with its subscriptions after
a bounded insertion of the subscription. -/
structure Accepted (json : SubscriptionJson) (store : PubsubPeerSubscriptionStore)
    (peerId : String) (subscription : PubsubPeerSubscription) (added : SubscriptionContribution)
    (evictedPeer : Option PeerSubscriptionSet) (accepted : PubsubPeerSubscriptionStore) :
    Prop where
  limits_eq : accepted.limits = store.limits
  put : LruPut store.limits.maxPeers store.peerOrder store.peers peerId
    ((store.peerOrDefault peerId).upsert subscription store.limits).2.2 evictedPeer
    accepted.peerOrder accepted.peers
  peerCount_eq : accepted.retained.peerCount = accepted.peers.size
  get_eq : ∀ counter, accepted.retained.get counter
    = satAdd (store.retained.get counter
        - ((evictedPeer.elim [] (·.intoValues)).map (·.subtracted json counter)).sum
        - ((store.peerOrDefault peerId).subscriptions.lookup subscription.subscriptionId).elim 0
          (·.subtracted json counter)
        - ((store.peerOrDefault peerId).upsert subscription store.limits).2.1.elim 0
          (·.subtracted json counter))
      (added.get counter)

theorem accept_accepted (h : store.Bookkept json) (hlimit : 0 < store.limits.maxPeers)
    (peerId : String) (subscription : PubsubPeerSubscription) (added : SubscriptionContribution) :
    ∃ evictedPeer, Accepted json store peerId subscription added evictedPeer
      (store.accept json peerId subscription added).2 := by
  obtain ⟨evictedPeer, hroom⟩ := makeRoom_madeRoom h hlimit peerId
  have hpeer : ((store.makeRoom json peerId).peers.lookup peerId).getD .empty
      = store.peerOrDefault peerId := by rw [hroom.lookup_eq, peerOrDefault]
  refine ⟨evictedPeer, ?_, ?_, rfl, fun counter => ?_⟩
  · simp only [accept, countPeers, addRetained, subtractAll_limits]
    exact hroom.limits_eq
  · simp only [accept, countPeers, addRetained, subtractAll_peers, subtractAll_peerOrder, hpeer]
    exact hroom.put _
  · simp only [accept, countPeers_get, addRetained_get, subtractAll_get, sum_toList, hpeer,
      PeerSubscriptionSet.upsert_replaced, hroom.get_eq]

namespace Accepted

variable {peerId : String} {subscription : PubsubPeerSubscription}
  {added : SubscriptionContribution} {evictedPeer : Option PeerSubscriptionSet}
  {accepted : PubsubPeerSubscriptionStore}

/-- The insertion of the subscription among those of the peer. -/
theorem put_subscription (h : store.Bookkept json)
    (hlimit : 0 < store.limits.maxSubscriptionsPerPeer) (peerId : String)
    (subscription : PubsubPeerSubscription) :
    LruPut store.limits.maxSubscriptionsPerPeer (store.peerOrDefault peerId).order
      (store.peerOrDefault peerId).subscriptions subscription.subscriptionId subscription
      ((store.peerOrDefault peerId).upsert subscription store.limits).2.1
      ((store.peerOrDefault peerId).upsert subscription store.limits).2.2.order
      ((store.peerOrDefault peerId).upsert subscription store.limits).2.2.subscriptions :=
  PeerSubscriptionSet.upsert_put (h.peerOrDefault peerId).enumerates hlimit subscription

/-- An accepted upsert keeps the books. -/
theorem bookkept (haccepted : Accepted json store peerId subscription added evictedPeer accepted)
    (h : store.Bookkept json) (hlimit : 0 < store.limits.maxSubscriptionsPerPeer)
    (hsubscription : subscription.Bookkept json store.limits subscription.subscriptionId) :
    accepted.Bookkept json := by
  have hput := put_subscription h hlimit peerId subscription
  refine ⟨⟨haccepted.put.enumerates h.enumerates, ?_, fun {id peer} hpeer => ?_⟩,
    fun {id peer} hpeer => ?_⟩
  · rw [haccepted.limits_eq]
    exact haccepted.put.size_le h.size_le
  · rw [haccepted.limits_eq]
    by_cases hid : id = peerId
    · subst hid
      rw [haccepted.put.lookup_self, Option.some.injEq] at hpeer
      exact hpeer ▸ (h.peerOrDefault id).upsert hlimit hsubscription
    · exact h.peers (haccepted.put.lookup_of_ne hid hpeer)
  · by_cases hid : id = peerId
    · subst hid
      rw [haccepted.put.lookup_self, Option.some.injEq] at hpeer
      rw [← hpeer, ← Finmap.size_erase_of_lookup hput.lookup_self]
      exact Nat.succ_pos _
    · exact h.nonempty (haccepted.put.lookup_of_ne hid hpeer)

/-- An accepted upsert keeps the counters exact, if they fit. -/
theorem exact (haccepted : Accepted json store peerId subscription added evictedPeer accepted)
    (h : store.Bookkept json) (hlimit : 0 < store.limits.maxSubscriptionsPerPeer)
    (hadded : subscriptionContribution json subscription = .ok added)
    (hfits : store.FitsUsize json) (hfits' : accepted.FitsUsize json) (hexact : store.Exact json) :
    accepted.Exact json := by
  refine exact_iff.mpr ⟨haccepted.peerCount_eq, fun counter => ?_⟩
  have hput := put_subscription h hlimit peerId subscription
  have hpeer := h.peerOrDefault peerId
  -- The weights before and after, for the peers and for the subscriptions of this peer.
  have hpeers := haccepted.put.total_add_dropped (·.weight json counter)
  have hpeersLe := haccepted.put.dropped_le (·.weight json counter)
  have hsubs := hput.total_add_dropped (·.weight json counter)
  have hsubsLe := hput.dropped_le (·.weight json counter)
  rw [← weight_peerOrDefault] at hpeers hpeersLe
  rw [PeerSubscriptionSet.weight] at hpeers hpeersLe
  rw [PeerSubscriptionSet.weight] at hpeers
  have hbefore := hfits counter
  have hafter := hfits' counter
  rw [weight] at hbefore hafter
  -- So what is subtracted and added is what the weights differ by.
  have hevictedPeer : ((evictedPeer.elim [] (·.intoValues)).map (·.subtracted json counter)).sum
      = evictedPeer.elim 0 (·.weight json counter) := by
    cases hevicted : evictedPeer with
    | none => rfl
    | some old =>
      obtain ⟨id, hid⟩ := haccepted.put.lookup_evicted hevicted
      exact PeerSubscriptionSet.sum_subtracted_intoValues (h.peers hid)
        ((weight_peer_le hid counter).trans (hfits counter))
  have hreplaced := elim_subtracted_eq
    (fun old (hold : (store.peerOrDefault peerId).subscriptions.lookup
      subscription.subscriptionId = some old) => ⟨_, hpeer.subscriptions hold⟩) counter (by omega)
  have hevicted := elim_subtracted_eq
    (fun old hold => (hput.lookup_evicted hold).imp fun id hid => hpeer.subscriptions hid)
    counter (by omega)
  have hadd := contribution_get hadded counter (by omega)
  rw [haccepted.get_eq, (exact_iff.mp hexact).2, hevictedPeer, hreplaced, hevicted, hadd, satAdd,
    weight, weight]
  omega

end Accepted

/-! ## Removals -/

theorem removePeer_get (self : PubsubPeerSubscriptionStore) (peerId : String)
    (counter : RetainedCounter) :
    (self.removePeer json peerId).2.retained.get counter = self.retained.get counter
      - (((self.peers.lookup peerId).elim [] (·.intoValues)).map (·.subtracted json counter)).sum := by
  simp [removePeer]

@[simp]
theorem removePeer_limits (self : PubsubPeerSubscriptionStore) (peerId : String) :
    (self.removePeer json peerId).2.limits = self.limits := by
  simp [removePeer, countPeers]

@[simp]
theorem removePeer_peers (self : PubsubPeerSubscriptionStore) (peerId : String) :
    (self.removePeer json peerId).2.peers = self.peers.erase peerId := by
  simp [removePeer, countPeers]

@[simp]
theorem removePeer_peerOrder (self : PubsubPeerSubscriptionStore) (peerId : String) :
    (self.removePeer json peerId).2.peerOrder = self.peerOrder.filter (· ≠ peerId) := by
  simp [removePeer, countPeers]

theorem Tabled.removePeer (h : store.Tabled json) (peerId : String) :
    (store.removePeer json peerId).2.Tabled json where
  enumerates := by
    rw [removePeer_peers, removePeer_peerOrder]
    exact h.enumerates.remove peerId
  size_le := by
    rw [removePeer_peers, removePeer_limits]
    exact (Finmap.size_le_size fun _ ha => (Finmap.mem_erase.mp ha).2).trans h.size_le
  peers := by
    rw [removePeer_peers, removePeer_limits]
    exact fun hpeer => h.peers (Finmap.lookup_erase_eq_some.mp hpeer).2

/-- Removing a peer keeps the books. -/
theorem Bookkept.removePeer (h : store.Bookkept json) (peerId : String) :
    (store.removePeer json peerId).2.Bookkept json where
  toTabled := h.toTabled.removePeer peerId
  nonempty := by
    rw [removePeer_peers]
    exact fun hpeer => h.nonempty (Finmap.lookup_erase_eq_some.mp hpeer).2

theorem Exact.removePeer (hexact : store.Exact json) (h : store.Tabled json)
    (hfits : store.FitsUsize json) (peerId : String) :
    (store.removePeer json peerId).2.Exact json := by
  refine exact_iff.mpr ⟨by rw [PubsubPeerSubscriptionStore.removePeer]; rfl, fun counter => ?_⟩
  have hcounter := (exact_iff.mp hexact).2 counter
  rw [removePeer_get, hcounter, weight, weight, removePeer_peers]
  cases hpeer : store.peers.lookup peerId with
  | none => simp [Finmap.erase_eq_self hpeer]
  | some peer =>
    have hsum := PeerSubscriptionSet.sum_subtracted_intoValues (h.peers hpeer)
      ((weight_peer_le hpeer counter).trans (hfits counter))
    rw [Option.elim_some, hsum, Finmap.total_eq_add_erase _ hpeer, Nat.add_sub_cancel_left]

section Shrink

variable {peerId : String} {peer : PeerSubscriptionSet}

@[simp]
theorem shrinkPeer_limits (id : String) :
    (store.shrinkPeer json peerId peer id).limits = store.limits := by
  simp [shrinkPeer]

@[simp]
theorem shrinkPeer_peers (id : String) :
    (store.shrinkPeer json peerId peer id).peers
      = store.peers.insert peerId (peer.remove id).2 := by
  simp [shrinkPeer]

@[simp]
theorem shrinkPeer_peerOrder (id : String) :
    (store.shrinkPeer json peerId peer id).peerOrder = store.peerOrder := by
  simp [shrinkPeer]

theorem Tabled.shrinkPeer (h : store.Tabled json) (hpeer : store.peers.lookup peerId = some peer)
    (id : String) : (store.shrinkPeer json peerId peer id).Tabled json := by
  have hmem := Finmap.mem_of_lookup_eq_some hpeer
  refine ⟨?_, ?_, fun {other peer'} hpeer' => ?_⟩
  · rw [shrinkPeer_peers, shrinkPeer_peerOrder]
    exact h.enumerates.replace hmem _
  · rw [shrinkPeer_peers, shrinkPeer_limits, Finmap.size_insert_of_mem hmem]
    exact h.size_le
  · rw [shrinkPeer_limits]
    rw [shrinkPeer_peers, Finmap.lookup_insert_eq_some] at hpeer'
    rcases hpeer' with ⟨rfl, rfl⟩ | ⟨_, hother⟩
    · exact (h.peers hpeer).remove id
    · exact h.peers hother

variable (json) in
/-- The weight goes down by what was removed. -/
theorem weight_shrinkPeer (hpeer : store.peers.lookup peerId = some peer) (id : String)
    (counter : RetainedCounter) :
    (store.shrinkPeer json peerId peer id).weight json counter
      + (peer.remove id).1.elim 0 (·.weight json counter) = store.weight json counter := by
  have hremove := PeerSubscriptionSet.weight_remove json peer id counter
  rw [weight, weight, shrinkPeer_peers, Finmap.total_insert, Finmap.total_eq_add_erase _ hpeer]
  omega

theorem FitsUsize.shrinkPeer (hfits : store.FitsUsize json)
    (hpeer : store.peers.lookup peerId = some peer) (id : String) :
    (store.shrinkPeer json peerId peer id).FitsUsize json := by
  intro counter
  have hweight := weight_shrinkPeer json hpeer id counter
  have hbefore := hfits counter
  omega

theorem Exact.shrinkPeer (hexact : store.Exact json) (h : store.Tabled json)
    (hfits : store.FitsUsize json) (hpeer : store.peers.lookup peerId = some peer) (id : String) :
    (store.shrinkPeer json peerId peer id).Exact json := by
  obtain ⟨hcount, hcounters⟩ := exact_iff.mp hexact
  refine exact_iff.mpr ⟨?_, fun counter => ?_⟩
  · rw [shrinkPeer_peers, Finmap.size_insert_of_mem (Finmap.mem_of_lookup_eq_some hpeer), ← hcount,
      PubsubPeerSubscriptionStore.shrinkPeer, subtractAll_peerCount]
  · have hweight := weight_shrinkPeer json hpeer id counter
    have hbefore := hfits counter
    have hremoved := elim_subtracted_eq
      (fun old (hold : (peer.remove id).1 = some old) => ⟨id, (h.peers hpeer).subscriptions hold⟩)
      counter (by omega)
    rw [PubsubPeerSubscriptionStore.shrinkPeer, subtractAll_get, sum_toList, hremoved,
      hcounters, ← PubsubPeerSubscriptionStore.shrinkPeer]
    omega

end Shrink

/-- Removing a subscription keeps the books. -/
theorem Bookkept.remove (h : store.Bookkept json) (peerId id : String) :
    (store.remove json peerId id).2.Bookkept json := by
  rw [PubsubPeerSubscriptionStore.remove]
  cases hpeer : store.peers.lookup peerId with
  | none => exact h
  | some peer =>
    have hshrunk := h.toTabled.shrinkPeer hpeer id
    simp only
    split
    · refine ⟨hshrunk.removePeer peerId, fun {other peer'} hpeer' => ?_⟩
      -- The peer went with its last subscription; the others are as before.
      rw [removePeer_peers, shrinkPeer_peers, Finmap.lookup_erase_eq_some] at hpeer'
      rw [Finmap.lookup_insert_of_ne _ hpeer'.1] at hpeer'
      exact h.nonempty hpeer'.2
    · next hleft =>
      refine ⟨hshrunk, fun {other peer'} hpeer' => ?_⟩
      rw [shrinkPeer_peers, Finmap.lookup_insert_eq_some] at hpeer'
      rcases hpeer' with ⟨rfl, rfl⟩ | ⟨_, hother⟩
      · exact Nat.pos_of_ne_zero hleft
      · exact h.nonempty hother

theorem Exact.remove (hexact : store.Exact json) (h : store.Bookkept json)
    (hfits : store.FitsUsize json) (peerId id : String) :
    (store.remove json peerId id).2.Exact json := by
  rw [PubsubPeerSubscriptionStore.remove]
  cases hpeer : store.peers.lookup peerId with
  | none => exact hexact
  | some peer =>
    have hshrunk := hexact.shrinkPeer h.toTabled hfits hpeer id
    simp only
    split
    · exact hshrunk.removePeer (h.toTabled.shrinkPeer hpeer id) (hfits.shrinkPeer hpeer id) peerId
    · exact hshrunk

end PubsubPeerSubscriptionStore

end NostrPubsub
