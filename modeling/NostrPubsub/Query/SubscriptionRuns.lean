import NostrPubsub.Query.Bookkeeping

/-!
# Runs of the store of peer subscriptions

The operations of `PubsubPeerSubscriptionStore` as one step function, and what holds in every
state it reaches. The upserts that succeeded are logged as pairs of a peer and a subscription
id; the queues of the store are in the order of this log (`ByRecency`), so that an eviction
takes what was upserted least recently (`EvictsLeastRecent`).
-/

namespace NostrPubsub

/-- An operation of the store. -/
inductive SubscriptionOp where
  | upsert (peerId : String) (subscription : PubsubPeerSubscription)
  | upsertFilters (peerId subscriptionId : String) (filters : List Filter)
  | applyClientMessage (peerId : String) (message : ClientMessage)
  | remove (peerId subscriptionId : String)
  | removePeer (peerId : String)

/-- What an operation returns. -/
inductive SubscriptionReply where
  | upserted (result : Except PubsubError (Option PubsubPeerSubscription))
  | applied (result : Except PubsubError PubsubSubscriptionUpdate)
  | removed (removed : Option PubsubPeerSubscription)
  | removedPeer (removed : List PubsubPeerSubscription)

/-- The operation returned an error. -/
def SubscriptionReply.IsErr : SubscriptionReply → Prop
  | .upserted (.error _) => True
  | .applied (.error _) => True
  | _ => False

/-- The peer and the subscription that an operation upserted. -/
def SubscriptionOp.upserts : SubscriptionOp → SubscriptionReply → Option (String × String)
  | .upsert peerId subscription, .upserted (.ok _) => some (peerId, subscription.subscriptionId)
  | .upsertFilters peerId subscriptionId _, .upserted (.ok _) => some (peerId, subscriptionId)
  | .applyClientMessage peerId (.req subscriptionId _), .applied (.ok _) =>
    some (peerId, subscriptionId)
  | _, _ => none

namespace PubsubPeerSubscriptionStore

variable (json : SubscriptionJson)

/-- One operation. -/
def step (op : SubscriptionOp) (store : PubsubPeerSubscriptionStore) :
    SubscriptionReply × PubsubPeerSubscriptionStore :=
  match op with
  | .upsert peerId subscription =>
    let result := store.upsert json peerId subscription
    (.upserted result.1, result.2)
  | .upsertFilters peerId subscriptionId filters =>
    let result := store.upsertFilters json peerId subscriptionId filters
    (.upserted result.1, result.2)
  | .applyClientMessage peerId message =>
    let result := store.applyClientMessage json peerId message
    (.applied result.1, result.2)
  | .remove peerId subscriptionId =>
    let result := store.remove json peerId subscriptionId
    (.removed result.1, result.2)
  | .removePeer peerId =>
    let result := store.removePeer json peerId
    (.removedPeer result.1, result.2)

/-- The successful upserts of a run, in order. -/
def upsertLog : PubsubPeerSubscriptionStore → List SubscriptionOp → List (String × String)
  | _, [] => []
  | store, op :: rest =>
    (op.upserts (step json op store).1).toList ++ upsertLog (step json op store).2 rest

/-- The ids that a peer upserted, in order. -/
def upsertedBy (log : List (String × String)) (peerId : String) : List String :=
  (log.filter fun entry => entry.1 = peerId).map (·.2)

variable {json} {store : PubsubPeerSubscriptionStore}

theorem upsertLog_concat (ops : List SubscriptionOp) (op : SubscriptionOp) :
    upsertLog json store (ops ++ [op]) = upsertLog json store ops
      ++ (op.upserts (step json op (Mealy.after (step json) store ops)).1).toList := by
  induction ops generalizing store with
  | nil => simp [upsertLog]
  | cons first rest ih =>
    rw [List.cons_append, upsertLog, ih, upsertLog, List.append_assoc, Mealy.after_cons]

theorem upsertedBy_concat_self (log : List (String × String)) (peerId id : String) :
    upsertedBy (log ++ [(peerId, id)]) peerId = upsertedBy log peerId ++ [id] := by
  simp [upsertedBy]

theorem upsertedBy_concat_of_ne (log : List (String × String)) {peerId other : String}
    (h : other ≠ peerId) (id : String) :
    upsertedBy (log ++ [(peerId, id)]) other = upsertedBy log other := by
  simp [upsertedBy, h.symm]

/-! ## What a step can do -/

/-- The ways an operation changes the store. -/
inductive Stepped (json : SubscriptionJson) (store : PubsubPeerSubscriptionStore) :
    Option (String × String) → PubsubPeerSubscriptionStore → Prop where
  /-- The operation failed or had nothing to do. -/
  | unchanged : Stepped json store none store
  | accepted (peerId : String) {subscription : PubsubPeerSubscription}
      {added : SubscriptionContribution} (hpeers : 0 < store.limits.maxPeers)
      (hsubscriptions : 0 < store.limits.maxSubscriptionsPerPeer)
      (hfilters : subscription.filters.length ≤ store.limits.maxFiltersPerSubscription)
      (hadded : subscriptionContribution json subscription = .ok added) :
      Stepped json store (some (peerId, subscription.subscriptionId))
        (store.accept json peerId subscription added).2
  | removed (peerId id : String) : Stepped json store none (store.remove json peerId id).2
  | removedPeer (peerId : String) : Stepped json store none (store.removePeer json peerId).2

variable (json store) in
/-- An upsert fails and changes nothing, or passes its checks and is accepted. -/
theorem upsert_cases (peerId : String) (subscription : PubsubPeerSubscription) :
    (∃ error, store.upsert json peerId subscription = (.error error, store))
    ∨ ∃ added, 0 < store.limits.maxPeers ∧ 0 < store.limits.maxSubscriptionsPerPeer
      ∧ subscription.filters.length ≤ store.limits.maxFiltersPerSubscription
      ∧ subscriptionContribution json subscription = .ok added
      ∧ store.upsert json peerId subscription
        = (.ok (store.accept json peerId subscription added).1,
          (store.accept json peerId subscription added).2) := by
  unfold upsert
  split
  · exact .inl ⟨_, rfl⟩
  · next hpeers =>
    split
    · exact .inl ⟨_, rfl⟩
    · next hsubscriptions =>
      split
      · exact .inl ⟨_, rfl⟩
      · next hfilters =>
        cases hadded : subscriptionContribution json subscription with
        | error error => exact .inl ⟨error, rfl⟩
        | ok added =>
          exact .inr ⟨added, Nat.pos_of_ne_zero hpeers, Nat.pos_of_ne_zero hsubscriptions,
            Nat.le_of_not_lt hfilters, rfl, rfl⟩

variable (json store) in
theorem step_stepped (op : SubscriptionOp) :
    Stepped json store (op.upserts (step json op store).1) (step json op store).2 := by
  cases op with
  | upsert peerId subscription =>
    rcases upsert_cases json store peerId subscription with
      ⟨error, herror⟩ | ⟨added, hpeers, hsubscriptions, hfilters, hadded, hok⟩
    · simp only [step, herror]
      exact .unchanged
    · simp only [step, hok]
      exact .accepted peerId hpeers hsubscriptions hfilters hadded
  | upsertFilters peerId subscriptionId filters =>
    rcases upsert_cases json store peerId { subscriptionId, filters } with
      ⟨error, herror⟩ | ⟨added, hpeers, hsubscriptions, hfilters, hadded, hok⟩
    · simp only [step, upsertFilters, herror]
      exact .unchanged
    · simp only [step, upsertFilters, hok]
      exact .accepted peerId hpeers hsubscriptions hfilters hadded
  | applyClientMessage peerId message =>
    cases message with
    | req subscriptionId filters =>
      rcases upsert_cases json store peerId { subscriptionId, filters } with
        ⟨error, herror⟩ | ⟨added, hpeers, hsubscriptions, hfilters, hadded, hok⟩
      · simp only [step, applyClientMessage, upsertFilters, herror]
        exact .unchanged
      · simp only [step, applyClientMessage, upsertFilters, hok]
        exact .accepted peerId hpeers hsubscriptions hfilters hadded
    | close subscriptionId => exact .removed peerId subscriptionId
    | other => exact .unchanged
  | remove peerId subscriptionId => exact .removed peerId subscriptionId
  | removePeer peerId => exact .removedPeer peerId

theorem upsert_of_error {peerId : String} {subscription : PubsubPeerSubscription}
    {error : PubsubError} (h : (store.upsert json peerId subscription).1 = .error error) :
    (store.upsert json peerId subscription).2 = store := by
  rcases upsert_cases json store peerId subscription with ⟨_, herror⟩ | ⟨_, _, _, _, _, hok⟩
  · rw [herror]
  · rw [hok] at h
    cases h

/-- An operation that returns an error changes nothing. -/
theorem step_of_isErr {op : SubscriptionOp} (h : (step json op store).1.IsErr) :
    (step json op store).2 = store := by
  cases op with
  | upsert peerId subscription =>
    cases hresult : (store.upsert json peerId subscription).1 with
    | error error => exact upsert_of_error hresult
    | ok evicted => simp [step, hresult, SubscriptionReply.IsErr] at h
  | upsertFilters peerId subscriptionId filters =>
    cases hresult : (store.upsert json peerId { subscriptionId, filters }).1 with
    | error error => exact upsert_of_error hresult
    | ok evicted => simp [step, upsertFilters, hresult, SubscriptionReply.IsErr] at h
  | applyClientMessage peerId message =>
    cases message with
    | req subscriptionId filters =>
      cases hresult : (store.upsert json peerId { subscriptionId, filters }).1 with
      | error error => exact upsert_of_error hresult
      | ok evicted =>
        simp [step, applyClientMessage, upsertFilters, hresult, Except.map,
          SubscriptionReply.IsErr] at h
    | close subscriptionId => exact absurd h id
    | other => rfl
  | remove peerId subscriptionId => exact absurd h id
  | removePeer peerId => exact absurd h id

/-! ## Invariants of a step -/

theorem Stepped.limits_eq {upserted : Option (String × String)}
    {next : PubsubPeerSubscriptionStore} (hstep : Stepped json store upserted next)
    (h : store.Bookkept json) : next.limits = store.limits := by
  cases hstep with
  | unchanged => rfl
  | accepted peerId hpeers _ _ hadded =>
    obtain ⟨evictedPeer, haccepted⟩ := accept_accepted h hpeers peerId _ _
    exact haccepted.limits_eq
  | removed peerId id =>
    rw [remove]
    cases store.peers.lookup peerId with
    | none => rfl
    | some peer =>
      simp only
      split
      · rw [removePeer_limits, shrinkPeer_limits]
      · rw [shrinkPeer_limits]
  | removedPeer peerId => exact removePeer_limits store peerId

theorem Stepped.bookkept {upserted : Option (String × String)}
    {next : PubsubPeerSubscriptionStore} (hstep : Stepped json store upserted next)
    (h : store.Bookkept json) : next.Bookkept json := by
  cases hstep with
  | unchanged => exact h
  | accepted peerId hpeers hsubscriptions hfilters hadded =>
    obtain ⟨evictedPeer, haccepted⟩ := accept_accepted h hpeers peerId _ _
    exact haccepted.bookkept h hsubscriptions ⟨rfl, hfilters, _, hadded⟩
  | removed peerId id => exact h.remove peerId id
  | removedPeer peerId => exact h.removePeer peerId

theorem Stepped.exact {upserted : Option (String × String)}
    {next : PubsubPeerSubscriptionStore} (hstep : Stepped json store upserted next)
    (h : store.Bookkept json) (hfits : store.FitsUsize json) (hfits' : next.FitsUsize json)
    (hexact : store.Exact json) : next.Exact json := by
  cases hstep with
  | unchanged => exact hexact
  | accepted peerId hpeers hsubscriptions hfilters hadded =>
    obtain ⟨evictedPeer, haccepted⟩ := accept_accepted h hpeers peerId _ _
    exact haccepted.exact h hsubscriptions hadded hfits hfits' hexact
  | removed peerId id => exact hexact.remove h hfits peerId id
  | removedPeer peerId => exact hexact.removePeer h.toTabled hfits peerId

/-! ## Recency -/

/-- The queues are in the order of the last upsert. -/
structure ByRecency (log : List (String × String)) (store : PubsubPeerSubscriptionStore) :
    Prop where
  peers : InOrderOfUse (log.map (·.1)) store.peerOrder
  subscriptions : ∀ {peerId peer}, store.peers.lookup peerId = some peer →
    InOrderOfUse (upsertedBy log peerId) peer.order

namespace ByRecency

variable {log : List (String × String)}

theorem peerOrDefault (h : ByRecency log store) (peerId : String) :
    InOrderOfUse (upsertedBy log peerId) (store.peerOrDefault peerId).order := by
  rw [PubsubPeerSubscriptionStore.peerOrDefault]
  cases hpeer : store.peers.lookup peerId with
  | none => exact List.Pairwise.nil
  | some peer => exact h.subscriptions hpeer

/-- An accepted upsert puts its peer and its subscription last. -/
theorem accepted (h : ByRecency log store) (hbook : store.Bookkept json)
    (hlimit : 0 < store.limits.maxSubscriptionsPerPeer) {peerId : String}
    {subscription : PubsubPeerSubscription} {added : SubscriptionContribution}
    {evictedPeer : Option PeerSubscriptionSet} {next : PubsubPeerSubscriptionStore}
    (haccepted : Accepted json store peerId subscription added evictedPeer next) :
    ByRecency (log ++ [(peerId, subscription.subscriptionId)]) next := by
  have hput := Accepted.put_subscription hbook hlimit peerId subscription
  refine ⟨?_, fun {other peer} hpeer => ?_⟩
  · rw [List.map_append, List.map_singleton]
    exact haccepted.put.inOrderOfUse hbook.enumerates h.peers
  · by_cases hother : other = peerId
    · subst hother
      rw [haccepted.put.lookup_self, Option.some.injEq] at hpeer
      rw [upsertedBy_concat_self, ← hpeer]
      exact hput.inOrderOfUse (hbook.peerOrDefault other).enumerates (h.peerOrDefault other)
    · rw [upsertedBy_concat_of_ne log hother]
      exact h.subscriptions (haccepted.put.lookup_of_ne hother hpeer)

theorem removePeer (h : ByRecency log store) (peerId : String) :
    ByRecency log (store.removePeer json peerId).2 := by
  refine ⟨?_, fun hpeer => ?_⟩
  · rw [removePeer_peerOrder]
    exact h.peers.sublist List.filter_sublist
  · rw [removePeer_peers] at hpeer
    exact h.subscriptions (Finmap.lookup_erase_eq_some.mp hpeer).2

theorem shrinkPeer (h : ByRecency log store) {peerId : String} {peer : PeerSubscriptionSet}
    (hpeer : store.peers.lookup peerId = some peer) (id : String) :
    ByRecency log (store.shrinkPeer json peerId peer id) := by
  refine ⟨?_, fun {other peer'} hpeer' => ?_⟩
  · rw [shrinkPeer_peerOrder]
    exact h.peers
  · rw [shrinkPeer_peers, Finmap.lookup_insert_eq_some] at hpeer'
    rcases hpeer' with ⟨rfl, rfl⟩ | ⟨_, hother⟩
    · exact (h.subscriptions hpeer).sublist List.filter_sublist
    · exact h.subscriptions hother

theorem remove (h : ByRecency log store) (peerId id : String) :
    ByRecency log (store.remove json peerId id).2 := by
  rw [PubsubPeerSubscriptionStore.remove]
  cases hpeer : store.peers.lookup peerId with
  | none => exact h
  | some peer =>
    simp only
    split
    · exact (h.shrinkPeer hpeer id).removePeer peerId
    · exact h.shrinkPeer hpeer id

end ByRecency

theorem Stepped.byRecency {upserted : Option (String × String)}
    {next : PubsubPeerSubscriptionStore} (hstep : Stepped json store upserted next)
    (h : store.Bookkept json) {log : List (String × String)} (hrecency : ByRecency log store) :
    ByRecency (log ++ upserted.toList) next := by
  cases hstep with
  | unchanged =>
    rw [Option.toList_none, List.append_nil]
    exact hrecency
  | accepted peerId hpeers hsubscriptions hfilters hadded =>
    obtain ⟨evictedPeer, haccepted⟩ := accept_accepted h hpeers peerId _ _
    exact hrecency.accepted h hsubscriptions haccepted
  | removed peerId id =>
    rw [Option.toList_none, List.append_nil]
    exact hrecency.remove peerId id
  | removedPeer peerId =>
    rw [Option.toList_none, List.append_nil]
    exact hrecency.removePeer peerId

/-! ## Evictions -/

/-- What an upsert of a subscription of a peer evicts, given the upserts before it. -/
structure EvictsLeastRecent (log : List (String × String))
    (store next : PubsubPeerSubscriptionStore) (peerId id : String) : Prop where
  /-- The subscription is stored. -/
  stored : ∃ peer subscription, next.peers.lookup peerId = some peer
    ∧ peer.subscriptions.lookup id = some subscription
  /-- A peer goes exactly if the upserting one is new, the store is full and this one was
  upserted least recently. -/
  peer_iff : ∀ other ∈ store.peers, other ∉ next.peers ↔
    peerId ∉ store.peers ∧ store.limits.maxPeers ≤ store.peers.size
      ∧ LeastRecent (log.map (·.1)) store.peers other
  /-- The other peers that stay are unchanged. -/
  peer_eq : ∀ other peer, other ≠ peerId → next.peers.lookup other = some peer →
    store.peers.lookup other = some peer
  /-- A subscription of the peer goes exactly if the upserted one is new, the peer is full and
  this one was upserted least recently. -/
  subscription_iff : ∀ before after, store.peers.lookup peerId = some before →
    next.peers.lookup peerId = some after → ∀ other ∈ before.subscriptions,
      other ∉ after.subscriptions ↔ id ∉ before.subscriptions
        ∧ store.limits.maxSubscriptionsPerPeer ≤ before.subscriptions.size
        ∧ LeastRecent (upsertedBy log peerId) before.subscriptions other
  /-- The other subscriptions of the peer were there before. -/
  subscription_eq : ∀ after, next.peers.lookup peerId = some after → ∀ other subscription,
    other ≠ id → after.subscriptions.lookup other = some subscription →
      ∃ before, store.peers.lookup peerId = some before
        ∧ before.subscriptions.lookup other = some subscription

theorem Stepped.evictsLeastRecent {peerId id : String} {next : PubsubPeerSubscriptionStore}
    (hstep : Stepped json store (some (peerId, id)) next) (h : store.Bookkept json)
    {log : List (String × String)} (hrecency : ByRecency log store) :
    EvictsLeastRecent log store next peerId id := by
  cases hstep with
  | @accepted _ subscription added hpeers hsubscriptions hfilters hadded =>
    obtain ⟨evictedPeer, haccepted⟩ := accept_accepted h hpeers peerId subscription added
    have hput := Accepted.put_subscription h hsubscriptions peerId subscription
    refine ⟨⟨_, _, haccepted.put.lookup_self, hput.lookup_self⟩,
      fun other hother => haccepted.put.notMem_iff h.enumerates hrecency.peers hother,
      fun other peer hne hpeer => haccepted.put.lookup_of_ne hne hpeer, ?_, ?_⟩
    · intro before after hbefore hafter other hother
      rw [haccepted.put.lookup_self, Option.some.injEq] at hafter
      have hdefault : store.peerOrDefault peerId = before := by simp [peerOrDefault, hbefore]
      rw [hdefault] at hput hafter
      rw [← hafter]
      exact hput.notMem_iff (h.peers hbefore).enumerates (hrecency.subscriptions hbefore) hother
    · intro after hafter other subscription' hne hlookup
      rw [haccepted.put.lookup_self, Option.some.injEq] at hafter
      rw [← hafter] at hlookup
      have hbefore := hput.lookup_of_ne hne hlookup
      -- A new peer starts without subscriptions, so this one is known.
      cases hpeer : store.peers.lookup peerId with
      | none => simp [peerOrDefault, hpeer, PeerSubscriptionSet.empty] at hbefore
      | some before => exact ⟨before, rfl, by simpa [peerOrDefault, hpeer] using hbefore⟩

/-! ## Runs -/

variable (json) (limits : PubsubSubscriptionLimits)

/-- The store after a list of operations on a new one. -/
def afterOps (ops : List SubscriptionOp) : PubsubPeerSubscriptionStore :=
  Mealy.after (step json) (new limits) ops

theorem run_bookkept (ops : List SubscriptionOp) :
    (afterOps json limits ops).Bookkept json ∧ (afterOps json limits ops).limits = limits
      ∧ ByRecency (upsertLog json (new limits) ops) (afterOps json limits ops) := by
  refine Mealy.history (I := fun ops store => store.Bookkept json ∧ store.limits = limits
    ∧ ByRecency (upsertLog json (new limits) ops) store) ?_ ?_ ops
  · refine ⟨new_bookkept json limits, rfl, List.Pairwise.nil, fun hpeer => ?_⟩
    simp [new] at hpeer
  · rintro ops op ⟨hbook, hlimits, hrecency⟩
    have hstep := step_stepped json (Mealy.after (step json) (new limits) ops) op
    rw [upsertLog_concat]
    exact ⟨hstep.bookkept hbook, (hstep.limits_eq hbook).trans hlimits,
      hstep.byRecency hbook hrecency⟩

/-- The counters are exact after every run along which they fit. -/
theorem run_exact (ops : List SubscriptionOp)
    (hfits : ∀ earlier, earlier <+: ops → (afterOps json limits earlier).FitsUsize json) :
    (afterOps json limits ops).Exact json := by
  induction ops using List.reverseRecOn with
  | nil => exact new_exact json limits
  | append_singleton ops op ih =>
    have hearlier : ops <+: ops ++ [op] := List.prefix_append ops [op]
    have hexact := ih fun earlier h => hfits earlier (h.trans hearlier)
    have hstep := step_stepped json (afterOps json limits ops) op
    have hnext : afterOps json limits (ops ++ [op])
        = (step json op (afterOps json limits ops)).2 := Mealy.after_concat _ _ _ _
    have hfits' := hfits (ops ++ [op]) (List.prefix_refl _)
    rw [hnext] at hfits' ⊢
    exact hstep.exact (run_bookkept json limits ops).1 (hfits ops hearlier) hfits' hexact

/-- After every run of operations on a new store, whatever its limits: the counters are those of
a count from scratch unless one left the range of a `usize` on the way; the queues list the
peers and the subscriptions of each, each once; no peer is without subscriptions and no limit
is exceeded; a further upsert evicts the least recently upserted peer, or subscription of its
peer, or nothing; and an operation that fails changes nothing. -/
theorem bookkeeping (ops : List SubscriptionOp) :
    ((∀ earlier, earlier <+: ops → (afterOps json limits earlier).FitsUsize json) →
      (afterOps json limits ops).retained = (afterOps json limits ops).recomputed json)
    ∧ Enumerates (afterOps json limits ops).peerOrder (afterOps json limits ops).peers
    ∧ (afterOps json limits ops).peers.size ≤ limits.maxPeers
    ∧ (∀ peerId peer, (afterOps json limits ops).peers.lookup peerId = some peer →
      Enumerates peer.order peer.subscriptions ∧ 0 < peer.subscriptions.size
      ∧ peer.subscriptions.size ≤ limits.maxSubscriptionsPerPeer
      ∧ ∀ id subscription, peer.subscriptions.lookup id = some subscription →
        subscription.subscriptionId = id
        ∧ subscription.filters.length ≤ limits.maxFiltersPerSubscription)
    ∧ (∀ op peerId id,
      op.upserts (step json op (afterOps json limits ops)).1 = some (peerId, id) →
        EvictsLeastRecent (upsertLog json (new limits) ops) (afterOps json limits ops)
          (step json op (afterOps json limits ops)).2 peerId id)
    ∧ ∀ op, (step json op (afterOps json limits ops)).1.IsErr →
      (step json op (afterOps json limits ops)).2 = afterOps json limits ops := by
  obtain ⟨hbook, hlimits, hrecency⟩ := run_bookkept json limits ops
  refine ⟨fun hfits => run_exact json limits ops hfits, hbook.enumerates, ?_, ?_, ?_,
    fun op => step_of_isErr⟩
  · have hsize := hbook.size_le
    rwa [hlimits] at hsize
  · intro peerId peer hpeer
    have hpeerBook := hbook.peers hpeer
    rw [hlimits] at hpeerBook
    refine ⟨hpeerBook.enumerates, hbook.nonempty hpeer, hpeerBook.size_le, ?_⟩
    intro id subscription hsubscription
    have hsub := hpeerBook.subscriptions hsubscription
    exact ⟨hsub.subscriptionId_eq, hsub.filters_le⟩
  · intro op peerId id hupserts
    have hstep := step_stepped json (afterOps json limits ops) op
    rw [hupserts] at hstep
    exact hstep.evictsLeastRecent hbook hrecency

/-- The encoding of filters without criteria, and of requests with them. -/
def plainJson : SubscriptionJson where
  filter := fun _ => .ok "\x7b\x7d"
  req := fun id filters =>
    .ok ("[\"REQ\",\"" ++ id ++ "\"" ++ String.join (filters.map fun _ => ",\x7b\x7d") ++ "]")

/-- `Filter::new`. -/
def anyFilter : Filter where
  criteria := fun _ => true
  since := none
  until_ := none
  limit := none

/-- A peer replaces a subscription and opens another one, then a second peer takes its place. -/
def spamOps : List SubscriptionOp :=
  [.upsertFilters "a" "x" [anyFilter], .upsertFilters "a" "x" [anyFilter, anyFilter],
    .applyClientMessage "a" (.req "y" [anyFilter]), .upsertFilters "b" "x" [anyFilter]]

/-- The counters stay exact over a replacement, the eviction of a subscription and that of a
peer. -/
theorem bookkeeping_spamOps :
    (∀ earlier, earlier <+: spamOps →
      (afterOps plainJson ⟨1, 1, 2⟩ earlier).FitsUsize plainJson)
    ∧ (afterOps plainJson ⟨1, 1, 2⟩ spamOps).retained
      = (afterOps plainJson ⟨1, 1, 2⟩ spamOps).recomputed plainJson := by
  have hfits : ∀ earlier, earlier <+: spamOps →
      (afterOps plainJson ⟨1, 1, 2⟩ earlier).FitsUsize plainJson := by
    intro earlier hearlier counter
    rw [← List.mem_inits] at hearlier
    simp only [spamOps, List.inits, List.map_cons, List.map_nil, List.mem_cons, List.not_mem_nil,
      or_false] at hearlier
    rcases hearlier with rfl | rfl | rfl | rfl | rfl <;> cases counter <;> decide +kernel
  exact ⟨hfits, (bookkeeping plainJson ⟨1, 1, 2⟩ spamOps).1 hfits⟩

end PubsubPeerSubscriptionStore

end NostrPubsub
