import Mathlib.Algebra.Order.BigOperators.Group.Finset
import NostrPubsub.Core
import NostrPubsub.ToMathlib.Fifo
import NostrPubsub.ToMathlib.Mealy

/-!
# Bounded observations of event ids

`seen_ids.rs` of the FIPS client. An event id is observed in the scope of a peer and a
subscription. Each scope keeps a window of its latest ids, and a global queue bounds all of them
together. Records in the global queue are not removed when their scope drops an id: a generation
number tells the live ones from the stale ones.

`Reference` is the behaviour this is meant to have: one list of observations, from which the
oldest of a scope and the oldest of all are dropped.
-/

namespace NostrPubsub.Fips

/-- `ObservationScope`. -/
structure ObservationScope where
  peerNpub : String
  subscriptionId : String
  deriving DecidableEq, Repr

/-- `IdObservation`. -/
@[ext]
structure IdObservation where
  generation : ℕ
  matchedSubscription : Bool
  deriving DecidableEq, Repr

/-- `IdWindow`. -/
structure IdWindow where
  ids : Table IdObservation
  order : List (String × ℕ)

/-- `IdWindow::default`. -/
def IdWindow.default : IdWindow := ⟨∅, []⟩

/-- `Observation`. -/
structure Observation where
  first : Bool
  previouslyMatched : Bool
  deriving DecidableEq, Repr

/-- The windows of all scopes. -/
abbrev Scopes := Finmap fun _ : ObservationScope => IdWindow

/-- `ScopedSeenIds`. -/
structure ScopedSeenIds where
  maxPerScope : ℕ
  maxTotal : ℕ
  nextGeneration : ℕ
  total : ℕ
  scopes : Scopes
  globalOrder : List (ObservationScope × String × ℕ)

/-- The observation of an id in a scope. -/
def Scopes.observation (scopes : Scopes) (scope : ObservationScope) (eventId : String) :
    Option IdObservation :=
  (scopes.lookup scope).bind fun window => window.ids.lookup eventId

/-- The id is live in the scope, under this generation. -/
def Scopes.Live (scopes : Scopes) (record : ObservationScope × String × ℕ) : Prop :=
  (scopes.observation record.1 record.2.1).map IdObservation.generation = some record.2.2
  deriving Decidable

/-- `wrapping_add(1).max(1)` on a `u64`. -/
def nextGeneration (generation : ℕ) : ℕ := max ((generation + 1) % 2 ^ 64) 1

/-- The loop over `window.order` after an insertion, with the number of live ids. -/
def evictScope (maxPerScope : ℕ) :
    List (String × ℕ) → Table IdObservation → (total : ℕ) → IdWindow × ℕ
  | [], ids, total => (⟨ids, []⟩, total)
  | (oldest, generation) :: rest, ids, total =>
    if maxPerScope < ids.size then
      if (ids.lookup oldest).map IdObservation.generation = some generation then
        evictScope maxPerScope rest (ids.erase oldest) (total - 1)
      else evictScope maxPerScope rest ids total
    else (⟨ids, (oldest, generation) :: rest⟩, total)

/-- A window without the id, its order starting at a live one. -/
def IdWindow.remove (window : IdWindow) (eventId : String) : IdWindow :=
  let ids := window.ids.erase eventId
  ⟨ids, window.order.dropWhile fun record =>
    (ids.lookup record.1).map IdObservation.generation ≠ some record.2⟩

/-- The loop over `global_order` in `evict_global`. -/
def evictGlobalLoop (maxTotal : ℕ) : List (ObservationScope × String × ℕ) → Scopes → (total : ℕ) →
    List (ObservationScope × String × ℕ) × Scopes × ℕ
  | [], scopes, total => ([], scopes, total)
  | (scope, eventId, generation) :: rest, scopes, total =>
    if maxTotal < total then
      match scopes.lookup scope with
      | some window =>
        if (window.ids.lookup eventId).map IdObservation.generation = some generation then
          let window := window.remove eventId
          if window.ids.size = 0 then
            evictGlobalLoop maxTotal rest (scopes.erase scope) (total - 1)
          else evictGlobalLoop maxTotal rest (scopes.insert scope window) (total - 1)
        else evictGlobalLoop maxTotal rest scopes total
      | none => evictGlobalLoop maxTotal rest scopes total
    else ((scope, eventId, generation) :: rest, scopes, total)

namespace ScopedSeenIds

/-- `ScopedSeenIds::new`. -/
def new (maxPerScope maxTotal : ℕ) : ScopedSeenIds := ⟨maxPerScope, maxTotal, 1, 0, ∅, []⟩

/-- `evict_global`: drop the oldest ids over the limit, then compact the queue. -/
def evictGlobal (seen : ScopedSeenIds) : ScopedSeenIds :=
  let (globalOrder, scopes, total) :=
    evictGlobalLoop seen.maxTotal seen.globalOrder seen.scopes seen.total
  let globalOrder :=
    if satMul seen.maxTotal 2 < globalOrder.length then globalOrder.filter fun r => scopes.Live r
    else globalOrder
  { seen with globalOrder, scopes, total }

/-- `observe_with_match`. -/
def observeWithMatch (peerNpub subscriptionId eventId : String) (matchedSubscription : Bool)
    (seen : ScopedSeenIds) : Observation × ScopedSeenIds :=
  let scope : ObservationScope := ⟨peerNpub, subscriptionId⟩
  let window := (seen.scopes.lookup scope).getD IdWindow.default
  match window.ids.lookup eventId with
  | some previous =>
    (⟨false, previous.matchedSubscription⟩,
      { seen with scopes := seen.scopes.insert scope window })
  | none =>
    let generation := seen.nextGeneration
    let (window, total) := evictScope seen.maxPerScope (window.order ++ [(eventId, generation)])
      (window.ids.insert eventId ⟨generation, matchedSubscription⟩) (seen.total + 1)
    (⟨true, false⟩, evictGlobal { seen with
      nextGeneration := Fips.nextGeneration generation
      total
      scopes := seen.scopes.insert scope window
      globalOrder := seen.globalOrder ++ [(scope, eventId, generation)] })

/-- `observe`. -/
def observe (peerNpub subscriptionId eventId : String) (seen : ScopedSeenIds) :
    Bool × ScopedSeenIds :=
  let (observation, seen) := seen.observeWithMatch peerNpub subscriptionId eventId false
  (observation.first, seen)

/-- `observe_response`. -/
def observeResponse (peerNpub : String) (wireSubscription : Option String)
    (responseSubscription eventId : String) (matchedSubscription : Bool) (seen : ScopedSeenIds) :
    Observation × ScopedSeenIds :=
  let seen := match wireSubscription with
    | some wire =>
      if wire ≠ responseSubscription then
        (seen.observeWithMatch peerNpub wire eventId matchedSubscription).2
      else seen
    | none => seen
  seen.observeWithMatch peerNpub responseSubscription eventId matchedSubscription

/-- `clear_peer` and `clear_subscription`, for the scopes that are to go. -/
def clearScopes (cleared : ObservationScope → Bool) (seen : ScopedSeenIds) : ScopedSeenIds :=
  let removed := (seen.scopes.filter fun scope _ => cleared scope).total fun _ window => window.ids.size
  { seen with
    scopes := seen.scopes.filter fun scope _ => !cleared scope
    total := seen.total - removed
    globalOrder := seen.globalOrder.filter fun record => !cleared record.1 }

/-- `clear_peer`. -/
def clearPeer (peerNpub : String) : ScopedSeenIds → ScopedSeenIds :=
  clearScopes fun scope => scope.peerNpub = peerNpub

/-- `clear_subscription`. -/
def clearSubscription (subscriptionId : String) : ScopedSeenIds → ScopedSeenIds :=
  clearScopes fun scope => scope.subscriptionId = subscriptionId

/-- The window of a scope, whether it is there or not, holds the ids observed in the scope. -/
theorem lookup_window (seen : ScopedSeenIds) (scope : ObservationScope) (eventId : String) :
    ((seen.scopes.lookup scope).getD IdWindow.default).ids.lookup eventId
      = seen.scopes.observation scope eventId := by
  rw [Scopes.observation]
  cases seen.scopes.lookup scope with
  | none => simp [IdWindow.default]
  | some window => rfl

theorem observeWithMatch_of_some {seen : ScopedSeenIds} {scope : ObservationScope}
    {eventId : String} {previous : IdObservation} {matched : Bool}
    (h : seen.scopes.observation scope eventId = some previous) :
    seen.observeWithMatch scope.peerNpub scope.subscriptionId eventId matched
      = (⟨false, previous.matchedSubscription⟩, seen) := by
  obtain ⟨window, hwindow, hid⟩ := Option.bind_eq_some_iff.mp h
  have hself : seen.scopes.insert scope window = seen.scopes := Finmap.insert_eq_self hwindow
  simp only [observeWithMatch, hwindow, Option.getD_some, hid, hself]

theorem observeWithMatch_of_none {seen : ScopedSeenIds} {scope : ObservationScope}
    {eventId : String} (matched : Bool) (h : seen.scopes.observation scope eventId = none) :
    let window := (seen.scopes.lookup scope).getD IdWindow.default
    let generation := seen.nextGeneration
    let evicted := evictScope seen.maxPerScope (window.order ++ [(eventId, generation)])
      (window.ids.insert eventId ⟨generation, matched⟩) (seen.total + 1)
    seen.observeWithMatch scope.peerNpub scope.subscriptionId eventId matched
      = (⟨true, false⟩, evictGlobal ⟨seen.maxPerScope, seen.maxTotal,
          Fips.nextGeneration generation, evicted.2, seen.scopes.insert scope evicted.1,
          seen.globalOrder ++ [(scope, eventId, generation)]⟩) := by
  have hid := (seen.lookup_window scope eventId).trans h
  simp only [observeWithMatch, hid]

/-- A call on the observations. -/
inductive Op where
  | observe (peerNpub subscriptionId eventId : String)
  | observeResponse (peerNpub : String) (wireSubscription : Option String)
      (responseSubscription eventId : String) (matchedSubscription : Bool)
  | observeWithMatch (peerNpub subscriptionId eventId : String) (matchedSubscription : Bool)
  | clearPeer (peerNpub : String)
  | clearSubscription (subscriptionId : String)
  deriving DecidableEq, Repr

/-- What a call returns. -/
inductive Output where
  | nothing
  | first (first : Bool)
  | observation (observation : Observation)
  deriving DecidableEq, Repr

/-- One call. -/
def step : Op → ScopedSeenIds → Output × ScopedSeenIds
  | .observe peer subscription id, seen => (seen.observe peer subscription id).map .first fun s => s
  | .observeResponse peer wire response id matched, seen =>
    (seen.observeResponse peer wire response id matched).map .observation fun s => s
  | .observeWithMatch peer subscription id matched, seen =>
    (seen.observeWithMatch peer subscription id matched).map .observation fun s => s
  | .clearPeer peer, seen => (.nothing, seen.clearPeer peer)
  | .clearSubscription subscription, seen => (.nothing, seen.clearSubscription subscription)

end ScopedSeenIds

/-! ## Two plain windows -/

/-- An observation that is still remembered. -/
@[ext]
structure Observed where
  scope : ObservationScope
  eventId : String
  matched : Bool
  deriving DecidableEq, Repr

/-- Drop the first element with a property if more than `max` have it. -/
def dropOldest {α : Type} (max : ℕ) (p : α → Bool) (l : List α) : List α :=
  if max < l.countP p then l.eraseP p else l

namespace Reference

variable (maxPerScope maxTotal : ℕ)

/-- Append an entry, then drop the oldest of its scope and the oldest of all if there are too
many. -/
def insert (entry : Observed) (live : List Observed) : List Observed :=
  let live := dropOldest maxPerScope (fun e => e.scope = entry.scope) (live ++ [entry])
  if maxTotal < live.length then live.tail else live

def observeWithMatch (scope : ObservationScope) (eventId : String) (matched : Bool)
    (live : List Observed) : Observation × List Observed :=
  match live.find? fun entry => entry.scope = scope ∧ entry.eventId = eventId with
  | some previous => (⟨false, previous.matched⟩, live)
  | none => (⟨true, false⟩, insert maxPerScope maxTotal ⟨scope, eventId, matched⟩ live)

/-- One call. -/
def step : ScopedSeenIds.Op → List Observed → ScopedSeenIds.Output × List Observed
  | .observe peer subscription id, live =>
    (observeWithMatch maxPerScope maxTotal ⟨peer, subscription⟩ id false live).map
      (fun observation => .first observation.first) fun l => l
  | .observeResponse peer wire response id matched, live =>
    let live := match wire with
      | some wire =>
        if wire ≠ response then
          (observeWithMatch maxPerScope maxTotal ⟨peer, wire⟩ id matched live).2
        else live
      | none => live
    (observeWithMatch maxPerScope maxTotal ⟨peer, response⟩ id matched live).map .observation
      fun l => l
  | .observeWithMatch peer subscription id matched, live =>
    (observeWithMatch maxPerScope maxTotal ⟨peer, subscription⟩ id matched live).map .observation
      fun l => l
  | .clearPeer peer, live => (.nothing, live.filter fun entry => entry.scope.peerNpub ≠ peer)
  | .clearSubscription subscription, live =>
    (.nothing, live.filter fun entry => entry.scope.subscriptionId ≠ subscription)

/-- The number of entries that an observation adds. -/
def fresh (scope : ObservationScope) (eventId : String) (live : List Observed) : ℕ :=
  if live.any fun entry => entry.scope = scope ∧ entry.eventId = eventId then 0 else 1

/-- The number of entries that a call adds. -/
def made : ScopedSeenIds.Op → List Observed → ℕ
  | .observe peer subscription id, live => fresh ⟨peer, subscription⟩ id live
  | .observeResponse peer wire response id matched, live =>
    match wire with
    | some wire =>
      if wire ≠ response then
        fresh ⟨peer, wire⟩ id live + fresh ⟨peer, response⟩ id
          (observeWithMatch maxPerScope maxTotal ⟨peer, wire⟩ id matched live).2
      else fresh ⟨peer, response⟩ id live
    | none => fresh ⟨peer, response⟩ id live
  | .observeWithMatch peer subscription id _, live => fresh ⟨peer, subscription⟩ id live
  | .clearPeer _, _ => 0
  | .clearSubscription _, _ => 0

/-- The number of entries that a run adds. -/
def insertions : List Observed → List ScopedSeenIds.Op → ℕ
  | _, [] => 0
  | live, op :: ops =>
    made maxPerScope maxTotal op live + insertions (step maxPerScope maxTotal op live).2 ops

end Reference

section DropOldest

variable {α β : Type} {max : ℕ} {p : α → Bool} {l : List α}

theorem dropOldest_sublist : (dropOldest max p l).Sublist l := by
  rw [dropOldest]
  split
  · exact List.eraseP_sublist
  · exact List.Sublist.refl l

theorem dropOldest_map (f : β → α) (l : List β) :
    dropOldest max p (l.map f) = (dropOldest max (fun b => p (f b)) l).map f := by
  rw [dropOldest, dropOldest, List.countP_map, List.eraseP_map]
  exact (apply_ite (List.map f) _ _ _).symm

theorem countP_dropOldest_le (h : l.countP p ≤ max + 1) : (dropOldest max p l).countP p ≤ max := by
  rw [dropOldest]
  split
  · next hover =>
    obtain ⟨a, ha, hp⟩ := List.countP_pos_iff.mp (Nat.zero_lt_of_lt hover)
    obtain ⟨b, before, after, -, hb, rfl, heq⟩ := List.exists_of_eraseP ha hp
    rw [heq, List.countP_append]
    rw [List.countP_append, List.countP_cons_of_pos hb] at h
    omega
  · omega

end DropOldest

/-! ## What the windows and the queue hold -/

/-- The record of an entry in the global queue. -/
def record (entry : Observed × ℕ) : ObservationScope × String × ℕ :=
  (entry.1.scope, entry.1.eventId, entry.2)

/-- The records of the entries of a scope. -/
def scopeRecords (scope : ObservationScope) (live : List (Observed × ℕ)) : List (String × ℕ) :=
  (live.filter fun entry => entry.1.scope = scope).map fun entry => (entry.1.eventId, entry.2)

/-- The entry of an observation. -/
def entryOf (scope : ObservationScope) (eventId : String) (o : IdObservation) : Observed × ℕ :=
  (⟨scope, eventId, o.matchedSubscription⟩, o.generation)

theorem entryOf_eq_iff {scope : ObservationScope} {eventId : String} {o : IdObservation}
    {entry : Observed} {generation : ℕ} :
    entryOf scope eventId o = (entry, generation) ↔
      scope = entry.scope ∧ eventId = entry.eventId ∧ o = ⟨generation, entry.matched⟩ := by
  simp only [entryOf, Prod.mk.injEq, Observed.ext_iff, IdObservation.ext_iff]
  tauto

/-- The windows and the queue hold the entries `live`, each with its generation. -/
structure Holds (scopes : Scopes) (globalOrder : List (ObservationScope × String × ℕ)) (total : ℕ)
    (live : List (Observed × ℕ)) : Prop where
  observation : ∀ scope id o, scopes.observation scope id = some o ↔ entryOf scope id o ∈ live
  order : ∀ scope window, scopes.lookup scope = some window → window.order = scopeRecords scope live
  nonempty : ∀ scope window, scopes.lookup scope = some window → window.order ≠ []
  /-- The live records of the queue are those of the entries, in order. -/
  queue : globalOrder.filter (· ∈ live.map record) = live.map record
  total_eq : total = live.length
  distinct : (live.map fun entry => (entry.1.scope, entry.1.eventId)).Nodup

namespace Holds

variable {scopes : Scopes} {globalOrder : List (ObservationScope × String × ℕ)} {total : ℕ}
  {live : List (Observed × ℕ)}

theorem empty : Holds ∅ [] 0 [] where
  observation := by simp [Scopes.observation]
  order := by simp
  nonempty := by simp
  queue := rfl
  total_eq := rfl
  distinct := List.nodup_nil

theorem nodup (h : Holds scopes globalOrder total live) : live.Nodup := h.distinct.of_map

/-- A scope and an id determine the entry. -/
theorem entry_eq (h : Holds scopes globalOrder total live) {a b : Observed × ℕ} (ha : a ∈ live)
    (hb : b ∈ live) (hscope : a.1.scope = b.1.scope) (hid : a.1.eventId = b.1.eventId) : a = b :=
  List.inj_on_of_nodup_map h.distinct ha hb (Prod.ext hscope hid)

theorem live_iff (h : Holds scopes globalOrder total live) (r : ObservationScope × String × ℕ) :
    scopes.Live r ↔ r ∈ live.map record := by
  simp only [Scopes.Live, Option.map_eq_some_iff, h.observation, List.mem_map]
  constructor
  · rintro ⟨o, hmem, hgeneration⟩
    exact ⟨_, hmem, Prod.ext rfl (Prod.ext rfl hgeneration)⟩
  · rintro ⟨⟨⟨scope, id, matched⟩, generation⟩, hmem, rfl⟩
    exact ⟨⟨generation, matched⟩, hmem, rfl⟩

/-- A window holds the ids of its order. -/
theorem enumerates (h : Holds scopes globalOrder total live) {scope : ObservationScope}
    {window : IdWindow} (hwindow : scopes.lookup scope = some window) :
    Enumerates (window.order.map Prod.fst) window.ids := by
  have horder := h.order scope window hwindow
  refine ⟨?_, fun id => ?_⟩
  · rw [horder, scopeRecords, List.map_map]
    have hscope := (h.distinct.of_map.filter fun entry => entry.1.scope = scope)
    refine (List.nodup_map_iff_inj_on hscope).mpr fun a ha b hb hid => ?_
    obtain ⟨hamem, hascope⟩ := List.mem_filter.mp ha
    obtain ⟨hbmem, hbscope⟩ := List.mem_filter.mp hb
    refine h.entry_eq hamem hbmem ?_ hid
    exact (of_decide_eq_true hascope).trans (of_decide_eq_true hbscope).symm
  · have hlookup : ∀ o, window.ids.lookup id = some o ↔ entryOf scope id o ∈ live := by
      intro o
      rw [← h.observation, Scopes.observation, hwindow, Option.bind_some]
    rw [horder, scopeRecords, List.map_map, List.mem_map, Finmap.mem_iff]
    constructor
    · rintro ⟨⟨⟨scope', id', matched⟩, generation⟩, hmem, rfl⟩
      obtain ⟨hlive, hscope⟩ := List.mem_filter.mp hmem
      obtain rfl : scope' = scope := of_decide_eq_true hscope
      exact ⟨⟨generation, matched⟩, (hlookup _).mpr hlive⟩
    · rintro ⟨o, ho⟩
      refine ⟨_, List.mem_filter.mpr ⟨(hlookup o).mp ho, ?_⟩, rfl⟩
      exact decide_eq_true rfl

theorem size_ids (h : Holds scopes globalOrder total live) {scope : ObservationScope}
    {window : IdWindow} (hwindow : scopes.lookup scope = some window) :
    window.ids.size = window.order.length := by
  rw [← (h.enumerates hwindow).length_eq, List.length_map]

theorem queue_filter (h : Holds scopes globalOrder total live) (q : Observed × ℕ → Bool) :
    globalOrder.filter (· ∈ (live.filter q).map record) = (live.filter q).map record := by
  have hrecord : ∀ a ∈ live, ∀ b ∈ live, record a = record b → a = b := fun a ha b hb hab =>
    h.entry_eq ha hb (congrArg Prod.fst hab) (congrArg (fun r => r.2.1) hab)
  have hsub : ∀ r, r ∈ (live.filter q).map record → r ∈ live.map record := by
    intro r hr
    obtain ⟨e, he, rfl⟩ := List.mem_map.mp hr
    exact List.mem_map_of_mem (List.mem_of_mem_filter he)
  calc globalOrder.filter (· ∈ (live.filter q).map record)
      = (globalOrder.filter (· ∈ live.map record)).filter (· ∈ (live.filter q).map record) := by
        rw [List.filter_filter]
        refine List.filter_congr fun r _ => ?_
        by_cases hr : r ∈ (live.filter q).map record
        · simp only [hr, hsub r hr, decide_true, Bool.and_self]
        · simp only [hr, decide_false, Bool.false_and]
    _ = (live.map record).filter (· ∈ (live.filter q).map record) := by rw [h.queue]
    _ = (live.filter q).map record := by
        rw [List.filter_map]
        congr 1
        refine List.filter_congr fun e he => ?_
        have hiff : record e ∈ (live.filter q).map record ↔ q e = true := by
          constructor
          · intro hmem
            obtain ⟨e', he', heq⟩ := List.mem_map.mp hmem
            obtain ⟨he'mem, hq⟩ := List.mem_filter.mp he'
            rwa [hrecord e' he'mem e he heq] at hq
          · intro hq
            exact List.mem_map_of_mem (List.mem_filter.mpr ⟨he, hq⟩)
        rw [Function.comp_apply]
        exact Bool.eq_iff_iff.mpr (by simpa using hiff)

/-- A stale record is taken off the queue. -/
theorem pop_stale {r : ObservationScope × String × ℕ}
    (h : Holds scopes (r :: globalOrder) total live) (hr : ¬ scopes.Live r) :
    Holds scopes globalOrder total live := by
  have hstale : r ∉ live.map record := fun hmem => hr ((h.live_iff r).mpr hmem)
  have hqueue := h.queue
  rw [List.filter_cons_of_neg (by simpa using hstale)] at hqueue
  exact ⟨h.observation, h.order, h.nonempty, hqueue, h.total_eq, h.distinct⟩

/-- The oldest live record of the queue is that of the oldest entry. -/
theorem head_live {r : ObservationScope × String × ℕ}
    (h : Holds scopes (r :: globalOrder) total live) (hr : scopes.Live r) :
    ∃ entry rest, live = entry :: rest ∧ r = record entry := by
  have hmem := (h.live_iff r).mp hr
  have hqueue := h.queue
  rw [List.filter_cons_of_pos (by simpa using hmem)] at hqueue
  cases live with
  | nil => simp at hqueue
  | cons entry rest =>
    rw [List.map_cons, List.cons.injEq] at hqueue
    exact ⟨entry, rest, rfl, hqueue.1⟩

theorem filter_live (h : Holds scopes globalOrder total live) :
    (globalOrder.filter fun r => scopes.Live r) = live.map record := by
  rw [← h.queue]
  exact List.filter_congr fun r _ => by simp only [h.live_iff r]

theorem compact (h : Holds scopes globalOrder total live) :
    Holds scopes (globalOrder.filter fun r => scopes.Live r) total live := by
  refine ⟨h.observation, h.order, h.nonempty, ?_, h.total_eq, h.distinct⟩
  rw [h.filter_live]
  exact List.filter_eq_self.mpr fun r hr => by simpa using hr

/-- A fresh id goes to the back of its window and of the queue. -/
theorem push (h : Holds scopes globalOrder total live) {entry : Observed} {generation : ℕ}
    (habsent : scopes.observation entry.scope entry.eventId = none)
    (hgeneration : ∀ r ∈ globalOrder, r.2.2 < generation) :
    let window := (scopes.lookup entry.scope).getD IdWindow.default
    Holds
      (scopes.insert entry.scope ⟨window.ids.insert entry.eventId ⟨generation, entry.matched⟩,
        window.order ++ [(entry.eventId, generation)]⟩)
      (globalOrder ++ [record (entry, generation)]) (total + 1) (live ++ [(entry, generation)]) := by
  intro window
  -- The window of the scope, or an empty one, holds exactly what is live in the scope.
  have hids : ∀ id, window.ids.lookup id = scopes.observation entry.scope id := by
    intro id
    rw [Scopes.observation]
    cases hlookup : scopes.lookup entry.scope with
    | none => simp [window, hlookup, IdWindow.default]
    | some w => simp [window, hlookup]
  have horder : window.order = scopeRecords entry.scope live := by
    cases hlookup : scopes.lookup entry.scope with
    | some w => simpa [window, hlookup] using h.order _ _ hlookup
    | none =>
      have hnone : ∀ e ∈ live, e.1.scope ≠ entry.scope := by
        rintro ⟨⟨scope, id, matched⟩, g⟩ he rfl
        have := (h.observation entry.scope id ⟨g, matched⟩).mpr he
        simp [Scopes.observation, hlookup] at this
      have hnil : live.filter (fun e => e.1.scope = entry.scope) = [] :=
        List.filter_eq_nil_iff.mpr fun e he => by simpa using hnone e he
      simp [window, hlookup, IdWindow.default, scopeRecords, hnil]
  -- The id was not in the window, so no live entry has its scope and id.
  have hfresh : ∀ e ∈ live, ¬ (e.1.scope = entry.scope ∧ e.1.eventId = entry.eventId) := by
    rintro ⟨⟨scope, id, matched⟩, g⟩ he ⟨rfl, rfl⟩
    have := (h.observation entry.scope entry.eventId ⟨g, matched⟩).mpr he
    simp [habsent] at this
  refine ⟨?_, ?_, ?_, ?_, ?_, ?_⟩
  · -- what is observed: the new entry in its scope, the rest as before
    intro scope id o
    rw [List.mem_append, List.mem_singleton, entryOf_eq_iff, Scopes.observation]
    by_cases hscope : scope = entry.scope
    · subst hscope
      rw [Finmap.lookup_insert, Option.bind_some]
      by_cases hid : id = entry.eventId
      · subst hid
        rw [Finmap.lookup_insert, Option.some.injEq]
        have hnot : entryOf entry.scope entry.eventId o ∉ live := fun hmem =>
          hfresh _ hmem ⟨rfl, rfl⟩
        simp [hnot, eq_comm]
      · rw [Finmap.lookup_insert_of_ne _ hid, hids, h.observation]
        simp [hid]
    · rw [Finmap.lookup_insert_of_ne _ hscope, ← Scopes.observation, h.observation]
      simp [hscope]
  · intro scope w hw
    by_cases hscope : scope = entry.scope
    · subst hscope
      rw [Finmap.lookup_insert, Option.some.injEq] at hw
      subst hw
      simp [scopeRecords, horder]
    · rw [Finmap.lookup_insert_of_ne _ hscope] at hw
      rw [h.order _ _ hw]
      simp [scopeRecords, Ne.symm hscope]
  · intro scope w hw
    by_cases hscope : scope = entry.scope
    · subst hscope
      rw [Finmap.lookup_insert, Option.some.injEq] at hw
      subst hw
      simp
    · rw [Finmap.lookup_insert_of_ne _ hscope] at hw
      exact h.nonempty _ _ hw
  · -- the new generation is above all queued ones, so that no old record becomes live
    have hold : globalOrder.filter (· ∈ (live ++ [(entry, generation)]).map record)
        = globalOrder.filter (· ∈ live.map record) := by
      refine List.filter_congr fun r hr => ?_
      have hne : r ≠ record (entry, generation) := by
        rintro rfl
        exact lt_irrefl _ (hgeneration _ hr)
      simp [hne]
    rw [List.filter_append, hold, h.queue]
    simp
  · rw [h.total_eq, List.length_append, List.length_singleton]
  · rw [List.map_append, List.nodup_append]
    refine ⟨h.distinct, List.nodup_singleton _, ?_⟩
    intro a ha b hb hab
    obtain ⟨e, he, rfl⟩ := List.mem_map.mp ha
    rw [List.mem_singleton.mp hb] at hab
    exact hfresh e he ⟨congrArg Prod.fst hab, congrArg Prod.snd hab⟩

/-- Dropping the entries that do not satisfy `q`, from windows that were changed accordingly. -/
theorem keep (h : Holds scopes globalOrder total live) {scopes' : Scopes} {q : Observed × ℕ → Bool}
    (hobservation : ∀ scope id o, scopes'.observation scope id = some o ↔
      scopes.observation scope id = some o ∧ q (entryOf scope id o) = true)
    (horder : ∀ scope window, scopes'.lookup scope = some window →
      window.order = scopeRecords scope (live.filter q))
    (hnonempty : ∀ scope window, scopes'.lookup scope = some window → window.order ≠ []) :
    Holds scopes' globalOrder (live.filter q).length (live.filter q) := by
  refine ⟨?_, horder, hnonempty, h.queue_filter q, rfl, ?_⟩
  · intro scope id o
    rw [hobservation, h.observation, List.mem_filter]
  · exact h.distinct.sublist (List.filter_sublist.map _)

theorem length_filter_ne (h : Holds scopes globalOrder total live) {entry : Observed × ℕ}
    (hmem : entry ∈ live) : (live.filter (· ≠ entry)).length = total - 1 := by
  have herase : live.erase entry = live.filter (· ≠ entry) := by
    rw [h.nodup.erase_eq_filter]
    exact List.filter_congr fun e _ => Bool.eq_iff_iff.mpr (by rw [bne_iff_ne, decide_eq_true_iff])
  rw [← herase, List.length_erase_of_mem hmem, h.total_eq]

/-- The first record of a window is that of the first entry of its scope. -/
theorem scopeRecords_eq_cons (h : Holds scopes globalOrder total live) {entry : Observed × ℕ}
    (hmem : entry ∈ live) {rest : List (String × ℕ)}
    (hrecords : scopeRecords entry.1.scope live = (entry.1.eventId, entry.2) :: rest) :
    scopeRecords entry.1.scope (live.filter (· ≠ entry)) = rest := by
  obtain ⟨first, others, hfilter, hfirst, hrest⟩ := List.map_eq_cons_iff.mp hrecords
  have hfirstMem := List.mem_filter.mp (hfilter ▸ List.mem_cons_self : first ∈ live.filter _)
  have hentry : first = entry :=
    h.entry_eq hfirstMem.1 hmem (of_decide_eq_true hfirstMem.2) (congrArg Prod.fst hfirst)
  have hnodup : (entry :: others).Nodup := by
    rw [← hentry, ← hfilter]
    exact h.nodup.filter _
  have hcomm : (live.filter (· ≠ entry)).filter (fun e => e.1.scope = entry.1.scope) = others := by
    rw [List.filter_comm, hfilter, hentry, List.filter_cons_of_neg (by simp)]
    refine List.filter_eq_self.mpr fun e he => decide_eq_true ?_
    rintro rfl
    exact (List.nodup_cons.mp hnodup).1 he
  rw [scopeRecords, hcomm, hrest]

/-- The first entry of a scope goes, with its window if that was all. -/
theorem removeFirst (h : Holds scopes globalOrder total live) {entry : Observed × ℕ}
    (hmem : entry ∈ live) {window : IdWindow} (hwindow : scopes.lookup entry.1.scope = some window)
    {rest : List (String × ℕ)} (horder : window.order = (entry.1.eventId, entry.2) :: rest) :
    Holds
      (if rest = [] then scopes.erase entry.1.scope
        else scopes.insert entry.1.scope ⟨window.ids.erase entry.1.eventId, rest⟩)
      globalOrder (total - 1) (live.filter (· ≠ entry)) := by
  have hrecords : scopeRecords entry.1.scope live = (entry.1.eventId, entry.2) :: rest :=
    (h.order _ _ hwindow).symm.trans horder
  have hrest := h.scopeRecords_eq_cons hmem hrecords
  have hother : ∀ scope, scope ≠ entry.1.scope →
      scopeRecords scope (live.filter (· ≠ entry)) = scopeRecords scope live := by
    intro scope hscope
    rw [scopeRecords, scopeRecords, List.filter_filter]
    congr 1
    refine List.filter_congr fun e _ => ?_
    by_cases he : e.1.scope = scope
    · have hne : e ≠ entry := fun heq => hscope (he.symm.trans (heq ▸ rfl))
      simp [he, hne]
    · simp [he]
  -- in both cases the scope loses the one id, and the other scopes keep theirs
  have hlookup : ∀ scope, scope ≠ entry.1.scope →
      (if rest = [] then scopes.erase entry.1.scope
        else scopes.insert entry.1.scope ⟨window.ids.erase entry.1.eventId, rest⟩).lookup scope
        = scopes.lookup scope := by
    intro scope hscope
    split
    · exact Finmap.lookup_erase_ne hscope
    · exact Finmap.lookup_insert_of_ne _ hscope
  have hself : ∀ id, Scopes.observation
      (if rest = [] then scopes.erase entry.1.scope
        else scopes.insert entry.1.scope ⟨window.ids.erase entry.1.eventId, rest⟩)
      entry.1.scope id = (window.ids.erase entry.1.eventId).lookup id := by
    intro id
    rw [Scopes.observation]
    split
    · next hnil =>
      rw [Finmap.lookup_erase, Option.bind_none, eq_comm, Finmap.lookup_eq_none]
      have henum := h.enumerates hwindow
      rw [horder, hnil, List.map_cons, List.map_nil] at henum
      rw [henum.pop.eq_empty]
      exact Finmap.notMem_empty
    · rw [Finmap.lookup_insert, Option.bind_some]
  rw [← h.length_filter_ne hmem]
  refine h.keep ?_ ?_ ?_
  · intro scope id o
    have hne : (decide (entryOf scope id o ≠ entry) = true) ↔
        ¬ (scope = entry.1.scope ∧ id = entry.1.eventId ∧ o = ⟨entry.2, entry.1.matched⟩) := by
      rw [decide_eq_true_iff, ne_eq, ← entryOf_eq_iff]
    rw [hne]
    by_cases hscope : scope = entry.1.scope
    · subst hscope
      rw [hself]
      have hwin : scopes.observation entry.1.scope id = window.ids.lookup id := by
        rw [Scopes.observation, hwindow, Option.bind_some]
      rw [hwin, Finmap.lookup_erase_eq_some]
      constructor
      · rintro ⟨hid, ho⟩
        exact ⟨ho, fun hand => hid hand.2.1⟩
      · rintro ⟨ho, hnot⟩
        refine ⟨?_, ho⟩
        rintro rfl
        refine hnot ⟨rfl, rfl, ?_⟩
        have hlive := (h.observation entry.1.scope entry.1.eventId o).mp (hwin.trans ho)
        have heq := h.entry_eq hlive hmem rfl rfl
        exact (entryOf_eq_iff.mp heq).2.2
    · rw [Scopes.observation, hlookup scope hscope, ← Scopes.observation]
      simp [hscope]
  · intro scope w hw
    by_cases hscope : scope = entry.1.scope
    · subst hscope
      split at hw
      · simp at hw
      · rw [Finmap.lookup_insert, Option.some.injEq] at hw
        subst hw
        exact hrest.symm
    · rw [hlookup scope hscope] at hw
      rw [h.order _ _ hw, hother scope hscope]
  · intro scope w hw
    by_cases hscope : scope = entry.1.scope
    · subst hscope
      split at hw
      · simp at hw
      · next hne =>
        rw [Finmap.lookup_insert, Option.some.injEq] at hw
        subst hw
        exact hne
    · rw [hlookup scope hscope] at hw
      exact h.nonempty _ _ hw

/-- Removing the first id of a window leaves the others in order. -/
theorem remove_eq (h : Holds scopes globalOrder total live) {scope : ObservationScope}
    {window : IdWindow} (hwindow : scopes.lookup scope = some window) {id : String} {generation : ℕ}
    {rest : List (String × ℕ)} (horder : window.order = (id, generation) :: rest) :
    window.remove id = ⟨window.ids.erase id, rest⟩ := by
  have henum := h.enumerates hwindow
  rw [horder, List.map_cons] at henum
  have hnot : id ∉ rest.map Prod.fst := (List.nodup_cons.mp henum.nodup).1
  rw [IdWindow.remove, horder]
  congr 1
  rw [List.dropWhile_cons_of_pos (by simp)]
  cases hrest : rest with
  | nil => rfl
  | cons next others =>
    -- the next record is live, so that the front stops there
    have hmem : (next.1, next.2) ∈ scopeRecords scope live := by
      rw [← h.order _ _ hwindow, horder, hrest]
      exact List.mem_cons_of_mem _ List.mem_cons_self
    obtain ⟨⟨⟨scope', id', matched⟩, g⟩, he, heq⟩ := List.mem_map.mp hmem
    obtain ⟨hlive, hscope⟩ := List.mem_filter.mp he
    obtain rfl : scope' = scope := of_decide_eq_true hscope
    obtain ⟨hid, hgeneration⟩ : id' = next.1 ∧ g = next.2 := Prod.mk.inj heq
    have hne : next.1 ≠ id := by
      rintro rfl
      rw [hrest] at hnot
      exact hnot List.mem_cons_self
    have hlookup : window.ids.lookup next.1 = some ⟨g, matched⟩ := by
      have := (h.observation scope' id' ⟨g, matched⟩).mpr hlive
      rwa [Scopes.observation, hwindow, Option.bind_some, hid] at this
    rw [List.dropWhile_cons_of_neg]
    simp [Finmap.lookup_erase_ne hne, hlookup, hgeneration]

/-- The oldest entry is taken off the queue and out of its window. -/
theorem pop_live {entry : Observed × ℕ} {others : List (Observed × ℕ)}
    (h : Holds scopes (record entry :: globalOrder) total (entry :: others)) :
    ∃ window, scopes.lookup entry.1.scope = some window ∧
      (window.ids.lookup entry.1.eventId).map IdObservation.generation = some entry.2 ∧
      Holds
        (if (window.remove entry.1.eventId).ids.size = 0 then scopes.erase entry.1.scope
          else scopes.insert entry.1.scope (window.remove entry.1.eventId))
        globalOrder (total - 1) others := by
  have hmem : entry ∈ entry :: others := List.mem_cons_self
  have hnot : entry ∉ others := (List.nodup_cons.mp h.nodup).1
  have hlive : scopes.observation entry.1.scope entry.1.eventId = some ⟨entry.2, entry.1.matched⟩ :=
    (h.observation _ _ _).mpr hmem
  obtain ⟨window, hwindow, hid⟩ := Option.bind_eq_some_iff.mp hlive
  obtain ⟨rest, horder⟩ : ∃ rest, window.order = (entry.1.eventId, entry.2) :: rest := by
    rw [h.order _ _ hwindow, scopeRecords, List.filter_cons_of_pos (by simp)]
    exact ⟨_, rfl⟩
  have hsize : (window.ids.erase entry.1.eventId).size = rest.length := by
    have henum := h.enumerates hwindow
    rw [horder, List.map_cons] at henum
    rw [← henum.pop.length_eq, List.length_map]
  have hfilter : (entry :: others).filter (· ≠ entry) = others := by
    rw [List.filter_cons_of_neg (by simp)]
    refine List.filter_eq_self.mpr fun e he => decide_eq_true ?_
    rintro rfl
    exact hnot he
  have hremoved := h.removeFirst hmem hwindow horder
  rw [hfilter] at hremoved
  refine ⟨window, hwindow, by rw [hid]; rfl, ?_⟩
  simp only [h.remove_eq hwindow horder, hsize, List.length_eq_zero_iff]
  refine hremoved.pop_stale fun hstill => ?_
  obtain ⟨e, he, heq⟩ := List.mem_map.mp ((hremoved.live_iff _).mp hstill)
  exact hnot (h.entry_eq (List.mem_cons_of_mem _ he) hmem (congrArg Prod.fst heq)
    (congrArg (fun r => r.2.1) heq) ▸ he)

/-- The loop over the queue drops at most the oldest entry. -/
theorem evictGlobalLoop {maxTotal : ℕ} (h : Holds scopes globalOrder total live)
    (hlength : live.length ≤ maxTotal + 1) :
    Holds (evictGlobalLoop maxTotal globalOrder scopes total).2.1
        (evictGlobalLoop maxTotal globalOrder scopes total).1
        (evictGlobalLoop maxTotal globalOrder scopes total).2.2
        (if maxTotal < live.length then live.tail else live)
      ∧ (evictGlobalLoop maxTotal globalOrder scopes total).1 <:+ globalOrder := by
  induction globalOrder generalizing scopes total live with
  | nil =>
    have hnil : live = [] := by simpa using h.queue.symm
    subst hnil
    simp only [Fips.evictGlobalLoop, List.length_nil, Nat.not_lt_zero, if_false]
    exact ⟨h, List.suffix_rfl⟩
  | cons r rest ih =>
    obtain ⟨scope, id, generation⟩ := r
    by_cases hover : maxTotal < total
    · rw [Fips.evictGlobalLoop, if_pos hover]
      -- A live record goes, and one eviction is enough; a stale one is skipped and counts nothing.
      by_cases hlive : scopes.Live (scope, id, generation)
      · obtain ⟨entry, others, rfl, hrecord⟩ := h.head_live hlive
        rw [hrecord] at h
        obtain ⟨rfl, rfl, rfl⟩ : scope = entry.1.scope ∧ id = entry.1.eventId
          ∧ generation = entry.2 := by simpa [record] using hrecord
        obtain ⟨window, hwindow, hid, hpopped⟩ := h.pop_live
        have hothers : others.length ≤ maxTotal := by simpa using hlength
        have hlt : maxTotal < (entry :: others).length := by rwa [← h.total_eq]
        obtain ⟨hrun, hsuffix⟩ := ih hpopped (by omega)
        rw [if_neg (show ¬ maxTotal < others.length by omega)] at hrun
        simp only [hwindow, hid, if_true, if_pos hlt, List.tail_cons]
        split
        · next hempty =>
          simp only [if_pos hempty] at hrun hsuffix
          exact ⟨hrun, hsuffix.trans (List.suffix_cons _ _)⟩
        · next hsome =>
          simp only [if_neg hsome] at hrun hsuffix
          exact ⟨hrun, hsuffix.trans (List.suffix_cons _ _)⟩
      · obtain ⟨hrun, hsuffix⟩ := ih (h.pop_stale hlive) hlength
        rw [Scopes.Live, Scopes.observation] at hlive
        cases hlookup : scopes.lookup scope with
        | none => exact ⟨hrun, hsuffix.trans (List.suffix_cons _ _)⟩
        | some window =>
          have hne : ¬ (window.ids.lookup id).map IdObservation.generation = some generation := by
            simpa [hlookup] using hlive
          simp only [if_neg hne]
          exact ⟨hrun, hsuffix.trans (List.suffix_cons _ _)⟩
    · rw [Fips.evictGlobalLoop, if_neg hover]
      have hle : ¬ maxTotal < live.length := by rwa [← h.total_eq]
      rw [if_neg hle]
      exact ⟨h, List.suffix_rfl⟩

end Holds

theorem evictScope_of_le {maxPerScope : ℕ} {ids : Table IdObservation} (h : ids.size ≤ maxPerScope)
    (order : List (String × ℕ)) (total : ℕ) :
    evictScope maxPerScope order ids total = (⟨ids, order⟩, total) := by
  cases order with
  | nil => rfl
  | cons first rest => rw [evictScope, if_neg (Nat.not_lt.mpr h)]

theorem evictGlobalLoop_of_le {maxTotal total : ℕ} (h : total ≤ maxTotal)
    (globalOrder : List (ObservationScope × String × ℕ)) (scopes : Scopes) :
    evictGlobalLoop maxTotal globalOrder scopes total = (globalOrder, scopes, total) := by
  cases globalOrder with
  | nil => rfl
  | cons first rest => rw [evictGlobalLoop, if_neg (Nat.not_lt.mpr h)]

/-- Erasing the first element with a property, in a list without repetitions. -/
theorem eraseP_eq_filter {α : Type} [DecidableEq α] {l others : List α} {p : α → Bool} {a : α}
    (hnodup : l.Nodup) (h : l.filter p = a :: others) : l.eraseP p = l.filter (· ≠ a) := by
  obtain ⟨hmem, hp⟩ := List.mem_filter.mp (h ▸ List.mem_cons_self : a ∈ l.filter p)
  obtain ⟨b, before, after, hbefore, hb, rfl, heq⟩ := List.exists_of_eraseP hmem hp
  have hnone : before.filter p = [] :=
    List.filter_eq_nil_iff.mpr fun x hx => by simpa using hbefore x hx
  rw [List.filter_append, hnone, List.nil_append, List.filter_cons_of_pos hb,
    List.cons.injEq] at h
  obtain ⟨rfl, _⟩ := h
  obtain ⟨_, hafter, hdisjoint⟩ := List.nodup_append.mp hnodup
  have hkeepBefore : before.filter (· ≠ b) = before :=
    List.filter_eq_self.mpr fun x hx => decide_eq_true (hdisjoint x hx b List.mem_cons_self)
  have hkeepAfter : after.filter (· ≠ b) = after := by
    refine List.filter_eq_self.mpr fun x hx => decide_eq_true ?_
    rintro rfl
    exact (List.nodup_cons.mp hafter).1 hx
  rw [heq, List.filter_append, List.filter_cons_of_neg (by simp), hkeepBefore, hkeepAfter]

namespace Holds

variable {scopes : Scopes} {globalOrder : List (ObservationScope × String × ℕ)} {total : ℕ}
  {live : List (Observed × ℕ)}

theorem length_order (h : Holds scopes globalOrder total live) {scope : ObservationScope}
    {window : IdWindow} (hwindow : scopes.lookup scope = some window) :
    window.order.length = live.countP fun entry => entry.1.scope = scope := by
  rw [h.order _ _ hwindow, scopeRecords, List.length_map, List.countP_eq_length_filter]

/-- The loop over the window drops at most the oldest entry of the scope. -/
theorem evictScope {maxPerScope : ℕ} (h : Holds scopes globalOrder total live)
    (hmax : 1 ≤ maxPerScope) {scope : ObservationScope} {window : IdWindow}
    (hwindow : scopes.lookup scope = some window)
    (hlength : (live.countP fun entry => entry.1.scope = scope) ≤ maxPerScope + 1) :
    Holds (scopes.insert scope (evictScope maxPerScope window.order window.ids total).1) globalOrder
      (evictScope maxPerScope window.order window.ids total).2
      (dropOldest maxPerScope (fun entry => entry.1.scope = scope) live) := by
  have hsize := h.size_ids hwindow
  have hcount := h.length_order hwindow
  rw [dropOldest, ← hcount]
  rw [← hcount] at hlength
  split
  · next hover =>
    -- The oldest entry of the scope is the one that the loop drops, and it drops no second.
    obtain ⟨entry, others, hfilter⟩ :
        ∃ entry others, live.filter (fun e => e.1.scope = scope) = entry :: others := by
      apply List.exists_cons_of_ne_nil
      intro hnil
      rw [h.order _ _ hwindow, scopeRecords, hnil] at hover
      simp at hover
    have hmem : entry ∈ live.filter fun e => e.1.scope = scope := hfilter ▸ List.mem_cons_self
    obtain ⟨hlive, hscope⟩ := List.mem_filter.mp hmem
    obtain rfl : entry.1.scope = scope := of_decide_eq_true hscope
    have horder : window.order = (entry.1.eventId, entry.2)
        :: others.map fun e => (e.1.eventId, e.2) := by
      rw [h.order _ _ hwindow, scopeRecords, hfilter]
      rfl
    have hrest : (others.map fun e => (e.1.eventId, e.2)).length = maxPerScope := by
      rw [horder, List.length_cons] at hlength hover
      omega
    have hobservation : window.ids.lookup entry.1.eventId = some ⟨entry.2, entry.1.matched⟩ := by
      have := (h.observation entry.1.scope entry.1.eventId ⟨entry.2, entry.1.matched⟩).mpr hlive
      rwa [Scopes.observation, hwindow, Option.bind_some] at this
    have herased : (window.ids.erase entry.1.eventId).size ≤ maxPerScope := by
      have herase := Finmap.size_erase_of_lookup hobservation
      rw [hsize, horder, List.length_cons, hrest] at herase
      omega
    -- The window keeps at least one entry, so the scope stays.
    have hne : (others.map fun e => (e.1.eventId, e.2)) ≠ [] := by
      intro hnil
      rw [hnil] at hrest
      simp only [List.length_nil] at hrest
      omega
    have hremoved := h.removeFirst hlive hwindow horder
    rw [if_neg hne] at hremoved
    have hrun : Fips.evictScope maxPerScope window.order window.ids total
        = (⟨window.ids.erase entry.1.eventId, others.map fun e => (e.1.eventId, e.2)⟩, total - 1) := by
      rw [horder, Fips.evictScope, if_pos (by omega), if_pos (by rw [hobservation]; rfl),
        evictScope_of_le herased]
    rw [hrun, eraseP_eq_filter h.nodup hfilter]
    exact hremoved
  · next hle =>
    rw [evictScope_of_le (by omega)]
    have hself : scopes.insert scope ⟨window.ids, window.order⟩ = scopes :=
      Finmap.insert_eq_self hwindow
    rw [hself]
    exact h

/-- The windows of the scopes that satisfy `p` hold the entries of these scopes. -/
theorem filter_scopes (h : Holds scopes globalOrder total live) (p : ObservationScope → Bool) :
    Holds (scopes.filter fun scope _ => p scope) globalOrder (live.filter fun e => p e.1.scope).length
      (live.filter fun e => p e.1.scope) := by
  refine h.keep ?_ ?_ ?_
  · intro scope id o
    simp only [Scopes.observation, Option.bind_eq_some_iff, Finmap.lookup_filter_eq_some]
    constructor
    · rintro ⟨window, ⟨hwindow, hp⟩, ho⟩
      exact ⟨⟨window, hwindow, ho⟩, hp⟩
    · rintro ⟨⟨window, hwindow, ho⟩, hp⟩
      exact ⟨window, ⟨hwindow, hp⟩, ho⟩
  · intro scope window hwindow
    obtain ⟨hold, hp⟩ := Finmap.lookup_filter_eq_some.mp hwindow
    rw [h.order _ _ hold, scopeRecords, scopeRecords, List.filter_filter]
    congr 1
    refine List.filter_congr fun e _ => ?_
    by_cases he : e.1.scope = scope
    · simp [he, hp]
    · simp [he]
  · intro scope window hwindow
    exact h.nonempty _ _ (Finmap.lookup_filter_eq_some.mp hwindow).1

/-- The windows together hold as many ids as there are entries. -/
theorem total_size (h : Holds scopes globalOrder total live) :
    (scopes.total fun _ window => window.ids.size) = live.length := by
  have hmaps : ∀ e ∈ live.toFinset, e.1.scope ∈ scopes.keys := by
    rintro ⟨⟨scope, id, matched⟩, generation⟩ he
    have hlive := (h.observation scope id ⟨generation, matched⟩).mpr (List.mem_toFinset.mp he)
    obtain ⟨window, hwindow, -⟩ := Option.bind_eq_some_iff.mp hlive
    exact Finmap.mem_keys.mpr (Finmap.mem_of_lookup_eq_some hwindow)
  rw [Finmap.total_eq_sum_keys, ← List.toFinset_card_of_nodup h.nodup,
    Finset.card_eq_sum_card_fiberwise hmaps]
  refine Finset.sum_congr rfl fun scope hscope => ?_
  obtain ⟨window, hwindow⟩ := Finmap.mem_iff.mp (Finmap.mem_keys.mp hscope)
  have hfiber : {e ∈ live.toFinset | e.1.scope = scope}
      = (live.filter fun e => e.1.scope = scope).toFinset := by
    ext e
    simp
  rw [hwindow, Option.elim_some, h.size_ids hwindow, h.length_order hwindow,
    List.countP_eq_length_filter, hfiber, List.toFinset_card_of_nodup (h.nodup.filter _)]

/-- Records of other scopes than those that are left may go. -/
theorem filter_queue (h : Holds scopes globalOrder total live) {p : ObservationScope → Bool}
    (hlive : ∀ e ∈ live, p e.1.scope = true) :
    Holds scopes (globalOrder.filter fun r => p r.1) total live := by
  refine ⟨h.observation, h.order, h.nonempty, ?_, h.total_eq, h.distinct⟩
  rw [List.filter_filter]
  refine (List.filter_congr fun r _ => ?_).trans h.queue
  by_cases hr : r ∈ live.map record
  · obtain ⟨e, he, rfl⟩ := List.mem_map.mp hr
    simp [record, hlive e he]
  · simp [hr]

/-- `clear_peer` and `clear_subscription` drop the entries of the cleared scopes. -/
theorem clear (h : Holds scopes globalOrder total live) (cleared : ObservationScope → Bool) :
    Holds (scopes.filter fun scope _ => !cleared scope) (globalOrder.filter fun r => !cleared r.1)
      (total - (scopes.filter fun scope _ => cleared scope).total fun _ window => window.ids.size)
      (live.filter fun e => !cleared e.1.scope) := by
  have hkept := h.filter_scopes fun scope => !cleared scope
  have hremoved := (h.filter_scopes cleared).total_size
  have hsplit : total - (live.filter fun e => cleared e.1.scope).length
      = (live.filter fun e => !cleared e.1.scope).length := by
    have := List.length_eq_length_filter_add (l := live) fun e => cleared e.1.scope
    rw [h.total_eq]
    omega
  rw [hremoved, hsplit]
  exact hkept.filter_queue (p := fun scope => !cleared scope) fun e he => (List.mem_filter.mp he).2

/-- A fresh id enters its window, and the oldest of the window leaves it. -/
theorem insertScope {maxPerScope : ℕ} (h : Holds scopes globalOrder total live)
    (hmax : 1 ≤ maxPerScope) {entry : Observed} (generation : ℕ)
    (habsent : scopes.observation entry.scope entry.eventId = none)
    (hgeneration : ∀ r ∈ globalOrder, r.2.2 < generation)
    (hcount : (live.countP fun e => e.1.scope = entry.scope) ≤ maxPerScope) :
    let window := (scopes.lookup entry.scope).getD IdWindow.default
    let evicted := Fips.evictScope maxPerScope (window.order ++ [(entry.eventId, generation)])
      (window.ids.insert entry.eventId ⟨generation, entry.matched⟩) (total + 1)
    Holds (scopes.insert entry.scope evicted.1) (globalOrder ++ [record (entry, generation)])
      evicted.2 (dropOldest maxPerScope (fun e => e.1.scope = entry.scope)
        (live ++ [(entry, generation)])) := by
  intro window evicted
  have hpush := h.push habsent hgeneration
  have hlength : (live ++ [(entry, generation)]).countP (fun e => e.1.scope = entry.scope)
      ≤ maxPerScope + 1 := by
    rw [List.countP_append, List.countP_singleton]
    split <;> omega
  have hevict := hpush.evictScope hmax (Finmap.lookup_insert _) hlength
  rwa [Finmap.insert_insert] at hevict

end Holds

end NostrPubsub.Fips
