import NostrPubsub.Fips.SeenIds

/-!
# The observations are two plain windows

Along every run in which the generation numbers do not come round, `ScopedSeenIds` answers as
`Reference` does, and its tables agree with the list kept there (`scopedSeenIds_windows`). The
numbers are `u64` and wrap: after 2^64 - 1 insertions a stale record of the queue can meet its own
number again, and an id is then dropped before its turn (`not_windows_of_wrapped`).
-/

namespace NostrPubsub.Fips

/-- The observations are those of `live` after `made` insertions. -/
structure Tracks (maxPerScope maxTotal : ℕ) (seen : ScopedSeenIds) (live : List (Observed × ℕ))
    (made : ℕ) : Prop where
  maxPerScope_eq : seen.maxPerScope = maxPerScope
  maxTotal_eq : seen.maxTotal = maxTotal
  holds : Holds seen.scopes seen.globalOrder seen.total live
  perScope : ∀ scope, (live.countP fun entry => entry.1.scope = scope) ≤ maxPerScope
  length_le : live.length ≤ maxTotal
  queue_le : seen.globalOrder.length ≤ 2 * maxTotal
  generation_le : ∀ r ∈ seen.globalOrder, r.2.2 ≤ made
  /-- The next insertion has a generation of its own, unless all were used. -/
  next : made < 2 ^ 64 - 1 → seen.nextGeneration = made + 1

namespace Tracks

variable {maxPerScope maxTotal : ℕ} {seen : ScopedSeenIds} {live : List (Observed × ℕ)} {made : ℕ}

theorem init (maxPerScope maxTotal : ℕ) :
    Tracks maxPerScope maxTotal (ScopedSeenIds.new maxPerScope maxTotal) [] 0 where
  maxPerScope_eq := rfl
  maxTotal_eq := rfl
  holds := Holds.empty
  perScope := fun _ => Nat.zero_le _
  length_le := Nat.zero_le _
  queue_le := Nat.zero_le _
  generation_le := by simp [ScopedSeenIds.new]
  next := fun _ => rfl

theorem find_eq_none (h : Tracks maxPerScope maxTotal seen live made) {scope : ObservationScope}
    {id : String} (hnone : seen.scopes.observation scope id = none) :
    ((live.map Prod.fst).find? fun entry => entry.scope = scope ∧ entry.eventId = id) = none := by
  refine List.find?_eq_none.mpr fun entry hentry hmatch => ?_
  obtain ⟨⟨⟨scope', id', matched⟩, generation⟩, hmem, rfl⟩ := List.mem_map.mp hentry
  obtain ⟨rfl, rfl⟩ : scope' = scope ∧ id' = id := by simpa using hmatch
  have := (h.holds.observation scope' id' ⟨generation, matched⟩).mpr hmem
  simp [hnone] at this

theorem find_eq_some (h : Tracks maxPerScope maxTotal seen live made) {scope : ObservationScope}
    {id : String} {o : IdObservation} (hsome : seen.scopes.observation scope id = some o) :
    ((live.map Prod.fst).find? fun entry => entry.scope = scope ∧ entry.eventId = id)
      = some (entryOf scope id o).1 := by
  have hmem := (h.holds.observation scope id o).mp hsome
  cases hfind : (live.map Prod.fst).find? fun entry => entry.scope = scope ∧ entry.eventId = id with
  | none =>
    have := List.find?_eq_none.mp hfind _ (List.mem_map_of_mem hmem)
    simp [entryOf] at this
  | some entry =>
    have hmatch := List.find?_some hfind
    obtain ⟨e, he, rfl⟩ := List.mem_map.mp (List.mem_of_find?_eq_some hfind)
    obtain ⟨hscope, hid⟩ : e.1.scope = scope ∧ e.1.eventId = id := by simpa using hmatch
    rw [h.holds.entry_eq he hmem hscope hid]

/-- The queue after an insertion, and what it keeps. -/
theorem evictGlobal (maxTotal nextGeneration : ℕ) {total : ℕ} {scopes : Scopes}
    {globalOrder : List (ObservationScope × String × ℕ)}
    (h : Holds scopes globalOrder total live) (hlength : live.length ≤ maxTotal + 1)
    (hscope : ∀ scope, (live.countP fun entry => entry.1.scope = scope) ≤ maxPerScope)
    (hgeneration : ∀ r ∈ globalOrder, r.2.2 ≤ made)
    (hnext : made < 2 ^ 64 - 1 → nextGeneration = made + 1) :
    Tracks maxPerScope maxTotal
      (ScopedSeenIds.evictGlobal ⟨maxPerScope, maxTotal, nextGeneration, total, scopes, globalOrder⟩)
      (if maxTotal < live.length then live.tail else live) made := by
  obtain ⟨hloop, hsuffix⟩ := h.evictGlobalLoop hlength
  have hsublist : (if maxTotal < live.length then live.tail else live).Sublist live := by
    split
    · exact List.tail_sublist live
    · exact List.Sublist.refl live
  have hle : (if maxTotal < live.length then live.tail else live).length ≤ maxTotal := by
    split
    · rw [List.length_tail]
      omega
    · omega
  have hcompact : satMul maxTotal 2 ≤ 2 * maxTotal := by
    rw [satMul]
    omega
  rw [ScopedSeenIds.evictGlobal]
  refine ⟨rfl, rfl, ?_, ?_, hle, ?_, ?_, hnext⟩
  · dsimp only
    split
    · exact hloop.compact
    · exact hloop
  · exact fun scope => (hsublist.countP_le).trans (hscope scope)
  · dsimp only
    split
    · rw [hloop.filter_live, List.length_map]
      omega
    · omega
  · intro r hr
    dsimp only at hr
    split at hr
    · exact hgeneration r (hsuffix.mem (List.mem_of_mem_filter hr))
    · exact hgeneration r (hsuffix.mem hr)

/-- An insertion: the oldest of the scope goes, then the oldest of all. -/
theorem insert (h : Tracks maxPerScope maxTotal seen live made) (hscope : 1 ≤ maxPerScope)
    (hmade : made < 2 ^ 64 - 1) (entry : Observed)
    (habsent : seen.scopes.observation entry.scope entry.eventId = none) :
    ∃ live', live'.map Prod.fst = Reference.insert maxPerScope maxTotal entry (live.map Prod.fst) ∧
      Tracks maxPerScope maxTotal
        (seen.observeWithMatch entry.scope.peerNpub entry.scope.subscriptionId entry.eventId
          entry.matched).2 live' (made + 1) := by
  have hself := h.perScope entry.scope
  have hinsert := h.holds.insertScope hscope (made + 1) habsent
    (fun r hr => Nat.lt_succ_of_le (h.generation_le r hr)) hself
  have hsublist : (dropOldest maxPerScope (fun e => e.1.scope = entry.scope)
      (live ++ [(entry, made + 1)])).Sublist (live ++ [(entry, made + 1)]) := dropOldest_sublist
  have hlength := hsublist.length_le
  rw [List.length_append, List.length_singleton] at hlength
  have hlive := h.length_le
  have hobserve := ScopedSeenIds.observeWithMatch_of_none entry.matched habsent
  rw [h.maxPerScope_eq, h.maxTotal_eq, h.next hmade] at hobserve
  rw [hobserve]
  refine ⟨_, ?_, evictGlobal maxTotal (nextGeneration (made + 1)) hinsert (by omega) ?_ ?_ ?_⟩
  · have hmap : live.map Prod.fst ++ [entry] = (live ++ [(entry, made + 1)]).map Prod.fst := by simp
    rw [Reference.insert, hmap, dropOldest_map, List.length_map, ← List.map_tail]
    exact apply_ite (List.map Prod.fst) _ _ _
  · intro scope
    by_cases hne : scope = entry.scope
    · subst hne
      apply countP_dropOldest_le
      rw [List.countP_append, List.countP_singleton]
      split <;> omega
    · refine hsublist.countP_le.trans ?_
      rw [List.countP_append, List.countP_singleton, if_neg (by simpa using Ne.symm hne)]
      exact h.perScope scope
  · intro r hr
    rcases List.mem_append.mp hr with hr | hr
    · exact (h.generation_le r hr).trans (Nat.le_succ made)
    · rw [List.mem_singleton.mp hr]
  · intro hlt
    rw [nextGeneration, Nat.mod_eq_of_lt (by omega)]
    omega

/-- An observation answers as the reference does. -/
theorem observe (h : Tracks maxPerScope maxTotal seen live made) (hscope : 1 ≤ maxPerScope)
    (scope : ObservationScope) (id : String) (matched : Bool)
    (hmade : made + Reference.fresh scope id (live.map Prod.fst) ≤ 2 ^ 64 - 1) :
    (seen.observeWithMatch scope.peerNpub scope.subscriptionId id matched).1
        = (Reference.observeWithMatch maxPerScope maxTotal scope id matched (live.map Prod.fst)).1
      ∧ ∃ live', live'.map Prod.fst
          = (Reference.observeWithMatch maxPerScope maxTotal scope id matched (live.map Prod.fst)).2
        ∧ Tracks maxPerScope maxTotal
          (seen.observeWithMatch scope.peerNpub scope.subscriptionId id matched).2 live'
          (made + Reference.fresh scope id (live.map Prod.fst)) := by
  cases ho : seen.scopes.observation scope id with
  | some previous =>
    have hfind := h.find_eq_some ho
    have hfresh : Reference.fresh scope id (live.map Prod.fst) = 0 := by
      rw [Reference.fresh, if_pos]
      have hmatch := List.find?_some hfind
      exact List.any_eq_true.mpr ⟨_, List.mem_of_find?_eq_some hfind, hmatch⟩
    rw [ScopedSeenIds.observeWithMatch_of_some ho, Reference.observeWithMatch, hfind, hfresh]
    exact ⟨rfl, live, rfl, h⟩
  | none =>
    have hfind := h.find_eq_none ho
    have hfresh : Reference.fresh scope id (live.map Prod.fst) = 1 := by
      rw [Reference.fresh, if_neg]
      rw [List.any_eq_true]
      rintro ⟨entry, hentry, hmatch⟩
      exact List.find?_eq_none.mp hfind entry hentry hmatch
    rw [hfresh] at hmade ⊢
    obtain ⟨live', hlive', htracks⟩ := h.insert hscope (by omega) ⟨scope, id, matched⟩ ho
    rw [Reference.observeWithMatch, hfind]
    refine ⟨?_, live', hlive', htracks⟩
    rw [ScopedSeenIds.observeWithMatch_of_none matched ho]

/-- Clearing scopes drops their entries. -/
theorem clear (h : Tracks maxPerScope maxTotal seen live made) (cleared : ObservationScope → Bool) :
    Tracks maxPerScope maxTotal (seen.clearScopes cleared)
      (live.filter fun e => !cleared e.1.scope) made where
  maxPerScope_eq := h.maxPerScope_eq
  maxTotal_eq := h.maxTotal_eq
  holds := h.holds.clear cleared
  perScope := fun scope => List.filter_sublist.countP_le.trans (h.perScope scope)
  length_le := (List.length_filter_le _ _).trans h.length_le
  queue_le := (List.length_filter_le _ _).trans h.queue_le
  generation_le := fun r hr => h.generation_le r (List.mem_of_mem_filter hr)
  next := h.next

/-- A call answers as the reference does. -/
theorem step (h : Tracks maxPerScope maxTotal seen live made) (hscope : 1 ≤ maxPerScope)
    (op : ScopedSeenIds.Op)
    (hmade : made + Reference.made maxPerScope maxTotal op (live.map Prod.fst) ≤ 2 ^ 64 - 1) :
    (ScopedSeenIds.step op seen).1
        = (Reference.step maxPerScope maxTotal op (live.map Prod.fst)).1
      ∧ ∃ live', live'.map Prod.fst = (Reference.step maxPerScope maxTotal op (live.map Prod.fst)).2
        ∧ Tracks maxPerScope maxTotal (ScopedSeenIds.step op seen).2 live'
          (made + Reference.made maxPerScope maxTotal op (live.map Prod.fst)) := by
  cases op with
  | observe peer subscription id =>
    obtain ⟨hout, live', hlive', htracks⟩ := h.observe hscope ⟨peer, subscription⟩ id false hmade
    exact ⟨congrArg (fun o : Observation => ScopedSeenIds.Output.first o.first) hout, live', hlive', htracks⟩
  | observeWithMatch peer subscription id matched =>
    obtain ⟨hout, live', hlive', htracks⟩ := h.observe hscope ⟨peer, subscription⟩ id matched hmade
    exact ⟨congrArg ScopedSeenIds.Output.observation hout, live', hlive', htracks⟩
  | observeResponse peer wire response id matched =>
    cases wire with
    | none =>
      obtain ⟨hout, live', hlive', htracks⟩ := h.observe hscope ⟨peer, response⟩ id matched hmade
      exact ⟨congrArg ScopedSeenIds.Output.observation hout, live', hlive', htracks⟩
    | some wire =>
      -- A response under another subscription of the wire is observed there first.
      by_cases hwire : wire = response
      · have hno : ¬ wire ≠ response := not_not.mpr hwire
        simp only [Reference.made, if_neg hno] at hmade
        obtain ⟨hout, live', hlive', htracks⟩ := h.observe hscope ⟨peer, response⟩ id matched hmade
        simp only [ScopedSeenIds.step, ScopedSeenIds.observeResponse, Reference.step, Reference.made,
          if_neg hno]
        exact ⟨congrArg ScopedSeenIds.Output.observation hout, live', hlive', htracks⟩
      · simp only [Reference.made, ne_eq, hwire, not_false_eq_true, if_true] at hmade
        obtain ⟨-, live₁, hlive₁, htracks₁⟩ :=
          h.observe hscope ⟨peer, wire⟩ id matched (by omega)
        rw [← hlive₁] at hmade
        obtain ⟨hout, live', hlive', htracks⟩ :=
          htracks₁.observe hscope ⟨peer, response⟩ id matched (by omega)
        simp only [ScopedSeenIds.step, ScopedSeenIds.observeResponse, Reference.step, Reference.made,
          ne_eq, hwire, not_false_eq_true, if_true]
        rw [← hlive₁, ← Nat.add_assoc]
        exact ⟨congrArg ScopedSeenIds.Output.observation hout, live', hlive', htracks⟩
  | clearPeer peer =>
    refine ⟨rfl, _, ?_, h.clear fun scope => scope.peerNpub = peer⟩
    rw [Reference.step, List.filter_map]
    congr 1
    exact List.filter_congr fun e _ => by simp
  | clearSubscription subscription =>
    refine ⟨rfl, _, ?_, h.clear fun scope => scope.subscriptionId = subscription⟩
    rw [Reference.step, List.filter_map]
    congr 1
    exact List.filter_congr fun e _ => by simp

/-- A run answers as the reference does. -/
theorem run (h : Tracks maxPerScope maxTotal seen live made) (hscope : 1 ≤ maxPerScope)
    (ops : List ScopedSeenIds.Op)
    (hmade : made + Reference.insertions maxPerScope maxTotal (live.map Prod.fst) ops ≤ 2 ^ 64 - 1) :
    Mealy.outputs ScopedSeenIds.step seen ops
        = Mealy.outputs (Reference.step maxPerScope maxTotal) (live.map Prod.fst) ops
      ∧ ∃ live' made', live'.map Prod.fst
          = Mealy.after (Reference.step maxPerScope maxTotal) (live.map Prod.fst) ops
        ∧ Tracks maxPerScope maxTotal (Mealy.after ScopedSeenIds.step seen ops) live' made' := by
  induction ops generalizing seen live made with
  | nil => exact ⟨rfl, live, made, rfl, h⟩
  | cons op ops ih =>
    rw [Reference.insertions] at hmade
    obtain ⟨hout, live₁, hlive₁, htracks₁⟩ := h.step hscope op (by omega)
    rw [← hlive₁] at hmade
    obtain ⟨houts, live', made', hlive', htracks⟩ := ih htracks₁ (by omega)
    rw [Mealy.outputs_cons, Mealy.outputs_cons, Mealy.after_cons, Mealy.after_cons, hout, houts,
      ← hlive₁]
    exact ⟨rfl, live', made', hlive', htracks⟩

end Tracks

/-- Whatever the calls, the observations are two plain windows as long as the generation numbers
do not come round. -/
theorem scopedSeenIds_windows {maxPerScope maxTotal : ℕ} (hscope : 1 ≤ maxPerScope)
    (ops : List ScopedSeenIds.Op)
    (hinsertions : Reference.insertions maxPerScope maxTotal [] ops ≤ 2 ^ 64 - 1) :
    let seen := Mealy.after ScopedSeenIds.step (ScopedSeenIds.new maxPerScope maxTotal) ops
    let live := Mealy.after (Reference.step maxPerScope maxTotal) [] ops
    Mealy.outputs ScopedSeenIds.step (ScopedSeenIds.new maxPerScope maxTotal) ops
        = Mealy.outputs (Reference.step maxPerScope maxTotal) [] ops
      ∧ seen.total = live.length
      ∧ (seen.scopes.total fun _ window => window.ids.size) = seen.total
      ∧ (∀ scope window, seen.scopes.lookup scope = some window →
        window.ids.size ≠ 0
        ∧ Enumerates (window.order.map Prod.fst) window.ids
        ∧ window.order.map Prod.fst
          = (live.filter fun entry => entry.scope = scope).map Observed.eventId)
      ∧ seen.globalOrder.length ≤ 2 * maxTotal := by
  intro seen live
  obtain ⟨houts, live', made', hlive', htracks⟩ :=
    (Tracks.init maxPerScope maxTotal).run hscope ops (by simpa using hinsertions)
  have hlength : live.length = live'.length := by
    rw [← List.length_map (f := Prod.fst), hlive']
    rfl
  refine ⟨houts, htracks.holds.total_eq.trans hlength.symm, ?_, ?_, htracks.queue_le⟩
  · rw [htracks.holds.total_size, htracks.holds.total_eq]
  · intro scope window hwindow
    refine ⟨?_, htracks.holds.enumerates hwindow, ?_⟩
    · rw [htracks.holds.size_ids hwindow]
      exact fun hzero => htracks.holds.nonempty scope window hwindow (List.length_eq_zero_iff.mp hzero)
    · have hmap : live = live'.map Prod.fst := hlive'.symm
      rw [htracks.holds.order scope window hwindow, scopeRecords, hmap, List.filter_map,
        List.map_map, List.map_map]
      rfl

/-- A run with both evictions: the third id pushes the first out of its scope, the last one the
oldest out of all. -/
theorem scopedSeenIds_windows_two_scopes :
    let ops : List ScopedSeenIds.Op := [.observe "a" "s" "1", .observe "b" "s" "1",
      .observe "a" "s" "2", .observeResponse "b" (some "t") "u" "2" true]
    Reference.insertions 1 2 [] ops ≤ 2 ^ 64 - 1 ∧
      (Mealy.after ScopedSeenIds.step (ScopedSeenIds.new 1 2) ops).total
        = (Mealy.after (Reference.step 1 2) [] ops).length :=
  ⟨by decide +kernel, (@scopedSeenIds_windows 1 2 (by decide) _ (by decide +kernel)).2.1⟩

/-! ## A run through all generations -/

/-- Observing an id in a scope of its own and clearing the peer leaves only the generation
behind. -/
theorem observe_clear {seen : ScopedSeenIds} {peer subscription id : String}
    (hscopes : ∀ scope ∈ seen.scopes.keys, scope.peerNpub ≠ peer)
    (hqueue : ∀ r ∈ seen.globalOrder, r.1.peerNpub ≠ peer) (hmax : 1 ≤ seen.maxPerScope)
    (htotal : seen.total < seen.maxTotal)
    (hlength : seen.globalOrder.length < satMul seen.maxTotal 2) :
    Mealy.after ScopedSeenIds.step seen [.observe peer subscription id, .clearPeer peer]
      = { seen with nextGeneration := nextGeneration seen.nextGeneration } := by
  have hlookup : seen.scopes.lookup ⟨peer, subscription⟩ = none :=
    Finmap.lookup_eq_none.mpr fun hmem => hscopes _ (Finmap.mem_keys.mpr hmem) rfl
  have habsent : seen.scopes.observation ⟨peer, subscription⟩ id = none := by
    simp [Scopes.observation, hlookup]
  let window : IdWindow := ⟨(∅ : Table IdObservation).insert id ⟨seen.nextGeneration, false⟩,
    [(id, seen.nextGeneration)]⟩
  have hsize : window.ids.size = 1 := by
    rw [Finmap.size_insert_of_notMem Finmap.notMem_empty]
    rfl
  have hobserve : (seen.observeWithMatch peer subscription id false).2
      = ⟨seen.maxPerScope, seen.maxTotal, nextGeneration seen.nextGeneration, seen.total + 1,
        seen.scopes.insert ⟨peer, subscription⟩ window,
        seen.globalOrder ++ [(⟨peer, subscription⟩, id, seen.nextGeneration)]⟩ := by
    have hnone := ScopedSeenIds.observeWithMatch_of_none false habsent
    have hevict : evictScope seen.maxPerScope window.order window.ids (seen.total + 1)
        = (window, seen.total + 1) := evictScope_of_le (hsize.trans_le hmax) _ _
    simp only [hlookup, Option.getD_none, IdWindow.default, List.nil_append] at hnone
    rw [hnone]
    simp only [window] at hevict
    simp only [hevict, ScopedSeenIds.evictGlobal,
      evictGlobalLoop_of_le (Nat.succ_le_of_lt htotal), List.length_append, List.length_singleton]
    rw [if_neg (by omega)]
  -- the one new window and its record belong to the cleared peer
  have hkept : (seen.scopes.insert ⟨peer, subscription⟩ window).filter
      (fun scope _ => !decide (scope.peerNpub = peer)) = seen.scopes := by
    apply Finmap.ext_lookup
    intro scope
    rw [Finmap.lookup_filter]
    by_cases hscope : scope = ⟨peer, subscription⟩
    · rw [hscope, Finmap.lookup_insert, hlookup]
      simp
    · rw [Finmap.lookup_insert_of_ne _ hscope]
      cases hlook : seen.scopes.lookup scope with
      | none => rfl
      | some w => simp [hscopes scope (Finmap.mem_keys.mpr (Finmap.mem_of_lookup_eq_some hlook))]
  have hcleared : ((seen.scopes.insert ⟨peer, subscription⟩ window).filter
      (fun scope _ => decide (scope.peerNpub = peer))) = (∅ : Scopes).insert ⟨peer, subscription⟩ window := by
    apply Finmap.ext_lookup
    intro scope
    rw [Finmap.lookup_filter]
    by_cases hscope : scope = ⟨peer, subscription⟩
    · rw [hscope, Finmap.lookup_insert, Finmap.lookup_insert]
      simp
    · rw [Finmap.lookup_insert_of_ne _ hscope, Finmap.lookup_insert_of_ne _ hscope]
      cases hlook : seen.scopes.lookup scope with
      | none => rfl
      | some w => simp [hscopes scope (Finmap.mem_keys.mpr (Finmap.mem_of_lookup_eq_some hlook))]
  have hremoved : ((∅ : Scopes).insert ⟨peer, subscription⟩ window).total
      (fun _ window => window.ids.size) = 1 := by
    rw [Finmap.total_insert, hsize, Finmap.erase_eq_self (Finmap.lookup_empty _)]
    rfl
  have hrecords : (seen.globalOrder
      ++ [((⟨peer, subscription⟩ : ObservationScope), id, seen.nextGeneration)]).filter
      (fun r => !decide (r.1.peerNpub = peer)) = seen.globalOrder := by
    rw [List.filter_append, List.filter_eq_self.mpr fun r hr => by simpa using hqueue r hr]
    simp
  show ((seen.observeWithMatch peer subscription id false).2).clearPeer peer = _
  rw [hobserve]
  simp only [ScopedSeenIds.clearPeer, ScopedSeenIds.clearScopes, hkept, hcleared, hremoved, hrecords,
    Nat.add_sub_cancel]

/-- An id that is observed and cleared again, under a scope of its own. -/
def churn : List ScopedSeenIds.Op := [.observe "b" "s" "x", .clearPeer "b"]

/-- One id leaves a stale record behind and another scope keeps an id. -/
def beforeChurn : List ScopedSeenIds.Op :=
  [.observe "a" "s" "1", .observe "a" "s" "2", .observe "d" "s" "z"]

/-- The id comes back, and the other scope's turn to be dropped comes. -/
def afterChurn : List ScopedSeenIds.Op :=
  [.observe "a" "s" "1", .observe "e" "s" "e", .observe "f" "s" "f", .observe "d" "s" "z"]

/-- Generations are used up by observations that are cleared at once. -/
def wrappedOps (n : ℕ) : List ScopedSeenIds.Op :=
  beforeChurn ++ (List.replicate n churn).flatten ++ afterChurn

/-- The state before the churn, at some generation. -/
def churned (generation : ℕ) : ScopedSeenIds :=
  { Mealy.after ScopedSeenIds.step (ScopedSeenIds.new 1 3) beforeChurn with
    nextGeneration := generation }

theorem after_churn (generation : ℕ) :
    Mealy.after ScopedSeenIds.step (churned generation) churn = churned (nextGeneration generation) :=
  -- none of the conditions looks at the generation
  observe_clear (show ∀ scope ∈ (churned 0).scopes.keys, scope.peerNpub ≠ "b" by decide +kernel)
    (show ∀ r ∈ (churned 0).globalOrder, r.1.peerNpub ≠ "b" by decide +kernel)
    (show 1 ≤ (churned 0).maxPerScope by decide +kernel)
    (show (churned 0).total < (churned 0).maxTotal by decide +kernel)
    (show (churned 0).globalOrder.length < satMul (churned 0).maxTotal 2 by decide +kernel)

theorem after_churns (n generation : ℕ) :
    Mealy.after ScopedSeenIds.step (churned generation) (List.replicate n churn).flatten
      = churned (nextGeneration^[n] generation) := by
  induction n generalizing generation with
  | zero => rfl
  | succ n ih =>
    rw [List.replicate_succ, List.flatten_cons, Mealy.after_append, after_churn, ih]
    rfl

/-- The generation after the last one is 1 again. -/
theorem iterate_nextGeneration {n : ℕ} (h : n + 4 = 2 ^ 64) : nextGeneration^[n] 4 = 1 := by
  have hstep : ∀ k, k < n → nextGeneration^[k] 4 = 4 + k := by
    intro k
    induction k with
    | zero => exact fun _ => rfl
    | succ k ih =>
      intro hk
      rw [Function.iterate_succ_apply', ih (by omega), nextGeneration, Nat.mod_eq_of_lt (by omega)]
      omega
  obtain ⟨k, rfl⟩ : ∃ k, n = k + 1 := ⟨n - 1, by omega⟩
  rw [Function.iterate_succ_apply', hstep k (by omega), nextGeneration]
  have hwrap : 4 + k + 1 = 2 ^ 64 := by omega
  rw [hwrap, Nat.mod_self]
  rfl

theorem reference_churns (n : ℕ) :
    Mealy.after (Reference.step 1 3) (Mealy.after (Reference.step 1 3) [] beforeChurn)
        (List.replicate n churn).flatten
      = Mealy.after (Reference.step 1 3) [] beforeChurn := by
  induction n with
  | zero => rfl
  | succ n ih =>
    rw [List.replicate_succ, List.flatten_cons, Mealy.after_append]
    exact ih

/-- Once the generation is 1 again, an id is dropped before its turn, and another one is still
remembered that the reference has dropped. -/
theorem outputs_ne_of_iterate {n : ℕ} (hn : nextGeneration^[n] 4 = 1) :
    Mealy.outputs ScopedSeenIds.step (ScopedSeenIds.new 1 3) (wrappedOps n)
      ≠ Mealy.outputs (Reference.step 1 3) [] (wrappedOps n) := by
  intro h
  have hbefore : Mealy.after ScopedSeenIds.step (ScopedSeenIds.new 1 3) beforeChurn = churned 4 := rfl
  have hseen : Mealy.after ScopedSeenIds.step (ScopedSeenIds.new 1 3)
      (beforeChurn ++ (List.replicate n churn).flatten) = churned 1 := by
    rw [Mealy.after_append, hbefore, after_churns, hn]
  have hlive : Mealy.after (Reference.step 1 3) []
      (beforeChurn ++ (List.replicate n churn).flatten)
        = Mealy.after (Reference.step 1 3) [] beforeChurn := by
    rw [Mealy.after_append, reference_churns]
  rw [wrappedOps, Mealy.outputs_append _ _ (beforeChurn ++ _) afterChurn, hseen,
    Mealy.outputs_append _ [] (beforeChurn ++ _) afterChurn, hlive] at h
  have hlast := congrArg List.getLast? h
  rw [List.getLast?_append, List.getLast?_append] at hlast
  have hcode : Mealy.outputs ScopedSeenIds.step (churned 1) afterChurn
      = [.first true, .first true, .first true, .first false] := by decide +kernel
  have hreference : Mealy.outputs (Reference.step 1 3)
      (Mealy.after (Reference.step 1 3) [] beforeChurn) afterChurn
        = [.first true, .first true, .first true, .first true] := by decide +kernel
  rw [hcode, hreference] at hlast
  simp at hlast

/-- After 2^64 - 1 insertions the windows are not plain any more. -/
theorem not_windows_of_wrapped :
    Mealy.outputs ScopedSeenIds.step (ScopedSeenIds.new 1 3) (wrappedOps (2 ^ 64 - 4))
      ≠ Mealy.outputs (Reference.step 1 3) [] (wrappedOps (2 ^ 64 - 4)) :=
  outputs_ne_of_iterate (iterate_nextGeneration (by decide))

end NostrPubsub.Fips
