import NostrPubsub.ToMathlib.Finmap

/-!
# Insertion-order queues of the keys of a map

A bounded table is often kept as a map together with a queue of its keys in the order of
insertion, so that the oldest key can be dropped. `Enumerates order s` says that the queue
and the map agree: every key of `s` stands exactly once in `order`, and nothing else does.
The lemmas follow the three ways a program changes both: append a fresh key, drop the
oldest one, keep a part.
-/

variable {α : Type*} {β : α → Type*} [DecidableEq α]

/-- `order` lists the keys of `s`, each once. -/
structure Enumerates (order : List α) (s : Finmap β) : Prop where
  /-- No key is queued twice. -/
  nodup : order.Nodup
  /-- The queued keys are those of the map. -/
  mem_iff : ∀ a, a ∈ order ↔ a ∈ s

namespace Enumerates

variable {order : List α} {s : Finmap β}

omit [DecidableEq α] in
theorem empty : Enumerates ([] : List α) (∅ : Finmap β) :=
  ⟨List.nodup_nil, fun a => by simp [Finmap.notMem_empty]⟩

/-- The queue is as long as the map. -/
theorem length_eq (h : Enumerates order s) : order.length = s.size := by
  have hkeys : order.toFinset = s.keys := by
    ext a
    rw [List.mem_toFinset, h.mem_iff, Finmap.mem_keys]
  rw [Finmap.size, ← hkeys, List.toFinset_card_of_nodup h.nodup]

/-- A fresh key goes to the back of the queue. -/
theorem push (h : Enumerates order s) {a : α} (ha : a ∉ s) (b : β a) :
    Enumerates (order ++ [a]) (s.insert a b) := by
  refine ⟨?_, fun x => ?_⟩
  · rw [List.nodup_append]
    refine ⟨h.nodup, List.nodup_singleton a, ?_⟩
    intro x hx y hy hxy
    have hxa : x = a := hxy.trans (List.mem_singleton.mp hy)
    exact ha ((h.mem_iff a).mp (hxa ▸ hx))
  · simp [h.mem_iff, or_comm]

/-- A key that is already there keeps its place in the queue. -/
theorem replace (h : Enumerates order s) {a : α} (ha : a ∈ s) (b : β a) :
    Enumerates order (s.insert a b) := by
  refine ⟨h.nodup, fun x => ?_⟩
  rw [h.mem_iff, Finmap.mem_insert]
  constructor
  · exact Or.inr
  · rintro (rfl | hx)
    · exact ha
    · exact hx

/-- Dropping the front of the queue and its entry. -/
theorem pop {a : α} (h : Enumerates (a :: order) s) : Enumerates order (s.erase a) := by
  have hnodup := List.nodup_cons.mp h.nodup
  refine ⟨hnodup.2, fun x => ?_⟩
  rw [Finmap.mem_erase, ← h.mem_iff, List.mem_cons]
  constructor
  · intro hx
    exact ⟨fun hxa => hnodup.1 (hxa ▸ hx), Or.inr hx⟩
  · rintro ⟨hne, rfl | hx⟩
    · exact absurd rfl hne
    · exact hx

/-- Keeping a part of the entries, and the keys that are still there. -/
theorem retain (h : Enumerates order s) (p : ∀ a, β a → Bool) :
    Enumerates (order.filter fun a => a ∈ s.filter p) (s.filter p) := by
  refine ⟨h.nodup.filter _, fun x => ?_⟩
  rw [List.mem_filter, decide_eq_true_iff]
  constructor
  · exact And.right
  · intro hx
    refine ⟨(h.mem_iff x).mpr ?_, hx⟩
    exact Finmap.mem_keys.mp (Finmap.keys_filter_subset p s (Finmap.mem_keys.mpr hx))

/-- Changing or dropping entries, and keeping the keys that are still there. -/
theorem filterMapValues (h : Enumerates order s) (f : ∀ a, β a → Option (β a)) :
    Enumerates (order.filter fun a => a ∈ s.filterMapValues f) (s.filterMapValues f) := by
  refine ⟨h.nodup.filter _, fun x => ?_⟩
  rw [List.mem_filter, decide_eq_true_iff]
  constructor
  · exact And.right
  · intro hx
    obtain ⟨b, hb⟩ := Finmap.mem_iff.mp hx
    obtain ⟨old, hold, -⟩ := Finmap.lookup_filterMapValues_eq_some.mp hb
    exact ⟨(h.mem_iff x).mpr (Finmap.mem_of_lookup_eq_some hold), hx⟩

omit [DecidableEq α] in
/-- The front of the queue is a key. -/
theorem head_mem {a : α} (h : Enumerates (a :: order) s) : a ∈ s :=
  (h.mem_iff a).mp List.mem_cons_self

/-- An empty queue means an empty map. -/
theorem eq_empty (h : Enumerates ([] : List α) s) : s = ∅ := by
  apply Finmap.ext_lookup
  intro a
  rw [Finmap.lookup_empty, Finmap.lookup_eq_none]
  intro ha
  simpa using (h.mem_iff a).mpr ha

end Enumerates

/-! ## Eviction -/

/-- Drop the oldest keys while the map holds `capacity` entries or more. -/
def evictOldest (capacity : ℕ) : List α → Finmap β → List α × Finmap β
  | [], s => ([], s)
  | oldest :: rest, s =>
    if capacity ≤ s.size then evictOldest capacity rest (s.erase oldest) else (oldest :: rest, s)

/-- Nothing is dropped while there is room. -/
theorem evictOldest_eq_self {capacity : ℕ} {order : List α} {s : Finmap β} (h : ¬ capacity ≤ s.size) :
    evictOldest capacity order s = (order, s) := by
  cases order with
  | nil => rfl
  | cons oldest rest => rw [evictOldest, if_neg h]

namespace Enumerates

variable {order : List α} {s : Finmap β}

/-- Eviction keeps the queue and the map in agreement. -/
theorem of_evictOldest (capacity : ℕ) (h : Enumerates order s) :
    Enumerates (evictOldest capacity order s).1 (evictOldest capacity order s).2 := by
  induction order generalizing s with
  | nil => exact h
  | cons oldest rest ih =>
    rw [evictOldest]
    split
    · exact ih h.pop
    · exact h

/-- After eviction there is room for one more entry. -/
theorem size_evictOldest_lt {capacity : ℕ} (hcap : 0 < capacity) (h : Enumerates order s) :
    (evictOldest capacity order s).2.size < capacity := by
  induction order generalizing s with
  | nil =>
    rw [evictOldest, ← h.length_eq]
    exact hcap
  | cons oldest rest ih =>
    rw [evictOldest]
    split
    · exact ih h.pop
    · next hlt => exact Nat.lt_of_not_ge hlt

end Enumerates

/-- What survives eviction was there before, with the same value. -/
theorem lookup_evictOldest {capacity : ℕ} {order : List α} {s : Finmap β} {a : α} {b : β a}
    (h : (evictOldest capacity order s).2.lookup a = some b) : s.lookup a = some b := by
  induction order generalizing s with
  | nil => exact h
  | cons oldest rest ih =>
    rw [evictOldest] at h
    split at h
    · have herase := ih h
      by_cases ha : a = oldest
      · subst ha
        simp at herase
      · rwa [Finmap.lookup_erase_ne ha] at herase
    · exact h

/-- Two maps that agree up to a relation of the values have as many entries. -/
theorem size_eq_of_rel {r : ∀ a, β a → β a → Prop} {s t : Finmap β}
    (h : ∀ a, Option.Rel (r a) (s.lookup a) (t.lookup a)) : s.size = t.size := by
  have hkeys : s.keys = t.keys := by
    ext a
    rw [Finmap.mem_keys, Finmap.mem_keys, ← Finmap.lookup_isSome, ← Finmap.lookup_isSome]
    have ha := h a
    generalize s.lookup a = found, t.lookup a = found' at ha ⊢
    cases ha with
    | none => rfl
    | some => rfl
  rw [Finmap.size, hkeys, Finmap.size]

/-- Two maps that agree up to a relation of the values lose the same keys. -/
theorem evictOldest_rel {r : ∀ a, β a → β a → Prop} (capacity : ℕ) (order : List α)
    {s t : Finmap β} (h : ∀ a, Option.Rel (r a) (s.lookup a) (t.lookup a)) :
    (evictOldest capacity order s).1 = (evictOldest capacity order t).1 ∧
      ∀ a, Option.Rel (r a) ((evictOldest capacity order s).2.lookup a)
        ((evictOldest capacity order t).2.lookup a) := by
  induction order generalizing s t with
  | nil => exact ⟨rfl, h⟩
  | cons oldest rest ih =>
    rw [evictOldest, evictOldest, size_eq_of_rel h]
    split
    · refine ih fun a => ?_
      by_cases ha : a = oldest
      · subst ha
        rw [Finmap.lookup_erase, Finmap.lookup_erase]
        exact .none
      · rw [Finmap.lookup_erase_ne ha, Finmap.lookup_erase_ne ha]
        exact h a
    · exact ⟨rfl, h⟩

/-- A fresh key after eviction: there is room for it, and it goes to the back of the queue. -/
theorem Enumerates.evict_push {capacity : ℕ} (hcap : 0 < capacity) {order : List α}
    {s : Finmap β} (h : Enumerates order s) {a : α} (ha : a ∉ s) (b : β a) :
    Enumerates ((evictOldest capacity order s).1 ++ [a])
        ((evictOldest capacity order s).2.insert a b)
      ∧ ((evictOldest capacity order s).2.insert a b).size ≤ capacity := by
  have hroom := h.size_evictOldest_lt hcap
  have hfresh : a ∉ (evictOldest capacity order s).2 := by
    intro hmem
    obtain ⟨old, hold⟩ := Finmap.mem_iff.mp hmem
    exact ha (Finmap.mem_of_lookup_eq_some (lookup_evictOldest hold))
  refine ⟨(h.of_evictOldest capacity).push hfresh b, ?_⟩
  rw [Finmap.size_insert_of_notMem hfresh]
  omega

/-- A key outlives eviction, with the keys queued behind it, unless these and the key itself
fill the capacity. -/
theorem Enumerates.evictOldest_keeps {capacity : ℕ} {older newer : List α} {s : Finmap β} {a : α}
    (h : Enumerates (older ++ a :: newer) s) :
    (∃ older', (evictOldest capacity (older ++ a :: newer) s).1 = older' ++ a :: newer ∧
      (evictOldest capacity (older ++ a :: newer) s).2.lookup a = s.lookup a) ∨
    capacity ≤ newer.length + 1 := by
  induction older generalizing s with
  | nil =>
    rw [List.nil_append] at h ⊢
    rw [evictOldest]
    split
    · next hfull =>
      right
      rwa [← h.length_eq, List.length_cons] at hfull
    · exact Or.inl ⟨[], rfl, rfl⟩
  | cons oldest rest ih =>
    rw [List.cons_append] at h ⊢
    rw [evictOldest]
    split
    · -- The front goes; it is not `a`, which stands further back.
      have hne : a ≠ oldest := by
        rintro rfl
        have hnodup := (List.nodup_cons.mp h.nodup).1
        exact hnodup (List.mem_append_right _ List.mem_cons_self)
      rcases ih h.pop with ⟨older', horder, hlookup⟩ | hfull
      · exact Or.inl ⟨older', horder, hlookup.trans (Finmap.lookup_erase_ne hne)⟩
      · exact Or.inr hfull
    · exact Or.inl ⟨oldest :: rest, rfl, rfl⟩

/-- In a full map only the oldest entry makes room. -/
theorem Enumerates.evictOldest_full {capacity : ℕ} {oldest : α} {rest : List α} {s : Finmap β}
    (h : Enumerates (oldest :: rest) s) (hfull : rest.length + 1 = capacity) :
    evictOldest capacity (oldest :: rest) s = (rest, s.erase oldest) := by
  have hsize : capacity ≤ s.size := by rw [← h.length_eq, List.length_cons, hfull]
  have hroom : ¬ capacity ≤ (s.erase oldest).size := by
    rw [← h.pop.length_eq]
    omega
  rw [evictOldest, if_pos hsize, evictOldest_eq_self hroom]
