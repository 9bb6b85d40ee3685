import NostrPubsub.ToMathlib.Fifo

/-!
# Queues in the order of last use

A bounded table that drops what was used least recently keeps its keys in a queue and moves a
key to the back whenever it is used. `moveToBack` is that move, and `popOver` drops the key at the
front, skipping keys that the table does not hold, as long as the table is too large.

`LruPut` is a bounded insertion as a relation: the key is used, and the least recently used
one makes room for it if need be. What a sequence of uses does to the queue is `InOrderOfUse`.
-/

variable {α ν : Type*} [DecidableEq α]

/-- The key moves to the back of the queue, or joins it there. -/
def moveToBack (order : List α) (a : α) : List α := order.filter (· ≠ a) ++ [a]

/-- Pops keys from the front while the table is too large, until one was removed from the
table. Returns what was removed, with its key. -/
def popOver (exceeds : ℕ → Bool) : List α → Finmap (fun _ : α => ν) →
    Option (α × ν) × List α × Finmap (fun _ : α => ν)
  | [], s => (none, [], s)
  | a :: rest, s =>
    if exceeds s.size then
      match s.lookup a with
      | some b => (some (a, b), rest, s.erase a)
      | none => popOver exceeds rest s
    else
      (none, a :: rest, s)

/-- A pop brings no key back. -/
theorem lookup_popOver_eq_none {exceeds : ℕ → Bool} {order : List α} {s : Finmap fun _ : α => ν}
    {a : α} (h : s.lookup a = none) : (popOver exceeds order s).2.2.lookup a = none := by
  fun_induction popOver exceeds order s with
  | case1 s => exact h
  | case2 s oldest rest hover b hb =>
    rw [Finmap.lookup_eq_none] at h ⊢
    exact fun hmem => h (Finmap.mem_erase.mp hmem).2
  | case3 s oldest rest hover hb ih => exact ih h
  | case4 s oldest rest hover => exact h

namespace Enumerates

variable {order : List α} {s : Finmap fun _ : α => ν} {a : α}

theorem mem_moveToBack {x : α} : x ∈ moveToBack order a ↔ x = a ∨ x ∈ order := by
  by_cases hx : x = a
  · simp [moveToBack, hx]
  · simp [moveToBack, hx]

theorem nodup_moveToBack (h : order.Nodup) : (moveToBack order a).Nodup := by
  rw [moveToBack, List.nodup_append]
  refine ⟨h.filter _, List.nodup_singleton a, ?_⟩
  rintro x hx y hy rfl
  rw [List.mem_singleton.mp hy] at hx
  simp at hx

/-- Using a key keeps the queue in step with the table. -/
theorem use (h : Enumerates order s) (a : α) (b : ν) :
    Enumerates (moveToBack order a) (s.insert a b) := by
  refine ⟨nodup_moveToBack h.nodup, fun x => ?_⟩
  rw [mem_moveToBack, Finmap.mem_insert, h.mem_iff]

/-- Removing a key from both. -/
theorem remove (h : Enumerates order s) (a : α) :
    Enumerates (order.filter (· ≠ a)) (s.erase a) := by
  refine ⟨h.nodup.filter _, fun x => ?_⟩
  rw [List.mem_filter, Finmap.mem_erase, h.mem_iff, decide_eq_true_eq, and_comm]

/-- A key that the table does not hold joins at the back. -/
theorem moveToBack_of_notMem (h : Enumerates order s) (ha : a ∉ s) :
    moveToBack order a = order ++ [a] := by
  rw [moveToBack, List.filter_eq_self.mpr]
  intro x hx
  refine decide_eq_true ?_
  rintro rfl
  exact ha ((h.mem_iff x).mp hx)

/-- What `popOver` does to a queue that lists the keys of the table, with further keys behind
them: it removes the first key, if the table is too large. -/
theorem popOver_cases (h : Enumerates order s) (exceeds : ℕ → Bool)
    (hover : exceeds s.size → 0 < s.size) (behind : List α) :
    (exceeds s.size = false ∧ popOver exceeds (order ++ behind) s = (none, order ++ behind, s))
    ∨ ∃ a rest b, order = a :: rest ∧ s.lookup a = some b ∧ exceeds s.size = true
      ∧ popOver exceeds (order ++ behind) s = (some (a, b), rest ++ behind, s.erase a) := by
  cases hsize : exceeds s.size with
  | false =>
    refine .inl ⟨rfl, ?_⟩
    cases order ++ behind with
    | nil => rfl
    | cons a rest => simp [popOver, hsize]
  | true =>
    right
    cases order with
    | nil =>
      have hlength := h.length_eq
      have hpos := hover hsize
      simp only [List.length_nil] at hlength
      omega
    | cons a rest =>
      obtain ⟨b, hb⟩ := Finmap.mem_iff.mp h.head_mem
      exact ⟨a, rest, b, rfl, hb, rfl, by simp [popOver, hsize, hb]⟩

end Enumerates

/-! ## Uses -/

/-- How many uses ago a key was used last; the number of all uses if it never was. -/
def usesAgo (uses : List α) (a : α) : ℕ := uses.reverse.idxOf a

/-- The last use of `a` is before that of `b`. -/
def UsedBefore (uses : List α) (a b : α) : Prop := usesAgo uses b < usesAgo uses a

/-- The queue lists its keys by their last use. -/
def InOrderOfUse (uses order : List α) : Prop := order.Pairwise (UsedBefore uses)

/-- The key of the table that was used least recently. -/
def LeastRecent (uses : List α) (s : Finmap fun _ : α => ν) (a : α) : Prop :=
  a ∈ s ∧ ∀ b ∈ s, b ≠ a → UsedBefore uses a b

theorem usesAgo_concat_self (uses : List α) (a : α) : usesAgo (uses ++ [a]) a = 0 := by
  simp [usesAgo]

theorem usesAgo_concat_of_ne (uses : List α) {a c : α} (h : a ≠ c) :
    usesAgo (uses ++ [c]) a = usesAgo uses a + 1 := by
  rw [usesAgo, List.reverse_append, List.reverse_singleton, List.singleton_append,
    List.idxOf_cons_ne _ h.symm, usesAgo]

/-- A use of another key does not change the order of two keys. -/
theorem UsedBefore.concat {uses : List α} {a b c : α} (h : UsedBefore uses a b) (ha : a ≠ c)
    (hb : b ≠ c) : UsedBefore (uses ++ [c]) a b := by
  rw [UsedBefore, usesAgo_concat_of_ne uses ha, usesAgo_concat_of_ne uses hb]
  exact Nat.succ_lt_succ h

/-- What was just used is the most recent. -/
theorem usedBefore_concat_self (uses : List α) {a c : α} (ha : a ≠ c) :
    UsedBefore (uses ++ [c]) a c := by
  rw [UsedBefore, usesAgo_concat_self, usesAgo_concat_of_ne uses ha]
  exact Nat.succ_pos _

theorem LeastRecent.unique {uses : List α} {s : Finmap fun _ : α => ν} {a b : α}
    (ha : LeastRecent uses s a) (hb : LeastRecent uses s b) : a = b := by
  by_contra hne
  exact Nat.lt_asymm (ha.2 b hb.1 fun heq => hne heq.symm) (hb.2 a ha.1 hne)

namespace InOrderOfUse

variable {uses order : List α} {s : Finmap fun _ : α => ν} {a c : α}

/-- A use of a key outside the queue leaves it in order. -/
theorem concat_of_notMem (h : InOrderOfUse uses order) (hc : c ∉ order) :
    InOrderOfUse (uses ++ [c]) order := by
  refine h.imp_of_mem fun ha hb hab => hab.concat ?_ ?_
  · rintro rfl
    exact hc ha
  · rintro rfl
    exact hc hb

/-- The used key goes to the back of a queue that is in order and has no other entry for it. -/
theorem use_back (h : InOrderOfUse uses order) (hc : c ∉ order) :
    InOrderOfUse (uses ++ [c]) (order ++ [c]) := by
  refine List.pairwise_append.mpr ⟨h.concat_of_notMem hc, List.pairwise_singleton _ _, ?_⟩
  intro a ha b hb
  rw [List.mem_singleton] at hb
  subst hb
  refine usedBefore_concat_self uses ?_
  rintro rfl
  exact hc ha

/-- A use moves its key to the back. -/
theorem moveToBack (h : InOrderOfUse uses order) (c : α) :
    InOrderOfUse (uses ++ [c]) (moveToBack order c) :=
  use_back (h.sublist List.filter_sublist) (by simp)

/-- The front of the queue is the least recent key. -/
theorem head_leastRecent (h : InOrderOfUse uses (a :: order)) (henum : Enumerates (a :: order) s) :
    LeastRecent uses s a := by
  refine ⟨henum.head_mem, fun b hb hne => ?_⟩
  rcases List.mem_cons.mp ((henum.mem_iff b).mpr hb) with rfl | hmem
  · exact absurd rfl hne
  · exact List.rel_of_pairwise_cons h hmem

end InOrderOfUse

/-! ## Bounded insertion -/

/-- A key is put into a table of bounded size: in place of its old value, or beside the others
while there is room, or else in place of the key at the front of the queue. -/
inductive LruPut (capacity : ℕ) (order : List α) (s : Finmap fun _ : α => ν) (a : α) (b : ν) :
    Option ν → List α → (Finmap fun _ : α => ν) → Prop where
  | known (hknown : a ∈ s) : LruPut capacity order s a b none (moveToBack order a) (s.insert a b)
  | fresh (hnew : a ∉ s) (hroom : s.size < capacity) :
      LruPut capacity order s a b none (order ++ [a]) (s.insert a b)
  | evicting (hnew : a ∉ s) (hfull : capacity ≤ s.size) {oldest : α} {rest : List α} {old : ν}
      (horder : order = oldest :: rest) (hold : s.lookup oldest = some old) :
      LruPut capacity order s a b (some old) (rest ++ [a]) ((s.erase oldest).insert a b)

namespace LruPut

variable {capacity : ℕ} {order order' : List α} {s s' : Finmap fun _ : α => ν} {a : α} {b : ν}
  {evicted : Option ν}

/-- A fresh key: first make room, then insert. -/
theorem of_popOver_insert (h : Enumerates order s) (hcapacity : 0 < capacity) (hnew : a ∉ s)
    (b : ν) :
    LruPut capacity order s a b
      ((popOver (fun size => capacity ≤ size) (moveToBack order a) s).1.map (·.2))
      (popOver (fun size => capacity ≤ size) (moveToBack order a) s).2.1
      ((popOver (fun size => capacity ≤ size) (moveToBack order a) s).2.2.insert a b) := by
  rw [h.moveToBack_of_notMem hnew]
  have hpop := h.popOver_cases (fun size => decide (capacity ≤ size))
    (fun hover => by rw [decide_eq_true_eq] at hover; omega) [a]
  rcases hpop with ⟨hroom, hpopped⟩ | ⟨oldest, rest, old, horder, hold, hfull, hpopped⟩
  · rw [hpopped]
    exact .fresh hnew (by simpa using hroom)
  · rw [hpopped]
    exact .evicting hnew (by simpa using hfull) horder hold

/-- A fresh key: first insert, then drop what is too much. -/
theorem of_insert_popOver (h : Enumerates order s) (hcapacity : 0 < capacity) (hnew : a ∉ s)
    (b : ν) :
    LruPut capacity order s a b
      ((popOver (fun size => capacity < size) (moveToBack order a) (s.insert a b)).1.map (·.2))
      (popOver (fun size => capacity < size) (moveToBack order a) (s.insert a b)).2.1
      (popOver (fun size => capacity < size) (moveToBack order a) (s.insert a b)).2.2 := by
  rw [h.moveToBack_of_notMem hnew]
  have hsize := Finmap.size_insert_of_notMem hnew b
  have hpop := (h.push hnew b).popOver_cases (fun size => decide (capacity < size))
    (fun _ => by omega) []
  rw [List.append_nil] at hpop
  rcases hpop with ⟨hroom, hpopped⟩ | ⟨oldest, rest, old, horder, hold, hfull, hpopped⟩
  · rw [hpopped]
    rw [decide_eq_false_iff_not] at hroom
    exact .fresh hnew (by omega)
  · rw [hpopped]
    rw [decide_eq_true_eq] at hfull
    -- The table was full before, so the new key is not the only one in the queue.
    cases hqueue : order with
    | nil =>
      have hlength := h.length_eq
      rw [hqueue, List.length_nil] at hlength
      omega
    | cons first others =>
      rw [hqueue, List.cons_append, List.cons.injEq] at horder
      obtain ⟨rfl, rfl⟩ := horder
      have hmem : first ∈ s := (h.mem_iff first).mp (by rw [hqueue]; exact List.mem_cons_self)
      have hne : first ≠ a := fun heq => hnew (heq ▸ hmem)
      rw [Finmap.lookup_insert_of_ne _ hne] at hold
      have hfull' : capacity ≤ s.size := by omega
      rw [Finmap.erase_insert_of_ne hne.symm, List.append_nil]
      exact .evicting hnew hfull' rfl hold

/-- The queue stays in step with the table. -/
theorem enumerates (h : LruPut capacity order s a b evicted order' s') (henum : Enumerates order s) :
    Enumerates order' s' := by
  cases h with
  | known hknown => exact henum.use a b
  | fresh hnew hroom => exact henum.push hnew b
  | evicting hnew hfull horder hold =>
    subst horder
    refine henum.pop.push ?_ b
    intro hmem
    exact hnew (Finmap.mem_erase.mp hmem).2

/-- The table stays within its bound. -/
theorem size_le (h : LruPut capacity order s a b evicted order' s') (hsize : s.size ≤ capacity) :
    s'.size ≤ capacity := by
  cases h with
  | known hknown =>
    rw [Finmap.size_insert_of_mem hknown]
    exact hsize
  | fresh hnew hroom =>
    rw [Finmap.size_insert_of_notMem hnew]
    exact hroom
  | @evicting hnew hfull oldest rest old horder hold =>
    have hnew' : a ∉ s.erase oldest := fun hmem => hnew (Finmap.mem_erase.mp hmem).2
    have herase := Finmap.size_erase_of_lookup hold
    rw [Finmap.size_insert_of_notMem hnew']
    omega

/-- The queue stays in the order of use. -/
theorem inOrderOfUse (h : LruPut capacity order s a b evicted order' s')
    (henum : Enumerates order s) {uses : List α} (horder : InOrderOfUse uses order) :
    InOrderOfUse (uses ++ [a]) order' := by
  cases h with
  | known hknown => exact horder.moveToBack a
  | fresh hnew hroom =>
    exact horder.use_back fun hmem => hnew ((henum.mem_iff a).mp hmem)
  | evicting hnew hfull hqueue hold =>
    subst hqueue
    refine InOrderOfUse.use_back (List.Pairwise.of_cons horder) fun hmem => hnew ?_
    exact (henum.mem_iff a).mp (List.mem_cons_of_mem _ hmem)

/-- The key that was put is there. -/
theorem lookup_self (h : LruPut capacity order s a b evicted order' s') :
    s'.lookup a = some b := by
  cases h with
  | known _ => rw [Finmap.lookup_insert]
  | fresh _ _ => rw [Finmap.lookup_insert]
  | evicting _ _ _ _ => rw [Finmap.lookup_insert]

/-- What is there under another key was there before. -/
theorem lookup_of_ne (h : LruPut capacity order s a b evicted order' s') {x : α} {y : ν}
    (hx : x ≠ a) (hy : s'.lookup x = some y) : s.lookup x = some y := by
  cases h with
  | known _ => rwa [Finmap.lookup_insert_of_ne _ hx] at hy
  | fresh _ _ => rwa [Finmap.lookup_insert_of_ne _ hx] at hy
  | evicting _ _ _ _ =>
    rw [Finmap.lookup_insert_of_ne _ hx] at hy
    exact (Finmap.lookup_erase_eq_some.mp hy).2

/-- What is evicted was there. -/
theorem lookup_evicted (h : LruPut capacity order s a b evicted order' s') {old : ν}
    (hold : evicted = some old) : ∃ x, s.lookup x = some old := by
  cases h with
  | known _ => cases hold
  | fresh _ _ => cases hold
  | @evicting _ _ oldest _ _ _ hlookup =>
    cases hold
    exact ⟨oldest, hlookup⟩

/-- A key goes exactly if a fresh key finds the table full and this one is the least recently
used. -/
theorem notMem_iff (h : LruPut capacity order s a b evicted order' s')
    (henum : Enumerates order s) {uses : List α} (horder : InOrderOfUse uses order) {x : α}
    (hx : x ∈ s) :
    x ∉ s' ↔ a ∉ s ∧ capacity ≤ s.size ∧ LeastRecent uses s x := by
  cases h with
  | known hknown => simp [Finmap.mem_insert, hx, hknown]
  | fresh hnew hroom => simp [Finmap.mem_insert, hx, Nat.not_le.mpr hroom]
  | evicting hnew hfull hqueue hold =>
    subst hqueue
    have hleast := horder.head_leastRecent henum
    have hxa : x ≠ a := fun heq => hnew (heq ▸ hx)
    simp only [Finmap.mem_insert, Finmap.mem_erase, hxa, hx, false_or, and_true, not_not, hnew,
      not_false_eq_true, hfull, true_and]
    constructor
    · rintro rfl
      exact hleast
    · intro hmin
      exact hmin.unique hleast

/-- What is dropped is no more than what was there. -/
theorem dropped_le (h : LruPut capacity order s a b evicted order' s') (f : ν → ℕ) :
    (s.lookup a).elim 0 f + evicted.elim 0 f ≤ s.total fun _ => f := by
  cases h with
  | known hknown =>
    obtain ⟨old, hold⟩ := Finmap.mem_iff.mp hknown
    rw [hold, Finmap.total_eq_add_erase _ hold]
    exact Nat.le_add_right _ _
  | fresh hnew _ =>
    rw [Finmap.lookup_eq_none.mpr hnew]
    exact Nat.zero_le _
  | evicting hnew _ _ hold =>
    rw [Finmap.lookup_eq_none.mpr hnew, Finmap.total_eq_add_erase _ hold, Option.elim_none,
      Option.elim_some, Nat.zero_add]
    exact Nat.le_add_right _ _

/-- The weight of the table changes by what is put and what is dropped. -/
theorem total_add_dropped (h : LruPut capacity order s a b evicted order' s') (f : ν → ℕ) :
    (s'.total fun _ => f) + ((s.lookup a).elim 0 f + evicted.elim 0 f)
      = (s.total fun _ => f) + f b := by
  cases h with
  | known hknown =>
    obtain ⟨old, hold⟩ := Finmap.mem_iff.mp hknown
    rw [Finmap.total_insert, Finmap.total_eq_add_erase _ hold, hold, Option.elim_some,
      Option.elim_none]
    omega
  | fresh hnew _ =>
    have hnone := Finmap.lookup_eq_none.mpr hnew
    rw [Finmap.total_insert, Finmap.erase_eq_self hnone, hnone, Option.elim_none]
    omega
  | @evicting hnew _ oldest rest old _ hold =>
    have hnone := Finmap.lookup_eq_none.mpr hnew
    have hnone' : (s.erase oldest).lookup a = none := by
      rw [Finmap.lookup_eq_none]
      exact fun hmem => hnew (Finmap.mem_erase.mp hmem).2
    rw [Finmap.total_insert, Finmap.erase_eq_self hnone', Finmap.total_eq_add_erase _ hold, hnone,
      Option.elim_none, Option.elim_some]
    omega

end LruPut
