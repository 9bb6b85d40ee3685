import Mathlib.Data.Finmap
import Mathlib.Data.List.Sort
import Mathlib.Algebra.GroupWithZero.Nat
import Mathlib.Algebra.BigOperators.Group.Finset.Basic
import Mathlib.Algebra.BigOperators.Group.Multiset.Basic
import Mathlib.Algebra.Order.BigOperators.Group.Multiset

/-!
# Finite maps with an unspecified iteration order

`Finmap` is a finite map without an order on its entries, which is what a hash map
promises. This file adds the operations a program performs on one beyond
`lookup`/`insert`/`erase`:

- `Finmap.filter`: keep the entries that satisfy a predicate;
- `Finmap.size`: the number of entries;
- `Finmap.total`: the sum of a weight over the values;
- `Finmap.Enumeration`: one visit of every entry, in an order that is not specified.

It also lists a finite set in ascending order by a structurally recursive sort, so that
the kernel can evaluate it (`Finset.ascending`).
-/

namespace Finmap

variable {α : Type*} {β : α → Type*} [DecidableEq α]

/-! ## Entries -/

/-- Inserting what is already there changes nothing. -/
theorem insert_eq_self {s : Finmap β} {a : α} {b : β a} (h : s.lookup a = some b) :
    s.insert a b = s := by
  apply ext_lookup
  intro x
  by_cases hx : x = a
  · subst hx
    rw [lookup_insert, h]
  · rw [lookup_insert_of_ne s hx]

/-- Inserting at a key is erasing the key and inserting afresh. -/
theorem insert_erase (s : Finmap β) (a : α) (b : β a) :
    (s.erase a).insert a b = s.insert a b := by
  apply ext_lookup
  intro x
  by_cases hx : x = a
  · subst hx
    rw [lookup_insert, lookup_insert]
  · rw [lookup_insert_of_ne _ hx, lookup_insert_of_ne _ hx, lookup_erase_ne hx]

/-- Erasing an absent key changes nothing. -/
theorem erase_eq_self {s : Finmap β} {a : α} (h : s.lookup a = none) : s.erase a = s := by
  apply ext_lookup
  intro x
  by_cases hx : x = a
  · subst hx
    rw [lookup_erase, h]
  · rw [lookup_erase_ne hx]

/-- An insertion and the erasure of another key commute. -/
theorem erase_insert_of_ne {s : Finmap β} {a c : α} {b : β a} (h : a ≠ c) :
    (s.insert a b).erase c = (s.erase c).insert a b := by
  apply ext_lookup
  intro x
  by_cases hc : x = c
  · subst hc
    rw [lookup_erase, lookup_insert_of_ne _ h.symm, lookup_erase]
  · rw [lookup_erase_ne hc]
    by_cases ha : x = a
    · subst ha
      rw [lookup_insert, lookup_insert]
    · rw [lookup_insert_of_ne _ ha, lookup_insert_of_ne _ ha, lookup_erase_ne hc]

/-- The entries after an insertion: the new one and those of the other keys. -/
theorem entries_insert (s : Finmap β) (a : α) (b : β a) :
    (s.insert a b).entries = ⟨a, b⟩ ::ₘ (s.erase a).entries := by
  rw [← insert_erase, entries_insert_of_notMem notMem_erase_self]

/-- What a lookup finds after an erasure. -/
theorem lookup_erase_eq_some {s : Finmap β} {a x : α} {b : β x} :
    (s.erase a).lookup x = some b ↔ x ≠ a ∧ s.lookup x = some b := by
  by_cases hx : x = a
  · subst hx
    simp
  · simp [hx, lookup_erase_ne hx]

/-- What a lookup finds after an insertion. -/
theorem lookup_insert_eq_some {ν : Type*} {s : Finmap fun _ : α => ν} {a x : α} {b y : ν} :
    (s.insert a b).lookup x = some y ↔ x = a ∧ b = y ∨ x ≠ a ∧ s.lookup x = some y := by
  by_cases hx : x = a
  · subst hx
    simp
  · simp [hx, lookup_insert_of_ne s hx]

/-! ## Filtering -/

/-- Keep the entries that satisfy `p` (`HashMap::retain`). -/
def filter (p : ∀ a, β a → Bool) (s : Finmap β) : Finmap β where
  entries := s.entries.filter fun e => p e.1 e.2
  nodupKeys := by
    rw [← Multiset.nodup_keys]
    exact Multiset.nodup_of_le (Multiset.map_le_map (Multiset.filter_le _ _))
      s.nodupKeys.nodup_keys

/-- An entry survives filtering iff it was there and satisfies the predicate. -/
theorem lookup_filter (p : ∀ a, β a → Bool) (s : Finmap β) (a : α) :
    (s.filter p).lookup a = (s.lookup a).filter (p a) := by
  ext b
  change b ∈ (s.filter p).lookup a ↔ b ∈ (s.lookup a).filter (p a)
  rw [mem_lookup_iff, Option.mem_filter_iff, mem_lookup_iff]
  simp [filter, Multiset.mem_filter]

theorem lookup_filter_eq_some {p : ∀ a, β a → Bool} {s : Finmap β} {a : α} {b : β a} :
    (s.filter p).lookup a = some b ↔ s.lookup a = some b ∧ p a b = true := by
  rw [lookup_filter, Option.filter_eq_some_iff]

theorem mem_filter {p : ∀ a, β a → Bool} {s : Finmap β} {a : α} :
    a ∈ s.filter p ↔ ∃ b, s.lookup a = some b ∧ p a b = true := by
  rw [mem_iff]
  simp only [lookup_filter_eq_some]

/-- Filtering by a predicate that holds of every entry changes nothing. -/
theorem filter_eq_self {p : ∀ a, β a → Bool} {s : Finmap β}
    (h : ∀ a b, s.lookup a = some b → p a b = true) : s.filter p = s := by
  apply ext_lookup
  intro x
  rw [lookup_filter]
  cases hx : s.lookup x with
  | none => rfl
  | some b => simp [h x b hx]

/-! ## Size -/

/-- The number of entries (`HashMap::len`). -/
def size (s : Finmap β) : ℕ := s.keys.card

omit [DecidableEq α] in
@[simp]
theorem size_empty : (∅ : Finmap β).size = 0 := rfl

theorem keys_insert (s : Finmap β) (a : α) (b : β a) :
    (s.insert a b).keys = Insert.insert a s.keys := by
  ext x
  simp [mem_keys]

theorem keys_filter_subset (p : ∀ a, β a → Bool) (s : Finmap β) :
    (s.filter p).keys ⊆ s.keys := by
  intro x hx
  rw [mem_keys, mem_filter] at hx
  obtain ⟨b, hb, _⟩ := hx
  exact mem_keys.mpr (mem_of_lookup_eq_some hb)

/-- Inserting at a present key keeps the size. -/
theorem size_insert_of_mem {s : Finmap β} {a : α} (h : a ∈ s) (b : β a) :
    (s.insert a b).size = s.size := by
  rw [size, size, keys_insert, Finset.insert_eq_of_mem (mem_keys.mpr h)]

/-- Inserting at a fresh key adds one. -/
theorem size_insert_of_notMem {s : Finmap β} {a : α} (h : a ∉ s) (b : β a) :
    (s.insert a b).size = s.size + 1 := by
  rw [size, size, keys_insert, Finset.card_insert_of_notMem (mt mem_keys.mp h)]

/-- Erasing a present key takes one away. -/
theorem size_erase_of_lookup {s : Finmap β} {a : α} {b : β a} (h : s.lookup a = some b) :
    (s.erase a).size + 1 = s.size := by
  rw [← size_insert_of_notMem notMem_erase_self b, insert_erase, insert_eq_self h]

theorem size_filter_le (p : ∀ a, β a → Bool) (s : Finmap β) : (s.filter p).size ≤ s.size :=
  Finset.card_le_card (keys_filter_subset p s)

/-- A filter that drops nothing by number drops nothing. -/
theorem filter_eq_self_of_size {p : ∀ a, β a → Bool} {s : Finmap β}
    (h : s.size ≤ (s.filter p).size) : s.filter p = s := by
  have hkeys : (s.filter p).keys = s.keys := Finset.eq_of_subset_of_card_le (keys_filter_subset p s) h
  refine filter_eq_self fun a b hlookup => ?_
  have hmem : a ∈ (s.filter p).keys := by
    rw [hkeys]
    exact mem_keys.mpr (mem_of_lookup_eq_some hlookup)
  obtain ⟨b', hkept⟩ := mem_iff.mp (mem_keys.mp hmem)
  obtain ⟨hlookup', hp⟩ := lookup_filter_eq_some.mp hkept
  rw [hlookup] at hlookup'
  cases hlookup'
  exact hp

omit [DecidableEq α] in
/-- A map whose keys all occur in another is no larger. -/
theorem size_le_size {γ : α → Type*} {s : Finmap β} {t : Finmap γ} (h : ∀ a, a ∈ s → a ∈ t) :
    s.size ≤ t.size :=
  Finset.card_le_card fun a ha => mem_keys.mpr (h a (mem_keys.mp ha))

/-! ## Changing the values -/

/-- Change every value, or drop it (`HashMap::retain` with a closure that mutates). -/
def filterMapValues (f : ∀ a, β a → Option (β a)) (s : Finmap β) : Finmap β where
  entries := s.entries.filterMap fun e => (f e.1 e.2).map (Sigma.mk e.1)
  nodupKeys := by
    obtain ⟨entries, hnodup⟩ := s
    induction entries using Quot.inductionOn with
    | h l =>
      have hsublist : ∀ l : List (Sigma β),
          ((l.filterMap fun e => (f e.1 e.2).map (Sigma.mk e.1)).keys).Sublist l.keys := by
        intro l
        induction l with
        | nil => exact List.Sublist.refl _
        | cons e l ih =>
          cases hf : f e.1 e.2 with
          | none =>
            rw [List.filterMap_cons_none (by rw [hf]; rfl)]
            exact ih.cons _
          | some b =>
            rw [List.filterMap_cons_some (b := ⟨e.1, b⟩) (by rw [hf]; rfl)]
            exact ih.cons_cons _
      exact List.Nodup.sublist (hsublist l) hnodup

/-- The values after a change. -/
theorem lookup_filterMapValues (f : ∀ a, β a → Option (β a)) (s : Finmap β) (a : α) :
    (s.filterMapValues f).lookup a = (s.lookup a).bind (f a) := by
  ext b
  rw [Option.bind_eq_some_iff, Finmap.lookup_eq_some_iff]
  simp only [filterMapValues, Multiset.mem_filterMap, Option.map_eq_some_iff]
  constructor
  · rintro ⟨⟨a', b'⟩, hmem, b'', hf, heq⟩
    cases heq
    exact ⟨b', Finmap.lookup_eq_some_iff.mpr hmem, hf⟩
  · rintro ⟨b', hlookup, hf⟩
    exact ⟨⟨a, b'⟩, Finmap.lookup_eq_some_iff.mp hlookup, b, hf, rfl⟩

theorem lookup_filterMapValues_eq_some {f : ∀ a, β a → Option (β a)} {s : Finmap β} {a : α}
    {b : β a} :
    (s.filterMapValues f).lookup a = some b ↔ ∃ old, s.lookup a = some old ∧ f a old = some b := by
  rw [lookup_filterMapValues, Option.bind_eq_some_iff]

/-! ## Sums over the values -/

/-- The sum of the weight `f` over the values. -/
def total (f : ∀ a, β a → ℕ) (s : Finmap β) : ℕ := (s.entries.map fun e => f e.1 e.2).sum

omit [DecidableEq α] in
@[simp]
theorem total_empty (f : ∀ a, β a → ℕ) : (∅ : Finmap β).total f = 0 := rfl

/-- Inserting a value adds its weight to that of the other keys. -/
theorem total_insert (f : ∀ a, β a → ℕ) (s : Finmap β) (a : α) (b : β a) :
    (s.insert a b).total f = f a b + (s.erase a).total f := by
  rw [total, entries_insert, Multiset.map_cons, Multiset.sum_cons, total]

/-- The weight of a present key splits off. -/
theorem total_eq_add_erase (f : ∀ a, β a → ℕ) {s : Finmap β} {a : α} {b : β a}
    (h : s.lookup a = some b) : s.total f = f a b + (s.erase a).total f := by
  rw [← total_insert, insert_eq_self h]

/-- Overwriting the value at `a`, which counts as `d` where there is none. -/
theorem total_insert_getD {ν : Type*} {f : α → ν → ℕ} {a : α} {d : ν} (hd : f a d = 0)
    (s : Finmap fun _ : α => ν) (b : ν) :
    (s.insert a b).total f + f a ((s.lookup a).getD d) = s.total f + f a b := by
  rw [total_insert]
  cases h : s.lookup a with
  | none =>
    rw [erase_eq_self h, Option.getD_none, hd]
    omega
  | some c =>
    rw [total_eq_add_erase f h, Option.getD_some]
    omega

/-- A sum over the values, as a sum over the keys. -/
theorem total_eq_sum_keys (f : ∀ a, β a → ℕ) (s : Finmap β) :
    s.total f = ∑ a ∈ s.keys, ((s.lookup a).elim 0 (f a)) := by
  have hkeys : s.keys.val = s.entries.map Sigma.fst := rfl
  rw [Finset.sum, hkeys, Multiset.map_map, total]
  congr 1
  refine Multiset.map_congr rfl fun e he => ?_
  have hlookup : s.lookup e.1 = some e.2 := by
    rw [Finmap.lookup_eq_some_iff]
    exact he
  rw [Function.comp_apply, hlookup]
  rfl

omit [DecidableEq α] in
/-- Filtering does not increase a sum. -/
theorem total_filter_le (f : ∀ a, β a → ℕ) (p : ∀ a, β a → Bool) (s : Finmap β) :
    (s.filter p).total f ≤ s.total f := by
  have hle : (s.filter p).entries ≤ s.entries := Multiset.filter_le _ _
  obtain ⟨rest, hrest⟩ := Multiset.le_iff_exists_add.mp hle
  rw [total, total, hrest, Multiset.map_add, Multiset.sum_add]
  exact Nat.le_add_right _ _

/-! ## Iteration -/

/-- One visit of every entry of a map, in an order that is not specified: what iterating
over a hash map does. -/
structure Enumeration (β : α → Type*) where
  /-- The entries in the order visited. -/
  visit : Finmap β → List (Sigma β)
  /-- Every entry is visited exactly once. -/
  visit_entries : ∀ s, (visit s : Multiset (Sigma β)) = s.entries

theorem Enumeration.mem_visit (e : Enumeration β) {s : Finmap β} {entry : Sigma β} :
    entry ∈ e.visit s ↔ s.lookup entry.1 = some entry.2 := by
  rw [lookup_eq_some_iff, ← e.visit_entries, Multiset.mem_coe]

omit [DecidableEq α] in
/-- The total of a map is the sum over one visit. -/
theorem Enumeration.sum_visit (e : Enumeration β) (f : ∀ a, β a → ℕ) (s : Finmap β) :
    ((e.visit s).map fun entry => f entry.1 entry.2).sum = s.total f := by
  rw [total, ← e.visit_entries s, Multiset.map_coe, Multiset.sum_coe]

end Finmap

/-! ## Ascending lists of finite sets -/

namespace Finset

variable {α : Type*} [LinearOrder α]

/-- The elements of a finite set in ascending order (`BTreeSet::iter`). It is `Finset.sort`
with a sort that the kernel evaluates. -/
def ascending (s : Finset α) : List α :=
  Quot.liftOn s.val (List.insertionSort (· ≤ ·)) fun _ _ h =>
    List.Perm.eq_of_pairwise' (List.pairwise_insertionSort _ _) (List.pairwise_insertionSort _ _)
      ((List.perm_insertionSort _ _).trans (h.trans (List.perm_insertionSort _ _).symm))

theorem ascending_val (s : Finset α) : (s.ascending : Multiset α) = s.val := by
  obtain ⟨⟨l⟩, hl⟩ := s
  exact Quot.sound (List.perm_insertionSort _ l)

@[simp]
theorem mem_ascending {s : Finset α} {a : α} : a ∈ s.ascending ↔ a ∈ s := by
  rw [← Multiset.mem_coe, ascending_val, Finset.mem_val]

theorem nodup_ascending (s : Finset α) : s.ascending.Nodup := by
  rw [← Multiset.coe_nodup, ascending_val]
  exact s.nodup

theorem length_ascending (s : Finset α) : s.ascending.length = s.card := by
  rw [← Multiset.coe_card, ascending_val, Finset.card_def]

theorem pairwise_ascending (s : Finset α) : s.ascending.Pairwise (· < ·) := by
  have hle : s.ascending.Pairwise (· ≤ ·) := by
    obtain ⟨⟨l⟩, hl⟩ := s
    exact List.pairwise_insertionSort _ l
  exact (hle.and s.nodup_ascending).imp fun h => lt_of_le_of_ne h.1 h.2

/-- Listing a part of a set is listing the set and keeping the part. -/
theorem ascending_filter (s : Finset α) (p : α → Prop) [DecidablePred p] :
    (s.filter p).ascending = s.ascending.filter fun a => p a := by
  refine List.Perm.eq_of_pairwise' ((pairwise_ascending _).imp le_of_lt)
    (((pairwise_ascending s).filter _).imp le_of_lt) ?_
  rw [← Multiset.coe_eq_coe, ascending_val, ← Multiset.filter_coe, ascending_val]
  exact Multiset.filter_congr fun _ _ => Iff.rfl

end Finset

namespace Finmap

/-- The enumeration in ascending key order. -/
def Enumeration.ascending {α : Type*} [LinearOrder α] (β : α → Type*) : Enumeration β where
  visit s := s.keys.ascending.filterMap fun a => (s.lookup a).map fun b => ⟨a, b⟩
  visit_entries s := by
    apply (Multiset.Nodup.ext ?_ s.nodup_entries).mpr
    · rintro ⟨a, b⟩
      rw [← lookup_eq_some_iff]
      simp only [Multiset.mem_coe, List.mem_filterMap, Finset.mem_ascending, mem_keys,
        Option.map_eq_some_iff]
      constructor
      · rintro ⟨x, _, y, hy, hxy⟩
        cases hxy
        exact hy
      · intro h
        exact ⟨a, mem_of_lookup_eq_some h, b, h, rfl⟩
    · rw [Multiset.coe_nodup]
      refine s.keys.nodup_ascending.filterMap ?_
      intro x y e hx hy
      simp only [Option.mem_def, Option.map_eq_some_iff] at hx hy
      obtain ⟨_, _, rfl⟩ := hx
      obtain ⟨_, _, hy⟩ := hy
      exact (congrArg Sigma.fst hy).symm

end Finmap
