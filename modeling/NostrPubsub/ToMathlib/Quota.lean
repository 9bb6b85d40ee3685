import Mathlib.Algebra.Order.BigOperators.Group.Finset
import Mathlib.Data.Finset.Card
import Mathlib.Data.Finset.Max
import NostrPubsub.ToMathlib.Finmap

/-!
# The greatest elements under nested limits

Elements compete for a place with those of their `pair`, the pairs belong to groups, each group has
at most `N` places and there are at most `M` places in all. `select` is what is kept of a set: the
greatest element of each pair, of these the `N` greatest of each group, and of these the `M`
greatest.

A program that keeps what it selected and puts one more element in, again and again, ends with the
selection of everything it has seen (`select_insert`), whatever it forgot on the way. The reason is
that an element is left out exactly if the elements above it use up one of its places
(`mem_select_iff`), and that elements that are left out use up no place of their own
(`UsedUp.select`).
-/

variable {α κ ρ : Type*} [LinearOrder α]

/-! ## One limit -/

/-- The `n` greatest elements of a set. -/
def Finset.top (n : ℕ) (s : Finset α) : Finset α := s.filter fun a => (s.filter (a < ·)).card < n

theorem Finset.mem_top {n : ℕ} {s : Finset α} {a : α} :
    a ∈ s.top n ↔ a ∈ s ∧ (s.filter (a < ·)).card < n := Finset.mem_filter

theorem Finset.top_subset (n : ℕ) (s : Finset α) : s.top n ⊆ s := Finset.filter_subset _ _

theorem Finset.top_eq_self {n : ℕ} {s : Finset α} (h : s.card ≤ n) : s.top n = s := by
  refine Finset.filter_true_of_mem fun a ha => lt_of_lt_of_le (Finset.card_lt_card ?_) h
  exact Finset.filter_ssubset.mpr ⟨a, ha, lt_irrefl a⟩

theorem Finset.card_top (n : ℕ) (s : Finset α) : (s.top n).card = min n s.card := by
  induction s using Finset.induction_on_min with
  | empty => simp [Finset.top]
  | insert x s hx ih =>
    have hnotMem : x ∉ s := fun hmem => lt_irrefl x (hx x hmem)
    rcases Nat.lt_or_ge s.card n with hroom | hfull
    · rw [Finset.top_eq_self, Finset.card_insert_of_notMem hnotMem]
      · omega
      · rw [Finset.card_insert_of_notMem hnotMem]
        omega
    · -- the least element does not count for the others, and is left out itself
      have htop : (insert x s).top n = s.top n := by
        ext a
        rw [Finset.mem_top, Finset.mem_top, Finset.mem_insert]
        constructor
        · rintro ⟨rfl | ha, hcard⟩
          · rw [Finset.filter_insert, if_neg (lt_irrefl a), Finset.filter_true_of_mem hx] at hcard
            omega
          · rw [Finset.filter_insert, if_neg (not_lt.mpr (hx a ha).le)] at hcard
            exact ⟨ha, hcard⟩
        · rintro ⟨ha, hcard⟩
          rw [Finset.filter_insert, if_neg (not_lt.mpr (hx a ha).le)]
          exact ⟨.inr ha, hcard⟩
      rw [htop, ih, Finset.card_insert_of_notMem hnotMem]
      omega

/-- What is left out is below a full selection. -/
theorem Finset.card_le_of_notMem_top {n : ℕ} {s : Finset α} {a : α} (ha : a ∈ s)
    (hnot : a ∉ s.top n) : n ≤ s.card := by
  by_contra hlt
  rw [Finset.top_eq_self (Nat.le_of_not_le hlt)] at hnot
  exact hnot ha

/-- The elements that stand before the greatest `n` in ascending order are those that are left out. -/
theorem Finset.mem_take_ascending {n : ℕ} {s : Finset α} {a : α} :
    a ∈ s.ascending.take (s.card - n) ↔ a ∈ s ∧ a ∉ s.top n := by
  have hsorted := s.pairwise_ascending
  have hlength := s.length_ascending
  -- the elements above the one at place `i` stand behind it
  have habove : ∀ i (hi : i < s.ascending.length),
      (s.filter (s.ascending[i] < ·)).card = s.card - (i + 1) := by
    intro i hi
    have hlist : (s.filter (s.ascending[i] < ·)).ascending = s.ascending.drop (i + 1) := by
      have hsplit : ∀ p : α → Bool, s.ascending.filter p
          = (s.ascending.take (i + 1)).filter p ++ (s.ascending.drop (i + 1)).filter p := by
        intro p
        rw [← List.filter_append, List.take_append_drop]
      rw [Finset.ascending_filter, hsplit, List.filter_eq_nil_iff.mpr, List.filter_eq_self.mpr,
        List.nil_append]
      · intro b hb
        obtain ⟨j, hj, rfl⟩ := List.getElem_of_mem hb
        rw [List.getElem_drop, decide_eq_true_iff]
        exact List.pairwise_iff_getElem.mp hsorted i _ _ _ (by omega)
      · intro b hb
        obtain ⟨j, hj, rfl⟩ := List.getElem_of_mem hb
        rw [List.length_take] at hj
        rw [List.getElem_take, decide_eq_true_iff, not_lt]
        rcases Nat.lt_or_ge j i with hlt | hge
        · exact (List.pairwise_iff_getElem.mp hsorted j i _ _ hlt).le
        · exact le_of_eq (getElem_congr_idx (by omega))
    rw [← Finset.length_ascending, hlist, List.length_drop, hlength]
  constructor
  · intro ha
    obtain ⟨i, hi, rfl⟩ := List.getElem_of_mem ha
    rw [List.length_take] at hi
    rw [List.getElem_take, Finset.mem_top, habove]
    refine ⟨Finset.mem_ascending.mp (List.getElem_mem _), fun h => ?_⟩
    omega
  · rintro ⟨ha, hnot⟩
    obtain ⟨i, hi, rfl⟩ := List.getElem_of_mem (Finset.mem_ascending.mpr ha)
    rw [Finset.mem_top, habove, not_and, not_lt] at hnot
    have hle := hnot ha
    exact List.mem_take_iff_getElem.mpr ⟨i, by omega, rfl⟩

/-! ## Nested limits -/

variable [DecidableEq κ] [DecidableEq ρ] (pair : α → κ) (group : κ → ρ)

/-- The greatest element of each pair. -/
def best (s : Finset α) : Finset α := s.filter fun a => ∀ b ∈ s, pair b = pair a → b ≤ a

/-- The `N` greatest elements of each group. -/
def topEach (N : ℕ) (s : Finset α) : Finset α :=
  s.filter fun a => (s.filter fun b => group (pair b) = group (pair a) ∧ a < b).card < N

/-- The greatest of each pair, of these the `N` greatest of each group, and of these the `M`
greatest. -/
def select (N M : ℕ) (s : Finset α) : Finset α := (topEach pair group N (best pair s)).top M

/-- How many pairs of a group occur in a set. -/
def pairsOf (s : Finset α) (g : ρ) : ℕ := ((s.filter fun a => group (pair a) = g).image pair).card

/-- How many places a set takes under the limit of the groups. -/
def places (N : ℕ) (s : Finset α) : ℕ :=
  ∑ g ∈ s.image (fun a => group (pair a)), min N (pairsOf pair group s g)

/-- The elements of `s` leave no place for `a`. -/
def UsedUp (N M : ℕ) (s : Finset α) (a : α) : Prop :=
  (∃ b ∈ s, pair b = pair a) ∨ N ≤ pairsOf pair group s (group (pair a)) ∨
    M ≤ places pair group N s

variable {pair group} {N M : ℕ} {s t : Finset α} {a b : α}

omit [DecidableEq κ] in
theorem mem_topEach : a ∈ topEach pair group N s ↔
    a ∈ s ∧ (s.filter fun b => group (pair b) = group (pair a) ∧ a < b).card < N :=
  Finset.mem_filter

theorem best_subset (s : Finset α) : best pair s ⊆ s := Finset.filter_subset _ _

theorem mem_best : a ∈ best pair s ↔ a ∈ s ∧ ∀ b ∈ s, pair b = pair a → b ≤ a := Finset.mem_filter

variable (pair) in
theorem exists_best (ha : a ∈ s) : ∃ b ∈ best pair s, pair b = pair a ∧ a ≤ b := by
  obtain ⟨b, hb, hmax⟩ := (s.filter fun c => pair c = pair a).exists_max_image id
    ⟨a, Finset.mem_filter.mpr ⟨ha, rfl⟩⟩
  obtain ⟨hbs, hpair⟩ := Finset.mem_filter.mp hb
  refine ⟨b, mem_best.mpr ⟨hbs, fun c hc hcb => ?_⟩, hpair, hmax a (Finset.mem_filter.mpr ⟨ha, rfl⟩)⟩
  exact hmax c (Finset.mem_filter.mpr ⟨hc, hcb.trans hpair⟩)

theorem injOn_best (s : Finset α) : Set.InjOn pair (best pair s : Set α) := by
  intro a ha b hb hab
  have ha' := mem_best.mp (Finset.mem_coe.mp ha)
  have hb' := mem_best.mp (Finset.mem_coe.mp hb)
  exact le_antisymm (hb'.2 a ha'.1 hab) (ha'.2 b hb'.1 hab.symm)

theorem best_eq_self (h : Set.InjOn pair (s : Set α)) : best pair s = s :=
  Finset.filter_true_of_mem fun _ ha _ hb hpair =>
    (h (Finset.mem_coe.mpr hb) (Finset.mem_coe.mpr ha) hpair).le

variable (pair group) in
/-- The best elements of a group above a bound are as many as the pairs that occur there. -/
theorem card_best_above (s : Finset α) (g : ρ) (p : α → Prop) [DecidablePred p]
    (hp : ∀ a b, a ≤ b → p a → p b) :
    ((best pair s).filter fun b => group (pair b) = g ∧ p b).card
      = pairsOf pair group (s.filter p) g := by
  have hinj : Set.InjOn pair (((best pair s).filter fun b => group (pair b) = g ∧ p b) : Set α) :=
    (injOn_best s).mono (Finset.coe_subset.mpr (Finset.filter_subset _ _))
  rw [pairsOf, ← Finset.card_image_of_injOn hinj]
  congr 1
  ext k
  simp only [Finset.mem_image, Finset.mem_filter]
  constructor
  · rintro ⟨b, ⟨hb, hg, hpb⟩, rfl⟩
    exact ⟨b, ⟨⟨best_subset s hb, hpb⟩, hg⟩, rfl⟩
  · rintro ⟨b, ⟨⟨hb, hpb⟩, hg⟩, rfl⟩
    obtain ⟨c, hc, hpair, hle⟩ := exists_best pair hb
    exact ⟨c, ⟨hc, by rw [hpair, hg], hp b c hle hpb⟩, hpair⟩

variable (pair group N) in
omit [DecidableEq κ] in
/-- The elements of a group that are kept above a bound. -/
theorem card_topEach_above (s : Finset α) (g : ρ) (p : α → Prop) [DecidablePred p]
    (hp : ∀ a b, a ≤ b → p a → p b) :
    ((topEach pair group N s).filter fun b => group (pair b) = g ∧ p b).card
      = min N (s.filter fun b => group (pair b) = g ∧ p b).card := by
  rw [← Finset.card_top]
  congr 1
  ext b
  rw [Finset.mem_top, Finset.mem_filter, Finset.mem_filter, mem_topEach]
  have hcount : ∀ b, group (pair b) = g ∧ p b →
      (s.filter fun c => group (pair c) = group (pair b) ∧ b < c)
        = (s.filter fun c => group (pair c) = g ∧ p c).filter (b < ·) := by
    rintro b ⟨rfl, hpb⟩
    ext c
    simp only [Finset.mem_filter]
    constructor
    · rintro ⟨hc, hg, hlt⟩
      exact ⟨⟨hc, hg, hp b c hlt.le hpb⟩, hlt⟩
    · rintro ⟨⟨hc, hg, -⟩, hlt⟩
      exact ⟨hc, hg, hlt⟩
  constructor
  · rintro ⟨⟨hb, hcard⟩, hgp⟩
    exact ⟨⟨hb, hgp⟩, hcount b hgp ▸ hcard⟩
  · rintro ⟨⟨hb, hgp⟩, hcard⟩
    exact ⟨⟨hb, (hcount b hgp).symm ▸ hcard⟩, hgp⟩

variable (pair group N) in
/-- What is kept above a bound, under the limits of pairs and groups, is as many as the places that
are taken there. -/
theorem card_kept_above (s : Finset α) (p : α → Prop) [DecidablePred p]
    (hp : ∀ a b, a ≤ b → p a → p b) :
    ((topEach pair group N (best pair s)).filter p).card = places pair group N (s.filter p) := by
  have hmaps : ∀ b ∈ (topEach pair group N (best pair s)).filter p,
      group (pair b) ∈ (s.filter p).image fun a => group (pair a) := by
    intro b hb
    obtain ⟨hb, hpb⟩ := Finset.mem_filter.mp hb
    have hbs : b ∈ s := best_subset s (Finset.filter_subset _ _ hb)
    exact Finset.mem_image.mpr ⟨b, Finset.mem_filter.mpr ⟨hbs, hpb⟩, rfl⟩
  rw [Finset.card_eq_sum_card_fiberwise hmaps, places]
  refine Finset.sum_congr rfl fun g _ => ?_
  rw [← card_best_above pair group s g p hp, ← card_topEach_above pair group N (best pair s) g p hp]
  congr 1
  ext b
  simp only [Finset.mem_filter]
  tauto

/-- An element is left out exactly if the elements above it leave no place for it. -/
theorem mem_select_iff :
    a ∈ select pair group N M s ↔ a ∈ s ∧ ¬ UsedUp pair group N M (s.filter (a < ·)) a := by
  have hup : ∀ b c, b ≤ c → a < b → a < c := fun b c hbc hab => lt_of_lt_of_le hab hbc
  have hbest : a ∈ best pair s ↔ a ∈ s ∧ ¬ ∃ b ∈ s.filter (a < ·), pair b = pair a := by
    rw [mem_best]
    refine and_congr_right fun _ => ⟨?_, ?_⟩
    · rintro hmax ⟨b, hb, hpair⟩
      obtain ⟨hbs, hlt⟩ := Finset.mem_filter.mp hb
      exact absurd (hmax b hbs hpair) (not_le.mpr hlt)
    · intro hnone b hb hpair
      by_contra hlt
      exact hnone ⟨b, Finset.mem_filter.mpr ⟨hb, not_le.mp hlt⟩, hpair⟩
  rw [select, Finset.mem_top, card_kept_above pair group N s (a < ·) hup, mem_topEach, hbest]
  rw [show ((best pair s).filter fun b => group (pair b) = group (pair a) ∧ a < b).card = _ from
    card_best_above pair group s (group (pair a)) (a < ·) hup]
  rw [UsedUp, not_or, not_or, not_le, not_le, and_assoc, and_assoc]

theorem select_subset (s : Finset α) : select pair group N M s ⊆ s :=
  fun _ ha => (mem_select_iff.mp ha).1

/-- What a selection takes of an upper part is a selection of that part: what lies below never
takes a place from it. -/
theorem filter_select {p : α → Prop} [DecidablePred p] (hp : ∀ a b, a ≤ b → p a → p b)
    (s : Finset α) :
    (select pair group N M s).filter p = select pair group N M (s.filter p) := by
  ext a
  rw [Finset.mem_filter, mem_select_iff, mem_select_iff, Finset.mem_filter]
  have habove : p a → (s.filter p).filter (a < ·) = s.filter (a < ·) := by
    intro ha
    rw [Finset.filter_filter]
    refine Finset.filter_congr fun b _ => ⟨fun h => h.2, fun h => ⟨hp a b h.le ha, h⟩⟩
  constructor
  · rintro ⟨⟨hmem, hfree⟩, ha⟩
    exact ⟨⟨hmem, ha⟩, by rwa [habove ha]⟩
  · rintro ⟨⟨hmem, ha⟩, hfree⟩
    exact ⟨⟨hmem, by rwa [habove ha] at hfree⟩, ha⟩

/-! ## Forgetting what was left out -/

omit [LinearOrder α] in
theorem pairsOf_mono (h : s ⊆ t) (g : ρ) : pairsOf pair group s g ≤ pairsOf pair group t g :=
  Finset.card_le_card (Finset.image_subset_image (Finset.filter_subset_filter _ h))

omit [LinearOrder α] in
theorem places_mono (h : s ⊆ t) : places pair group N s ≤ places pair group N t := by
  calc places pair group N s
      ≤ ∑ g ∈ s.image (fun a => group (pair a)), min N (pairsOf pair group t g) :=
        Finset.sum_le_sum fun g _ => min_le_min_left N (pairsOf_mono h g)
    _ ≤ places pair group N t :=
        Finset.sum_le_sum_of_subset (Finset.image_subset_image h)

omit [LinearOrder α] in
theorem UsedUp.mono (h : UsedUp pair group N M s a) (hst : s ⊆ t) : UsedUp pair group N M t a := by
  rcases h with ⟨b, hb, hpair⟩ | hgroup | hall
  · exact .inl ⟨b, hst hb, hpair⟩
  · exact .inr (.inl (hgroup.trans (pairsOf_mono hst _)))
  · exact .inr (.inr (hall.trans (places_mono hst)))

variable (pair group N) in
theorem card_kept (s : Finset α) :
    (topEach pair group N (best pair s)).card = places pair group N s := by
  have h := card_kept_above pair group N s (fun _ => True) fun _ _ _ _ => trivial
  rwa [Finset.filter_true_of_mem fun _ _ => trivial,
    Finset.filter_true_of_mem fun _ _ => trivial] at h

variable (pair group N) in
theorem card_kept_group (s : Finset α) (g : ρ) :
    ((topEach pair group N (best pair s)).filter fun b => group (pair b) = g).card
      = min N (pairsOf pair group s g) := by
  have hkept := card_topEach_above pair group N (best pair s) g (fun _ => True) fun _ _ _ _ => trivial
  have hbest := card_best_above pair group s g (fun _ => True) fun _ _ _ _ => trivial
  simp only [and_true] at hkept hbest
  rw [hkept, hbest, Finset.filter_true_of_mem fun _ _ => trivial]

theorem select_subset_kept (s : Finset α) :
    select pair group N M s ⊆ topEach pair group N (best pair s) := Finset.top_subset _ _

theorem injOn_select (s : Finset α) : Set.InjOn pair (select pair group N M s : Set α) :=
  (injOn_best s).mono (Finset.coe_subset.mpr
    ((select_subset_kept s).trans (Finset.filter_subset _ _)))

omit [LinearOrder α] in
/-- Elements with different pairs, counted in a group. -/
theorem card_group_of_injOn (h : Set.InjOn pair (s : Set α)) (g : ρ) :
    (s.filter fun b => group (pair b) = g).card = pairsOf pair group s g :=
  (Finset.card_image_of_injOn (h.mono (Finset.coe_subset.mpr (Finset.filter_subset _ _)))).symm

/-- A selection takes one place for each of its elements. -/
theorem card_select_le_places (s : Finset α) :
    (select pair group N M s).card ≤ places pair group N (select pair group N M s) := by
  rw [Finset.card_eq_sum_card_fiberwise
    (fun b hb => Finset.mem_image_of_mem (fun a => group (pair a)) hb), places]
  refine Finset.sum_le_sum fun g _ => le_min ?_ ?_
  · calc ((select pair group N M s).filter fun b => group (pair b) = g).card
        ≤ ((topEach pair group N (best pair s)).filter fun b => group (pair b) = g).card :=
          Finset.card_le_card (Finset.filter_subset_filter _ (select_subset_kept s))
      _ ≤ N := by
          rw [card_kept_group]
          exact min_le_left _ _
  · exact (card_group_of_injOn (injOn_select s) g).le

/-- What a set leaves no place for, its selection leaves no place for. -/
theorem UsedUp.of_select (h : UsedUp pair group N M s a) :
    UsedUp pair group N M (select pair group N M s) a := by
  have hall : M ≤ places pair group N s → UsedUp pair group N M (select pair group N M s) a := by
    intro hfull
    refine .inr (.inr ?_)
    have hcard : (select pair group N M s).card = M := by
      rw [select, Finset.card_top, card_kept, min_eq_left hfull]
    exact hcard.symm.le.trans (card_select_le_places s)
  -- an element that only the last limit leaves out shows that all places are taken
  have hkept : ∀ b ∈ topEach pair group N (best pair s), b ∉ select pair group N M s →
      UsedUp pair group N M (select pair group N M s) a := by
    intro b hb hnot
    exact hall (card_kept pair group N s ▸ Finset.card_le_of_notMem_top hb hnot)
  have hgroup : N ≤ pairsOf pair group s (group (pair a)) →
      UsedUp pair group N M (select pair group N M s) a := by
    intro hfull
    by_cases hsub : (topEach pair group N (best pair s)).filter
        (fun b => group (pair b) = group (pair a)) ⊆ select pair group N M s
    · refine .inr (.inl ?_)
      calc N = min N (pairsOf pair group s (group (pair a))) := (min_eq_left hfull).symm
        _ = _ := (card_kept_group pair group N s (group (pair a))).symm
        _ ≤ ((select pair group N M s).filter fun b => group (pair b) = group (pair a)).card :=
            Finset.card_le_card fun b hb =>
              Finset.mem_filter.mpr ⟨hsub hb, (Finset.mem_filter.mp hb).2⟩
        _ = _ := card_group_of_injOn (injOn_select s) _
    · obtain ⟨b, hb, hnot⟩ := Finset.not_subset.mp hsub
      exact hkept b (Finset.filter_subset _ _ hb) hnot
  rcases h with ⟨b, hb, hpair⟩ | hfull | hfull
  · obtain ⟨c, hc, hcb, -⟩ := exists_best pair hb
    by_cases hsel : c ∈ select pair group N M s
    · exact .inl ⟨c, hsel, hcb.trans hpair⟩
    · by_cases hin : c ∈ topEach pair group N (best pair s)
      · exact hkept c hin hsel
      · refine hgroup ?_
        rw [mem_topEach, not_and, not_lt] at hin
        have hfull := hin hc
        rw [show ((best pair s).filter fun b => group (pair b) = group (pair c) ∧ c < b).card = _
          from card_best_above pair group s (group (pair c)) (c < ·)
            fun x y hxy hcx => lt_of_lt_of_le hcx hxy, hcb.trans hpair] at hfull
        exact hfull.trans (pairsOf_mono (Finset.filter_subset _ _) _)
  · exact hgroup hfull
  · exact hall hfull

/-- Selecting from a set that still holds the whole selection of a larger one. -/
theorem select_of_subset (hselect : select pair group N M t ⊆ s) (hst : s ⊆ t) :
    select pair group N M s = select pair group N M t := by
  ext a
  constructor
  · intro ha
    obtain ⟨has, hfree⟩ := mem_select_iff.mp ha
    by_contra hnot
    have hused : UsedUp pair group N M (t.filter (a < ·)) a := by
      by_contra hfree'
      exact hnot (mem_select_iff.mpr ⟨hst has, hfree'⟩)
    refine hfree (hused.of_select.mono fun b hb => ?_)
    -- the selection above `a` is the selection of what is above `a`
    obtain ⟨hb, hfreeb⟩ := mem_select_iff.mp hb
    obtain ⟨hbt, hab⟩ := Finset.mem_filter.mp hb
    refine Finset.mem_filter.mpr ⟨hselect (mem_select_iff.mpr ⟨hbt, ?_⟩), hab⟩
    have habove : (t.filter (a < ·)).filter (b < ·) = t.filter (b < ·) := by
      ext c
      simp only [Finset.mem_filter]
      exact ⟨fun h => ⟨h.1.1, h.2⟩, fun h => ⟨⟨h.1, hab.trans h.2⟩, h.2⟩⟩
    rwa [habove] at hfreeb
  · intro ha
    obtain ⟨-, hfree⟩ := mem_select_iff.mp ha
    refine mem_select_iff.mpr ⟨hselect ha, fun hused => hfree (hused.mono ?_)⟩
    exact Finset.filter_subset_filter _ hst

/-- What is left out stays out when the set grows. -/
theorem select_insert_subset (x : α) (s : Finset α) :
    select pair group N M (insert x s) ⊆ insert x (select pair group N M s) := by
  intro a ha
  obtain ⟨hmem, hfree⟩ := mem_select_iff.mp ha
  rcases Finset.mem_insert.mp hmem with rfl | hs
  · exact Finset.mem_insert_self _ _
  · refine Finset.mem_insert_of_mem (mem_select_iff.mpr ⟨hs, fun hused => hfree (hused.mono ?_)⟩)
    exact Finset.filter_subset_filter _ (Finset.subset_insert _ _)

/-- Putting one more element into a selection and selecting again gives the selection of all. -/
theorem select_insert (x : α) (s : Finset α) :
    select pair group N M (insert x (select pair group N M s))
      = select pair group N M (insert x s) :=
  select_of_subset (select_insert_subset x s)
    (Finset.insert_subset_insert x (select_subset s))

/-- Selecting again changes nothing. -/
theorem select_select (s : Finset α) :
    select pair group N M (select pair group N M s) = select pair group N M s :=
  select_of_subset Finset.Subset.rfl (select_subset s)

/-- An element below another of its pair does not count. -/
theorem select_insert_of_le {x : α} (hb : b ∈ s) (hpair : pair b = pair x) (hle : x ≤ b) :
    select pair group N M (insert x s) = select pair group N M s := by
  rcases hle.eq_or_lt with rfl | hlt
  · rw [Finset.insert_eq_of_mem hb]
  · refine (select_of_subset (fun a ha => ?_) (Finset.subset_insert x s)).symm
    obtain ⟨hmem, hfree⟩ := mem_select_iff.mp ha
    rcases Finset.mem_insert.mp hmem with rfl | hs
    · exact absurd (.inl ⟨b, Finset.mem_filter.mpr ⟨Finset.mem_insert_of_mem hb, hlt⟩, hpair⟩) hfree
    · exact hs

/-- An element above those of its pair takes their place. -/
theorem select_replace {x : α} (habove : ∀ b ∈ s, pair b = pair x → b < x) :
    select pair group N M (insert x (s.filter fun b => pair b ≠ pair x))
      = select pair group N M (insert x s) := by
  refine select_of_subset (fun a ha => ?_)
    (Finset.insert_subset_insert x (Finset.filter_subset _ s))
  obtain ⟨hmem, hfree⟩ := mem_select_iff.mp ha
  rcases Finset.mem_insert.mp hmem with rfl | hs
  · exact Finset.mem_insert_self _ _
  · refine Finset.mem_insert_of_mem (Finset.mem_filter.mpr ⟨hs, fun hpair => hfree (.inl ?_)⟩)
    exact ⟨x, Finset.mem_filter.mpr ⟨Finset.mem_insert_self _ _, habove a hs hpair⟩, hpair.symm⟩

omit [LinearOrder α] in
/-- Putting an element in the place of those of its pair keeps the pairs apart. -/
theorem injOn_replace [DecidableEq α] (h : Set.InjOn pair (s : Set α)) (x : α) :
    Set.InjOn pair (insert x (s.filter fun b => pair b ≠ pair x) : Finset α) := by
  intro a ha b hb hpair
  simp only [Finset.coe_insert, Finset.coe_filter, Set.mem_insert_iff, Set.mem_ofPred_eq] at ha hb
  rcases ha with rfl | ⟨ha, hax⟩
  · rcases hb with rfl | ⟨-, hbx⟩
    · rfl
    · exact absurd hpair.symm hbx
  · rcases hb with rfl | ⟨hb, -⟩
    · exact absurd hpair hax
    · exact h (Finset.mem_coe.mpr ha) (Finset.mem_coe.mpr hb) hpair

/-! ## Overflow -/

variable (pair group N M) in
/-- The pairs that occur in a set are more than there are places for. -/
def Overflow (s : Finset α) : Prop := (∃ g, N < pairsOf pair group s g) ∨ M < (s.image pair).card

omit [LinearOrder α] in
theorem Overflow.mono (h : Overflow pair group N M s) (hst : s ⊆ t) : Overflow pair group N M t := by
  rcases h with ⟨g, hg⟩ | hall
  · exact .inl ⟨g, hg.trans_le (pairsOf_mono hst g)⟩
  · exact .inr (hall.trans_le (Finset.card_le_card (Finset.image_subset_image hst)))

omit [LinearOrder α] in
theorem pairsOf_eq (s : Finset α) (g : ρ) :
    pairsOf pair group s g = ((s.image pair).filter fun k => group k = g).card := by
  rw [pairsOf, Finset.filter_image]

omit [LinearOrder α] in
/-- Only the pairs that occur matter. -/
theorem overflow_congr (h : s.image pair = t.image pair) :
    Overflow pair group N M s ↔ Overflow pair group N M t := by
  simp only [Overflow, pairsOf_eq, h]

theorem image_best (s : Finset α) : (best pair s).image pair = s.image pair := by
  refine (Finset.image_subset_image (best_subset s)).antisymm fun k hk => ?_
  obtain ⟨a, ha, rfl⟩ := Finset.mem_image.mp hk
  obtain ⟨b, hb, hpair, -⟩ := exists_best pair ha
  exact Finset.mem_image.mpr ⟨b, hb, hpair⟩

/-- Only what has a greater element of its pair is left out of a set that does not overflow. -/
theorem select_eq_best (h : ¬ Overflow pair group N M s) :
    select pair group N M s = best pair s := by
  rw [← overflow_congr (image_best s), Overflow, not_or, not_exists, not_lt] at h
  obtain ⟨hgroup, hall⟩ := h
  have hkept : topEach pair group N (best pair s) = best pair s := by
    refine Finset.filter_true_of_mem fun a ha => lt_of_lt_of_le (Finset.card_lt_card ?_)
      ((card_group_of_injOn (injOn_best s) (group (pair a))).trans_le (not_lt.mp (hgroup _)))
    refine (Finset.ssubset_iff_of_subset ?_).mpr ⟨a, Finset.mem_filter.mpr ⟨ha, rfl⟩, ?_⟩
    · exact Finset.monotone_filter_right _ fun _ _ h => h.1
    · exact fun h => lt_irrefl a (Finset.mem_filter.mp h).2.2
  rw [Finset.card_image_of_injOn (injOn_best s)] at hall
  rw [select, hkept, Finset.top_eq_self hall]

/-- A selection does not overflow. -/
theorem not_overflow_select (s : Finset α) :
    ¬ Overflow pair group N M (select pair group N M s) := by
  rw [Overflow, not_or, not_exists, not_lt]
  constructor
  · intro g
    rw [not_lt, ← card_group_of_injOn (injOn_select s)]
    calc ((select pair group N M s).filter fun b => group (pair b) = g).card
        ≤ ((topEach pair group N (best pair s)).filter fun b => group (pair b) = g).card :=
          Finset.card_le_card (Finset.filter_subset_filter _ (select_subset_kept s))
      _ ≤ N := (card_kept_group pair group N s g).trans_le (min_le_left _ _)
  · refine Finset.card_image_le.trans ?_
    rw [select, Finset.card_top]
    exact min_le_left _ _

/-- One more element makes a set overflow only in its own group, or in all. -/
theorem overflow_replace_iff {x : α} (hinj : Set.InjOn pair (s : Set α))
    (hs : ¬ Overflow pair group N M s) :
    Overflow pair group N M (insert x (s.filter fun b => pair b ≠ pair x)) ↔
      M < (insert x (s.filter fun b => pair b ≠ pair x)).card ∨
        N < ((insert x (s.filter fun b => pair b ≠ pair x)).filter
          fun b => group (pair b) = group (pair x)).card := by
  set t := insert x (s.filter fun b => pair b ≠ pair x) with ht
  have hinj' : Set.InjOn pair (t : Set α) := injOn_replace hinj x
  rw [Overflow, Finset.card_image_of_injOn hinj', card_group_of_injOn hinj', or_comm]
  refine or_congr_right ⟨?_, fun h => ⟨_, h⟩⟩
  rintro ⟨g, hg⟩
  by_cases hx : g = group (pair x)
  · rwa [hx] at hg
  · refine absurd (.inl ⟨g, hg.trans_le ?_⟩) hs
    have hsub : t.image pair ⊆ insert (pair x) (s.image pair) := by
      intro k hk
      obtain ⟨b, hb, rfl⟩ := Finset.mem_image.mp hk
      rcases Finset.mem_insert.mp hb with rfl | hb
      · exact Finset.mem_insert_self _ _
      · exact Finset.mem_insert_of_mem
          (Finset.mem_image_of_mem pair (Finset.filter_subset _ _ hb))
    rw [pairsOf_eq, pairsOf_eq]
    refine (Finset.card_le_card (Finset.filter_subset_filter _ hsub)).trans (le_of_eq ?_)
    rw [Finset.filter_insert, if_neg (Ne.symm hx)]
