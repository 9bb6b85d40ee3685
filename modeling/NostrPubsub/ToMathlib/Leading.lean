import Mathlib.Data.List.Destutter
import Mathlib.Data.List.Sort
import Mathlib.Data.Set.Finite.Lemmas

/-!
# The first elements of a set, in the order of a rank

`IsLeading rank m s l` says that `l` lists the first `m` elements of `s`, in increasing
`rank`. There is at most one such list (`IsLeading.unique`), so a procedure whose result is
leading for a set has a result that depends on the set only. The first elements of a union are
found among the first elements of its parts (`IsLeading.of_union`).

The second part is about bounded stores that keep one element for each coordinate, the one of
least rank. `winners` is what such a store would keep of a set without the bound; putting one
more element into the first `m` winners and cutting again gives the first `m` winners of the
larger set (`IsLeading.put`), although the cut has forgotten some of the winners.
-/

variable {α β κ : Type*} [LinearOrder β]

/-- The list of the first `m` elements of `s` in increasing `rank`: all of them, if there are
fewer. -/
structure IsLeading (rank : α → β) (m : ℕ) (s : Set α) (l : List α) : Prop where
  sorted : l.Pairwise fun a b => rank a < rank b
  subset : ∀ a ∈ l, a ∈ s
  length_le : l.length ≤ m
  /-- A list that is not full misses nothing. -/
  all : l.length < m → ∀ a ∈ s, a ∈ l
  /-- What is missing comes after everything listed. -/
  lower : ∀ a ∈ l, ∀ b ∈ s, b ∉ l → rank a < rank b

namespace IsLeading

variable {rank : α → β} {m : ℕ} {s : Set α} {l l' : List α}

/-- A strictly sorted list has no repetitions. -/
theorem nodup_of_sorted (h : l.Pairwise fun a b => rank a < rank b) : l.Nodup :=
  h.imp fun hab heq => absurd (congrArg rank heq) hab.ne

theorem nodup (h : IsLeading rank m s l) : l.Nodup := nodup_of_sorted h.sorted

/-- Two strictly sorted lists with the same elements are equal. -/
theorem eq_of_sorted (hl : l.Pairwise fun a b => rank a < rank b)
    (hl' : l'.Pairwise fun a b => rank a < rank b) (hmem : ∀ a, a ∈ l ↔ a ∈ l') : l = l' := by
  have hperm : l.Perm l' :=
    (List.perm_ext_iff_of_nodup (nodup_of_sorted hl) (nodup_of_sorted hl')).mpr hmem
  refine hperm.eq_of_pairwise ?_ hl hl'
  intro a b _ _ hab hba
  exact absurd hab hba.not_gt

theorem mem_of_mem (h : IsLeading rank m s l) (h' : IsLeading rank m s l') {a : α}
    (ha : a ∈ l) : a ∈ l' := by
  by_contra hmiss
  have has := h.subset a ha
  have hfull : l'.length = m := by
    by_contra hroom
    exact hmiss (h'.all (lt_of_le_of_ne h'.length_le hroom) a has)
  -- Everything in `l'` comes before `a`, hence is in `l`, which would then be longer than `m`.
  have hsub : a :: l' ⊆ l := by
    intro b hb
    rcases List.mem_cons.mp hb with rfl | hb
    · exact ha
    · by_contra hb'
      have hab := h.lower a ha b (h'.subset b hb) hb'
      exact absurd (h'.lower b hb a has hmiss) hab.not_gt
  have hlength := ((List.nodup_cons.mpr ⟨hmiss, h'.nodup⟩).subperm hsub).length_le
  have hle := h.length_le
  simp only [List.length_cons] at hlength
  omega

/-- The first elements of a set are determined by the set. -/
theorem unique (h : IsLeading rank m s l) (h' : IsLeading rank m s l') : l = l' :=
  eq_of_sorted h.sorted h'.sorted fun _ => ⟨h.mem_of_mem h', h'.mem_of_mem h⟩

/-- Cutting a sorted list leaves the first of its elements. -/
theorem of_take (h : l.Pairwise fun a b => rank a < rank b) (hs : ∀ a, a ∈ s ↔ a ∈ l) (m : ℕ) :
    IsLeading rank m s (l.take m) where
  sorted := h.sublist (List.take_sublist m l)
  subset a ha := (hs a).mpr (List.mem_of_mem_take ha)
  length_le := List.length_take_le m l
  all := by
    intro hlt a ha
    rw [List.take_of_length_le]
    · exact (hs a).mp ha
    · rw [List.length_take] at hlt
      omega
  lower := by
    intro a ha b hb hcut
    have hsplit : l.Pairwise fun a b => rank a < rank b := h
    rw [← List.take_append_drop m l, List.pairwise_append] at hsplit
    refine hsplit.2.2 a ha b ?_
    have hbl := (hs b).mp hb
    rw [← List.take_append_drop m l, List.mem_append] at hbl
    exact hbl.resolve_left hcut

/-- The first none of a set. -/
theorem zero (s : Set α) : IsLeading rank 0 s [] where
  sorted := List.Pairwise.nil
  subset := by simp
  length_le := Nat.le_refl 0
  all := by simp
  lower := by simp

/-- The first `m` elements of a union are the first `m` among the first `m` of each part. -/
theorem of_union {ι : Type*} {parts : Set ι} {t : ι → Set α} (lists : ι → List α)
    (hparts : ∀ i ∈ parts, IsLeading rank m (t i) (lists i))
    (hsorted : l.Pairwise fun a b => rank a < rank b)
    (hmem : ∀ a, a ∈ l ↔ ∃ i ∈ parts, a ∈ lists i) :
    IsLeading rank m {a | ∃ i ∈ parts, a ∈ t i} (l.take m) := by
  have hcut := of_take hsorted (s := {a | a ∈ l}) (fun a => Iff.rfl) m
  have hlist : ∀ i ∈ parts, ∀ a ∈ lists i, a ∈ l := fun i hi a ha => (hmem a).mpr ⟨i, hi, ha⟩
  refine ⟨hcut.sorted, fun a ha => ?_, hcut.length_le, fun hroom a ha => ?_, fun a ha b hb hout => ?_⟩
  · obtain ⟨i, hi, hai⟩ := (hmem a).mp (hcut.subset a ha)
    exact ⟨i, hi, (hparts i hi).subset a hai⟩
  · -- No part is full either, so none misses anything.
    obtain ⟨i, hi, hai⟩ := ha
    have hlength : l.length < m := by
      rw [List.length_take] at hroom
      omega
    have hpart : (lists i).length ≤ l.length :=
      ((hparts i hi).nodup.subperm (hlist i hi)).length_le
    exact hcut.all hroom a (hlist i hi a ((hparts i hi).all (by omega) a hai))
  · obtain ⟨i, hi, hbi⟩ := hb
    by_cases hbl : b ∈ l
    · exact hcut.lower a ha b hbl hout
    -- The part of `b` is full and comes before `b`; `a` is not after all of it.
    have hbpart : b ∉ lists i := fun hmemb => hbl (hlist i hi b hmemb)
    have hfull : (lists i).length = m := by
      by_contra hroom
      exact hbpart ((hparts i hi).all (lt_of_le_of_ne (hparts i hi).length_le hroom) b hbi)
    by_contra hab
    have hbefore : ∀ x ∈ lists i, rank x < rank a := fun x hx =>
      lt_of_lt_of_le ((hparts i hi).lower x hx b hbi hbpart) (not_lt.mp hab)
    have hsub : a :: lists i ⊆ l.take m := by
      intro x hx
      rcases List.mem_cons.mp hx with rfl | hx
      · exact ha
      · by_contra hxout
        exact lt_asymm (hbefore x hx) (hcut.lower a ha x (hlist i hi x hx) hxout)
    have hnodup : (a :: lists i).Nodup :=
      List.nodup_cons.mpr ⟨fun hmema => lt_irrefl _ (hbefore a hmema), (hparts i hi).nodup⟩
    have hlength := (hnodup.subperm hsub).length_le
    have hle := hcut.length_le
    rw [List.length_cons, hfull] at hlength
    omega

end IsLeading

/-! ## Sorting -/

section Sorting

/-- A list in increasing rank. -/
def sortByRank (rank : α → β) (l : List α) : List α :=
  l.insertionSort fun a b => rank a ≤ rank b

/-- The elements of a list in increasing rank, each once. -/
def sortedSet [DecidableEq α] (rank : α → β) (l : List α) : List α :=
  (sortByRank rank l).destutter (· ≠ ·)

variable {rank : α → β} {l l' : List α}

@[simp]
theorem mem_sortByRank {a : α} : a ∈ sortByRank rank l ↔ a ∈ l := List.mem_insertionSort _

theorem perm_sortByRank (rank : α → β) (l : List α) : (sortByRank rank l).Perm l :=
  List.perm_insertionSort _ l

theorem sorted_sortByRank (l : List α) :
    (sortByRank rank l).Pairwise fun a b => rank a ≤ rank b := by
  have : Std.Total fun a b : α => rank a ≤ rank b := ⟨fun a b => le_total _ _⟩
  have : IsTrans α fun a b => rank a ≤ rank b := ⟨fun _ _ _ => le_trans⟩
  exact List.pairwise_insertionSort _ l

/-- Elements of distinct ranks are strictly sorted. -/
theorem strict_sortByRank (h : (l.map rank).Nodup) :
    (sortByRank rank l).Pairwise fun a b => rank a < rank b := by
  have hperm : ((sortByRank rank l).map rank).Perm (l.map rank) :=
    (perm_sortByRank rank l).map rank
  have hnodup : (sortByRank rank l).Pairwise fun a b => rank a ≠ rank b :=
    List.pairwise_map.mp (hperm.nodup_iff.mpr h)
  exact (sorted_sortByRank l).imp₂ (fun _ _ hle hne => lt_of_le_of_ne hle hne) hnodup

/-- Of the neighbours with one key the first is kept: if elements of one rank have one key, what is
left of a sorted list is strictly sorted. -/
theorem strict_destutter {γ : Type*} [DecidableEq γ] {key : α → γ}
    (h : l.Pairwise fun a b => rank a ≤ rank b) (hkey : ∀ a b, rank a = rank b → key a = key b) :
    (l.destutter fun a b => key a ≠ key b).Pairwise fun a b => rank a < rank b := by
  have : IsTrans α fun a b => rank a < rank b := ⟨fun _ _ _ => lt_trans⟩
  have hle := h.sublist (List.destutter_sublist (fun a b => key a ≠ key b) l)
  have hne := List.isChain_destutter (fun a b => key a ≠ key b) l
  refine List.IsChain.pairwise ?_
  generalize l.destutter (fun a b => key a ≠ key b) = kept at hle hne ⊢
  induction hne with
  | nil => exact .nil
  | singleton a => exact .singleton a
  | cons_cons hdiff _ ih =>
    have hab := List.rel_of_pairwise_cons hle List.mem_cons_self
    exact .cons_cons (lt_of_le_of_ne hab fun heq => hdiff (hkey _ _ heq)) (ih hle.of_cons)

/-- A rank is among the first `m` of a sorted list if it occurs and fewer than `m` elements come
before it. -/
theorem mem_map_take_iff (h : l.Pairwise fun a b => rank a ≤ rank b) {m : ℕ} {r : β} :
    r ∈ (l.take m).map rank ↔ r ∈ l.map rank ∧ l.countP (fun a => rank a < r) < m := by
  induction l generalizing m with
  | nil => simp
  | cons a l ih =>
    rw [List.pairwise_cons] at h
    cases m with
    | zero => simp
    | succ m =>
      rw [List.take_succ_cons, List.map_cons, List.map_cons, List.mem_cons, List.mem_cons, ih h.2,
        List.countP_cons]
      by_cases heq : r = rank a
      · -- everything in the list comes after its first element
        have hzero : l.countP (fun b => rank b < r) = 0 := by
          rw [List.countP_eq_zero]
          intro b hb
          simpa [heq] using h.1 b hb
        simp [heq ▸ hzero, heq]
      · rw [or_iff_right heq, or_iff_right heq]
        refine and_congr_right fun hmem => ?_
        obtain ⟨b, hb, rfl⟩ := List.mem_map.mp hmem
        have hlt : rank a < rank b := lt_of_le_of_ne (h.1 b hb) (Ne.symm heq)
        simp [hlt]

/-- The elements of a list up to an optional limit. -/
def cutTo (limit : Option ℕ) (l : List α) : List α := limit.elim l l.take

theorem cutTo_sublist (limit : Option ℕ) (l : List α) : (cutTo limit l).Sublist l := by
  cases limit with
  | none => exact List.Sublist.refl l
  | some m => exact List.take_sublist m l

theorem map_cutTo {γ : Type*} (f : α → γ) (limit : Option ℕ) (l : List α) :
    (cutTo limit l).map f = cutTo limit (l.map f) := by
  cases limit with
  | none => rfl
  | some m => exact List.map_take

theorem mem_map_cutTo_iff (h : l.Pairwise fun a b => rank a ≤ rank b) {limit : Option ℕ} {r : β} :
    r ∈ (cutTo limit l).map rank ↔
      r ∈ l.map rank ∧ ∀ m, limit = some m → l.countP (fun a => rank a < r) < m := by
  cases limit with
  | none => simp [cutTo]
  | some m => simpa [cutTo] using mem_map_take_iff h

/-- A sorted list and a larger one begin alike if the beginning of the larger one is in both. -/
theorem cutTo_eq_cutTo_iff (hl : l.Pairwise fun a b => rank a < rank b)
    (hl' : l'.Pairwise fun a b => rank a < rank b) (hsub : ∀ a ∈ l, a ∈ l') (limit : Option ℕ) :
    cutTo limit l = cutTo limit l' ↔ ∀ a ∈ cutTo limit l', a ∈ l := by
  cases limit with
  | none =>
    constructor
    · intro heq a ha
      rw [← heq] at ha
      exact ha
    · intro hmem
      exact IsLeading.eq_of_sorted hl hl' fun a => ⟨hsub a, hmem a⟩
  | some m =>
    constructor
    · intro heq a ha
      rw [← heq] at ha
      exact List.mem_of_mem_take ha
    · intro hmem
      have hcut := IsLeading.of_take hl' (s := {a | a ∈ l'}) (fun a => Iff.rfl) m
      have hleading : IsLeading rank m {a | a ∈ l} (l'.take m) :=
        { sorted := hcut.sorted
          subset := hmem
          length_le := hcut.length_le
          all := fun hroom a ha => hcut.all hroom a (hsub a ha)
          lower := fun a ha b hb => hcut.lower a ha b (hsub b hb) }
      exact (IsLeading.of_take hl (fun a => Iff.rfl) m).unique hleading

variable [DecidableEq α]

theorem sortedSet_eq_dedup (hrank : Function.Injective rank) (l : List α) :
    sortedSet rank l = (sortByRank rank l).dedup := by
  have : Std.Antisymm fun a b : α => rank a ≤ rank b :=
    ⟨fun _ _ hab hba => hrank (le_antisymm hab hba)⟩
  exact (sorted_sortByRank l).destutter_eq_dedup

theorem mem_sortedSet (hrank : Function.Injective rank) {a : α} : a ∈ sortedSet rank l ↔ a ∈ l := by
  rw [sortedSet_eq_dedup hrank, List.mem_dedup, mem_sortByRank]

theorem strict_sortedSet (hrank : Function.Injective rank) (l : List α) :
    (sortedSet rank l).Pairwise fun a b => rank a < rank b := by
  rw [sortedSet_eq_dedup hrank]
  have hle := (sorted_sortByRank l).sublist (List.dedup_sublist (sortByRank rank l))
  have hnodup : (sortByRank rank l).dedup.Nodup := List.nodup_dedup _
  refine hle.imp₂ (fun a b hab hne => lt_of_le_of_ne hab ?_) hnodup
  exact fun heq => hne (hrank heq)

theorem countP_sortedSet_le (l : List α) (p : α → Bool) :
    (sortedSet rank l).countP p ≤ l.countP p :=
  ((List.destutter_sublist _ _).countP_le).trans_eq ((perm_sortByRank rank l).countP_eq p)

/-- A sorted set depends on the elements only. -/
theorem sortedSet_congr (hrank : Function.Injective rank) (h : ∀ a, a ∈ l ↔ a ∈ l') :
    sortedSet rank l = sortedSet rank l' := by
  refine IsLeading.eq_of_sorted (strict_sortedSet hrank l) (strict_sortedSet hrank l') fun a => ?_
  rw [mem_sortedSet hrank, mem_sortedSet hrank, h]

end Sorting

/-! ## One element for each coordinate -/

section Winners

variable (rank : α → β) (coordinate : α → Option κ)

/-- The two elements compete for one coordinate. -/
def Competes (a b : α) : Prop := coordinate a = coordinate b ∧ coordinate b ≠ none

/-- The elements of least rank for their coordinate. Elements without a coordinate compete
with nothing. -/
def winners (s : Set α) : Set α := {a ∈ s | ∀ b ∈ s, Competes coordinate b a → rank a ≤ rank b}

variable {rank coordinate} {s : Set α} {l l' : List α} {m : ℕ} {x : α}

theorem Competes.symm {a b : α} (h : Competes coordinate a b) : Competes coordinate b a :=
  ⟨h.1.symm, by rw [h.1]; exact h.2⟩

theorem Competes.trans {a b c : α} (hab : Competes coordinate a b)
    (hbc : Competes coordinate b c) : Competes coordinate a c :=
  ⟨hab.1.trans hbc.1, hbc.2⟩

/-- Two winners of one coordinate are equal. -/
theorem winners_eq_of_competes (hinj : Set.InjOn rank s) {a b : α}
    (ha : a ∈ winners rank coordinate s) (hb : b ∈ winners rank coordinate s)
    (h : Competes coordinate a b) : a = b :=
  hinj ha.1 hb.1 (le_antisymm (ha.2 b hb.1 h.symm) (hb.2 a ha.1 h))

/-- Every coordinate of a finite set has a winner. -/
theorem exists_winner (hs : s.Finite) {a : α} (ha : a ∈ s) (hcoordinate : coordinate a ≠ none) :
    ∃ w ∈ winners rank coordinate s, Competes coordinate w a ∧ rank w ≤ rank a := by
  have hself : a ∈ {b ∈ s | Competes coordinate b a} := ⟨ha, rfl, hcoordinate⟩
  obtain ⟨w, ⟨hw, hcompetes⟩, hleast⟩ :=
    Set.exists_min_image _ rank (hs.subset (Set.sep_subset s _)) ⟨a, hself⟩
  refine ⟨w, ⟨hw, ?_⟩, hcompetes, hleast a hself⟩
  intro b hb hbw
  exact hleast b ⟨hb, hbw.trans hcompetes⟩

/-- An element that loses against one of the set adds no winner. -/
theorem winners_insert_of_loses {w : α} (hw : w ∈ winners rank coordinate s)
    (hcompetes : Competes coordinate w x) (hlt : rank w < rank x) :
    winners rank coordinate (insert x s) = winners rank coordinate s := by
  ext a
  constructor
  · rintro ⟨hmem, hleast⟩
    rcases Set.mem_insert_iff.mp hmem with rfl | has
    · exact absurd (hleast w (Set.mem_insert_of_mem a hw.1) hcompetes) hlt.not_ge
    · exact ⟨has, fun b hb => hleast b (Set.mem_insert_of_mem x hb)⟩
  · rintro ⟨has, hleast⟩
    refine ⟨Set.mem_insert_of_mem x has, ?_⟩
    intro b hb hba
    rcases Set.mem_insert_iff.mp hb with rfl | hbs
    · exact (hleast w hw.1 (hcompetes.trans hba)).trans hlt.le
    · exact hleast b hbs hba

/-- What does not win its coordinate loses to a winner. -/
theorem exists_winner_of_loses (hs : s.Finite) (hx : x ∉ winners rank coordinate (insert x s)) :
    ∃ w ∈ winners rank coordinate s, Competes coordinate w x ∧ rank w < rank x := by
  obtain ⟨b, hb, hbx, hlt⟩ : ∃ b ∈ insert x s, Competes coordinate b x ∧ rank b < rank x := by
    by_contra hnone
    refine hx ⟨Set.mem_insert x s, fun b hb hbx => ?_⟩
    by_contra hlt
    exact hnone ⟨b, hb, hbx, lt_of_not_ge hlt⟩
  have hbs : b ∈ s := by
    rcases Set.mem_insert_iff.mp hb with rfl | hbs
    · exact absurd hlt (lt_irrefl _)
    · exact hbs
  obtain ⟨w, hw, hwb, hle⟩ :
      ∃ w ∈ winners rank coordinate s, Competes coordinate w b ∧ rank w ≤ rank b :=
    exists_winner hs hbs hbx.symm.2
  exact ⟨w, hw, hwb.trans hbx, hle.trans_lt hlt⟩

/-- An element that wins its coordinate takes the place of the winner before it. -/
theorem mem_winners_insert_of_wins (hx : x ∈ winners rank coordinate (insert x s))
    (hinj : Set.InjOn rank (insert x s)) {a : α} (hne : a ≠ x) :
    a ∈ winners rank coordinate (insert x s)
      ↔ a ∈ winners rank coordinate s ∧ ¬ Competes coordinate a x := by
  constructor
  · intro ha
    refine ⟨⟨ha.1.resolve_left hne, fun b hb => ha.2 b (Set.mem_insert_of_mem x hb)⟩, ?_⟩
    intro hcompetes
    exact hne (winners_eq_of_competes hinj ha hx hcompetes)
  · rintro ⟨ha, hfree⟩
    refine ⟨Set.mem_insert_of_mem x ha.1, ?_⟩
    intro b hb hba
    rcases Set.mem_insert_iff.mp hb with rfl | hbs
    · exact absurd hba.symm hfree
    · exact ha.2 b hbs hba

/-- What is in the store after `x` was put into `l`, before the cut. -/
structure PutInto (rank : α → β) (coordinate : α → Option κ) (x : α) (l l' : List α) : Prop where
  sorted : l'.Pairwise fun a b => rank a < rank b
  mem_iff : ∀ a, a ∈ l' ↔ a = x ∨ a ∈ l ∧ ¬ Competes coordinate a x

/-- A new winner makes room for itself if it replaces one, and otherwise pushes out the last:
in a full store the cut falls behind everything that came before a forgotten winner. -/
theorem PutInto.lower (hput : PutInto rank coordinate x l l')
    (h : IsLeading rank m (winners rank coordinate s) l) (hnew : x ∉ l)
    (hwins : ∀ old ∈ l, Competes coordinate old x → rank x < rank old) {b : α}
    (hb : b ∈ winners rank coordinate s) (hforgotten : b ∉ l) (hcut : x ∈ l'.take m) :
    rank x < rank b := by
  by_cases hreplaces : ∃ old ∈ l, Competes coordinate old x
  · obtain ⟨old, hold, hcompetes⟩ := hreplaces
    exact (hwins old hold hcompetes).trans (h.lower old hold b hb hforgotten)
  -- Nothing is replaced, so `l'` is longer than `m` and an element of `l` is cut off.
  have hmem : ∀ a, a ∈ l' ↔ a ∈ x :: l := by
    intro a
    rw [hput.mem_iff, List.mem_cons]
    constructor
    · rintro (heq | ⟨ha, -⟩)
      · exact .inl heq
      · exact .inr ha
    · rintro (heq | ha)
      · exact .inl heq
      · exact .inr ⟨ha, fun hc => hreplaces ⟨a, ha, hc⟩⟩
  have hfull : l.length = m := by
    by_contra hroom
    exact hforgotten (h.all (lt_of_le_of_ne h.length_le hroom) b hb)
  have hnodup : (x :: l).Nodup := List.nodup_cons.mpr ⟨hnew, h.nodup⟩
  have hlength : l'.length = m + 1 := by
    have hperm := (List.perm_ext_iff_of_nodup
      (IsLeading.nodup_of_sorted hput.sorted) hnodup).mpr hmem
    rw [hperm.length_eq, List.length_cons, hfull]
  obtain ⟨z, hz⟩ : ∃ z, z ∈ l'.drop m := by
    apply List.exists_mem_of_length_pos
    rw [List.length_drop]
    omega
  have hsplit := hput.sorted
  rw [← List.take_append_drop m l', List.pairwise_append] at hsplit
  have hxz := hsplit.2.2 x hcut z hz
  have hzl : z ∈ l := by
    refine ((List.mem_cons.mp ((hmem z).mp (List.mem_of_mem_drop hz))).resolve_left ?_)
    rintro rfl
    exact lt_irrefl _ hxz
  exact hxz.trans (h.lower z hzl b hb hforgotten)

/-- A store that is not full after a put was not full before, or lost one element to `x`. -/
theorem PutInto.all (hput : PutInto rank coordinate x l l')
    (h : IsLeading rank m (winners rank coordinate s) l) (hinj : Set.InjOn rank s)
    (hnew : x ∉ l) (hroom : l'.length < m) {b : α} (hb : b ∈ winners rank coordinate s) :
    b ∈ l := by
  classical
  by_contra hforgotten
  have hfull : l.length = m := by
    by_contra hroom
    exact hforgotten (h.all (lt_of_le_of_ne h.length_le hroom) b hb)
  -- At most one element of `l` competes with `x`.
  have hone : ∃ old, ∀ a ∈ l, a ≠ old → ¬ Competes coordinate a x := by
    by_cases hreplaces : ∃ old ∈ l, Competes coordinate old x
    · obtain ⟨old, hold, hcompetes⟩ := hreplaces
      refine ⟨old, fun a ha hne hax => hne ?_⟩
      exact winners_eq_of_competes hinj (h.subset a ha) (h.subset old hold)
        (hax.trans hcompetes.symm)
    · exact ⟨x, fun a ha _ hax => hreplaces ⟨a, ha, hax⟩⟩
  obtain ⟨old, hone⟩ := hone
  have hsub : x :: l.erase old ⊆ l' := by
    intro a ha
    rw [hput.mem_iff]
    rcases List.mem_cons.mp ha with rfl | ha
    · exact .inl rfl
    · obtain ⟨hne, hal⟩ := h.nodup.mem_erase_iff.mp ha
      exact .inr ⟨hal, hone a hal hne⟩
  have hnodup : (x :: l.erase old).Nodup := by
    refine List.nodup_cons.mpr ⟨?_, h.nodup.erase old⟩
    exact fun hx => hnew (List.mem_of_mem_erase hx)
  have hlength := (hnodup.subperm hsub).length_le
  have herase : l.length ≤ (l.erase old).length + 1 := by
    by_cases hold : old ∈ l
    · rw [List.length_erase_of_mem hold]
      omega
    · rw [List.erase_of_not_mem hold]
      omega
  simp only [List.length_cons] at hlength
  omega

/-- Putting an element into the first `m` winners and cutting again gives the first `m`
winners of the larger set. The element is new to the store and beats what it competes with
there; it may lose to a winner that the store has forgotten. -/
theorem IsLeading.put (h : IsLeading rank m (winners rank coordinate s) l) (hs : s.Finite)
    (hinj : Set.InjOn rank (insert x s)) (hnew : x ∉ l)
    (hwins : ∀ old ∈ l, Competes coordinate old x → rank x < rank old)
    (hput : PutInto rank coordinate x l l') :
    IsLeading rank m (winners rank coordinate (insert x s)) (l'.take m) := by
  have hinj' := hinj.mono (Set.subset_insert x s)
  by_cases hx : x ∈ winners rank coordinate (insert x s)
  · have hcut := IsLeading.of_take hput.sorted (s := {a | a ∈ l'}) (fun a => Iff.rfl) m
    have hmem : ∀ a ∈ winners rank coordinate (insert x s), a ∈ l' ∨ (a ∉ l ∧ a ≠ x
        ∧ a ∈ winners rank coordinate s) := by
      intro a ha
      by_cases hne : a = x
      · exact .inl ((hput.mem_iff a).mpr (.inl hne))
      · obtain ⟨haw, hfree⟩ := (mem_winners_insert_of_wins hx hinj hne).mp ha
        by_cases hal : a ∈ l
        · exact .inl ((hput.mem_iff a).mpr (.inr ⟨hal, hfree⟩))
        · exact .inr ⟨hal, hne, haw⟩
    exact
      { sorted := hcut.sorted
        length_le := hcut.length_le
        subset := by
          intro a ha
          rcases (hput.mem_iff a).mp (hcut.subset a ha) with rfl | ⟨hal, hfree⟩
          · exact hx
          · have hne : a ≠ x := fun heq => hnew (heq ▸ hal)
            exact (mem_winners_insert_of_wins hx hinj hne).mpr ⟨h.subset a hal, hfree⟩
        all := by
          intro hroom a ha
          have hlength : l'.length < m := by
            rw [List.length_take] at hroom
            omega
          rcases hmem a ha with hal | ⟨hal, -, haw⟩
          · exact hcut.all hroom a hal
          · exact absurd (hput.all h hinj' hnew hlength haw) hal
        lower := by
          intro a ha b hb hbcut
          rcases hmem b hb with hbl | ⟨hbl, -, hbw⟩
          · exact hcut.lower a ha b hbl hbcut
          · rcases (hput.mem_iff a).mp (hcut.subset a ha) with rfl | ⟨hal, -⟩
            · exact hput.lower h hnew hwins hbw hbl ha
            · exact h.lower a hal b hbw hbl }
  · -- `x` loses to a winner `w` that the store has forgotten: it comes last and is cut off.
    obtain ⟨w, hw, hwx, hlt⟩ := exists_winner_of_loses hs hx
    have hforgotten : w ∉ l := fun hwl => absurd (hwins w hwl hwx) hlt.not_gt
    have hfull : l.length = m := by
      by_contra hroom
      exact hforgotten (h.all (lt_of_le_of_ne h.length_le hroom) w hw)
    have hfree : ∀ a ∈ l, ¬ Competes coordinate a x := by
      intro a ha hax
      have heq := winners_eq_of_competes hinj' (h.subset a ha) hw (hax.trans hwx.symm)
      exact hforgotten (heq ▸ ha)
    have hlast : (l ++ [x]).Pairwise fun a b => rank a < rank b := by
      rw [List.pairwise_append]
      refine ⟨h.sorted, List.pairwise_singleton _ x, ?_⟩
      intro a ha b hb
      rw [List.mem_singleton.mp hb]
      exact (h.lower a ha w hw hforgotten).trans hlt
    have hl' : l' = l ++ [x] := by
      refine IsLeading.eq_of_sorted hput.sorted hlast ?_
      intro a
      rw [hput.mem_iff, List.mem_append, List.mem_singleton, or_comm]
      constructor
      · rintro (⟨ha, -⟩ | heq)
        · exact .inl ha
        · exact .inr heq
      · rintro (ha | heq)
        · exact .inl ⟨ha, hfree a ha⟩
        · exact .inr heq
    rw [winners_insert_of_loses hw hwx hlt, hl', ← hfull, List.take_left]
    exact hfull ▸ h

end Winners
