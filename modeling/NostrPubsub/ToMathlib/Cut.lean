import Mathlib.Data.List.Infix
import Mathlib.Order.Defs.LinearOrder
import Mathlib.Data.List.Sort

/-!
# Cutting a sorted list at positions

A list whose elements have strictly increasing ranks is cut at a position: `List.cutAt` counts
the elements of lower rank. The elements with indices between two cuts are the elements with
ranks between the two positions (`List.extract_cutAt`), and a binary search between two indices
finds the cut (`List.lowerBoundLoop_eq`).
-/

namespace List

variable {α β : Type*} [LinearOrder β] (rank : α → β)

/-- The number of elements before a position. -/
def cutAt (l : List α) (p : β) : ℕ := (l.takeWhile fun a => rank a < p).length

variable {rank} {l : List α} {p q : β}

theorem cutAt_le_length (l : List α) (p : β) : cutAt rank l p ≤ l.length :=
  (takeWhile_sublist _).length_le

@[simp]
theorem cutAt_nil (p : β) : cutAt rank [] p = 0 := rfl

theorem cutAt_cons (a : α) (l : List α) (p : β) :
    cutAt rank (a :: l) p = if rank a < p then cutAt rank l p + 1 else 0 := by
  rw [cutAt, takeWhile_cons]
  by_cases h : rank a < p
  · simp [h, cutAt]
  · simp [h]

theorem lt_of_lt_cutAt {i : ℕ} (hi : i < l.length) (h : i < cutAt rank l p) : rank l[i] < p := by
  induction l generalizing i with
  | nil => simp at hi
  | cons a l ih =>
    rw [cutAt_cons] at h
    split at h
    · next ha =>
      cases i with
      | zero => exact ha
      | succ i => exact ih (by simpa using hi) (by omega)
    · omega

theorem le_of_cutAt_le (hsorted : l.Pairwise fun a b => rank a < rank b) {i : ℕ}
    (hi : i < l.length) (h : cutAt rank l p ≤ i) : p ≤ rank l[i] := by
  induction l generalizing i with
  | nil => simp at hi
  | cons a l ih =>
    obtain ⟨hhead, htail⟩ := pairwise_cons.mp hsorted
    rw [cutAt_cons] at h
    split at h
    · cases i with
      | zero => omega
      | succ i => exact ih htail (by simpa using hi) (by omega)
    · next ha =>
      cases i with
      | zero => exact not_lt.mp ha
      | succ i => exact (not_lt.mp ha).trans (hhead _ (getElem_mem _)).le

/-- A cut is the only index with lower ranks before it and no lower rank from it on. -/
theorem cutAt_eq_of {k : ℕ} (hk : k ≤ l.length) (hlt : ∀ i (h : i < l.length), i < k → rank l[i] < p)
    (hle : ∀ i (h : i < l.length), k ≤ i → p ≤ rank l[i]) : cutAt rank l p = k := by
  induction l generalizing k with
  | nil => simpa [eq_comm] using hk
  | cons a l ih =>
    rw [cutAt_cons]
    cases k with
    | zero =>
      have ha : p ≤ rank a := hle 0 (by simp) le_rfl
      rw [if_neg (not_lt.mpr ha)]
    | succ k =>
      have ha : rank a < p := hlt 0 (by simp) (by omega)
      rw [if_pos ha, ih (by simpa using hk)]
      · intro i hi hik
        exact hlt (i + 1) (by simpa using hi) (by omega)
      · intro i hi hik
        exact hle (i + 1) (by simpa using hi) (by omega)

theorem cutAt_mono (l : List α) (h : p ≤ q) : cutAt rank l p ≤ cutAt rank l q := by
  induction l with
  | nil => simp
  | cons a l ih =>
    rw [cutAt_cons, cutAt_cons]
    by_cases hp : rank a < p
    · rw [if_pos hp, if_pos (hp.trans_le h)]
      omega
    · rw [if_neg hp]
      exact Nat.zero_le _

/-- Searching on from an index before the cut. -/
theorem add_length_takeWhile_drop (l : List α) {first : ℕ} (h : first ≤ cutAt rank l p) :
    first + ((l.drop first).takeWhile fun a => rank a < p).length = cutAt rank l p := by
  induction l generalizing first with
  | nil =>
    rw [cutAt_nil] at h
    simp [Nat.le_zero.mp h]
  | cons a l ih =>
    cases first with
    | zero => simp [cutAt]
    | succ first =>
      rw [cutAt_cons] at h ⊢
      split at h
      · next ha =>
        rw [if_pos ha, drop_succ_cons]
        have := ih (Nat.le_of_succ_le_succ h)
        omega
      · omega

/-- The elements between two cuts are those between the two positions. -/
theorem extract_cutAt (hsorted : l.Pairwise fun a b => rank a < rank b) (h : p ≤ q) :
    l.extract (cutAt rank l p) (cutAt rank l q) = l.filter fun a => p ≤ rank a ∧ rank a < q := by
  induction l with
  | nil => simp
  | cons a l ih =>
    obtain ⟨hhead, htail⟩ := pairwise_cons.mp hsorted
    rw [cutAt_cons, cutAt_cons]
    by_cases hp : rank a < p
    · have hq := hp.trans_le h
      rw [if_pos hp, if_pos hq, filter_cons_of_neg (by simp [hp]), ← ih htail]
      simp [extract_eq_take_drop]
    · rw [if_neg hp]
      by_cases hq : rank a < q
      · rw [if_pos hq, filter_cons_of_pos (by simp [hq, not_lt.mp hp])]
        have hzero : cutAt rank l p = 0 := by
          refine cutAt_eq_of (Nat.zero_le _) (fun i _ hi => absurd hi (Nat.not_lt_zero _)) ?_
          exact fun i hi _ => (not_lt.mp hp).trans (hhead _ (getElem_mem _)).le
        rw [← ih htail, hzero]
        simp [extract_eq_take_drop]
      · rw [if_neg hq]
        have hnone : ∀ b ∈ a :: l, ¬ (p ≤ rank b ∧ rank b < q) := by
          intro b hb hbq
          rcases mem_cons.mp hb with rfl | hb
          · exact hq hbq.2
          · exact hq ((hhead b hb).trans hbq.2)
        rw [eq_comm, filter_eq_nil_iff.mpr (by simpa using hnone)]
        simp [extract_eq_take_drop]

/-! ## Binary search -/

/-- Halve the interval `[first, last)` while it is not empty. -/
def lowerBoundLoop (before : α → Bool) (l : List α) : (fuel first last : ℕ) → ℕ
  | 0, first, _ => first
  | fuel + 1, first, last =>
    if first < last then
      let middle := first + (last - first) / 2
      if (l[middle]?).any before then lowerBoundLoop before l fuel (middle + 1) last
      else lowerBoundLoop before l fuel first middle
    else first

/-- The search keeps the cut between its two ends. -/
theorem lowerBoundLoop_eq (hsorted : l.Pairwise fun a b => rank a < rank b) {before : α → Bool}
    (hbefore : ∀ a ∈ l, before a = true ↔ rank a < p) {fuel first last : ℕ}
    (hfuel : last - first ≤ fuel) (hfirst : first ≤ cutAt rank l p) (hlast : cutAt rank l p ≤ last)
    (hlen : last ≤ l.length) : lowerBoundLoop before l fuel first last = cutAt rank l p := by
  induction fuel generalizing first last with
  | zero =>
    rw [lowerBoundLoop]
    omega
  | succ fuel ih =>
    rw [lowerBoundLoop]
    split
    · next hlt =>
      have hmiddle : first + (last - first) / 2 < l.length := by omega
      simp only [getElem?_eq_getElem hmiddle, Option.any_some, hbefore _ (getElem_mem hmiddle)]
      split
      · next hrank =>
        refine ih (by omega) ?_ hlast hlen
        by_contra hcut
        exact absurd hrank (not_lt.mpr (le_of_cutAt_le hsorted hmiddle (by omega)))
      · next hrank =>
        refine ih (by omega) hfirst ?_ (by omega)
        by_contra hcut
        exact hrank (lt_of_lt_cutAt hmiddle (by omega))
    · omega

end List
