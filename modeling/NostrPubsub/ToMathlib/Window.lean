import Mathlib.Data.Finset.Card
import Mathlib.Data.Finset.Dedup
import Mathlib.Data.List.DropRight
import Mathlib.Data.List.Infix

/-!
# Lists without near repetitions

A sequence that refuses what was among its last `n` entries is `List.Spaced n`. Between two equal
entries of such a list stand `n` different others (`List.Spaced.card_between`).

`keepLast` is how a program keeps that window: a queue and the set of its entries, from which the
oldest go while there are too many.
-/

variable {α : Type*}

namespace List

variable {n : ℕ} {l : List α}

/-- No entry is among the `n` entries before it. -/
def Spaced (n : ℕ) (l : List α) : Prop :=
  ∀ before x after, l = before ++ x :: after → x ∉ before.rtake n

theorem spaced_nil : Spaced n ([] : List α) := by
  intro before x after h
  simp at h

theorem Spaced.concat (h : l.Spaced n) {x : α} (hx : x ∉ l.rtake n) : (l ++ [x]).Spaced n := by
  intro before y after heq
  rcases List.eq_nil_or_concat after with rfl | ⟨after, z, rfl⟩
  · obtain ⟨hl, hy⟩ := List.append_inj' heq rfl
    cases hy
    rwa [← hl]
  · rw [List.concat_eq_append, ← List.cons_append, ← List.append_assoc] at heq
    exact h before y after (List.append_inj_left' heq rfl)

theorem Spaced.of_append {a b : List α} (h : (a ++ b).Spaced n) : a.Spaced n := by
  intro before x after heq
  refine h before x (after ++ b) ?_
  rw [heq, List.append_assoc, List.cons_append]

/-- A window of `n` entries has no repetition. -/
theorem Spaced.nodup_rtake (h : l.Spaced n) : (l.rtake n).Nodup := by
  induction l using List.reverseRecOn with
  | nil => simp
  | append_singleton l x ih =>
    cases n with
    | zero => simp
    | succ m =>
      have hsuffix : l.rtake m <:+ l.rtake (m + 1) := by
        rw [List.rtake, List.rtake]
        exact List.drop_suffix_drop_left l (by omega)
      have hx : x ∉ l.rtake (m + 1) := h l x [] rfl
      rw [List.rtake_concat_succ, List.nodup_append]
      refine ⟨(ih h.of_append).sublist hsuffix.sublist, List.nodup_singleton x, ?_⟩
      rintro a ha b hb rfl
      exact hx (hsuffix.subset (List.mem_singleton.mp hb ▸ ha))

theorem rtake_append {a b : List α} (h : n ≤ b.length) : (a ++ b).rtake n = b.rtake n := by
  rw [List.rtake, List.rtake, List.length_append, List.drop_append,
    List.drop_eq_nil_of_le (by omega), List.nil_append]
  congr 1
  omega

/-- The window after another entry depends on the window before it only. -/
theorem rtake_rtake_concat (n : ℕ) (l : List α) (x : α) :
    (l.rtake n ++ [x]).rtake n = (l ++ [x]).rtake n := by
  rcases Nat.lt_or_ge l.length n with hshort | hlong
  · have hall : l.rtake n = l := by
      rw [List.rtake, Nat.sub_eq_zero_of_le hshort.le, List.drop_zero]
    rw [hall]
  · have hsplit : l ++ [x] = l.take (l.length - n) ++ (l.rtake n ++ [x]) := by
      rw [← List.append_assoc, List.rtake, List.take_append_drop]
    have hlength : n ≤ (l.rtake n ++ [x]).length := by
      rw [List.length_append, List.rtake, List.length_drop]
      omega
    rw [hsplit, rtake_append hlength]

theorem mem_of_mem_rtake_concat {x y : α} (h : y ∈ (l ++ [x]).rtake n) : y ∈ l.rtake n ∨ y = x := by
  rw [← rtake_rtake_concat] at h
  simpa using List.mem_of_mem_drop h

/-- Between two equal entries stand `n` different other ones. -/
theorem Spaced.card_between [DecidableEq α] {before between after : List α} {x : α}
    (h : (before ++ x :: between ++ x :: after).Spaced n) :
    n ≤ (between.toFinset.erase x).card := by
  have hx : x ∉ (before ++ x :: between).rtake n := h _ x after rfl
  have hlength : n ≤ between.length := by
    by_contra hlt
    refine hx ?_
    rw [List.rtake, List.drop_append]
    refine List.mem_append_right _ ?_
    rw [List.length_append, List.length_cons,
      show before.length + (between.length + 1) - n - before.length = 0 by omega]
    exact List.mem_cons_self
  have hwindow : (before ++ x :: between).rtake n = between.rtake n := by
    rw [List.append_cons, rtake_append hlength]
  have hnodup := (h.of_append).nodup_rtake
  rw [hwindow] at hx hnodup
  calc n = (between.rtake n).length := by rw [List.rtake, List.length_drop]; omega
    _ = (between.rtake n).toFinset.card := (List.toFinset_card_of_nodup hnodup).symm
    _ ≤ (between.toFinset.erase x).card := by
      refine Finset.card_le_card fun y hy => ?_
      rw [List.mem_toFinset] at hy
      refine Finset.mem_erase.mpr ⟨fun heq => hx (heq ▸ hy), ?_⟩
      exact List.mem_toFinset.mpr (List.mem_of_mem_drop hy)

end List

/-! ## Keeping the window -/

variable [DecidableEq α]

/-- Drop the oldest entries of a queue, and take them from the set of its entries, while there are
more than `max`. -/
def keepLast (max : ℕ) : List α → Finset α → List α × Finset α
  | [], ids => ([], ids)
  | oldest :: rest, ids =>
    if max < rest.length + 1 then keepLast max rest (ids.erase oldest) else (oldest :: rest, ids)

/-- What is kept are the last `max` entries. -/
theorem keepLast_eq {max : ℕ} {order : List α} (h : order.Nodup) :
    keepLast max order order.toFinset = (order.rtake max, (order.rtake max).toFinset) := by
  induction order with
  | nil => simp [keepLast]
  | cons oldest rest ih =>
    rw [keepLast]
    obtain ⟨hfresh, hrest⟩ := List.nodup_cons.mp h
    split
    · next hover =>
      have herase : (oldest :: rest).toFinset.erase oldest = rest.toFinset := by
        rw [List.toFinset_cons, Finset.erase_insert (by simpa using hfresh)]
      have hrtake : (oldest :: rest).rtake max = rest.rtake max := by
        rw [List.rtake, List.rtake, List.length_cons, Nat.succ_sub (by omega), List.drop_succ_cons]
      rw [herase, hrtake, ih hrest]
    · next hroom =>
      have hrtake : (oldest :: rest).rtake max = oldest :: rest := by
        rw [List.rtake, List.length_cons, Nat.sub_eq_zero_of_le (by omega), List.drop_zero]
      rw [hrtake]
