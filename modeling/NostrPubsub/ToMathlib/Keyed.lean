import Mathlib.Data.List.Nodup

/-!
# Values under keys of their own

The values of a map that keeps the order of insertion, where each value says its key. Setting a
value takes the place of the one with its key, or comes last.
-/

namespace List

variable {α κ : Type*} [DecidableEq κ] (key : α → κ)

/-- Set a value under its key. -/
def setBy (a : α) (l : List α) : List α :=
  if l.any (key · = key a) then l.map fun old => if key old = key a then a else old
  else l ++ [a]

variable {key} {l : List α} {a x : α}

theorem mem_setBy : x ∈ l.setBy key a ↔ x = a ∨ x ∈ l ∧ key x ≠ key a := by
  unfold setBy
  split
  · next hstored =>
    obtain ⟨stored, hmem, hkey⟩ := any_eq_true.mp hstored
    rw [mem_map]
    constructor
    · rintro ⟨old, hold, rfl⟩
      split
      · exact .inl rfl
      · next hne => exact .inr ⟨hold, hne⟩
    · rintro (rfl | ⟨hx, hne⟩)
      · exact ⟨stored, hmem, if_pos (of_decide_eq_true hkey)⟩
      · exact ⟨x, hx, if_neg hne⟩
  · next hfresh =>
    rw [any_eq_true] at hfresh
    push Not at hfresh
    rw [mem_append, mem_singleton]
    constructor
    · rintro (hx | rfl)
      · exact .inr ⟨hx, by simpa using hfresh x hx⟩
      · exact .inl rfl
    · rintro (rfl | ⟨hx, -⟩)
      · exact .inr rfl
      · exact .inl hx

theorem nodup_setBy (h : (l.map key).Nodup) : ((l.setBy key a).map key).Nodup := by
  unfold setBy
  split
  · -- the keys stay as they are
    rw [map_map]
    convert h using 1
    refine map_congr_left fun old _ => ?_
    simp only [Function.comp_apply]
    split
    · next hkey => exact hkey.symm
    · rfl
  · next hfresh =>
    rw [any_eq_true] at hfresh
    push Not at hfresh
    rw [map_append, nodup_append]
    refine ⟨h, nodup_singleton _, ?_⟩
    rintro k hk k' hk' rfl
    obtain ⟨old, hold, rfl⟩ := mem_map.mp hk
    have hkey : key old = key a := mem_singleton.mp hk'
    exact hfresh old hold (by simpa using hkey)

/-- What is found at an index of a list with one more element. -/
theorem getElem?_concat_eq_some (m : ℕ) (x : α) :
    (l ++ [a])[m]? = some x ↔ l[m]? = some x ∨ m = l.length ∧ x = a := by
  rw [List.getElem?_append]
  split
  · next hlt =>
    refine ⟨.inl, fun h => h.resolve_right ?_⟩
    rintro ⟨rfl, -⟩
    exact Nat.lt_irrefl _ hlt
  · next hge =>
    rw [List.getElem?_eq_none (Nat.not_lt.mp hge), List.getElem?_singleton]
    split
    · next hzero =>
      have hm : m = l.length := by omega
      simp [hm, eq_comm]
    · next hzero =>
      have hm : m ≠ l.length := by omega
      simp [hm]

end List
