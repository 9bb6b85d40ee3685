import Mathlib.Data.Finmap
import Mathlib.Data.Finsupp.Basic

/-!
# Books of a clearing house

Value that is owed between parties is either paid at once, put on credit, paid off later or
refused. `Books` are the running figures of this, over an arbitrary type of accounts: what
was earned, how much of it is settled, what was denied, and what each account still owes.
Credit on an `unsecured` account does not count as settled until it is paid off; credit on
any other does from the start.

The books are balanced (`Books.Balanced`) when every unit of the value booked is either
earned or denied, and every unit earned is either settled or owed without security. Each of
the four bookings keeps them balanced, so a program that is a sequence of bookings loses
nothing and counts nothing twice.

## Main definitions

* `Books.setOff`, `Books.extend`, `Books.clear`, `Books.deny`: the bookings;
* `Books.Balanced`: the figures add up to the value booked;
* `Books.Capped`, `Books.Netted`: no account owes more than a bound, and no account owes
  while its reverse does;
* `Finmap.toFinsupp`: the balances of a finite map of numbers.
-/

namespace Clearing

variable {κ : Type*}

/-- The figures of a clearing house. -/
@[ext]
structure Books (κ : Type*) where
  earned : ℕ
  settled : ℕ
  denied : ℕ
  owed : κ →₀ ℕ

namespace Books

variable (unsecured : κ → Prop) [DecidablePred unsecured]

/-- `n` units of value are paid at once. -/
def setOff (b : Books κ) (n : ℕ) : Books κ :=
  { b with earned := b.earned + n, settled := b.settled + n }

/-- `n` units of value are put on the credit of `k`. -/
noncomputable def extend (b : Books κ) (k : κ) (n : ℕ) : Books κ :=
  { b with
    earned := b.earned + n
    settled := if unsecured k then b.settled else b.settled + n
    owed := b.owed.update k (b.owed k + n) }

/-- `k` pays off `n` units of its credit. -/
noncomputable def clear (b : Books κ) (k : κ) (n : ℕ) : Books κ :=
  { b with
    settled := if unsecured k then b.settled + n else b.settled
    owed := b.owed.update k (b.owed k - n) }

/-- `n` units of value are refused. -/
def deny (b : Books κ) (n : ℕ) : Books κ := { b with denied := b.denied + n }

@[simp]
theorem setOff_zero (b : Books κ) : b.setOff 0 = b := rfl

@[simp]
theorem deny_zero (b : Books κ) : b.deny 0 = b := rfl

@[simp]
theorem extend_zero (b : Books κ) (k : κ) : b.extend unsecured k 0 = b := by
  ext a <;> simp [extend]

@[simp]
theorem clear_zero (b : Books κ) (k : κ) : b.clear unsecured k 0 = b := by
  ext a <;> simp [clear]

theorem owed_extend_self (b : Books κ) (k : κ) (n : ℕ) :
    (b.extend unsecured k n).owed k = b.owed k + n := by
  classical
  simp [extend, Finsupp.update_apply]

theorem owed_extend_of_ne (b : Books κ) {k a : κ} (h : a ≠ k) (n : ℕ) :
    (b.extend unsecured k n).owed a = b.owed a := by
  classical
  simp [extend, Finsupp.update_apply, h]

theorem owed_clear_self (b : Books κ) (k : κ) (n : ℕ) :
    (b.clear unsecured k n).owed k = b.owed k - n := by
  classical
  simp [clear, Finsupp.update_apply]

theorem owed_clear_of_ne (b : Books κ) {k a : κ} (h : a ≠ k) (n : ℕ) :
    (b.clear unsecured k n).owed a = b.owed a := by
  classical
  simp [clear, Finsupp.update_apply, h]

/-- Paying off raises no balance. -/
theorem owed_clear_le (b : Books κ) (k : κ) (n : ℕ) (a : κ) :
    (b.clear unsecured k n).owed a ≤ b.owed a := by
  by_cases h : a = k
  · subst h
    rw [owed_clear_self]
    exact Nat.sub_le _ _
  · exact (owed_clear_of_ne unsecured b h n).le

/-! ## Balance -/

/-- The part of a balance that is not settled. -/
def unpaid (k : κ) (n : ℕ) : ℕ := if unsecured k then n else 0

/-- What is earned but not settled. -/
noncomputable def unsettled (b : Books κ) : ℕ := b.owed.sum (unpaid unsecured)

theorem sum_update (f : κ →₀ ℕ) (k : κ) (n : ℕ) :
    (f.update k n).sum (unpaid unsecured) + unpaid unsecured k (f k)
      = f.sum (unpaid unsecured) + unpaid unsecured k n := by
  refine Finsupp.sum_update_add f k n _ (fun a => ?_) (fun a m m' => ?_)
  · simp [unpaid]
  · by_cases h : unsecured a <;> simp [unpaid, h]

/-- The figures of `b` add up to `traded`, the value booked so far. -/
structure Balanced (b : Books κ) (traded : ℕ) : Prop where
  /-- Every unit is earned or denied. -/
  value : b.earned + b.denied = traded
  /-- Every unit earned is settled or owed without security. -/
  settled : b.settled + b.unsettled unsecured = b.earned
  /-- No balance is more than what was earned. -/
  funded : ∀ k, b.owed k ≤ b.earned

variable {unsecured} {b : Books κ} {traded : ℕ}

namespace Balanced

theorem settled_le (h : b.Balanced unsecured traded) : b.settled ≤ b.earned :=
  h.settled ▸ Nat.le_add_right _ _

theorem earned_le (h : b.Balanced unsecured traded) : b.earned ≤ traded :=
  h.value ▸ Nat.le_add_right _ _

/-- The books of a house that has not traded. -/
theorem start : Balanced (κ := κ) unsecured ⟨0, 0, 0, 0⟩ 0 where
  value := rfl
  settled := by simp [unsettled]
  funded _ := le_rfl

theorem setOff (h : b.Balanced unsecured traded) (n : ℕ) :
    (b.setOff n).Balanced unsecured (traded + n) where
  value := by
    show b.earned + n + b.denied = traded + n
    have := h.value
    omega
  settled := by
    show b.settled + n + b.unsettled unsecured = b.earned + n
    have := h.settled
    omega
  funded k := (h.funded k).trans (Nat.le_add_right _ _)

theorem deny (h : b.Balanced unsecured traded) (n : ℕ) :
    (b.deny n).Balanced unsecured (traded + n) where
  value := by
    show b.earned + (b.denied + n) = traded + n
    have := h.value
    omega
  settled := h.settled
  funded := h.funded

theorem extend (h : b.Balanced unsecured traded) (k : κ) (n : ℕ) :
    (b.extend unsecured k n).Balanced unsecured (traded + n) where
  value := by
    show b.earned + n + b.denied = traded + n
    have := h.value
    omega
  settled := by
    -- what goes on an unsecured account is owed, what goes on a secured one is settled
    have hsum := sum_update unsecured b.owed k (b.owed k + n)
    have := h.settled
    by_cases hk : unsecured k
    · simp only [unpaid, hk, if_true] at hsum
      simp only [Books.extend, unsettled, hk, if_true] at this ⊢
      omega
    · simp only [unpaid, hk, if_false] at hsum
      simp only [Books.extend, unsettled, hk, if_false] at this ⊢
      omega
  funded a := by
    show _ ≤ b.earned + n
    by_cases ha : a = k
    · subst ha
      rw [owed_extend_self]
      exact Nat.add_le_add_right (h.funded a) n
    · rw [owed_extend_of_ne _ _ ha]
      exact (h.funded a).trans (Nat.le_add_right _ _)

theorem clear (h : b.Balanced unsecured traded) {k : κ} {n : ℕ} (hn : n ≤ b.owed k) :
    (b.clear unsecured k n).Balanced unsecured traded where
  value := h.value
  settled := by
    have hsum := sum_update unsecured b.owed k (b.owed k - n)
    have := h.settled
    by_cases hk : unsecured k
    · simp only [unpaid, hk, if_true] at hsum
      simp only [Books.clear, unsettled, hk, if_true] at this ⊢
      omega
    · simp only [unpaid, hk, if_false] at hsum
      simp only [Books.clear, unsettled, hk, if_false] at this ⊢
      omega
  funded a := (owed_clear_le unsecured b k n a).trans (h.funded a)

end Balanced

/-! ## Bounds on the balances -/

/-- No account owes more than `cap`. -/
def Capped (cap : ℕ) (b : Books κ) : Prop := ∀ k, b.owed k ≤ cap

/-- No account owes while its reverse does. -/
def Netted (reverse : κ → κ) (b : Books κ) : Prop := ∀ k, b.owed k = 0 ∨ b.owed (reverse k) = 0

/-- Only accounts with the property `p` owe anything. -/
def Within (p : κ → Prop) (b : Books κ) : Prop := ∀ k, b.owed k ≠ 0 → p k

variable {cap : ℕ} {reverse : κ → κ} {p : κ → Prop} {k : κ} {n : ℕ}

theorem Capped.extend (h : b.Capped cap) (hn : b.owed k + n ≤ cap) :
    (b.extend unsecured k n).Capped cap := by
  intro a
  by_cases ha : a = k
  · subst ha
    rwa [owed_extend_self]
  · rw [owed_extend_of_ne _ _ ha]
    exact h a

theorem Capped.clear (h : b.Capped cap) : (b.clear unsecured k n).Capped cap :=
  fun a => (owed_clear_le unsecured b k n a).trans (h a)

theorem Within.extend (h : b.Within p) (hk : n ≠ 0 → p k) :
    (b.extend unsecured k n).Within p := by
  intro a ha
  by_cases hak : a = k
  · subst hak
    rw [owed_extend_self] at ha
    by_cases hn : n = 0
    · exact h a (by omega)
    · exact hk hn
  · rw [owed_extend_of_ne _ _ hak] at ha
    exact h a ha

theorem Within.clear (h : b.Within p) : (b.clear unsecured k n).Within p := fun a ha =>
  h a (Nat.pos_iff_ne_zero.mp
    ((Nat.pos_of_ne_zero ha).trans_le (owed_clear_le unsecured b k n a)))

/-- Books whose balances do not rise stay netted. -/
theorem Netted.mono {b' : Books κ} (h : b.Netted reverse) (hle : ∀ a, b'.owed a ≤ b.owed a) :
    b'.Netted reverse := by
  intro a
  exact (h a).imp (fun ha => Nat.le_zero.mp ((hle a).trans ha.le))
    (fun ha => Nat.le_zero.mp ((hle (reverse a)).trans ha.le))

/-- The balance of `k` may change at will once its reverse owes nothing. -/
theorem Netted.update {b' : Books κ} (h : b.Netted reverse) (hinv : ∀ a, reverse (reverse a) = a)
    (hne : reverse k ≠ k) (hk : b.owed (reverse k) = 0) (hsame : ∀ a ≠ k, b'.owed a = b.owed a) :
    b'.Netted reverse := by
  intro a
  by_cases ha : a = k
  · subst ha
    exact Or.inr ((hsame _ hne).trans hk)
  by_cases hra : reverse a = k
  · have hback : a = reverse k := by rw [← hra, hinv]
    exact Or.inl ((hsame a ha).trans (hback ▸ hk))
  · rw [hsame a ha, hsame _ hra]
    exact h a

end Books

end Clearing

namespace Finmap

variable {κ : Type*} [DecidableEq κ]

/-- The balances that a finite map of numbers records; a missing entry is a balance of `0`. -/
def toFinsupp (s : Finmap fun _ : κ => ℕ) : κ →₀ ℕ where
  support := s.keys.filter fun k => (s.lookup k).getD 0 ≠ 0
  toFun k := (s.lookup k).getD 0
  mem_support_toFun k := by
    rw [Finset.mem_filter, mem_keys, and_iff_right_iff_imp]
    intro hk
    by_contra h
    exact hk (by rw [lookup_eq_none.mpr h]; rfl)

theorem toFinsupp_apply (s : Finmap fun _ : κ => ℕ) (k : κ) :
    s.toFinsupp k = (s.lookup k).getD 0 := rfl

theorem toFinsupp_insert (s : Finmap fun _ : κ => ℕ) (k : κ) (n : ℕ) :
    (s.insert k n).toFinsupp = s.toFinsupp.update k n := by
  ext a
  rw [toFinsupp_apply, Finsupp.update_apply, toFinsupp_apply]
  by_cases h : a = k
  · subst h
    simp
  · rw [lookup_insert_of_ne _ h, if_neg h]

theorem toFinsupp_erase (s : Finmap fun _ : κ => ℕ) (k : κ) :
    (s.erase k).toFinsupp = s.toFinsupp.update k 0 := by
  ext a
  rw [toFinsupp_apply, Finsupp.update_apply, toFinsupp_apply]
  by_cases h : a = k
  · subst h
    simp
  · rw [lookup_erase_ne h, if_neg h]

end Finmap
