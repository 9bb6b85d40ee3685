import Mathlib.Algebra.Order.Round
import Mathlib.Algebra.Order.Floor.Semifield
import Mathlib.Data.Int.Log
import Mathlib.Data.Rat.Floor
import Mathlib.Tactic.Linarith

/-!
# Rounding to binary64

The nearest binary64 number of a rational, ties to even. Both zeros are `0`, and both infinities are
`none`.
-/

namespace Binary64

/-- The nearest integer, ties to even. -/
def roundHalfEven (q : ℚ) : ℤ :=
  if Int.fract q < 1 / 2 then ⌊q⌋
  else if 1 / 2 < Int.fract q then ⌊q⌋ + 1
  else if Even ⌊q⌋ then ⌊q⌋ else ⌊q⌋ + 1

/-- The exponent of the last place of the binary64 numbers around `q`. -/
def lastPlace (q : ℚ) : ℤ := max (Int.log 2 |q| - 52) (-1074)

/-- The nearest multiple of the last place. -/
def rounded (q : ℚ) : ℚ := roundHalfEven (q / 2 ^ lastPlace q) * 2 ^ lastPlace q

/-- The nearest binary64 number of `q`. -/
def nearest (q : ℚ) : Option ℚ := if |rounded q| < 2 ^ 1024 then some (rounded q) else none

theorem roundHalfEven_intCast (n : ℤ) : roundHalfEven n = n := by
  unfold roundHalfEven
  rw [Int.fract_intCast, if_pos (by norm_num), Int.floor_intCast]

theorem floor_le_roundHalfEven (q : ℚ) : ⌊q⌋ ≤ roundHalfEven q := by
  unfold roundHalfEven
  split_ifs <;> omega

theorem le_roundHalfEven {n : ℤ} {q : ℚ} (h : n ≤ q) : n ≤ roundHalfEven q :=
  (Int.le_floor.mpr h).trans (floor_le_roundHalfEven q)

theorem two_zpow_pos (e : ℤ) : (0 : ℚ) < 2 ^ e := zpow_pos (by norm_num) e

/-- A natural number with at most 53 binary digits is a binary64 number. -/
theorem nearest_natCast {n : ℕ} (h : n < 2 ^ 53) : nearest n = some (n : ℚ) := by
  have hplace : lastPlace n ≤ 0 := by
    have hlog : Nat.log 2 n ≤ 52 := Nat.lt_succ_iff.mp (Nat.log_lt_of_lt_pow' (by decide) h)
    rw [lastPlace, Nat.abs_cast, Int.log_natCast]
    omega
  -- the number is a multiple of its last place
  obtain ⟨k, hk⟩ := Int.eq_ofNat_of_zero_le (neg_nonneg.mpr hplace)
  have hdiv : (n : ℚ) / 2 ^ lastPlace n = ((n * 2 ^ k : ℤ) : ℚ) := by
    rw [div_eq_mul_inv, ← zpow_neg, hk]
    push_cast
    rw [zpow_natCast]
  have hrounded : rounded n = n := by
    rw [rounded, hdiv, roundHalfEven_intCast, ← hdiv, div_mul_cancel₀ _ (two_zpow_pos _).ne']
  have hsmall : |(n : ℚ)| < 2 ^ 1024 := by
    rw [Nat.abs_cast]
    calc (n : ℚ) < 2 ^ 53 := by exact_mod_cast h
      _ ≤ 2 ^ 1024 := pow_le_pow_right₀ (by norm_num) (by norm_num)
  unfold nearest
  rw [hrounded, if_pos hsmall]

/-- Rounding does not go below a power of two. -/
theorem two_pow_le_of_nearest {n k : ℕ} {q : ℚ} (hn : 2 ^ k ≤ n) (h : nearest n = some q) :
    (2 : ℚ) ^ k ≤ q := by
  have hpos : (0 : ℚ) < n := by
    exact_mod_cast (Nat.two_pow_pos k).trans_le hn
  have hlog : (k : ℤ) ≤ Int.log 2 (n : ℚ) := by
    rw [Int.log_natCast]
    exact_mod_cast Nat.le_log_of_pow_le (by decide) hn
  have hplace : lastPlace n ≤ Int.log 2 (n : ℚ) := by
    rw [lastPlace, Nat.abs_cast]
    omega
  -- the power of two below the number is a multiple of its last place
  obtain ⟨d, hd⟩ := Int.eq_ofNat_of_zero_le (sub_nonneg.mpr hplace)
  have hint : ((2 ^ d : ℤ) : ℚ) ≤ (n : ℚ) / 2 ^ lastPlace n := by
    rw [le_div_iff₀ (two_zpow_pos _)]
    push_cast
    rw [← zpow_natCast, ← zpow_add₀ (by norm_num), ← hd, sub_add_cancel]
    exact_mod_cast Int.zpow_log_le_self (R := ℚ) (by decide) hpos
  have hrounded : ((2 ^ d : ℤ) : ℚ) ≤ (roundHalfEven ((n : ℚ) / 2 ^ lastPlace n) : ℚ) := by
    exact_mod_cast le_roundHalfEven hint
  unfold nearest at h
  split at h
  · cases h
    calc (2 : ℚ) ^ k
        ≤ 2 ^ Int.log 2 (n : ℚ) := by
          rw [← zpow_natCast]
          exact zpow_le_zpow_right₀ (by norm_num) hlog
      _ = ((2 ^ d : ℤ) : ℚ) * 2 ^ lastPlace n := by
          push_cast
          rw [← zpow_natCast, ← zpow_add₀ (by norm_num), ← hd, sub_add_cancel]
      _ ≤ _ := mul_le_mul_of_nonneg_right hrounded (two_zpow_pos _).le
  · cases h

end Binary64
