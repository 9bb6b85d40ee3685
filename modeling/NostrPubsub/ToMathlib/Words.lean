import Mathlib.Data.Nat.Digits.Lemmas
import Mathlib.Data.Int.ModEq

/-!
# Arithmetic on words

A number is kept as words of a base, the least significant first. A sum is taken word by word with
a carry, a difference with a borrow, and what is carried out of the last word is lost: the words
spell the sum (`Words.ofDigits_addCarry`), respectively the difference (`Words.ofDigits_subBorrow`),
modulo the power of the base. A table of sums answers for every interval of the list summed
(`Words.ofDigits_subBorrow_sums`).
-/

namespace Words

variable (base : ℕ)

/-- Add words with a carry. -/
def addCarry : (carry : ℕ) → List ℕ → List ℕ → List ℕ
  | carry, a :: as, b :: bs =>
    (a + b + carry) % base :: addCarry (if base ≤ a + b + carry then 1 else 0) as bs
  | _, _, _ => []

/-- Subtract words with a borrow. -/
def subBorrow : (borrow : ℕ) → List ℕ → List ℕ → List ℕ
  | borrow, a :: as, b :: bs =>
    (((a : ℤ) - b - borrow) % base).toNat ::
      subBorrow (if (a : ℤ) - b - borrow < 0 then 1 else 0) as bs
  | _, _, _ => []

/-- `width` words below the base. -/
structure Fits (width : ℕ) (words : List ℕ) : Prop where
  length_eq : words.length = width
  lt : ∀ word ∈ words, word < base

variable {base} {width carry borrow : ℕ} {as bs : List ℕ}

theorem fits_cons {a : ℕ} : Fits base (width + 1) (a :: as) ↔ a < base ∧ Fits base width as := by
  constructor
  · rintro ⟨hlength, hlt⟩
    obtain ⟨ha, has⟩ := List.forall_mem_cons.mp hlt
    exact ⟨ha, Nat.succ_injective hlength, has⟩
  · rintro ⟨ha, hlength, has⟩
    exact ⟨congrArg (· + 1) hlength, List.forall_mem_cons.mpr ⟨ha, has⟩⟩

theorem fits_replicate_zero (hbase : 0 < base) : Fits base width (List.replicate width 0) :=
  ⟨List.length_replicate, fun _ hword => (List.eq_of_mem_replicate hword).trans_lt hbase⟩

theorem Fits.ofDigits_lt (hbase : 1 < base) (h : Fits base width as) :
    Nat.ofDigits base as < base ^ width := by
  rw [← h.length_eq]
  exact Nat.ofDigits_lt_base_pow_length hbase h.lt

theorem addCarry_fits (hbase : 0 < base) (has : as.length = width) (hbs : bs.length = width) :
    Fits base width (addCarry base carry as bs) := by
  induction as generalizing carry bs width with
  | nil =>
    subst has
    exact ⟨rfl, fun _ hword => absurd hword List.not_mem_nil⟩
  | cons a as ih =>
    subst has
    cases bs with
    | nil => exact absurd hbs (Nat.succ_ne_zero _).symm
    | cons b bs =>
      exact fits_cons.mpr ⟨Nat.mod_lt _ hbase, ih rfl (Nat.succ_injective hbs)⟩

theorem subBorrow_fits (hbase : 0 < base) (has : as.length = width) (hbs : bs.length = width) :
    Fits base width (subBorrow base borrow as bs) := by
  induction as generalizing borrow bs width with
  | nil =>
    subst has
    exact ⟨rfl, fun _ hword => absurd hword List.not_mem_nil⟩
  | cons a as ih =>
    subst has
    cases bs with
    | nil => exact absurd hbs (Nat.succ_ne_zero _).symm
    | cons b bs =>
      refine fits_cons.mpr ⟨?_, ih rfl (Nat.succ_injective hbs)⟩
      have hpos : (0 : ℤ) < base := by exact_mod_cast hbase
      have hlt := Int.emod_lt_of_pos ((a : ℤ) - b - borrow) hpos
      omega

/-- The words of a sum spell it up to what is carried out of the last of them. -/
theorem addCarry_modEq (has : Fits base width as) (hbs : Fits base width bs) (hcarry : carry ≤ 1) :
    Nat.ofDigits base (addCarry base carry as bs) ≡
      Nat.ofDigits base as + Nat.ofDigits base bs + carry [MOD base ^ width] := by
  induction as generalizing carry bs width with
  | nil =>
    obtain rfl : 0 = width := has.length_eq
    exact Nat.modEq_one
  | cons a as ih =>
    obtain rfl : as.length + 1 = width := has.length_eq
    cases bs with
    | nil => exact absurd hbs.length_eq (Nat.succ_ne_zero _).symm
    | cons b bs =>
      obtain ⟨ha, has⟩ := fits_cons.mp has
      obtain ⟨hb, hbs⟩ := fits_cons.mp hbs
      obtain ⟨next, hnext, hle, hword⟩ : ∃ next,
          (if base ≤ a + b + carry then 1 else 0) = next ∧ next ≤ 1 ∧
            (a + b + carry) % base + base * next = a + b + carry := by
        split
        · next hover =>
          refine ⟨1, rfl, le_rfl, ?_⟩
          rw [Nat.mod_eq_sub_mod hover, Nat.mod_eq_of_lt (by omega)]
          omega
        · next hfits => exact ⟨0, rfl, Nat.zero_le _, Nat.mod_eq_of_lt (not_le.mp hfits)⟩
      have hrest := ih has hbs hle
      rw [addCarry, hnext]
      simp only [Nat.ofDigits_cons]
      calc (a + b + carry) % base + base * Nat.ofDigits base (addCarry base next as bs)
          ≡ (a + b + carry) % base +
              base * (Nat.ofDigits base as + Nat.ofDigits base bs + next)
              [MOD base ^ (as.length + 1)] := by
            rw [Nat.pow_succ']
            exact (hrest.mul_left' base).add_left _
        _ = (a + b + carry) % base + base * next +
              base * (Nat.ofDigits base as + Nat.ofDigits base bs) := by ring
        _ = a + base * Nat.ofDigits base as + (b + base * Nat.ofDigits base bs) + carry := by
            rw [hword]
            ring

theorem ofDigits_addCarry (hbase : 1 < base) (has : Fits base width as) (hbs : Fits base width bs)
    (hcarry : carry ≤ 1) : Nat.ofDigits base (addCarry base carry as bs) =
      (Nat.ofDigits base as + Nat.ofDigits base bs + carry) % base ^ width := by
  have hfits := @addCarry_fits base width carry as bs (by omega) has.length_eq hbs.length_eq
  rw [← Nat.mod_eq_of_lt (hfits.ofDigits_lt hbase)]
  exact addCarry_modEq has hbs hcarry

/-- The words of a difference spell it up to what is borrowed beyond the last of them. -/
theorem subBorrow_modEq (hbase : 0 < base) (has : Fits base width as) (hbs : Fits base width bs)
    (hborrow : borrow ≤ 1) : ((Nat.ofDigits base (subBorrow base borrow as bs) : ℕ) : ℤ) ≡
      (Nat.ofDigits base as : ℕ) - (Nat.ofDigits base bs : ℕ) - borrow [ZMOD base ^ width] := by
  induction as generalizing borrow bs width with
  | nil =>
    obtain rfl : 0 = width := has.length_eq
    rw [pow_zero]
    exact Int.modEq_one
  | cons a as ih =>
    obtain rfl : as.length + 1 = width := has.length_eq
    cases bs with
    | nil => exact absurd hbs.length_eq (Nat.succ_ne_zero _).symm
    | cons b bs =>
      obtain ⟨ha, has⟩ := fits_cons.mp has
      obtain ⟨hb, hbs⟩ := fits_cons.mp hbs
      obtain ⟨next, hnext, hle, hword⟩ : ∃ next,
          (if (a : ℤ) - b - borrow < 0 then 1 else 0) = (next : ℕ) ∧ next ≤ 1 ∧
            ((((a : ℤ) - b - borrow) % base).toNat : ℤ) = a - b - borrow + base * next := by
        have hpos : (0 : ℤ) < base := by exact_mod_cast hbase
        have hnonneg := Int.emod_nonneg ((a : ℤ) - b - borrow) hpos.ne'
        rw [Int.toNat_of_nonneg hnonneg]
        split
        · refine ⟨1, rfl, le_rfl, ?_⟩
          rw [← Int.add_emod_right, Int.emod_eq_of_lt (by omega) (by omega)]
          omega
        · refine ⟨0, rfl, Nat.zero_le _, ?_⟩
          rw [Int.emod_eq_of_lt (by omega) (by omega)]
          omega
      have hrest := ih has hbs hle
      rw [subBorrow, hnext]
      simp only [Nat.ofDigits_cons, Nat.cast_add, Nat.cast_mul, hword]
      calc (a : ℤ) - b - borrow + base * next +
            base * (Nat.ofDigits base (subBorrow base next as bs) : ℕ)
          ≡ a - b - borrow + base * next +
              base * ((Nat.ofDigits base as : ℕ) - (Nat.ofDigits base bs : ℕ) - next)
              [ZMOD base ^ (as.length + 1)] := by
            rw [pow_succ']
            exact hrest.mul_left'.add_left _
        _ = a + base * (Nat.ofDigits base as : ℕ) - (b + base * (Nat.ofDigits base bs : ℕ)) -
              borrow := by ring

theorem ofDigits_subBorrow (hbase : 1 < base) (has : Fits base width as)
    (hbs : Fits base width bs) (hborrow : borrow ≤ 1) :
    ((Nat.ofDigits base (subBorrow base borrow as bs) : ℕ) : ℤ) =
      ((Nat.ofDigits base as : ℕ) - (Nat.ofDigits base bs : ℕ) - borrow : ℤ) % (base ^ width : ℕ) := by
  have hfits := @subBorrow_fits base width borrow as bs (by omega) has.length_eq hbs.length_eq
  have hlt : ((Nat.ofDigits base (subBorrow base borrow as bs) : ℕ) : ℤ) < (base ^ width : ℕ) := by
    exact_mod_cast hfits.ofDigits_lt hbase
  rw [← Int.emod_eq_of_lt (Int.natCast_nonneg _) hlt]
  have hmod := subBorrow_modEq (by omega) has hbs hborrow
  rw [← Nat.cast_pow] at hmod
  exact hmod

/-! ## Tables of sums -/

variable (base) in
/-- The sums of the first numbers of a list, up to all of them. -/
def sums (width : ℕ) (list : List (List ℕ)) : List (List ℕ) :=
  list.scanl (addCarry base 0) (List.replicate width 0)

theorem length_sums (list : List (List ℕ)) : (sums base width list).length = list.length + 1 :=
  List.length_scanl

/-- A row of the table. -/
theorem getElem_sums (hbase : 1 < base) {list : List (List ℕ)}
    (hlist : ∀ words ∈ list, Fits base width words) {i : ℕ} (hi : i < (sums base width list).length) :
    Fits base width (sums base width list)[i] ∧
      Nat.ofDigits base (sums base width list)[i] =
        ((list.take i).map (Nat.ofDigits base)).sum % base ^ width := by
  induction i with
  | zero =>
    have hzero : (sums base width list)[0] = List.replicate width 0 := by
      simp only [sums, List.getElem_scanl_zero]
    rw [hzero]
    refine ⟨fits_replicate_zero (by omega), ?_⟩
    have hdigits := @Nat.ofDigits_append_replicate_zero base width []
    rw [List.nil_append, Nat.ofDigits_nil] at hdigits
    rw [hdigits, List.take_zero, List.map_nil, List.sum_nil, Nat.zero_mod]
  | succ i ih =>
    rw [length_sums] at hi
    have hlt : i < list.length := by omega
    have hnow : i < (sums base width list).length := by rw [length_sums]; omega
    obtain ⟨hfits, hsum⟩ := ih hnow
    have hwords := hlist _ (List.getElem_mem hlt)
    have hsucc : i + 1 < (sums base width list).length := by rw [length_sums]; exact hi
    have hnext : (sums base width list)[i + 1] =
        addCarry base 0 (sums base width list)[i] list[i] := by
      simp only [sums, List.getElem_succ_scanl]
    rw [hnext]
    refine ⟨addCarry_fits (by omega) hfits.length_eq hwords.length_eq, ?_⟩
    rw [ofDigits_addCarry hbase hfits hwords (Nat.zero_le _), hsum, List.take_succ_eq_append_getElem hlt,
      List.map_append, List.sum_append, List.map_singleton, List.sum_singleton, Nat.add_zero,
      Nat.mod_add_mod]

/-- The difference of two rows is the sum of the numbers between them. -/
theorem ofDigits_subBorrow_sums (hbase : 1 < base) {list : List (List ℕ)}
    (hlist : ∀ words ∈ list, Fits base width words) {first last : ℕ} (hle : first ≤ last)
    (hfirst : first < (sums base width list).length) (hlast : last < (sums base width list).length) :
    Nat.ofDigits base (subBorrow base 0 (sums base width list)[last] (sums base width list)[first]) =
      ((list.extract first last).map (Nat.ofDigits base)).sum % base ^ width := by
  obtain ⟨hfirstFits, hfirstSum⟩ := getElem_sums hbase hlist hfirst
  obtain ⟨hlastFits, hlastSum⟩ := getElem_sums hbase hlist hlast
  have hsplit : ((list.take last).map (Nat.ofDigits base)).sum =
      ((list.take first).map (Nat.ofDigits base)).sum +
        ((list.extract first last).map (Nat.ofDigits base)).sum := by
    rw [List.extract_eq_take_drop, ← List.sum_append, ← List.map_append, ← List.take_add,
      Nat.add_sub_cancel' hle]
  have hdifference := ofDigits_subBorrow hbase hlastFits hfirstFits (Nat.zero_le 1)
  rw [hlastSum, hfirstSum, hsplit] at hdifference
  have hint : ∀ x y : ℕ,
      (((x + y) % base ^ width : ℕ) : ℤ) - ((x % base ^ width : ℕ) : ℤ) ≡ y
        [ZMOD (base ^ width : ℕ)] := by
    intro x y
    rw [Int.natCast_mod, Int.natCast_mod, Nat.cast_add]
    have hmodel := (Int.mod_modEq ((x : ℤ) + y) (base ^ width : ℕ)).sub
      (Int.mod_modEq (x : ℤ) (base ^ width : ℕ))
    rwa [add_sub_cancel_left] at hmodel
  rw [Nat.cast_zero, sub_zero, hint, ← Int.natCast_mod] at hdifference
  exact Nat.cast_injective hdifference

end Words
