/-
**Rounding to binary64.**

The nearest number of 53 significant bits, the even one of two that are equally near; below the
normal numbers the last place stays at 2 ^ (-1074), and from 2 ^ 1024 on there is only infinity.

* **`binary64_natCast`**: an integer below 2 ^ 53 is kept.
* `roundLastPlace_pos`, `roundLastPlace_neg`: rounding keeps the sign of what is not too small.
* `exists_roundLastPlace_natCast`: an integer is rounded to an integer.
-/

import Mathlib.Data.Int.Log
import Mathlib.Data.Rat.Floor
import Mathlib.Algebra.Order.Field.Power

namespace Toard.Library

/-- The nearest integer, the even one of two. -/
def roundHalfEven (q : ℚ) : ℤ :=
  if q - ⌊q⌋ < 1 / 2 ∨ (q - ⌊q⌋ = 1 / 2 ∧ ⌊q⌋ % 2 = 0) then ⌊q⌋ else ⌊q⌋ + 1

/-- The exponent of the last place of a number. -/
def lastPlace (q : ℚ) : ℤ := max (Int.log 2 |q| - 52) (-1074)

/-- The nearest number with its last place there. -/
def roundLastPlace (q : ℚ) : ℚ := roundHalfEven (q / 2 ^ lastPlace q) * 2 ^ lastPlace q

/-- The binary64 number of a numeral; none for an infinity. -/
def binary64 (q : ℚ) : Option ℚ :=
  if |roundLastPlace q| < 2 ^ 1024 then some (roundLastPlace q) else none

theorem roundHalfEven_intCast (n : ℤ) : roundHalfEven n = n := by
  simp [roundHalfEven]

theorem lastPlace_natCast {n : ℕ} (small : n < 2 ^ 53) : lastPlace n ≤ 0 := by
  have log : Int.log 2 |(n : ℚ)| ≤ 52 := by
    rw [Nat.abs_cast, Int.log_natCast]
    rcases Nat.eq_zero_or_pos n with rfl | positive
    · simp
    · have below := Nat.log_lt_of_lt_pow positive.ne' small
      omega
  unfold lastPlace
  omega

theorem roundLastPlace_natCast {n : ℕ} (whole : lastPlace n ≤ 0) : roundLastPlace n = n := by
  obtain ⟨places, isPlaces⟩ := Int.eq_ofNat_of_zero_le (neg_nonneg.mpr whole)
  have place : lastPlace n = -(places : ℤ) := by omega
  have scaled : (n : ℚ) / 2 ^ lastPlace (n : ℚ) = ((n * 2 ^ places : ℤ) : ℚ) := by
    rw [place, zpow_neg, zpow_natCast, div_inv_eq_mul]
    push_cast
    rfl
  rw [roundLastPlace, scaled, roundHalfEven_intCast, ← scaled]
  exact div_mul_cancel₀ _ (zpow_ne_zero _ (by norm_num))

/-- **An integer below 2 ^ 53 is kept.** -/
theorem binary64_natCast {n : ℕ} (small : n < 2 ^ 53) : binary64 n = some (n : ℚ) := by
  have finite : |(n : ℚ)| < 2 ^ 1024 := by
    rw [Nat.abs_cast]
    exact_mod_cast small.trans (Nat.pow_lt_pow_right (by decide) (by decide))
  rw [binary64, roundLastPlace_natCast (lastPlace_natCast small), if_pos finite]

theorem binary64_zero : binary64 0 = some 0 := by
  have kept := binary64_natCast (show 0 < 2 ^ 53 by decide)
  rwa [Nat.cast_zero] at kept

theorem roundLastPlace_of_abs {q : ℚ} {n : ℕ} (power : |q| = 2 ^ n) : roundLastPlace q = q := by
  have place : lastPlace q = n - 52 := by
    have log : Int.log 2 |q| = n := by
      rw [power, ← zpow_natCast]
      exact @Int.log_zpow ℚ _ _ _ _ 2 (by decide) n
    unfold lastPlace
    rw [log]
    omega
  have scaled : (2 : ℚ) ^ n / 2 ^ ((n : ℤ) - 52) = ((2 ^ 52 : ℤ) : ℚ) := by
    rw [zpow_sub₀ (by norm_num), zpow_natCast, div_div_cancel₀ (by positivity)]
    norm_num
  have whole : ∃ m : ℤ, q / 2 ^ lastPlace q = m := by
    rcases eq_or_eq_neg_of_abs_eq power with rfl | rfl
    · exact ⟨2 ^ 52, by rw [place, scaled]⟩
    · exact ⟨-2 ^ 52, by rw [place, neg_div, scaled]; norm_num⟩
  obtain ⟨m, isWhole⟩ := whole
  rw [roundLastPlace, isWhole, roundHalfEven_intCast, ← isWhole]
  exact div_mul_cancel₀ _ (zpow_ne_zero _ (by norm_num))

/-! ### Signs -/

theorem floor_le_roundHalfEven (q : ℚ) : ⌊q⌋ ≤ roundHalfEven q := by
  unfold roundHalfEven
  split <;> omega

theorem roundHalfEven_le_floor_add_one (q : ℚ) : roundHalfEven q ≤ ⌊q⌋ + 1 := by
  unfold roundHalfEven
  split <;> omega

theorem roundHalfEven_mono {q q' : ℚ} (le : q ≤ q') : roundHalfEven q ≤ roundHalfEven q' := by
  rcases (Int.floor_mono le).lt_or_eq with below | floors
  · calc roundHalfEven q ≤ ⌊q⌋ + 1 := roundHalfEven_le_floor_add_one q
      _ ≤ ⌊q'⌋ := below
      _ ≤ roundHalfEven q' := floor_le_roundHalfEven q'
  · unfold roundHalfEven
    rw [floors]
    split
    case isTrue => split <;> omega
    case isFalse up =>
      have parts : q - ⌊q'⌋ ≤ q' - ⌊q'⌋ := sub_le_sub_right le _
      rw [if_neg]
      rintro (down | ⟨half, even⟩)
      · exact up (.inl (parts.trans_lt down))
      · rcases parts.lt_or_eq with less | same
        · exact up (.inl (less.trans_eq half))
        · exact up (.inr ⟨same.trans half, even⟩)

theorem le_roundHalfEven {n : ℤ} {q : ℚ} (le : (n : ℚ) ≤ q) : n ≤ roundHalfEven q := by
  have rounded := roundHalfEven_mono le
  rwa [roundHalfEven_intCast] at rounded

theorem roundHalfEven_le {n : ℤ} {q : ℚ} (le : q ≤ (n : ℚ)) : roundHalfEven q ≤ n := by
  have rounded := roundHalfEven_mono le
  rwa [roundHalfEven_intCast] at rounded

theorem zpow_lastPlace_le_abs {q : ℚ} (normal : 1 ≤ |q|) : (2 : ℚ) ^ lastPlace q ≤ |q| := by
  have positive : 0 < |q| := zero_lt_one.trans_le normal
  have log : 0 ≤ Int.log 2 |q| := by
    have logs := Int.log_mono_right (b := 2) zero_lt_one normal
    rwa [Int.log_one_right] at logs
  refine le_trans (zpow_le_zpow_right₀ (by norm_num) ?_)
    (Int.zpow_log_le_self (b := 2) (by decide) positive)
  unfold lastPlace
  omega

theorem roundLastPlace_pos {q : ℚ} (large : 1 ≤ q) : 0 < roundLastPlace q := by
  have power : (0 : ℚ) < 2 ^ lastPlace q := zpow_pos (by norm_num) _
  have place := zpow_lastPlace_le_abs (large.trans (le_abs_self q))
  rw [abs_of_nonneg (zero_le_one.trans large)] at place
  have rounded : 1 ≤ roundHalfEven (q / 2 ^ lastPlace q) :=
    le_roundHalfEven (by rwa [Int.cast_one, le_div_iff₀ power, one_mul])
  exact mul_pos (Int.cast_pos.mpr (Int.zero_lt_one.trans_le rounded)) power

theorem roundLastPlace_neg {q : ℚ} (large : q ≤ -1) : roundLastPlace q < 0 := by
  have power : (0 : ℚ) < 2 ^ lastPlace q := zpow_pos (by norm_num) _
  have place := zpow_lastPlace_le_abs ((le_neg_of_le_neg large).trans (neg_le_abs q))
  rw [abs_of_nonpos (large.trans (by norm_num))] at place
  have rounded : roundHalfEven (q / 2 ^ lastPlace q) ≤ -1 :=
    roundHalfEven_le (by rw [Int.cast_neg, Int.cast_one, div_le_iff₀ power]; linarith)
  exact mul_neg_of_neg_of_pos (Int.cast_lt_zero.mpr (by omega)) power

theorem exists_roundLastPlace_natCast (n : ℕ) : ∃ m : ℤ, roundLastPlace n = m := by
  rcases le_total (lastPlace n) 0 with whole | scaled
  · exact ⟨n, by rw [roundLastPlace_natCast whole, Int.cast_natCast]⟩
  · obtain ⟨places, isPlaces⟩ := Int.eq_ofNat_of_zero_le scaled
    refine ⟨roundHalfEven (n / 2 ^ lastPlace n) * 2 ^ places, ?_⟩
    rw [roundLastPlace, isPlaces, zpow_natCast]
    push_cast
    rfl

end Toard.Library
