/-
When a quotient rounds to a finite double. The greatest double is `(2 ^ 53 - 1) * 2 ^ 971`, and
infinity begins half a unit after it, at `limit`: a quotient below that has a finite double next to
it (`place_lt_infinity`). Nothing else can happen: `isFinite_or_isInf_nearest` says that no quotient
rounds to what is not a number.

Places are computed from products of natural numbers, with a power on the one side or on the other.
The proofs read them as rationals with integer exponents (`zpow_eq_div`), where each comparison is
one of powers of two.
-/

import Mathlib
import TableCalc.Number.Numeral
import TableCalc.Proofs.Number.Double

namespace TableCalc.Number

variable {tie : Tie} {num den m : ℕ}

-- ============================================================= the powers

/-- A power with an integer exponent as a quotient of powers, one of which is one. -/
theorem zpow_eq_div (b : ℚ) (k : ℤ) : b ^ k = b ^ k.toNat / b ^ (-k).toNat := by
  rcases Int.eq_nat_or_neg k with ⟨n, rfl | rfl⟩
  · simp
  · simp

/-- Products with a power of two on either side compare as rationals with the power on one. -/
theorem zpow_mul_le_iff {a c : ℕ} {k : ℤ} :
    (2 : ℚ) ^ k * a ≤ c ↔ a * Nat.pow 2 k.toNat ≤ c * Nat.pow 2 (-k).toNat := by
  have hpos : (0 : ℚ) < 2 ^ (-k).toNat := by positivity
  rw [zpow_eq_div, div_mul_eq_mul_div, div_le_iff₀ hpos, mul_comm _ (a : ℚ)]
  exact_mod_cast Iff.rfl

theorem lt_zpow_mul_iff {a c : ℕ} {k : ℤ} :
    (c : ℚ) < 2 ^ k * a ↔ c * Nat.pow 2 (-k).toNat < a * Nat.pow 2 k.toNat := by
  rw [← not_le, ← not_le, zpow_mul_le_iff]

/-- The binary exponent of a quotient is what its name says. -/
theorem binaryExponent_spec (hnum : num ≠ 0) (hden : den ≠ 0) :
    (2 : ℚ) ^ binaryExponent num den * den ≤ num
      ∧ (num : ℚ) < 2 ^ (binaryExponent num den + 1) * den := by
  have hnlow : (2 : ℚ) ^ (num.log2 : ℤ) ≤ num := by
    rw [zpow_natCast]
    exact_mod_cast Nat.log2_self_le hnum
  have hnhigh : (num : ℚ) < 2 ^ (num.log2 + 1 : ℤ) := by
    exact_mod_cast Nat.lt_log2_self (n := num)
  have hdlow : (2 : ℚ) ^ (den.log2 : ℤ) ≤ den := by
    rw [zpow_natCast]
    exact_mod_cast Nat.log2_self_le hden
  have hdhigh : (den : ℚ) < 2 ^ (den.log2 + 1 : ℤ) := by
    exact_mod_cast Nat.lt_log2_self (n := den)
  simp only [binaryExponent]
  generalize (num.log2 : ℤ) = a at *
  generalize (den.log2 : ℤ) = b at *
  split
  case isTrue hk =>
    refine ⟨zpow_mul_le_iff.mpr hk, ?_⟩
    calc (num : ℚ) < 2 ^ (a + 1) := hnhigh
      _ = 2 ^ (a - b + 1) * 2 ^ b := by rw [← zpow_add₀ two_ne_zero]; ring_nf
      _ ≤ 2 ^ (a - b + 1) * den := by gcongr
  case isFalse hk =>
    constructor
    · calc (2 : ℚ) ^ (a - b - 1) * den ≤ 2 ^ (a - b - 1) * 2 ^ (b + 1) := by gcongr
        _ = 2 ^ a := by rw [← zpow_add₀ two_ne_zero]; ring_nf
        _ ≤ num := hnlow
    · rw [sub_add_cancel]
      exact not_le.mp fun hle => hk (zpow_mul_le_iff.mp hle)

theorem binaryExponent_lt {k : ℤ} (hnum : num ≠ 0) (hden : den ≠ 0)
    (h : (num : ℚ) < 2 ^ k * den) : binaryExponent num den < k := by
  have hdpos : (0 : ℚ) < den := by exact_mod_cast Nat.pos_of_ne_zero hden
  have hpow : (2 : ℚ) ^ binaryExponent num den < 2 ^ k :=
    lt_of_mul_lt_mul_right ((binaryExponent_spec hnum hden).1.trans_lt h) hdpos.le
  exact (zpow_lt_zpow_iff_right₀ one_lt_two).mp hpow

-- ============================================================ the rounding

/-- What lies below the middle of `m` and `m + 1` rounds to `m` at most. -/
theorem roundDiv_le (h : 2 * num < (2 * m + 1) * den) : roundDiv tie num den ≤ m := by
  have hsplit := Nat.div_add_mod num den
  have hle : num / den ≤ m := by
    apply Nat.le_of_lt_succ
    apply Nat.div_lt_of_lt_mul
    nlinarith
  simp only [roundDiv]
  generalize num / den = whole at *
  split
  case isTrue => exact hle
  case isFalse hrest =>
    -- to round up, half of the divisor has to be left, so the whole is not yet `m`
    have hne : whole ≠ m := by
      rintro rfl
      apply hrest
      nlinarith
    split
    case isTrue => omega
    case isFalse =>
      cases tie with
      | toEven =>
          show whole + whole % 2 ≤ m
          omega
      | away =>
          show whole + 1 ≤ m
          omega

theorem roundDiv_scaled_le {q : ℤ} (h : 2 * (num : ℚ) < 2 ^ q * ((2 * m + 1) * den)) :
    roundDiv tie (num * Nat.pow 2 (-q).toNat) (den * Nat.pow 2 q.toNat) ≤ m := by
  have hscaled : 2 * num * Nat.pow 2 (-q).toNat < (2 * m + 1) * den * Nat.pow 2 q.toNat :=
    lt_zpow_mul_iff.mp (by exact_mod_cast h)
  apply roundDiv_le
  rw [← Nat.mul_assoc, ← Nat.mul_assoc]
  exact hscaled

-- =============================================================== the limit

/-- The middle between the greatest double and the next power of two. -/
def limit : ℚ := (2 ^ 54 - 1) * 2 ^ (970 : ℤ)

theorem limit_pos : 0 < limit := by
  rw [limit]
  positivity

theorem limit_lt : limit < 2 ^ (1024 : ℤ) := by
  have hpos : (0 : ℚ) < 2 ^ (970 : ℤ) := zpow_pos two_pos _
  calc limit < 2 ^ 54 * 2 ^ (970 : ℤ) := mul_lt_mul_of_pos_right (by norm_num) hpos
    _ = 2 ^ (1024 : ℤ) := by rw [← zpow_natCast, ← zpow_add₀ two_ne_zero]; rfl

theorem natCast_lt_limit {n : ℕ} (h : n < UInt64.size) : (n : ℚ) < limit := by
  have hsize : (n : ℚ) < 2 ^ (64 : ℤ) := by exact_mod_cast h
  have hunit : (2 : ℚ) ^ (64 : ℤ) ≤ 2 ^ (970 : ℤ) := zpow_le_zpow_right₀ one_le_two (by omega)
  calc (n : ℚ) < 2 ^ (970 : ℤ) := hsize.trans_le hunit
    _ ≤ (2 ^ 54 - 1) * 2 ^ (970 : ℤ) := le_mul_of_one_le_left (by positivity) (by norm_num)

/-- The limit in units of the greatest double is the middle of two whole numbers. -/
theorem two_mul_limit : 2 * limit = 2 ^ (971 : ℤ) * (2 * ((2 ^ 53 - 1 : ℕ) : ℚ) + 1) := by
  have hsucc : (2 : ℚ) ^ (971 : ℤ) = 2 * 2 ^ (970 : ℤ) := (zpow_one_add₀ two_ne_zero 970).trans rfl
  rw [limit, hsucc]
  generalize (2 : ℚ) ^ (970 : ℤ) = unit
  norm_num
  ring

/-- The place of a quotient, with its unit `2 ^ q` made out. -/
theorem place_of_unit (hnum : num ≠ 0) {q : ℤ}
    (hq : max (binaryExponent num den - 52) (-1074) = q) :
    double.place num den = min ((q + 1074).toNat * 2 ^ 52
      + roundDiv .toEven (num * Nat.pow 2 (-q).toNat) (den * Nat.pow 2 q.toNat)) double.infinity := by
  subst hq
  rw [Format.place, if_neg hnum]
  rfl

/-- In its unit a quotient has at most 53 bits, or rounds up to the least number with one more. -/
theorem roundDiv_unit_le (hnum : num ≠ 0) (hden : den ≠ 0) {q : ℤ}
    (hq : max (binaryExponent num den - 52) (-1074) = q) :
    roundDiv .toEven (num * Nat.pow 2 (-q).toNat) (den * Nat.pow 2 q.toNat) ≤ 2 ^ 53 := by
  have hdpos : (0 : ℚ) < den := by exact_mod_cast Nat.pos_of_ne_zero hden
  have hpow : (2 : ℚ) ^ (binaryExponent num den + 1) ≤ 2 ^ (q + 53) :=
    zpow_le_zpow_right₀ one_le_two (by omega)
  have hq53 : (2 : ℚ) ^ (q + 53) = 2 ^ q * 2 ^ 53 := by
    rw [zpow_add₀ two_ne_zero]
    rfl
  apply roundDiv_scaled_le
  calc 2 * (num : ℚ) < 2 * (2 ^ (binaryExponent num den + 1) * den) := by
        gcongr
        exact (binaryExponent_spec hnum hden).2
    _ ≤ 2 * (2 ^ (q + 53) * den) := by gcongr
    _ = 2 ^ q * (2 * 2 ^ 53 * den) := by rw [hq53]; ring
    _ ≤ 2 ^ q * ((2 * ((2 ^ 53 : ℕ) : ℚ) + 1) * den) := by gcongr; norm_num

/-- Below the limit a quotient has a finite place. Where the unit is smaller than that of the
greatest double, a significand of even 54 bits stays below infinity; where it is the same, the
significand is the greatest one at most. -/
theorem place_lt_infinity (hden : den ≠ 0) (h : (num : ℚ) < limit * den) :
    double.place num den < double.infinity := by
  by_cases hnum : num = 0
  · rw [Format.place, if_pos hnum]
    decide
  have hdpos : (0 : ℚ) < den := by exact_mod_cast Nat.pos_of_ne_zero hden
  have hk : binaryExponent num den < 1024 := by
    apply binaryExponent_lt hnum hden (h.trans_le _)
    gcongr
    exact limit_lt.le
  obtain ⟨q, hq⟩ : ∃ q : ℤ, max (binaryExponent num den - 52) (-1074) = q := ⟨_, rfl⟩
  have hround := roundDiv_unit_le hnum hden hq
  rw [place_of_unit hnum hq]
  apply Nat.lt_of_le_of_lt (Nat.min_le_left ..)
  show (q + 1074).toNat * 2 ^ 52 + roundDiv .toEven _ _ < 2047 * 2 ^ 52
  rcases lt_or_eq_of_le (show q ≤ 971 by omega) with hlt | rfl
  · omega
  · have hround : roundDiv .toEven (num * Nat.pow 2 (-971 : ℤ).toNat)
        (den * Nat.pow 2 (971 : ℤ).toNat) ≤ 2 ^ 53 - 1 := by
      apply roundDiv_scaled_le
      calc 2 * (num : ℚ) < 2 * (limit * den) := by gcongr
        _ = 2 ^ (971 : ℤ) * ((2 * ((2 ^ 53 - 1 : ℕ) : ℚ) + 1) * den) := by
          rw [← mul_assoc, two_mul_limit, mul_assoc]
    omega

/-- Below `2 ^ k` a quotient has a place up to that of `2 ^ k`. -/
theorem place_le {k : ℕ} (hden : den ≠ 0) (h : num < 2 ^ k * den) :
    double.place num den ≤ (k + 1023) * 2 ^ 52 := by
  by_cases hnum : num = 0
  · rw [Format.place, if_pos hnum]
    exact Nat.zero_le _
  have hk : binaryExponent num den < k := by
    apply binaryExponent_lt hnum hden
    rw [zpow_natCast]
    exact_mod_cast h
  obtain ⟨q, hq⟩ : ∃ q : ℤ, max (binaryExponent num den - 52) (-1074) = q := ⟨_, rfl⟩
  have hround := roundDiv_unit_le hnum hden hq
  rw [place_of_unit hnum hq]
  apply (Nat.min_le_left ..).trans
  omega

-- ============================================================= the doubles

theorem place_le_infinity (num den : ℕ) : double.place num den ≤ double.infinity := by
  unfold Format.place
  split
  · exact Nat.zero_le _
  · exact Nat.min_le_right ..

theorem isInf_infinite (negative : Bool) : (infinite negative).isInf = true := by
  rw [isInf_iff]
  exact placeOf_ofPlace negative le_rfl

/-- The double nearest to a quotient is finite or infinite, and never not a number. -/
theorem isFinite_or_isInf_nearest (negative : Bool) (num den : ℕ) :
    (nearest negative num den).isFinite = true ∨ (nearest negative num den).isInf = true := by
  rw [isFinite_iff, isInf_iff, nearest, placeOf_ofPlace negative (place_le_infinity num den)]
  exact lt_or_eq_of_le (place_le_infinity num den)

theorem isFinite_nearest (negative : Bool) (hden : den ≠ 0) (h : (num : ℚ) < limit * den) :
    (nearest negative num den).isFinite = true := by
  rw [isFinite_iff, nearest, placeOf_ofPlace negative (place_le_infinity num den)]
  exact place_lt_infinity hden h

theorem isFinite_nearest_zero (negative : Bool) : (nearest negative 0 1).isFinite = true := by
  apply isFinite_nearest negative one_ne_zero
  rw [Nat.cast_zero, Nat.cast_one, mul_one]
  exact limit_pos

theorem isFinite_or_isInf_nearestDecimal (negative : Bool) (digits : ℕ) (exponent : ℤ) :
    (nearestDecimal negative digits exponent).isFinite = true
      ∨ (nearestDecimal negative digits exponent).isInf = true := by
  unfold nearestDecimal
  split
  · exact isFinite_or_isInf_nearest ..
  · split
    · exact .inr (isInf_infinite negative)
    · split
      · exact isFinite_or_isInf_nearest ..
      · exact isFinite_or_isInf_nearest ..

theorem Numeral.isFinite_or_isInf_value (n : Numeral) :
    n.value.isFinite = true ∨ n.value.isInf = true := by
  cases n with
  | infinity negative => exact .inr (isInf_infinite negative)
  | decimal negative digits exponent => exact isFinite_or_isInf_nearestDecimal negative digits exponent

/-- Above `10 ^ 400` every whole number is beyond the doubles. -/
theorem two_zpow_le_ten_zpow {exponent : ℤ} (h : 400 < exponent) :
    (2 : ℚ) ^ (1024 : ℤ) ≤ 10 ^ exponent := by
  calc (2 : ℚ) ^ (1024 : ℤ) ≤ 2 ^ (3 * 400 : ℤ) := zpow_le_zpow_right₀ one_le_two (by norm_num)
    _ = (2 ^ (3 : ℤ)) ^ (400 : ℤ) := zpow_mul ..
    _ ≤ 10 ^ (400 : ℤ) := zpow_le_zpow_left₀ (by norm_num) (by norm_num) (by norm_num)
    _ ≤ 10 ^ exponent := zpow_le_zpow_right₀ (by norm_num) h.le

/-- A decimal below the limit has a finite double next to it. -/
theorem isFinite_nearestDecimal (negative : Bool) {digits : ℕ} {exponent : ℤ}
    (h : (digits : ℚ) * 10 ^ exponent < limit) :
    (nearestDecimal negative digits exponent).isFinite = true := by
  unfold nearestDecimal
  split
  case isTrue => exact isFinite_nearest_zero negative
  case isFalse hdigits =>
    split
    case isTrue hlarge =>
      have hone : (1 : ℚ) ≤ digits := by exact_mod_cast Nat.pos_of_ne_zero hdigits
      have hpow : (0 : ℚ) ≤ 10 ^ exponent := by positivity
      have hbeyond : limit < 10 ^ exponent := limit_lt.trans_le (two_zpow_le_ten_zpow hlarge)
      exact absurd h (not_lt.mpr (hbeyond.le.trans (le_mul_of_one_le_left hpow hone)))
    case isFalse =>
      split
      case isTrue => exact isFinite_nearest_zero negative
      case isFalse =>
        have hden : (0 : ℚ) < 10 ^ (-exponent).toNat := by positivity
        rw [zpow_eq_div, mul_div_assoc', div_lt_iff₀ hden] at h
        apply isFinite_nearest negative (pow_ne_zero _ (by norm_num))
        exact_mod_cast h

end TableCalc.Number
