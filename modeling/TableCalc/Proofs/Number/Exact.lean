/-
Rounding sees a number, and not how the number is written. A quotient may be scaled, and a decimal
may trade zeros at its end for a greater exponent: the double next to it stays the same
(`nearest_congr`, `nearestDecimal_congr`).

For decimals that takes one step more. Where the exponent is so large or so small that only infinity
or zero can come out, `nearestDecimal` says so without the quotient; `nearestDecimal_eq_nearest`
has the quotient say the same.
-/

import Mathlib
import TableCalc.Proofs.Number.Nearest

namespace TableCalc.Number

variable {num den num' den' : ℕ}

-- ============================================================== quotients

theorem roundDiv_mul_mul (tie : Tie) (num den : ℕ) {c : ℕ} (hc : 0 < c) :
    roundDiv tie (num * c) (den * c) = roundDiv tie num den := by
  have hdiv : num * c / (den * c) = num / den := Nat.mul_div_mul_right num den hc
  have hmod : num * c % (den * c) = num % den * c := Nat.mul_mod_mul_right ..
  simp only [roundDiv, hdiv, hmod, ← Nat.mul_assoc, Nat.mul_lt_mul_right hc]

/-- Quotients that are one number round to one whole number. -/
theorem roundDiv_congr (tie : Tie) (hden : den ≠ 0) (hden' : den' ≠ 0)
    (h : num * den' = num' * den) : roundDiv tie num den = roundDiv tie num' den' := by
  calc roundDiv tie num den
      = roundDiv tie (num * den') (den * den') :=
        (roundDiv_mul_mul tie num den (Nat.pos_of_ne_zero hden')).symm
    _ = roundDiv tie (num' * den) (den' * den) := by rw [h, Nat.mul_comm den den']
    _ = roundDiv tie num' den' := roundDiv_mul_mul tie num' den' (Nat.pos_of_ne_zero hden)

/-- No other exponent does what the binary exponent does. -/
theorem binaryExponent_unique {k : ℤ} (hden : den ≠ 0) (hlow : (2 : ℚ) ^ k * den ≤ num)
    (hhigh : (num : ℚ) < 2 ^ (k + 1) * den) : binaryExponent num den = k := by
  have hdpos : (0 : ℚ) < den := by exact_mod_cast Nat.pos_of_ne_zero hden
  have hnum : num ≠ 0 := by
    intro hzero
    rw [hzero, Nat.cast_zero] at hlow
    exact absurd hlow (not_le.mpr (by positivity))
  obtain ⟨hlow', hhigh'⟩ := binaryExponent_spec hnum hden
  have hle : (2 : ℚ) ^ k < 2 ^ (binaryExponent num den + 1) :=
    lt_of_mul_lt_mul_right (hlow.trans_lt hhigh') hdpos.le
  have hge : (2 : ℚ) ^ binaryExponent num den < 2 ^ (k + 1) :=
    lt_of_mul_lt_mul_right (hlow'.trans_lt hhigh) hdpos.le
  rw [zpow_lt_zpow_iff_right₀ one_lt_two] at hle hge
  omega

theorem binaryExponent_congr (hnum : num ≠ 0) (hden : den ≠ 0) (hden' : den' ≠ 0)
    (h : num * den' = num' * den) : binaryExponent num den = binaryExponent num' den' := by
  have hpos : (0 : ℚ) < den := by exact_mod_cast Nat.pos_of_ne_zero hden
  have hpos' : (0 : ℚ) < den' := by exact_mod_cast Nat.pos_of_ne_zero hden'
  have hq : (num : ℚ) * den' = num' * den := by exact_mod_cast h
  obtain ⟨hlow, hhigh⟩ := binaryExponent_spec hnum hden
  symm
  apply binaryExponent_unique hden'
  · apply le_of_mul_le_mul_right _ hpos
    calc (2 : ℚ) ^ binaryExponent num den * den' * den
        = 2 ^ binaryExponent num den * den * den' := by ring
      _ ≤ num * den' := by gcongr
      _ = num' * den := hq
  · apply lt_of_mul_lt_mul_right _ hpos.le
    calc (num' : ℚ) * den = num * den' := hq.symm
      _ < 2 ^ (binaryExponent num den + 1) * den * den' := by gcongr
      _ = 2 ^ (binaryExponent num den + 1) * den' * den := by ring

/-- Quotients that are one number have one place. -/
theorem place_congr (f : Format) (hden : den ≠ 0) (hden' : den' ≠ 0)
    (h : num * den' = num' * den) : f.place num den = f.place num' den' := by
  have hzero : num = 0 ↔ num' = 0 := by
    constructor
    · intro hnum
      simpa [hnum, hden] using h.symm
    · intro hnum
      simpa [hnum, hden'] using h
  by_cases hnum : num = 0
  · simp only [Format.place, if_pos hnum, if_pos (hzero.mp hnum)]
  · have hexp := binaryExponent_congr hnum hden hden' h
    simp only [Format.place, if_neg hnum, if_neg (mt hzero.mpr hnum), hexp]
    generalize max (binaryExponent num' den' - (f.precision - 1 : ℕ)) (-f.bottom : ℤ) = q
    have hround : roundDiv .toEven (num * Nat.pow 2 (-q).toNat) (den * Nat.pow 2 q.toNat)
        = roundDiv .toEven (num' * Nat.pow 2 (-q).toNat) (den' * Nat.pow 2 q.toNat) := by
      apply roundDiv_congr
      · exact Nat.mul_ne_zero hden (pow_ne_zero _ two_ne_zero)
      · exact Nat.mul_ne_zero hden' (pow_ne_zero _ two_ne_zero)
      · linear_combination (Nat.pow 2 (-q).toNat * Nat.pow 2 q.toNat) * h
    rw [hround]

theorem nearest_congr (negative : Bool) (hden : den ≠ 0) (hden' : den' ≠ 0)
    (h : num * den' = num' * den) : nearest negative num den = nearest negative num' den' := by
  rw [nearest, nearest, place_congr double hden hden' h]

-- ================================================================ extremes

/-- From `2 ^ 1024` on there is only infinity. -/
theorem place_eq_infinity (hden : den ≠ 0) (h : (2 : ℚ) ^ (1024 : ℤ) * den ≤ num) :
    double.place num den = double.infinity := by
  have hdpos : (0 : ℚ) < den := by exact_mod_cast Nat.pos_of_ne_zero hden
  have hnum : num ≠ 0 := by
    intro hzero
    rw [hzero, Nat.cast_zero] at h
    exact absurd h (not_le.mpr (by positivity))
  obtain ⟨hlow, hhigh⟩ := binaryExponent_spec hnum hden
  have hexp : 1024 ≤ binaryExponent num den := by
    have hlt : (2 : ℚ) ^ (1024 : ℤ) < 2 ^ (binaryExponent num den + 1) :=
      lt_of_mul_lt_mul_right (h.trans_lt hhigh) hdpos.le
    rw [zpow_lt_zpow_iff_right₀ one_lt_two] at hlt
    omega
  obtain ⟨q, hq⟩ : ∃ q : ℤ, max (binaryExponent num den - 52) (-1074) = q := ⟨_, rfl⟩
  rw [place_of_unit hnum hq]
  generalize binaryExponent num den = k at *
  apply Nat.min_eq_right
  have hwhole : 2 ^ 52 ≤ num * Nat.pow 2 (-q).toNat / (den * Nat.pow 2 q.toNat) := by
    have hscaled : (2 : ℚ) ^ q * (2 ^ 52 * den : ℕ) ≤ num := by
      have hk : (2 : ℚ) ^ k = 2 ^ q * 2 ^ 52 := by
        rw [show k = q + 52 by omega, zpow_add₀ two_ne_zero]
        rfl
      calc (2 : ℚ) ^ q * (2 ^ 52 * den : ℕ) = 2 ^ k * den := by
            rw [hk]
            push_cast
            ring
        _ ≤ num := hlow
    have hmul := zpow_mul_le_iff.mp hscaled
    have hpos : 0 < den * Nat.pow 2 q.toNat :=
      Nat.mul_pos (Nat.pos_of_ne_zero hden) (Nat.two_pow_pos _)
    rw [Nat.le_div_iff_mul_le hpos, ← Nat.mul_assoc]
    exact hmul
  have hround : 2 ^ 52 ≤ roundDiv .toEven (num * Nat.pow 2 (-q).toNat) (den * Nat.pow 2 q.toNat) := by
    simp only [roundDiv]
    split_ifs <;> omega
  show 2047 * 2 ^ 52 ≤ (q + 1074).toNat * 2 ^ 52 + roundDiv .toEven _ _
  omega

/-- Below a quarter of the smallest double there is only zero. -/
theorem place_eq_zero (hden : den ≠ 0) (h : (num : ℚ) < 2 ^ (-1076 : ℤ) * den) :
    double.place num den = 0 := by
  by_cases hnum : num = 0
  · rw [Format.place, if_pos hnum]
  have hdpos : (0 : ℚ) < den := by exact_mod_cast Nat.pos_of_ne_zero hden
  have hexp := binaryExponent_lt hnum hden h
  have hunit : max (binaryExponent num den - 52) (-1074) = -1074 := by omega
  have hround : roundDiv .toEven (num * Nat.pow 2 (-(-1074 : ℤ)).toNat)
      (den * Nat.pow 2 (-1074 : ℤ).toNat) ≤ 0 := by
    apply roundDiv_scaled_le
    calc 2 * (num : ℚ) < 2 * (2 ^ (-1076 : ℤ) * den) := by gcongr
      _ ≤ 2 ^ (-1074 : ℤ) * ((2 * ((0 : ℕ) : ℚ) + 1) * den) := by
        have hpow : (2 : ℚ) ^ (-1074 : ℤ) = 2 ^ (2 : ℤ) * 2 ^ (-1076 : ℤ) :=
          zpow_add₀ two_ne_zero 2 (-1076)
        have hpos : (0 : ℚ) < 2 ^ (-1076 : ℤ) := zpow_pos two_pos _
        rw [hpow]
        generalize (2 : ℚ) ^ (-1076 : ℤ) = unit at hpos
        norm_num
        nlinarith [mul_pos hpos hdpos]
  rw [place_of_unit hnum hunit, Nat.le_zero.mp hround]
  decide

-- ================================================================ decimals

/-- Below one, a power of ten is at most the power of eight, which is one of two. -/
theorem ten_zpow_le {exponent : ℤ} (h : exponent ≤ 0) :
    (10 : ℚ) ^ exponent ≤ 2 ^ (3 * exponent) := by
  obtain ⟨n, rfl⟩ := Int.exists_eq_neg_ofNat h
  rw [zpow_mul, zpow_neg, zpow_neg, zpow_natCast, zpow_natCast]
  gcongr
  norm_num

/-- A decimal has the double of any quotient that is the same number. -/
theorem nearestDecimal_eq_nearest (negative : Bool) {digits : ℕ} {exponent : ℤ} (hden : den ≠ 0)
    (h : (digits : ℚ) * 10 ^ exponent * den = num) :
    nearestDecimal negative digits exponent = nearest negative num den := by
  have hdpos : (0 : ℚ) < den := by exact_mod_cast Nat.pos_of_ne_zero hden
  unfold nearestDecimal
  split
  case isTrue hdigits =>
    rw [hdigits, Nat.cast_zero, zero_mul, zero_mul] at h
    apply nearest_congr negative one_ne_zero hden
    have hnum : num = 0 := by exact_mod_cast h.symm
    rw [hnum, Nat.zero_mul, Nat.zero_mul]
  case isFalse hdigits =>
    have hone : (1 : ℚ) ≤ digits := by exact_mod_cast Nat.pos_of_ne_zero hdigits
    split
    case isTrue hlarge =>
      rw [infinite, nearest, place_eq_infinity hden]
      calc (2 : ℚ) ^ (1024 : ℤ) * den ≤ 10 ^ exponent * den := by
            gcongr
            exact two_zpow_le_ten_zpow hlarge
        _ ≤ digits * 10 ^ exponent * den := by
            gcongr
            exact le_mul_of_one_le_left (by positivity) hone
        _ = num := h
    case isFalse =>
      split
      case isTrue hsmall =>
        have hzero : double.place 0 1 = 0 := by decide
        rw [nearest, nearest, hzero, place_eq_zero hden]
        have hdlt : (digits : ℚ) < 2 ^ (digits.log2 + 1 : ℤ) := by
          exact_mod_cast Nat.lt_log2_self (n := digits)
        have hten : (10 : ℚ) ^ exponent ≤ 2 ^ (3 * exponent) := ten_zpow_le (by omega)
        calc (num : ℚ) = digits * 10 ^ exponent * den := h.symm
          _ < 2 ^ (digits.log2 + 1 : ℤ) * 10 ^ exponent * den := by gcongr
          _ ≤ 2 ^ (digits.log2 + 1 : ℤ) * 2 ^ (3 * exponent) * den := by gcongr
          _ ≤ 2 ^ (-1076 : ℤ) * den := by
            rw [← zpow_add₀ two_ne_zero]
            gcongr
            · exact one_le_two
            · omega
      case isFalse =>
        apply nearest_congr negative (pow_ne_zero _ (by norm_num)) hden
        rw [zpow_eq_div] at h
        field_simp at h
        rw [Nat.mul_comm num]
        exact_mod_cast h

/-- Decimals that are one number have one double. -/
theorem nearestDecimal_congr (negative : Bool) {digits digits' : ℕ} {exponent exponent' : ℤ}
    (h : (digits : ℚ) * 10 ^ exponent = digits' * 10 ^ exponent') :
    nearestDecimal negative digits exponent = nearestDecimal negative digits' exponent' := by
  have hden : Nat.pow 10 (-exponent).toNat ≠ 0 := pow_ne_zero _ (by norm_num)
  have hnum : (digits : ℚ) * 10 ^ exponent * (Nat.pow 10 (-exponent).toNat : ℕ)
      = (digits * Nat.pow 10 exponent.toNat : ℕ) := by
    rw [zpow_eq_div]
    simp only [Nat.pow_eq]
    push_cast
    field_simp
  rw [nearestDecimal_eq_nearest negative hden hnum]
  rw [h] at hnum
  rw [nearestDecimal_eq_nearest negative hden hnum]

-- ================================================================ numerals

/-- Numerals that are one number, sign included. -/
def Numeral.Same : Numeral → Numeral → Prop
  | infinity negative, infinity negative' => negative = negative'
  | decimal negative digits exponent, decimal negative' digits' exponent' =>
    negative = negative' ∧ (digits : ℚ) * 10 ^ exponent = digits' * 10 ^ exponent'
  | _, _ => False

/-- Numerals that are one number have one double. -/
theorem Numeral.Same.value_eq {n n' : Numeral} (h : n.Same n') : n.value = n'.value := by
  cases n with
  | infinity negative =>
      cases n' with
      | infinity negative' => exact congrArg infinite h
      | decimal => exact h.elim
  | decimal negative digits exponent =>
      cases n' with
      | infinity => exact h.elim
      | decimal negative' digits' exponent' =>
          obtain ⟨rfl, hnumber⟩ := h
          exact nearestDecimal_congr negative hnumber

end TableCalc.Number
