/-
Which number a double is, and that rounding leaves alone what is a double already. A finite double
is `± m * 2 ^ q`; a quotient that is such a number, with 53 bits in a unit that doubles have, is its
own nearest double (`rational?_nearest`).

A number is written in more than one way as `m * 2 ^ q`. The double has it in the one way that
`Canonical` picks out, with all 53 bits unless the unit is the smallest there is. In that form the
place can be written down (`placeAt`): it is the place that rounding computes
(`Canonical.place_eq`), and taking apart the double at that place gives back `m` and `q`.
-/

import Mathlib
import TableCalc.Proofs.Number.Arithmetic
import TableCalc.Proofs.Number.Exact

namespace TableCalc.Number

variable {m n a num den : ℕ} {q : ℤ}

/-- The number that a finite double is. -/
def rational? (x : Float) : Option ℚ :=
  match parts x with
  | .finite negative m q => some ((if negative then -1 else 1) * (m * 2 ^ q))
  | _ => none

-- ========================================================= canonical forms

/-- A significand and an exponent as a double has them: all 53 bits are there, unless the exponent
is the least one. -/
structure Canonical (m : ℕ) (q : ℤ) : Prop where
  pos : 0 < m
  lt : m < 2 ^ 53
  low : -1074 ≤ q
  high : q ≤ 971
  full : 2 ^ 52 ≤ m ∨ q = -1074

/-- The place of the magnitude `m * 2 ^ q`. -/
def placeAt (m : ℕ) (q : ℤ) : ℕ := (q + 1074).toNat * 2 ^ 52 + m

theorem roundDiv_mul_self (tie : Tie) (m : ℕ) (hden : 0 < den) :
    roundDiv tie (m * den) den = m := by
  simp [roundDiv, hden, Nat.mul_div_cancel m hden]

namespace Canonical

theorem placeAt_lt (h : Canonical m q) : placeAt m q < double.infinity := by
  have hlt := h.lt
  have hhigh := h.high
  show (q + 1074).toNat * 2 ^ 52 + m < 2047 * 2 ^ 52
  omega

theorem significand_placeAt (h : Canonical m q) : double.significand (placeAt m q) = m := by
  have hlt := h.lt
  have hsignificand := significand_eq (placeAt m q)
  unfold placeAt at *
  rcases h.full with hfull | rfl
  · rw [if_neg (by omega)] at hsignificand
    omega
  · split at hsignificand
    · omega
    · omega

theorem scale_placeAt (h : Canonical m q) : (double.scale (placeAt m q) : ℤ) - 1074 = q := by
  have hlt := h.lt
  have hlow := h.low
  have hscale := scale_eq (placeAt m q)
  unfold placeAt at *
  rcases h.full with hfull | rfl
  · omega
  · omega

theorem num_ne_zero (h : Canonical m q) (hden : den ≠ 0) (hnum : (num : ℚ) = m * 2 ^ q * den) :
    num ≠ 0 := by
  rintro rfl
  have hpos := h.pos
  simp [hpos.ne', hden, zpow_ne_zero] at hnum

/-- Rounding takes the same exponent for its unit. -/
theorem unit_eq (h : Canonical m q) (hden : den ≠ 0) (hnum : (num : ℚ) = m * 2 ^ q * den) :
    max (binaryExponent num den - 52) (-1074) = q := by
  have hdpos : (0 : ℚ) < den := by exact_mod_cast Nat.pos_of_ne_zero hden
  have hunit : (0 : ℚ) < 2 ^ q := zpow_pos two_pos q
  have hhigh : (num : ℚ) < 2 ^ (q + 53) * den := by
    have hlt : (m : ℚ) < 2 ^ 53 := by exact_mod_cast h.lt
    calc (num : ℚ) = m * 2 ^ q * den := hnum
      _ < 2 ^ 53 * 2 ^ q * den := by gcongr
      _ = 2 ^ (q + 53) * den := by rw [zpow_add₀ two_ne_zero, mul_comm (2 ^ q)]; rfl
  have hlow := h.low
  -- with all bits there the exponent is known from both sides, else it has only to be low enough
  rcases h.full with hfull | hleast
  · have hexponent : binaryExponent num den = q + 52 := by
      apply binaryExponent_unique hden
      · have hfull : (2 : ℚ) ^ 52 ≤ m := by exact_mod_cast hfull
        calc (2 : ℚ) ^ (q + 52) * den = 2 ^ 52 * 2 ^ q * den := by
              rw [zpow_add₀ two_ne_zero, mul_comm (2 ^ q)]; rfl
          _ ≤ m * 2 ^ q * den := by gcongr
          _ = num := hnum.symm
      · rw [add_assoc]
        exact hhigh
    omega
  · have hexponent := binaryExponent_lt (h.num_ne_zero hden hnum) hden hhigh
    omega

/-- A quotient that is `m * 2 ^ q` is rounded to the place of it, for nothing is left to round. -/
theorem place_eq (h : Canonical m q) (hden : den ≠ 0) (hnum : (num : ℚ) = m * 2 ^ q * den) :
    double.place num den = placeAt m q := by
  have hscaled : num * Nat.pow 2 (-q).toNat = m * (den * Nat.pow 2 q.toNat) := by
    rw [zpow_eq_div] at hnum
    field_simp at hnum
    rw [Nat.pow_eq, Nat.pow_eq, Nat.mul_comm den, ← Nat.mul_assoc]
    exact_mod_cast hnum
  have hpos : 0 < den * Nat.pow 2 q.toNat :=
    Nat.mul_pos (Nat.pos_of_ne_zero hden) (Nat.two_pow_pos _)
  rw [place_of_unit (h.num_ne_zero hden hnum) (h.unit_eq hden hnum), hscaled,
    roundDiv_mul_self _ _ hpos]
  exact Nat.min_eq_left h.placeAt_lt.le

/-- A number of fewer than 53 bits is moved up until all 53 are there or the unit is the least. -/
theorem of_log2 (hm : 0 < m) (hlog : m.log2 + a ≤ 52) (hlow : -1074 ≤ q) (hhigh : q ≤ 971)
    (hfull : m.log2 + a = 52 ∨ q = -1074) : Canonical (m * 2 ^ a) q := by
  have hmoved := log2_mul_two_pow hm a
  have hne : m * 2 ^ a ≠ 0 := by positivity
  refine ⟨Nat.pos_of_ne_zero hne, (Nat.log2_lt hne).mp (by omega), hlow, hhigh, ?_⟩
  exact hfull.imp_left fun hall => (Nat.le_log2 hne).mp (by omega)

/-- Every positive number of 53 bits in a unit of the doubles has a canonical form. -/
theorem exists_eq (hm : 0 < m) (hlt : m < 2 ^ 53) (hlow : -1074 ≤ q) (hhigh : q ≤ 971) :
    ∃ m' q', Canonical m' q' ∧ (m' : ℚ) * 2 ^ q' = m * 2 ^ q := by
  have hlog : m.log2 < 53 := (Nat.log2_lt hm.ne').mpr hlt
  obtain ⟨a, ha⟩ : ∃ a, min (52 - m.log2) (q + 1074).toNat = a := ⟨_, rfl⟩
  refine ⟨m * 2 ^ a, q - a, of_log2 hm (by omega) (by omega) (by omega) (by omega), ?_⟩
  rw [zpow_sub₀ two_ne_zero, zpow_natCast]
  push_cast
  field_simp

end Canonical

-- ============================================================ exact doubles

/-- A double is taken apart into what its place is made of. -/
theorem parts_ofPlace (negative : Bool) (hn : n < double.infinity) : parts (ofPlace negative n) =
    .finite negative (double.significand n) ((double.scale n : ℤ) - double.bottom) := by
  have hlt : n < 2047 * 2 ^ 52 := hn
  have hplace : (ofPlace negative n).toBits.toNat % Nat.pow 2 63 = n :=
    placeOf_ofPlace negative hn.le
  have hnegative : decide (Nat.pow 2 63 ≤ (ofPlace negative n).toBits.toNat) = negative := by
    rw [toNat_toBits_ofPlace negative hn.le]
    cases negative with
    | true => simp
    | false =>
        simp only [Nat.pow_eq, Bool.false_eq_true, if_false, decide_eq_false_iff_not]
        omega
  simp only [parts, hplace, hnegative]
  rw [if_neg hn.le.not_gt, if_neg hn.ne]

/-- A quotient of 53 bits in a unit of the doubles is a double, and so the one nearest to it. -/
theorem rational?_nearest (negative : Bool) (hm : m < 2 ^ 53) (hlow : -1074 ≤ q) (hhigh : q ≤ 971)
    (hden : den ≠ 0) (hnum : (num : ℚ) = m * 2 ^ q * den) :
    rational? (nearest negative num den)
      = some ((if negative then -1 else 1) * (m * 2 ^ q) : ℚ) := by
  rcases Nat.eq_zero_or_pos m with rfl | hpos
  · have hzero : num = 0 := by
      rw [Nat.cast_zero, zero_mul, zero_mul] at hnum
      exact_mod_cast hnum
    have hplace : double.place 0 den = 0 := if_pos rfl
    rw [rational?, nearest, hzero, hplace, parts_ofPlace negative (by decide)]
    simp [significand_eq]
  · obtain ⟨m', q', h, hvalue⟩ := Canonical.exists_eq hpos hm hlow hhigh
    rw [← hvalue] at hnum ⊢
    have hexponent : (double.scale (placeAt m' q') : ℤ) - double.bottom = q' := h.scale_placeAt
    rw [rational?, nearest, h.place_eq hden hnum, parts_ofPlace negative h.placeAt_lt,
      h.significand_placeAt, hexponent]

end TableCalc.Number
