/-
How far the shortest decimal of a double may be from it: no further than the interval in which the
decimals that read back lie. Only the upper end matters here. It is half a unit above the double,
and belongs to the interval just when the significand is even; the significand of the greatest
double is odd, so even its shortest decimal stays below `limit` and reads as a finite double again
(`shortest_lt_limit`).

A grid of decimals is tested in whole numbers, each side multiplied by the powers that the other
side lacks; `grid_le_iff` and `grid_lt_iff` put the exponents back where they belong.
-/

import Mathlib
import TableCalc.Number.Shortest
import TableCalc.Proofs.Number.Nearest

namespace TableCalc.Number

variable {tie : Tie} {m d : ℕ} {q p : ℤ}

/-- The exact magnitude of a decimal. -/
def Decimal.magnitude (d : Decimal) : ℚ := d.digits * 10 ^ d.exponent

-- =============================================================== the grids

/-- A multiple of `10 ^ p` and one of a quarter of the unit, both multiplied by what makes them
whole. -/
theorem grid_scaled (a c : ℕ) (q p : ℤ) : ∃ f : ℚ, 0 < f
    ∧ a * 10 ^ p * f = (a * (Nat.pow 2 (2 - q).toNat * Nat.pow 10 p.toNat) : ℕ)
    ∧ c * 2 ^ (q - 2) * f = (c * (Nat.pow 2 (q - 2).toNat * Nat.pow 10 (-p).toNat) : ℕ) := by
  have hten : (10 : ℚ) ^ (-p).toNat ≠ 0 := by positivity
  have htwo : (2 : ℚ) ^ (2 - q).toNat ≠ 0 := by positivity
  refine ⟨10 ^ (-p).toNat * 2 ^ (2 - q).toNat, by positivity, ?_, ?_⟩
  · rw [zpow_eq_div]
    simp only [Nat.pow_eq]
    push_cast
    field_simp
  · rw [zpow_eq_div, neg_sub]
    simp only [Nat.pow_eq]
    push_cast
    field_simp

theorem grid_le_iff {a c : ℕ} : (a : ℚ) * 10 ^ p ≤ c * 2 ^ (q - 2) ↔
    a * (Nat.pow 2 (2 - q).toNat * Nat.pow 10 p.toNat)
      ≤ c * (Nat.pow 2 (q - 2).toNat * Nat.pow 10 (-p).toNat) := by
  obtain ⟨f, hf, hleft, hright⟩ := grid_scaled a c q p
  rw [← mul_le_mul_iff_left₀ hf, hleft, hright, Nat.cast_le]

theorem grid_lt_iff {a c : ℕ} : (a : ℚ) * 10 ^ p < c * 2 ^ (q - 2) ↔
    a * (Nat.pow 2 (2 - q).toNat * Nat.pow 10 p.toNat)
      < c * (Nat.pow 2 (q - 2).toNat * Nat.pow 10 (-p).toNat) := by
  obtain ⟨f, hf, hleft, hright⟩ := grid_scaled a c q p
  rw [← mul_lt_mul_iff_left₀ hf, hleft, hright, Nat.cast_lt]

/-- Rounding goes down or up by one. -/
theorem roundDiv_eq_or (tie : Tie) (num den : ℕ) :
    roundDiv tie num den = num / den ∨ roundDiv tie num den = num / den + 1 := by
  have hparity := Nat.mod_two_eq_zero_or_one (num / den)
  cases tie with
  | toEven =>
      simp only [roundDiv]
      split_ifs <;> omega
  | away =>
      simp only [roundDiv]
      split_ifs <;> omega

/-- A number is no greater than the upper end of the interval of `m * 2 ^ q`, and not the end itself
where that does not belong to the interval. -/
def UpTo (m : ℕ) (q : ℤ) (x : ℚ) : Prop :=
  x ≤ (4 * m + 2 : ℕ) * 2 ^ (q - 2) ∧ (m % 2 = 1 → x < (4 * m + 2 : ℕ) * 2 ^ (q - 2))

/-- What an interval contains is no greater than its upper end. -/
theorem Interval.le_high {i : Interval} {num den : ℕ} (h : i.contains num den = true) :
    num ≤ i.high * den ∧ (i.closed = false → num < i.high * den) := by
  unfold Interval.contains at h
  cases hclosed : i.closed with
  | true =>
      rw [hclosed, if_pos rfl, Bool.and_eq_true, decide_eq_true_eq, decide_eq_true_eq] at h
      exact ⟨h.2, nofun⟩
  | false =>
      rw [hclosed, if_neg Bool.false_ne_true, Bool.and_eq_true, decide_eq_true_eq,
        decide_eq_true_eq] at h
      exact ⟨h.2.le, fun _ => h.2⟩

theorem upTo_of_contains (h : (Interval.around m q).contains
      (d * (Nat.pow 2 (2 - q).toNat * Nat.pow 10 p.toNat))
      (Nat.pow 2 (q - 2).toNat * Nat.pow 10 (-p).toNat) = true) :
    UpTo m q (d * 10 ^ p) := by
  obtain ⟨hle, hlt⟩ := Interval.le_high h
  refine ⟨grid_le_iff.mpr hle, fun hodd => grid_lt_iff.mpr (hlt ?_)⟩
  show (m % 2 == 0) = false
  rw [hodd]
  rfl

/-- What a grid offers for a double is in the double's interval. -/
theorem upTo_of_onGrid (h : onGrid tie m q p = some d) : UpTo m q (d * 10 ^ p) := by
  simp only [onGrid] at h
  split at h
  case h_1 hbelow habove =>
    injection h with h
    rcases roundDiv_eq_or tie (4 * m * (Nat.pow 2 (q - 2).toNat * Nat.pow 10 (-p).toNat))
        (Nat.pow 2 (2 - q).toNat * Nat.pow 10 p.toNat) with hround | hround
    · rw [← h, hround]
      exact upTo_of_contains hbelow
    · rw [← h, hround]
      exact upTo_of_contains habove
  case h_2 hbelow _ =>
    injection h with h
    rw [← h]
    exact upTo_of_contains hbelow
  case h_3 _ habove =>
    injection h with h
    rw [← h]
    exact upTo_of_contains habove
  case h_4 => cases h

-- ============================================================= the decimal

theorem two_zpow_eq (q : ℤ) : (2 : ℚ) ^ q = 4 * 2 ^ (q - 2) := by
  rw [zpow_sub₀ two_ne_zero]
  norm_num
  ring

/-- The decimal that stands in when no grid has one is the double itself. -/
theorem magnitude_exact (m : ℕ) (q : ℤ) :
    (Decimal.mk (m * Nat.pow 2 q.toNat * Nat.pow 5 (-q).toNat) (min q 0)).magnitude = m * 2 ^ q := by
  rcases Int.eq_nat_or_neg q with ⟨n, rfl | rfl⟩
  · simp [Decimal.magnitude]
  · have hten : (10 : ℚ) ^ n = 2 ^ n * 5 ^ n := by
      rw [← mul_pow]
      norm_num
    simp [Decimal.magnitude, hten]
    field_simp

theorem upTo_shortest (tie : Tie) (m : ℕ) (q : ℤ) : UpTo m q (shortest tie m q).magnitude := by
  simp only [shortest]
  cases hfound : (List.range 22).findSome? fun (i : Nat) =>
    (onGrid tie m q (coarsestGrid m q - i)).map fun d => Decimal.mk d (coarsestGrid m q - i) with
  | none =>
      have hpos : (0 : ℚ) < 2 ^ (q - 2) := zpow_pos two_pos _
      rw [Option.getD_none, magnitude_exact, two_zpow_eq]
      unfold UpTo
      push_cast
      constructor
      · nlinarith
      · intro
        nlinarith
  | some d =>
      obtain ⟨i, -, hi⟩ := List.exists_of_findSome?_eq_some hfound
      obtain ⟨digits, hgrid, rfl⟩ := Option.map_eq_some_iff.mp hi
      exact upTo_of_onGrid hgrid

/-- The limit in quarters of the unit of the greatest double: the upper end of its interval. -/
theorem limit_eq : limit = (2 ^ 55 - 2 : ℕ) * 2 ^ (969 : ℤ) := by
  have hsucc : (2 : ℚ) ^ (970 : ℤ) = 2 * 2 ^ (969 : ℤ) := (zpow_one_add₀ two_ne_zero 969).trans rfl
  rw [limit, hsucc]
  generalize (2 : ℚ) ^ (969 : ℤ) = unit
  norm_num
  ring

/-- The shortest decimal of a finite double is below the limit, as the double is. -/
theorem shortest_lt_limit (tie : Tie) (hm : m < 2 ^ 53) (hq : q ≤ 971) :
    (shortest tie m q).magnitude < limit := by
  obtain ⟨hle, hlt⟩ := upTo_shortest tie m q
  have hunit : (2 : ℚ) ^ (q - 2) ≤ 2 ^ (969 : ℤ) := zpow_le_zpow_right₀ one_le_two (by omega)
  have hpos : (0 : ℚ) < 2 ^ (969 : ℤ) := zpow_pos two_pos _
  rw [limit_eq]
  by_cases hodd : m % 2 = 1
  · have hend : ((4 * m + 2 : ℕ) : ℚ) ≤ (2 ^ 55 - 2 : ℕ) := Nat.cast_le.mpr (by omega)
    calc (shortest tie m q).magnitude < (4 * m + 2 : ℕ) * 2 ^ (q - 2) := hlt hodd
      _ ≤ (2 ^ 55 - 2 : ℕ) * 2 ^ (969 : ℤ) := by gcongr
  · -- an even significand is not the greatest one
    have hend : ((4 * m + 2 : ℕ) : ℚ) < (2 ^ 55 - 2 : ℕ) := Nat.cast_lt.mpr (by omega)
    calc (shortest tie m q).magnitude ≤ (4 * m + 2 : ℕ) * 2 ^ (q - 2) := hle
      _ ≤ (4 * m + 2 : ℕ) * 2 ^ (969 : ℤ) := by gcongr
      _ < (2 ^ 55 - 2 : ℕ) * 2 ^ (969 : ℤ) := mul_lt_mul_of_pos_right hend hpos

end TableCalc.Number
