/-
Every layout writes literals. Whatever a layout's rules are, the text of a decimal is the text of a
`Literal` of the same magnitude: with zeros before it, zeros behind it, or an exponent (`denotes_plain`,
`denotes_scientific`). So what a double is written as can be read back as a numeral, and since the
shortest decimal of a finite double is below the limit of the doubles, as a finite one
(`writesFinite_render`).
-/

import Mathlib
import TableCalc.Number.Fixed
import TableCalc.Proofs.Number.Double
import TableCalc.Proofs.Number.Literal
import TableCalc.Proofs.Number.Shortest

namespace TableCalc.Number

variable {ds : List Char}

-- ================================================================== digits

theorem digitsOf_ne_nil (n : ℕ) : digitsOf n ≠ [] := Nat.toDigits_ne_nil

theorem isDigit_of_mem_digitsOf {n : ℕ} {c : Char} (hc : c ∈ digitsOf n) : c.isDigit = true :=
  Nat.isDigit_of_mem_toDigits (by decide) le_rfl hc

theorem valueOf_digitsOf (n : ℕ) : valueOf (digitsOf n) = n := Nat.ofDigitChars_ten_toDigits

theorem isDigit_of_mem_replicate {n : ℕ} {c : Char} (hc : c ∈ List.replicate n '0') :
    c.isDigit = true := by
  rw [List.eq_of_mem_replicate hc]
  rfl

/-- Zeros in front change nothing. -/
theorem valueOf_replicate_append (n : ℕ) (ds : List Char) :
    valueOf (List.replicate n '0' ++ ds) = valueOf ds := by
  show Nat.ofDigitChars 10 _ 0 = Nat.ofDigitChars 10 ds 0
  rw [Nat.ofDigitChars_append, Nat.ofDigitChars_replicate_zero, Nat.mul_zero]

/-- A zero behind multiplies by ten. -/
theorem valueOf_append_replicate (ds : List Char) (n : ℕ) :
    valueOf (ds ++ List.replicate n '0') = 10 ^ n * valueOf ds := by
  show Nat.ofDigitChars 10 _ 0 = 10 ^ n * Nat.ofDigitChars 10 ds 0
  rw [Nat.ofDigitChars_append, Nat.ofDigitChars_replicate_zero]

-- ================================================================ decimals

/-- A text is that of a literal with the given magnitude. -/
def Denotes (s : List Char) (x : ℚ) : Prop := ∃ l : Literal, l.text = s ∧ l.magnitude = x

/-- Digits with a point among them, or without one where no digit would be behind it. -/
theorem denotes_digits (negative : Bool) {whole fraction : List Char} (hne : whole ≠ [])
    (hwhole : ∀ c ∈ whole, c.isDigit = true) (hfraction : ∀ c ∈ fraction, c.isDigit = true) :
    Denotes (sign negative ++ (whole ++ if fraction = [] then [] else '.' :: fraction))
      (valueOf (whole ++ fraction) * 10 ^ (-fraction.length : ℤ)) := by
  refine ⟨⟨negative, whole, fraction, none, hne, hwhole, hfraction, nofun, nofun⟩, ?_, ?_⟩
  · simp only [Literal.text, Literal.fractionText, Literal.exponentText, List.append_nil]
  · simp only [Literal.magnitude, Literal.power, zero_sub]

/-- A point set among digits moves them by as many places as are behind it; the zeros in front
change nothing. -/
theorem denotes_withPoint (negative : Bool) (places : ℕ) (hplaces : places ≠ 0)
    (hds : ∀ c ∈ ds, c.isDigit = true) :
    Denotes (sign negative ++ withPoint ds places) (valueOf ds * 10 ^ (-places : ℤ)) := by
  obtain ⟨padded, hpadded⟩ : ∃ padded, padded = List.replicate (places + 1 - ds.length) '0' ++ ds :=
    ⟨_, rfl⟩
  have hvalue : valueOf padded = valueOf ds := by
    rw [hpadded, valueOf_replicate_append]
  have hlen : places + 1 ≤ padded.length := by
    rw [hpadded, List.length_append, List.length_replicate]
    omega
  have hdigits : ∀ c ∈ padded, c.isDigit = true := by
    intro c hc
    rw [hpadded] at hc
    exact (List.mem_append.mp hc).elim isDigit_of_mem_replicate (hds c)
  have hwhole : padded.take (padded.length - places) ≠ [] := by
    apply List.ne_nil_of_length_pos
    rw [List.length_take]
    omega
  have hfraction : (padded.drop (padded.length - places)).length = places := by
    rw [List.length_drop]
    omega
  have hpoint : padded.drop (padded.length - places) ≠ [] :=
    List.ne_nil_of_length_pos (by omega)
  have hsplit := denotes_digits negative hwhole (fun c hc => hdigits c (List.mem_of_mem_take hc))
    fun c (hc : c ∈ padded.drop (padded.length - places)) => hdigits c (List.mem_of_mem_drop hc)
  rw [if_neg hpoint, List.take_append_drop, hfraction, hvalue] at hsplit
  simp only [withPoint, ← hpadded]
  exact hsplit

/-- Zeros set behind digits move them the other way, and a zero behind the point changes nothing. -/
theorem denotes_withZeros (negative pointed : Bool) (digits k : ℕ) :
    Denotes (sign negative ++ (digitsOf digits ++ List.replicate k '0' ++
      if pointed then ['.', '0'] else [])) (digits * 10 ^ (k : ℤ)) := by
  obtain ⟨places, hplaces⟩ : ∃ places, places = if pointed then 1 else 0 := ⟨_, rfl⟩
  have hvalue : valueOf (digitsOf digits ++ List.replicate k '0' ++ List.replicate places '0')
      = 10 ^ (k + places) * digits := by
    rw [List.append_assoc, List.replicate_append_replicate, valueOf_append_replicate,
      valueOf_digitsOf]
  have hmagnitude : ((10 ^ (k + places) * digits : ℕ) : ℚ) * 10 ^ (-places : ℤ)
      = digits * 10 ^ (k : ℤ) := by
    rw [zpow_neg, zpow_natCast, zpow_natCast]
    push_cast
    field_simp
    ring
  have hne : digitsOf digits ++ List.replicate k '0' ≠ [] :=
    List.append_ne_nil_of_left_ne_nil (digitsOf_ne_nil digits) _
  have hdigits : ∀ c ∈ digitsOf digits ++ List.replicate k '0', c.isDigit = true := fun c hc =>
    (List.mem_append.mp hc).elim isDigit_of_mem_digitsOf isDigit_of_mem_replicate
  have hzeros := denotes_digits negative hne hdigits
    fun c (hc : c ∈ List.replicate places '0') => isDigit_of_mem_replicate hc
  rw [List.length_replicate, hvalue, hmagnitude] at hzeros
  cases pointed with
  | true =>
      subst hplaces
      exact hzeros
  | false =>
      subst hplaces
      exact hzeros

theorem denotes_plain (negative pointed : Bool) (d : Decimal) :
    Denotes (sign negative ++ d.plain pointed) d.magnitude := by
  obtain ⟨digits, exponent⟩ := d
  unfold Decimal.plain Decimal.magnitude
  by_cases hexp : exponent < 0
  · have hdigits : ∀ c ∈ digitsOf digits, c.isDigit = true := fun c hc =>
      isDigit_of_mem_digitsOf hc
    have hpoint := denotes_withPoint negative (-exponent).toNat (by omega) hdigits
    have hneg : -((-exponent).toNat : ℤ) = exponent := by omega
    rw [valueOf_digitsOf, hneg] at hpoint
    rw [if_pos hexp]
    exact hpoint
  · obtain ⟨k, rfl⟩ := Int.eq_ofNat_of_zero_le (not_lt.mp hexp)
    rw [if_neg hexp]
    exact denotes_withZeros negative pointed digits k

/-- With an exponent, the first digit stands before the point and the others behind it. -/
theorem denotes_scientific (negative : Bool) (d : Decimal) :
    Denotes (sign negative ++ d.scientific d.leading) d.magnitude := by
  obtain ⟨digits, exponent⟩ := d
  have hpos : 0 < (digitsOf digits).length := Nat.length_toDigits_pos
  obtain ⟨leading, hleading⟩ :
      ∃ leading, leading = (Decimal.mk digits exponent).leading := ⟨_, rfl⟩
  have hexponent : leading = exponent + (digitsOf digits).length - 1 := hleading
  refine ⟨{
    negative
    whole := (digitsOf digits).take 1
    fraction := (digitsOf digits).drop 1
    exponent := some (decide (leading < 0), digitsOf leading.natAbs)
    whole_ne_nil := List.ne_nil_of_length_pos (by rw [List.length_take]; omega)
    whole_digits := fun c hc => isDigit_of_mem_digitsOf (List.mem_of_mem_take hc)
    fraction_digits := fun c hc => isDigit_of_mem_digitsOf (List.mem_of_mem_drop hc)
    exponent_ne_nil := by
      rintro e ⟨⟩
      exact digitsOf_ne_nil _
    exponent_digits := by
      rintro e ⟨⟩ c hc
      exact isDigit_of_mem_digitsOf hc }, ?_, ?_⟩
  · rw [← hleading]
    simp only [Literal.text, Literal.fractionText, Literal.exponentText, Decimal.scientific,
      List.drop_eq_nil_iff, List.append_assoc, decide_eq_true_eq]
  · have hpower : (if leading < 0 then -(leading.natAbs : ℤ) else leading.natAbs) = leading := by
      split <;> omega
    have hscale : leading - ((digitsOf digits).length - 1 : ℕ) = exponent := by omega
    simp only [Literal.magnitude, Literal.power, List.take_append_drop, List.length_drop,
      valueOf_digitsOf, decide_eq_true_eq, hpower, hscale, Decimal.magnitude]

/-- By any layout a decimal is written as a literal of its magnitude. -/
theorem denotes_decimal (negative : Bool) (l : Layout) (d : Decimal) :
    Denotes (sign negative ++ l.decimal d) d.magnitude := by
  unfold Layout.decimal
  split
  · exact denotes_plain negative l.pointed d
  · split
    · exact denotes_plain negative l.pointed d
    · exact denotes_scientific negative d

-- ========================================================= finite literals

/-- The digits of a 64-bit number are a literal below the limit of the doubles. -/
theorem writesFinite_whole (negative : Bool) {n : ℕ} (hn : n < UInt64.size) :
    WritesFinite (sign negative ++ digitsOf n) := by
  obtain ⟨literal, htext, hmagnitude⟩ := denotes_plain negative false ⟨n, 0⟩
  refine ⟨literal, ?_, ?_⟩
  · rw [htext, Decimal.plain]
    simp
  · rw [hmagnitude, Decimal.magnitude]
    simpa using natCast_lt_limit hn

/-- By any layout a finite double is written as a literal below the limit of the doubles. -/
theorem writesFinite_render (l : Layout) {x : Float} (hx : x.isFinite = true) :
    WritesFinite (l.render x) := by
  obtain ⟨negative, m, q, hparts, hm, hq⟩ := parts_of_isFinite hx
  unfold Layout.render
  rw [hparts]
  by_cases hzero : m = 0
  · obtain ⟨literal, htext, hmagnitude⟩ := denotes_plain negative l.pointed ⟨0, 0⟩
    refine ⟨literal, by simpa [hzero] using htext, ?_⟩
    rw [hmagnitude, Decimal.magnitude, Nat.cast_zero, zero_mul]
    exact limit_pos
  · obtain ⟨literal, htext, hmagnitude⟩ := denotes_decimal negative l (shortest l.tie m q)
    refine ⟨literal, by simpa [hzero] using htext, ?_⟩
    rw [hmagnitude]
    exact shortest_lt_limit l.tie hm hq

-- =========================================================== fixed places

/-- The exact value of a finite double is below the limit. -/
theorem mul_two_zpow_lt_limit {m : ℕ} {q : ℤ} (hm : m < 2 ^ 53) (hq : q ≤ 971) :
    (m : ℚ) * 2 ^ q < limit := by
  have hunit : (2 : ℚ) ^ q ≤ 2 ^ (971 : ℤ) := zpow_le_zpow_right₀ one_le_two hq
  have hle : (m : ℚ) ≤ (2 ^ 53 - 1 : ℕ) := Nat.cast_le.mpr (by omega)
  have hpos : (0 : ℚ) < 2 ^ (971 : ℤ) := zpow_pos two_pos _
  have htwice : 2 * ((m : ℚ) * 2 ^ q) < 2 * limit := by
    rw [two_mul_limit]
    calc 2 * ((m : ℚ) * 2 ^ q) ≤ 2 * ((2 ^ 53 - 1 : ℕ) * 2 ^ (971 : ℤ)) := by gcongr
      _ < 2 ^ (971 : ℤ) * (2 * ((2 ^ 53 - 1 : ℕ) : ℚ) + 1) := by
        generalize ((2 ^ 53 - 1 : ℕ) : ℚ) = top
        generalize (2 : ℚ) ^ (971 : ℤ) = unit at hpos
        linarith
  exact lt_of_mul_lt_mul_left htwice two_pos.le

/-- A number of units of `10 ^ -places` is below the limit as well: a whole number is written
exactly, and rounding a fraction adds one unit at most. -/
theorem scaledTo_lt_limit {m : ℕ} {q : ℤ} (places : ℕ) (hm : m < 2 ^ 53) (hq : q ≤ 971) :
    (scaledTo places m q : ℚ) * 10 ^ (-places : ℤ) < limit := by
  have hten : (0 : ℚ) < 10 ^ places := by positivity
  rw [zpow_neg, zpow_natCast, ← div_eq_mul_inv, div_lt_iff₀ hten]
  rcases le_or_gt 0 q with hq0 | hq0
  · obtain ⟨k, rfl⟩ := Int.eq_ofNat_of_zero_le hq0
    have hexact : scaledTo places m k = m * 2 ^ k * 10 ^ places := by
      simp [scaledTo, roundDiv, Nat.mod_one]
    have hlimit := mul_two_zpow_lt_limit hm hq
    rw [hexact]
    push_cast
    rw [zpow_natCast] at hlimit
    gcongr
  · have hround : scaledTo places m q ≤ (m + 1) * 10 ^ places := by
      have hwhole : m * Nat.pow 2 q.toNat * Nat.pow 10 places = m * 10 ^ places := by
        simp [Int.toNat_of_nonpos hq0.le]
      have hdiv : m * 10 ^ places / Nat.pow 2 (-q).toNat ≤ m * 10 ^ places := Nat.div_le_self ..
      have hone : 1 ≤ 10 ^ places := Nat.one_le_pow _ _ (by norm_num)
      rw [scaledTo, hwhole, Nat.add_mul, Nat.one_mul]
      rcases roundDiv_eq_or .toEven (m * 10 ^ places) (Nat.pow 2 (-q).toNat) with hround | hround
      · omega
      · omega
    have hlimit : ((m + 1 : ℕ) : ℚ) < limit := natCast_lt_limit (by
      show m + 1 < 2 ^ 64
      omega)
    calc (scaledTo places m q : ℚ) ≤ ((m + 1) * 10 ^ places : ℕ) := by exact_mod_cast hround
      _ = (m + 1 : ℕ) * 10 ^ places := by push_cast; ring
      _ < limit * 10 ^ places := by gcongr

/-- With places behind the point a finite double is written as a literal below the limit. -/
theorem writesFinite_fixed {places : ℕ} (hplaces : places ≠ 0) {x : Float}
    (hx : x.isFinite = true) : WritesFinite (fixed places x) := by
  obtain ⟨negative, m, q, hparts, hm, hq⟩ := parts_of_isFinite hx
  obtain ⟨literal, htext, hmagnitude⟩ := denotes_withPoint negative places hplaces
    fun c (hc : c ∈ digitsOf (scaledTo places m q)) => isDigit_of_mem_digitsOf hc
  refine ⟨literal, ?_, ?_⟩
  · simp only [fixed, hparts, fixedUnits, if_neg hplaces, htext]
  · rw [hmagnitude, valueOf_digitsOf]
    exact scaledTo_lt_limit places hm hq

end TableCalc.Number
