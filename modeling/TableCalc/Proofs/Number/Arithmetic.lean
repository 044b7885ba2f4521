/-
Bounds that survive the arithmetic of doubles. A double is `Below k` when its magnitude is below
`2 ^ k`. Products, sums and quotients of such doubles are below a power a little greater, so a
calculation of a few steps stays finite wherever its operands come from (`Below.isFinite`).

Core computes on numbers taken apart: it takes the operands apart, computes exactly, rounds, and
packs the result. `Bounded` is the same bound on a number taken apart, there with an exponent low
enough to leave room for 53 bits. Taking apart and packing go from one bound to the other
(`Below.bounded`, `Bounded.below`), and rounding adds one to it (`bounded_roundWithAccuracy`). All
sizes are told by logarithms, and what an operation does to those needs no rounding.
-/

import Mathlib
import TableCalc.Proofs.Number.Shortest

namespace TableCalc.Number

open Float.Model
open UnpackedFloat hiding mul add div pack unpack round normalize

variable {x y : Float} {u v : UnpackedFloat} {k j m n l a : Nat} {e : Int}

-- ============================================================== logarithms

theorem log2_le_of_lt (h : n < 2 ^ (l + 1)) : n.log2 ≤ l := by
  by_cases hzero : n = 0
  · simp [hzero]
  · exact Nat.le_of_lt_succ ((Nat.log2_lt hzero).mpr h)

theorem log2_le_of_le (h : m ≤ n) : m.log2 ≤ n.log2 :=
  log2_le_of_lt (Nat.lt_of_le_of_lt h Nat.lt_log2_self)

theorem log2_add_le (hm : m.log2 ≤ l) (hn : n.log2 ≤ l) : (m + n).log2 ≤ l + 1 := by
  have hlt : ∀ i : Nat, i.log2 ≤ l → i < 2 ^ (l + 1) := fun i hi =>
    Nat.lt_of_lt_of_le Nat.lt_log2_self (Nat.pow_le_pow_right two_pos (Nat.succ_le_succ hi))
  apply log2_le_of_lt
  calc m + n < 2 ^ (l + 1) + 2 ^ (l + 1) := Nat.add_lt_add (hlt m hm) (hlt n hn)
    _ = 2 ^ (l + 1 + 1) := by ring

theorem log2_mul_le (m n : Nat) : (m * n).log2 ≤ m.log2 + n.log2 + 1 := by
  apply log2_le_of_lt
  calc m * n < 2 ^ (m.log2 + 1) * 2 ^ (n.log2 + 1) :=
        Nat.mul_lt_mul'' Nat.lt_log2_self Nat.lt_log2_self
    _ = 2 ^ (m.log2 + n.log2 + 1 + 1) := by ring

theorem log2_mul_two_pow (hm : 0 < m) (a : Nat) : (m * 2 ^ a).log2 = m.log2 + a := by
  rw [Nat.log2_eq_iff (by positivity), Nat.pow_add, Nat.add_right_comm, Nat.pow_add]
  constructor
  · gcongr
    exact Nat.log2_self_le hm.ne'
  · gcongr
    exact Nat.lt_log2_self

theorem log2_mul_two_pow_le (m a : Nat) : (m * 2 ^ a).log2 ≤ m.log2 + a := by
  rcases Nat.eq_zero_or_pos m with rfl | hm
  · simp
  · exact (log2_mul_two_pow hm a).le

theorem log2_div_two_pow_le (m a : Nat) : (m / 2 ^ a).log2 ≤ m.log2 - a := by
  apply log2_le_of_lt
  apply Nat.div_lt_of_lt_mul
  calc m < 2 ^ (m.log2 + 1) := Nat.lt_log2_self
    _ ≤ 2 ^ (a + (m.log2 - a + 1)) := Nat.pow_le_pow_right two_pos (by omega)
    _ = 2 ^ a * 2 ^ (m.log2 - a + 1) := Nat.pow_add ..

theorem log2_div_le (hn : n ≠ 0) : (m / n).log2 ≤ m.log2 - n.log2 + 1 := by
  apply log2_le_of_lt
  apply Nat.div_lt_of_lt_mul
  calc m < 2 ^ (m.log2 + 1) := Nat.lt_log2_self
    _ ≤ 2 ^ (n.log2 + (m.log2 - n.log2 + 1 + 1)) := Nat.pow_le_pow_right two_pos (by omega)
    _ = 2 ^ n.log2 * 2 ^ (m.log2 - n.log2 + 1 + 1) := Nat.pow_add ..
    _ ≤ n * 2 ^ (m.log2 - n.log2 + 1 + 1) := Nat.mul_le_mul_right _ (Nat.log2_self_le hn)

-- ================================================================ rounding

/-- A number taken apart that is below `2 ^ k`, with an exponent low enough for 53 bits. -/
def Bounded (k : Nat) : UnpackedFloat → Prop
  | .zero _ => True
  | .finite _ m e _ => totalExponent m e ≤ k ∧ e ≤ k - 53 ∧ -1074 ≤ e
  | _ => False

theorem Bounded.zero_or_finite (h : Bounded k u) : (∃ s, u = .zero s) ∨
    ∃ s m e hpos, u = .finite s m e hpos ∧ totalExponent m e ≤ k ∧ e ≤ k - 53 ∧ -1074 ≤ e := by
  cases u with
  | infinity s => exact h.elim
  | notANumber => exact h.elim
  | zero s => exact .inl ⟨s, rfl⟩
  | finite s m e hpos => exact .inr ⟨s, m, e, hpos, rfl, h⟩

theorem Bounded.mono (h : Bounded k u) (hkj : k ≤ j) : Bounded j u := by
  rcases h.zero_or_finite with ⟨s, rfl⟩ | ⟨s, m, e, hpos, rfl, htotal, hexp, hlow⟩
  · trivial
  · exact ⟨by omega, by omega, hlow⟩

theorem mantissa_shiftRight (em : ExtendedMantissa) (a : Nat) :
    (em >>> a).mantissa = em.mantissa / 2 ^ a := by
  induction a with
  | zero => exact (Nat.div_one _).symm
  | succ a ih =>
      have hstep : (em >>> (a + 1)).mantissa = (em >>> a).mantissa / 2 := rfl
      rw [hstep, ih, Nat.div_div_eq_div_mul, Nat.pow_succ]

theorem mantissa_ofMantissaAndAccuracy (m : Nat) (accuracy : Accuracy) :
    (ExtendedMantissa.ofMantissaAndAccuracy m accuracy).mantissa = m := by
  unfold ExtendedMantissa.ofMantissaAndAccuracy
  split <;> rfl

theorem roundedMantissa_le (em : ExtendedMantissa) : em.roundedMantissa ≤ em.mantissa + 1 := by
  unfold ExtendedMantissa.roundedMantissa Accuracy.roundToNearestEven
  split <;> omega

/-- Shifting to the target exponent drops the bits that are too many, and none if none are. -/
theorem exists_shift (m : Nat) (e : Int) (accuracy : Accuracy) :
    ∃ a : Nat, (a : Int) = max 0 (max (totalExponent m e - 53) (-1074) - e)
      ∧ (shiftToTargetExponent .binary64 m e accuracy).1.mantissa = m / 2 ^ a
      ∧ (shiftToTargetExponent .binary64 m e accuracy).2 = e + a := by
  refine ⟨(max (totalExponent m e - 53) (-1074) - e).toNat, by omega, ?_, rfl⟩
  have hshift : (shiftToTargetExponent .binary64 m e accuracy).1 =
      ExtendedMantissa.ofMantissaAndAccuracy m accuracy
        >>> (max (totalExponent m e - 53) (-1074) - e).toNat := rfl
  rw [hshift, mantissa_shiftRight, mantissa_ofMantissaAndAccuracy]

/-- Rounding adds at most one to the bound. Core shifts twice, the second time for a mantissa that
was rounded up to one bit more. -/
theorem bounded_roundWithAccuracy (s : UnpackedFloat.Sign) (accuracy : Accuracy)
    (htotal : totalExponent m e ≤ k) (he : e ≤ k - 52) :
    Bounded (k + 1) (roundWithAccuracy .binary64 s m e accuracy) := by
  obtain ⟨a, ha, hmantissa, hexponent⟩ := exists_shift m e accuracy
  have hrounded := roundedMantissa_le (shiftToTargetExponent .binary64 m e accuracy).1
  simp only [roundWithAccuracy]
  generalize shiftToTargetExponent .binary64 m e accuracy = first at *
  obtain ⟨b, hb, hmantissa', hexponent'⟩ := exists_shift first.1.roundedMantissa first.2 .exact
  generalize shiftToTargetExponent .binary64 first.1.roundedMantissa first.2 .exact = second at *
  generalize first.1.roundedMantissa = m' at *
  have hlog : m'.log2 ≤ m.log2 - a + 1 := by
    rw [hmantissa] at hrounded
    exact (log2_le_of_le hrounded).trans (log2_add_le (log2_div_two_pow_le m a) (Nat.zero_le _))
  have hlog' := log2_div_two_pow_le m' b
  rw [hexponent] at hexponent' hb
  rw [hmantissa', hexponent']
  unfold totalExponent at htotal ha hb
  split
  case isTrue => trivial
  case isFalse hne =>
    have hle : b ≤ m'.log2 := by
      rw [Nat.le_log2]
      · by_contra hlt
        exact hne (Nat.div_eq_of_lt (Nat.lt_of_not_le hlt))
      · intro hzero
        simp [hzero] at hne
    refine ⟨?_, ?_, ?_⟩
    · unfold totalExponent
      omega
    · omega
    · omega

theorem totalExponent_decreaseExponent_le (m : Nat) (e t : Int) :
    totalExponent (decreaseExponent m e t).1 (decreaseExponent m e t).2 ≤ totalExponent m e := by
  have hlog := log2_mul_two_pow_le m (e - t).toNat
  simp only [decreaseExponent, totalExponent, Nat.shiftLeft_eq]
  omega

theorem bounded_round (s : UnpackedFloat.Sign) (htotal : totalExponent m e ≤ k) (he : e ≤ k - 52) :
    Bounded (k + 1) (UnpackedFloat.round .binary64 s m e) := by
  simp only [UnpackedFloat.round]
  apply bounded_roundWithAccuracy
  · exact (totalExponent_decreaseExponent_le ..).trans htotal
  · simp only [decreaseExponent]
    omega

theorem bounded_normalize {i : Int} (s : UnpackedFloat.Sign) (htotal : totalExponent i.natAbs e ≤ k)
    (he : e ≤ k - 52) : Bounded (k + 1) (UnpackedFloat.normalize .binary64 i e s) := by
  unfold UnpackedFloat.normalize
  split
  case h_1 hlt =>
    have hi : i < 0 := compare_lt_iff_lt.mp hlt
    have habs : (-i).toNat = i.natAbs := by omega
    rw [habs]
    exact bounded_round _ htotal he
  case h_2 => trivial
  case h_3 hgt =>
    have hi : 0 < i := compare_gt_iff_gt.mp hgt
    have habs : i.toNat = i.natAbs := by omega
    rw [habs]
    exact bounded_round _ htotal he

-- =============================================================== operations

theorem Bounded.mul (hu : Bounded k u) (hv : Bounded j v) :
    Bounded (k + j + 1) (UnpackedFloat.mul .binary64 u v) := by
  rcases hu.zero_or_finite with ⟨s, rfl⟩ | ⟨s, m, e, hpos, rfl, htotal, hexp, hlow⟩
  · rcases hv.zero_or_finite with ⟨s', rfl⟩ | ⟨s', m', e', hpos', rfl, -⟩
    · trivial
    · trivial
  · rcases hv.zero_or_finite with ⟨s', rfl⟩ | ⟨s', m', e', hpos', rfl, htotal', hexp', hlow'⟩
    · trivial
    · have hlog := log2_mul_le m m'
      unfold totalExponent at htotal htotal'
      show Bounded _ (roundWithAccuracy .binary64 _ _ _ _)
      apply bounded_roundWithAccuracy
      · unfold totalExponent
        omega
      · omega

theorem natAbs_apply (s : UnpackedFloat.Sign) (m : Nat) : (s.apply m).natAbs = m := by
  cases s with
  | positive => rfl
  | negative => exact Int.natAbs_neg _

theorem Bounded.add (hu : Bounded k u) (hv : Bounded k v) :
    Bounded (k + 2) (UnpackedFloat.add .binary64 u v) := by
  rcases hu.zero_or_finite with ⟨s, rfl⟩ | ⟨s, m, e, hpos, rfl, htotal, hexp, hlow⟩
  · rcases hv.zero_or_finite with ⟨s', rfl⟩ | ⟨s', m', e', hpos', rfl, -⟩
    · show Bounded _ (if _ then _ else _)
      split <;> trivial
    · exact hv.mono (Nat.le_add_right ..)
  · rcases hv.zero_or_finite with ⟨s', rfl⟩ | ⟨s', m', e', hpos', rfl, htotal', hexp', hlow'⟩
    · exact hu.mono (Nat.le_add_right ..)
    · -- both are brought to the lower exponent, and their sum is rounded
      have hlog := log2_mul_two_pow_le m (e - min e e').toNat
      have hlog' := log2_mul_two_pow_le m' (e' - min e e').toNat
      show Bounded (k + 1 + 1) (UnpackedFloat.normalize .binary64
        (s.apply (m <<< (e - min e e').toNat) + s'.apply (m' <<< (e' - min e e').toNat)) _ _)
      rw [Nat.shiftLeft_eq, Nat.shiftLeft_eq]
      generalize m * 2 ^ (e - min e e').toNat = n at *
      generalize m' * 2 ^ (e' - min e e').toNat = n' at *
      have hsum : (s.apply n + s'.apply n').natAbs ≤ n + n' := by
        have habs := Int.natAbs_add_le (s.apply n) (s'.apply n')
        rwa [natAbs_apply, natAbs_apply] at habs
      have hlogsum := log2_le_of_le hsum
      unfold totalExponent at htotal htotal'
      have hmax : (n + n').log2 ≤ (k - 1 - min e e').toNat + 1 :=
        log2_add_le (by omega) (by omega)
      apply bounded_normalize
      · unfold totalExponent
        omega
      · omega

/-- A divisor of one or more does not do any harm. -/
theorem Bounded.div {s' : UnpackedFloat.Sign} {m' : Nat} {e' : Int} {hpos' : 0 < m'}
    (hu : Bounded k u) (hone : 1 ≤ totalExponent m' e') :
    Bounded (k + 2) (UnpackedFloat.div .binary64 u (.finite s' m' e' hpos')) := by
  rcases hu.zero_or_finite with ⟨s, rfl⟩ | ⟨s, m, e, hpos, rfl, htotal, hexp, hlow⟩
  · trivial
  · -- the exponent to which core brings the quotient, so that it has bits enough
    obtain ⟨t, ht⟩ : ∃ t, t = min (e - e')
      (max (totalExponent m e - totalExponent m' e' - 53) (-1074)) := ⟨_, rfl⟩
    have hmul := log2_mul_two_pow_le m (e - e' - t).toNat
    have hlog : (m * 2 ^ (e - e' - t).toNat / m').log2
        ≤ (m * 2 ^ (e - e' - t).toNat).log2 - m'.log2 + 1 := log2_div_le hpos'.ne'
    have hdiv : Bounded (k + 1 + 1) (roundWithAccuracy .binary64 (s / s')
        (m * 2 ^ (e - e' - t).toNat / m') t
        (accuracyOfFraction (m * 2 ^ (e - e' - t).toNat % m') m')) := by
      unfold totalExponent at *
      apply bounded_roundWithAccuracy
      · unfold totalExponent
        omega
      · omega
    rw [← Nat.shiftLeft_eq, ht] at hdiv
    exact hdiv

-- ========================================================= packed and unpacked

/-- A number taken apart as `± m * 2 ^ e`. -/
def Unpacks (m : Nat) (e : Int) : UnpackedFloat → Prop
  | .zero _ => m = 0
  | .finite _ m' e' _ => m' = m ∧ e' = e
  | _ => False

theorem significand_eq (n : Nat) :
    double.significand n = if n < 2 ^ 52 then n else 2 ^ 52 + n % 2 ^ 52 := rfl

theorem scale_eq (n : Nat) : double.scale n = n / 2 ^ 52 - 1 := rfl

/-- Core takes a finite double apart into the significand and the exponent of its place. -/
theorem unpacks_of_isFinite (h : x.isFinite = true) :
    Unpacks (double.significand (placeOf x)) (double.scale (placeOf x) - 1074)
      x.toModel.unpack := by
  have hlt : placeOf x < 2047 * 2 ^ 52 := isFinite_iff.mp h
  have hfields := placeOf_eq_fields x
  have hm : (@unpackMantissa .binary64 x.toBits.toBitVec).toNat < 2 ^ 52 := BitVec.isLt _
  have hsignificand := significand_eq (placeOf x)
  have hscale := scale_eq (placeOf x)
  have hbias : Format.binary64.exponentBias = 1023 := rfl
  have hunpack : x.toModel.unpack = UnpackedFloat.unpack .binary64 x.toBits.toBitVec := rfl
  rw [hunpack]
  simp only [UnpackedFloat.unpack, hbias]
  split
  case isTrue hones =>
    rw [← BitVec.toNat_inj] at hones
    have hfull : (-1#11).toNat = 2047 := rfl
    omega
  case isFalse =>
    split
    case isTrue hzero =>
      rw [← BitVec.toNat_inj] at hzero
      have hnone : (0#11).toNat = 0 := rfl
      rw [if_pos (by omega)] at hsignificand
      split
      case isTrue hempty =>
        rw [← BitVec.toNat_inj] at hempty
        have hnone : (0#52).toNat = 0 := rfl
        show double.significand (placeOf x) = 0
        omega
      case isFalse => exact ⟨by omega, by omega⟩
    case isFalse hzero =>
      rw [← BitVec.toNat_inj] at hzero
      have hnone : (0#11).toNat = 0 := rfl
      rw [if_neg (by omega)] at hsignificand
      have happend : (1#1 ++ @unpackMantissa .binary64 x.toBits.toBitVec).toNat
          = 2 ^ 52 + (@unpackMantissa .binary64 x.toBits.toBitVec).toNat := by
        rw [BitVec.toNat_append, ← Nat.shiftLeft_add_eq_or_of_lt hm]
        rfl
      exact ⟨by omega, by omega⟩

/-- A double below `2 ^ k` in magnitude. -/
def Below (k : Nat) (x : Float) : Prop := placeOf x < (k + 1023) * 2 ^ 52

theorem Below.mono (h : Below k x) (hkj : k ≤ j) : Below j x :=
  Nat.lt_of_lt_of_le h (Nat.mul_le_mul_right _ (Nat.add_le_add_right hkj _))

theorem Below.isFinite (h : Below k x) (hk : k ≤ 1024) : x.isFinite = true := by
  rw [isFinite_iff]
  apply Nat.lt_of_lt_of_le h
  show (k + 1023) * 2 ^ 52 ≤ 2047 * 2 ^ 52
  omega

theorem Below.bounded (h : Below k x) (hk : k ≤ 1024) : Bounded k x.toModel.unpack := by
  have hparts := unpacks_of_isFinite (h.isFinite hk)
  have hsignificand := significand_eq (placeOf x)
  have hscale := scale_eq (placeOf x)
  unfold Below at h
  cases hu : x.toModel.unpack with
  | zero s => trivial
  | notANumber => rw [hu] at hparts; exact hparts.elim
  | infinity s => rw [hu] at hparts; exact hparts.elim
  | finite s m e hpos =>
      rw [hu] at hparts
      obtain ⟨rfl, rfl⟩ := hparts
      refine ⟨?_, by omega, by omega⟩
      unfold totalExponent
      by_cases hsub : placeOf x < 2 ^ 52
      · rw [if_pos hsub] at hsignificand
        have hlog : (double.significand (placeOf x)).log2 ≤ 51 := log2_le_of_lt (by omega)
        omega
      · rw [if_neg hsub] at hsignificand
        have hlog : (double.significand (placeOf x)).log2 ≤ 52 := log2_le_of_lt (by omega)
        omega

theorem Bounded.below (h : Bounded k u) (hk : k ≤ 1024) : Below k (.ofModel (.pack u)) := by
  have hfields : placeOf (.ofModel (.pack u))
      = (unpackExponent (UnpackedFloat.pack .binary64 u)).toNat * 2 ^ 52
        + (unpackMantissa (UnpackedFloat.pack .binary64 u)).toNat := placeOf_eq_fields _
  have hbias : Format.binary64.exponentBias = 1023 := rfl
  have hbits : Format.binary64.mantissaBits = 53 := rfl
  unfold Below
  rw [hfields]
  rcases h.zero_or_finite with ⟨s, rfl⟩ | ⟨s, m, e, hpos, rfl, htotal, hexp, hlow⟩
  · simp only [UnpackedFloat.pack, packedZero, unpackExponent_packComponents,
      unpackMantissa_packComponents]
    show 0 * 2 ^ 52 + 0 < _
    omega
  · unfold totalExponent at htotal
    simp only [UnpackedFloat.pack, hbias, hbits]
    split
    case isTrue => omega
    case isFalse =>
      split
      all_goals
        simp only [unpackExponent_packComponents, unpackMantissa_packComponents,
          BitVec.toNat_ofNat]
        omega

-- ================================================================= doubles

theorem Below.mul (hx : Below k x) (hy : Below j y) (hkj : k + j + 1 ≤ 1024) :
    Below (k + j + 1) (x * y) :=
  ((hx.bounded (by omega)).mul (hy.bounded (by omega))).below hkj

theorem Below.add (hx : Below k x) (hy : Below k y) (hk : k + 2 ≤ 1024) : Below (k + 2) (x + y) :=
  ((hx.bounded (by omega)).add (hy.bounded (by omega))).below hk

/-- Division by a double that is one or more. -/
theorem Below.div (hx : Below k x) (hk : k + 2 ≤ 1024) (hy : y.isFinite = true)
    (hone : 1023 * 2 ^ 52 ≤ placeOf y) : Below (k + 2) (x / y) := by
  have hparts := unpacks_of_isFinite hy
  have hsignificand := significand_eq (placeOf y)
  have hscale := scale_eq (placeOf y)
  rw [if_neg (by omega)] at hsignificand
  have hdiv : ∀ v, Unpacks (double.significand (placeOf y)) (double.scale (placeOf y) - 1074) v →
      Bounded (k + 2) (UnpackedFloat.div .binary64 x.toModel.unpack v) := by
    intro v hv
    cases v with
    | infinity s => exact hv.elim
    | notANumber => exact hv.elim
    | zero s =>
        have hzero : double.significand (placeOf y) = 0 := hv
        omega
    | finite s m e hpos =>
        obtain ⟨rfl, rfl⟩ := hv
        apply (hx.bounded (by omega)).div
        have hlog : 52 ≤ (double.significand (placeOf y)).log2 := by
          rw [Nat.le_log2 hpos.ne']
          omega
        unfold totalExponent
        omega
  exact (hdiv _ hparts).below hk

/-- The double nearest to a quotient below `2 ^ k`, which may be `2 ^ k` itself. -/
theorem below_nearest (negative : Bool) {num den : Nat} (hden : den ≠ 0) (h : num < 2 ^ k * den) :
    Below (k + 1) (nearest negative num den) := by
  have hle := place_le hden h
  unfold Below
  rw [nearest, placeOf_ofPlace negative (place_le_infinity num den)]
  omega

/-- A double rounded to a whole number is below what it was below, or below `2 ^ 55`. -/
theorem Below.roundWhole (h : Below k x) (hk : k ≤ 1024) (hk55 : 55 ≤ k) :
    Below k (roundWhole x) := by
  obtain ⟨negative, m, q, hparts, hm, -⟩ := parts_of_isFinite (h.isFinite hk)
  unfold Number.roundWhole
  rw [hparts]
  simp only
  split
  case isTrue => exact h
  case isFalse =>
    have hround : Number.roundDiv .away m (Nat.pow 2 (-q).toNat) ≤ m + 1 := by
      have hdiv : m / Nat.pow 2 (-q).toNat ≤ m := Nat.div_le_self ..
      rcases roundDiv_eq_or .away m (Nat.pow 2 (-q).toNat) with hround | hround
      · omega
      · omega
    apply (below_nearest negative one_ne_zero _).mono hk55
    omega

end TableCalc.Number
