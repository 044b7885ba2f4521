/-
A fraction of `2 ^ 53` as core computes it: the numerator and the denominator are each turned into a
double, and one double is divided by the other. For a numerator of up to 53 bits nothing is rounded
on the way, so the outcome is the double nearest to the fraction (`toFloat_div_two_pow`).

Core computes on numbers taken apart. All those that occur here are canonical, and core takes the
double at their place apart into just them (`Canonical.unpack_ofPlace`), as it packs them into that
double (`Canonical.ofModel_pack`). In between it rounds, which on a significand with some zeros
behind it is to drop the zeros (`roundWithAccuracy_zeros`).
-/

import Mathlib
import TableCalc.Proofs.Number.Value

namespace TableCalc.Number

open Float.Model
open UnpackedFloat hiding mul add div pack unpack round normalize

variable {m n a : ℕ} {q e : ℤ} {s : UnpackedFloat.Sign} {x : UInt64}

-- ========================================================= packed and unpacked

/-- What core takes apart as a finite number has the sign of the word. -/
theorem sign_unpack {b : BitVec Format.binary64.numBits} {hm : 0 < m}
    (h : UnpackedFloat.unpack _ b = .finite s m e hm) : s = Sign.ofBitVec (unpackSign b) := by
  simp only [UnpackedFloat.unpack] at h
  split at h
  case isTrue => split at h <;> cases h
  case isFalse =>
    split at h
    case isTrue =>
      split at h
      case isTrue => cases h
      case isFalse => cases h; rfl
    case isFalse => cases h; rfl

theorem unpackSign_ofPlace (hn : n < double.infinity) :
    @unpackSign .binary64 (ofPlace false n).toBits.toBitVec = 0#1 := by
  have hlt : n < 2047 * 2 ^ 52 := hn
  have hword : (ofPlace false n).toBits.toNat = 0 + n := toNat_toBits_ofPlace false hn.le
  rw [unpackSign_def, ← BitVec.toNat_inj, BitVec.extractLsb'_toNat]
  show (ofPlace false n).toBits.toNat >>> 63 % 2 ^ 1 = 0
  rw [hword, Nat.shiftRight_eq_div_pow]
  omega

/-- Core takes the double at a place apart into the number of the place. -/
theorem Canonical.unpack_ofPlace (h : Canonical m q) :
    (ofPlace false (placeAt m q)).toModel.unpack = .finite .positive m q h.pos := by
  have hplace := placeOf_ofPlace false h.placeAt_lt.le
  have hparts := unpacks_of_isFinite (isFinite_iff.mpr (hplace.trans_lt h.placeAt_lt))
  rw [hplace, h.significand_placeAt, h.scale_placeAt] at hparts
  cases hunpack : (ofPlace false (placeAt m q)).toModel.unpack with
  | infinity s => rw [hunpack] at hparts; exact hparts.elim
  | notANumber => rw [hunpack] at hparts; exact hparts.elim
  | zero s => rw [hunpack] at hparts; exact absurd hparts h.pos.ne'
  | finite s m' e hpos =>
      have hsign : s = .positive :=
        (sign_unpack hunpack).trans (congrArg Sign.ofBitVec (unpackSign_ofPlace h.placeAt_lt))
      rw [hunpack] at hparts
      obtain ⟨rfl, rfl⟩ := hparts
      rw [hsign]

theorem ofModel_pack_unpack (x : Float) : .ofModel (.pack x.toModel.unpack) = x := by
  obtain ⟨⟨bits, hvalid⟩⟩ := x
  have hbits : UnpackedFloat.pack .binary64 (UnpackedFloat.unpack .binary64 bits.toBitVec)
      = bits.toBitVec := pack_unpack_of_valid hvalid
  simp only [Float.Model.pack, Float.Model.unpack, hbits]

/-- Core packs a number into the double at its place. -/
theorem Canonical.ofModel_pack (h : Canonical m q) :
    Float.ofModel (.pack (.finite .positive m q h.pos)) = ofPlace false (placeAt m q) := by
  rw [← h.unpack_ofPlace, ofModel_pack_unpack]

-- ================================================================ rounding

/-- Zeros are shifted out without a trace. -/
theorem shiftRight_zeros (m a : ℕ) :
    ExtendedMantissa.mk (m * 2 ^ a) false false >>> a = ⟨m, false, false⟩ := by
  induction a generalizing m with
  | zero =>
      rw [Nat.pow_zero, Nat.mul_one]
      rfl
  | succ a ih =>
      have hstep : ExtendedMantissa.mk (m * 2 ^ (a + 1)) false false >>> (a + 1)
          = (ExtendedMantissa.mk (m * 2 ^ (a + 1)) false false >>> a).shiftRightOne := rfl
      have hpow : m * 2 ^ (a + 1) = 2 * m * 2 ^ a := by ring
      rw [hstep, hpow, ih, ExtendedMantissa.shiftRightOne]
      simp

/-- The shift that rounding begins with drops the zeros behind 53 bits. -/
theorem shiftToTargetExponent_zeros (h : Canonical m q) (hlog : m.log2 = 52) (hq : e + a = q) :
    shiftToTargetExponent .binary64 (m * 2 ^ a) e .exact = (⟨m, false, false⟩, q) := by
  have hlow := h.low
  have htarget : Format.binary64.targetExponent (totalExponent (m * 2 ^ a) e) = q := by
    rw [totalExponent, log2_mul_two_pow h.pos, hlog]
    show max (((52 + a : ℕ) : ℤ) + 1 + e - 53) (-1074) = q
    omega
  have hshift : (q - e).toNat = a := by omega
  simp only [shiftToTargetExponent, shiftToExponent, htarget, hshift,
    ExtendedMantissa.ofMantissaAndAccuracy, shiftRight_zeros, hq]

/-- Where only zeros follow the 53 bits, rounding drops them and changes nothing else. -/
theorem roundWithAccuracy_zeros (h : Canonical m q) (hlog : m.log2 = 52) (hq : e + a = q) :
    roundWithAccuracy .binary64 s (m * 2 ^ a) e .exact = .finite s m q h.pos := by
  have hfirst := shiftToTargetExponent_zeros h hlog hq
  have hsecond := shiftToTargetExponent_zeros h hlog (Int.add_zero q : q + (0 : ℕ) = q)
  rw [Nat.pow_zero, Nat.mul_one] at hsecond
  have hrounded : (ExtendedMantissa.mk m false false).roundedMantissa = m := rfl
  simp only [roundWithAccuracy, hfirst, hrounded, hsecond, dif_neg h.pos.ne']

-- ============================================================== operations

/-- A word of up to 53 bits is turned into the double that is the same number. -/
theorem toFloat_eq (hx : 0 < x.toNat) (ha : x.toNat.log2 + a = 52) :
    x.toFloat = ofPlace false (placeAt (x.toNat * 2 ^ a) (-a)) := by
  have h : Canonical (x.toNat * 2 ^ a) (-a) :=
    .of_log2 hx ha.le (by omega) (by omega) (.inl ha)
  have hlog : (x.toNat * 2 ^ a).log2 = 52 := (log2_mul_two_pow hx a).trans ha
  have htarget : Format.binary64.targetExponent (totalExponent x.toNat 0) = -a := by
    show max ((x.toNat.log2 : ℤ) + 1 + 0 - 53) (-1074) = -a
    omega
  have hshift : (0 - -(a : ℤ)).toNat = a := by omega
  have hround : UnpackedFloat.round .binary64 .positive x.toNat 0
      = .finite .positive (x.toNat * 2 ^ a) (-a) h.pos := by
    have hexact := roundWithAccuracy_zeros (s := .positive) h hlog
      (by rw [Nat.cast_zero, zero_sub, add_zero] : 0 - (a : ℤ) + (0 : ℕ) = -a)
    rw [Nat.pow_zero, Nat.mul_one] at hexact
    simp only [UnpackedFloat.round, htarget, decreaseExponent, hshift, Nat.shiftLeft_eq, hexact]
  have hpositive : compare (x.toNat : ℤ) 0 = .gt := compare_gt_iff_gt.mpr (by omega)
  have hunpacked : UnpackedFloat.ofUInt64 .binary64 x
      = .finite .positive (x.toNat * 2 ^ a) (-a) h.pos := by
    simp only [UnpackedFloat.ofUInt64, UnpackedFloat.ofNat, UnpackedFloat.ofInt,
      UnpackedFloat.normalize, hpositive, Int.toNat_natCast, hround]
  rw [← h.ofModel_pack, ← hunpacked]
  rfl

/-- Dividing a double by `2 ^ k` takes `k` off its exponent, if that leaves room for it. Core's
quotient has one bit too many, which is zero. -/
theorem Canonical.div_two_pow {k : ℤ} (h : Canonical m q) (hlog : m.log2 = 52)
    (hdivisor : Canonical (2 ^ 52) (k - 52)) (hquotient : Canonical m (q - k))
    (hroom : -1074 < q - k) :
    ofPlace false (placeAt m q) / ofPlace false (placeAt (2 ^ 52) (k - 52))
      = ofPlace false (placeAt m (q - k)) := by
  have htarget : min (q - (k - 52)) (Format.binary64.targetExponent
      (totalExponent m q - totalExponent (2 ^ 52) (k - 52))) = q - k - 1 := by
    rw [totalExponent, totalExponent, hlog, Nat.log2_two_pow]
    show min _ (max (((52 : ℕ) : ℤ) + 1 + q - ((52 : ℕ) + 1 + (k - 52)) - 53) (-1074)) = q - k - 1
    omega
  have hshift : (q - (k - 52) - (q - k - 1)).toNat = 53 := by omega
  have hwhole : m * 2 ^ 53 / 2 ^ 52 = m * 2 ^ 1 := by omega
  have hrest : m * 2 ^ 53 % 2 ^ 52 = 0 := by omega
  have hdiv : UnpackedFloat.div .binary64 (.finite .positive m q h.pos)
      (.finite .positive (2 ^ 52) (k - 52) hdivisor.pos)
      = .finite .positive m (q - k) hquotient.pos := by
    simp only [UnpackedFloat.div, divCore, htarget, hshift, Nat.shiftLeft_eq, hwhole, hrest,
      accuracyOfFraction, if_pos]
    exact roundWithAccuracy_zeros hquotient hlog (by omega)
  have hpacked : ∀ x y : Float,
      x / y = .ofModel (.pack (.div .binary64 x.toModel.unpack y.toModel.unpack)) := fun _ _ => rfl
  rw [hpacked, h.unpack_ofPlace, hdivisor.unpack_ofPlace, hdiv, hquotient.ofModel_pack]

/-- A word of up to 53 bits, divided by `2 ^ 53` as doubles are divided. -/
theorem toFloat_div_two_pow (hx : x.toNat < 2 ^ 53) :
    x.toFloat / ((1 : UInt64) <<< 53).toFloat = nearest false x.toNat (Nat.pow 2 53) := by
  -- zero has no canonical form
  rcases Nat.eq_zero_or_pos x.toNat with hzero | hpos
  · obtain rfl : x = 0 := UInt64.toNat_inj.mp hzero
    decide +kernel
  · have hbits : x.toNat.log2 < 53 := (Nat.log2_lt hpos.ne').mpr hx
    obtain ⟨a, ha⟩ : ∃ a, x.toNat.log2 + a = 52 := ⟨52 - x.toNat.log2, by omega⟩
    have hlog : (x.toNat * 2 ^ a).log2 = 52 := (log2_mul_two_pow hpos a).trans ha
    have h : Canonical (x.toNat * 2 ^ a) (-a) :=
      .of_log2 hpos ha.le (by omega) (by omega) (.inl ha)
    have hquotient : Canonical (x.toNat * 2 ^ a) (-a - 53) :=
      .of_log2 hpos ha.le (by omega) (by omega) (.inl ha)
    have hdivisor : Canonical (2 ^ 52) (53 - 52) :=
      ⟨by decide, by decide, by decide, by decide, by decide⟩
    have hone : ((1 : UInt64) <<< 53).toFloat = ofPlace false (placeAt (2 ^ 52) (53 - 52)) := by
      decide +kernel
    have hnumber : (x.toNat : ℚ)
        = (x.toNat * 2 ^ a : ℕ) * 2 ^ (-a - 53 : ℤ) * (Nat.pow 2 53 : ℕ) := by
      rw [zpow_sub₀ two_ne_zero, zpow_neg, zpow_natCast, Nat.pow_eq]
      push_cast
      field_simp
    rw [nearest, hquotient.place_eq (by decide) hnumber, toFloat_eq hpos ha, hone,
      h.div_two_pow hlog hdivisor hquotient (by omega)]

end TableCalc.Number
