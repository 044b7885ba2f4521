/-
Which doubles are finite, told from their bits. Without its sign, the word of a double is its place
in the order of the magnitudes; the finite ones come first, infinity is the next place, and the
places after it are not numbers. So what core says of a double by taking its exponent and mantissa
fields apart is one comparison here (`isFinite_iff`, `isInf_iff`), and `ofPlace`, which puts a word
together, makes the double of the place it is given, up to infinity's.
-/

import Mathlib
import TableCalc.Number.Binary

namespace TableCalc.Number

open Float.Model

-- ============================================================== the fields

theorem toNat_unpackExponent (b : BitVec Format.binary64.numBits) :
    (UnpackedFloat.unpackExponent b).toNat = b.toNat / 2 ^ 52 % 2 ^ 11 := by
  rw [UnpackedFloat.unpackExponent_def, BitVec.extractLsb'_toNat, Nat.shiftRight_eq_div_pow]

theorem toNat_unpackMantissa (b : BitVec Format.binary64.numBits) :
    (UnpackedFloat.unpackMantissa b).toNat = b.toNat % 2 ^ 52 := by
  rw [UnpackedFloat.unpackMantissa_def, BitVec.extractLsb'_toNat]
  rfl

theorem unpackExponent_eq_ones {b : BitVec Format.binary64.numBits} :
    UnpackedFloat.unpackExponent b = -1#_ ↔ b.toNat / 2 ^ 52 % 2 ^ 11 = 2047 := by
  rw [← BitVec.toNat_inj, toNat_unpackExponent]
  rfl

theorem unpackMantissa_eq_zero {b : BitVec Format.binary64.numBits} :
    UnpackedFloat.unpackMantissa b = 0#_ ↔ b.toNat % 2 ^ 52 = 0 := by
  rw [← BitVec.toNat_inj, toNat_unpackMantissa]
  rfl

/-- A word is of a finite double unless its exponent field is full. -/
theorem isFinite_unpack {b : BitVec Format.binary64.numBits} :
    (UnpackedFloat.unpack _ b).isFinite = true ↔ b.toNat / 2 ^ 52 % 2 ^ 11 ≠ 2047 := by
  rw [ne_eq, ← unpackExponent_eq_ones]
  simp only [UnpackedFloat.unpack]
  split
  case isTrue hones =>
    split
    case isTrue => exact iff_of_false nofun (not_not.mpr hones)
    case isFalse => exact iff_of_false nofun (not_not.mpr hones)
  case isFalse hones =>
    split
    case isTrue =>
      split
      case isTrue => exact iff_of_true rfl hones
      case isFalse => exact iff_of_true rfl hones
    case isFalse => exact iff_of_true rfl hones

/-- A word is of an infinity when its exponent field is full and its mantissa field empty. -/
theorem isInf_unpack {b : BitVec Format.binary64.numBits} :
    (UnpackedFloat.unpack _ b).isInf = true ↔
      b.toNat / 2 ^ 52 % 2 ^ 11 = 2047 ∧ b.toNat % 2 ^ 52 = 0 := by
  rw [← unpackExponent_eq_ones, ← unpackMantissa_eq_zero]
  simp only [UnpackedFloat.unpack]
  split
  case isTrue hones =>
    split
    case isTrue hzero => exact iff_of_true rfl ⟨hones, hzero⟩
    case isFalse hzero => exact iff_of_false nofun fun h => hzero h.2
  case isFalse hones =>
    split
    case isTrue =>
      split
      case isTrue => exact iff_of_false nofun fun h => hones h.1
      case isFalse => exact iff_of_false nofun fun h => hones h.1
    case isFalse => exact iff_of_false nofun fun h => hones h.1

-- ============================================================== the places

/-- The place of a double in the order of magnitudes: its word without the sign. -/
def placeOf (x : Float) : Nat := x.toBits.toNat % Nat.pow 2 63

theorem infinity_eq : double.infinity = 2047 * 2 ^ 52 := rfl

/-- A place is made of the exponent field and the mantissa field. -/
theorem placeOf_eq_fields (x : Float) : placeOf x =
    (@UnpackedFloat.unpackExponent .binary64 x.toBits.toBitVec).toNat * 2 ^ 52
      + (@UnpackedFloat.unpackMantissa .binary64 x.toBits.toBitVec).toNat := by
  have hplace : placeOf x = x.toBits.toNat % 2 ^ 63 := rfl
  have hword : @BitVec.toNat Format.binary64.numBits x.toBits.toBitVec = x.toBits.toNat := rfl
  rw [toNat_unpackExponent, toNat_unpackMantissa, hplace, hword]
  omega

/-- The finite doubles come before infinity. -/
theorem isFinite_iff {x : Float} : x.isFinite = true ↔ placeOf x < double.infinity := by
  have hfields : x.isFinite = true ↔ x.toBits.toNat / 2 ^ 52 % 2 ^ 11 ≠ 2047 := isFinite_unpack
  have hlt : x.toBits.toNat < 2 ^ 64 := x.toBits.toNat_lt
  have hplace : placeOf x = x.toBits.toNat % 2 ^ 63 := rfl
  rw [hfields, hplace, infinity_eq]
  omega

theorem isInf_iff {x : Float} : x.isInf = true ↔ placeOf x = double.infinity := by
  have hfields : x.isInf = true ↔
      x.toBits.toNat / 2 ^ 52 % 2 ^ 11 = 2047 ∧ x.toBits.toNat % 2 ^ 52 = 0 := isInf_unpack
  have hlt : x.toBits.toNat < 2 ^ 64 := x.toBits.toNat_lt
  have hplace : placeOf x = x.toBits.toNat % 2 ^ 63 := rfl
  rw [hfields, hplace, infinity_eq]
  omega

/-- What is finite or infinite is a number. -/
theorem isNaN_eq_false {x : Float} (h : x.isFinite = true ∨ x.isInf = true) : x.isNaN = false := by
  have hunpacked : ∀ u : UnpackedFloat, u.isFinite = true ∨ u.isInf = true → u.isNaN = false := by
    intro u hu
    cases u with
    | notANumber => rcases hu with hu | hu <;> cases hu
    | infinity sign => rfl
    | zero sign => rfl
    | finite sign m e hm => rfl
  exact hunpacked _ h

/-- Up to infinity's place a word is kept as it is: no other word stands for the same double. -/
theorem toBits_ofBits {w : UInt64} (h : w.toNat % Nat.pow 2 63 ≤ double.infinity) :
    (Float.ofBits w).toBits = w := by
  have hle : w.toNat % 2 ^ 63 ≤ 2047 * 2 ^ 52 := h
  have hnan : @UnpackedFloat.isNaNBits .binary64 w.toBitVec = false := by
    rw [UnpackedFloat.isNaNBits, decide_eq_false_iff_not, unpackExponent_eq_ones, ne_eq,
      unpackMantissa_eq_zero, UInt64.toNat_toBitVec]
    omega
  have hpack := @UnpackedFloat.pack_unpack .binary64 w.toBitVec (by decide)
  rw [hnan] at hpack
  exact UInt64.toBitVec_inj.mp hpack

/-- The word of the double at a place is the place, with the sign before it. -/
theorem toNat_toBits_ofPlace (negative : Bool) {n : Nat} (h : n ≤ double.infinity) :
    (ofPlace negative n).toBits.toNat = (if negative then 2 ^ 63 else 0) + n := by
  have hle : n ≤ 2047 * 2 ^ 52 := h
  have hword : (UInt64.ofNat ((if negative then Nat.pow 2 63 else 0) + n)).toNat
      = (if negative then 2 ^ 63 else 0) + n := by
    apply UInt64.toNat_ofNat_of_lt'
    show (if negative then 2 ^ 63 else 0) + n < 2 ^ 64
    split <;> omega
  rw [ofPlace, toBits_ofBits, hword]
  rw [hword]
  show ((if negative then 2 ^ 63 else 0) + n) % 2 ^ 63 ≤ 2047 * 2 ^ 52
  split <;> omega

/-- The double at a place is at that place. -/
theorem placeOf_ofPlace (negative : Bool) {n : Nat} (h : n ≤ double.infinity) :
    placeOf (ofPlace negative n) = n := by
  have hle : n ≤ 2047 * 2 ^ 52 := h
  rw [placeOf, toNat_toBits_ofPlace negative h]
  show ((if negative then 2 ^ 63 else 0) + n) % 2 ^ 63 = n
  split <;> omega

/-- A finite double is taken apart into a significand of 53 bits and an exponent, which has a
greatest value. -/
theorem parts_of_isFinite {x : Float} (h : x.isFinite = true) :
    ∃ negative m q, parts x = .finite negative m q ∧ m < 2 ^ 53 ∧ q ≤ 971 := by
  rw [isFinite_iff] at h
  have hlt : placeOf x < 2047 * 2 ^ 52 := h
  refine ⟨decide (Nat.pow 2 63 ≤ x.toBits.toNat), double.significand (placeOf x),
    (double.scale (placeOf x) : Int) - double.bottom, ?_, ?_, ?_⟩
  · have hplace : x.toBits.toNat % Nat.pow 2 63 = placeOf x := rfl
    simp only [parts, hplace]
    rw [if_neg h.le.not_gt, if_neg h.ne]
  · show (if placeOf x < 2 ^ 52 then placeOf x else 2 ^ 52 + placeOf x % 2 ^ 52) < 2 ^ 53
    split <;> omega
  · show ((placeOf x / 2 ^ 52 - 1 : ℕ) : ℤ) - 1074 ≤ 971
    omega

end TableCalc.Number
