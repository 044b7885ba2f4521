/-
The value of a JSON numeral. Numerals are read fast and not exactly: the digits go into a 64-bit
significand as long as they fit, and one multiplication or division by a power of ten places the
point. A numeral that would be infinite is no number at all. The rounding is therefore the one of
two double operations, which differs from the correctly rounded value in the last place now and
then, and that difference shows in the cells.
-/

import TableCalc.Json.Value
import TableCalc.Number.Numeral

namespace TableCalc.Json

open TableCalc.Number (nearest valueOf)

-- ============================================================ significand

/-- The digits read so far: their value, the power of ten it is to be scaled by, and whether a
digit has already failed to fit. -/
structure Significand where
  value : Nat
  exponent : Int
  full : Bool
  deriving DecidableEq, Repr

/-- The next digit before the point. Once a digit does not fit, it and all later ones only count as
zeros. -/
def Significand.addWhole (s : Significand) (c : Char) : Significand :=
  let value := 10 * s.value + (c.toNat - '0'.toNat)
  if s.full ∨ UInt64.size ≤ value then { s with exponent := s.exponent + 1, full := true }
  else { s with value }

/-- The next digit after the point. Once a digit does not fit, it and all later ones are
dropped. -/
def Significand.addFraction (s : Significand) (c : Char) : Significand :=
  let value := 10 * s.value + (c.toNat - '0'.toNat)
  if s.full ∨ UInt64.size ≤ value then { s with full := true }
  else { s with value, exponent := s.exponent - 1 }

/-- The significand of the digits before the point. -/
def Significand.ofWhole (ds : List Char) : Significand := ds.foldl addWhole ⟨0, 0, false⟩

/-- The significand with the digits after the point added. They start afresh: a digit after the
point may still fit although one before it did not. -/
def Significand.withFraction (s : Significand) (ds : List Char) : Significand :=
  ds.foldl addFraction { s with full := false }

-- ================================================================ scaling

/-- The double nearest to a power of ten. -/
def powerOfTen (k : Nat) : Float := nearest false (Nat.pow 10 k) 1

/-- A significand times a power of ten, in double arithmetic; `none` if it is out of range. The
powers go up to 308. A smaller number than one division reaches takes two; a third would find zero
already. -/
def scaled? (significand : Nat) (exponent : Int) : Option Float :=
  let f := nearest false significand 1
  let k := exponent.natAbs
  if k ≤ 308 then some (if 0 ≤ exponent then f * powerOfTen k else f / powerOfTen k)
  else if significand = 0 then some f
  else if 0 ≤ exponent then none
  else some (f / powerOfTen 308 / powerOfTen (min (k - 308) 308))

-- =============================================================== numerals

/-- A numeral, cut at its marks. -/
structure Numeral where
  negative : Bool
  whole : List Char
  /-- The digits after the point; `none` without a point. -/
  fraction : Option (List Char)
  /-- The sign and the digits of the exponent; `none` without one. -/
  exponent : Option (Bool × List Char)
  deriving DecidableEq, Repr

/-- A double as a number, negated if asked for, unless it is infinite. -/
def real? (negative : Bool) (x : Float) : Option Number :=
  let y := if negative then -x else x
  if h : y.isFinite = true then some (.real y h) else none

/-- A whole numeral: exact if it fits 64 bits, with a sign bit if it is negative, and else a
double. Minus zero is a double, since no whole number is. -/
def wholeNumber? (negative : Bool) (s : Significand) : Option Number :=
  if h : s.value < UInt64.size ∧ s.exponent = 0 ∧ ¬ s.full then
    if negative then
      if s.value = 0 ∨ UInt64.size < 2 * s.value then real? true (nearest false s.value 1)
      else some (.whole (-s.value) (by simpa using h.1))
    else some (.whole s.value (by simpa using h.1))
  else (scaled? s.value s.exponent).bind (real? negative)

/-- The value of a numeral, or `none` if it is out of range. An exponent beyond 31 bits settles the
matter alone: the value is zero, or out of range if it is positive and a digit is not zero. -/
def Numeral.value? (n : Numeral) : Option Number :=
  let whole := Significand.ofWhole n.whole
  let s := match n.fraction with
    | some ds => whole.withFraction ds
    | none => whole
  match n.exponent with
  | none =>
    if n.fraction.isNone then wholeNumber? n.negative whole
    else (scaled? s.value s.exponent).bind (real? n.negative)
  | some (down, ds) =>
    let e := valueOf ds
    if e < Nat.pow 2 31 then
      (scaled? s.value (if down then s.exponent - e else s.exponent + e)).bind (real? n.negative)
    else if s.value ≠ 0 ∧ ¬ down then none
    else real? n.negative (nearest false 0 1)

end TableCalc.Json
