/-
Binary floating-point numbers as exact integers. A finite double is a whole number of units
`2 ^ q`, and its bit pattern without the sign is its place in the order of all magnitudes; both
facts hold of single precision too, so a format is three numbers and the rounding is written once.

`nearest` is the only way this library turns an exact quotient into a double: it computes the
place of the nearest magnitude and never a not-a-number pattern.
-/

import TableCalc.Number.Rounding

namespace TableCalc.Number

-- ================================================================ formats

/-- A binary interchange format: how many significant bits a magnitude has, the exponent of its
smallest unit (negated), and the exponent field of its infinity. -/
structure Format where
  precision : Nat
  bottom : Nat
  top : Nat
  deriving DecidableEq, Repr

/-- Double precision. -/
def double : Format := ⟨53, 1074, 2047⟩

/-- Single precision. -/
def single : Format := ⟨24, 149, 255⟩

namespace Format

/-- The number of magnitudes that share one exponent. -/
def stride (f : Format) : Nat := Nat.pow 2 (f.precision - 1)

/-- The place of infinity: the first one after all finite magnitudes. -/
def infinity (f : Format) : Nat := f.top * f.stride

/-- The place of the magnitude nearest to `num / den`, a tie going to the even place. The unit is
the one that leaves `precision` bits, or the smallest there is; a significand that rounds up to
one bit more lands on the next exponent by itself, since places are consecutive. -/
def place (f : Format) (num den : Nat) : Nat :=
  if num = 0 then 0
  else
    let q : Int := max (binaryExponent num den - (f.precision - 1 : Nat)) (-f.bottom)
    let m := roundDiv .toEven (num * Nat.pow 2 (-q).toNat) (den * Nat.pow 2 q.toNat)
    min ((q + f.bottom).toNat * f.stride + m) f.infinity

/-- The significand of the finite magnitude at place `n`. -/
def significand (f : Format) (n : Nat) : Nat :=
  if n < f.stride then n else f.stride + n % f.stride

/-- The exponent, counted from the smallest unit, of the finite magnitude at place `n`. -/
def scale (f : Format) (n : Nat) : Nat := n / f.stride - 1

end Format

-- ================================================================ doubles

/-- A double, taken apart: not a number, infinite, or exactly `± significand * 2 ^ exponent`. -/
inductive Parts where
  | nan
  | infinite (negative : Bool)
  | finite (negative : Bool) (significand : Nat) (exponent : Int)
  deriving DecidableEq, Repr

/-- Takes a double apart. -/
def parts (x : Float) : Parts :=
  let bits := x.toBits.toNat
  let negative := Nat.pow 2 63 ≤ bits
  let n := bits % Nat.pow 2 63
  if double.infinity < n then .nan
  else if n = double.infinity then .infinite negative
  else .finite negative (double.significand n) ((double.scale n : Int) - double.bottom)

/-- The double with the given sign at the given place. -/
def ofPlace (negative : Bool) (n : Nat) : Float :=
  Float.ofBits (UInt64.ofNat ((if negative then Nat.pow 2 63 else 0) + n))

/-- The double nearest to `± num / den`: infinite where the quotient is beyond the range, and a
zero that keeps its sign where it is below it. -/
def nearest (negative : Bool) (num den : Nat) : Float :=
  ofPlace negative (double.place num den)

/-- Infinity of the given sign. -/
def infinite (negative : Bool) : Float := ofPlace negative double.infinity

/-- The double nearest to `± digits * 10 ^ exponent`. An exponent so large or so small that the
answer is infinity or zero whatever the digits are is settled first, because the power of ten
itself would be out of reach: above `10 ^ 400` everything overflows, and a value below `2 ^ -1080`
is less than half the smallest double (`10 ^ k` is at least `2 ^ (3 * k)`). -/
def nearestDecimal (negative : Bool) (digits : Nat) (exponent : Int) : Float :=
  if digits = 0 then nearest negative 0 1
  else if 400 < exponent then infinite negative
  else if (digits.log2 : Int) + 1 + 1080 < 3 * (-exponent) then nearest negative 0 1
  else nearest negative (digits * Nat.pow 10 exponent.toNat) (Nat.pow 10 (-exponent).toNat)

/-- A double rounded to a whole number, a half going away from zero. From an exponent of zero on
a double is whole already. -/
def roundWhole (x : Float) : Float :=
  match parts x with
  | .finite negative m q =>
    if 0 ≤ q then x else nearest negative (roundDiv .away m (Nat.pow 2 (-q).toNat)) 1
  | _ => x

end TableCalc.Number
