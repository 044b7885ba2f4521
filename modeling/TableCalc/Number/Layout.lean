/-
How a double is written: its shortest digits, laid out with a point or with an exponent. A layout
is data, so each place that writes numbers states its own rules in one value, and the code that
follows them is written once.
-/

import TableCalc.Number.Shortest

namespace TableCalc.Number

-- ================================================================= digits

/-- The decimal digits of a natural number, most significant first. -/
def digitsOf (n : Nat) : List Char := Nat.toDigits 10 n

/-- The digits `ds` with a decimal point before the last `places` of them. Zeros fill the places
that the digits do not reach, and at least one digit stands before the point. -/
def withPoint (ds : List Char) (places : Nat) : List Char :=
  let padded := List.replicate (places + 1 - ds.length) '0' ++ ds
  let whole := padded.take (padded.length - places)
  let fraction := padded.drop (padded.length - places)
  whole ++ '.' :: fraction

-- ================================================================ layouts

/-- The rules by which one kind of output writes a double. -/
structure Layout where
  /-- Which of two equally near shortest decimals is written. -/
  tie : Tie
  /-- The exponents (of the first digit) that are written out with a point, as a lower bound and
  an excluded upper bound; `none` if all are. -/
  plain : Option (Int × Int)
  /-- Whether a whole number still has a place after the point. -/
  pointed : Bool
  deriving DecidableEq, Repr

/-- A decimal written out in full. -/
def Decimal.plain (pointed : Bool) (d : Decimal) : List Char :=
  let ds := digitsOf d.digits
  if d.exponent < 0 then withPoint ds (-d.exponent).toNat
  else ds ++ List.replicate d.exponent.toNat '0' ++ if pointed then ['.', '0'] else []

/-- A decimal with one digit before the point and an exponent, whose sign is always shown. -/
def Decimal.scientific (d : Decimal) (exponent : Int) : List Char :=
  let ds := digitsOf d.digits
  let mantissa := ds.take 1 ++ if ds.length ≤ 1 then [] else '.' :: ds.drop 1
  mantissa ++ 'e' :: (if exponent < 0 then '-' else '+') :: digitsOf exponent.natAbs

/-- The exponent of a decimal's first digit. -/
def Decimal.leading (d : Decimal) : Int := d.exponent + (digitsOf d.digits).length - 1

/-- A decimal by the rules of a layout. -/
def Layout.decimal (l : Layout) (d : Decimal) : List Char :=
  match l.plain with
  | none => d.plain l.pointed
  | some (low, high) =>
    if low ≤ d.leading ∧ d.leading < high then d.plain l.pointed else d.scientific d.leading

/-- The sign of a number that has one. -/
def sign (negative : Bool) : List Char := if negative then ['-'] else []

/-- A double by the rules of a layout. A zero keeps its sign. -/
def Layout.render (l : Layout) (x : Float) : List Char :=
  match parts x with
  | .nan => ['N', 'a', 'N']
  | .infinite negative => sign negative ++ ['i', 'n', 'f']
  | .finite negative m q =>
    sign negative ++ if m = 0 then (Decimal.mk 0 0).plain l.pointed
      else l.decimal (shortest l.tie m q)

/-- The layout of numbers in data files: a whole number still shows a place after the point, and
beyond sixteen digits before the point or five zeros after it an exponent takes over. -/
def dataLayout : Layout := ⟨.toEven, some (-5, 16), true⟩

/-- The layout of results on the page: always written out in full, a whole number without a
point. -/
def pageLayout : Layout := ⟨.away, none, false⟩

end TableCalc.Number
