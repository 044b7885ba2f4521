/-
The fewest decimal digits that still name a given double. The reals that round to a finite double
form an interval around it, half a unit to either side, the ends belonging to it exactly when its
significand is even. A decimal with exponent `p` is a point of the grid of multiples of `10 ^ p`,
so the fewest digits come from the coarsest grid with a point in the interval; and if any point of
a grid lies in the interval, so does one of the two around the value itself, which is why only
those two are tested.

Everything is counted in quarters of the double's unit, so that the ends are whole numbers.
-/

import TableCalc.Number.Binary

namespace TableCalc.Number

/-- A positive decimal, `digits * 10 ^ exponent`. -/
structure Decimal where
  digits : Nat
  exponent : Int
  deriving DecidableEq, Repr

-- ============================================================ the interval

/-- The reals that round to a double, in quarters of its unit: the ends, and whether the ends
themselves round to it. -/
structure Interval where
  low : Nat
  high : Nat
  closed : Bool
  deriving DecidableEq, Repr

/-- The rounding interval of `m * 2 ^ q`. Where the significand is a power of two and a smaller
exponent exists, the doubles below are twice as dense, so the lower end is half as far. -/
def Interval.around (m : Nat) (q : Int) : Interval where
  low := if m = double.stride ∧ -double.bottom < q then 4 * m - 1 else 4 * m - 2
  high := 4 * m + 2
  closed := m % 2 == 0

/-- Whether the quotient `num / den` lies in the interval. -/
def Interval.contains (i : Interval) (num den : Nat) : Bool :=
  if i.closed then i.low * den ≤ num && num ≤ i.high * den
  else i.low * den < num && num < i.high * den

-- =============================================================== the grids

/-- The point of the grid `10 ^ p` that reads back as `m * 2 ^ q`: of the two around the value, the
one in the interval, or the nearer one if both are, `tie` deciding between two equally near.
A quarter of the unit is `num / den` steps of the grid. -/
def onGrid (tie : Tie) (m : Nat) (q p : Int) : Option Nat :=
  let num := Nat.pow 2 (q - 2).toNat * Nat.pow 10 (-p).toNat
  let den := Nat.pow 2 (2 - q).toNat * Nat.pow 10 p.toNat
  let interval := Interval.around m q
  let below := 4 * m * num / den
  let above := below + 1
  match interval.contains (below * den) num, interval.contains (above * den) num with
  | true, true => some (roundDiv tie (4 * m * num) den)
  | true, false => some below
  | false, true => some above
  | false, false => none

/-- The exponent of the coarsest grid worth trying: its step is greater than the value, by a factor
below a thousand (`30103 / 100000` is the decimal logarithm of two, rounded up). -/
def coarsestGrid (m : Nat) (q : Int) : Int :=
  (((m.log2 : Int) + q + 1) * 30103).fdiv 100000 + 2

/-- The shortest decimal that reads back as the positive double `m * 2 ^ q`, and of those with as
few digits the nearest. Twenty-two grids reach from above the value down to seventeen digits,
which always suffice; the exact decimal expansion stands in after them, so that the answer names
the double whatever the arguments are. -/
def shortest (tie : Tie) (m : Nat) (q : Int) : Decimal :=
  let found := (List.range 22).findSome? fun (i : Nat) =>
    let p := coarsestGrid m q - i
    (onGrid tie m q p).map fun d => Decimal.mk d p
  found.getD ⟨m * Nat.pow 2 q.toNat * Nat.pow 5 (-q).toNat, min q 0⟩

end TableCalc.Number
