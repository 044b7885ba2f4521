/-
A double written with a fixed number of decimal places. The exact value is rounded, never an
already rounded one, and an exact half goes to the even neighbour. The sign is kept even where
every digit is zero.
-/

import TableCalc.Number.Layout

namespace TableCalc.Number

/-- The magnitude `m * 2 ^ q` in units of `10 ^ -places`, rounded to a whole number. -/
def scaledTo (places m : Nat) (q : Int) : Nat :=
  roundDiv .toEven (m * Nat.pow 2 q.toNat * Nat.pow 10 places) (Nat.pow 2 (-q).toNat)

/-- A number of units of `10 ^ -places`, written with that many places. -/
def fixedUnits (places units : Nat) : List Char :=
  if places = 0 then digitsOf units else withPoint (digitsOf units) places

/-- A double with `places` decimal places. -/
def fixed (places : Nat) (x : Float) : List Char :=
  match parts x with
  | .nan => ['N', 'a', 'N']
  | .infinite negative => sign negative ++ ['i', 'n', 'f']
  | .finite negative m q => sign negative ++ fixedUnits places (scaledTo places m q)

end TableCalc.Number
