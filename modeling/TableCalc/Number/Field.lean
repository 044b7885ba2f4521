/-
The text of an editable number: one decimal place if that already shows the number, else two, else
three. "Already shows" is judged in single precision, as for anything that is only drawn: the text
read back and the number itself, both rounded to single precision, may differ by a few units in
the last place of the greater one.
-/

import TableCalc.Number.Fixed

namespace TableCalc.Number

-- ====================================================== single precision

/-- The place in single precision of the magnitude `m * 2 ^ q`. -/
def singlePlace (m : Nat) (q : Int) : Nat :=
  single.place (m * Nat.pow 2 q.toNat) (Nat.pow 2 (-q).toNat)

/-- A finite magnitude in single precision, counted in its smallest units, `2 ^ -149`. -/
def singleUnits (n : Nat) : Nat := single.significand n * Nat.pow 2 (single.scale n)

/-- The tolerance: numbers are shown alike when they differ by at most `2 ^ -19` of the greater
one, or are both no greater than `2 ^ -19` itself. Sixteen units in the last place of one are
`2 ^ -19`; in the smallest units of single precision that is `2 ^ 130`. -/
def shownAlike (m n : Nat) : Bool :=
  if m = n then true
  else if m = single.infinity ∨ n = single.infinity then false
  else
    let a := singleUnits m
    let b := singleUnits n
    let difference := max a b - min a b
    max a b ≤ Nat.pow 2 130 || difference * Nat.pow 2 19 ≤ max a b

-- ============================================================== the text

/-- Whether `places` decimals show the magnitude `m * 2 ^ q`. -/
def shows (places m : Nat) (q : Int) : Bool :=
  shownAlike (single.place (scaledTo places m q) (Nat.pow 10 places)) (singlePlace m q)

/-- The number of decimals an editable number is shown with. -/
def fieldPlaces (x : Float) : Nat :=
  match parts x with
  | .finite _ m q => if shows 1 m q then 1 else if shows 2 m q then 2 else 3
  | _ => 1

/-- The text of an editable number. -/
def fieldText (x : Float) : List Char := fixed (fieldPlaces x) x

end TableCalc.Number
