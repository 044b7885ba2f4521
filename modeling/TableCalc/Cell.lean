/-
How the text of a cell is read as a number. There are three readings. The lenient one takes the
numeral that the text begins with and ignores what follows (`12kg` is 12); the strict one wants
the whole text to be a numeral, white space at the ends apart; and a cell is fit for a number
column when it is empty or leniently a finite number.
-/

import TableCalc.Number.Numeral

namespace TableCalc.Cell

open Number

/-- What a cell without a number counts as. -/
def fallback : Float := 0.0

/-- The lenient reading: the number that the text begins with. -/
def number? (raw : String) : Option Float := (Numeral.scan raw.toList).map (·.1.value)

/-- The lenient reading, with zero where there is no number. -/
def numberOrZero (raw : String) : Float := (number? raw).getD fallback

/-- The strict reading: the number that the whole text is, without the white space around it. -/
def wholeNumber? (raw : String) : Option Float :=
  match Numeral.scan (Text.trim raw.toList) with
  | some (n, []) => some n.value
  | _ => none

/-- Whether a cell may stand in a number column. -/
def isNumeric (raw : String) : Bool :=
  raw == "" || match number? raw with
    | some x => x.isFinite
    | none => false

end TableCalc.Cell
