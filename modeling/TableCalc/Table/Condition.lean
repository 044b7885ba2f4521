/-
Conditions on rows: a column, a comparison and a value to compare with. Equality is loose, by
number where both sides are numbers and by text otherwise; the orderings read both sides leniently
and hold of nothing that is not a number. A comparison that is not known holds of no row, so that
a misspelt condition selects too little and never too much.
-/

import TableCalc.Cell
import TableCalc.Table.Basic

namespace TableCalc

-- =========================================================== comparisons

/-- How a cell is compared with a condition's value. -/
inductive Comparison where
  | equal
  | notEqual
  | greater
  | less
  /-- A symbol that names no comparison. -/
  | unsupported (symbol : String)
  deriving DecidableEq, Repr, Inhabited

namespace Comparison

/-- The comparisons that make sense on text. -/
def onText : List Comparison := [.equal, .notEqual]

/-- The comparisons that make sense on numbers. -/
def onNumbers : List Comparison := [.equal, .notEqual, .greater, .less]

/-- The symbol of a comparison. -/
def symbol : Comparison → String
  | .equal => "=="
  | .notEqual => "!="
  | .greater => ">"
  | .less => "<"
  | .unsupported s => s

/-- The comparison that a symbol names. -/
def ofSymbol (s : String) : Comparison :=
  if s = "==" then .equal
  else if s = "!=" then .notEqual
  else if s = ">" then .greater
  else if s = "<" then .less
  else .unsupported s

end Comparison

-- ============================================================ conditions

/-- A condition on rows. The empty one has no column and no value, and compares for equality. -/
structure Condition where
  column : String := ""
  comparison : Comparison := .equal
  value : String := ""
  deriving DecidableEq, Repr

/-- Loose equality: by number if both texts are numbers as a whole, and by text otherwise. -/
def looselyEqual (a b : String) : Bool :=
  match Cell.wholeNumber? a, Cell.wholeNumber? b with
  | some x, some y => x == y
  | _, _ => a == b

/-- Whether two cells, read leniently, are both numbers in the given relation. -/
def numbersRelate (relation : Float → Float → Bool) (cell : Option String) (value : String) :
    Bool :=
  match cell.bind Cell.number?, Cell.number? value with
  | some x, some y => relation x y
  | _, _ => false

/-- Whether a row satisfies a condition. A missing cell equals nothing, not even empty text. -/
def Condition.holds (c : Condition) (row : Row) : Bool :=
  let cell := row[c.column]?
  let equal := cell.any (looselyEqual · c.value)
  match c.comparison with
  | .equal => equal
  | .notEqual => !equal
  | .greater => numbersRelate (fun x y => x > y) cell c.value
  | .less => numbersRelate (fun x y => x < y) cell c.value
  | .unsupported _ => false

/-- The rows that satisfy a condition, in the order of the table. -/
def Table.select (t : Table) (c : Condition) : List Row := t.rows.filter c.holds

end TableCalc
