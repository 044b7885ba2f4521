/-
Reducing a column of some rows to one number. Every row counts: a cell that is missing, empty or
not a number adds zero and still counts as one in an average. Cells that are neither empty nor a
number are noted, and so is an aggregation that is not known, whose value is zero.

The sum starts from minus zero, the neutral element of addition: the sum of cells that all hold
minus zero is minus zero again, and so is the sum of no rows.
-/

import TableCalc.Cell
import TableCalc.Formula.Diagnostic
import TableCalc.Table.Basic

namespace TableCalc

-- =========================================================== aggregations

/-- How a column is reduced. -/
inductive Aggregation where
  | sum
  | average
  /-- A name that names no aggregation. -/
  | unsupported (name : String)
  deriving DecidableEq, Repr, Inhabited

namespace Aggregation

/-- The aggregations there are. -/
def all : List Aggregation := [.sum, .average]

/-- The name of an aggregation. -/
def name : Aggregation → String
  | .sum => "sum"
  | .average => "average"
  | .unsupported s => s

/-- The aggregation that a name means; the average has a short name too. -/
def ofName (s : String) : Aggregation :=
  if s = "sum" then .sum
  else if s = "average" ∨ s = "avg" then .average
  else .unsupported s

end Aggregation

-- ============================================================== reduction

/-- Reads one cell, the one of the row at a position; a missing cell is as good as an empty one. -/
def readCell (column : String) (position : Nat) (row : Row) : Noting Float := do
  let raw := row[column]?.getD ""
  noteIf (raw ≠ "" && (Cell.number? raw).isNone) (.unreadableCell position column raw)
  return Cell.numberOrZero raw

/-- Adds up a column from left to right. `position` is the position of the first row, and `sum` the
sum before it. -/
def addUp (column : String) (position : Nat) (sum : Float) : List Row → Noting Float
  | [] => pure sum
  | row :: rest => do
    let x ← readCell column position row
    addUp column (position + 1) (sum + x) rest

/-- The value of a column over some rows. The average of no rows is zero. -/
def aggregate (column : String) (how : Aggregation) (rows : List Row) : Noting Float := do
  let total ← addUp column 0 (-0.0) rows
  match how with
  | .sum => return total
  | .average => return if rows.isEmpty then 0.0 else total / rows.length.toFloat
  | .unsupported name => do
    note (.unsupportedAggregation name)
    return 0.0

end TableCalc
