/-
Tables in JSON: an array of objects, one row each. A string is its own cell, `null` is an empty
cell, and any other value is the cell of its compact text, so that a number's cell is a numeral.
-/

import TableCalc.Json.Value
import TableCalc.Table.Basic

namespace TableCalc

/-- Why a JSON value is no table. -/
inductive Json.Misfit where
  /-- The value is not an array. -/
  | notAnArray
  /-- The item at this index, counted from 0, is not an object; no item before it is. -/
  | notAnObject (index : Nat)
  deriving DecidableEq, Repr

namespace Json

/-- The cell of a value. -/
def cell : Json → String
  | .string s => s
  | .null => ""
  | v => String.ofList v.text

/-- The fields of an object's members. -/
def fields (members : List (String × Json)) : List (String × String) :=
  members.map fun m => (m.1, m.2.cell)

/-- The records of an array's items, the first of which has the given index. -/
def recordsFrom (index : Nat) : List Json → Except Misfit (List (List (String × String)))
  | [] => .ok []
  | .object members :: rest => (recordsFrom (index + 1) rest).map (fields members :: ·)
  | _ :: _ => .error (.notAnObject index)

/-- The table of a JSON value. -/
def table : Json → Except Misfit Table
  | .array items => (recordsFrom 0 items).map Table.ofRecords
  | _ => .error .notAnArray

end Json

end TableCalc
