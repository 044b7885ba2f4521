/-
Tables of text. A row maps column names to raw cells, so rows may be ragged: a cell can be missing,
which is not the same as empty. The order of the columns is the table's own and is kept beside the
rows. Nothing here interprets a cell.
-/

import Std.Data.TreeMap

namespace TableCalc

/-- One row: the raw text of each cell it has, by column name. -/
abbrev Row := Std.TreeMap String String

/-- A table: the columns in the order they are shown, and the rows in the order of the file. -/
structure Table where
  columns : List String := []
  rows : List Row := []

-- ================================================================== rows

/-- The row with the given cells; of two cells under one name the later one stays. -/
def Row.ofFields (fields : List (String × String)) : Row :=
  fields.foldl (fun row field => row.insert field.1 field.2) ∅

namespace Table

-- ========================================================== construction

/-- The table of a list of records. Its columns are the names in the first record, each listed once
where it first occurs; later records may have other cells, which stay in their rows unlisted. -/
def ofRecords (records : List (List (String × String))) : Table where
  columns := match records with
    | [] => []
    | first :: _ => (first.map (·.1)).eraseDups
  rows := records.map Row.ofFields

-- ================================================================ access

/-- The number of rows. -/
def size (t : Table) : Nat := t.rows.length

/-- Whether the table has no rows. -/
def isEmpty (t : Table) : Bool := t.rows.isEmpty

/-- The cell of a row under a column name, if the row exists and has one. -/
def cell? (t : Table) (row : Nat) (column : String) : Option String :=
  t.rows[row]?.bind fun r => r[column]?

/-- Whether a name is listed among the columns. -/
def hasColumn (t : Table) (column : String) : Bool := t.columns.contains column

end Table

end TableCalc
