/-
What a table's columns hold. A column is numeric when every row has a cell under it that is fit
for a number column; otherwise it is text, and its distinct cells are listed for choosing from.
-/

import TableCalc.Cell
import TableCalc.Table.Basic

namespace TableCalc

/-- The kind of a column. -/
inductive ColumnKind where
  | number
  | text
  deriving DecidableEq, Repr

/-- The name of a kind. -/
def ColumnKind.name : ColumnKind → String
  | .number => "number"
  | .text => "text"

namespace Table

/-- The cells that the rows have under a column, from the first row to the last. -/
def cellsOf (t : Table) (column : String) : List String :=
  t.rows.filterMap fun row => row[column]?

/-- The kind of a column. A row without the cell makes the column text, as an unreadable cell
does. -/
def kindOf (t : Table) (column : String) : ColumnKind :=
  if t.rows.all fun row => row[column]?.any Cell.isNumeric then .number else .text

end Table

-- =============================================================== profiles

/-- A map that gives each listed name its value. -/
def tabulate {β : Type} (names : List String) (value : String → β) : Std.TreeMap String β :=
  names.foldl (fun m name => m.insert name (value name)) ∅

/-- What is known of a table's columns: the kind of each, and for each text column its distinct
cells in the order in which they first occur. -/
structure Profile where
  kinds : Std.TreeMap String ColumnKind := ∅
  choices : Std.TreeMap String (List String) := ∅

namespace Profile

/-- The profile of a table. -/
def ofTable (t : Table) : Profile where
  kinds := tabulate t.columns t.kindOf
  choices := tabulate (t.columns.filter fun c => t.kindOf c = .text) fun c =>
    (t.cellsOf c).eraseDups

/-- The kind of a column, if the column is known. -/
def kind? (p : Profile) (column : String) : Option ColumnKind := p.kinds[column]?

/-- Whether a column is known and numeric. -/
def isNumber (p : Profile) (column : String) : Bool := p.kind? column = some .number

/-- Whether a column is known and text. -/
def isText (p : Profile) (column : String) : Bool := p.kind? column = some .text

/-- The cells to choose from in a column: none unless it is a text column. -/
def distinct (p : Profile) (column : String) : List String := (p.choices[column]?).getD []

end Profile

end TableCalc
