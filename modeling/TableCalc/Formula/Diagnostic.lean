/-
What an evaluation has to say besides its numbers. A diagnostic never stops anything and never
changes a number; it is noted, in the order in which the evaluation comes across it. `Noting` is
that activity: a computation which adds to the notes taken so far.
-/

namespace TableCalc

/-- Something questionable in a formula or in the cells it reads. -/
inductive Diagnostic where
  /-- A cell that was to be added up is neither empty nor a number. The row is its position among
  the rows that were selected. -/
  | unreadableCell (row : Nat) (column raw : String)
  | unsupportedComparison (symbol : String)
  | unsupportedAggregation (name : String)
  | unsupportedCombinator (symbol : String)
  /-- A block names a column that the table does not list. -/
  | unknownColumn (column : String)
  deriving DecidableEq, Repr

/-- A diagnostic in words: what was found, and what was done about it. -/
def Diagnostic.text : Diagnostic → String
  | .unreadableCell row column raw =>
    s!"'{raw}' in column '{column}' (matched row {row}) is not a number, counted as 0"
  | .unsupportedComparison symbol => s!"unsupported comparison '{symbol}', no rows match"
  | .unsupportedAggregation name => s!"unsupported aggregation '{name}', value is 0"
  | .unsupportedCombinator symbol => s!"unsupported operator '{symbol}', value passed through"
  | .unknownColumn column => s!"unknown column '{column}'"

-- ================================================================= noting

/-- A computation that takes notes. -/
abbrev Noting := StateM (List Diagnostic)

/-- Notes a diagnostic, after those noted before. -/
def note (d : Diagnostic) : Noting Unit := modify (· ++ [d])

/-- Notes a diagnostic if there is reason to. -/
def noteIf (reason : Bool) (d : Diagnostic) : Noting Unit := if reason then note d else pure ()

end TableCalc
