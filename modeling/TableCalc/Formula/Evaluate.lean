/-
Evaluating a formula on a table: each block to a number, the numbers joined from left to right, and
the diagnostics in the order in which they arise, those of the blocks before those of the
combinators.
-/

import TableCalc.Formula.Basic

namespace TableCalc

/-- What an evaluation yields: a value for each block, the joined result unless there are no blocks,
and the diagnostics. -/
structure Outcome where
  interim : List Float := []
  result : Option Float := none
  diagnostics : List Diagnostic := []
  deriving DecidableEq

-- ================================================================= blocks

/-- Notes a comparison that is not known. -/
def Comparison.check : Comparison → Noting Unit
  | .unsupported symbol => note (.unsupportedComparison symbol)
  | _ => pure ()

/-- Notes a combinator that is not known. -/
def Combinator.check : Combinator → Noting Unit
  | .unsupported symbol => note (.unsupportedCombinator symbol)
  | _ => pure ()

/-- Notes a column that a table with rows does not list. -/
def Table.checkColumn (t : Table) (column : String) : Noting Unit :=
  noteIf (!t.isEmpty && !t.hasColumn column) (.unknownColumn column)

/-- The value of a block. -/
def Block.evaluate (t : Table) : Block → Noting Float
  | .constant value => pure value
  | .conditional condition target how => do
    condition.comparison.check
    t.checkColumn condition.column
    t.checkColumn target
    aggregate target how (t.select condition)

-- =============================================================== formulas

/-- The value of a formula. -/
def Formula.evaluate (t : Table) (f : Formula) : Outcome :=
  let work : Noting (List Float) := do
    let interim ← f.blocks.mapM (Block.evaluate t)
    f.combinators.forM Combinator.check
    return interim
  let (interim, diagnostics) := work.run []
  { interim, result := join interim f.combinators, diagnostics }

end TableCalc
