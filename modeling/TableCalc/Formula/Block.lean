/-
Blocks, the units of a formula: a number, or the value of a column over the rows that satisfy a
condition. A patch is a partial update of a block; it may change the block's kind, and whatever
else it holds is then applied to the new kind's empty block.
-/

import TableCalc.Formula.Aggregation
import TableCalc.Formula.Combinator
import TableCalc.Table.Condition

namespace TableCalc

-- ================================================================= blocks

/-- One unit of a formula. -/
inductive Block where
  | constant (value : Float)
  | conditional (condition : Condition) (target : String) (aggregation : Aggregation)
  deriving DecidableEq, Inhabited

/-- The kinds of block. -/
inductive BlockKind where
  | constant
  | conditional
  deriving DecidableEq, Repr

namespace BlockKind

/-- The kinds there are. -/
def all : List BlockKind := [.constant, .conditional]

/-- The caption of a kind. -/
def caption : BlockKind → String
  | .constant => "Number"
  | .conditional => "Conditional"

/-- The block that a block of this kind starts from. -/
def blank : BlockKind → Block
  | .constant => .constant 0.0
  | .conditional => .conditional {} "" .sum

end BlockKind

namespace Block

/-- The kind of a block. -/
def kind : Block → BlockKind
  | .constant _ => .constant
  | .conditional .. => .conditional

/-- The block that a new entry of a formula starts as: the number zero. -/
def fresh : Block := BlockKind.constant.blank

end Block

-- ================================================================ patches

/-- A partial update of a condition. -/
structure ConditionPatch where
  column : Option String := none
  comparison : Option Comparison := none
  value : Option String := none
  deriving DecidableEq, Repr

/-- A partial update of a block and of the combinator after it. -/
structure Patch where
  kind : Option BlockKind := none
  value : Option Float := none
  condition : Option ConditionPatch := none
  target : Option String := none
  aggregation : Option Aggregation := none
  /-- The combinator that joins the block to the next one. -/
  combinator : Option Combinator := none
  deriving DecidableEq

/-- A condition, patched. A new column comes last and clears the value, which was chosen for the
old one, even a value of the same patch. -/
def Condition.patched (c : Condition) (p : ConditionPatch) : Condition where
  column := p.column.getD c.column
  comparison := p.comparison.getD c.comparison
  value := if p.column.isSome then "" else p.value.getD c.value

namespace Block

/-- A block turned to a kind: the blank block of that kind, unless it is of the kind already. -/
def turned (b : Block) : Option BlockKind → Block
  | none => b
  | some k => if k = b.kind then b else k.blank

/-- A block, patched. The kind comes first; what does not belong to the resulting kind is
ignored. -/
def patched (b : Block) (p : Patch) : Block :=
  match b.turned p.kind with
  | .constant v => .constant (p.value.getD v)
  | .conditional c target how =>
    .conditional ((p.condition.map c.patched).getD c) (p.target.getD target)
      (p.aggregation.getD how)

end Block

end TableCalc
