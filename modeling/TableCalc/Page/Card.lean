/-
The card of a block: the controls by which the block is edited, from left to right. A list offers
entries, each with the edit that choosing it makes; a field turns a typed text into an edit. What
a card shows and what it can do are one description, so nothing can be chosen that is not shown,
and every edit of the page comes from here.
-/

import TableCalc.Number.Field
import TableCalc.Number.Numeral
import TableCalc.Session

namespace TableCalc.Page

-- =============================================================== controls

/-- The lists a card can have. -/
inductive Selector where
  | kind
  | column
  | comparison
  | value
  | aggregation
  | target
  | combinator
  deriving DecidableEq, Repr

/-- The fields a card can have. -/
inductive Field where
  /-- The value of a condition. -/
  | value
  /-- The number of a constant. -/
  | number
  deriving DecidableEq, Repr

/-- A control of a card. -/
inductive Control where
  /-- A text that does nothing. -/
  | caption (text : String)
  /-- A list: the text it shows while closed, and its entries with their edits. -/
  | list (selector : Selector) (shown : String) (entries : List (String × Edit))
  /-- A field: the texts it shows, and the edit that a typed text makes, if it makes one. -/
  | field (which : Field) (shown : List String) (typed : String → Option Edit)
  /-- The button that removes the block. -/
  | remove (edit : Edit)

/-- The texts that a control shows. -/
def Control.texts : Control → List String
  | .caption text => [text]
  | .list _ shown _ => [shown]
  | .field _ shown _ => shown
  | .remove _ => ["✖"]

/-- A text, or what stands in its place while it is empty. -/
def orHint (text hint : String) : String := if text = "" then hint else text

-- ================================================================= blocks

/-- The list of block kinds. -/
def kindList (index : Nat) (b : Block) : Control :=
  .list .kind b.kind.caption
    (BlockKind.all.map fun k => (k.caption, .update index { kind := some k }))

/-- The edit that a text typed into a number field makes: none if it is no number. A number that
compares equal to the present one is put in its place all the same, since it need not be the same
number: minus zero equals zero, yet it prints differently. -/
def numberTyped (index : Nat) (text : String) : Option Edit :=
  (Number.Numeral.typed? text.toList).map fun n => .update index { value := some n.value }

/-- The field of a constant. -/
def numberField (index : Nat) (present : Float) : Control :=
  .field .number [String.ofList (Number.fieldText present)] (numberTyped index)

/-- The edit of a block's condition. -/
def conditionEdit (index : Nat) (p : ConditionPatch) : Edit :=
  .update index { condition := some p }

/-- The list of condition columns: all columns. Choosing one, even the present one, sets the
condition back to equality with nothing. -/
def columnList (index : Nat) (columns : List String) (c : Condition) : Control :=
  .list .column (orHint c.column "Condition column")
    (columns.map fun name =>
      (name, conditionEdit index { column := some name, comparison := some .equal }))

/-- The list of comparisons: on a text column only those that make sense on text. -/
def comparisonList (index : Nat) (onText : Bool) (c : Condition) : Control :=
  .list .comparison c.comparison.symbol
    ((if onText then Comparison.onText else Comparison.onNumbers).map fun comparison =>
      (comparison.symbol, conditionEdit index { comparison := some comparison }))

/-- The value of a condition: on a text column one of the column's cells, elsewhere any text. -/
def valueControl (index : Nat) (profile : Profile) (c : Condition) : Control :=
  let edit (value : String) := conditionEdit index { value := some value }
  if profile.isText c.column then
    .list .value (orHint c.value "Select value")
      ((profile.distinct c.column).map fun value => (value, edit value))
  else
    .field .value (if c.value = "" then ["Condition value", ""] else [c.value])
      fun text => some (edit text)

/-- The controls of a condition. The comparison and the value appear once a column is chosen. -/
def conditionControls (index : Nat) (columns : List String) (profile : Profile) (c : Condition) :
    List Control :=
  columnList index columns c ::
    if c.column = "" then []
    else [comparisonList index (profile.isText c.column) c, valueControl index profile c]

/-- The caption of an aggregation. -/
def aggregationCaption : Aggregation → String
  | .sum => "Sum"
  | .average => "Average"
  | .unsupported name => name

/-- The list of aggregations. -/
def aggregationList (index : Nat) (present : Aggregation) : Control :=
  .list .aggregation (aggregationCaption present)
    (Aggregation.all.map fun how =>
      (aggregationCaption how, .update index { aggregation := some how }))

/-- The list of target columns: the numeric ones. -/
def targetList (index : Nat) (columns : List String) (profile : Profile) (target : String) :
    Control :=
  .list .target (orHint target "Calculate column")
    ((columns.filter profile.isNumber).map fun name =>
      (name, .update index { target := some name }))

/-- The list of combinators. -/
def combinatorList (index : Nat) (present : Combinator) : Control :=
  .list .combinator present.symbol
    (Combinator.all.map fun op => (op.symbol, .join index op))

/-- The controls that belong to a block's kind. -/
def kindControls (index : Nat) (columns : List String) (profile : Profile) :
    Block → List Control
  | .constant value => [numberField index value]
  | .conditional c target how =>
    conditionControls index columns profile c ++
      [aggregationList index how, targetList index columns profile target]

/-- The combinator after a block, unless it is the last one. -/
def combinatorControls (f : Formula) (index : Nat) : List Control :=
  if index + 1 < f.size then
    match f.combinatorAfter? index with
    | some op => [combinatorList index op]
    | none => []
  else []

/-- The card of a block. -/
def card (columns : List String) (profile : Profile) (f : Formula) (index : Nat) (b : Block) :
    List Control :=
  [.caption s!"#{index + 1}", kindList index b] ++ kindControls index columns profile b ++
    combinatorControls f index ++ [.remove (.remove index)]

/-- The cards of a session. They are shown once a table is loaded. -/
def cards (s : Session) : List (List Control) :=
  match s.table with
  | none => []
  | some t => s.formula.blocks.zipIdx.map fun (b, index) =>
      card t.columns s.profile s.formula index b

end TableCalc.Page
