/-
Joining values from left to right. Division by zero is zero, and a combinator that is not known
passes the running value through, so that the fold always has a number to go on with.
-/

namespace TableCalc

/-- How a value is joined to the running one. -/
inductive Combinator where
  | add
  | subtract
  | multiply
  | divide
  /-- A symbol that names no combinator. -/
  | unsupported (symbol : String)
  deriving DecidableEq, Repr, Inhabited

namespace Combinator

/-- The combinators there are. -/
def all : List Combinator := [.add, .subtract, .multiply, .divide]

/-- The symbol of a combinator. -/
def symbol : Combinator → String
  | .add => "+"
  | .subtract => "-"
  | .multiply => "*"
  | .divide => "/"
  | .unsupported s => s

/-- The combinator that a symbol names. -/
def ofSymbol (s : String) : Combinator :=
  if s = "+" then .add
  else if s = "-" then .subtract
  else if s = "*" then .multiply
  else if s = "/" then .divide
  else .unsupported s

/-- Joins a value to the running one. -/
def apply (op : Combinator) (running value : Float) : Float :=
  match op with
  | .add => running + value
  | .subtract => running - value
  | .multiply => running * value
  | .divide => if value == 0.0 then 0.0 else running / value
  | .unsupported _ => running

end Combinator

-- ============================================================ the fold

/-- Joins further values to a running one, each by its own combinator; where the combinators run
out, values are added. -/
def joinAll (running : Float) : List Float → List Combinator → Float
  | [], _ => running
  | v :: vs, [] => joinAll (Combinator.add.apply running v) vs []
  | v :: vs, op :: ops => joinAll (op.apply running v) vs ops

/-- The value of a list of values with combinators between them, if there is a value at all. -/
def join (values : List Float) (ops : List Combinator) : Option Float :=
  match values with
  | [] => none
  | first :: rest => some (joinAll first rest ops)

end TableCalc
