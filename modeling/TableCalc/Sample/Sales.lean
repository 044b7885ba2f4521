/-
A sample table of sales, to try the calculator on. It has two text columns, columns of numbers, and
a discount that is often left out and now and then not a number at all, since real tables are like
that.
-/

import TableCalc.Number.Fixed
import TableCalc.Sample.Random

namespace TableCalc.Sample

-- ================================================================= orders

/-- One order. -/
structure Order where
  id : Nat
  region : String
  product : String
  units : Nat
  unitPrice : Float
  /-- Empty, `n/a`, or a number with two places. -/
  discount : String

/-- The regions that orders come from. -/
def regions : List String := ["North", "South", "East", "West"]

/-- The products, with their usual prices. -/
def products : List (String × Float) := [("Widget", 2.5), ("Gadget", 12.0), ("Gizmo", 7.75)]

/-- Draws a discount. Of ten, six are empty and one is not a number; the others are up to 0.30. -/
def drawDiscount : Drawing String := do
  let k ← drawBelow 10
  if k ≤ 5 then return ""
  else if k = 6 then return "n/a"
  else do
    let u ← drawUnit
    return String.ofList (Number.fixed 2 (u * 0.3))

/-- A price, up to a tenth below or above the usual one, in whole cents. -/
def price (usual u : Float) : Float :=
  Number.roundWhole (usual * (0.9 + u * 0.2) * 100.0) / 100.0

/-- Draws the order with the given number. -/
def drawOrder (id : Nat) : Drawing Order := do
  let (product, usual) ← pick products (by decide)
  let discount ← drawDiscount
  let region ← pick regions (by decide)
  let units ← drawBelow 50
  let u ← drawUnit
  return { id, region, product, units := 1 + units, unitPrice := price usual u, discount }

/-- Draws `count` orders, the first of which has the given number. -/
def drawOrders (id : Nat) : Nat → Drawing (List Order)
  | 0 => pure []
  | count + 1 => do
    let order ← drawOrder id
    let rest ← drawOrders (id + 1) count
    return order :: rest

-- =================================================================== text

/-- The names of the columns. -/
def header : List String := ["order_id", "region", "product", "units", "unit_price", "discount"]

/-- The cells of an order. -/
def Order.cells (o : Order) : List String :=
  [toString o.id, o.region, o.product, toString o.units,
    String.ofList (Number.dataLayout.render o.unitPrice), o.discount]

/-- A line of cells. No cell of an order holds a comma, a quote or a line end, so none is quoted. -/
def line (cells : List String) : String := ",".intercalate cells ++ "\n"

/-- The orders as comma-separated text. Without orders there is no header either. -/
def text (orders : List Order) : String :=
  if orders.isEmpty then "" else line header ++ String.join (orders.map fun o => line o.cells)

/-- The seed of the sample. -/
def seed : UInt64 := 42

/-- The orders of the sample table. -/
def salesOrders (rows : Nat) : List Order := ((drawOrders 1 rows).run (.ofSeed seed)).1

/-- The sample table of `rows` orders, as comma-separated text. -/
def salesText (rows : Nat) : String := text (salesOrders rows)

end TableCalc.Sample
