/-
The numerals that a text may begin with: `Infinity`, or digits with an optional point and an
optional exponent, either one after an optional sign. `scan` takes the longest numeral at the
front of a text and hands back the rest, so that "how far did it get" is a list and not an index.

Three rules look ahead, and each takes nothing when what it looks for is not there: a point counts
only next to a digit, an exponent mark only before digits, and a sign only before a numeral.
A numeral keeps its exact value; rounding to a double is a separate step.
-/

import TableCalc.Text.Blank
import TableCalc.Number.Binary

namespace TableCalc.Number

-- =============================================================== numerals

/-- The exact value of a numeral. -/
inductive Numeral where
  | infinity (negative : Bool)
  /-- `± digits * 10 ^ exponent`. -/
  | decimal (negative : Bool) (digits : Nat) (exponent : Int)
  deriving DecidableEq, Repr

/-- The double nearest to a numeral. -/
def Numeral.value : Numeral → Float
  | .infinity negative => infinite negative
  | .decimal negative digits exponent => nearestDecimal negative digits exponent

-- ================================================================= pieces

/-- The number that a list of decimal digits writes. -/
def valueOf (ds : List Char) : Nat := ds.foldl (fun n c => 10 * n + (c.toNat - '0'.toNat)) 0

/-- The digits at the front of a text, and what follows them. -/
def takeDigits (s : List Char) : List Char × List Char :=
  (s.takeWhile Char.isDigit, s.dropWhile Char.isDigit)

/-- An optional sign: whether it is a minus, and what follows it. -/
def takeSign : List Char → Bool × List Char
  | '-' :: r => (true, r)
  | '+' :: r => (false, r)
  | s => (false, s)

/-- The digits after a decimal point, given the digits before it. A point without a digit on
either side is left where it is. -/
def takeFraction (whole : List Char) : List Char → List Char × List Char
  | '.' :: r =>
    let (fraction, rest) := takeDigits r
    if whole.isEmpty && fraction.isEmpty then ([], '.' :: r) else (fraction, rest)
  | s => ([], s)

/-- An exponent, or zero if there is none. A mark that no digits follow is left where it is. -/
def takeExponent : List Char → Int × List Char
  | c :: r =>
    if c = 'e' ∨ c = 'E' then
      let (negative, t) := takeSign r
      let (ds, rest) := takeDigits t
      if ds.isEmpty then (0, c :: r)
      else (if negative then -(valueOf ds : Int) else valueOf ds, rest)
    else (0, c :: r)
  | [] => (0, [])

/-- The unsigned decimal numeral at the front of a text: its digits, its exponent, and the rest. -/
def takeDecimal (s : List Char) : Option (Nat × Int × List Char) :=
  let (whole, r) := takeDigits s
  let (fraction, r) := takeFraction whole r
  if whole.isEmpty && fraction.isEmpty then none
  else
    let (exponent, rest) := takeExponent r
    some (valueOf (whole ++ fraction), exponent - fraction.length, rest)

/-- The text after a leading `word`, if it begins with it. -/
def dropWord? : List Char → List Char → Option (List Char)
  | [], s => some s
  | _ :: _, [] => none
  | w :: ws, c :: s => if w = c then dropWord? ws s else none

-- =============================================================== scanning

/-- The longest numeral that a text begins with after white space, and what follows it. -/
def Numeral.scan (s : List Char) : Option (Numeral × List Char) :=
  let (negative, r) := takeSign (Text.trimStart s)
  match dropWord? "Infinity".toList r with
  | some rest => some (.infinity negative, rest)
  | none => (takeDecimal r).map fun (digits, exponent, rest) =>
      (.decimal negative digits exponent, rest)

/-- The numeral that a whole text is, as typed into a number field: white space anywhere is
ignored, a typographic minus counts as one, and infinity may be spelled `inf` or `infinity` in any
case. A field has no place for what is not a number, so `nan` reads as infinity too. -/
def Numeral.typed? (s : List Char) : Option Numeral :=
  let t := (s.filter fun c => !Text.isBlank c).map fun c => if c = '\u2212' then '-' else c
  let (negative, r) := takeSign t
  let lower := r.map Char.toLower
  if ["inf", "infinity", "nan"].contains (String.ofList lower) then some (.infinity negative)
  else match takeDecimal r with
    | some (digits, exponent, []) => some (.decimal negative digits exponent)
    | _ => none

end TableCalc.Number
