/-
JSON values and their compact text. Numbers keep the distinction the format's readers care about:
a whole number within 64 bits is exact, and any other number is a finite double, so every number
has a text. Members of an object keep their order.
-/

import TableCalc.Number.Layout

namespace TableCalc

/-- A JSON number: a whole number of at most 64 bits, or a finite double. -/
inductive Json.Number where
  | whole (i : Int) (fits : i.natAbs < UInt64.size)
  | real (x : Float) (finite : x.isFinite = true)

/-- A JSON value. -/
inductive Json where
  | null
  | bool (b : Bool)
  | number (n : Json.Number)
  | string (s : String)
  | array (items : List Json)
  | object (members : List (String × Json))

namespace Json

-- ================================================================ objects

/-- The members of an object with one of them set: a name that is there already keeps its place
and takes the new value. -/
def setMember (members : List (String × Json)) (name : String) (v : Json) : List (String × Json) :=
  if members.any (·.1 == name) then
    members.map fun m => if m.1 == name then (name, v) else m
  else members ++ [(name, v)]

-- =================================================================== text

/-- The hexadecimal digit of a number below sixteen, in lower case. -/
def hexDigit (n : Nat) : Char := Nat.digitChar n

/-- One character inside a string. The quote, the backslash and the control characters are
escaped, the control characters that have a short escape by it; all else stands for itself. -/
def escape (c : Char) : List Char :=
  match c with
  | '"' => ['\\', '"']
  | '\\' => ['\\', '\\']
  | '\x08' => ['\\', 'b']
  | '\x0c' => ['\\', 'f']
  | '\n' => ['\\', 'n']
  | '\r' => ['\\', 'r']
  | '\t' => ['\\', 't']
  | c =>
    if c.toNat < 0x20 then ['\\', 'u', '0', '0', hexDigit (c.toNat / 16), hexDigit (c.toNat % 16)]
    else [c]

/-- The text of a string, with its quotes. -/
def quoted (s : String) : List Char := '"' :: s.toList.flatMap escape ++ ['"']

/-- The text of a number. -/
def Number.text : Number → List Char
  | .whole i _ => TableCalc.Number.sign (i < 0) ++ TableCalc.Number.digitsOf i.natAbs
  | .real x _ => TableCalc.Number.dataLayout.render x

mutual

/-- The compact text of a value. -/
def text : Json → List Char
  | .null => "null".toList
  | .bool true => "true".toList
  | .bool false => "false".toList
  | .number n => n.text
  | .string s => quoted s
  | .array items => '[' :: itemsText items ++ [']']
  | .object members => '{' :: membersText members ++ ['}']

/-- The texts of an array's items, with commas between them. -/
def itemsText : List Json → List Char
  | [] => []
  | [v] => text v
  | v :: rest => text v ++ ',' :: itemsText rest

/-- The texts of an object's members, with commas between them. -/
def membersText : List (String × Json) → List Char
  | [] => []
  | [(name, v)] => quoted name ++ ':' :: text v
  | (name, v) :: rest => quoted name ++ ':' :: text v ++ ',' :: membersText rest

end

end Json

end TableCalc
