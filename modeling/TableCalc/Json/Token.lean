/-
Numerals and strings of a JSON text while they are being read. Each takes one character at a time
and keeps what it has, the latest first; each knows where it stands, and hence what may come next
and whether it may end there. Words such as `true` need no such state, and punctuation is one
character.
-/

import TableCalc.Json.Numeral

namespace TableCalc.Json

/-- Why a text is not JSON. -/
inductive Fault where
  /-- The text ended inside a value. -/
  | ended
  /-- Something stood where it may not stand, or a number was out of range. -/
  | malformed
  deriving DecidableEq, Repr

-- ================================================================ numbers

/-- Where the reader stands in a numeral. -/
inductive NumeralPlace where
  /-- After the minus sign. -/
  | sign
  /-- After a leading zero, which no digit may follow. -/
  | zero
  | whole
  /-- After the point. -/
  | point
  | fraction
  /-- After the exponent mark. -/
  | mark
  /-- After the sign of the exponent. -/
  | markSign
  | exponent
  deriving DecidableEq, Repr

/-- A numeral that is being read: the digits of each part, the latest first. -/
structure PartialNumeral where
  place : NumeralPlace
  negative : Bool := false
  whole : List Char := []
  fraction : List Char := []
  down : Bool := false
  exponent : List Char := []
  deriving DecidableEq, Repr

namespace PartialNumeral

/-- The numeral that a character begins, if it begins one. -/
def start? (c : Char) : Option PartialNumeral :=
  if c = '-' then some { place := .sign, negative := true }
  else if c = '0' then some { place := .zero, whole := [c] }
  else if c.isDigit then some { place := .whole, whole := [c] }
  else none

/-- What may follow the digits before the point, those digits apart. -/
def afterWhole (n : PartialNumeral) (c : Char) : Option PartialNumeral :=
  if c = '.' then some { n with place := .point }
  else if c = 'e' ∨ c = 'E' then some { n with place := .mark }
  else none

/-- The numeral with one character more, `none` if it does not go on with it. -/
def next? (n : PartialNumeral) (c : Char) : Option PartialNumeral :=
  match n.place with
  | .sign =>
    if c = '0' then some { n with place := .zero, whole := [c] }
    else if c.isDigit then some { n with place := .whole, whole := [c] }
    else none
  | .zero => n.afterWhole c
  | .whole => if c.isDigit then some { n with whole := c :: n.whole } else n.afterWhole c
  | .point =>
    if c.isDigit then some { n with place := .fraction, fraction := [c] } else none
  | .fraction =>
    if c.isDigit then some { n with fraction := c :: n.fraction }
    else if c = 'e' ∨ c = 'E' then some { n with place := .mark }
    else none
  | .mark =>
    if c = '+' then some { n with place := .markSign }
    else if c = '-' then some { n with place := .markSign, down := true }
    else if c.isDigit then some { n with place := .exponent, exponent := [c] }
    else none
  | .markSign =>
    if c.isDigit then some { n with place := .exponent, exponent := [c] } else none
  | .exponent => if c.isDigit then some { n with exponent := c :: n.exponent } else none

/-- Whether the numeral may end here. -/
def mayEnd (n : PartialNumeral) : Bool :=
  match n.place with
  | .zero | .whole | .fraction | .exponent => true
  | .sign | .point | .mark | .markSign => false

/-- The numeral, cut at its marks. -/
def numeral (n : PartialNumeral) : Numeral where
  negative := n.negative
  whole := n.whole.reverse
  fraction := if n.fraction.isEmpty then none else some n.fraction.reverse
  exponent := if n.exponent.isEmpty then none else some (n.down, n.exponent.reverse)

end PartialNumeral

-- ================================================================ strings

/-- Where the reader stands in a string. -/
inductive StringPlace where
  | plain
  /-- After a backslash. -/
  | escape
  /-- Among the four digits of an escape by code unit. `high` is the leading surrogate that a
  trailing one has to follow. -/
  | unit (high : Option Nat) (digits : List Char)
  /-- Before the backslash of a trailing surrogate. -/
  | lowEscape (high : Nat)
  /-- Before the `u` of a trailing surrogate. -/
  | lowMark (high : Nat)
  deriving DecidableEq, Repr

/-- A string that is being read, its characters the latest first. -/
structure PartialString where
  place : StringPlace := .plain
  chars : List Char := []
  deriving DecidableEq, Repr

/-- The character that a short escape stands for. -/
def shortEscape? : Char → Option Char
  | '"' => some '"'
  | '\\' => some '\\'
  | '/' => some '/'
  | 'b' => some '\x08'
  | 'f' => some '\x0c'
  | 'n' => some '\n'
  | 'r' => some '\r'
  | 't' => some '\t'
  | _ => none

/-- The value of a hexadecimal digit. -/
def hexValue? (c : Char) : Option Nat :=
  if c.isDigit then some (c.toNat - '0'.toNat)
  else if 'a' ≤ c ∧ c ≤ 'f' then some (c.toNat - 'a'.toNat + 10)
  else if 'A' ≤ c ∧ c ≤ 'F' then some (c.toNat - 'A'.toNat + 10)
  else none

/-- The number that hexadecimal digits write. -/
def hexNumber? (ds : List Char) : Option Nat :=
  ds.foldlM (fun n c => (hexValue? c).map (16 * n + ·)) 0

namespace PartialString

/-- The string with a character added. -/
def keep (s : PartialString) (c : Char) : PartialString := ⟨.plain, c :: s.chars⟩

/-- What four hexadecimal digits mean. A code unit outside the surrogates is a character; a leading
surrogate waits for its trailing one; anything else is malformed. -/
def takeUnit (s : PartialString) (high : Option Nat) (unit : Nat) : Except Fault PartialString :=
  let trailing := 0xDC00 ≤ unit ∧ unit ≤ 0xDFFF
  match high with
  | some h =>
    if trailing then .ok (s.keep (Char.ofNat (0x10000 + (h - 0xD800) * 0x400 + (unit - 0xDC00))))
    else .error .malformed
  | none =>
    if trailing then .error .malformed
    else if 0xD800 ≤ unit ∧ unit ≤ 0xDBFF then .ok { s with place := .lowEscape unit }
    else .ok (s.keep (Char.ofNat unit))

/-- The step on one character, the closing quote apart. The four digits of a code unit are looked
at together, so that a text which ends too early for them is reported as ended, whatever the
characters there are; their place is four bytes wide. -/
def next (s : PartialString) (c : Char) : Except Fault PartialString :=
  match s.place with
  | .plain =>
    if c = '\\' then .ok { s with place := .escape }
    else if c.toNat < 0x20 then .error .malformed
    else .ok (s.keep c)
  | .escape =>
    if c = 'u' then .ok { s with place := .unit none [] }
    else match shortEscape? c with
      | some d => .ok (s.keep d)
      | none => .error .malformed
  | .unit high digits =>
    let digits := digits ++ [c]
    if (String.ofList digits).utf8ByteSize < 4 then .ok { s with place := .unit high digits }
    else match hexNumber? digits with
      | some unit => s.takeUnit high unit
      | none => .error .malformed
  | .lowEscape high => if c = '\\' then .ok { s with place := .lowMark high } else .error .malformed
  | .lowMark high =>
    if c = 'u' then .ok { s with place := .unit (some high) [] } else .error .malformed

/-- Whether a quote at this place closes the string. -/
def mayClose (s : PartialString) : Bool := s.place = .plain

/-- The characters read, as text. -/
def string (s : PartialString) : String := String.ofList s.chars.reverse

end PartialString

end TableCalc.Json
