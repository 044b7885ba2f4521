/-
Reading JSON, one character at a time. The reader is a machine with a stack: the frames are the
containers that stand open around the current place, each holding what it has so far. So the
reading is a fold over the text, and the two faults are told apart by when they arise: a character
that cannot come next is a fault at once, and the end of the text is a fault of its own wherever a
value is still open.
-/

import TableCalc.Json.Token

namespace TableCalc.Json

-- ============================================================ the machine

/-- A container that stands open around a value: what it holds before it. -/
inductive Frame where
  /-- The items before the value, the latest first. -/
  | array (items : List Json)
  /-- The members before the value, and the value's name. -/
  | object (members : List (String × Json)) (name : String)

/-- Where the reader stands. -/
inductive Place where
  /-- Before a value. -/
  | value
  /-- After an opening bracket: before the first item, or the closing bracket. -/
  | firstItem
  /-- After an item. -/
  | afterItem (items : List Json)
  /-- Before a member's name, or if `mayClose` the closing brace. -/
  | name (members : List (String × Json)) (mayClose : Bool)
  /-- After a member's name. -/
  | colon (members : List (String × Json)) (name : String)
  /-- After a member. -/
  | afterMember (members : List (String × Json))
  /-- Inside a string that is a value. -/
  | string (s : PartialString)
  /-- Inside a member's name. -/
  | nameString (members : List (String × Json)) (s : PartialString)
  /-- Inside a word that stands for a value. -/
  | word (rest : List Char) (v : Json)
  | numeral (n : PartialNumeral)
  /-- After the whole value. -/
  | done (v : Json)

/-- The state of the reader. -/
structure State where
  place : Place := .value
  stack : List Frame := []

/-- How many containers may stand open at once. -/
def depthLimit : Nat := 127

/-- A value is complete: it goes into the container around it. -/
def complete (v : Json) : List Frame → State
  | [] => ⟨.done v, []⟩
  | .array items :: stack => ⟨.afterItem (v :: items), stack⟩
  | .object members name :: stack => ⟨.afterMember (setMember members name v), stack⟩

/-- The white space that may stand between tokens. -/
def isSpace (c : Char) : Bool := c = ' ' || c = '\n' || c = '\t' || c = '\r'

/-- The first character of a value. -/
def startValue (stack : List Frame) (c : Char) : Except Fault State :=
  match PartialNumeral.start? c with
  | some n => .ok ⟨.numeral n, stack⟩
  | none =>
    match c with
    | '"' => .ok ⟨.string {}, stack⟩
    | '[' => if stack.length < depthLimit then .ok ⟨.firstItem, stack⟩ else .error .malformed
    | '\x7b' =>
      if stack.length < depthLimit then .ok ⟨.name [] true, stack⟩ else .error .malformed
    | 'n' => .ok ⟨.word "ull".toList .null, stack⟩
    | 't' => .ok ⟨.word "rue".toList (.bool true), stack⟩
    | 'f' => .ok ⟨.word "alse".toList (.bool false), stack⟩
    | _ => .error .malformed

/-- The step between tokens, where white space is skipped. -/
def stepBetween (s : State) (c : Char) : Except Fault State :=
  if isSpace c then .ok s
  else match s.place with
    | .value => startValue s.stack c
    | .firstItem =>
      if c = ']' then .ok (complete (.array []) s.stack) else startValue (.array [] :: s.stack) c
    | .afterItem items =>
      if c = ',' then .ok ⟨.value, .array items :: s.stack⟩
      else if c = ']' then .ok (complete (.array items.reverse) s.stack)
      else .error .malformed
    | .name members mayClose =>
      if c = '"' then .ok ⟨.nameString members {}, s.stack⟩
      else if c = '\x7d' ∧ mayClose then .ok (complete (.object members) s.stack)
      else .error .malformed
    | .colon members name =>
      if c = ':' then .ok ⟨.value, .object members name :: s.stack⟩ else .error .malformed
    | .afterMember members =>
      if c = ',' then .ok ⟨.name members false, s.stack⟩
      else if c = '\x7d' then .ok (complete (.object members) s.stack)
      else .error .malformed
    | _ => .error .malformed

/-- The value of a numeral that ends where it stands. -/
def endNumeral (n : PartialNumeral) (stack : List Frame) : Except Fault State :=
  if n.mayEnd then
    match n.numeral.value? with
    | some v => .ok (complete (.number v) stack)
    | none => .error .malformed
  else .error .malformed

/-- The step on one character. A numeral ends only at the character after it, which is then read
again as what follows the value. -/
def step (s : State) (c : Char) : Except Fault State :=
  match s.place with
  | .string p =>
    if c = '"' ∧ p.mayClose then .ok (complete (.string p.string) s.stack)
    else (p.next c).map fun p => ⟨.string p, s.stack⟩
  | .nameString members p =>
    if c = '"' ∧ p.mayClose then .ok ⟨.colon members p.string, s.stack⟩
    else (p.next c).map fun p => ⟨.nameString members p, s.stack⟩
  | .word rest v =>
    match rest with
    | [] => .error .malformed
    | [d] => if c = d then .ok (complete v s.stack) else .error .malformed
    | d :: rest => if c = d then .ok ⟨.word rest v, s.stack⟩ else .error .malformed
  | .numeral n =>
    match n.next? c with
    | some n => .ok ⟨.numeral n, s.stack⟩
    | none => (endNumeral n s.stack).bind fun s => stepBetween s c
  | _ => stepBetween s c

/-- The end of the text: a value has to be complete. A numeral may be completed by it, and is then
judged before anything else. -/
def finish (s : State) : Except Fault Json :=
  match s.place with
  | .done v => .ok v
  | .numeral n =>
    if n.mayEnd then
      match n.numeral.value?, s.stack with
      | none, _ => .error .malformed
      | some v, [] => .ok (.number v)
      | some _, _ :: _ => .error .ended
    else .error .ended
  | _ => .error .ended

/-- Reads a text that is one JSON value, white space around it allowed. -/
def read (text : List Char) : Except Fault Json :=
  (text.foldlM step {}).bind finish

end TableCalc.Json
