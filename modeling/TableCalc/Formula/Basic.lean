/-
Formulas: blocks in a row, with a combinator between any two neighbours, and the edits that keep
the two lists in step. Combinator `i` stands between block `i` and block `i + 1`.

The lists are plain data, and `WellFormed` says how their lengths belong together. An edit that
needs a combinator which is not there reports it as an error of its own; on a well-formed formula
that error never arises.
-/

import TableCalc.Formula.Block

namespace TableCalc

/-- A formula. -/
structure Formula where
  blocks : List Block := []
  combinators : List Combinator := []
  deriving DecidableEq

/-- Why an edit is refused. -/
inductive EditError where
  /-- There is no block at this index; the formula has `size` blocks. -/
  | outOfRange (index size : Nat)
  /-- The last block has no combinator after it. -/
  | lastBlock (index : Nat)
  /-- The combinator after this block is missing, though another block follows. -/
  | unjoined (index : Nat)
  deriving DecidableEq, Repr

/-- An error in words. -/
def EditError.text : EditError → String
  | .outOfRange index size => s!"block index {index} out of range (formula has {size} blocks)"
  | .lastBlock index => s!"block {index} is the last block and has no operator"
  | .unjoined index => s!"block {index} is not joined to the next block"

namespace Formula

-- ================================================================= access

/-- The number of blocks. -/
def size (f : Formula) : Nat := f.blocks.length

/-- Whether there are no blocks. -/
def isEmpty (f : Formula) : Bool := f.blocks.isEmpty

/-- The combinator between a block and the next one. -/
def combinatorAfter? (f : Formula) (index : Nat) : Option Combinator := f.combinators[index]?

/-- There is one combinator between any two neighbouring blocks, and no other. -/
def WellFormed (f : Formula) : Prop := f.combinators.length = f.blocks.length - 1

instance (f : Formula) : Decidable f.WellFormed := inferInstanceAs (Decidable (_ = _))

-- ================================================================== edits

/-- Appends a block, adding it to what is there. Its index is the former size. -/
def push (f : Formula) (b : Block) : Formula where
  blocks := f.blocks ++ [b]
  combinators := if f.blocks.isEmpty then f.combinators else f.combinators ++ [.add]

/-- Appends a fresh block. -/
def add (f : Formula) : Formula := f.push .fresh

/-- The combinators with the one after block `index` replaced, if there is to be a replacement. -/
def rejoined (f : Formula) (index : Nat) : Option Combinator → Except EditError (List Combinator)
  | none => .ok f.combinators
  | some op =>
    if index + 1 < f.size then
      if index < f.combinators.length then .ok (f.combinators.set index op)
      else .error (.unjoined index)
    else .error (.lastBlock index)

/-- Patches a block and, if the patch says so, the combinator after it. Both are checked before
either is changed. -/
def update (f : Formula) (index : Nat) (p : Patch) : Except EditError Formula :=
  match f.blocks[index]? with
  | none => .error (.outOfRange index f.size)
  | some b => (f.rejoined index p.combinator).map fun ops =>
      { blocks := f.blocks.set index (b.patched p), combinators := ops }

/-- Replaces the combinator after a block. -/
def setCombinator (f : Formula) (index : Nat) (op : Combinator) : Except EditError Formula :=
  f.update index { combinator := some op }

/-- Removes a block together with the combinator after it, or, if it is the last block, the one
before it. Returns the block and the formula without it. -/
def remove (f : Formula) (index : Nat) : Except EditError (Block × Formula) :=
  match f.blocks[index]? with
  | none => .error (.outOfRange index f.size)
  | some b => .ok (b,
      { blocks := f.blocks.eraseIdx index,
        combinators := f.combinators.eraseIdx (min index (f.combinators.length - 1)) })

end Formula

end TableCalc
