/-
A small deterministic source of random numbers: four 64-bit words, stirred by shifts, rotations and
exclusive or. The same seed always gives the same numbers, so a sample made from it is the same
everywhere.
-/

import TableCalc.Number.Binary

namespace TableCalc.Sample

/-- The state of the source. -/
structure Random where
  a : UInt64
  b : UInt64
  c : UInt64
  d : UInt64
  deriving DecidableEq, Repr

/-- A computation that draws random numbers. -/
abbrev Drawing := StateM Random

/-- A word rotated to the left. -/
def rotateLeft (x : UInt64) (k : UInt64) : UInt64 := (x <<< k) ||| (x >>> (64 - k))

namespace Random

/-- The step of the linear congruence that spreads a seed over the words. -/
def spread (x : UInt64) : UInt64 := x * 6364136223846793005 + 1

/-- The source for a seed: four successive steps of the congruence. -/
def ofSeed (seed : UInt64) : Random :=
  let a := spread seed
  let b := spread a
  let c := spread b
  ⟨a, b, c, spread c⟩

/-- The number that a state shows. -/
def output (r : Random) : UInt64 := rotateLeft (r.b * 5) 7 * 9

/-- The state after a number has been drawn. -/
def stir (r : Random) : Random :=
  let c := r.c ^^^ r.a
  let d := r.d ^^^ r.b
  ⟨r.a ^^^ d, r.b ^^^ c, c ^^^ (r.b <<< 17), rotateLeft d 45⟩

end Random

-- ================================================================ drawing

/-- Draws a 64-bit number. -/
def draw : Drawing UInt64 := fun r => (r.output, r.stir)

/-- Without its lower 11 bits, a word has 53. -/
theorem toNat_shiftRight_lt (x : UInt64) : (x >>> 11).toNat < Nat.pow 2 53 := by
  have hx := x.toNat_lt
  rw [UInt64.toNat_shiftRight, Nat.shiftRight_eq_div_pow]
  show x.toNat / 2 ^ 11 < 2 ^ 53
  omega

/-- Draws a number from 0 to 1, with 1 excluded: the upper 53 bits as a fraction, which a double
holds exactly. -/
def drawUnit : Drawing Float := do
  let x ← draw
  return Number.nearest false (x >>> 11).toNat (Nat.pow 2 53)

/-- Draws a whole number below `n`. -/
def drawBelow (n : Nat) : Drawing Nat := do
  let x ← draw
  return x.toNat % n

/-- Draws one of some items. -/
def pick {α : Type} (items : List α) (nonempty : items ≠ []) : Drawing α := do
  let x ← draw
  return items.get ⟨x.toNat % items.length, Nat.mod_lt _ (List.length_pos_iff.2 nonempty)⟩

end TableCalc.Sample
