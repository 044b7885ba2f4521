/-
Rounding a quotient of natural numbers to a whole number, and finding its binary exponent. Every
exact rule on numbers in this library is one of these two on exact integers: reading a decimal,
writing one with fixed places, and finding the fewest digits that read back.
-/

namespace TableCalc.Number

-- ============================================================== quotients

/-- Where a quotient that lies halfway between two whole numbers goes. -/
inductive Tie where
  /-- To the even one of the two. -/
  | toEven
  /-- To the greater one, away from zero. -/
  | away
  deriving DecidableEq, Repr

/-- The whole number nearest to `num / den`; `tie` decides between two that are equally near. -/
def roundDiv (tie : Tie) (num den : Nat) : Nat :=
  let whole := num / den
  let rest := num % den
  if 2 * rest < den then whole
  else if den < 2 * rest then whole + 1
  else match tie with
    | .toEven => whole + whole % 2
    | .away => whole + 1

/-- The binary exponent of a positive quotient: the `k` with `2 ^ k ≤ num / den < 2 ^ (k + 1)`.
The difference of the two logarithms is either `k` or one more than `k`, and one comparison of
exact products tells which. -/
def binaryExponent (num den : Nat) : Int :=
  let k : Int := (num.log2 : Int) - den.log2
  if den * Nat.pow 2 k.toNat ≤ num * Nat.pow 2 (-k).toNat then k else k - 1

end TableCalc.Number
