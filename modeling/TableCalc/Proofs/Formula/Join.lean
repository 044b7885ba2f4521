/-
The join of values as a fold. `join` walks two lists of different lengths, values and combinators,
and has an answer for any two lists; in a formula each value but the first has a combinator of its
own, and then the join is the left fold of the pairs, with a running value after each of them
(`accumulators`). The running values are what a join is compared by when the formula changes: a
value more at the end is a running value more, and a change at one combinator leaves the running
values before it alone.
-/

import Mathlib.Data.List.Induction
import TableCalc.Formula.Combinator

namespace TableCalc

variable {vs : List Float} {ops : List Combinator}

-- ============================================================== the fold

/-- A running value with one more value joined to it, by the combinator in front of that value. -/
def joined (running : Float) (next : Float × Combinator) : Float := next.2.apply running next.1

/-- The running values of a join, one for each value: the first value itself, and then each joined
to the one before. -/
def accumulators : List Float → List Combinator → List Float
  | [], _ => []
  | first :: rest, ops => (rest.zip ops).scanl joined first

theorem joinAll_eq_foldl (h : ops.length = vs.length) (running : Float) :
    joinAll running vs ops = (vs.zip ops).foldl joined running := by
  induction vs generalizing ops running with
  | nil => rfl
  | cons v vs ih =>
      cases ops with
      | nil => cases h
      | cons op ops => exact ih (Nat.succ.inj h) (op.apply running v)

/-- The join is the last of the running values. -/
theorem join_eq_getLast? (h : ops.length = vs.length - 1) :
    join vs ops = (accumulators vs ops).getLast? := by
  cases vs with
  | nil => rfl
  | cons first rest =>
      rw [join, joinAll_eq_foldl h, accumulators, List.getLast?_scanl]

-- ========================================================= one value more

/-- A value more is joined to what the values before it come to. -/
theorem join_concat (h : ops.length + 1 = vs.length) (v : Float) (op : Combinator) :
    join (vs ++ [v]) (ops ++ [op]) = (join vs ops).map fun running => op.apply running v := by
  cases vs with
  | nil => cases h
  | cons first rest =>
      have hlen : ops.length = rest.length := Nat.succ.inj h
      have hlen' : (ops ++ [op]).length = (rest ++ [v]).length := by
        rw [List.length_append, List.length_append, hlen]
        rfl
      rw [List.cons_append, join, join, joinAll_eq_foldl hlen', joinAll_eq_foldl hlen,
        List.zip_append hlen.symm, List.foldl_append]
      rfl

/-- A value more is a running value more: those before it stay. -/
theorem dropLast_accumulators_concat (h : ops.length + 1 = vs.length) (v : Float)
    (op : Combinator) :
    (accumulators (vs ++ [v]) (ops ++ [op])).dropLast = accumulators vs ops := by
  cases vs with
  | nil => cases h
  | cons first rest =>
      have hlen : rest.length = ops.length := (Nat.succ.inj h).symm
      rw [List.cons_append, accumulators, accumulators, List.zip_append hlen, List.scanl_append]
      simp

/-- Without the last value the join is the last running value but one, and nothing if it was the
only value. -/
theorem join_dropLast (h : ops.length = vs.length - 1) :
    join vs.dropLast ops.dropLast = (accumulators vs ops).dropLast.getLast? := by
  rcases List.eq_nil_or_concat vs with rfl | ⟨ws, v, rfl⟩
  · rfl
  · rw [List.concat_eq_append] at h ⊢
    rw [List.length_append, List.length_singleton, Nat.add_sub_cancel] at h
    rw [List.dropLast_concat]
    rcases List.eq_nil_or_concat ops with rfl | ⟨ops, op, rfl⟩
    · rw [List.length_eq_zero_iff.mp h.symm]
      rfl
    · rw [List.concat_eq_append] at h ⊢
      rw [List.length_append, List.length_singleton] at h
      rw [List.dropLast_concat, dropLast_accumulators_concat h]
      apply join_eq_getLast?
      omega

/-- Up to a position the running values depend on the values and combinators up to there. -/
theorem take_accumulators_congr {ops' : List Combinator} {i : Nat}
    (h : ops'.take i = ops.take i) :
    (accumulators vs ops').take (i + 1) = (accumulators vs ops).take (i + 1) := by
  cases vs with
  | nil => rfl
  | cons first rest =>
      have hzip : (rest.zip ops').take i = (rest.zip ops).take i := by
        rw [List.zip_eq_zipWith, List.zip_eq_zipWith, List.take_zipWith, List.take_zipWith, h]
      rw [accumulators, accumulators, List.take_scanl, List.take_scanl, hzip]

end TableCalc
