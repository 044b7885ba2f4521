/-
A join taken apart. `join` has an answer for any values and any combinators, also where there are
too few combinators, or too many. Wherever it is interrupted it goes on as a join: of what the
values so far come to, followed by the other values, with the combinators not used yet
(`join_append`). So the running value is all that a join knows of its past, and what happens at one
value is a matter of that value and its combinator (`exists_join_around`). A combinator that is not
known hands the running value on, and can be left out with its value; a division by zero hands on
zero whatever the running value is, and the past is forgotten.
-/

import Mathlib.Data.List.Basic
import TableCalc.Formula.Combinator

namespace TableCalc

variable {vs front back : List Float} {ops ops' : List Combinator} {i : Nat} {v : Float}
  {op : Combinator}

-- ========================================================== the statement

/-- The combinator at a position; where the combinators run out, it is addition. -/
def combinatorAt (ops : List Combinator) (i : Nat) : Combinator := ops[i]?.getD .add

/-- Values are joined in sequence. The join can be cut behind any of them, the running value standing
for those in front of the cut; it reads the combinators between the values and no others; a value
behind a combinator that is not known can be left out with it; and behind a division by a zero, of
either sign, the join starts again from zero. -/
structure JoinedInSequence (vs : List Float) (ops : List Combinator) : Prop where
  cut : ∀ front back, front ≠ [] → front ++ back = vs →
    ∃ running, join front ops = some running
      ∧ join vs ops = join (running :: back) (ops.drop (front.length - 1))
  between : ∀ ops', (∀ i, i + 1 < vs.length → combinatorAt ops' i = combinatorAt ops i) →
    join vs ops' = join vs ops
  skip : ∀ i symbol, i + 1 < vs.length → ops[i]? = some (.unsupported symbol) →
    join (vs.eraseIdx (i + 1)) (ops.eraseIdx i) = join vs ops
  restart : ∀ i v, vs[i + 1]? = some v → (v == 0.0) = true → ops[i]? = some .divide →
    join vs ops = join (0.0 :: vs.drop (i + 2)) (ops.drop (i + 1))

-- =================================================================== cuts

theorem joinAll_cons (running v : Float) (vs : List Float) (ops : List Combinator) :
    joinAll running (v :: vs) ops = joinAll ((combinatorAt ops 0).apply running v) vs ops.tail := by
  cases ops with
  | nil => rfl
  | cons op ops => rfl

/-- Further values are joined to what those before them come to, by the combinators left. -/
theorem joinAll_append (running : Float) (vs ws : List Float) (ops : List Combinator) :
    joinAll running (vs ++ ws) ops = joinAll (joinAll running vs ops) ws (ops.drop vs.length) := by
  induction vs generalizing running ops with
  | nil => rfl
  | cons v vs ih =>
      rw [List.cons_append, joinAll_cons, ih, joinAll_cons, List.drop_tail, List.length_cons]

theorem join_append (hfront : front ≠ []) (back : List Float) (ops : List Combinator) :
    ∃ running, join front ops = some running
      ∧ join (front ++ back) ops = join (running :: back) (ops.drop (front.length - 1)) := by
  cases front with
  | nil => exact absurd rfl hfront
  | cons first rest =>
      refine ⟨joinAll first rest ops, rfl, ?_⟩
      rw [List.cons_append, join, joinAll_append]
      rfl

-- ============================================================= combinators

/-- Only the combinator in front of each further value is read. -/
theorem joinAll_congr (h : ∀ i < vs.length, combinatorAt ops' i = combinatorAt ops i)
    (running : Float) : joinAll running vs ops' = joinAll running vs ops := by
  induction vs generalizing running ops ops' with
  | nil => rfl
  | cons v vs ih =>
      have htail : ∀ ops i, combinatorAt (List.tail ops) i = combinatorAt ops (i + 1) := by
        intro ops i
        rw [combinatorAt, List.getElem?_tail, combinatorAt]
      rw [joinAll_cons, joinAll_cons, h 0 (Nat.zero_lt_succ _)]
      apply ih
      intro i hi
      rw [htail, htail]
      exact h (i + 1) (Nat.succ_lt_succ hi)

theorem join_congr (h : ∀ i, i + 1 < vs.length → combinatorAt ops' i = combinatorAt ops i) :
    join vs ops' = join vs ops := by
  cases vs with
  | nil => rfl
  | cons first rest =>
      rw [join, join, joinAll_congr fun i hi => h i (Nat.succ_lt_succ hi)]

-- =============================================================== one value

/-- Values up to a position, and any others behind them. -/
theorem exists_join_take (hi : i < vs.length) (ws : List Float) (ops : List Combinator) :
    ∃ running, join (vs.take (i + 1)) ops = some running
      ∧ join (vs.take (i + 1) ++ ws) ops = join (running :: ws) (ops.drop i) := by
  have hlength : (vs.take (i + 1)).length = i + 1 := List.length_take_of_le hi
  have hfront : vs.take (i + 1) ≠ [] := List.ne_nil_of_length_pos (by omega)
  obtain ⟨running, hrunning, hjoin⟩ := join_append hfront ws ops
  rw [hlength, Nat.add_sub_cancel] at hjoin
  exact ⟨running, hrunning, hjoin⟩

/-- A value is joined by its combinator to what the values before it come to, and the rest to
that. -/
theorem exists_join_around (hv : vs[i + 1]? = some v) (hop : ops[i]? = some op) :
    ∃ running, join (vs.take (i + 1)) ops = some running
      ∧ join vs ops = join (op.apply running v :: vs.drop (i + 2)) (ops.drop (i + 1)) := by
  obtain ⟨hlt, rfl⟩ := List.getElem?_eq_some_iff.mp hv
  obtain ⟨hlt', rfl⟩ := List.getElem?_eq_some_iff.mp hop
  obtain ⟨running, hrunning, hjoin⟩ :=
    exists_join_take (Nat.lt_of_succ_lt hlt) (vs.drop (i + 1)) ops
  refine ⟨running, hrunning, ?_⟩
  rw [List.take_append_drop] at hjoin
  rw [hjoin, List.drop_eq_getElem_cons hlt, List.drop_eq_getElem_cons hlt']
  rfl

/-- A value behind a combinator that is not known can be left out with it. -/
theorem join_eraseIdx {symbol : String} (hi : i + 1 < vs.length)
    (hop : ops[i]? = some (.unsupported symbol)) :
    join (vs.eraseIdx (i + 1)) (ops.eraseIdx i) = join vs ops := by
  obtain ⟨running, hrunning, hjoin⟩ := exists_join_around (List.getElem?_eq_getElem hi) hop
  obtain ⟨running', hrunning', hjoin'⟩ :=
    exists_join_take (Nat.lt_of_succ_lt hi) (vs.drop (i + 2)) (ops.eraseIdx i)
  -- the values in front come to the same, since the combinators between them stay
  have hbefore : join (vs.take (i + 1)) (ops.eraseIdx i) = join (vs.take (i + 1)) ops := by
    apply join_congr
    intro k hk
    rw [List.length_take_of_le (Nat.le_of_lt hi)] at hk
    rw [combinatorAt, List.getElem?_eraseIdx_of_lt (by omega), combinatorAt]
  rw [hbefore, hrunning] at hrunning'
  cases hrunning'
  have hbehind : (ops.eraseIdx i).drop i = ops.drop (i + 1) := by
    have hle : i ≤ ops.length := Nat.le_of_lt (List.getElem?_eq_some_iff.mp hop).1
    rw [List.eraseIdx_eq_take_drop_succ, List.drop_left' (List.length_take_of_le hle)]
  rw [List.eraseIdx_eq_take_drop_succ, hjoin', hbehind, hjoin]
  rfl

/-- Behind a division by zero the join starts again from zero. -/
theorem join_eq_restarted (hv : vs[i + 1]? = some v) (hzero : (v == 0.0) = true)
    (hop : ops[i]? = some .divide) :
    join vs ops = join (0.0 :: vs.drop (i + 2)) (ops.drop (i + 1)) := by
  obtain ⟨running, -, hjoin⟩ := exists_join_around hv hop
  have happly : Combinator.divide.apply running v = 0.0 := if_pos hzero
  rw [hjoin, happly]

-- ========================================================= the conclusion

/-- Whatever the values and the combinators, and however many of each, they are joined in
sequence. -/
theorem joined_in_sequence (vs : List Float) (ops : List Combinator) :
    JoinedInSequence vs ops where
  cut front back hfront hvs := by
    rw [← hvs]
    exact join_append hfront back ops
  between _ h := join_congr h
  skip _ _ hi hop := join_eraseIdx hi hop
  restart _ _ hv hzero hop := join_eq_restarted hv hzero hop

-- a value left out, a division by minus zero, and a value without a combinator
example : join [8.0, 5.0, -0.0, 3.0] [.unsupported "%", .divide] = some 3.0 := by decide +kernel

end TableCalc
