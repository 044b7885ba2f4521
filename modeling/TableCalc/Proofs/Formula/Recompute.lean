/-
What an edit changes of an evaluation. Blocks are evaluated one by one and joined from left to
right, so an edit shows only where it strikes: a block pushed is a value more and one more value
joined, a block removed is a value less, and a patched block changes its own value. The running
values of the join (`accumulators`) tell the rest: removing the last block takes the result back to
the running value before it, and a combinator touches no running value in front of it.

The evaluations before and after the edit are two separate runs, each with its own notes;
`Formula.interim_eq` reduces both to values of single blocks, and from there on it is lists.
-/

import Mathlib.Data.List.InsertIdx
import TableCalc.Proofs.Formula.Edits
import TableCalc.Proofs.Formula.Evaluation
import TableCalc.Proofs.Formula.Join

namespace TableCalc

variable {t : Table} {f g : Formula} {i : Nat}

-- ============================================================ the statement

/-- The running values of an evaluation, from the first block's value to the result. -/
def Formula.runningValues (t : Table) (f : Formula) : List Float :=
  accumulators (f.evaluate t).interim f.combinators

/-- What evaluating again after one edit has to do with the evaluation before: after a block is
pushed, its value comes last and is added; after one is removed, its value is gone, and without the
last one the result is the running value before it; after a patch all values but the patched one
are as before, and after one of a combinator alone all values, with the running values up to it. -/
structure Formula.Recomputes (t : Table) (f : Formula) : Prop where
  result : (f.evaluate t).result = (f.runningValues t).getLast?
  push : ∀ b : Block, ∃ v, (∀ before, ((b.evaluate t).run before).1 = v)
    ∧ ((f.push b).evaluate t).interim = (f.evaluate t).interim ++ [v]
    ∧ (f.blocks = [] → ((f.push b).evaluate t).result = some v)
    ∧ (f.blocks ≠ [] → ∃ r, (f.evaluate t).result = some r
        ∧ ((f.push b).evaluate t).result = some (r + v))
  remove : ∀ i, i < f.size → ∃ b g, f.remove i = .ok (b, g)
    ∧ (g.evaluate t).interim = (f.evaluate t).interim.eraseIdx i
    ∧ (i + 1 = f.size → (g.evaluate t).result = (f.runningValues t).dropLast.getLast?)
  update : ∀ i p g, f.update i p = .ok g →
    (g.evaluate t).interim.length = (f.evaluate t).interim.length
      ∧ ∀ k, k ≠ i → (g.evaluate t).interim[k]? = (f.evaluate t).interim[k]?
  rejoin : ∀ i op g, f.update i { combinator := some op } = .ok g →
    (g.evaluate t).interim = (f.evaluate t).interim
      ∧ (g.runningValues t).take (i + 1) = (f.runningValues t).take (i + 1)

-- ============================================================= evaluations

theorem Formula.interim_eq (t : Table) (f : Formula) :
    (f.evaluate t).interim = f.blocks.map (Block.value t) := by
  rw [evaluate_eq]

theorem Formula.result_eq (t : Table) (f : Formula) :
    (f.evaluate t).result = join (f.blocks.map (Block.value t)) f.combinators := by
  rw [evaluate_eq]

/-- The result of a well-formed formula is its last running value. -/
theorem Formula.WellFormed.result_eq_getLast? (hf : f.WellFormed) :
    (f.evaluate t).result = (f.runningValues t).getLast? := by
  rw [f.result_eq, runningValues, f.interim_eq]
  apply join_eq_getLast?
  rw [List.length_map]
  exact hf

-- ===================================================================== push

theorem Formula.interim_push (b : Block) :
    ((f.push b).evaluate t).interim = (f.evaluate t).interim ++ [b.value t] := by
  rw [interim_eq, interim_eq, push, List.map_append]
  rfl

theorem Formula.result_push_of_empty (hf : f.WellFormed) (hempty : f.blocks = []) (b : Block) :
    ((f.push b).evaluate t).result = some (b.value t) := by
  have hops : f.combinators = [] := by
    unfold WellFormed at hf
    rw [hempty] at hf
    exact List.length_eq_zero_iff.mp hf
  rw [result_eq, push, hempty, hops]
  rfl

theorem Formula.result_push (hf : f.WellFormed) (hsome : f.blocks ≠ []) (b : Block) :
    ((f.push b).evaluate t).result = (f.evaluate t).result.map (· + b.value t) := by
  have hlen : f.combinators.length + 1 = (f.blocks.map (Block.value t)).length := by
    have hpos := List.length_pos_iff.mpr hsome
    unfold WellFormed at hf
    rw [List.length_map]
    omega
  have hsome' : f.blocks.isEmpty = false := List.isEmpty_eq_false_iff.mpr hsome
  rw [result_eq, result_eq, push, hsome', List.map_append]
  exact join_concat hlen (b.value t) .add

-- =================================================================== remove

/-- Inside the formula a removal goes through. -/
theorem Formula.remove_eq_ok (hi : i < f.size) : ∃ b g, f.remove i = .ok (b, g) := by
  unfold size at hi
  rw [remove, List.getElem?_eq_getElem hi]
  exact ⟨_, _, rfl⟩

theorem Formula.interim_remove {b : Block} (h : f.remove i = .ok (b, g)) :
    (g.evaluate t).interim = (f.evaluate t).interim.eraseIdx i := by
  obtain ⟨-, rfl⟩ := remove_ok h
  rw [interim_eq, interim_eq]
  exact (List.eraseIdx_map ..).symm

/-- Without its last block a formula comes to its last running value but one. -/
theorem Formula.result_remove_last {b : Block} (hf : f.WellFormed) (h : f.remove i = .ok (b, g))
    (hlast : i + 1 = f.size) :
    (g.evaluate t).result = (f.runningValues t).dropLast.getLast? := by
  obtain ⟨-, rfl⟩ := remove_ok h
  have hblocks : f.blocks.eraseIdx i = f.blocks.dropLast := List.eraseIdx_eq_dropLast hlast
  have hops : f.combinators.eraseIdx (min i (f.combinators.length - 1))
      = f.combinators.dropLast := by
    unfold WellFormed at hf
    unfold size at hlast
    rcases Nat.eq_zero_or_pos f.combinators.length with hzero | hpos
    · rw [List.length_eq_zero_iff.mp hzero]
      rfl
    · apply List.eraseIdx_eq_dropLast
      omega
  rw [result_eq, runningValues, interim_eq, hblocks, hops, List.map_dropLast]
  apply join_dropLast
  rw [List.length_map]
  exact hf

-- =================================================================== update

/-- A patch changes the value of the patched block, if any. -/
theorem Formula.interim_update {p : Patch} (h : f.update i p = .ok g) :
    ∃ v, (g.evaluate t).interim = (f.evaluate t).interim.set i v := by
  obtain ⟨b, ops, -, -, rfl⟩ := update_ok h
  refine ⟨(b.patched p).value t, ?_⟩
  rw [interim_eq, interim_eq]
  exact List.map_set

/-- A patch of a combinator alone leaves the block as it is. -/
theorem Formula.blocks_rejoin {op : Combinator}
    (h : f.update i { combinator := some op } = .ok g) : g.blocks = f.blocks := by
  obtain ⟨b, ops, hb, -, rfl⟩ := update_ok h
  obtain ⟨hi, hb⟩ := List.getElem?_eq_some_iff.mp hb
  show f.blocks.set i (b.patched { combinator := some op }) = f.blocks
  rw [b.patched_combinator, ← hb, List.set_getElem_self]

/-- The combinator after a block stands behind the running value of that block. -/
theorem Formula.take_combinators_rejoin {op : Combinator}
    (h : f.update i { combinator := some op } = .ok g) :
    g.combinators.take i = f.combinators.take i := by
  obtain ⟨b, ops, -, hops, rfl⟩ := update_ok h
  rcases rejoined_ok hops with ⟨-, rfl⟩ | ⟨new, -, -, -, rfl⟩
  · rfl
  · exact List.take_set_of_le (Nat.le_refl i)

theorem Formula.runningValues_rejoin {op : Combinator}
    (h : f.update i { combinator := some op } = .ok g) :
    (g.runningValues t).take (i + 1) = (f.runningValues t).take (i + 1) := by
  rw [runningValues, runningValues, interim_eq, interim_eq, blocks_rejoin h]
  exact take_accumulators_congr (take_combinators_rejoin h)

-- =========================================================== the conclusion

theorem Formula.WellFormed.recomputes (hf : f.WellFormed) (t : Table) : f.Recomputes t where
  result := hf.result_eq_getLast?
  push := by
    intro b
    refine ⟨b.value t, ?_, interim_push b, ?_, ?_⟩
    · intro before
      rw [b.yields_evaluate t before]
    · exact fun hempty => result_push_of_empty hf hempty b
    · intro hsome
      obtain ⟨b', bs, hbs⟩ := List.exists_cons_of_ne_nil hsome
      have hresult : (f.evaluate t).result = some (joinAll (b'.value t) (bs.map (Block.value t))
          f.combinators) := by
        rw [result_eq, hbs]
        rfl
      refine ⟨_, hresult, ?_⟩
      rw [result_push hf hsome, hresult]
      rfl
  remove := by
    intro i hi
    obtain ⟨b, g, h⟩ := remove_eq_ok hi
    exact ⟨b, g, h, interim_remove h, result_remove_last hf h⟩
  update := by
    intro i p g h
    obtain ⟨v, hv⟩ := interim_update (t := t) h
    rw [hv]
    exact ⟨List.length_set, fun k hk => List.getElem?_set_ne hk.symm⟩
  rejoin := by
    intro i op g h
    refine ⟨?_, runningValues_rejoin h⟩
    rw [interim_eq, interim_eq, blocks_rejoin h]

/-- Evaluating a formula again after one more edit changes only what the edit touches, on any table
and whatever edits made the formula. -/
theorem edit_recomputes (t : Table) (es : List Edit) : (Formula.afterEdits es).Recomputes t :=
  (Formula.wellFormed_afterEdits es).recomputes t

end TableCalc
