/-
Which combinator goes when a block goes. A formula is a row of blocks with a combinator between any
two neighbours; taking a block out makes two combinators meet, and one of them has to go. It is the
one behind the block. So the block in front keeps its own and is joined by it to the block that
follows now, and only of the last block, which has none behind it, the one before it goes.

`former` tells where a block stood before the removal, and then one equation says all of it: a block
that still has a block behind it has the combinator behind it that it had
(`combinatorAfter?_without`). `RemovedFrom` spells this out for the neighbours that stay neighbours
and for the two that become neighbours, and says which combinator is lost: putting it back in its
place gives the combinators from before.
-/

import Mathlib.Data.List.InsertIdx
import TableCalc.Proofs.Formula.InRange

namespace TableCalc.Formula

variable {f g : Formula} {b : Block} {i k : Nat}

-- =========================================================== the statement

/-- Where the block at `k` stood before block `i` was taken out. -/
def former (i k : Nat) : Nat := if k < i then k else k + 1

/-- A formula `g` is `f` with the block `b` taken out at `i`: the other blocks are in order,
neighbours that were neighbours before are joined as before, the two that become neighbours are
joined by what was before the block, and one combinator is lost. -/
structure RemovedFrom (f : Formula) (i : Nat) (b : Block) (g : Formula) : Prop where
  wellFormed : g.WellFormed
  block : f.blocks[i]? = some b
  size : g.size + 1 = f.size
  others : ∀ k, g.blocks[k]? = f.blocks[former i k]?
  neighbours : ∀ k, k + 1 < g.size → former i (k + 1) = former i k + 1 →
    ∃ op, f.combinatorAfter? (former i k) = some op ∧ g.combinatorAfter? k = some op
  bridged : 0 < i → i + 1 < f.size →
    ∃ op, f.combinatorAfter? (i - 1) = some op ∧ g.combinatorAfter? (i - 1) = some op
  lost : i + 1 < f.size → ∃ op, f.combinatorAfter? i = some op
    ∧ f.combinators = g.combinators.insertIdx i op
  lostAtEnd : i + 1 = f.size → 0 < i → ∃ op, f.combinatorAfter? (i - 1) = some op
    ∧ f.combinators = g.combinators ++ [op]

-- ============================================== the combinator that goes

/-- The position of the combinator that goes with a block: the one behind it, or, of the last block,
the one before it. -/
def joint (f : Formula) (i : Nat) : Nat := if i + 1 < f.size then i else i - 1

theorem combinators_without (hf : f.WellFormed) (hi : i < f.size) :
    (f.without i).combinators = f.combinators.eraseIdx (f.joint i) := by
  have hjoint : min i (f.combinators.length - 1) = f.joint i := by
    unfold joint
    unfold WellFormed at hf
    unfold size at *
    split <;> omega
  rw [without, hjoint]

theorem blocks_without (f : Formula) (i k : Nat) :
    (f.without i).blocks[k]? = f.blocks[former i k]? := by
  rw [without, List.getElem?_eraseIdx, former]
  split <;> rfl

/-- A block that still has a block behind it keeps the combinator behind it. -/
theorem combinatorAfter?_without (hf : f.WellFormed) (hi : i < f.size)
    (hk : k + 1 < (f.without i).size) :
    (f.without i).combinatorAfter? k = f.combinatorAfter? (former i k) := by
  -- at the end of the formula nothing moves up, and `k` is in front of the joint as of the block
  have hside : k < f.joint i ↔ k < i := by
    have hsize := size_without hi
    unfold joint
    split <;> omega
  unfold combinatorAfter? former
  rw [combinators_without hf hi, List.getElem?_eraseIdx]
  simp only [hside]
  split <;> rfl

/-- In front of the end of a well-formed formula every block has a combinator behind it. -/
theorem exists_combinatorAfter? (hf : f.WellFormed) (hi : i + 1 < f.size) :
    ∃ op, f.combinatorAfter? i = some op :=
  Option.isSome_iff_exists.mp ((combinatorAfter?_isSome hf i).mpr hi)

theorem exists_kept (hf : f.WellFormed) (hi : i < f.size) (hk : k + 1 < (f.without i).size) :
    ∃ op, f.combinatorAfter? (former i k) = some op
      ∧ (f.without i).combinatorAfter? k = some op := by
  have hformer : former i k + 1 < f.size := by
    have hsize := size_without hi
    unfold former
    split <;> omega
  obtain ⟨op, hop⟩ := exists_combinatorAfter? hf hformer
  exact ⟨op, hop, by rw [combinatorAfter?_without hf hi hk, hop]⟩

/-- The combinator that goes is the only one: put back in its place it makes up the old list. -/
theorem exists_lost (hf : f.WellFormed) (hi : i < f.size) (hsome : 1 < f.size) :
    ∃ op, f.combinatorAfter? (f.joint i) = some op
      ∧ f.combinators = (f.without i).combinators.insertIdx (f.joint i) op := by
  have hjoint : f.joint i + 1 < f.size := by
    unfold joint
    split <;> omega
  obtain ⟨op, hop⟩ := exists_combinatorAfter? hf hjoint
  obtain ⟨hlt, rfl⟩ := List.getElem?_eq_some_iff.mp hop
  refine ⟨_, hop, ?_⟩
  rw [combinators_without hf hi, List.insertIdx_eraseIdx_getElem hlt]

-- ============================================================ the removal

theorem wellFormed_without (hf : f.WellFormed) (hi : i < f.size) : (f.without i).WellFormed :=
  wellFormed_remove hf (remove_of_block (List.getElem?_eq_getElem hi))

theorem removedFrom_without (hf : f.WellFormed) (hb : f.blocks[i]? = some b) :
    f.RemovedFrom i b (f.without i) := by
  have hi : i < f.size := (List.getElem?_eq_some_iff.mp hb).1
  have hsize := size_without hi
  constructor
  case wellFormed => exact wellFormed_without hf hi
  case block => exact hb
  case size => exact hsize
  case others => exact f.blocks_without i
  case neighbours => exact fun k hk _ => exists_kept hf hi hk
  case bridged =>
    intro hpos hinner
    have hformer : former i (i - 1) = i - 1 := if_pos (by omega)
    have hkept := exists_kept (k := i - 1) hf hi (by omega)
    rwa [hformer] at hkept
  case lost =>
    intro hinner
    have hjoint : f.joint i = i := if_pos hinner
    have hlost := exists_lost hf hi (by omega)
    rwa [hjoint] at hlost
  case lostAtEnd =>
    intro hlast hpos
    have hjoint : f.joint i = i - 1 := if_neg (by omega)
    obtain ⟨op, hop, hback⟩ := exists_lost hf hi (by omega)
    rw [hjoint] at hop hback
    refine ⟨op, hop, ?_⟩
    have hlen : (f.without i).combinators.length = i - 1 := by
      rw [wellFormed_without hf hi]
      unfold size at *
      omega
    rwa [← hlen, List.insertIdx_length_self] at hback

/-- A block that was just appended comes out again, and nothing else changes. -/
theorem remove_push (hf : f.WellFormed) (b : Block) : (f.push b).remove f.size = .ok (b, f) := by
  have hblock : (f.push b).blocks[f.size]? = some b := by
    rw [push, size, List.getElem?_concat_length]
  have hsize : (f.push b).size = f.size + 1 := by
    rw [size, push, List.length_append, List.length_singleton, size]
  have hjoint : (f.push b).joint f.size = f.size - 1 := if_neg (by omega)
  have hblocks : ((f.push b).without f.size).blocks = f.blocks := by
    rw [without, List.eraseIdx_eq_dropLast hsize.symm, push, List.dropLast_concat]
  have hops : ((f.push b).without f.size).combinators = f.combinators := by
    rw [combinators_without (wellFormed_push hf b) (by omega), hjoint, push]
    unfold WellFormed at hf
    cases hbs : f.blocks with
    | nil =>
        rw [hbs] at hf
        rw [List.length_eq_zero_iff.mp hf]
        rfl
    | cons b' bs =>
        have hlen : f.size - 1 + 1 = (f.combinators ++ [Combinator.add]).length := by
          rw [List.length_append, hf]
          rfl
        exact (List.eraseIdx_eq_dropLast hlen).trans List.dropLast_concat
  have hwithout : (f.push b).without f.size = f := by
    calc (f.push b).without f.size
        = ⟨((f.push b).without f.size).blocks, ((f.push b).without f.size).combinators⟩ := rfl
      _ = ⟨f.blocks, f.combinators⟩ := by rw [hblocks, hops]
  rw [remove_of_block hblock, hwithout]

-- ========================================================== the conclusion

/-- A removal inside a well-formed formula goes through, and takes the block out as `RemovedFrom`
says; and a block that is appended in place and removed by the position told is handed back, with
the formula as it was. -/
theorem removal_keeps_joints (hf : f.WellFormed) :
    (∀ i, i < f.size → ∃ b g, f.remove i = .ok (b, g) ∧ f.RemovedFrom i b g)
      ∧ ∀ b, (Editing.push b >>= Editing.remove).outcome f = some (.ok b, f) := by
  constructor
  · intro i hi
    have hb := List.getElem?_eq_getElem hi
    exact ⟨_, _, remove_of_block hb, removedFrom_without hf hb⟩
  · intro b
    rw [Editing.outcome_bind, Editing.outcome_push]
    show (Editing.remove f.size).outcome (f.push b) = _
    rw [Editing.outcome_remove, remove_push hf b]
    rfl

/-- Of four blocks the second is taken out: the product before the third goes with it, and the
first is added to the third. -/
theorem removal_keeps_joints_second :
    let f : Formula := ⟨[.constant 1.0, .constant 2.0, .constant 3.0, .constant 4.0],
      [.add, .multiply, .subtract]⟩
    f.WellFormed
      ∧ (∃ b g, f.remove 1 = .ok (b, g) ∧ f.RemovedFrom 1 b g)
      ∧ (f.remove 1).map (·.2.combinators) = .ok [.add, .subtract]
      ∧ ∀ b, (Editing.push b >>= Editing.remove).outcome f = some (.ok b, f) := by
  intro f
  have hf : f.WellFormed := by decide
  have hremoval := removal_keeps_joints hf
  exact ⟨hf, hremoval.1 1 (by decide), rfl, hremoval.2⟩

end TableCalc.Formula
