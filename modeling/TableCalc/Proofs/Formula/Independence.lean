/-
Edits of different blocks in either order. Two patches of different blocks touch different positions
of both lists and commute. A removal moves what is behind it one position up, and which combinator
goes with the block depends on whether it is the last one at that moment; with the positions
shifted, two removals commute, and a removal commutes with a patch of another block.

There is one exception. When the last block goes, the block before it becomes the last one, and has
no combinator behind it any more: a patch of that block with a combinator is accepted before the
removal and refused after it. `Dangles` names this case and `Independent` leaves it out.

Chain: to both lists a patch is `List.modify` and a removal is `List.eraseIdx`, so what the edits do
commutes by facts about lists (`patched_comm`, `without_comm`, `without_patched`), dangling or not.
`refusal?_update` then says when an update is done at all.
-/

import TableCalc.Proofs.Formula.Removal

namespace TableCalc.Formula

variable {f g : Formula} {i j : Nat} {p q : Patch}

-- =========================================================== the statement

/-- Why an edit is refused, if it is. -/
def refusal? (f : Formula) (e : Edit) : Option EditError :=
  match f.edited e with
  | .ok _ => none
  | .error err => some err

/-- Where the block at `j` stands after block `i` is taken out. -/
def shifted (i j : Nat) : Nat := if i < j then j - 1 else j

/-- A patch of block `j` with a combinator that has no place any more once block `i` is gone. -/
def Dangles (f : Formula) (i j : Nat) (p : Patch) : Prop :=
  i + 1 = f.size ∧ j + 1 = i ∧ p.combinator.isSome = true

/-- Edits of different blocks do not depend on their order. Two updates come to the same formula,
and whether one is refused, and why, does not depend on the other. Two removals go through in either
order, hand back the same blocks and come to the same formula; and so do a removal and an update
that does not dangle, which is refused in both orders or in neither. One that dangles is refused
after the removal only. -/
structure Independent (f : Formula) : Prop where
  updates : ∀ i j p q, i ≠ j →
    (f.attempted (.update i p)).attempted (.update j q)
        = (f.attempted (.update j q)).attempted (.update i p)
      ∧ (f.attempted (.update j q)).refusal? (.update i p) = f.refusal? (.update i p)
  removals : ∀ i j, i < j → j < f.size → ∃ a b g h k,
    f.remove j = .ok (b, g) ∧ g.remove i = .ok (a, k)
      ∧ f.remove i = .ok (a, h) ∧ h.remove (j - 1) = .ok (b, k)
  removalAndUpdate : ∀ i j p, i < f.size → j ≠ i → ¬ f.Dangles i j p → ∃ b g h,
    f.remove i = .ok (b, g)
      ∧ (f.attempted (.update j p)).remove i = .ok (b, h)
      ∧ g.attempted (.update (shifted i j) p) = h
      ∧ (g.refusal? (.update (shifted i j) p) = none ↔ f.refusal? (.update j p) = none)
  dangling : ∀ i j p, f.Dangles i j p → f.refusal? (.update j p) = none ∧ ∃ b g,
    f.remove i = .ok (b, g) ∧ g.refusal? (.update j p) = some (.lastBlock j)

-- ========================================================= the two lists

section Lists

variable {α : Type} {xs : List α}

theorem eraseIdx_comm (hij : i < j) :
    (xs.eraseIdx j).eraseIdx i = (xs.eraseIdx i).eraseIdx (j - 1) := by
  apply List.ext_getElem?
  intro k
  simp only [List.getElem?_eraseIdx]
  -- both sides ask for one position, on whichever side of `i` and of `j` it is
  by_cases hki : k < i
  · rw [if_pos hki, if_pos hki, if_pos (by omega), if_pos (by omega)]
  · rw [if_neg hki, if_neg hki]
    by_cases hkj : k + 1 < j
    · rw [if_pos hkj, if_pos (by omega)]
    · rw [if_neg hkj, if_neg (by omega), if_neg (by omega)]

theorem eraseIdx_modify (h : α → α) (hij : i ≠ j) :
    (xs.modify j h).eraseIdx i = (xs.eraseIdx i).modify (shifted i j) h := by
  unfold shifted
  split
  case isTrue hlt => exact List.eraseIdx_modify_of_lt h j i xs hlt
  case isFalse hlt => exact List.eraseIdx_modify_of_gt h j i xs (by omega)

end Lists

theorem patched_comm (hij : i ≠ j) (p q : Patch) :
    (f.patched i p).patched j q = (f.patched j q).patched i p := by
  simp only [patched, List.modify_modify_ne _ _ _ hij]

theorem without_comm (hf : f.WellFormed) (hij : i < j) (hj : j < f.size) :
    (f.without j).without i = (f.without i).without (j - 1) := by
  have hi : i < f.size := by omega
  have hsizej := size_without hj
  have hsizei := size_without hi
  apply eq_of_lists
  · exact eraseIdx_comm hij
  · rw [combinators_without (wellFormed_without hf hj) (by omega), combinators_without hf hj,
      combinators_without (wellFormed_without hf hi) (by omega), combinators_without hf hi]
    have hjointi : f.joint i = i := if_pos (by omega)
    rw [hjointi]
    by_cases hinner : j + 1 < f.size
    · -- all four are inside
      have h₁ : f.joint j = j := if_pos hinner
      have h₂ : (f.without j).joint i = i := if_pos (by omega)
      have h₃ : (f.without i).joint (j - 1) = j - 1 := if_pos (by omega)
      rw [h₁, h₂, h₃, eraseIdx_comm hij]
    · have h₁ : f.joint j = j - 1 := if_neg hinner
      have h₃ : (f.without i).joint (j - 1) = j - 1 - 1 := if_neg (by omega)
      rw [h₁, h₃]
      by_cases hnext : i + 1 < j
      · have h₂ : (f.without j).joint i = i := if_pos (by omega)
        rw [h₂, eraseIdx_comm (by omega)]
      · -- the last two: the second one to go is the last one by then, whichever it is
        have h₂ : (f.without j).joint i = j - 1 - 1 := by
          unfold joint
          rw [if_neg (by omega)]
          omega
        have hi : j - 1 = i := by omega
        rw [h₂, hi]

/-- Even a patch that dangles does the same after the removal: its combinator then goes nowhere. -/
theorem without_patched (hf : f.WellFormed) (hi : i < f.size) (hij : i ≠ j) (p : Patch) :
    (f.patched j p).without i = (f.without i).patched (shifted i j) p := by
  have hjoint : (f.patched j p).joint i = f.joint i := by
    rw [joint, joint, size_patched]
  apply eq_of_lists
  · exact eraseIdx_modify _ hij
  · rw [combinators_without (wellFormed_patched hf j p) (by rwa [size_patched]), hjoint, patched,
      patched, combinators_without hf hi]
    by_cases hinner : i + 1 < f.size
    · rw [joint, if_pos hinner]
      exact eraseIdx_modify _ hij
    · rw [joint, if_neg hinner]
      by_cases hj : i - 1 = j
      · have hlen : (f.combinators.eraseIdx j).length ≤ shifted i j := by
          have hle := f.combinators.length_eraseIdx_le j
          unfold WellFormed at hf
          unfold size at hi hinner
          unfold shifted
          rw [List.length_eraseIdx]
          split <;> split <;> omega
        rw [hj, List.eraseIdx_modify_of_eq, List.modify_eq_self hlen]
      · have hshifted : shifted (i - 1) j = shifted i j := by
          unfold shifted
          split <;> split <;> omega
        rw [eraseIdx_modify _ hj, hshifted]

-- ============================================================ what is refused

/-- An update of a well-formed formula is refused by what is known of the size alone. -/
theorem refusal?_update (hf : f.WellFormed) (i : Nat) (p : Patch) :
    f.refusal? (.update i p) =
      if i < f.size then
        if p.combinator.isSome = true ∧ i + 1 = f.size then some (.lastBlock i) else none
      else some (.outOfRange i f.size) := by
  rw [refusal?, edited, update_eq hf]
  by_cases hi : i < f.size
  · rw [if_pos hi, if_pos hi]
    by_cases hlast : p.combinator.isSome = true ∧ i + 1 = f.size
    · rw [if_pos hlast, if_pos hlast]
    · rw [if_neg hlast, if_neg hlast]
  · rw [if_neg hi, if_neg hi]

theorem attempted_update (hf : f.WellFormed) (i : Nat) (p : Patch) :
    f.attempted (.update i p) =
      if f.refusal? (.update i p) = none then f.patched i p else f := by
  rw [refusal?_update hf, attempted, edited, update_eq hf]
  by_cases hi : i < f.size
  · rw [if_pos hi, if_pos hi]
    by_cases hlast : p.combinator.isSome = true ∧ i + 1 = f.size
    · rw [if_pos hlast, if_pos hlast]
      rfl
    · rw [if_neg hlast, if_neg hlast]
      rfl
  · rw [if_neg hi, if_neg hi]
    rfl

theorem size_attempted_update (hf : f.WellFormed) (i : Nat) (p : Patch) :
    (f.attempted (.update i p)).size = f.size := by
  rw [attempted_update hf]
  split
  · exact size_patched f i p
  · rfl

/-- Whether an update is refused does not depend on an update before it. -/
theorem refusal?_attempted_update (hf : f.WellFormed) (i j : Nat) (p q : Patch) :
    (f.attempted (.update j q)).refusal? (.update i p) = f.refusal? (.update i p) := by
  rw [refusal?_update (wellFormed_attempted hf _), refusal?_update hf, size_attempted_update hf]

/-- Nor, with the positions shifted, on a removal, unless it dangles. -/
theorem refusal?_without_eq_none (hf : f.WellFormed) (hi : i < f.size) (hij : j ≠ i)
    (hp : ¬ f.Dangles i j p) :
    (f.without i).refusal? (.update (shifted i j) p) = none
      ↔ f.refusal? (.update j p) = none := by
  have hsize := size_without hi
  have hrange : shifted i j < (f.without i).size ↔ j < f.size := by
    unfold shifted
    split <;> omega
  have hlast : p.combinator.isSome = true ∧ shifted i j + 1 = (f.without i).size
      ↔ p.combinator.isSome = true ∧ j + 1 = f.size := by
    apply and_congr_right
    intro hop
    have hnext : ¬ (i + 1 = f.size ∧ j + 1 = i) := fun h => hp ⟨h.1, h.2, hop⟩
    unfold shifted
    split <;> omega
  rw [refusal?_update (wellFormed_without hf hi), refusal?_update hf]
  simp only [hrange, hlast]
  by_cases hj : j < f.size
  · rw [if_pos hj, if_pos hj]
    split <;> simp
  · simp [hj]

theorem refusal?_of_dangles (hf : f.WellFormed) (h : f.Dangles i j p) :
    f.refusal? (.update j p) = none
      ∧ (f.without i).refusal? (.update j p) = some (.lastBlock j) := by
  obtain ⟨hlast, hnext, hop⟩ := h
  have hi : i < f.size := by omega
  have hsize := size_without hi
  have hj : j < f.size := by omega
  have hj' : j < (f.without i).size := by omega
  have hinner : ¬ (p.combinator.isSome = true ∧ j + 1 = f.size) := by omega
  have hend : p.combinator.isSome = true ∧ j + 1 = (f.without i).size := ⟨hop, by omega⟩
  rw [refusal?_update hf, if_pos hj, if_neg hinner, refusal?_update (wellFormed_without hf hi),
    if_pos hj', if_pos hend]
  exact ⟨rfl, rfl⟩

-- ========================================================= the three pairs

theorem updates_comm (hf : f.WellFormed) (hij : i ≠ j) (p q : Patch) :
    (f.attempted (.update i p)).attempted (.update j q)
      = (f.attempted (.update j q)).attempted (.update i p) := by
  rw [attempted_update (wellFormed_attempted hf _), refusal?_attempted_update hf,
    attempted_update (wellFormed_attempted hf _), refusal?_attempted_update hf,
    attempted_update hf, attempted_update hf]
  by_cases hp : f.refusal? (.update i p) = none
  · by_cases hq : f.refusal? (.update j q) = none
    · simp only [if_pos hp, if_pos hq, patched_comm hij]
    · simp only [if_pos hp, if_neg hq]
  · simp only [if_neg hp]

theorem removals_comm (hf : f.WellFormed) (hij : i < j) (hj : j < f.size) : ∃ a b g h k,
    f.remove j = .ok (b, g) ∧ g.remove i = .ok (a, k)
      ∧ f.remove i = .ok (a, h) ∧ h.remove (j - 1) = .ok (b, k) := by
  have hi : i < f.size := by omega
  obtain ⟨a, ha⟩ : ∃ a, f.blocks[i]? = some a := ⟨_, List.getElem?_eq_getElem hi⟩
  obtain ⟨b, hb⟩ : ∃ b, f.blocks[j]? = some b := ⟨_, List.getElem?_eq_getElem hj⟩
  have hformeri : former j i = i := if_pos hij
  have hformerj : former i (j - 1) = j := by
    unfold former
    split <;> omega
  have ha' : (f.without j).blocks[i]? = some a := by
    rw [blocks_without, hformeri, ha]
  have hb' : (f.without i).blocks[j - 1]? = some b := by
    rw [blocks_without, hformerj, hb]
  refine ⟨_, _, _, _, _, remove_of_block hb, remove_of_block ha', remove_of_block ha, ?_⟩
  rw [without_comm hf hij hj, remove_of_block hb']

theorem removal_update_comm (hf : f.WellFormed) (hi : i < f.size) (hij : j ≠ i)
    (hp : ¬ f.Dangles i j p) : ∃ b g h,
      f.remove i = .ok (b, g)
        ∧ (f.attempted (.update j p)).remove i = .ok (b, h)
        ∧ g.attempted (.update (shifted i j) p) = h
        ∧ (g.refusal? (.update (shifted i j) p) = none ↔ f.refusal? (.update j p) = none) := by
  obtain ⟨b, hb⟩ : ∃ b, f.blocks[i]? = some b := ⟨_, List.getElem?_eq_getElem hi⟩
  have hrefused := refusal?_without_eq_none hf hi hij hp
  refine ⟨_, _, _, remove_of_block hb, ?_, rfl, hrefused⟩
  rw [attempted_update hf, attempted_update (wellFormed_without hf hi)]
  by_cases hdone : f.refusal? (.update j p) = none
  · have hb' : (f.patched j p).blocks[i]? = some b := by
      rw [patched, List.getElem?_modify_ne _ _ hij, hb]
    rw [if_pos hdone, if_pos (hrefused.mpr hdone), remove_of_block hb',
      without_patched hf hi hij.symm]
  · rw [if_neg hdone, if_neg (mt hrefused.mp hdone), remove_of_block hb]

-- ========================================================== the conclusion

theorem WellFormed.independent (hf : f.WellFormed) : f.Independent where
  updates i j p q hij := ⟨updates_comm hf hij p q, refusal?_attempted_update hf i j p q⟩
  removals _ _ hij hj := removals_comm hf hij hj
  removalAndUpdate _ _ _ hi hij hp := removal_update_comm hf hi hij hp
  dangling := by
    intro i j p h
    have hi : i < f.size := by
      obtain ⟨hlast, -, -⟩ := h
      omega
    obtain ⟨hdone, hrefused⟩ := refusal?_of_dangles hf h
    exact ⟨hdone, _, _, remove_of_block (List.getElem?_eq_getElem hi), hrefused⟩

/-- Whatever edits made a formula, the next edits of different blocks do not depend on their
order. -/
theorem edits_of_different_blocks_commute (es : List Edit) : (afterEdits es).Independent :=
  (wellFormed_afterEdits es).independent

end TableCalc.Formula
