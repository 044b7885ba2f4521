/-
An edit is done as a whole or not at all. A patch may carry a field for everything there is in a
block and a combinator besides, so it is written to two lists; yet what can refuse it looks at the
position, the size and whether there is a combinator in the patch, and looks before anything is
written. So the two refusals are told apart by the position alone (`update_eq`), whatever else the
patch carries, and neither leaves half a patch behind.

The total edits hand back either a formula or an error, and of a refused edit they have nothing to
show. What is left behind then is seen in place: the outcome of an edit in place has the formula in
it, refused or not. `AllOrNothing` puts the two side by side. For an edit that goes through,
`PatchedAt` is the frame: it compares the two lists position by position, and only the position of
the patch differs.
-/

import TableCalc.Proofs.Formula.InRange

namespace TableCalc.Formula

variable {f g : Formula} {i : Nat} {p : Patch}

-- ========================================================== the statement

/-- A formula `g` is `f` with a patch applied at `i`: the block there is patched, the combinator
after it is the patch's own if it has one, and everything else is as it was. -/
structure PatchedAt (f : Formula) (i : Nat) (p : Patch) (g : Formula) : Prop where
  wellFormed : g.WellFormed
  size : g.size = f.size
  block : ∃ b, f.blocks[i]? = some b ∧ g.blocks[i]? = some (b.patched p)
  otherBlocks : ∀ k, k ≠ i → g.blocks[k]? = f.blocks[k]?
  combinator : g.combinatorAfter? i = p.combinator.or (f.combinatorAfter? i)
  otherCombinators : ∀ k, k ≠ i → g.combinatorAfter? k = f.combinatorAfter? k

/-- An edit of a formula is done as a whole or not at all. An update is refused for a position that
is out of range, and otherwise just for a combinator that would come after the last block; if it is
not refused it applies the patch and touches nothing else. A removal is refused out of range only.
Whatever edit is refused, in place it leaves the formula it was tried on. -/
structure AllOrNothing (f : Formula) : Prop where
  outOfRange : ∀ i p, f.update i p = .error (.outOfRange i f.size) ↔ f.size ≤ i
  lastBlock : ∀ i p, i < f.size →
    (f.update i p = .error (.lastBlock i) ↔ p.combinator.isSome = true ∧ i + 1 = f.size)
  updated : ∀ i p, i < f.size → ¬ (p.combinator.isSome = true ∧ i + 1 = f.size) →
    ∃ g, f.update i p = .ok g ∧ (Editing.update i p).outcome f = some (.ok (), g)
      ∧ f.PatchedAt i p g
  removal : ∀ i, f.remove i = .error (.outOfRange i f.size) ↔ f.size ≤ i
  refused : ∀ e err, f.edited e = .error err → e.inPlace.outcome f = some (.error err, f)

-- =============================================================== refusals

theorem update_eq_outOfRange (hf : f.WellFormed) :
    f.update i p = .error (.outOfRange i f.size) ↔ f.size ≤ i := by
  rw [update_eq hf]
  by_cases hi : i < f.size
  · rw [if_pos hi]
    split <;> simpa using hi
  · simpa [hi] using Nat.le_of_not_lt hi

theorem update_eq_lastBlock (hf : f.WellFormed) (hi : i < f.size) :
    f.update i p = .error (.lastBlock i) ↔ p.combinator.isSome = true ∧ i + 1 = f.size := by
  rw [update_eq hf, if_pos hi]
  by_cases hlast : p.combinator.isSome = true ∧ i + 1 = f.size
  · rw [if_pos hlast]
    exact iff_of_true rfl hlast
  · rw [if_neg hlast]
    exact iff_of_false nofun hlast

theorem remove_eq_outOfRange : f.remove i = .error (.outOfRange i f.size) ↔ f.size ≤ i := by
  rw [remove]
  by_cases hi : i < f.size
  · rw [List.getElem?_eq_getElem hi]
    simpa using hi
  · have hnone : f.blocks[i]? = none := List.getElem?_eq_none (Nat.le_of_not_lt hi)
    simpa [hnone] using Nat.le_of_not_lt hi

/-- An edit that is refused leaves the formula in place: the checks come ahead of every write. -/
theorem outcome_of_refused {e : Edit} {err : EditError} (hf : f.WellFormed)
    (h : f.edited e = .error err) : e.inPlace.outcome f = some (.error err, f) := by
  rw [e.outcome_inPlace hf, h]
  rfl

-- ============================================================== the frame

/-- A patch with a combinator needs one that is there, since it puts its own in the other's
place. -/
theorem patchedAt_patched (hf : f.WellFormed) (hi : i < f.size)
    (hop : p.combinator.isSome = true → i + 1 < f.size) : f.PatchedAt i p (f.patched i p) := by
  constructor
  case wellFormed => exact wellFormed_patched hf i p
  case size => exact size_patched f i p
  case block =>
    have hblock : f.blocks[i]? = some f.blocks[i] := List.getElem?_eq_getElem hi
    exact ⟨_, hblock, blocks_patched_self hblock p⟩
  case otherBlocks => exact fun k hk => List.getElem?_modify_ne _ _ hk.symm
  case combinator =>
    unfold combinatorAfter?
    rw [patched, List.getElem?_modify_eq]
    cases hnew : p.combinator with
    | none => exact congrFun Option.map_id _
    | some op =>
        have hlast : i + 1 < f.size := hop (by rw [hnew]; rfl)
        have hthere := (combinatorAfter?_isSome hf i).mpr hlast
        obtain ⟨old, hold⟩ := Option.isSome_iff_exists.mp hthere
        unfold combinatorAfter? at hold
        rw [hold]
        rfl
  case otherCombinators => exact fun k hk => List.getElem?_modify_ne _ _ hk.symm

theorem exists_updated (hf : f.WellFormed) (hi : i < f.size)
    (hlast : ¬ (p.combinator.isSome = true ∧ i + 1 = f.size)) :
    ∃ g, f.update i p = .ok g ∧ (Editing.update i p).outcome f = some (.ok (), g)
      ∧ f.PatchedAt i p g := by
  have hinner : p.combinator.isSome = true → i + 1 < f.size := by
    intro hop
    have hne : i + 1 ≠ f.size := fun h => hlast ⟨hop, h⟩
    omega
  have hupdate : f.update i p = .ok (f.patched i p) :=
    (update_eq_ok_iff hf).mpr ⟨hi, hinner, rfl⟩
  refine ⟨_, hupdate, ?_, patchedAt_patched hf hi hinner⟩
  rw [Editing.outcome_update hf, hupdate]
  rfl

-- ========================================================= the conclusion

/-- Every edit of a well-formed formula is done as a whole or not at all. -/
theorem edits_all_or_nothing (hf : f.WellFormed) : f.AllOrNothing where
  outOfRange _ _ := update_eq_outOfRange hf
  lastBlock _ _ hi := update_eq_lastBlock hf hi
  updated _ _ hi hlast := exists_updated hf hi hlast
  removal _ := remove_eq_outOfRange
  refused _ _ h := outcome_of_refused hf h

/-- A patch of everything at once, with a combinator, is refused at the last of two blocks, and no
field of it gets into the formula. -/
theorem edits_all_or_nothing_last :
    let f : Formula := ⟨[.constant 1.0, .constant 2.0], [.multiply]⟩
    let p : Patch := { kind := some .conditional, value := some 7.0, target := some "a",
                       condition := some { column := some "b", value := some "x" },
                       aggregation := some .average, combinator := some .subtract }
    f.WellFormed ∧ f.edited (.update 1 p) = .error (.lastBlock 1)
      ∧ (Edit.update 1 p).inPlace.outcome f = some (.error (.lastBlock 1), f) := by
  intro f p
  have hf : f.WellFormed := by decide
  have hrefused : f.edited (.update 1 p) = .error (.lastBlock 1) := rfl
  exact ⟨hf, hrefused, (edits_all_or_nothing hf).refused _ _ hrefused⟩

end TableCalc.Formula
