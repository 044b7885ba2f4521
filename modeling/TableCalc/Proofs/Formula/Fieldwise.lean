/-
A patch is as good as its fields. A patch may carry up to eight of them, and applying it at once
comes to the same formula as applying them one by one, each as a patch of its own (`Patch.parts`):
first the kind, so that the other fields find the block they were meant for; of a condition's fields
the column last, because it takes the value with it; and the combinator at the end, which concerns
another list and could stand anywhere.

The order is the whole content. With the kind in front, a block that changes its kind is filled in
from the blank one (`Patch.filledIn`) and nothing of the old block is left; with the column behind
the value, the value of a condition never outlives a change of the column. And since every field is
set and none is counted up, a patch done twice is done once.

Chain: `Block.patched_groups` takes a patch of a block apart into its fields, `Block.foldl_parts`
puts the parts in a row; `foldl_patched` carries the row over to both lists of a formula, and
`foldlM_update` finds that none of the parts is refused where the whole patch is not.
-/

import TableCalc.Proofs.Formula.Edits

namespace TableCalc

-- ========================================================== the statement

/-- The patches of one field each that make up a patch of a condition, the column last. -/
def ConditionPatch.parts (p : ConditionPatch) : List ConditionPatch :=
  p.comparison.toList.map (fun how => { comparison := some how })
    ++ p.value.toList.map (fun value => { value := some value })
    ++ p.column.toList.map (fun column => { column := some column })

/-- The patches of one field each that make up a patch, the kind first. -/
def Patch.parts (p : Patch) : List Patch :=
  p.kind.toList.map (fun k => { kind := some k })
    ++ p.value.toList.map (fun x => { value := some x })
    ++ (p.condition.toList.flatMap (·.parts)).map (fun c => { condition := some c })
    ++ p.target.toList.map (fun name => { target := some name })
    ++ p.aggregation.toList.map (fun how => { aggregation := some how })
    ++ p.combinator.toList.map (fun op => { combinator := some op })

/-- A patch without the fields that do not belong to a kind. -/
def Patch.within (p : Patch) : BlockKind → Patch
  | .constant => { p with condition := none, target := none, aggregation := none }
  | .conditional => { p with value := none }

/-- The condition that a patch makes of the empty one. -/
def ConditionPatch.filledIn (p : ConditionPatch) : Condition where
  column := p.column.getD ""
  comparison := p.comparison.getD .equal
  value := if p.column.isSome then "" else p.value.getD ""

/-- The block that a patch makes of the blank one of a kind: what the patch has, and zero, a sum or
nothing for what it does not have. -/
def Patch.filledIn (p : Patch) : BlockKind → Block
  | .constant => .constant (p.value.getD 0.0)
  | .conditional =>
    .conditional (p.condition.elim {} (·.filledIn)) (p.target.getD "") (p.aggregation.getD .sum)

/-- A formula `g` is what patching block `i` of `f` comes to, field by field: the parts of the patch
in turn lead to it, and so does the patch without what is foreign to the block; patching it once
more changes nothing. A block of another kind is filled in from the blank one, the block's own kind
makes no difference, and with a new column the value of the condition is gone. -/
structure Formula.UpdatedFieldwise (f : Formula) (i : Nat) (p : Patch) (g : Formula) : Prop where
  inTurn : p.parts.foldlM (fun h q => h.update i q) f = .ok g
  foreign : ∀ b, g.blocks[i]? = some b → f.update i (p.within b.kind) = .ok g
  again : g.update i p = .ok g
  otherKind : ∀ b k, f.blocks[i]? = some b → p.kind = some k → k ≠ b.kind →
    g.blocks[i]? = some (p.filledIn k)
  sameKind : ∀ b, f.blocks[i]? = some b → p.kind = some b.kind →
    f.update i { p with kind := none } = .ok g
  newColumn : ∀ cp column, p.condition = some cp → cp.column = some column →
    ∀ c target how, g.blocks[i]? = some (.conditional c target how) →
      c.column = column ∧ c.value = ""

-- ================================================================= blocks

/-- A field put in twice is put in once. -/
theorem getD_twice {α : Type} (o : Option α) (x : α) : o.getD (o.getD x) = o.getD x := by
  cases o with
  | none => rfl
  | some y => rfl

theorem Condition.patched_patched (c : Condition) (p : ConditionPatch) :
    (c.patched p).patched p = c.patched p := by
  simp only [patched, getD_twice]
  split
  case isTrue => rfl
  case isFalse => rw [getD_twice]

namespace Block

variable {b : Block} {k : BlockKind} {p : Patch}

theorem patched_empty (b : Block) : b.patched {} = b := by
  cases b with
  | constant x => rfl
  | conditional c target how => rfl

@[simp] theorem kind_turned (b : Block) (k : Option BlockKind) :
    (b.turned k).kind = k.getD b.kind := by
  cases k with
  | none => rfl
  | some k =>
      rw [turned]
      split
      case isTrue h => exact h.symm
      case isFalse =>
        cases k with
        | constant => rfl
        | conditional => rfl

theorem kind_patched (b : Block) (p : Patch) : (b.patched p).kind = p.kind.getD b.kind := by
  rw [patched, ← kind_turned]
  cases b.turned p.kind with
  | constant x => rfl
  | conditional c target how => rfl

/-- A block that has the kind already is not turned. -/
theorem turned_eq_self {k : Option BlockKind} (h : k.getD b.kind = b.kind) : b.turned k = b := by
  cases k with
  | none => rfl
  | some k => exact if_pos h

/-- A patch does what its fields do, the kind first. -/
theorem patched_groups (b : Block) (p : Patch) :
    b.patched p =
      ((((b.patched { kind := p.kind }).patched { value := p.value }).patched
        { condition := p.condition }).patched { target := p.target }).patched
          { aggregation := p.aggregation } := by
  rw [patched_kind, patched]
  cases b.turned p.kind with
  | constant x => rfl
  | conditional c target how => rfl

/-- One field as a list of patches, which is empty if the field is. -/
theorem foldl_field {α : Type} (field : Option α → Patch) (hnone : field none = {})
    (o : Option α) (b : Block) :
    (o.toList.map fun x => field (some x)).foldl patched b = b.patched (field o) := by
  cases o with
  | none =>
      rw [hnone, patched_empty]
      rfl
  | some x => rfl

theorem foldl_conditionParts (b : Block) (p : ConditionPatch) :
    (p.parts.map fun c => { condition := some c }).foldl patched b
      = b.patched { condition := some p } := by
  obtain ⟨column, comparison, value⟩ := p
  cases b with
  | constant x => cases comparison <;> cases value <;> cases column <;> rfl
  | conditional c target how => cases comparison <;> cases value <;> cases column <;> rfl

theorem foldl_condition (b : Block) (o : Option ConditionPatch) :
    ((o.toList.flatMap (·.parts)).map fun c => { condition := some c }).foldl patched b
      = b.patched { condition := o } := by
  cases o with
  | none => exact (patched_empty b).symm
  | some p =>
      rw [Option.toList_some, List.flatMap_singleton]
      exact foldl_conditionParts b p

/-- The parts of a patch in a row do what the patch does. -/
theorem foldl_parts (b : Block) (p : Patch) : p.parts.foldl patched b = b.patched p := by
  simp only [Patch.parts, List.foldl_append]
  rw [foldl_field (fun k => { kind := k }) rfl, foldl_field (fun x => { value := x }) rfl,
    foldl_condition, foldl_field (fun name => { target := name }) rfl,
    foldl_field (fun how => { aggregation := how }) rfl, ← patched_groups]
  cases p.combinator with
  | none => rfl
  | some op => exact patched_combinator _ op

/-- A patch done twice is done once. -/
theorem patched_patched (b : Block) (p : Patch) : (b.patched p).patched p = b.patched p := by
  have hkind : (b.patched p).turned p.kind = b.patched p := by
    apply turned_eq_self
    rw [kind_patched, getD_twice]
  rw [patched, hkind]
  simp only [patched]
  cases b.turned p.kind with
  | constant x => simp only [getD_twice]
  | conditional c target how =>
      simp only [getD_twice]
      cases p.condition with
      | none => rfl
      | some cp => simp only [Option.map_some, Option.getD_some, Condition.patched_patched]

theorem patched_within (b : Block) (p : Patch) :
    b.patched (p.within (b.patched p).kind) = b.patched p := by
  rw [kind_patched, ← kind_turned]
  cases hb : b.turned p.kind with
  | constant x => simp only [kind, Patch.within, patched, hb]
  | conditional c target how => simp only [kind, Patch.within, patched, hb]

theorem patched_of_otherKind (hk : p.kind = some k) (hne : k ≠ b.kind) :
    b.patched p = p.filledIn k := by
  have hblank : b.turned p.kind = k.blank := by
    rw [hk]
    exact if_neg hne
  rw [patched, hblank]
  cases k with
  | constant => rfl
  | conditional =>
      cases hcond : p.condition with
      | none => simp only [BlockKind.blank, Patch.filledIn, hcond]; rfl
      | some cp => simp only [BlockKind.blank, Patch.filledIn, hcond]; rfl

theorem patched_of_sameKind (hk : p.kind = some b.kind) :
    b.patched p = b.patched { p with kind := none } := by
  have hself : b.turned p.kind = b := turned_eq_self (by rw [hk]; rfl)
  rw [patched, patched, hself]
  rfl

theorem condition_of_patched {cp : ConditionPatch} {column target : String} {c : Condition}
    {how : Aggregation} (hcond : p.condition = some cp) (hcolumn : cp.column = some column)
    (h : b.patched p = .conditional c target how) : c.column = column ∧ c.value = "" := by
  rw [patched] at h
  cases hb : b.turned p.kind with
  | constant x =>
      rw [hb] at h
      cases h
  | conditional old _ _ =>
      rw [hb, hcond] at h
      injection h with hc
      rw [← hc]
      simp [Condition.patched, hcolumn]

end Block

-- =============================================================== formulas

namespace Formula

variable {f g : Formula} {i : Nat} {p q : Patch} {ps : List Patch}

/-- What a row of patches of one block comes to, in each of the two lists. -/
theorem foldl_patched (f : Formula) (i : Nat) (ps : List Patch) :
    ps.foldl (fun h q => h.patched i q) f =
      { blocks := f.blocks.modify i fun b => ps.foldl Block.patched b
        combinators := f.combinators.modify i fun op =>
          ps.foldl (fun op q => q.combinator.getD op) op } := by
  induction ps generalizing f with
  | nil =>
      have hblocks := List.modify_id i f.blocks
      have hops := List.modify_id i f.combinators
      exact eq_of_lists hblocks.symm hops.symm
  | cons q ps ih =>
      rw [List.foldl_cons, ih, patched, List.modify_modify_eq, List.modify_modify_eq]
      rfl

theorem foldl_combinators (p : Patch) (op : Combinator) :
    p.parts.foldl (fun op q => q.combinator.getD op) op = p.combinator.getD op := by
  simp only [Patch.parts, List.foldl_append, List.foldl_map, Option.getD_none, List.foldl_fixed]
  cases p.combinator with
  | none => rfl
  | some new => rfl

theorem foldl_parts (f : Formula) (i : Nat) (p : Patch) :
    p.parts.foldl (fun h q => h.patched i q) f = f.patched i p := by
  rw [foldl_patched]
  simp only [Block.foldl_parts, foldl_combinators]
  rfl

theorem foldlM_update (hf : f.WellFormed) (hi : i < f.size)
    (hops : ∀ q ∈ ps, q.combinator.isSome = true → i + 1 < f.size) :
    ps.foldlM (fun h q => h.update i q) f = .ok (ps.foldl (fun h q => h.patched i q) f) := by
  induction ps generalizing f with
  | nil => rfl
  | cons q ps ih =>
      have hstep : f.update i q = .ok (f.patched i q) :=
        (update_eq_ok_iff hf).mpr ⟨hi, hops q List.mem_cons_self, rfl⟩
      rw [List.foldlM_cons, hstep, List.foldl_cons]
      apply ih (wellFormed_patched hf i q)
      · rwa [size_patched]
      · intro q' hq'
        rw [size_patched]
        exact hops q' (List.mem_cons_of_mem _ hq')

/-- A part with a combinator has it from the patch. -/
theorem isSome_of_mem_parts (hq : q ∈ p.parts) (h : q.combinator.isSome = true) :
    p.combinator.isSome = true := by
  simp only [Patch.parts, List.mem_append, List.mem_map, Option.mem_toList] at hq
  rcases hq with
    ((((⟨k, -, rfl⟩ | ⟨x, -, rfl⟩) | ⟨c, -, rfl⟩) | ⟨name, -, rfl⟩) | ⟨how, -, rfl⟩)
      | ⟨op, hop, rfl⟩
  case inr => rw [hop]; rfl
  all_goals cases h

/-- Patches that do the same to the block at a position, and have the same combinator, do the same
to the formula. -/
theorem patched_congr {b : Block} (hb : f.blocks[i]? = some b) (hblock : b.patched q = b.patched p)
    (hop : q.combinator = p.combinator) : f.patched i q = f.patched i p := by
  apply eq_of_lists
  · apply List.ext_getElem?
    intro k
    rw [patched, patched, List.getElem?_modify, List.getElem?_modify]
    by_cases hk : i = k
    · rw [← hk, hb]
      simp [hblock]
    · simp [hk]
  · rw [patched, patched, hop]

theorem patched_patched (f : Formula) (i : Nat) (p : Patch) :
    (f.patched i p).patched i p = f.patched i p := by
  have hblock : (Block.patched · p) ∘ (Block.patched · p) = (Block.patched · p) :=
    funext fun b => Block.patched_patched b p
  have hop : p.combinator.getD ∘ p.combinator.getD = p.combinator.getD :=
    funext fun op => getD_twice p.combinator op
  simp only [patched, List.modify_modify_eq, hblock, hop]

-- ========================================================= the conclusion

theorem updatedFieldwise_of_update (hf : f.WellFormed) (h : f.update i p = .ok g) :
    f.UpdatedFieldwise i p g := by
  obtain ⟨hi, hop, rfl⟩ := (update_eq_ok_iff hf).mp h
  obtain ⟨b, hb⟩ : ∃ b, f.blocks[i]? = some b := ⟨_, List.getElem?_eq_getElem hi⟩
  have hpatched := blocks_patched_self hb p
  constructor
  case inTurn =>
    rw [foldlM_update hf hi fun q hq hsome => hop (isSome_of_mem_parts hq hsome), foldl_parts]
  case foreign =>
    intro b' hb'
    obtain rfl := Option.some.inj (hpatched.symm.trans hb')
    have hkept : (p.within (b.patched p).kind).combinator = p.combinator := by
      cases (b.patched p).kind with
      | constant => rfl
      | conditional => rfl
    refine (update_eq_ok_iff hf).mpr ⟨hi, ?_, patched_congr hb (b.patched_within p) hkept⟩
    rwa [hkept]
  case again =>
    refine (update_eq_ok_iff (wellFormed_patched hf i p)).mpr ⟨?_, ?_, f.patched_patched i p⟩
    · rwa [size_patched]
    · rwa [size_patched]
  case otherKind =>
    intro b' k hb' hk hne
    obtain rfl := Option.some.inj (hb.symm.trans hb')
    rw [hpatched, Block.patched_of_otherKind hk hne]
  case sameKind =>
    intro b' hb' hk
    obtain rfl := Option.some.inj (hb.symm.trans hb')
    have hsame := (Block.patched_of_sameKind hk).symm
    exact (update_eq_ok_iff hf).mpr ⟨hi, hop, patched_congr hb hsame rfl⟩
  case newColumn =>
    intro cp column hcond hcolumn c target how hb'
    rw [hpatched] at hb'
    exact Block.condition_of_patched hcond hcolumn (Option.some.inj hb')

/-- Whatever edits made a formula, an update of it that goes through is one of its fields in
turn. -/
theorem updates_go_field_by_field {es : List Edit} (h : (afterEdits es).update i p = .ok g) :
    (afterEdits es).UpdatedFieldwise i p g :=
  updatedFieldwise_of_update (wellFormed_afterEdits es) h

/-- A patch of all eight fields, on the first of two fresh blocks: the number it carries is foreign
to the new kind, and the condition's value goes with the new column. -/
theorem updates_go_field_by_field_all :
    let es := [Edit.push .fresh, .push .fresh]
    let p : Patch :=
      { kind := some .conditional, value := some 7.0, target := some "a",
        condition := some { column := some "b", comparison := some .notEqual, value := some "x" },
        aggregation := some .average, combinator := some .subtract }
    let g : Formula :=
      ⟨[.conditional ⟨"b", .notEqual, ""⟩ "a" .average, .fresh], [.subtract]⟩
    p.parts.length = 8 ∧ (afterEdits es).update 0 p = .ok g
      ∧ (afterEdits es).UpdatedFieldwise 0 p g := by
  intro es p g
  have hdone : (afterEdits es).update 0 p = .ok g := rfl
  exact ⟨rfl, hdone, updates_go_field_by_field hdone⟩

end Formula

end TableCalc
