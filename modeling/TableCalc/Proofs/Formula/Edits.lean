/-
Edits of a formula, and the formulas that editing reaches. Blocks and combinators live in two lists
whose lengths belong together (`Formula.WellFormed`), and each edit touches both at positions that
depend on where in the formula it strikes. The lemmas here say once what each edit does, then that
each keeps the two lists in step; `wellFormed_afterEdits` draws the conclusion for every list of
edits, refused ones included.

Chain: `rejoined_eq` removes the error that a formula out of step would raise, the `_ok` lemmas
open each edit, `wellFormed_edited` is the one step, `wellFormed_afterEdits` the run.
-/

import Mathlib.Data.List.Basic
import Mathlib.Data.List.Induction
import TableCalc.Session

namespace TableCalc

/-- A patch of a combinator alone changes nothing of a block. -/
theorem Block.patched_combinator (b : Block) (op : Combinator) :
    b.patched { combinator := some op } = b := by
  cases b with
  | constant x => rfl
  | conditional c target how => rfl

/-- A patch of the kind alone turns the block. -/
theorem Block.patched_kind (b : Block) (k : Option BlockKind) :
    b.patched { kind := k } = b.turned k := by
  rw [patched]
  cases b.turned k with
  | constant x => rfl
  | conditional c target how => rfl

/-- A block that is given a kind stays as it is or starts blank. -/
theorem Block.patched_kind_eq_or (b : Block) (k : BlockKind) :
    b.patched { kind := some k } = b ∨ b.patched { kind := some k } = k.blank := by
  rw [patched_kind, turned]
  split
  case isTrue => exact .inl rfl
  case isFalse => exact .inr rfl

namespace Formula

variable {f g : Formula} {i : Nat}

-- =============================================================== the runs

/-- The formula after an edit is tried: a refused edit leaves it as it is. -/
def attempted (f : Formula) (e : Edit) : Formula :=
  match f.edited e with
  | .ok g => g
  | .error _ => f

/-- The formula that a list of edits makes of the empty one. -/
def afterEdits (es : List Edit) : Formula := es.foldl attempted {}

theorem afterEdits_concat (es : List Edit) (e : Edit) :
    afterEdits (es ++ [e]) = (afterEdits es).attempted e := by
  rw [afterEdits, List.foldl_append]
  rfl

theorem attempted_ok {e : Edit} (h : f.edited e = .ok g) : f.attempted e = g := by
  rw [attempted, h]

theorem attempted_error {e : Edit} {err : EditError} (h : f.edited e = .error err) :
    f.attempted e = f := by
  rw [attempted, h]

-- ===================================================== what an edit does

/-- In a well-formed formula a combinator is refused only for want of a next block: the error for a
combinator missing between two blocks never arises. -/
theorem rejoined_eq (hf : f.WellFormed) (i : Nat) (op : Option Combinator) :
    f.rejoined i op =
      match op with
      | none => .ok f.combinators
      | some op =>
        if i + 1 < f.size then .ok (f.combinators.set i op) else .error (.lastBlock i) := by
  cases op with
  | none => rfl
  | some op =>
      simp only [rejoined]
      by_cases hi : i + 1 < f.size
      · have hlen : i < f.combinators.length := by
          unfold WellFormed at hf
          unfold size at hi
          omega
        rw [if_pos hi, if_pos hi, if_pos hlen]
      · rw [if_neg hi, if_neg hi]

/-- Rejoining leaves the combinators, or replaces the one between two blocks that are there. -/
theorem rejoined_ok {op' : Option Combinator} {ops : List Combinator}
    (h : f.rejoined i op' = .ok ops) :
    (op' = none ∧ ops = f.combinators)
      ∨ ∃ op, op' = some op ∧ i + 1 < f.size ∧ i < f.combinators.length
          ∧ ops = f.combinators.set i op := by
  cases op' with
  | none =>
      injection h with h
      exact .inl ⟨rfl, h.symm⟩
  | some op =>
      simp only [rejoined] at h
      split at h
      case isFalse => cases h
      case isTrue hlast =>
        split at h
        case isFalse => cases h
        case isTrue hi =>
          injection h with h
          exact .inr ⟨op, rfl, hlast, hi, h.symm⟩

/-- Combinators are replaced, never added or dropped, by rejoining. -/
theorem rejoined_length {op' : Option Combinator} {ops : List Combinator}
    (h : f.rejoined i op' = .ok ops) : ops.length = f.combinators.length := by
  rcases rejoined_ok h with ⟨-, rfl⟩ | ⟨op, -, -, -, rfl⟩
  · rfl
  · exact List.length_set

/-- A combinator that stands in a rejoined formula is one that was there or the new one. -/
theorem mem_of_rejoined {op' : Option Combinator} {ops : List Combinator}
    (h : f.rejoined i op' = .ok ops) {op : Combinator} (hop : op ∈ ops) :
    op ∈ f.combinators ∨ op' = some op := by
  rcases rejoined_ok h with ⟨-, rfl⟩ | ⟨new, rfl, -, -, rfl⟩
  · exact .inl hop
  · rcases List.mem_or_eq_of_mem_set hop with hop | hop
    · exact .inl hop
    · exact .inr (congrArg some hop.symm)

/-- A successful update patches the block in place and rejoins it. -/
theorem update_ok {p : Patch} (h : f.update i p = .ok g) :
    ∃ b ops, f.blocks[i]? = some b ∧ f.rejoined i p.combinator = .ok ops
      ∧ g = { blocks := f.blocks.set i (b.patched p), combinators := ops } := by
  unfold update at h
  split at h
  case h_1 => cases h
  case h_2 b hb =>
    cases hops : f.rejoined i p.combinator with
    | error err =>
        rw [hops] at h
        cases h
    | ok ops =>
        rw [hops] at h
        injection h with h
        exact ⟨b, ops, hb, rfl, h.symm⟩

/-- A successful removal takes out the block and, with it, the combinator after it or, of the last
block, the one before. -/
theorem remove_ok {b : Block} (h : f.remove i = .ok (b, g)) :
    f.blocks[i]? = some b
      ∧ g = { blocks := f.blocks.eraseIdx i
              combinators := f.combinators.eraseIdx (min i (f.combinators.length - 1)) } := by
  unfold remove at h
  split at h
  case h_1 => cases h
  case h_2 b' hb =>
    injection h with h
    injection h with hb' hg
    rw [← hb']
    exact ⟨hb, hg.symm⟩

/-- An edit that removes a block drops the block from its answer. -/
theorem edited_remove_ok (h : f.edited (.remove i) = .ok g) : ∃ b, f.remove i = .ok (b, g) := by
  rw [edited] at h
  cases hr : f.remove i with
  | error err =>
      rw [hr] at h
      cases h
  | ok r =>
      rw [hr] at h
      injection h with h
      rw [← h]
      exact ⟨r.1, rfl⟩

-- ================================================== edits in closed form

/-- The formula with a block patched, and the combinator after it replaced if the patch has one. -/
def patched (f : Formula) (i : Nat) (p : Patch) : Formula where
  blocks := f.blocks.modify i (·.patched p)
  combinators := f.combinators.modify i p.combinator.getD

/-- The formula without a block and without the combinator that goes with it. -/
def without (f : Formula) (i : Nat) : Formula where
  blocks := f.blocks.eraseIdx i
  combinators := f.combinators.eraseIdx (min i (f.combinators.length - 1))

theorem eq_of_lists (hblocks : f.blocks = g.blocks) (hops : f.combinators = g.combinators) :
    f = g := by
  cases f
  cases g
  exact congrArg₂ Formula.mk hblocks hops

@[simp] theorem size_patched (f : Formula) (i : Nat) (p : Patch) : (f.patched i p).size = f.size :=
  List.length_modify ..

theorem blocks_patched_self {b : Block} (hb : f.blocks[i]? = some b) (p : Patch) :
    (f.patched i p).blocks[i]? = some (b.patched p) := by
  rw [patched, List.getElem?_modify_eq, hb]
  rfl

theorem size_without (hi : i < f.size) : (f.without i).size + 1 = f.size :=
  List.length_eraseIdx_add_one hi

/-- An update of a well-formed formula, with the order of its two refusals. -/
theorem update_eq (hf : f.WellFormed) (i : Nat) (p : Patch) :
    f.update i p =
      if i < f.size then
        if p.combinator.isSome = true ∧ i + 1 = f.size then .error (.lastBlock i)
        else .ok (f.patched i p)
      else .error (.outOfRange i f.size) := by
  by_cases hi : i < f.size
  case neg =>
    have hnone : f.blocks[i]? = none := List.getElem?_eq_none (Nat.le_of_not_lt hi)
    rw [update, hnone, if_neg hi]
  case pos =>
    have hblocks : f.blocks.set i (f.blocks[i].patched p) = f.blocks.modify i (·.patched p) :=
      (List.modify_eq_set_get (·.patched p) hi).symm
    have hsome : f.blocks[i]? = some f.blocks[i] := List.getElem?_eq_getElem hi
    rw [update, hsome, if_pos hi, rejoined_eq hf]
    cases hop : p.combinator with
    | none =>
        have hkept : f.combinators.modify i (none : Option Combinator).getD = f.combinators :=
          List.modify_id i f.combinators
        simp [Except.map, patched, hop, hblocks, hkept]
    | some op =>
        have hset : f.combinators.modify i (some op).getD = f.combinators.set i op :=
          (List.set_eq_modify op i f.combinators).symm
        by_cases hlast : i + 1 = f.size
        · simp [Except.map, hlast]
        · have hlt : i + 1 < f.size := by omega
          simp [Except.map, patched, hop, hblocks, hset, hlast, hlt]

/-- An update goes through if the block is there and, for a combinator, one behind it, and then it
is the patch. -/
theorem update_eq_ok_iff {p : Patch} (hf : f.WellFormed) :
    f.update i p = .ok g ↔
      i < f.size ∧ (p.combinator.isSome = true → i + 1 < f.size) ∧ f.patched i p = g := by
  rw [update_eq hf]
  by_cases hi : i < f.size
  case neg => simp [hi]
  case pos =>
    by_cases hlast : p.combinator.isSome = true ∧ i + 1 = f.size
    · simp [hi, hlast]
    · have hinner : p.combinator.isSome = true → i + 1 < f.size := by
        intro hop
        have hne : i + 1 ≠ f.size := fun h => hlast ⟨hop, h⟩
        omega
      rw [if_pos hi, if_neg hlast, Except.ok.injEq]
      exact ⟨fun h => ⟨hi, hinner, h⟩, fun h => h.2.2⟩

theorem remove_of_block {b : Block} (hb : f.blocks[i]? = some b) :
    f.remove i = .ok (b, f.without i) := by
  rw [remove, hb]
  rfl

-- ============================================================ lists in step

theorem wellFormed_empty : WellFormed {} := rfl

theorem wellFormed_push (hf : f.WellFormed) (b : Block) : (f.push b).WellFormed := by
  simp only [WellFormed, push, List.length_append, List.length_singleton] at hf ⊢
  cases hbs : f.blocks with
  | nil =>
      rw [hbs] at hf
      exact hf
  | cons b' bs =>
      rw [hbs] at hf
      simp only [List.isEmpty_cons, Bool.false_eq_true, if_false, List.length_append,
        List.length_cons, List.length_nil] at hf ⊢
      omega

theorem wellFormed_update {p : Patch} (hf : f.WellFormed) (h : f.update i p = .ok g) :
    g.WellFormed := by
  obtain ⟨b, ops, -, hops, rfl⟩ := update_ok h
  have hlen := rejoined_length hops
  simp only [WellFormed, List.length_set] at hf ⊢
  rw [hlen, hf]

theorem wellFormed_patched (hf : f.WellFormed) (i : Nat) (p : Patch) :
    (f.patched i p).WellFormed := by
  unfold WellFormed at hf ⊢
  rw [patched, List.length_modify, List.length_modify, hf]

/-- The clamped position is that of a combinator whenever there is one, so exactly one combinator
goes with the block, and none only with the only block. -/
theorem wellFormed_remove {b : Block} (hf : f.WellFormed) (h : f.remove i = .ok (b, g)) :
    g.WellFormed := by
  obtain ⟨hb, rfl⟩ := remove_ok h
  have hi : i < f.blocks.length := (List.getElem?_eq_some_iff.mp hb).1
  simp only [WellFormed, List.length_eraseIdx] at hf ⊢
  rw [if_pos hi]
  split <;> omega

/-- Every edit that goes through keeps the two lists in step. -/
theorem wellFormed_edited {e : Edit} (hf : f.WellFormed) (h : f.edited e = .ok g) :
    g.WellFormed := by
  cases e with
  | push b =>
      injection h with h
      rw [← h]
      exact wellFormed_push hf b
  | update i p => exact wellFormed_update hf h
  | join i op => exact wellFormed_update hf h
  | remove i =>
      obtain ⟨b, hr⟩ := edited_remove_ok h
      exact wellFormed_remove hf hr

theorem wellFormed_attempted (hf : f.WellFormed) (e : Edit) : (f.attempted e).WellFormed := by
  cases he : f.edited e with
  | ok g =>
      rw [attempted_ok he]
      exact wellFormed_edited hf he
  | error err =>
      rw [attempted_error he]
      exact hf

/-- Whatever is done to the empty formula, blocks and combinators stay in step. -/
theorem wellFormed_afterEdits (es : List Edit) : (afterEdits es).WellFormed := by
  induction es using List.reverseRecOn with
  | nil => exact wellFormed_empty
  | append_singleton es e ih =>
      rw [afterEdits_concat]
      exact wellFormed_attempted ih e

/-- In a well-formed formula the blocks with a combinator behind them are those with a block
behind them. -/
theorem combinatorAfter?_isSome (hf : f.WellFormed) (i : Nat) :
    (f.combinatorAfter? i).isSome = true ↔ i + 1 < f.size := by
  rw [combinatorAfter?, isSome_getElem?]
  unfold WellFormed at hf
  unfold size
  omega

end Formula

end TableCalc
