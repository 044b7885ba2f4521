/-
No edit of a formula and no join of its values ever reaches outside its lists.

The edits of `Formula` are total: a position that is out of range is passed over in silence there,
and a value without a combinator is added. Here the same work is done by operations that cannot pass
over anything. An `Editing` is an edit in place, one write after the other, and has no outcome at
all if it touches a list out of range or counts down from zero; `joinExactly?` has no answer unless
there is exactly one combinator between any two values. On well-formed formulas both have outcomes,
and those of the total functions (`Editing.outcome_update`, `Editing.outcome_remove`,
`joinExactly?_eq`); and every formula that editing reaches is well-formed.

An outcome also shows the formula as it is left when an edit is refused. That it is the formula from
before is a fact here and not a matter of types: the checks come ahead of every write.
-/

import Mathlib.Data.Nat.PSub
import TableCalc.Proofs.Formula.Edits
import TableCalc.Proofs.Formula.Evaluation

namespace TableCalc

variable {α β : Type}

-- ==================================================== lists within range

/-- A list with the item at a position replaced, if there is an item there. -/
def replaced? (xs : List α) (i : Nat) (x : α) : Option (List α) :=
  if i < xs.length then some (xs.set i x) else none

/-- The item at a position and the list without it, if there is an item there. -/
def pulled? (xs : List α) (i : Nat) : Option (α × List α) :=
  xs[i]?.map fun x => (x, xs.eraseIdx i)

-- =========================================================== edits in place

/-- An edit in place. It goes through or is refused, and either way leaves a formula behind. -/
abbrev Editing (α : Type) := ExceptT EditError (StateT Formula Option) α

namespace Editing

/-- What comes of an edit in place, and the formula that it leaves; nothing if it reaches outside
the lists. -/
def outcome (x : Editing α) (f : Formula) : Option (Except EditError α × Formula) :=
  (ExceptT.run x).run f

/-- What there has to be, or else there is no outcome. -/
def need (x : Option α) : Editing α := ExceptT.lift (StateT.lift x)

/-- Refuses a position without a block. -/
def checkIndex (i : Nat) : Editing Unit := do
  let f ← get
  unless i < f.blocks.length do throw (.outOfRange i f.blocks.length)

/-- Appends a block and tells its position, one less than the blocks there are then. -/
def push (b : Block) : Editing Nat := do
  unless (← get).blocks.isEmpty do
    modify fun f => { f with combinators := f.combinators ++ [.add] }
  modify fun f => { f with blocks := f.blocks ++ [b] }
  need (← get).blocks.length.ppred

/-- Patches a block and the combinator after it, the combinator first. -/
def update (i : Nat) (p : Patch) : Editing Unit := do
  checkIndex i
  if p.combinator.isSome && (← get).blocks.length ≤ i + 1 then throw (.lastBlock i)
  if let some op := p.combinator then
    let ops ← need (replaced? (← get).combinators i op)
    modify fun f => { f with combinators := ops }
  let b ← need (← get).blocks[i]?
  let bs ← need (replaced? (← get).blocks i (b.patched p))
  modify fun f => { f with blocks := bs }

/-- Takes out a block, then the combinator at its position or, failing that, the last one. -/
def remove (i : Nat) : Editing Block := do
  checkIndex i
  let (b, bs) ← need (pulled? (← get).blocks i)
  modify fun f => { f with blocks := bs }
  unless (← get).combinators.isEmpty do
    let last ← need (← get).combinators.length.ppred
    let (_, ops) ← need (pulled? (← get).combinators (min i last))
    modify fun f => { f with combinators := ops }
  return b

-- ============================================================== outcomes

@[simp] theorem outcome_bind (x : Editing α) (k : α → Editing β) (f : Formula) :
    (x >>= k).outcome f = (x.outcome f).bind fun r =>
      match r.1 with
      | .ok a => (k a).outcome r.2
      | .error e => some (.error e, r.2) := by
  unfold outcome
  rw [ExceptT.run_bind, StateT.run_bind]
  show Option.bind _ _ = _
  congr 1
  funext r
  rcases r with ⟨e | a, g⟩
  · rfl
  · rfl

@[simp] theorem outcome_map (h : α → β) (x : Editing α) (f : Formula) :
    (h <$> x).outcome f = (x.outcome f).map fun r => (r.1.map h, r.2) := by
  rw [map_eq_pure_bind, outcome_bind, Option.map_eq_bind]
  congr 1
  funext r
  rcases r with ⟨e | a, g⟩
  · rfl
  · rfl

@[simp] theorem outcome_pure (a : α) (f : Formula) :
    (pure a : Editing α).outcome f = some (.ok a, f) := rfl

@[simp] theorem outcome_throw (e : EditError) (f : Formula) :
    (throw e : Editing α).outcome f = some (.error e, f) := rfl

@[simp] theorem outcome_get (f : Formula) : (get : Editing Formula).outcome f = some (.ok f, f) :=
  rfl

@[simp] theorem outcome_modify (h : Formula → Formula) (f : Formula) :
    (modify h : Editing Unit).outcome f = some (.ok (), h f) := rfl

@[simp] theorem outcome_need (x : Option α) (f : Formula) :
    (need x).outcome f = x.map fun a => (.ok a, f) := by
  cases x with
  | none => rfl
  | some a => rfl

@[simp] theorem outcome_checkIndex (i : Nat) (f : Formula) :
    (checkIndex i).outcome f =
      some (if i < f.size then .ok () else .error (.outOfRange i f.size), f) := by
  by_cases hi : i < f.blocks.length
  · simp [checkIndex, Formula.size, hi]
  · simp [checkIndex, Formula.size, hi]

/-- Appending in place always has an outcome. -/
theorem outcome_push (b : Block) (f : Formula) :
    (push b).outcome f = some (.ok f.size, f.push b) := by
  cases hbs : f.blocks with
  | nil => simp [push, Formula.push, Formula.size, hbs]
  | cons b' bs => simp [push, Formula.push, Formula.size, hbs]

/-- What an edit leaves: the edited formula, or the one from before if the edit is refused. -/
def settled (f : Formula) : Except EditError (α × Formula) → Except EditError α × Formula
  | .ok (a, g) => (.ok a, g)
  | .error e => (.error e, f)

/-- Patching in place stays within the lists of a well-formed formula. The one position that depends
on the lists being in step is the combinator's: past the last-block check there is one. -/
theorem outcome_update {f : Formula} (hf : f.WellFormed) (i : Nat) (p : Patch) :
    (update i p).outcome f = some (settled f ((f.update i p).map ((), ·))) := by
  simp only [Formula.update, Formula.rejoined_eq hf]
  by_cases hi : i < f.blocks.length
  case neg => simp [update, settled, Formula.size, Except.map, hi]
  case pos =>
    cases hop : p.combinator with
    | none => simp [update, settled, Formula.size, Except.map, replaced?, hi, hop]
    | some op =>
        by_cases hlast : i + 1 < f.blocks.length
        case neg =>
          have hle : f.blocks.length ≤ i + 1 := Nat.le_of_not_lt hlast
          simp [update, settled, Formula.size, Except.map, hi, hop, hlast, hle]
        case pos =>
          have hle : ¬ f.blocks.length ≤ i + 1 := Nat.not_le_of_lt hlast
          have hops : i < f.combinators.length := by
            unfold Formula.WellFormed at hf
            omega
          simp [update, settled, Formula.size, Except.map, replaced?, hi, hop, hlast, hle, hops]

/-- Removing in place stays within the lists of any formula: the clamped position is that of a
combinator as soon as there is one. -/
theorem outcome_remove (f : Formula) (i : Nat) :
    (remove i).outcome f = some (settled f (f.remove i)) := by
  unfold Formula.remove
  by_cases hi : i < f.blocks.length
  case neg => simp [remove, settled, Formula.size, hi]
  case pos =>
    cases hops : f.combinators with
    | nil => simp [remove, settled, Formula.size, pulled?, hi, hops]
    | cons op ops =>
        have hmin : min i ops.length < ops.length + 1 := by omega
        simp [remove, settled, Formula.size, Except.map, pulled?, hi, hops, hmin]

end Editing

-- =================================================================== runs

/-- An edit, done in place. -/
def Edit.inPlace : Edit → Editing Unit
  | .push b => do let _ ← Editing.push b
  | .update i p => Editing.update i p
  | .join i op => Editing.update i { combinator := some op }
  | .remove i => do let _ ← Editing.remove i

/-- Edits done in place one after the other on the empty formula, each on what the one before left:
the formula at the end, if no edit reached outside the lists. -/
def Editing.inARow (es : List Edit) : Option Formula :=
  es.foldlM (fun f e => (e.inPlace.outcome f).map (·.2)) {}

/-- An edit in place does what the edit does. -/
theorem Edit.outcome_inPlace {f : Formula} (hf : f.WellFormed) (e : Edit) :
    e.inPlace.outcome f = some (Editing.settled f ((f.edited e).map ((), ·))) := by
  cases e with
  | push b => simp [inPlace, Editing.outcome_push, Formula.edited, Editing.settled, Except.map]
  | update i p => exact Editing.outcome_update hf i p
  | join i op => exact Editing.outcome_update hf i { combinator := some op }
  | remove i =>
      cases hr : f.remove i with
      | ok r => simp [inPlace, Editing.outcome_remove, Formula.edited, hr, Editing.settled,
          Except.map]
      | error err => simp [inPlace, Editing.outcome_remove, Formula.edited, hr, Editing.settled,
          Except.map]

theorem Edit.outcome_inPlace_formula {f : Formula} (hf : f.WellFormed) (e : Edit) :
    (e.inPlace.outcome f).map (·.2) = some (f.attempted e) := by
  rw [e.outcome_inPlace hf, Option.map_some, Formula.attempted]
  cases f.edited e with
  | ok g => rfl
  | error err => rfl

/-- No list of edits ever reaches outside the lists. -/
theorem Editing.inARow_eq (es : List Edit) : inARow es = some (Formula.afterEdits es) := by
  induction es using List.reverseRecOn with
  | nil => rfl
  | append_singleton es e ih =>
      unfold inARow at ih ⊢
      rw [List.foldlM_append, ih, Formula.afterEdits_concat]
      have hstep := e.outcome_inPlace_formula (Formula.wellFormed_afterEdits es)
      simpa using hstep

-- ============================================================ exact joins

/-- Joins further values to a running one, if there is just one combinator for each. -/
def joinAll? (running : Float) : List Float → List Combinator → Option Float
  | [], [] => some running
  | v :: vs, op :: ops => joinAll? (op.apply running v) vs ops
  | _, _ => none

/-- Joins values, if there is one combinator between any two neighbours and no other. -/
def joinExactly? : List Float → List Combinator → Option (Option Float)
  | [], [] => some none
  | [], _ :: _ => none
  | first :: rest, ops => (joinAll? first rest ops).map some

theorem joinAll?_eq {vs : List Float} {ops : List Combinator} (h : ops.length = vs.length)
    (running : Float) : joinAll? running vs ops = some (joinAll running vs ops) := by
  induction vs generalizing ops running with
  | nil =>
      rw [List.length_eq_zero_iff.mp h]
      rfl
  | cons v vs ih =>
      cases ops with
      | nil => cases h
      | cons op ops => exact ih (Nat.succ.inj h) (op.apply running v)

theorem joinExactly?_eq {vs : List Float} {ops : List Combinator} (h : ops.length = vs.length - 1) :
    joinExactly? vs ops = some (join vs ops) := by
  cases vs with
  | nil =>
      rw [List.length_eq_zero_iff.mp h]
      rfl
  | cons first rest =>
      rw [joinExactly?, joinAll?_eq h]
      rfl

-- ========================================================== the conclusion

/-- Nothing that is done with a formula reaches outside its lists: no edit, which does in place what
it does at large, and no evaluation, which finds one combinator between any two values and leaves
none unused. -/
structure Formula.InRange (f : Formula) : Prop where
  wellFormed : f.WellFormed
  combinatorAfter : ∀ i, (f.combinatorAfter? i).isSome = true ↔ i + 1 < f.size
  editing : ∀ e : Edit,
    e.inPlace.outcome f = some (Editing.settled f ((f.edited e).map ((), ·)))
  joining : ∀ t, joinExactly? (f.evaluate t).interim f.combinators = some (f.evaluate t).result

theorem Formula.WellFormed.inRange {f : Formula} (hf : f.WellFormed) : f.InRange where
  wellFormed := hf
  combinatorAfter := combinatorAfter?_isSome hf
  editing := Edit.outcome_inPlace hf
  joining := by
    intro t
    rw [evaluate_eq]
    apply joinExactly?_eq
    rw [List.length_map]
    exact hf

/-- Whatever edits are tried in place on the empty formula, refused ones included, none reaches
outside the lists, and nothing that is done next does: blocks and combinators are in step. -/
theorem edits_stay_in_range (es : List Edit) :
    Editing.inARow es = some (Formula.afterEdits es) ∧ (Formula.afterEdits es).InRange :=
  ⟨Editing.inARow_eq es, (Formula.wellFormed_afterEdits es).inRange⟩

end TableCalc
