/-
What an evaluation comes to, without the notes that are threaded through it: the value of every
block and of every reduced column as a plain function of what it reads, and the diagnostics as a
plain list beside it.

The bridge is `Yields`. A computation that takes notes yields a value and some notes when, whatever
was noted before, it returns that value and puts those notes behind. Values therefore cannot depend
on notes, and the notes of computations in a row are the lists in a row (`Yields.bind`). One lemma
for each computation of the evaluator says what it yields, each from the lemmas of what it calls;
`Formula.evaluate_eq` at the end is the closed form that later modules read instead of the
evaluator.
-/

import TableCalc.Formula.Evaluate

namespace TableCalc

variable {α β : Type}

-- ================================================================ yielding

/-- A computation returns `a` and adds the notes `ds`, whatever was noted before it. -/
def Yields (x : Noting α) (a : α) (ds : List Diagnostic) : Prop :=
  ∀ before, x.run before = (a, before ++ ds)

theorem Yields.pure (a : α) : Yields (pure a) a [] := by
  intro before
  rw [List.append_nil]
  rfl

/-- Computations in a row add their notes in a row. -/
theorem Yields.bind {x : Noting α} {f : α → Noting β} {a : α} {b : β} {ds es : List Diagnostic}
    (hx : Yields x a ds) (hf : Yields (f a) b es) : Yields (x >>= f) b (ds ++ es) := by
  intro before
  have hrun : (x >>= f).run before = (f (x.run before).1).run (x.run before).2 := rfl
  rw [hrun, hx before, hf (before ++ ds), List.append_assoc]

/-- What is computed from an answer adds no notes. -/
theorem Yields.bind_pure {x : Noting α} {a : α} {ds : List Diagnostic} (hx : Yields x a ds)
    (g : α → β) : Yields (x >>= fun a => Pure.pure (g a)) (g a) ds := by
  have hg := hx.bind (f := fun a => Pure.pure (g a)) (Yields.pure (g a))
  rwa [List.append_nil] at hg

theorem Yields.note (d : Diagnostic) : Yields (note d) () [d] := fun _ => rfl

theorem Yields.noteIf (reason : Bool) (d : Diagnostic) :
    Yields (noteIf reason d) () (if reason then [d] else []) := by
  cases reason with
  | true => exact Yields.note d
  | false => exact Yields.pure ()

/-- A list is worked through item by item: the values in a row, and the notes in a row. -/
theorem Yields.mapM {f : α → Noting β} {value : α → β} {notes : α → List Diagnostic}
    (hf : ∀ a, Yields (f a) (value a) (notes a)) (xs : List α) :
    Yields (xs.mapM f) (xs.map value) (xs.flatMap notes) := by
  induction xs with
  | nil =>
      rw [List.mapM_nil]
      exact Yields.pure []
  | cons a xs ih =>
      rw [List.mapM_cons]
      exact (hf a).bind (ih.bind_pure (value a :: ·))

theorem Yields.forM {f : α → Noting Unit} {notes : α → List Diagnostic}
    (hf : ∀ a, Yields (f a) () (notes a)) (xs : List α) :
    Yields (xs.forM f) () (xs.flatMap notes) := by
  induction xs with
  | nil => exact Yields.pure ()
  | cons a xs ih => exact (hf a).bind ih

-- ================================================================= columns

/-- The text that a row has under a column, a missing cell being as good as an empty one. -/
def Row.textAt (row : Row) (column : String) : String := row[column]?.getD ""

/-- What there is to note on one cell: that it is neither empty nor a number. -/
def cellNotes (column : String) (position : Nat) (row : Row) : List Diagnostic :=
  if row.textAt column ≠ "" ∧ Cell.number? (row.textAt column) = none then
    [.unreadableCell position column (row.textAt column)]
  else []

/-- What there is to note on a column, from the row at `position` on. -/
def columnNotes (column : String) (position : Nat) (rows : List Row) : List Diagnostic :=
  (rows.zipIdx position).flatMap fun (row, i) => cellNotes column i row

theorem cellNotes_eq_nil {column : String} {row : Row}
    (h : row.textAt column = "" ∨ Cell.number? (row.textAt column) ≠ none) (position : Nat) :
    cellNotes column position row = [] := by
  rw [cellNotes, if_neg]
  rintro ⟨hempty, hnone⟩
  exact h.elim hempty fun hread => hread hnone

/-- There is nothing to note on a column whose cells are all empty or numbers. -/
theorem columnNotes_eq_nil {column : String} {rows : List Row}
    (h : ∀ row ∈ rows, row.textAt column = "" ∨ Cell.number? (row.textAt column) ≠ none)
    (position : Nat) : columnNotes column position rows = [] := by
  rw [columnNotes, List.flatMap_eq_nil_iff]
  rintro ⟨row, i⟩ hmem
  exact cellNotes_eq_nil (h row (List.fst_mem_of_mem_zipIdx hmem)) i

/-- A column added up from left to right, onto a sum. -/
def columnSum (column : String) (sum : Float) (rows : List Row) : Float :=
  rows.foldl (fun sum row => sum + Cell.numberOrZero (row.textAt column)) sum

theorem yields_readCell (column : String) (position : Nat) (row : Row) :
    Yields (readCell column position row) (Cell.numberOrZero (row.textAt column))
      (cellNotes column position row) := by
  have hread : Yields (readCell column position row) _ _ := (Yields.noteIf
    (row.textAt column ≠ "" && (Cell.number? (row.textAt column)).isNone)
    (.unreadableCell position column (row.textAt column))).bind_pure
      fun _ => Cell.numberOrZero (row.textAt column)
  simp only [Bool.and_eq_true, decide_eq_true_eq, Option.isNone_iff_eq_none] at hread
  exact hread

theorem yields_addUp (column : String) (rows : List Row) (position : Nat) (sum : Float) :
    Yields (addUp column position sum rows) (columnSum column sum rows)
      (columnNotes column position rows) := by
  induction rows generalizing position sum with
  | nil => exact Yields.pure sum
  | cons row rows ih => exact (yields_readCell column position row).bind (ih (position + 1) _)

-- ============================================================ aggregations

/-- The value of a column over some rows. -/
def Aggregation.valueOver (how : Aggregation) (column : String) (rows : List Row) : Float :=
  match how with
  | .sum => columnSum column (-0.0) rows
  | .average => if rows.isEmpty then 0.0 else columnSum column (-0.0) rows / rows.length.toFloat
  | .unsupported _ => 0.0

/-- What there is to note on an aggregation: that it is not known. -/
def Aggregation.notes : Aggregation → List Diagnostic
  | .unsupported name => [.unsupportedAggregation name]
  | _ => []

theorem yields_aggregate (column : String) (how : Aggregation) (rows : List Row) :
    Yields (aggregate column how rows) (how.valueOver column rows)
      (columnNotes column 0 rows ++ how.notes) := by
  refine (yields_addUp column rows 0 (-0.0)).bind ?_
  cases how with
  | sum => exact Yields.pure _
  | average => exact Yields.pure _
  | unsupported name => exact (Yields.note _).bind (Yields.pure 0.0)

-- ================================================================== blocks

/-- What there is to note on a comparison: that it is not known. -/
def Comparison.notes : Comparison → List Diagnostic
  | .unsupported symbol => [.unsupportedComparison symbol]
  | _ => []

/-- What there is to note on a combinator: that it is not known. -/
def Combinator.notes : Combinator → List Diagnostic
  | .unsupported symbol => [.unsupportedCombinator symbol]
  | _ => []

/-- What there is to note on a column's name: that a table with rows does not list it. -/
def Table.nameNotes (t : Table) (column : String) : List Diagnostic :=
  if !t.isEmpty && !t.hasColumn column then [.unknownColumn column] else []

/-- The value of a block. -/
def Block.value (t : Table) : Block → Float
  | .constant x => x
  | .conditional c target how => how.valueOver target (t.select c)

/-- What there is to note on a block. -/
def Block.notes (t : Table) : Block → List Diagnostic
  | .constant _ => []
  | .conditional c target how =>
    c.comparison.notes ++ (t.nameNotes c.column ++ (t.nameNotes target ++
      (columnNotes target 0 (t.select c) ++ how.notes)))

theorem Comparison.yields_check (c : Comparison) : Yields c.check () c.notes := by
  cases c with
  | unsupported symbol => exact Yields.note _
  | _ => exact Yields.pure ()

theorem Combinator.yields_check (op : Combinator) : Yields op.check () op.notes := by
  cases op with
  | unsupported symbol => exact Yields.note _
  | _ => exact Yields.pure ()

theorem Block.yields_evaluate (t : Table) (b : Block) :
    Yields (b.evaluate t) (b.value t) (b.notes t) := by
  cases b with
  | constant x => exact Yields.pure x
  | conditional c target how =>
      exact c.comparison.yields_check.bind ((Yields.noteIf _ _).bind
        ((Yields.noteIf _ _).bind (yields_aggregate target how _)))

-- ================================================================ formulas

/-- An evaluation in closed form: the blocks' values, their join, and the diagnostics of the blocks
before those of the combinators. -/
theorem Formula.evaluate_eq (t : Table) (f : Formula) :
    f.evaluate t =
      { interim := f.blocks.map (Block.value t)
        result := join (f.blocks.map (Block.value t)) f.combinators
        diagnostics := f.blocks.flatMap (Block.notes t) ++ f.combinators.flatMap Combinator.notes }
    := by
  have hblocks := Yields.mapM (Block.yields_evaluate t) f.blocks
  have hops := (Yields.forM Combinator.yields_check f.combinators).bind_pure
    fun _ => f.blocks.map (Block.value t)
  have hwork := hblocks.bind (f := fun interim => f.combinators.forM Combinator.check >>=
    fun _ => pure interim) hops []
  rw [List.nil_append] at hwork
  simp only [Formula.evaluate]
  rw [hwork]

end TableCalc
