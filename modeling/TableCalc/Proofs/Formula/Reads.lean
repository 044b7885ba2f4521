/-
Which cells an evaluation reads: those under the columns that the formula names, and no others. Two
tables with as many rows and the same cells under these columns are alike to the formula (`Alike`),
whatever else stands in their rows and however their columns are listed. The lists of columns are
looked at for one purpose alone, to note a column that is not listed; so the numbers agree, and all
the notes but those (`known`).

The statement is of two runs, and so are the lemmas: the rows of two alike tables are taken in step
(`forall₂_rows`), a condition selects them in step (`forall₂_select`), and what is computed of rows in
step is the same.
-/

import Mathlib.Data.List.Forall2
import TableCalc.Proofs.Formula.Evaluation

namespace TableCalc

variable {names : List String} {column : String} {t t' : Table} {row row' : Row}
  {rows rows' : List Row}

-- ============================================================ the statement

/-- The columns that a block names: of a number none. -/
def Block.columns : Block → List String
  | .constant _ => []
  | .conditional c target _ => [c.column, target]

/-- The columns that the blocks of a formula name. -/
def Formula.columns (f : Formula) : List String := f.blocks.flatMap Block.columns

/-- Two tables are alike under some columns: they have as many rows, and in each row the same cell
under each of the columns, or both none. -/
structure Table.Alike (names : List String) (t t' : Table) : Prop where
  size : t.size = t'.size
  cells : ∀ i, ∀ column ∈ names, t.cell? i column = t'.cell? i column

/-- Whether a diagnostic is of a column that the table does not list. -/
def Diagnostic.isUnknownColumn : Diagnostic → Bool
  | .unknownColumn _ => true
  | _ => false

/-- Diagnostics without those of columns that the table does not list. -/
def known (ds : List Diagnostic) : List Diagnostic := ds.filter fun d => !d.isUnknownColumn

-- ============================================================ rows in step

/-- Two rows have the same cells under some columns. -/
def Row.SameUnder (names : List String) (row row' : Row) : Prop :=
  ∀ column ∈ names, row[column]? = row'[column]?

theorem Table.Alike.mono {names' : List String} (h : t.Alike names t')
    (hsub : ∀ column ∈ names', column ∈ names) : t.Alike names' t' :=
  ⟨h.size, fun i column hcolumn => h.cells i column (hsub column hcolumn)⟩

theorem Table.Alike.forall₂_rows (h : t.Alike names t') :
    List.Forall₂ (Row.SameUnder names) t.rows t'.rows := by
  rw [List.forall₂_iff_get]
  refine ⟨h.size, ?_⟩
  intro i hi hi' column hcolumn
  have hcell := h.cells i column hcolumn
  simpa [cell?, hi, hi'] using hcell

theorem Row.SameUnder.textAt_eq (h : row.SameUnder names row') (hcolumn : column ∈ names) :
    row.textAt column = row'.textAt column := by
  rw [textAt, textAt, h column hcolumn]

/-- A condition looks at one cell of a row. -/
theorem Condition.holds_congr {c : Condition} (h : row.SameUnder names row')
    (hcolumn : c.column ∈ names) : c.holds row = c.holds row' := by
  simp only [holds, h c.column hcolumn]

theorem forall₂_filter_holds {c : Condition} (h : List.Forall₂ (Row.SameUnder names) rows rows')
    (hcolumn : c.column ∈ names) :
    List.Forall₂ (Row.SameUnder names) (rows.filter c.holds) (rows'.filter c.holds) := by
  induction h with
  | nil => exact .nil
  | @cons row row' rows rows' hrow _ ih =>
      have hholds := Condition.holds_congr hrow hcolumn
      by_cases hsel : c.holds row = true
      · rw [List.filter_cons_of_pos hsel, List.filter_cons_of_pos (hholds ▸ hsel)]
        exact .cons hrow ih
      · rw [List.filter_cons_of_neg hsel, List.filter_cons_of_neg (hholds ▸ hsel)]
        exact ih

theorem Table.Alike.forall₂_select (h : t.Alike names t') {c : Condition}
    (hcolumn : c.column ∈ names) :
    List.Forall₂ (Row.SameUnder names) (t.select c) (t'.select c) :=
  forall₂_filter_holds h.forall₂_rows hcolumn

-- ================================================== what rows in step come to

theorem columnSum_congr (h : List.Forall₂ (Row.SameUnder names) rows rows')
    (hcolumn : column ∈ names) (sum : Float) :
    columnSum column sum rows = columnSum column sum rows' := by
  induction h generalizing sum with
  | nil => rfl
  | @cons row row' rows rows' hrow _ ih =>
      show columnSum column (sum + Cell.numberOrZero (row.textAt column)) rows = _
      rw [hrow.textAt_eq hcolumn, ih]
      rfl

theorem columnNotes_congr (h : List.Forall₂ (Row.SameUnder names) rows rows')
    (hcolumn : column ∈ names) (position : Nat) :
    columnNotes column position rows = columnNotes column position rows' := by
  induction h generalizing position with
  | nil => rfl
  | @cons row row' rows rows' hrow _ ih =>
      show cellNotes column position row ++ columnNotes column (position + 1) rows = _
      rw [ih, cellNotes, hrow.textAt_eq hcolumn]
      rfl

theorem Aggregation.valueOver_congr (h : List.Forall₂ (Row.SameUnder names) rows rows')
    (hcolumn : column ∈ names) (how : Aggregation) :
    how.valueOver column rows = how.valueOver column rows' := by
  have hsum := columnSum_congr h hcolumn (-0.0)
  have hlen := h.length_eq
  have hempty : rows.isEmpty = rows'.isEmpty := by
    cases h with
    | nil => rfl
    | cons _ _ => rfl
  cases how with
  | sum => exact hsum
  | average => simp only [valueOver, hsum, hlen, hempty]
  | unsupported name => rfl

-- ================================================================= one block

theorem Block.value_congr {b : Block} (h : t.Alike b.columns t') : b.value t = b.value t' := by
  cases b with
  | constant x => rfl
  | conditional c target how =>
      have hrows := h.forall₂_select (c := c) List.mem_cons_self
      exact Aggregation.valueOver_congr hrows (List.mem_cons_of_mem _ List.mem_cons_self) how

theorem known_append (ds es : List Diagnostic) : known (ds ++ es) = known ds ++ known es :=
  List.filter_append ..

/-- The lists of columns come into the notes as notes of unlisted columns, and in no other way. -/
theorem Table.known_nameNotes (t : Table) (column : String) : known (t.nameNotes column) = [] := by
  unfold nameNotes
  split
  · rfl
  · rfl

theorem Block.known_notes_congr {b : Block} (h : t.Alike b.columns t') :
    known (b.notes t) = known (b.notes t') := by
  cases b with
  | constant x => rfl
  | conditional c target how =>
      have hrows := h.forall₂_select (c := c) List.mem_cons_self
      have hcells := columnNotes_congr hrows (List.mem_cons_of_mem _ List.mem_cons_self) 0
      simp only [notes, known_append, Table.known_nameNotes, hcells]

-- =========================================================== whole formulas

theorem Formula.alike_block {f : Formula} {b : Block} (h : t.Alike f.columns t')
    (hb : b ∈ f.blocks) : t.Alike b.columns t' :=
  h.mono fun _ hcolumn => List.mem_flatMap.mpr ⟨b, hb, hcolumn⟩

theorem Formula.interim_congr {f : Formula} (h : t.Alike f.columns t') :
    f.blocks.map (Block.value t) = f.blocks.map (Block.value t') :=
  List.map_congr_left fun _ hb => Block.value_congr (alike_block h hb)

theorem Formula.known_notes_congr {f : Formula} (h : t.Alike f.columns t') :
    known (f.blocks.flatMap (Block.notes t)) = known (f.blocks.flatMap (Block.notes t')) := by
  unfold known
  rw [List.filter_flatMap, List.filter_flatMap]
  exact List.flatMap_congr fun b hb => Block.known_notes_congr (alike_block h hb)

/-- Of two tables that are alike under the columns a formula names, the formula makes the same: the
values, the result, and the diagnostics but for those of unlisted columns. No order of columns, no
further column or cell, and nothing that was noted before has a part in the numbers. -/
theorem evaluation_reads_named_columns {f : Formula} (h : t.Alike f.columns t') :
    (f.evaluate t).interim = (f.evaluate t').interim
      ∧ (f.evaluate t).result = (f.evaluate t').result
      ∧ known (f.evaluate t).diagnostics = known (f.evaluate t').diagnostics
      ∧ ∀ b ∈ f.blocks, ∀ before before',
          ((b.evaluate t).run before).1 = ((b.evaluate t').run before').1 := by
  have hvalues := Formula.interim_congr h
  rw [Formula.evaluate_eq, Formula.evaluate_eq]
  refine ⟨hvalues, ?_, ?_, ?_⟩
  · show join _ _ = join _ _
    rw [hvalues]
  · show known (_ ++ _) = known (_ ++ _)
    rw [known_append, known_append, Formula.known_notes_congr h]
  · intro b hb before before'
    rw [b.yields_evaluate t before, b.yields_evaluate t' before']
    exact Block.value_congr (Formula.alike_block h hb)

/-- Two tables with nothing in common but the cells that the formula reads, one of them a cell that
is no number and one that is missing: the columns are listed differently, and one table has a column
more. -/
theorem evaluation_reads_named_columns_reordered :
    let f : Formula := ⟨[.conditional ⟨"k", .equal, "x"⟩ "v" .average, .constant 2.0], [.divide]⟩
    let t : Table := ⟨["k", "v"], [Row.ofFields [("k", "x"), ("v", "n/a")],
      Row.ofFields [("k", "x")]]⟩
    let t' : Table := ⟨["v", "w"], [Row.ofFields [("w", "0"), ("v", "n/a"), ("k", "x")],
      Row.ofFields [("w", "1"), ("k", "x")]]⟩
    t.Alike f.columns t'
      ∧ (f.evaluate t).diagnostics = [.unreadableCell 0 "v" "n/a"]
      ∧ (f.evaluate t').diagnostics = [.unknownColumn "k", .unreadableCell 0 "v" "n/a"]
      ∧ (f.evaluate t).result = (f.evaluate t').result := by
  intro f t t'
  have halike : t.Alike f.columns t' := by
    refine ⟨rfl, ?_⟩
    intro i column hcolumn
    match i with
    | 0 =>
        have hfirst : ∀ column ∈ f.columns, t.cell? 0 column = t'.cell? 0 column := by
          decide +kernel
        exact hfirst column hcolumn
    | 1 =>
        have hsecond : ∀ column ∈ f.columns, t.cell? 1 column = t'.cell? 1 column := by
          decide +kernel
        exact hsecond column hcolumn
    | _ + 2 => rfl
  have hnotes : (f.evaluate t).diagnostics = [.unreadableCell 0 "v" "n/a"] := by decide +kernel
  have hnotes' : (f.evaluate t').diagnostics
      = [.unknownColumn "k", .unreadableCell 0 "v" "n/a"] := by decide +kernel
  exact ⟨halike, hnotes, hnotes', (evaluation_reads_named_columns halike).2.1⟩

end TableCalc
