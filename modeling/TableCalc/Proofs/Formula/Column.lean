/-
What a column comes to over some rows. Value and notes are produced together, cell by cell, and the
kind of the aggregation is looked at afterwards; told apart they are simple. Each row has a share in
the column, the number that its cell begins with or zero, and the value is made of the shares of all
rows. The notes name the cells that should have had a number and have none, each by the position of
its row, from the first row to the last.

Rows are any rows here: ragged, the same one more than once, none at all.
-/

import Mathlib.Data.List.Basic
import TableCalc.Proofs.Formula.Report

namespace TableCalc

variable {column : String} {how : Aggregation} {rows : List Row}

-- ========================================================== the statement

/-- What a row adds to a column: the number that its cell begins with, and zero where there is no
number or no cell. -/
def Row.share (row : Row) (column : String) : Float := (row[column]?.bind Cell.number?).getD 0.0

/-- The shares of all rows, added up from left to right. -/
def shareTotal (column : String) (rows : List Row) : Float :=
  (rows.map (·.share column)).foldl (· + ·) (-0.0)

/-- The cells to be noted under a column, each with the position of its row: those that are there,
are not empty, and do not begin with a number. -/
structure UnreadCells (column : String) (rows : List Row) (cells : List (Nat × String)) : Prop where
  complete : ∀ i raw, (i, raw) ∈ cells ↔ ∃ row, rows[i]? = some row ∧ row[column]? = some raw
    ∧ raw ≠ "" ∧ Cell.number? raw = none
  ordered : cells.Pairwise fun a b => a.1 < b.1

/-- An aggregation reduces a column to a value, with notes: a sum to the total of the shares, an
average to the total divided by the number of all rows, or to zero where there are none, and what is
not known to zero. The notes are one for each unread cell, and behind them one on the aggregation if
it is not known. -/
structure Aggregation.Reduces (how : Aggregation) (column : String) (rows : List Row) (value : Float)
    (notes : List Diagnostic) : Prop where
  sum : how = .sum → value = shareTotal column rows
  average : how = .average → rows ≠ [] → value = shareTotal column rows / rows.length.toFloat
  averageOfNone : how = .average → rows = [] → value = 0.0
  unsupported : ∀ name, how = .unsupported name → value = 0.0
  notes : ∃ cells, UnreadCells column rows cells
    ∧ ((∀ name, how ≠ .unsupported name) →
      notes = cells.map fun cell => .unreadableCell cell.1 column cell.2)
    ∧ ∀ name, how = .unsupported name →
      notes = (cells.map fun cell => .unreadableCell cell.1 column cell.2)
        ++ [.unsupportedAggregation name]

-- ================================================================= shares

theorem Row.numberOrZero_textAt (row : Row) (column : String) :
    Cell.numberOrZero (row.textAt column) = row.share column := by
  rw [Row.textAt, Row.share]
  cases row[column]? with
  | none => rfl
  | some raw => rfl

theorem columnSum_eq (column : String) (rows : List Row) :
    columnSum column (-0.0) rows = shareTotal column rows := by
  rw [columnSum, shareTotal, List.foldl_map]
  simp only [Row.numberOrZero_textAt]

-- =========================================================== unread cells

/-- The cell of a row, with the row's position, if it is to be noted. -/
def unreadCell? (column : String) : Row × Nat → Option (Nat × String)
  | (row, position) =>
    (row[column]?.filter fun raw => raw ≠ "" ∧ Cell.number? raw = none).map (position, ·)

theorem unreadCell?_eq_some {row : Row} {position i : Nat} {raw : String} :
    unreadCell? column (row, position) = some (i, raw) ↔
      position = i ∧ row[column]? = some raw ∧ raw ≠ "" ∧ Cell.number? raw = none := by
  rw [unreadCell?, Option.map_eq_some_iff]
  constructor
  · intro hnoted
    obtain ⟨_, hraw, heq⟩ := hnoted
    cases heq
    obtain ⟨hcell, hunread⟩ := Option.filter_eq_some_iff.mp hraw
    exact ⟨rfl, hcell, of_decide_eq_true hunread⟩
  · intro hunread
    obtain ⟨hposition, hcell, hunread⟩ := hunread
    subst hposition
    exact ⟨raw, Option.filter_eq_some_iff.mpr ⟨hcell, decide_eq_true hunread⟩, rfl⟩

theorem unreadCells_filterMap (column : String) (rows : List Row) :
    UnreadCells column rows (rows.zipIdx.filterMap (unreadCell? column)) where
  complete i raw := by
    rw [List.mem_filterMap]
    constructor
    · intro hnoted
      obtain ⟨⟨row, position⟩, hmem, hcell⟩ := hnoted
      obtain ⟨rfl, hunread⟩ := unreadCell?_eq_some.mp hcell
      exact ⟨row, List.mem_zipIdx_iff_getElem?.mp hmem, hunread⟩
    · intro hrows
      obtain ⟨row, hrow, hunread⟩ := hrows
      exact ⟨(row, i), List.mem_zipIdx_iff_getElem?.mpr hrow,
        unreadCell?_eq_some.mpr ⟨rfl, hunread⟩⟩
  ordered := by
    have hpositions : rows.zipIdx.Pairwise fun a b => a.2 < b.2 := by
      rw [← List.pairwise_map, List.zipIdx_map_snd]
      exact List.pairwise_lt_range'
    refine hpositions.filterMap (unreadCell? column) ?_
    intro a b hlt cell hcell cell' hcell'
    -- a cell is noted with the position of its row
    obtain ⟨hposition, -⟩ := unreadCell?_eq_some.mp hcell
    obtain ⟨hposition', -⟩ := unreadCell?_eq_some.mp hcell'
    rw [← hposition, ← hposition']
    exact hlt

theorem columnNotes_eq_map (column : String) (rows : List Row) :
    columnNotes column 0 rows = (rows.zipIdx.filterMap (unreadCell? column)).map
      fun cell => .unreadableCell cell.1 column cell.2 := by
  rw [columnNotes_eq, List.map_filterMap]
  congr 1
  funext ⟨row, position⟩
  rw [unreadable?, unreadCell?, Option.map_map]
  rfl

-- ========================================================== the reduction

theorem Aggregation.reduces_valueOver (how : Aggregation) (column : String) (rows : List Row) :
    how.Reduces column rows (how.valueOver column rows)
      (columnNotes column 0 rows ++ how.notes) where
  sum hhow := by
    subst hhow
    exact columnSum_eq column rows
  average hhow hrows := by
    subst hhow
    rw [valueOver, columnSum_eq, List.isEmpty_eq_false_iff.mpr hrows]
    rfl
  averageOfNone hhow hrows := by
    subst hhow hrows
    rfl
  unsupported name hhow := by
    subst hhow
    rfl
  notes := by
    refine ⟨_, unreadCells_filterMap column rows, ?_, ?_⟩
    · intro hknown
      have hnone : how.notes = [] := by
        cases how with
        | unsupported name => exact absurd rfl (hknown name)
        | _ => rfl
      rw [hnone, List.append_nil, columnNotes_eq_map]
    · intro name hhow
      subst hhow
      rw [columnNotes_eq_map]
      rfl

/-- Whatever the rows, the column and the aggregation, and whatever has been noted before: the
column is reduced, the value does not depend on the earlier notes, and the new ones are put behind
them. -/
theorem column_is_reduced (column : String) (how : Aggregation) (rows : List Row) :
    ∃ value notes, Yields (aggregate column how rows) value notes
      ∧ how.Reduces column rows value notes :=
  ⟨_, _, yields_aggregate column how rows, how.reduces_valueOver column rows⟩

-- a missing cell and one without a number still count in the average
example :
    let row (cell : String) := Row.ofFields [("x", cell)]
    let run : Float × List Diagnostic :=
      (aggregate "x" .average [row "10", ∅, row "oops", row "5kg"]).run []
    run = (3.75, [.unreadableCell 2 "x" "oops"]) := by
  decide +kernel

end TableCalc
