/-
What a profile says of a table. Every column is a number column or a text column, by all of its
rows; and a text column comes with its distinct cells to choose from, each listed once, in the order
of the rows in which they first occur. `Profile.Describes` says this in terms of the rows alone.

The list of choices is gathered from the first row to the last, and what a row adds to it depends on
the rows before: its cell, if it has one that is not listed yet (`distinctCells_concat`). So the
facts about the list are inductions over the rows from their end. The order is one of positions, and
a further row moves none: a cell that is listed already keeps its first row, and one that is new has
its first row behind all others.
-/

import TableCalc.Proofs.Table.Lookup

namespace TableCalc

variable {t : Table} {rows : List Row} {row : Row} {column cell : String}

-- ========================================================== the statement

/-- The position of the first row that has a given cell under a column. -/
def firstWith (rows : List Row) (column cell : String) : Nat :=
  rows.findIdx fun row => row[column]? = some cell

/-- A list holds the distinct cells that a table has under a column: every cell that a row has, each
once, in the order of the first rows that have them. -/
structure Table.ListedBy (t : Table) (column : String) (choices : List String) : Prop where
  complete : ∀ cell, cell ∈ choices ↔ ∃ row ∈ t.rows, row[column]? = some cell
  once : choices.Nodup
  ordered : choices.Pairwise fun a b => firstWith t.rows column a < firstWith t.rows column b

/-- A profile describes a table: it knows the columns of the table and no others, a column is
numeric if all rows have a cell under it that is empty or begins with a finite number, and otherwise
text; and for the text columns, and no others, it lists the distinct cells. -/
structure Profile.Describes (p : Profile) (t : Table) : Prop where
  known : ∀ column, column ∈ p.kinds ↔ column ∈ t.columns
  number : ∀ column ∈ t.columns, p.kinds[column]? = some .number ↔
    ∀ row ∈ t.rows, ∃ raw, row[column]? = some raw
      ∧ (raw = "" ∨ ∃ x, Cell.number? raw = some x ∧ x.isFinite = true)
  text : ∀ column ∈ t.columns, p.kinds[column]? = some .text ↔ p.kinds[column]? ≠ some .number
  chosenFrom : ∀ column, column ∈ p.choices ↔ p.kinds[column]? = some .text
  choices : ∀ column list, p.choices[column]? = some list → t.ListedBy column list

-- ===================================================== the distinct cells

/-- The distinct cells that rows have under a column. -/
def distinctCells (rows : List Row) (column : String) : List String :=
  (rows.filterMap fun row => row[column]?).eraseDups

theorem mem_distinctCells :
    cell ∈ distinctCells rows column ↔ ∃ row ∈ rows, row[column]? = some cell := by
  rw [distinctCells, List.mem_eraseDups, List.mem_filterMap]

/-- What one more row adds to the list: its cell, unless it has none or the cell is listed. -/
theorem distinctCells_concat (rows : List Row) (row : Row) (column : String) :
    distinctCells (rows ++ [row]) column =
      distinctCells rows column ++
        (row[column]?.toList.filter fun cell => cell ∉ distinctCells rows column) := by
  have hlisted : ∀ cell, cell ∈ rows.filterMap (fun row => row[column]?)
      ↔ cell ∈ distinctCells rows column := fun cell => List.mem_eraseDups.symm
  rw [distinctCells, List.filterMap_append, List.eraseDups_append]
  congr 1
  cases hcell : row[column]? with
  | none => simp [hcell, List.removeAll]
  | some cell =>
      by_cases hmem : cell ∈ distinctCells rows column
      · simp [hcell, List.removeAll, hlisted, hmem]
      · simp [hcell, List.removeAll, hlisted, hmem, List.eraseDups_cons]

-- ========================================================= the first rows

theorem firstWith_lt_length : firstWith rows column cell < rows.length ↔
    cell ∈ distinctCells rows column := by
  simp only [firstWith, List.findIdx_lt_length, mem_distinctCells, decide_eq_true_eq]

/-- A cell that is listed keeps its first row. -/
theorem firstWith_concat_of_mem (h : cell ∈ distinctCells rows column) (row : Row) :
    firstWith (rows ++ [row]) column cell = firstWith rows column cell := by
  have hlt := firstWith_lt_length.mpr h
  unfold firstWith at hlt ⊢
  rw [List.findIdx_append, if_pos hlt]

/-- The first row of a new cell is behind all others. -/
theorem firstWith_concat_of_notMem (h : cell ∉ distinctCells rows column) (row : Row) :
    rows.length ≤ firstWith (rows ++ [row]) column cell := by
  have hlt := mt firstWith_lt_length.mp h
  unfold firstWith at hlt ⊢
  rw [List.findIdx_append, if_neg hlt]
  exact Nat.le_add_left _ _

theorem pairwise_distinctCells (rows : List Row) (column : String) :
    (distinctCells rows column).Pairwise fun a b =>
      firstWith rows column a < firstWith rows column b := by
  induction rows using List.reverseRecOn with
  | nil => exact .nil
  | append_singleton rows row ih =>
      rw [distinctCells_concat, List.pairwise_append]
      refine ⟨?_, ?_, ?_⟩
      · refine ih.imp_of_mem fun ha hb hlt => ?_
        rwa [firstWith_concat_of_mem ha, firstWith_concat_of_mem hb]
      · cases row[column]? with
        | none => exact .nil
        | some cell => exact (List.pairwise_singleton _ cell).filter _
      · intro a ha b hb
        have hnew : b ∉ distinctCells rows column := of_decide_eq_true (List.mem_filter.mp hb).2
        have hbefore := firstWith_lt_length.mpr ha
        have hbehind := firstWith_concat_of_notMem hnew row
        rw [firstWith_concat_of_mem ha]
        omega

theorem Table.listedBy_distinctCells (t : Table) (column : String) :
    t.ListedBy column (distinctCells t.rows column) where
  complete _ := mem_distinctCells
  once := (pairwise_distinctCells t.rows column).imp fun hlt => ne_of_apply_ne _ (Nat.ne_of_lt hlt)
  ordered := pairwise_distinctCells t.rows column

-- =============================================================== the maps

theorem mem_tabulate {β : Type} {names : List String} {value : String → β} {name : String} :
    name ∈ tabulate names value ↔ name ∈ names := by
  rw [Std.TreeMap.mem_iff_isSome_getElem?, tabulate_getElem?]
  split <;> simp [*]

namespace Profile

theorem kinds_ofTable_eq_some {kind : ColumnKind} :
    (ofTable t).kinds[column]? = some kind ↔ column ∈ t.columns ∧ t.kindOf column = kind :=
  kind?_ofTable_eq_some

theorem choices_ofTable_eq_some {choices : List String} :
    (ofTable t).choices[column]? = some choices ↔
      (column ∈ t.columns ∧ t.kindOf column = .text) ∧ distinctCells t.rows column = choices := by
  rw [ofTable, tabulate_getElem?, Option.ite_none_right_eq_some, Option.some_inj, List.mem_filter,
    decide_eq_true_eq]
  rfl

/-- The choices of a text column are its distinct cells. -/
theorem distinct_ofTable (h : (ofTable t).kind? column = some .text) :
    (ofTable t).distinct column = distinctCells t.rows column := by
  rw [distinct, choices_ofTable_eq_some.mpr ⟨kind?_ofTable_eq_some.mp h, rfl⟩]
  rfl

-- ========================================================= the conclusion

/-- The profile of a table describes it, whatever the table: rows may be ragged, and a column may be
listed more than once. -/
theorem ofTable_describes (t : Table) : (ofTable t).Describes t where
  known _ := mem_tabulate
  number column hcolumn := by
    simp only [kinds_ofTable_eq_some, Table.kindOf_eq_number, Cell.isNumeric_iff]
    exact and_iff_right hcolumn
  text column hcolumn := by
    simp only [ne_eq, kinds_ofTable_eq_some, hcolumn, true_and, ColumnKind.eq_text_iff]
  chosenFrom column := by
    rw [ofTable, mem_tabulate, List.mem_filter, decide_eq_true_eq]
    exact kinds_ofTable_eq_some.symm
  choices column list h := by
    obtain ⟨-, rfl⟩ := choices_ofTable_eq_some.mp h
    exact t.listedBy_distinctCells column

-- a column listed twice, with a cell that occurs twice and a row without any
example :
    let row (cell : String) := Row.ofFields [("c", cell)]
    (ofTable ⟨["c", "c"], [row "zebra", ∅, row "apple", row "zebra"]⟩).distinct "c"
      = ["zebra", "apple"] := by decide +kernel

end Profile

end TableCalc
