/-
Choosing the value of a condition on a text column. The card of a block offers the distinct cells of
the column, and the rows are then selected by loose equality. These are two notions of sameness: the
list tells cells apart by their text, the selection takes two spellings of one number for the same.
So an entry of the list may select more rows than those with its own text, and two entries may
select the same rows. But none selects fewer, since every text equals itself, a number beyond the
doubles or one in blanks like any other; so no entry is dead, and every row with a cell under the
column is selected by an entry, its own cell.
-/

import TableCalc.Page.Basic
import TableCalc.Proofs.Table.Choices
import TableCalc.Proofs.Table.Equality

namespace TableCalc.Page

variable {t : Table} {column value : String} {row : Row}

-- ========================================================== the statement

/-- The values to choose from in a column fit the rows of the table. The list of values on a card
with a condition on the column offers them, and choosing one puts it into the condition. Each of
them selects some row and all the rows that have it as their cell, its opposite selects none of
these; and each row that has a cell is selected by one of them. -/
structure ChoicesFit (t : Table) (column : String) : Prop where
  offered : ∀ columns f i (c : Condition) target how, c.column = column → column ≠ "" →
    listEntries? .value (card columns (.ofTable t) f i (.conditional c target how)) =
      some (((Profile.ofTable t).distinct column).map fun value =>
        (value, .update i { condition := some { value := some value } }))
  live : ∀ value ∈ (Profile.ofTable t).distinct column, t.select ⟨column, .equal, value⟩ ≠ []
  own : ∀ value ∈ (Profile.ofTable t).distinct column,
    (t.rows.filter fun row => row[column]? = some value).Sublist (t.select ⟨column, .equal, value⟩)
  opposite : ∀ value ∈ (Profile.ofTable t).distinct column,
    ∀ row ∈ t.select ⟨column, .notEqual, value⟩, row[column]? ≠ some value
  covered : ∀ row ∈ t.rows, ∀ cell, row[column]? = some cell →
    ∃ value ∈ (Profile.ofTable t).distinct column, row ∈ t.select ⟨column, .equal, value⟩

-- =============================================================== the list

/-- On a text column the value of a condition is chosen from the column's distinct cells. -/
theorem listEntries?_value {c : Condition} {target : String} {how : Aggregation}
    (htext : (Profile.ofTable t).kind? c.column = some .text) (hcolumn : c.column ≠ "")
    (columns : List String) (f : Formula) (i : Nat) :
    listEntries? .value (card columns (.ofTable t) f i (.conditional c target how)) =
      some (((Profile.ofTable t).distinct c.column).map fun value =>
        (value, .update i { condition := some { value := some value } })) := by
  have honText : (Profile.ofTable t).isText c.column = true := Profile.isText_iff.mpr htext
  simp [card, kindControls, conditionControls, hcolumn, listEntries?, kindList, columnList,
    comparisonList, valueControl, honText, conditionEdit]

-- =============================================================== the rows

/-- A row is selected by its own cell. -/
theorem holds_equal_of_cell (h : row[column]? = some value) :
    (⟨column, .equal, value⟩ : Condition).holds row = true :=
  holds_equal_iff.mpr ⟨value, h, rfl⟩

theorem mem_select_of_cell (hrow : row ∈ t.rows) (h : row[column]? = some value) :
    row ∈ t.select ⟨column, .equal, value⟩ :=
  List.mem_filter.mpr ⟨hrow, holds_equal_of_cell h⟩

theorem cell_ne_of_mem_select (h : row ∈ t.select ⟨column, .notEqual, value⟩) :
    row[column]? ≠ some value := by
  intro hcell
  have hother : (!(⟨column, .equal, value⟩ : Condition).holds row) = true :=
    (List.mem_filter.mp h).2
  rw [holds_equal_of_cell hcell] at hother
  cases hother

-- ========================================================= the conclusion

/-- The values to choose from in a text column fit the rows of the table. -/
theorem choices_complete_and_live (htext : (Profile.ofTable t).kind? column = some .text) :
    ChoicesFit t column := by
  have hlisted : ∀ value, value ∈ (Profile.ofTable t).distinct column
      ↔ ∃ row ∈ t.rows, row[column]? = some value := by
    intro value
    rw [Profile.distinct_ofTable htext, mem_distinctCells]
  constructor
  case offered =>
    intro columns f i c target how hc hne
    subst hc
    exact listEntries?_value htext hne columns f i
  case live =>
    intro value hvalue
    obtain ⟨row, hrow, hcell⟩ := (hlisted value).mp hvalue
    exact List.ne_nil_of_mem (mem_select_of_cell hrow hcell)
  case own =>
    intro value hvalue
    apply List.monotone_filter_right
    intro row hcell
    exact holds_equal_of_cell (of_decide_eq_true hcell)
  case opposite => exact fun value _ row hrow => cell_ne_of_mem_select hrow
  case covered =>
    intro row hrow cell hcell
    exact ⟨cell, (hlisted cell).mpr ⟨row, hrow, hcell⟩, mem_select_of_cell hrow hcell⟩

/-- Two spellings of one number are two choices, and either of them selects the rows of both. -/
theorem choices_complete_and_live_spellings :
    let t := Table.ofRecords [[("a", "10")], [("a", "n/a")], [("a", " 10.0 ")], []]
    (Profile.ofTable t).kind? "a" = some .text
      ∧ (Profile.ofTable t).distinct "a" = ["10", "n/a", " 10.0 "]
      ∧ (t.select ⟨"a", .equal, "10"⟩).length = 2 ∧ ChoicesFit t "a" := by
  intro t
  have htext : (Profile.ofTable t).kind? "a" = some .text := by decide +kernel
  exact ⟨htext, by decide +kernel, by decide +kernel, choices_complete_and_live htext⟩

end TableCalc.Page
