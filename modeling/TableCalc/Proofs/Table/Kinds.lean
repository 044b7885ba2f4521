/-
The kind of a column against what reading the column finds. A profile and an aggregation look at the
same cells in different words: the profile asks whether a cell is there and empty or leniently a
finite number, the aggregation notes a cell that is there, not empty, and begins with no number. They
agree all the same. Over a number column nothing is noted of any cell and nothing infinite is read,
whichever rows are taken, those that a condition selects among them. A text column has a row that
shows why it is one: the cell is missing, or an aggregation over the whole table notes it, or it
reads as an infinity. There is no other way to fall short, because a numeral is never read as no
number (`Cell.isFinite_or_isInf`).
-/

import TableCalc.Proofs.Formula.Evaluation
import TableCalc.Proofs.Number.Nearest
import TableCalc.Proofs.Table.Lookup

namespace TableCalc

variable {t : Table} {column raw : String} {rows : List Row} {row : Row}

-- =================================================================== cells

/-- What a cell reads as is finite or infinite. -/
theorem Cell.isFinite_or_isInf {x : Float} (h : Cell.number? raw = some x) :
    x.isFinite = true ∨ x.isInf = true := by
  obtain ⟨⟨n, rest⟩, -, rfl⟩ := Option.map_eq_some_iff.mp h
  exact n.isFinite_or_isInf_value

theorem Cell.isFinite_numberOrZero (h : Cell.isNumeric raw = true) :
    (Cell.numberOrZero raw).isFinite = true := by
  rcases Cell.isNumeric_iff.mp h with rfl | ⟨x, hx, hfinite⟩
  · decide
  · rw [Cell.numberOrZero, hx]
    exact hfinite

/-- A cell that may not stand in a number column begins with no number, or with an infinite one. -/
theorem Cell.unread_of_not_isNumeric (h : Cell.isNumeric raw ≠ true) :
    raw ≠ "" ∧ (Cell.number? raw = none ∨ ∃ x, Cell.number? raw = some x ∧ x.isInf = true) := by
  rw [ne_eq, Cell.isNumeric_iff, not_or] at h
  obtain ⟨hempty, hread⟩ := h
  refine ⟨hempty, ?_⟩
  cases hnumber : Cell.number? raw with
  | none => exact .inl rfl
  | some x =>
      have hinf := (Cell.isFinite_or_isInf hnumber).resolve_left fun hx => hread ⟨x, hnumber, hx⟩
      exact .inr ⟨x, rfl, hinf⟩

-- ================================================================= columns

/-- In a number column the text that a row has is fit for one. -/
theorem Table.isNumeric_textAt (h : t.kindOf column = .number) (hrow : row ∈ t.rows) :
    Cell.isNumeric (row.textAt column) = true := by
  obtain ⟨raw, hraw, hnumeric⟩ := kindOf_eq_number.mp h row hrow
  rw [Row.textAt, hraw]
  exact hnumeric

/-- A text column has a row without a cell under it, or with one that is not fit for numbers. -/
theorem Table.exists_of_kindOf_eq_text (h : t.kindOf column = .text) :
    ∃ (i : Nat) (row : Row), t.rows[i]? = some row
      ∧ ∀ raw, row[column]? = some raw → Cell.isNumeric raw ≠ true := by
  rw [ColumnKind.eq_text_iff, kindOf_eq_number] at h
  push Not at h
  obtain ⟨row, hrow, hraw⟩ := h
  obtain ⟨i, hi⟩ := List.getElem?_of_mem hrow
  exact ⟨i, row, hi, hraw⟩

/-- A cell that is neither empty nor a number is noted with its position. -/
theorem unreadableCell_mem_columnNotes {i : Nat} (hrow : rows[i]? = some row)
    (hraw : row[column]? = some raw) (hempty : raw ≠ "") (hnone : Cell.number? raw = none) :
    .unreadableCell i column raw ∈ columnNotes column 0 rows := by
  have htext : row.textAt column = raw := by
    rw [Row.textAt, hraw, Option.getD_some]
  have hmem : (row, i) ∈ rows.zipIdx 0 := List.mem_zipIdx_iff_getElem?.mpr hrow
  refine List.mem_flatMap.mpr ⟨(row, i), hmem, ?_⟩
  show _ ∈ cellNotes column i row
  rw [cellNotes, htext, if_pos ⟨hempty, hnone⟩]
  exact List.mem_singleton_self _

-- =========================================================== the agreement

/-- Over a number column, and over any rows of the table, an aggregation of any kind notes nothing
but that it may not be known itself, and every cell reads as a finite number with nothing noted. A
text column has a row where the cell is missing, or is not empty and either noted by every
aggregation over the whole table or an infinity. -/
theorem Profile.kind_agrees_with_reading (t : Table) (column : String) :
    ((ofTable t).kind? column = some .number → ∀ rows ⊆ t.rows,
      (∀ how, ∃ v, Yields (aggregate column how rows) v how.notes)
        ∧ ∀ row ∈ rows, ∀ i, ∃ x, Yields (readCell column i row) x [] ∧ x.isFinite = true)
    ∧ ((ofTable t).kind? column = some .text → ∃ i row, t.rows[i]? = some row
      ∧ (row[column]? = none ∨ ∃ raw, row[column]? = some raw ∧ raw ≠ ""
        ∧ ((∀ how, ∃ v notes, Yields (aggregate column how t.rows) v notes
              ∧ .unreadableCell i column raw ∈ notes)
          ∨ ∃ x, Cell.number? raw = some x ∧ x.isInf = true))) := by
  constructor
  · intro hkind rows hrows
    have hread : ∀ row ∈ rows, Cell.isNumeric (row.textAt column) = true := fun row hrow =>
      Table.isNumeric_textAt (kind?_ofTable_eq_some.mp hkind).2 (hrows hrow)
    constructor
    · intro how
      have hnotes : columnNotes column 0 rows = [] :=
        columnNotes_eq_nil (fun row hrow => Cell.eq_empty_or_number_of_isNumeric (hread row hrow)) 0
      have hyields := yields_aggregate column how rows
      rw [hnotes, List.nil_append] at hyields
      exact ⟨_, hyields⟩
    · intro row hrow i
      have hyields := yields_readCell column i row
      rw [cellNotes_eq_nil (Cell.eq_empty_or_number_of_isNumeric (hread row hrow))] at hyields
      exact ⟨_, hyields, Cell.isFinite_numberOrZero (hread row hrow)⟩
  · intro hkind
    obtain ⟨i, row, hrow, hunfit⟩ :=
      Table.exists_of_kindOf_eq_text (kind?_ofTable_eq_some.mp hkind).2
    refine ⟨i, row, hrow, ?_⟩
    cases hraw : row[column]? with
    | none => exact .inl rfl
    | some raw =>
        obtain ⟨hempty, hunread⟩ := Cell.unread_of_not_isNumeric (hunfit raw hraw)
        refine .inr ⟨raw, rfl, hempty, hunread.imp_left fun hnone how => ?_⟩
        have hmem := unreadableCell_mem_columnNotes hrow hraw hempty hnone
        exact ⟨_, _, yields_aggregate column how t.rows, List.mem_append_left _ hmem⟩

/-- Both kinds in one table: a cell with a unit and an empty one make a number column, a numeral
beyond the doubles makes a text column. -/
theorem Profile.kind_agrees_with_reading_overflow :
    let t := Table.ofRecords [[("a", "12kg"), ("b", "1e400")], [("a", ""), ("b", "7")]]
    (ofTable t).kind? "a" = some .number ∧ (ofTable t).kind? "b" = some .text
      ∧ (∀ how, ∃ v, Yields (aggregate "a" how t.rows) v how.notes)
      ∧ ∃ i row, t.rows[i]? = some row ∧ (row["b"]? = none ∨ ∃ raw, row["b"]? = some raw
        ∧ raw ≠ "" ∧ ((∀ how, ∃ v notes, Yields (aggregate "b" how t.rows) v notes
              ∧ .unreadableCell i "b" raw ∈ notes)
          ∨ ∃ x, Cell.number? raw = some x ∧ x.isInf = true)) := by
  intro t
  have hnumber : (ofTable t).kind? "a" = some .number := by decide +kernel
  have htext : (ofTable t).kind? "b" = some .text := by decide +kernel
  exact ⟨hnumber, htext, ((kind_agrees_with_reading t "a").1 hnumber _ (List.Subset.refl _)).1,
    (kind_agrees_with_reading t "b").2 htext⟩

end TableCalc
