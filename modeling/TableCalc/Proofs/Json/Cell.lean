/-
What the cell of a JSON value reads as. The text of a number is a literal below the limit of the
doubles, so its cell is a number by every reading, the strict one included, and a finite one
(`wholeNumber?_cell`). The texts of the other values but strings and `null` begin with a letter or a
bracket, which begins no numeral; so a cell is fit for a number column just when the value is a
number, `null`, or a string that is fit for one itself (`isNumeric_cell`).
-/

import TableCalc.Proofs.Number.Layout
import TableCalc.Table.Json

namespace TableCalc

open Number (WritesFinite)

-- ================================================================= numbers

/-- The text of a number is that of a literal below the limit of the doubles. -/
theorem Json.Number.writesFinite_text (n : Json.Number) : WritesFinite n.text := by
  cases n with
  | whole i fits => exact Number.writesFinite_whole _ fits
  | real x finite => exact Number.writesFinite_render Number.dataLayout finite

-- ================================================================ scanning

/-- A word or a bracket begins no numeral. -/
theorem Cell.isNumeric_eq_false {raw : String} {c : Char} {r : List Char}
    (hraw : raw.toList = c :: r) (hc : c ∈ ['t', 'f', '[', '{']) : Cell.isNumeric raw = false := by
  have hempty : raw ≠ "" := by
    intro h
    rw [h] at hraw
    cases hraw
  have hscan : Number.Numeral.scan (c :: r) = none := by
    simp only [List.mem_cons, List.not_mem_nil, or_false] at hc
    rcases hc with rfl | rfl | rfl | rfl <;> rfl
  have hnumber : Cell.number? raw = none := by
    rw [Cell.number?, hraw, hscan]
    rfl
  rw [Cell.isNumeric, hnumber, beq_eq_false_iff_ne.mpr hempty]
  rfl

-- =================================================================== cells

namespace Json

/-- A value whose cell may stand in a number column. -/
def FitsNumbers : Json → Prop
  | .number _ | .null => True
  | .string s => Cell.isNumeric s = true
  | .bool _ | .array _ | .object _ => False

theorem writesFinite_cell (n : Json.Number) : WritesFinite (cell (.number n)).toList := by
  have htext : (cell (.number n)).toList = n.text := String.toList_ofList
  rw [htext]
  exact n.writesFinite_text

/-- The cell of a number is strictly a number, and a finite one. -/
theorem wholeNumber?_cell (n : Json.Number) :
    ∃ x, Cell.wholeNumber? (cell (.number n)) = some x ∧ x.isFinite = true :=
  (writesFinite_cell n).wholeNumber?

theorem isNumeric_cell {v : Json} : Cell.isNumeric v.cell = true ↔ v.FitsNumbers := by
  cases v with
  | null => exact iff_of_true rfl trivial
  | number n =>
      exact iff_of_true (writesFinite_cell n).isNumeric trivial
  | string s => exact Iff.rfl
  | bool b =>
      have hfalse : Cell.isNumeric (cell (.bool b)) = false := by
        cases b with
        | true => exact Cell.isNumeric_eq_false (r := "rue".toList) rfl (by decide)
        | false => exact Cell.isNumeric_eq_false (r := "alse".toList) rfl (by decide)
      exact iff_of_false (ne_true_of_eq_false hfalse) not_false
  | array items =>
      have hcell : (cell (.array items)).toList = '[' :: (itemsText items ++ [']']) := by
        show (String.ofList (text (.array items))).toList = _
        rw [String.toList_ofList, text]
        rfl
      have hfalse := Cell.isNumeric_eq_false hcell (by decide)
      exact iff_of_false (ne_true_of_eq_false hfalse) not_false
  | object members =>
      have hcell : (cell (.object members)).toList = '{' :: (membersText members ++ ['}']) := by
        show (String.ofList (text (.object members))).toList = _
        rw [String.toList_ofList, text]
        rfl
      have hfalse := Cell.isNumeric_eq_false hcell (by decide)
      exact iff_of_false (ne_true_of_eq_false hfalse) not_false

end Json

end TableCalc
