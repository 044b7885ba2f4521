/-
What loose equality identifies. It compares some pairs of texts as numbers and others as texts, and
which of the two it does depends on both sides; yet it is equality of one thing that each text has
by itself, its reading (`looselyEqual_iff`). A text that is a number as a whole reads as the place
of the number, any other text as itself, and a number never equals a text. So loose equality is an
equivalence.

The orderings look at something else, the place of the number that a text begins with. But the
reading settles that too (`standing?_eq_of_reading_eq`): where the strict reading answers, the
lenient one answers alike. So no condition tells loosely equal values apart, and the condition of
equality tells any others apart.
-/

import TableCalc.Proofs.Number.Order
import TableCalc.Proofs.Number.Whole
import TableCalc.Proofs.Table.Kinds

namespace TableCalc

open Number

variable {a b u v column raw value : String} {row : Row}

-- ================================================================= readings

/-- What loose equality looks at: the rank of the number that a text is, or the text itself. -/
def reading (raw : String) : Rank ⊕ String :=
  match Cell.wholeNumber? raw with
  | some x => .inl (rank x)
  | none => .inr raw

/-- What the orderings look at: the rank of the number that a text begins with. -/
def standing? (raw : String) : Option Rank := (Cell.number? raw).map rank

theorem Cell.isNaN_eq_false {x : Float} (h : Cell.number? raw = some x) : x.isNaN = false :=
  Number.isNaN_eq_false (Cell.isFinite_or_isInf h)

theorem looselyEqual_iff : looselyEqual a b = true ↔ reading a = reading b := by
  unfold looselyEqual reading
  -- a number and a text differ on both sides: as readings, and as the texts that are compared
  cases ha : Cell.wholeNumber? a with
  | none =>
      cases hb : Cell.wholeNumber? b with
      | none => simp
      | some y =>
          have hne : a ≠ b := ne_of_apply_ne Cell.wholeNumber? (by simp [ha, hb])
          simp [hne]
  | some x =>
      cases hb : Cell.wholeNumber? b with
      | none =>
          have hne : a ≠ b := ne_of_apply_ne Cell.wholeNumber? (by simp [ha, hb])
          simp [hne]
      | some y =>
          have hx := Cell.isNaN_eq_false (Cell.number?_of_wholeNumber? ha)
          have hy := Cell.isNaN_eq_false (Cell.number?_of_wholeNumber? hb)
          simpa using beq_iff_rank hx hy

example : looselyEqual "-0" " 0\u00a0" = true ∧ looselyEqual "10" "10kg" = false := by decide

/-- Texts that read alike stand alike. -/
theorem standing?_eq_of_reading_eq (h : reading a = reading b) : standing? a = standing? b := by
  unfold reading at h
  cases ha : Cell.wholeNumber? a with
  | none =>
      cases hb : Cell.wholeNumber? b with
      | none =>
          have hsame : a = b := by simpa [ha, hb] using h
          rw [hsame]
      | some y => simp [ha, hb] at h
  | some x =>
      cases hb : Cell.wholeNumber? b with
      | none => simp [ha, hb] at h
      | some y =>
          have hrank : rank x = rank y := by simpa [ha, hb] using h
          rw [standing?, standing?, Cell.number?_of_wholeNumber? ha,
            Cell.number?_of_wholeNumber? hb, Option.map_some, Option.map_some, hrank]

-- ============================================================== conditions

theorem holds_equal_iff : (⟨column, .equal, value⟩ : Condition).holds row = true ↔
    ∃ cell, row[column]? = some cell ∧ reading cell = reading value := by
  simp only [Condition.holds, Option.any_eq_true, looselyEqual_iff]

/-- A relation of numbers that is one of their ranks, between the numbers that texts begin with. -/
theorem numbersRelate_iff {relation : Float → Float → Bool} (order : Rank → Rank → Prop)
    (horder : ∀ {x y}, x.isNaN = false → y.isNaN = false →
      (relation x y = true ↔ order (rank x) (rank y))) (cell : Option String) :
    numbersRelate relation cell value = true ↔
      ∃ raw p q, cell = some raw ∧ standing? raw = some p ∧ standing? value = some q ∧ order p q := by
  cases cell with
  | none => simp [numbersRelate]
  | some raw =>
      cases hraw : Cell.number? raw with
      | none => simp [numbersRelate, standing?, hraw]
      | some x =>
          cases hvalue : Cell.number? value with
          | none => simp [numbersRelate, standing?, hraw, hvalue]
          | some y =>
              have hiff := horder (Cell.isNaN_eq_false hraw) (Cell.isNaN_eq_false hvalue)
              simp [numbersRelate, standing?, hraw, hvalue, hiff]

theorem holds_greater_iff : (⟨column, .greater, value⟩ : Condition).holds row = true ↔
    ∃ cell p q, row[column]? = some cell ∧ standing? cell = some p ∧ standing? value = some q
      ∧ q < p :=
  numbersRelate_iff (fun p q => q < p)
    (fun hx hy => decide_eq_true_iff.trans (lt_iff_rank hy hx)) _

theorem holds_less_iff : (⟨column, .less, value⟩ : Condition).holds row = true ↔
    ∃ cell p q, row[column]? = some cell ∧ standing? cell = some p ∧ standing? value = some q
      ∧ p < q :=
  numbersRelate_iff (fun p q => p < q)
    (fun hx hy => decide_eq_true_iff.trans (lt_iff_rank hx hy)) _

-- ======================================================== interchangeability

/-- Two values that no condition tells apart, whatever its column and its comparison. -/
def Interchangeable (u v : String) : Prop :=
  ∀ (column : String) (how : Comparison) (row : Row),
    (⟨column, how, u⟩ : Condition).holds row = (⟨column, how, v⟩ : Condition).holds row

theorem interchangeable_of_reading_eq (h : reading u = reading v) : Interchangeable u v := by
  intro column how row
  have hstanding := standing?_eq_of_reading_eq h
  have hequal : (⟨column, .equal, u⟩ : Condition).holds row
      = (⟨column, .equal, v⟩ : Condition).holds row := by
    rw [Bool.eq_iff_iff, holds_equal_iff, holds_equal_iff, h]
  cases how with
  | equal => exact hequal
  | notEqual => exact congrArg not hequal
  | greater => rw [Bool.eq_iff_iff, holds_greater_iff, holds_greater_iff, hstanding]
  | less => rw [Bool.eq_iff_iff, holds_less_iff, holds_less_iff, hstanding]
  | unsupported symbol => rfl

/-- A row whose cell is one of two interchangeable values equals it, so it equals the other. -/
theorem Interchangeable.reading_eq (h : Interchangeable u v) : reading u = reading v := by
  let row : Row := Row.ofFields [("", u)]
  have hcell : row[""]? = some u := Std.TreeMap.getElem?_insert_self
  have hself : (⟨"", .equal, u⟩ : Condition).holds row = true := holds_equal_iff.mpr ⟨u, hcell, rfl⟩
  rw [h "" .equal row, holds_equal_iff] at hself
  obtain ⟨cell, hsame, hreading⟩ := hself
  rw [hcell] at hsame
  cases hsame
  exact hreading

/-- Loose equality is an equivalence of texts, and values are loosely equal just when they are
interchangeable in every condition. -/
theorem looselyEqual_is_interchangeability :
    Equivalence (fun u v => looselyEqual u v = true)
      ∧ ∀ u v, looselyEqual u v = true ↔ Interchangeable u v := by
  simp only [looselyEqual_iff]
  refine ⟨⟨fun u => rfl, fun h => h.symm, fun h h' => h.trans h'⟩, fun u v => ⟨?_, ?_⟩⟩
  · exact interchangeable_of_reading_eq
  · exact Interchangeable.reading_eq

end TableCalc
