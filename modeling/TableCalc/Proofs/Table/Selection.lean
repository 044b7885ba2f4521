/-
How the comparisons of one column with one value divide the rows of a table. The two equalities are
each other's opposites, so what they select are two parts of the table that merge to the whole. The
two orderings and equality never meet on a row: they are the three ways in which one rank can stand
to another, except that equality may also hold without any ranks, and then on equal texts. On a
row where both sides are numbers as a whole, equality is of the ranks that the orderings compare,
and one of the three holds.
-/

import TableCalc.Proofs.Table.Equality

namespace TableCalc

open Number

variable {column value cell : String} {row : Row}

-- ==================================================================== merging

/-- A list is merged from two others: each is in it in its order, and nothing else is. -/
inductive Merges {α : Type} : List α → List α → List α → Prop
  | nil : Merges [] [] []
  | left (z : α) {xs ys zs : List α} : Merges xs ys zs → Merges (z :: xs) ys (z :: zs)
  | right (z : α) {xs ys zs : List α} : Merges xs ys zs → Merges xs (z :: ys) (z :: zs)

/-- What a test keeps and what it drops merge to the list. -/
theorem merges_filter {α : Type} (test : α → Bool) (zs : List α) :
    Merges (zs.filter test) (zs.filter fun z => !test z) zs := by
  induction zs with
  | nil => exact .nil
  | cons z zs ih =>
      by_cases hz : test z = true
      · simpa [hz] using ih.left z
      · simpa [hz] using ih.right z

-- ================================================================ comparisons

/-- How many of equality and the two orderings hold between a row's cell and a value. -/
def relationsHeld (column value : String) (row : Row) : Nat :=
  [Comparison.equal, .greater, .less].countP fun how =>
    (⟨column, how, value⟩ : Condition).holds row

/-- A cell that equals the value stands where the value does, if it stands anywhere. -/
theorem standing?_eq_of_equal (h : (⟨column, .equal, value⟩ : Condition).holds row = true)
    (hcell : row[column]? = some cell) : standing? cell = standing? value := by
  obtain ⟨cell', hcell', hreading⟩ := holds_equal_iff.mp h
  obtain rfl := Option.some.inj (hcell.symm.trans hcell')
  exact standing?_eq_of_reading_eq hreading

theorem not_greater_of_equal (h : (⟨column, .equal, value⟩ : Condition).holds row = true) :
    ¬ (⟨column, .greater, value⟩ : Condition).holds row = true := by
  intro hgreater
  obtain ⟨cell, p, q, hcell, hp, hq, hlt⟩ := holds_greater_iff.mp hgreater
  rw [standing?_eq_of_equal h hcell, hq] at hp
  exact hlt.ne (Option.some.inj hp)

theorem not_less_of_equal (h : (⟨column, .equal, value⟩ : Condition).holds row = true) :
    ¬ (⟨column, .less, value⟩ : Condition).holds row = true := by
  intro hless
  obtain ⟨cell, p, q, hcell, hp, hq, hlt⟩ := holds_less_iff.mp hless
  rw [standing?_eq_of_equal h hcell, hq] at hp
  exact hlt.ne' (Option.some.inj hp)

theorem not_less_of_greater (h : (⟨column, .greater, value⟩ : Condition).holds row = true) :
    ¬ (⟨column, .less, value⟩ : Condition).holds row = true := by
  obtain ⟨cell, p, q, hcell, hp, hq, hlt⟩ := holds_greater_iff.mp h
  intro hless
  obtain ⟨cell', p', q', hcell', hp', hq', hlt'⟩ := holds_less_iff.mp hless
  obtain rfl := Option.some.inj (hcell.symm.trans hcell')
  obtain rfl := Option.some.inj (hp.symm.trans hp')
  obtain rfl := Option.some.inj (hq.symm.trans hq')
  exact lt_asymm hlt hlt'

theorem relationsHeld_le_one (column value : String) (row : Row) :
    relationsHeld column value row ≤ 1 := by
  simp only [relationsHeld, List.countP_cons, List.countP_nil]
  by_cases hequal : (⟨column, .equal, value⟩ : Condition).holds row = true
  · simp [hequal, not_greater_of_equal hequal, not_less_of_equal hequal]
  · by_cases hgreater : (⟨column, .greater, value⟩ : Condition).holds row = true
    · simp [hequal, hgreater, not_less_of_greater hgreater]
    · by_cases hless : (⟨column, .less, value⟩ : Condition).holds row = true
      · simp [hequal, hgreater, hless]
      · simp [hequal, hgreater, hless]

/-- Between two numbers one of the three relations holds. -/
theorem exists_relation {x y : Float} (hcell : row[column]? = some cell)
    (hx : Cell.wholeNumber? cell = some x) (hy : Cell.wholeNumber? value = some y) :
    ∃ how ∈ [Comparison.equal, .greater, .less],
      (⟨column, how, value⟩ : Condition).holds row = true := by
  have hp : standing? cell = some (rank x) := by
    rw [standing?, Cell.number?_of_wholeNumber? hx, Option.map_some]
  have hq : standing? value = some (rank y) := by
    rw [standing?, Cell.number?_of_wholeNumber? hy, Option.map_some]
  rcases lt_trichotomy (rank x) (rank y) with hlt | heq | hgt
  · exact ⟨.less, by simp, holds_less_iff.mpr ⟨cell, _, _, hcell, hp, hq, hlt⟩⟩
  · have hreading : reading cell = reading value := by
      simp only [reading, hx, hy, heq]
    exact ⟨.equal, by simp, holds_equal_iff.mpr ⟨cell, hcell, hreading⟩⟩
  · exact ⟨.greater, by simp, holds_greater_iff.mpr ⟨cell, _, _, hcell, hp, hq, hgt⟩⟩

-- ================================================================ the division

/-- How the comparisons of a column with a value divide the rows of a table. -/
structure Table.DividedBy (t : Table) (column value : String) : Prop where
  /-- The rows that equal the value and those that do not are the rows of the table, in order. -/
  merged : Merges (t.select ⟨column, .equal, value⟩) (t.select ⟨column, .notEqual, value⟩) t.rows
  disjoint : ∀ row ∈ t.select ⟨column, .equal, value⟩, row ∉ t.select ⟨column, .notEqual, value⟩
  missing : ∀ row ∈ t.rows, row[column]? = none → row ∈ t.select ⟨column, .notEqual, value⟩
  /-- Equality and the two orderings exclude each other, whatever the texts are. -/
  exclusive : ∀ row ∈ t.rows, relationsHeld column value row ≤ 1
  /-- One of the three holds of a row if its cell and the value are numbers. -/
  decided : ∀ row ∈ t.rows, ∀ cell, row[column]? = some cell → (Cell.wholeNumber? cell).isSome →
    (Cell.wholeNumber? value).isSome → relationsHeld column value row = 1

theorem Table.dividedBy (t : Table) (column value : String) : t.DividedBy column value where
  merged := merges_filter _ t.rows
  disjoint row hequal hother := by
    have hholds := (List.mem_filter.mp hequal).2
    have hfails := (List.mem_filter.mp hother).2
    exact absurd hholds (by simpa [Condition.holds] using hfails)
  missing row hrow hnone := List.mem_filter.mpr ⟨hrow, by simp [Condition.holds, hnone]⟩
  exclusive row _ := relationsHeld_le_one column value row
  decided row _ cell hcell hx hy := by
    obtain ⟨x, hx⟩ := Option.isSome_iff_exists.mp hx
    obtain ⟨y, hy⟩ := Option.isSome_iff_exists.mp hy
    obtain ⟨how, hmem, hholds⟩ := exists_relation hcell hx hy
    have hpos : 0 < relationsHeld column value row := List.countP_pos_iff.mpr ⟨how, hmem, hholds⟩
    have hle := relationsHeld_le_one column value row
    omega

-- a cell that only begins with the value's number is none of equal, greater and less
example : relationsHeld "a" "10" (Row.ofFields [("a", "10kg")]) = 0 := by decide

end TableCalc
