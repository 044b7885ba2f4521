/-
What is found in the maps of the library, which are all filled one name at a time from a list: a row
from its fields, where the last field under a name is the one that stays, and a tabulated map, where
every listed name has the value of its own. Both are inductions over the list from its end, the end
being what was put in last.
-/

import Mathlib.Data.List.Induction
import TableCalc.Table.Profile

namespace TableCalc

variable {β : Type}

-- =================================================================== rows

/-- Where no two fields have one name, what is found under a name is any field with that name. -/
theorem lookup_eq_some_iff_mem {fields : List (String × β)} {name : String} {value : β}
    (h : (fields.map (·.1)).Nodup) : fields.lookup name = some value ↔ (name, value) ∈ fields := by
  rw [List.lookup_eq_some_iff]
  constructor
  · intro hsplit
    obtain ⟨before, after, hfields, -⟩ := hsplit
    rw [hfields]
    exact List.mem_append_right before List.mem_cons_self
  · intro hmem
    obtain ⟨before, after, hfields⟩ := List.append_of_mem hmem
    refine ⟨before, after, hfields, ?_⟩
    intro field hfield
    rw [hfields, List.map_append, List.nodup_append] at h
    obtain ⟨-, -, hdisjoint⟩ := h
    have hne := hdisjoint field.1 (List.mem_map_of_mem hfield) name List.mem_cons_self
    exact bne_iff_ne.mpr hne.symm

/-- The field put in last decides what is found under its name, and under no other. -/
theorem Row.ofFields_concat (fields : List (String × String)) (name value column : String) :
    (Row.ofFields (fields ++ [(name, value)]))[column]? =
      if name = column then some value else (Row.ofFields fields)[column]? := by
  rw [Row.ofFields, List.foldl_append]
  simp only [List.foldl_cons, List.foldl_nil, Std.TreeMap.getElem?_insert,
    Std.LawfulEqOrd.compare_eq_iff_eq]
  rfl

theorem Row.ofFields_getElem?_eq_lookup (fields : List (String × String)) (column : String) :
    (Row.ofFields fields)[column]? = fields.reverse.lookup column := by
  induction fields using List.reverseRecOn with
  | nil => exact Std.TreeMap.getElem?_emptyc
  | append_singleton fields field ih =>
      obtain ⟨name, value⟩ := field
      rw [ofFields_concat, List.reverse_concat, List.lookup_cons, ih]
      by_cases hname : name = column
      · rw [if_pos hname, beq_iff_eq.mpr hname.symm]
      · rw [if_neg hname, beq_eq_false_iff_ne.mpr (Ne.symm hname)]

/-- A row has under a name the value of the last field with that name. -/
theorem Row.ofFields_getElem?_eq_some {fields : List (String × String)} {name value : String} :
    (Row.ofFields fields)[name]? = some value ↔
      ∃ before after, fields = before ++ (name, value) :: after ∧ name ∉ after.map (·.1) := by
  rw [ofFields_getElem?_eq_lookup, List.lookup_eq_some_iff]
  constructor
  · intro hsplit
    obtain ⟨after, before, hfields, hafter⟩ := hsplit
    refine ⟨before.reverse, after.reverse, ?_, ?_⟩
    · rw [← List.reverse_reverse fields, hfields]
      simp
    · intro hmem
      obtain ⟨field, hfield, hname⟩ := List.mem_map.mp hmem
      have hne := hafter field (List.mem_reverse.mp hfield)
      exact bne_iff_ne.mp hne hname.symm
  · intro hsplit
    obtain ⟨before, after, hfields, hafter⟩ := hsplit
    refine ⟨after.reverse, before.reverse, ?_, ?_⟩
    · rw [hfields]
      simp
    · intro field hfield
      rw [bne_iff_ne]
      intro hname
      rw [hname] at hafter
      exact hafter (List.mem_map_of_mem (List.mem_reverse.mp hfield))

/-- Where no two fields have one name, a row has just its fields. -/
theorem Row.ofFields_getElem? {fields : List (String × String)} (h : (fields.map (·.1)).Nodup)
    (column : String) : (Row.ofFields fields)[column]? = fields.lookup column := by
  have hreverse : (fields.reverse.map (·.1)).Nodup := by
    rw [List.map_reverse]
    exact List.pairwise_reverse.mpr (h.imp Ne.symm)
  apply Option.ext
  intro value
  rw [ofFields_getElem?_eq_lookup, lookup_eq_some_iff_mem hreverse, lookup_eq_some_iff_mem h,
    List.mem_reverse]

-- ============================================================== tabulation

/-- A tabulated map gives the listed names their values, and no other name any. -/
theorem tabulate_getElem? (names : List String) (value : String → β) (name : String) :
    (tabulate names value)[name]? = if name ∈ names then some (value name) else none := by
  induction names using List.reverseRecOn with
  | nil => exact Std.TreeMap.getElem?_emptyc
  | append_singleton names last ih =>
      rw [tabulate, List.foldl_append]
      simp only [List.foldl_cons, List.foldl_nil, Std.TreeMap.getElem?_insert,
        Std.LawfulEqOrd.compare_eq_iff_eq, List.mem_append, List.mem_singleton]
      unfold tabulate at ih
      rw [ih]
      by_cases hlast : last = name
      · rw [if_pos hlast, if_pos (Or.inr hlast.symm), hlast]
      · rw [if_neg hlast]
        have hiff : (name ∈ names ∨ name = last) ↔ name ∈ names :=
          or_iff_left (Ne.symm hlast)
        simp only [hiff]

-- ================================================================ profiles

namespace Profile

/-- A table's profile knows the table's columns, each by its kind. -/
theorem kind?_ofTable (t : Table) (column : String) :
    (ofTable t).kind? column = if column ∈ t.columns then some (t.kindOf column) else none :=
  tabulate_getElem? t.columns t.kindOf column

theorem kind?_ofTable_eq_some {t : Table} {column : String} {kind : ColumnKind} :
    (ofTable t).kind? column = some kind ↔ column ∈ t.columns ∧ t.kindOf column = kind := by
  rw [kind?_ofTable, Option.ite_none_right_eq_some, Option.some_inj]

theorem isText_iff {p : Profile} {column : String} :
    p.isText column = true ↔ p.kind? column = some .text := by
  rw [isText, decide_eq_true_eq]

end Profile

theorem ColumnKind.eq_text_iff {kind : ColumnKind} : kind = .text ↔ ¬ kind = .number := by
  cases kind <;> decide

/-- A cell may stand in a number column if it is empty or reads as a finite number. -/
theorem Cell.isNumeric_iff {raw : String} : Cell.isNumeric raw = true ↔
    raw = "" ∨ ∃ x, Cell.number? raw = some x ∧ x.isFinite = true := by
  rw [Cell.isNumeric, Bool.or_eq_true, beq_iff_eq]
  cases Cell.number? raw with
  | none => simp
  | some x => simp

theorem Cell.eq_empty_or_number_of_isNumeric {raw : String} (h : Cell.isNumeric raw = true) :
    raw = "" ∨ Cell.number? raw ≠ none := by
  rcases Cell.isNumeric_iff.mp h with h | ⟨x, hx, -⟩
  · exact .inl h
  · rw [hx]
    exact .inr nofun

/-- In a numeric column every row has a cell, and one that may stand in a number column. -/
theorem Table.kindOf_eq_number {t : Table} {column : String} :
    t.kindOf column = .number ↔
      ∀ row ∈ t.rows, ∃ raw, row[column]? = some raw ∧ Cell.isNumeric raw = true := by
  have hif : t.kindOf column = .number ↔
      (t.rows.all fun row => row[column]?.any Cell.isNumeric) = true := by
    unfold kindOf
    split
    case isTrue h => simp [h]
    case isFalse h => simp [h]
  rw [hif, List.all_eq_true]
  simp only [Option.any_eq_true]

end TableCalc
