/-
What an evaluation reports, told from the formula and the table alone: a value for every block, the
left fold of those values, and the findings in the order of the blocks, those on combinators last.

`Block.findings` tells the findings on a block without an evaluation, in the terms of the table: a
comparison that is not known, the two columns where the table has rows and does not list them, the
selected rows whose target cell is there and neither empty nor a number, an aggregation that is not
known. `Formula.Reports` says of an outcome that it is all of this and nothing else, and evaluations
have such outcomes, on any table and for every formula that editing reaches.
-/

import Mathlib.Data.List.Basic
import TableCalc.Proofs.Formula.Edits
import TableCalc.Proofs.Formula.Evaluation
import TableCalc.Proofs.Formula.Join

namespace TableCalc

variable {t : Table}

-- =========================================================== the findings

/-- A column that a table with rows does not list. -/
def Table.unlisted? (t : Table) (column : String) : Option Diagnostic :=
  if t.rows ≠ [] ∧ column ∉ t.columns then some (.unknownColumn column) else none

/-- A row, with its position among those selected, whose cell under a column is there, is not empty
and does not begin with a number. -/
def unreadable? (column : String) : Row × Nat → Option Diagnostic
  | (row, position) =>
    (row[column]?.filter fun raw => raw ≠ "" ∧ Cell.number? raw = none).map
      (.unreadableCell position column)

/-- The findings on a block. -/
def Block.findings (t : Table) : Block → List Diagnostic
  | .constant _ => []
  | .conditional c target how =>
    c.comparison.notes ++ (t.unlisted? c.column).toList ++ (t.unlisted? target).toList
      ++ (t.rows.filter c.holds).zipIdx.filterMap (unreadable? target) ++ how.notes

/-- An outcome reports a formula on a table: block by block the constant or what the column comes to
over the selected rows, no result just where there are no blocks and else the left fold of all the
values by all the combinators, and the findings. -/
structure Formula.Reports (t : Table) (f : Formula) (o : Outcome) : Prop where
  size : o.interim.length = f.size
  constant : ∀ (k : Nat) (x : Float), f.blocks[k]? = some (.constant x) → o.interim[k]? = some x
  conditional : ∀ (k : Nat) (c : Condition) (target : String) (how : Aggregation),
    f.blocks[k]? = some (.conditional c target how) →
      ∀ before, o.interim[k]? = some ((aggregate target how (t.rows.filter c.holds)).run before).1
  empty : o.result = none ↔ f.blocks = []
  folded : ∀ first rest, o.interim = first :: rest → f.combinators.length = rest.length
    ∧ o.result = some ((rest.zip f.combinators).foldl
        (fun running next => next.2.apply running next.1) first)
  diagnostics : o.diagnostics =
    f.blocks.flatMap (Block.findings t) ++ f.combinators.flatMap Combinator.notes

-- ===================================================== findings and notes

theorem cellNotes_eq (column : String) (position : Nat) (row : Row) :
    cellNotes column position row = (unreadable? column (row, position)).toList := by
  rw [cellNotes, unreadable?, Row.textAt]
  cases hraw : row[column]? with
  | none => simp
  | some raw =>
      rw [Option.getD_some, Option.filter_some]
      by_cases hread : raw ≠ "" ∧ Cell.number? raw = none
      · rw [if_pos hread, if_pos (decide_eq_true hread)]
        rfl
      · rw [if_neg hread, if_neg (by rwa [decide_eq_true_eq])]
        rfl

theorem columnNotes_eq (column : String) (rows : List Row) :
    columnNotes column 0 rows = rows.zipIdx.filterMap (unreadable? column) := by
  rw [List.filterMap_eq_flatMap_toList, columnNotes]
  congr 1
  funext positioned
  exact cellNotes_eq column positioned.2 positioned.1

theorem Table.nameNotes_eq (t : Table) (column : String) :
    t.nameNotes column = (t.unlisted? column).toList := by
  unfold Table.nameNotes Table.unlisted? Table.isEmpty Table.hasColumn
  by_cases hlisted : t.rows ≠ [] ∧ column ∉ t.columns
  · simp [hlisted]
  · rw [if_neg hlisted, if_neg]
    · rfl
    · simpa using hlisted

theorem Block.findings_eq (b : Block) : b.notes t = b.findings t := by
  cases b with
  | constant x => rfl
  | conditional c target how =>
      simp only [Block.notes, Block.findings, t.nameNotes_eq, columnNotes_eq, List.append_assoc]
      rfl

-- ============================================================= the report

/-- A well-formed formula is reported by its evaluation. -/
theorem Formula.WellFormed.reports {f : Formula} (hf : f.WellFormed) (t : Table) :
    f.Reports t (f.evaluate t) where
  size := by
    rw [evaluate_eq, List.length_map]
    rfl
  constant := by
    intro k x hk
    rw [evaluate_eq, List.getElem?_map, hk]
    rfl
  conditional := by
    intro k c target how hk before
    have hvalue := yields_aggregate target how (t.rows.filter c.holds) before
    rw [evaluate_eq, List.getElem?_map, hk, hvalue]
    rfl
  empty := by
    rw [evaluate_eq]
    cases f.blocks with
    | nil => simp [join]
    | cons b bs => simp [join]
  folded := by
    intro first rest hinterim
    rw [evaluate_eq] at hinterim ⊢
    have hvalues : f.blocks.map (Block.value t) = first :: rest := hinterim
    have hlen : f.combinators.length = rest.length := by
      have hsize := congrArg List.length hvalues
      rw [List.length_map, List.length_cons] at hsize
      unfold WellFormed at hf
      omega
    refine ⟨hlen, ?_⟩
    show join (f.blocks.map (Block.value t)) f.combinators = _
    rw [hvalues, join, joinAll_eq_foldl hlen]
    rfl
  diagnostics := by
    rw [evaluate_eq, List.flatMap_congr (g := Block.findings t) fun b _ => b.findings_eq]

/-- Whatever table a formula made by editing is evaluated on, ragged rows, repeated columns and
cells under no column included, the outcome reports it: value by value, the fold, and every finding
in its place. -/
theorem evaluation_reports (t : Table) (es : List Edit) :
    (Formula.afterEdits es).Reports t ((Formula.afterEdits es).evaluate t) :=
  (Formula.wellFormed_afterEdits es).reports t

end TableCalc
