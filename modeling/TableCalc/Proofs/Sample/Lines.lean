/-
How lines of cells are read back. Four characters have a meaning of their own in comma-separated
text, and cells without them are `Plain`. Their bytes are kept as they come, whatever other
characters they belong to, so the comma after a cell closes the cell and the line feed closes the
record (`foldl_line`).

A line needs two cells for this. A single empty cell would make an empty line, which is no record.
-/

import TableCalc.Proofs.Table.Csv
import TableCalc.Proofs.Text.Bytes
import TableCalc.Sample.Sales

namespace TableCalc.Csv

open Sample (line)
open Text (bytes)

variable {s : State} {bs : List UInt8} {cell : String} {cells : List String}

-- ============================================================ plain cells

/-- The characters with a meaning of their own. -/
def marks : List Char := [',', '"', '\n', '\r']

/-- A text without any of them. -/
def Plain (text : List Char) : Prop := ∀ c ∈ text, c ∉ marks

instance (text : List Char) : Decidable (Plain text) := List.decidableBAll (· ∉ marks) text

theorem map_marks : marks.map Char.toUInt8 = [0x2C, 0x22, 0x0A, 0x0D] := rfl

theorem Plain.notMem_of_mem_bytes {text : List Char} (h : Plain text) {b : UInt8}
    (hb : b ∈ bytes text) : b ∉ marks.map Char.toUInt8 := by
  intro hmark
  obtain ⟨c, hc, rfl⟩ := List.mem_map.mp hmark
  have hsmall : ∀ c ∈ marks, c.toNat < 128 := by simp [marks]
  exact h c ((Text.mem_bytes_iff (hsmall c hc)).mp hb) hc

-- ================================================================== steps

theorem step_plain {b : UInt8} (hb : b ∉ marks.map Char.toUInt8) (hs : s.place ≠ .quoted) :
    step s b = s.keep .bare b := by
  obtain ⟨hcomma, hquote, hfeed, hreturn⟩ : b ≠ 0x2C ∧ b ≠ 0x22 ∧ b ≠ 0x0A ∧ b ≠ 0x0D := by
    simpa [map_marks] using hb
  unfold step
  split <;> simp_all [stepFieldStart, stepBare, endsRecord]

theorem step_comma (hs : s.place ≠ .quoted) : step s 0x2C = s.endField := by
  unfold step
  split <;> simp_all [stepFieldStart, stepBare, endsRecord]

theorem step_lineFeed (hs : s.place ≠ .quoted) (hbegun : s.place ≠ .recordStart) :
    step s 0x0A = s.endRecord := by
  unfold step
  split <;> simp_all [stepFieldStart, stepBare, endsRecord]

/-- Plain bytes are added to the field, and they begin one if there are any. -/
theorem foldl_plain (hbs : ∀ b ∈ bs, b ∉ marks.map Char.toUInt8) (hs : s.place ≠ .quoted) :
    bs.foldl step s = { s with
      place := if bs = [] then s.place else .bare, field := bs.reverse ++ s.field } := by
  induction bs generalizing s with
  | nil => rfl
  | cons b bs ih =>
      obtain ⟨hb, hbs⟩ := List.forall_mem_cons.mp hbs
      have hbare : (s.keep .bare b).place ≠ .quoted := Place.noConfusion
      rw [List.foldl_cons, step_plain hb hs, ih hbs hbare]
      simp [State.keep]

/-- A comma closes the cell before it, at the start of a record as well. -/
theorem foldl_cell (hcell : Plain cell.toList) {place : Place} (hplace : place ≠ .quoted)
    (fields : List (List UInt8)) (records : List (List (List UInt8))) :
    (bytes cell.toList ++ [0x2C]).foldl step ⟨place, [], fields, records⟩ =
      ⟨.fieldStart, [], bytes cell.toList :: fields, records⟩ := by
  have hplain := fun b hb => hcell.notMem_of_mem_bytes (b := b) hb
  rw [List.foldl_append, foldl_plain hplain hplace, List.foldl_cons, List.foldl_nil, step_comma]
  · simp [State.endField]
  · show ite _ _ _ ≠ Place.quoted
    split
    · exact hplace
    · exact Place.noConfusion

/-- A line feed closes the cell before it, and the record. -/
theorem foldl_lastCell (hcell : Plain cell.toList) (fields : List (List UInt8))
    (records : List (List (List UInt8))) :
    (bytes cell.toList ++ [0x0A]).foldl step ⟨.fieldStart, [], fields, records⟩ =
      ⟨.recordStart, [], [], (bytes cell.toList :: fields).reverse :: records⟩ := by
  have hplain := fun b hb => hcell.notMem_of_mem_bytes (b := b) hb
  rw [List.foldl_append, foldl_plain hplain Place.noConfusion, List.foldl_cons, List.foldl_nil,
    step_lineFeed]
  · simp [State.endRecord, State.endField]
  · show ite _ _ _ ≠ Place.quoted
    split <;> exact Place.noConfusion
  · show ite _ _ _ ≠ Place.recordStart
    split <;> exact Place.noConfusion

-- ================================================================== lines

theorem bytes_line_singleton : bytes (line [cell]).toList = bytes cell.toList ++ [0x0A] := by
  rw [line, String.intercalate_singleton, String.toList_append, Text.bytes_append]
  rfl

theorem bytes_line_cons (next : String) : bytes (line (cell :: next :: cells)).toList =
    bytes cell.toList ++ [0x2C] ++ bytes (line (next :: cells)).toList := by
  simp only [line, String.intercalate_cons_cons, String.toList_append, Text.bytes_append]
  rw [List.append_assoc]
  rfl

/-- From the start of a field on, the cells of a line complete the record. -/
theorem foldl_fields (hne : cells ≠ []) (hcells : ∀ cell ∈ cells, Plain cell.toList)
    (fields : List (List UInt8)) (records : List (List (List UInt8))) :
    (bytes (line cells).toList).foldl step ⟨.fieldStart, [], fields, records⟩ =
      ⟨.recordStart, [], [],
        (fields.reverse ++ cells.map fun cell => bytes cell.toList) :: records⟩ := by
  induction cells generalizing fields with
  | nil => exact absurd rfl hne
  | cons cell cells ih =>
      obtain ⟨hcell, hcells⟩ := List.forall_mem_cons.mp hcells
      cases cells with
      | nil =>
          rw [bytes_line_singleton, foldl_lastCell hcell, List.reverse_cons]
          rfl
      | cons next cells =>
          rw [bytes_line_cons, List.foldl_append, foldl_cell hcell Place.noConfusion,
            ih nofun hcells, List.reverse_cons, List.append_assoc]
          rfl

/-- A line of two cells or more is the record of its cells. -/
theorem foldl_line (htwo : 2 ≤ cells.length) (hcells : ∀ cell ∈ cells, Plain cell.toList)
    (records : List (List (List UInt8))) :
    (bytes (line cells).toList).foldl step ⟨.recordStart, [], [], records⟩ =
      ⟨.recordStart, [], [], (cells.map fun cell => bytes cell.toList) :: records⟩ := by
  obtain ⟨cell, next, cells, rfl⟩ : ∃ cell next rest, cells = cell :: next :: rest := by
    match cells, htwo with
    | cell :: next :: rest, _ => exact ⟨cell, next, rest, rfl⟩
  obtain ⟨hcell, hcells⟩ := List.forall_mem_cons.mp hcells
  rw [bytes_line_cons, List.foldl_append, foldl_cell hcell Place.noConfusion,
    foldl_fields (List.cons_ne_nil _ _) hcells]
  rfl

-- =================================================================== texts

variable {header : List String} {records : List (List String)}

/-- Lines one after the other are the records, one a line. -/
theorem foldl_lines
    (hlines : ∀ cells ∈ records, 2 ≤ cells.length ∧ ∀ cell ∈ cells, Plain cell.toList)
    (before : List (List (List UInt8))) :
    (bytes (String.join (records.map line)).toList).foldl step ⟨.recordStart, [], [], before⟩ =
      ⟨.recordStart, [], [],
        (records.map fun cells => cells.map fun cell => bytes cell.toList).reverse ++ before⟩ := by
  induction records generalizing before with
  | nil =>
      rw [List.map_nil, String.join_nil]
      rfl
  | cons cells records ih =>
      obtain ⟨⟨htwo, hcells⟩, hlines⟩ := List.forall_mem_cons.mp hlines
      rw [List.map_cons, String.join_cons, String.toList_append, Text.bytes_append,
        List.foldl_append, foldl_line htwo hcells, ih hlines, List.map_cons, List.reverse_cons,
        List.append_assoc]
      rfl

/-- Text that begins with a character of its own has no byte order mark. -/
theorem dropMark_of_head? (h : bs.head? ≠ some 0xEF) : dropMark bs = bs := by
  unfold dropMark
  split
  · exact absurd rfl h
  · rfl

theorem decodeRecord?_bytes (cells : List String) :
    decodeRecord? (cells.map fun cell => bytes cell.toList) = some cells := by
  have hcell : (Storage.text? ∘ fun cell => bytes cell.toList) =
      (pure : String → Option String) := by
    funext cell
    rw [Function.comp_apply, Text.text?_bytes, String.ofList_toList]
    rfl
  rw [decodeRecord?, List.mapM_map, hcell, List.mapM_pure, List.map_id']
  rfl

theorem mapM_decodeRecord?_bytes (records : List (List String)) :
    (records.map fun cells => cells.map fun cell => bytes cell.toList).mapM decodeRecord? =
      some records := by
  have hcells : (decodeRecord? ∘ fun cells => cells.map fun cell => bytes cell.toList) =
      (pure : List String → Option (List String)) := by
    funext cells
    exact decodeRecord?_bytes cells
  rw [List.mapM_map, hcells, List.mapM_pure, List.map_id']
  rfl

/-- Lines of plain cells, the first of them the header, deliver these cells. -/
theorem delivers_lines
    (hlines : ∀ cells ∈ header :: records, 2 ≤ cells.length ∧ ∀ cell ∈ cells, Plain cell.toList)
    (hmark : (bytes (String.join ((header :: records).map line)).toList).head? ≠ some 0xEF) :
    Delivers (String.join ((header :: records).map line)).toUTF8.toList header records := by
  have hread := foldl_lines hlines []
  unfold Delivers recordsOf
  rw [Text.toUTF8_toList, dropMark_of_head? hmark]
  show ((bytes _).foldl step ⟨.recordStart, [], [], []⟩).finish.mapM decodeRecord? = _
  rw [hread, State.finish, if_pos rfl, List.append_nil, List.reverse_reverse]
  exact mapM_decodeRecord?_bytes _

end TableCalc.Csv
