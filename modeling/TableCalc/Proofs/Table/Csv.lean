/-
Which cells of comma-separated text a table keeps. Every record becomes a row, whatever its length,
and the columns are the header as it stands; but a row is a map by name, so of the fields under a
repeated name only the last one is there to be read. The exact rule is `rowOf_getElem?`: under a
name stands the field at the name's last position in the header, or empty text where the record is
too short to have one.

A table therefore keeps every cell exactly when no record holds different fields under one name
(`Unambiguous`), which a header without repetitions cannot have (`Unambiguous.of_nodup`).
-/

import Mathlib.Data.List.Nodup
import TableCalc.Proofs.Table.Lookup
import TableCalc.Table.Load

namespace TableCalc.Csv

variable {bytes : List UInt8} {header record : List String} {records : List (List String)}

-- =============================================================== the text

/-- The records of a text as text: the header's fields, and then the data records'. -/
def Delivers (bytes : List UInt8) (header : List String) (records : List (List String)) : Prop :=
  (recordsOf bytes).mapM decodeRecord? = some (header :: records)

/-- Records that decode one by one decode in a row, wherever the count starts. -/
theorem decodeAll_ok {raw : List (List (List UInt8))} (h : raw.mapM decodeRecord? = some records)
    (index : Nat) : decodeAll index raw = .ok records := by
  induction raw generalizing records index with
  | nil =>
      rw [List.mapM_nil] at h
      injection h with h
      rw [← h]
      rfl
  | cons line raw ih =>
      rw [List.mapM_cons] at h
      obtain ⟨fields, hfields, h⟩ := Option.bind_eq_some_iff.mp h
      obtain ⟨rest, hrest, h⟩ := Option.bind_eq_some_iff.mp h
      injection h with h
      rw [decodeAll, hfields, ← h]
      simp only [ih hrest (index + 1)]
      rfl

/-- Text whose records all decode is read, as the table of its header and its records. -/
theorem ofCsv_ok (h : Delivers bytes header records) :
    Table.ofCsv bytes = .ok (tableOf header records) := by
  unfold Delivers at h
  cases hraw : recordsOf bytes with
  | nil =>
      rw [hraw, List.mapM_nil] at h
      cases h
  | cons first raw =>
      rw [hraw, List.mapM_cons] at h
      obtain ⟨fields, hfields, h⟩ := Option.bind_eq_some_iff.mp h
      obtain ⟨rest, hrest, h⟩ := Option.bind_eq_some_iff.mp h
      injection h with h
      injection h with hheader hrecords
      rw [Table.ofCsv, read, hraw]
      simp only [hfields, decodeAll_ok hrest, hheader, hrecords]
      rfl

-- =============================================================== one row

/-- The last position of a name in a header. -/
def LastPosition (header : List String) (name : String) (k : Nat) : Prop :=
  header[k]? = some name ∧ ∀ m, k < m → header[m]? ≠ some name

/-- A header grows by one position: a name stands where it stood, or at the end. -/
theorem getElem?_concat_eq_some {last name : String} {k : Nat} :
    (header ++ [last])[k]? = some name ↔
      header[k]? = some name ∨ k = header.length ∧ last = name := by
  rcases Nat.lt_or_ge k header.length with hk | hk
  · rw [List.getElem?_append_left hk]
    constructor
    · exact Or.inl
    · rintro (h | ⟨h, -⟩)
      · exact h
      · omega
  · rw [List.getElem?_append_right hk, List.getElem?_singleton, List.getElem?_eq_none hk]
    by_cases hend : k = header.length
    · simp [hend]
    · rw [if_neg (by omega)]
      simp [hend]

theorem lastPosition_concat_self {name : String} {k : Nat} :
    LastPosition (header ++ [name]) name k ↔ k = header.length := by
  constructor
  · rintro ⟨hk, hafter⟩
    rcases getElem?_concat_eq_some.mp hk with hk | ⟨hk, -⟩
    · -- an earlier position is not the last one, with the name standing at the end
      have hlt := (List.getElem?_eq_some_iff.mp hk).1
      exact absurd (getElem?_concat_eq_some.mpr (Or.inr ⟨rfl, rfl⟩)) (hafter _ hlt)
    · exact hk
  · rintro rfl
    refine ⟨getElem?_concat_eq_some.mpr (Or.inr ⟨rfl, rfl⟩), ?_⟩
    intro m hm hget
    rcases getElem?_concat_eq_some.mp hget with hget | ⟨hget, -⟩
    · have hlt := (List.getElem?_eq_some_iff.mp hget).1
      omega
    · omega

theorem lastPosition_concat_of_ne {last name : String} {k : Nat} (h : last ≠ name) :
    LastPosition (header ++ [last]) name k ↔ LastPosition header name k := by
  have hget (m : Nat) : (header ++ [last])[m]? = some name ↔ header[m]? = some name := by
    rw [getElem?_concat_eq_some]
    exact or_iff_left fun hm => h hm.2
  simp only [LastPosition, ne_eq, hget]

/-- A name's positions run up to a last one. -/
theorem exists_lastPosition {name : String} {j : Nat} (hj : header[j]? = some name) :
    ∃ k, j ≤ k ∧ LastPosition header name k := by
  induction header using List.reverseRecOn with
  | nil => cases hj
  | append_singleton header last ih =>
      by_cases hlast : last = name
      · subst hlast
        refine ⟨header.length, ?_, lastPosition_concat_self.mpr rfl⟩
        have hlt := (List.getElem?_eq_some_iff.mp hj).1
        rw [List.length_append, List.length_singleton] at hlt
        omega
      · have hj : header[j]? = some name := by
          rcases getElem?_concat_eq_some.mp hj with hj | ⟨-, hj⟩
          · exact hj
          · exact absurd hj hlast
        obtain ⟨k, hjk, hk⟩ := ih hj
        exact ⟨k, hjk, (lastPosition_concat_of_ne hlast).mpr hk⟩

/-- Without repetitions a header has each name just once, and that is its last position. -/
theorem lastPosition_of_nodup {name : String} {k : Nat} (h : header.Nodup)
    (hk : header[k]? = some name) : LastPosition header name k := by
  refine ⟨hk, ?_⟩
  intro m hkm hm
  have hlt := (List.getElem?_eq_some_iff.mp hk).1
  have heq : k = m := (List.getElem?_inj hlt h).mp (hk.trans hm.symm)
  omega

/-- A record read under a longer header is read under the shorter one, plus one field. -/
theorem rowOf_concat (header record : List String) (last name : String) :
    (rowOf (header ++ [last]) record)[name]? =
      if last = name then some (record.getD header.length "") else (rowOf header record)[name]? := by
  rw [rowOf, List.zipIdx_append, List.map_append]
  simp only [List.zipIdx_singleton, List.map_singleton, Row.ofFields_concat, Nat.zero_add]
  rfl

/-- Under a name a row has the field at the name's last position, or empty text if the record does
not reach that far. -/
theorem rowOf_getElem? {name : String} {k : Nat} (hk : LastPosition header name k) :
    (rowOf header record)[name]? = some (record.getD k "") := by
  induction header using List.reverseRecOn with
  | nil => cases hk.1
  | append_singleton header last ih =>
      rw [rowOf_concat]
      by_cases hlast : last = name
      · subst hlast
        rw [if_pos rfl, lastPosition_concat_self.mp hk]
      · rw [if_neg hlast]
        exact ih ((lastPosition_concat_of_ne hlast).mp hk)

-- ============================================================= the table

/-- The table gives back every field under a header: at each position the record's own field, and
empty text where the record is shorter. -/
def KeepsCells (header : List String) (records : List (List String)) (t : Table) : Prop :=
  ∀ i j record name, records[i]? = some record → header[j]? = some name →
    t.cell? i name = some (record.getD j "")

/-- No record holds different fields under one name. -/
def Unambiguous (header : List String) (records : List (List String)) : Prop :=
  ∀ record ∈ records, ∀ j k name, header[j]? = some name → header[k]? = some name →
    record.getD j "" = record.getD k ""

/-- Without repetitions a header leaves no room for ambiguity. -/
theorem Unambiguous.of_nodup (h : header.Nodup) : Unambiguous header records := by
  intro record _ j k name hj hk
  obtain ⟨hjl, hj⟩ := List.getElem?_eq_some_iff.mp hj
  obtain ⟨hkl, hk⟩ := List.getElem?_eq_some_iff.mp hk
  have hjk : j = k := (List.Nodup.getElem_inj_iff h).mp (hj.trans hk.symm)
  rw [hjk]

/-- A cell of a table is the cell of a record's row. -/
theorem cell?_tableOf {i : Nat} (hi : records[i]? = some record) (name : String) :
    (tableOf header records).cell? i name = (rowOf header record)[name]? := by
  rw [Table.cell?, tableOf, List.getElem?_map, hi]
  rfl

theorem keepsCells_iff : KeepsCells header records (tableOf header records) ↔
    Unambiguous header records := by
  constructor
  · intro hkeeps record hrecord j k name hj hk
    obtain ⟨i, hi⟩ := List.getElem?_of_mem hrecord
    have hj := hkeeps i j record name hi hj
    have hk := hkeeps i k record name hi hk
    rw [hj] at hk
    exact Option.some.inj hk
  · intro hsame i j record name hi hj
    obtain ⟨k, -, hk⟩ := exists_lastPosition hj
    rw [cell?_tableOf hi, rowOf_getElem? hk]
    rw [hsame record (List.mem_of_getElem? hi) k j name hk.1 hj]

/-- Text with data records is read as a table of all its records under its whole header. The cell
under a header is the field at the last position with the same name, so the table keeps every cell
just when no record holds different fields under one name, as with any header free of
repetitions. -/
theorem csv_keeps_unambiguous_cells (h : Delivers bytes header records) (hne : records ≠ []) :
    ∃ t, Table.ofCsv bytes = .ok t ∧ t.size = records.length ∧ t.columns = header
      ∧ (∀ i j record name, records[i]? = some record → header[j]? = some name →
          ∃ k, j ≤ k ∧ LastPosition header name k ∧ t.cell? i name = some (record.getD k ""))
      ∧ (KeepsCells header records t ↔ Unambiguous header records)
      ∧ (header.Nodup → KeepsCells header records t) := by
  refine ⟨tableOf header records, ofCsv_ok h, ?_, ?_, ?_, keepsCells_iff, ?_⟩
  · rw [Table.size, tableOf, List.length_map]
  · have hsome : records.isEmpty = false := by
      rw [List.isEmpty_eq_false_iff]
      exact hne
    rw [tableOf, hsome]
    rfl
  · intro i j record name hi hj
    obtain ⟨k, hjk, hk⟩ := exists_lastPosition hj
    refine ⟨k, hjk, hk, ?_⟩
    rw [cell?_tableOf hi]
    exact rowOf_getElem? hk
  · intro hnodup
    exact keepsCells_iff.mpr (Unambiguous.of_nodup hnodup)

/-- A record that ends early, under a header with a repeated name: the repetition leaves the second
record unread, and the first one read at its end. -/
theorem csv_keeps_unambiguous_cells_ragged :
    Delivers "a,b,a\n1,2,3\n4\n".toUTF8.toList ["a", "b", "a"] [["1", "2", "3"], ["4"]]
      ∧ [["1", "2", "3"], ["4"]] ≠ []
      ∧ ∃ t, Table.ofCsv "a,b,a\n1,2,3\n4\n".toUTF8.toList = .ok t ∧ t.size = 2
          ∧ t.columns = ["a", "b", "a"]
          ∧ ¬ KeepsCells ["a", "b", "a"] [["1", "2", "3"], ["4"]] t := by
  have hread : Delivers "a,b,a\n1,2,3\n4\n".toUTF8.toList ["a", "b", "a"]
      [["1", "2", "3"], ["4"]] := by
    unfold Delivers
    decide +kernel
  obtain ⟨t, ht, hsize, hcolumns, -, hiff, -⟩ := csv_keeps_unambiguous_cells hread nofun
  refine ⟨hread, nofun, t, ht, hsize, hcolumns, ?_⟩
  intro hkeeps
  have hsame := hiff.mp hkeeps ["4"] (List.mem_of_mem_tail (List.mem_singleton_self _)) 0 2 "a"
    rfl rfl
  exact absurd hsame (by decide)

/-- Two columns of one name: the cell under the first is the field of the second. -/
theorem csv_repeated_name_loses_cell :
    Delivers "a,a\n1,2\n".toUTF8.toList ["a", "a"] [["1", "2"]]
      ∧ ∃ t, Table.ofCsv "a,a\n1,2\n".toUTF8.toList = .ok t
          ∧ t.cell? 0 "a" = some "2"
          ∧ ¬ KeepsCells ["a", "a"] [["1", "2"]] t := by
  have hread : Delivers "a,a\n1,2\n".toUTF8.toList ["a", "a"] [["1", "2"]] := by
    unfold Delivers
    decide +kernel
  refine ⟨hread, _, ofCsv_ok hread, ?_, ?_⟩
  · rw [cell?_tableOf rfl]
    exact rowOf_getElem? (lastPosition_concat_self.mpr rfl : LastPosition (["a"] ++ ["a"]) "a" 1)
  · intro hkeeps
    have hsame := keepsCells_iff.mp hkeeps ["1", "2"] (List.mem_singleton_self _) 0 1 "a" rfl rfl
    exact absurd hsame (by decide)

end TableCalc.Csv
