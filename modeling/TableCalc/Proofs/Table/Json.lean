/-
The columns of a table that was read from JSON, by the values they were read from. A name of the
first object is a column, and a numeric one just when every object has a value under it that is a
number, `null`, or a string fit for a number column (`Table.TypedBy`). Three facts meet here: no
object that was read has a name twice (`Json.namedOnce_of_read`), so a row has the cell of the one
value under a name; a value's cell may stand in a number column just when the value is of those
kinds (`Json.isNumeric_cell`); and a column is numeric when all rows have such cells.

What there is a table of at all is said once, in `Json.table_cases`: the items of an array are looked
at from the first to the last, and the first that is no object is the error.
-/

import TableCalc.Proofs.Json.Cell
import TableCalc.Proofs.Json.Names
import TableCalc.Proofs.Table.Lookup
import TableCalc.Table.Condition
import TableCalc.Table.Load

namespace TableCalc

namespace Json

variable {items : List Json} {members : List (String × Json)} {name : String}

-- ================================================================= members

/-- The value that an object has under a name. -/
def member? : Json → String → Option Json
  | .object members, name => members.lookup name
  | _, _ => none

theorem lookup_fields (members : List (String × Json)) (name : String) :
    (fields members).lookup name = (members.lookup name).map cell := by
  induction members with
  | nil => rfl
  | cons m members ih =>
      show ((m.1, m.2.cell) :: fields members).lookup name
        = (((m.1, m.2) :: members).lookup name).map cell
      rw [List.lookup_cons, List.lookup_cons]
      by_cases hname : name = m.1
      · rw [beq_iff_eq.mpr hname]
        rfl
      · rw [beq_eq_false_iff_ne.mpr hname]
        exact ih

theorem map_fst_fields (members : List (String × Json)) :
    (fields members).map (·.1) = members.map (·.1) := by
  rw [fields, List.map_map]
  rfl

/-- The row of an object has the cells of its values. -/
theorem getElem?_row (h : (members.map (·.1)).Nodup) (name : String) :
    (Row.ofFields (fields members))[name]? = (members.lookup name).map cell := by
  rw [← map_fst_fields] at h
  rw [Row.ofFields_getElem? h, lookup_fields]

-- ================================================================= reading

/-- The least index of an item that is no object. -/
structure FirstMisfit (items : List Json) (i : Nat) : Prop where
  misfit : ∃ w, items[i]? = some w ∧ ∀ members, w ≠ .object members
  before : ∀ j < i, ∃ members, items[j]? = some (.object members)

/-- From the item at `index` on, either all items are objects, which give the records, or the first
that is none is the error. -/
theorem recordsFrom_cases (index : Nat) (items : List Json) :
    (∃ k, FirstMisfit items k ∧ recordsFrom index items = .error (.notAnObject (index + k)))
    ∨ ∃ objects : List (List (String × Json)), items = objects.map .object
      ∧ recordsFrom index items = .ok (objects.map fields) := by
  induction items generalizing index with
  | nil => exact .inr ⟨[], rfl, rfl⟩
  | cons v items ih =>
      by_cases hv : ∃ members, v = .object members
      · obtain ⟨members, rfl⟩ := hv
        rw [recordsFrom]
        rcases ih (index + 1) with ⟨k, hfirst, herror⟩ | ⟨objects, hitems, hrecords⟩
        · refine .inl ⟨k + 1, ⟨hfirst.misfit, ?_⟩, ?_⟩
          · intro j hj
            cases j with
            | zero => exact ⟨members, rfl⟩
            | succ j => exact hfirst.before j (Nat.lt_of_succ_lt_succ hj)
          · rw [herror, Nat.add_right_comm, Nat.add_assoc]
            rfl
        · refine .inr ⟨members :: objects, congrArg _ hitems, ?_⟩
          rw [hrecords]
          rfl
      · refine .inl ⟨0, ⟨⟨v, rfl, not_exists.mp hv⟩, nofun⟩, ?_⟩
        cases v with
        | object members => exact absurd ⟨members, rfl⟩ hv
        | _ => rfl

/-- The three ways it can go with a JSON value: it is no array, it is one with an item that is no
object, or all its items are objects, and their fields are the records. -/
theorem table_cases (v : Json) :
    ((∀ items, v ≠ .array items) ∧ v.table = .error .notAnArray)
    ∨ (∃ items k, v = .array items ∧ FirstMisfit items k ∧ v.table = .error (.notAnObject k))
    ∨ ∃ objects : List (List (String × Json)), v = .array (objects.map .object)
      ∧ v.table = .ok (Table.ofRecords (objects.map fields)) := by
  cases v with
  | array items =>
      rcases recordsFrom_cases 0 items with ⟨k, hfirst, herror⟩ | ⟨objects, rfl, hrecords⟩
      · refine .inr (.inl ⟨items, k, rfl, hfirst, ?_⟩)
        rw [table, herror, Nat.zero_add]
        rfl
      · refine .inr (.inr ⟨objects, rfl, ?_⟩)
        rw [table, hrecords]
        rfl
  | _ => exact .inl ⟨nofun, rfl⟩

end Json

/-- A text that makes a table is an array of objects, named once each. -/
theorem Table.ofJsonText_eq_ok {text : List Char} {t : Table} (h : Table.ofJsonText text = .ok t) :
    ∃ objects : List (List (String × Json)),
      Json.read text = .ok (.array (objects.map .object))
        ∧ t = Table.ofRecords (objects.map Json.fields)
        ∧ ∀ members ∈ objects, (Json.object members).NamedOnce := by
  obtain ⟨v, hread, htable⟩ := bind_eq_ok.mp h
  rw [mapError_eq_ok] at hread htable
  rcases v.table_cases with ⟨-, herror⟩ | ⟨_, _, -, -, herror⟩ | ⟨objects, rfl, hrecords⟩
  · rw [herror] at htable
    cases htable
  · rw [herror] at htable
    cases htable
  · rw [hrecords] at htable
    cases htable
    refine ⟨objects, hread, rfl, ?_⟩
    intro members hmembers
    cases Json.namedOnce_of_read hread with
    | array values => exact values _ (List.mem_map_of_mem hmembers)

-- =================================================================== kinds

/-- A name is a column that is typed by the values under it. It is numeric just when all items have
a value that fits, and text otherwise, as it always is with a truth value, an array or an object. A
number's cell is compared for equality as a finite number. -/
structure Table.TypedBy (t : Table) (items : List Json) (name : String) : Prop where
  number : (Profile.ofTable t).kind? name = some .number ↔
    ∀ v ∈ items, ∃ w, v.member? name = some w ∧ w.FitsNumbers
  text : (Profile.ofTable t).kind? name = some .text ↔
    ∃ v ∈ items, ∀ w, v.member? name = some w → ¬ w.FitsNumbers
  structured : ∀ v ∈ items, ∀ w, v.member? name = some w →
    ((∃ b, w = .bool b) ∨ (∃ vs, w = .array vs) ∨ ∃ ms, w = .object ms) →
      (Profile.ofTable t).kind? name = some .text
  equality : ∀ (i : Nat) (v : Json) (n : Json.Number), items[i]? = some v →
    v.member? name = some (.number n) →
      ∃ row raw x, t.rows[i]? = some row ∧ row[name]? = some raw
        ∧ Cell.wholeNumber? raw = some x ∧ x.isFinite = true
        ∧ ∀ value y, Cell.wholeNumber? value = some y →
          Condition.holds ⟨name, .equal, value⟩ row = (x == y)

variable {objects : List (List (String × Json))} {members : List (String × Json)} {name : String}

theorem Table.kindOf_ofObjects (hnames : ∀ members ∈ objects, (members.map (·.1)).Nodup) :
    (Table.ofRecords (objects.map Json.fields)).kindOf name = .number ↔
      ∀ v ∈ objects.map Json.object, ∃ w, v.member? name = some w ∧ w.FitsNumbers := by
  rw [kindOf_eq_number]
  constructor
  · intro h v hv
    obtain ⟨members, hmembers, rfl⟩ := List.mem_map.mp hv
    obtain ⟨raw, hraw, hnumeric⟩ := h (Row.ofFields (Json.fields members))
      (List.mem_map_of_mem (List.mem_map_of_mem hmembers))
    rw [Json.getElem?_row (hnames members hmembers)] at hraw
    obtain ⟨w, hw, rfl⟩ := Option.map_eq_some_iff.mp hraw
    exact ⟨w, hw, Json.isNumeric_cell.mp hnumeric⟩
  · intro h row hrow
    obtain ⟨record, hrecord, rfl⟩ := List.mem_map.mp hrow
    obtain ⟨members, hmembers, rfl⟩ := List.mem_map.mp hrecord
    obtain ⟨w, hw, hfits⟩ := h _ (List.mem_map_of_mem hmembers)
    have hlookup : members.lookup name = some w := hw
    rw [Json.getElem?_row (hnames members hmembers), hlookup]
    exact ⟨w.cell, rfl, Json.isNumeric_cell.mpr hfits⟩

/-- The names of the first object are the columns. -/
theorem Table.mem_columns_ofObjects (hname : (members.lookup name).isSome = true) :
    name ∈ (Table.ofRecords ((members :: objects).map Json.fields)).columns := by
  show name ∈ ((Json.fields members).map (·.1)).eraseDups
  obtain ⟨m, hm, hkey⟩ := List.lookup_isSome_iff.mp hname
  have hmem : (m.1, m.2.cell) ∈ Json.fields members := List.mem_map_of_mem hm
  rw [List.mem_eraseDups, beq_iff_eq.mp hkey]
  exact List.mem_map_of_mem hmem

/-- A cell that is strictly a number equals what is strictly the same number. -/
theorem Condition.holds_equal {row : Row} {raw value : String} {x y : Float}
    (hraw : row[name]? = some raw) (hx : Cell.wholeNumber? raw = some x)
    (hy : Cell.wholeNumber? value = some y) :
    Condition.holds ⟨name, .equal, value⟩ row = (x == y) := by
  show row[name]?.any (looselyEqual · value) = (x == y)
  rw [hraw, Option.any_some, looselyEqual, hx, hy]

/-- The cell of a number is strictly a finite number. -/
theorem Table.exists_number_cell (hnames : ∀ members ∈ objects, (members.map (·.1)).Nodup) {i : Nat}
    {v : Json} {n : Json.Number} (hv : (objects.map Json.object)[i]? = some v)
    (hn : v.member? name = some (.number n)) :
    ∃ row raw x, (Table.ofRecords (objects.map Json.fields)).rows[i]? = some row
      ∧ row[name]? = some raw ∧ Cell.wholeNumber? raw = some x ∧ x.isFinite = true := by
  rw [List.getElem?_map] at hv
  obtain ⟨members, hmembers, rfl⟩ := Option.map_eq_some_iff.mp hv
  obtain ⟨x, hx, hfinite⟩ := Json.wholeNumber?_cell n
  refine ⟨Row.ofFields (Json.fields members), Json.cell (.number n), x, ?_, ?_, hx, hfinite⟩
  · show ((objects.map Json.fields).map Row.ofFields)[i]? = _
    rw [List.getElem?_map, List.getElem?_map, hmembers]
    rfl
  · have hlookup : members.lookup name = some (.number n) := hn
    rw [Json.getElem?_row (hnames members (List.mem_of_getElem? hmembers)), hlookup]
    rfl

theorem Table.typedBy_ofObjects (hname : (members.lookup name).isSome = true)
    (hnames : ∀ ms ∈ members :: objects, (ms.map (·.1)).Nodup) :
    (Table.ofRecords ((members :: objects).map Json.fields)).TypedBy
      ((members :: objects).map .object) name := by
  have hcolumn : name ∈ (Table.ofRecords ((members :: objects).map Json.fields)).columns :=
    mem_columns_ofObjects hname
  generalize members :: objects = objects at *
  have hfits : (Table.ofRecords (objects.map Json.fields)).kindOf name = .number ↔ _ :=
    kindOf_ofObjects hnames
  have htext : (Profile.ofTable (Table.ofRecords (objects.map Json.fields))).kind? name
      = some .text ↔ ∃ v ∈ objects.map Json.object,
        ∀ w, v.member? name = some w → ¬ w.FitsNumbers := by
    rw [Profile.kind?_ofTable_eq_some, and_iff_right hcolumn, ColumnKind.eq_text_iff, hfits]
    push Not
    rfl
  refine ⟨?_, htext, ?_, ?_⟩
  · rw [Profile.kind?_ofTable_eq_some, and_iff_right hcolumn, hfits]
  · intro v hv w hw hstructured
    refine htext.mpr ⟨v, hv, fun w' hw' => ?_⟩
    obtain rfl : w = w' := Option.some.inj (hw.symm.trans hw')
    rcases hstructured with ⟨b, rfl⟩ | ⟨vs, rfl⟩ | ⟨ms, rfl⟩ <;> exact not_false
  · intro i v n hv hn
    obtain ⟨row, raw, x, hrow, hraw, hx, hfinite⟩ := exists_number_cell hnames hv hn
    refine ⟨row, raw, x, hrow, hraw, hx, hfinite, ?_⟩
    intro value y hy
    exact Condition.holds_equal hraw hx hy

/-- Whatever JSON makes a table, each name of the first object is a column typed by the values under
it; and the objects name each of their values once, so that there is one value under a name. -/
theorem Table.typedBy_ofJsonText {text : List Char} {t : Table}
    (h : Table.ofJsonText text = .ok t) :
    ∃ items, Json.read text = .ok (.array items) ∧ (∀ v ∈ items, v.NamedOnce)
      ∧ ∀ first ∈ items.head?, ∀ name, (first.member? name).isSome = true →
        t.TypedBy items name := by
  obtain ⟨objects, hread, rfl, hnamed⟩ := Table.ofJsonText_eq_ok h
  refine ⟨_, hread, List.forall_mem_map.mpr hnamed, ?_⟩
  intro first hfirst name hname
  cases objects with
  | nil => cases hfirst
  | cons members objects =>
      cases hfirst
      exact typedBy_ofObjects hname fun ms hms => (hnamed ms hms).nodup

/-- A number column with a `null` in it, and a column that a truth value makes text. -/
theorem Table.typedBy_ofJsonText_mixed :
    ∃ t, Table.ofJsonText
        "[\x7b\"a\": 12, \"b\": true\x7d, \x7b\"a\": null, \"b\": 2\x7d]".toList = .ok t
      ∧ (Profile.ofTable t).kind? "a" = some .number
      ∧ (Profile.ofTable t).kind? "b" = some .text := by
  have hread : Json.read
      "[\x7b\"a\": 12, \"b\": true\x7d, \x7b\"a\": null, \"b\": 2\x7d]".toList = .ok (.array
        [.object [("a", .number (.whole 12 (by decide))), ("b", .bool true)],
          .object [("a", .null), ("b", .number (.whole 2 (by decide)))]]) := by
    cbv
  obtain ⟨t, htable⟩ : ∃ t, Table.ofJsonText
      "[\x7b\"a\": 12, \"b\": true\x7d, \x7b\"a\": null, \"b\": 2\x7d]".toList = .ok t := by
    rw [Table.ofJsonText, hread]
    exact ⟨_, rfl⟩
  obtain ⟨items, hitems, -, htyped⟩ := Table.typedBy_ofJsonText htable
  rw [hread] at hitems
  cases hitems
  refine ⟨t, htable, ?_, ?_⟩
  · refine (htyped _ rfl "a" rfl).number.mpr ?_
    simp [Json.member?, Json.FitsNumbers]
  · exact (htyped _ rfl "b" rfl).structured _ List.mem_cons_self _ rfl (.inl ⟨true, rfl⟩)

end TableCalc
