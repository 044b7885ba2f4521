/-
Tables made of records, and what JSON makes a table. The records of a table may repeat names, and
may have names of their own. The columns are the names of the first record, each once, where it
first occurs; a row maps each name of its record to the last value under it (`HoldsRecords`).

A JSON value has such records if it is an array of objects and nothing else; all that can come of one
is in `Json.Tabulates`. What was read names the members of an object once each
(`Json.namedOnce_of_read`), so that the last value under a name is the only one, and the columns are
the names of the first object as they come.
-/

import TableCalc.Proofs.Table.Json

namespace TableCalc

-- ========================================================== the statements

/-- A table holds records: a row for each, in their order, that maps the names of its record to the
last values under them; and as columns the names of the first record, each once, in the order in
which they first occur. -/
structure Table.HoldsRecords (t : Table) (records : List (List (String × String))) : Prop where
  size : t.rows.length = records.length
  listed : ∀ name, name ∈ t.columns ↔ ∃ first ∈ records.head?, name ∈ first.map (·.1)
  once : t.columns.Nodup
  ordered : ∀ first ∈ records.head?, t.columns.Pairwise fun a b =>
    (first.map (·.1)).idxOf a < (first.map (·.1)).idxOf b
  last : ∀ (i : Nat) (record : List (String × String)), records[i]? = some record →
    ∀ name value, t.cell? i name = some value ↔
      ∃ before after, record = before ++ (name, value) :: after ∧ name ∉ after.map (·.1)

namespace Json

/-- The text that stands for a value in a cell: a string itself, no text for `null`, and the compact
text of any other value. -/
inductive StandsFor : String → Json → Prop where
  | string (s : String) : StandsFor s (.string s)
  | null : StandsFor "" .null
  | text {v : Json} (notString : ∀ s, v ≠ .string s) (notNull : v ≠ .null) :
      StandsFor (String.ofList v.text) v

/-- A table shows objects: a row for each, in their order, with a cell for each member under its
name and no others; and as columns the names of the first object, as they come. -/
structure ShownBy (objects : List (List (String × Json))) (t : Table) : Prop where
  size : t.rows.length = objects.length
  columns : t.columns = (objects.head?.getD []).map (·.1)
  once : t.columns.Nodup
  present : ∀ (i : Nat) (members : List (String × Json)), objects[i]? = some members →
    ∀ name, (t.cell? i name).isSome ↔ name ∈ members.map (·.1)
  cells : ∀ (i : Nat) (members : List (String × Json)), objects[i]? = some members →
    ∀ name raw, t.cell? i name = some raw ↔ ∃ w, (name, w) ∈ members ∧ StandsFor raw w

/-- What comes of a JSON value. There is no table just where the value is no array or one of its
items is no object, and then the error says so and names the first such item. Else there is a table
that shows the items. -/
structure Tabulates (v : Json) (made : Except LoadError Table) : Prop where
  fails : (∃ e, made = .error e) ↔ (∀ items, v ≠ .array items)
    ∨ ∃ items, v = .array items ∧ ∃ w ∈ items, ∀ members, w ≠ .object members
  notAnArray : (∀ items, v ≠ .array items) → made = .error (.jsonShape .notAnArray)
  named : ∀ items, v = .array items → ∀ e, made = .error e → ∃ i, FirstMisfit items i
    ∧ e = .jsonShape (.notAnObject i) ∧ e.message = s!"Row {i} is not a JSON object"
  shown : ∀ t, made = .ok t → ∃ objects : List (List (String × Json)),
    v = .array (objects.map .object) ∧ ShownBy objects t

end Json

-- ================================================================= records

/-- The distinct names of a list come in the order in which they first occur. -/
theorem pairwise_idxOf_eraseDups (names : List String) :
    names.eraseDups.Pairwise fun a b => names.idxOf a < names.idxOf b := by
  induction names using List.reverseRecOn with
  | nil => exact .nil
  | append_singleton names last ih =>
      rw [List.eraseDups_append, List.pairwise_append]
      have hbefore : ∀ a ∈ names.eraseDups, (names ++ [last]).idxOf a = names.idxOf a :=
        fun a ha => by rw [List.idxOf_append, if_pos (List.mem_eraseDups.mp ha)]
      refine ⟨?_, ?_, ?_⟩
      · refine ih.imp_of_mem fun ha hb hlt => ?_
        rwa [hbefore _ ha, hbefore _ hb]
      · by_cases hlast : last ∈ names
        · simp [List.removeAll, hlast]
        · simp [List.removeAll, hlast, List.eraseDups_cons]
      · intro a ha b hb
        -- a name that is new stands behind all the others
        obtain ⟨hlast, hnew⟩ : b = last ∧ b ∉ names := by
          rw [List.mem_eraseDups] at hb
          simpa [List.removeAll] using hb
        subst hlast
        rw [hbefore a ha, List.idxOf_append, if_neg hnew]
        have hlt := List.idxOf_lt_length_of_mem (List.mem_eraseDups.mp ha)
        omega

theorem nodup_eraseDups (names : List String) : names.eraseDups.Nodup :=
  (pairwise_idxOf_eraseDups names).imp fun hlt =>
    ne_of_apply_ne (names.idxOf ·) (Nat.ne_of_lt hlt)

/-- Names that are distinct already stay as they are. -/
theorem eraseDups_eq_self {names : List String} (h : names.Nodup) : names.eraseDups = names := by
  induction names with
  | nil => rfl
  | cons name names ih =>
      obtain ⟨hnew, hnames⟩ := List.nodup_cons.mp h
      have hfilter : names.filter (fun other => !other == name) = names := by
        rw [List.filter_eq_self]
        intro other hother
        have hne : other ≠ name := fun heq => hnew (heq ▸ hother)
        simp [hne]
      rw [List.eraseDups_cons, hfilter, ih hnames]

variable {records : List (List (String × String))} {i : Nat}

theorem Table.cell?_ofRecords {record : List (String × String)} (h : records[i]? = some record)
    (name : String) : (Table.ofRecords records).cell? i name = (Row.ofFields record)[name]? := by
  show ((records.map Row.ofFields)[i]?.bind fun row => row[name]?) = _
  rw [List.getElem?_map, h]
  rfl

theorem Table.holdsRecords_ofRecords (records : List (List (String × String))) :
    (Table.ofRecords records).HoldsRecords records where
  size := List.length_map ..
  listed name := by
    cases records with
    | nil => simp [ofRecords]
    | cons first rest => simp [ofRecords]
  once := by
    cases records with
    | nil => exact List.nodup_nil
    | cons first rest => exact nodup_eraseDups _
  ordered first hfirst := by
    cases records with
    | nil => cases hfirst
    | cons _ rest =>
        cases hfirst
        exact pairwise_idxOf_eraseDups _
  last i record hrecord name value := by
    rw [cell?_ofRecords hrecord, Row.ofFields_getElem?_eq_some]

-- ==================================================================== JSON

namespace Json

variable {v w : Json} {items : List Json} {members : List (String × Json)} {name : String}

theorem standsFor_iff {raw : String} : StandsFor raw v ↔ v.cell = raw := by
  constructor
  · intro h
    cases h with
    | string s => rfl
    | null => rfl
    | text notString notNull =>
        cases v with
        | string s => exact absurd rfl (notString s)
        | null => exact absurd rfl notNull
        | _ => rfl
  · intro h
    rw [← h]
    cases v with
    | string s => exact .string s
    | null => exact .null
    | _ => exact .text nofun nofun

/-- In the row of an object that names its members once, a cell has the text that stands for the
member under its name. -/
theorem getElem?_row_eq_some {raw : String} (h : (members.map (·.1)).Nodup) :
    (Row.ofFields (fields members))[name]? = some raw ↔
      ∃ w, (name, w) ∈ members ∧ StandsFor raw w := by
  rw [getElem?_row h, Option.map_eq_some_iff]
  simp only [lookup_eq_some_iff_mem h, standsFor_iff]

theorem isSome_getElem?_row (h : (members.map (·.1)).Nodup) :
    (Row.ofFields (fields members))[name]?.isSome ↔ name ∈ members.map (·.1) := by
  rw [Option.isSome_iff_exists, List.mem_map]
  simp only [getElem?_row_eq_some h]
  constructor
  · intro hcell
    obtain ⟨raw, w, hmem, -⟩ := hcell
    exact ⟨(name, w), hmem, rfl⟩
  · intro hmember
    obtain ⟨⟨_, w⟩, hmem, hname⟩ := hmember
    subst hname
    exact ⟨w.cell, w, hmem, standsFor_iff.mpr rfl⟩

/-- The table of objects that name their members once shows them. -/
theorem shownBy_ofRecords {objects : List (List (String × Json))}
    (h : ∀ members ∈ objects, (members.map (·.1)).Nodup) :
    ShownBy objects (Table.ofRecords (objects.map fields)) := by
  have hcell : ∀ {i members}, objects[i]? = some members → ∀ name,
      (Table.ofRecords (objects.map fields)).cell? i name
        = (Row.ofFields (fields members))[name]? := by
    intro i members hi name
    apply Table.cell?_ofRecords
    rw [List.getElem?_map, hi]
    rfl
  have hholds := Table.holdsRecords_ofRecords (objects.map fields)
  refine ⟨hholds.size.trans (List.length_map _), ?_, hholds.once, ?_, ?_⟩
  · cases objects with
    | nil => rfl
    | cons first rest =>
        show ((fields first).map (·.1)).eraseDups = first.map (·.1)
        rw [map_fst_fields]
        exact eraseDups_eq_self (h first List.mem_cons_self)
  · intro i members hi name
    rw [hcell hi, isSome_getElem?_row (h members (List.mem_of_getElem? hi))]
  · intro i members hi name raw
    rw [hcell hi, getElem?_row_eq_some (h members (List.mem_of_getElem? hi))]

-- ============================================================ the outcomes

theorem tabulates_of_notAnArray (hother : ∀ items, v ≠ .array items) :
    Tabulates v (.error (.jsonShape .notAnArray)) where
  fails := iff_of_true ⟨_, rfl⟩ (.inl hother)
  notAnArray _ := rfl
  named items harray := absurd harray (hother items)
  shown := nofun

theorem tabulates_of_firstMisfit {k : Nat} (hfirst : FirstMisfit items k) :
    Tabulates (.array items) (.error (.jsonShape (.notAnObject k))) where
  fails := by
    obtain ⟨w, hw, hmisfit⟩ := hfirst.misfit
    exact iff_of_true ⟨_, rfl⟩ (.inr ⟨items, rfl, w, List.mem_of_getElem? hw, hmisfit⟩)
  notAnArray hother := absurd rfl (hother items)
  named items' harray e he := by
    cases harray
    cases he
    exact ⟨k, hfirst, rfl, rfl⟩
  shown := nofun

theorem tabulates_of_objects {objects : List (List (String × Json))}
    (h : ∀ members ∈ objects, (members.map (·.1)).Nodup) :
    Tabulates (.array (objects.map .object)) (.ok (Table.ofRecords (objects.map fields))) where
  fails := by
    refine iff_of_false nofun ?_
    intro hmisfit
    rcases hmisfit with hother | ⟨items, harray, w, hw, hmisfit⟩
    · exact hother _ rfl
    · cases harray
      obtain ⟨members, -, hobject⟩ := List.mem_map.mp hw
      exact hmisfit members hobject.symm
  notAnArray hother := absurd rfl (hother _)
  named := nofun
  shown t ht := by
    cases ht
    exact ⟨objects, rfl, shownBy_ofRecords h⟩

theorem tabulates_table (hnamed : v.NamedOnce) : Tabulates v (v.table.mapError .jsonShape) := by
  rcases table_cases v with ⟨hother, htable⟩ | ⟨items, k, rfl, hfirst, htable⟩
    | ⟨objects, rfl, htable⟩
  · rw [htable]
    exact tabulates_of_notAnArray hother
  · rw [htable]
    exact tabulates_of_firstMisfit hfirst
  · rw [htable]
    apply tabulates_of_objects
    intro members hmembers
    cases hnamed with
    | array values => exact (values _ (List.mem_map_of_mem hmembers)).nodup

end Json

-- ========================================================= the conclusion

theorem Table.ofJsonText_of_read {text : List Char} {v : Json} (h : Json.read text = .ok v) :
    Table.ofJsonText text = v.table.mapError .jsonShape := by
  rw [ofJsonText, h]
  rfl

/-- Whatever JSON is read, there is a table of it just where it is an array of objects, and the
table shows them; and whatever records a table is made of, with names repeated or not, it holds
them. -/
theorem Table.shows_what_it_is_made_of :
    (∀ text v, Json.read text = .ok v → Json.Tabulates v (Table.ofJsonText text))
    ∧ ∀ records, (Table.ofRecords records).HoldsRecords records := by
  refine ⟨?_, holdsRecords_ofRecords⟩
  intro text v hread
  rw [ofJsonText_of_read hread]
  exact Json.tabulates_table (Json.namedOnce_of_read hread)

/-- Two objects with different names, the first with a name given twice; and an item that is no
object behind one that is. -/
theorem Table.shows_what_it_is_made_of_ragged :
    let ragged := "[\x7b\"z\": 1, \"a\": null, \"z\": \"x\"\x7d, \x7b\"b\": [true]\x7d]".toList
    let mixed := "[\x7b\x7d, 3, []]".toList
    (∃ v t, Json.read ragged = .ok v ∧ Table.ofJsonText ragged = .ok t ∧ t.columns = ["z", "a"]
      ∧ t.cell? 0 "z" = some "x" ∧ t.cell? 1 "b" = some "[true]" ∧ ¬ (t.cell? 1 "z").isSome)
    ∧ ∃ v e, Json.read mixed = .ok v ∧ Table.ofJsonText mixed = .error e
      ∧ e.message = "Row 1 is not a JSON object" := by
  have hragged : Json.read
      "[\x7b\"z\": 1, \"a\": null, \"z\": \"x\"\x7d, \x7b\"b\": [true]\x7d]".toList = .ok (.array
        [.object [("z", .string "x"), ("a", .null)], .object [("b", .array [.bool true])]]) := by
    cbv
  have hmixed : Json.read "[\x7b\x7d, 3, []]".toList = .ok (.array
      [.object [], .number (.whole 3 (by decide)), .array []]) := by
    cbv
  intro ragged mixed
  constructor
  · have htable := Table.ofJsonText_of_read hragged
    obtain ⟨objects, hobjects, hshown⟩ :=
      (Table.shows_what_it_is_made_of.1 ragged _ hragged).shown _ htable
    have hsame : [[("z", .string "x"), ("a", .null)], [("b", .array [.bool true])]] = objects :=
      List.map_injective_iff.mpr (fun _ _ => Json.object.inj) (Json.array.inj hobjects)
    subst hsame
    refine ⟨_, _, hragged, htable, hshown.columns, ?_, ?_, ?_⟩
    · exact (hshown.cells 0 _ rfl "z" "x").mpr ⟨_, List.mem_cons_self, .string "x"⟩
    · exact (hshown.cells 1 _ rfl "b" "[true]").mpr
        ⟨_, List.mem_cons_self, Json.standsFor_iff.mpr (by cbv)⟩
    · rw [hshown.present 1 _ rfl "z"]
      decide
  · have htabulates := Table.shows_what_it_is_made_of.1 mixed _ hmixed
    have hnoObject : ∀ members, Json.array [] ≠ .object members := by
      intro members h
      cases h
    obtain ⟨e, he⟩ := htabulates.fails.mpr (.inr ⟨_, rfl, .array [], by simp, hnoObject⟩)
    obtain ⟨i, hfirst, -, hmessage⟩ := htabulates.named _ rfl e he
    have hi : i = 1 := by
      cases i with
      | zero =>
          obtain ⟨w, hw, hmisfit⟩ := hfirst.misfit
          cases hw
          exact absurd rfl (hmisfit [])
      | succ i =>
          cases i with
          | zero => rfl
          | succ i =>
              obtain ⟨members, hmembers⟩ := hfirst.before 1 (by omega)
              cases hmembers
    refine ⟨_, e, hmixed, he, ?_⟩
    rw [hmessage, hi]
    rfl

end TableCalc
