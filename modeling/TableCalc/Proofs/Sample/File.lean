/-
The sample file, read back. The command writes the orders it draws as lines, and reading the file
finds them again: every cell under its column, whatever number of orders there is. What the columns
hold is then a matter of the orders, which are valid (`valid_of_mem_salesOrders`). Numbers are
written as literals that are finite doubles, so their columns are numeric; the words for regions and
products are not read as numbers, nor is the word that stands for a discount now and then.
-/

import TableCalc.Proofs.Number.Layout
import TableCalc.Proofs.Sample.Lines
import TableCalc.Proofs.Sample.Orders
import TableCalc.Sample.Command

namespace TableCalc.Sample

open Csv (Plain)
open Number

variable {o : Order} {orders : List Order} {n i k : Nat} {name : String}

-- ============================================================== arguments

theorem toList_toString (n : Nat) : (toString n).toList = digitsOf n := by
  rw [Nat.toString_eq_repr, Nat.toList_repr]
  rfl

/-- Digits are counted up to their value, if that fits. -/
theorem foldlM_addDigit {ds : List Char} (hds : ∀ c ∈ ds, c.isDigit = true)
    (hvalue : valueOf ds < UInt64.size) : ds.foldlM addDigit 0 = .ok (valueOf ds) := by
  induction ds using List.reverseRecOn with
  | nil => rfl
  | append_singleton ds c ih =>
      have hstep : valueOf (ds ++ [c]) = 10 * valueOf ds + (c.toNat - '0'.toNat) := by
        rw [valueOf, List.foldl_append]
        rfl
      rw [hstep] at hvalue ⊢
      have hc : c.isDigit = true := hds c (by simp)
      have hbefore : ds.foldlM addDigit 0 = .ok (valueOf ds) := by
        apply ih
        · intro d hd
          exact hds d (List.mem_append_left _ hd)
        · omega
      have hadd : addDigit (valueOf ds) c = .ok (10 * valueOf ds + (c.toNat - '0'.toNat)) := by
        rw [addDigit, if_pos hc]
        exact if_pos hvalue
      rw [List.foldlM_append, hbefore]
      show (addDigit (valueOf ds) c >>= fun m => [].foldlM addDigit m) = _
      rw [hadd]
      rfl

/-- A row count in plain digits is read as the number it is. -/
theorem readCount_toString (hn : n < UInt64.size) : readCount (toString n) = .ok n := by
  have hcount := foldlM_addDigit (fun c hc => isDigit_of_mem_digitsOf hc)
    ((valueOf_digitsOf n).symm ▸ hn)
  rw [valueOf_digitsOf] at hcount
  obtain ⟨c, ds, hdigits⟩ := List.exists_cons_of_ne_nil (digitsOf_ne_nil n)
  have hc : c.isDigit = true := isDigit_of_mem_digitsOf (hdigits ▸ List.mem_cons_self)
  have hplus : c ≠ '+' := by
    rintro rfl
    cases hc
  unfold readCount
  rw [toList_toString, hdigits]
  rw [hdigits] at hcount
  split <;> simp_all

/-- Told a number of rows, the command leaves the sample of that size where it creates a file. -/
theorem files_run {path count : String} (hcount : readCount count = .ok n)
    (hfile : Storage.create path = .ok (.file name)) :
    (run [path, count]).files = [(name, salesText n)] := by
  have hplan : Plan.ofArguments [path, count] = .ok ⟨path, n⟩ := by
    simp [Plan.ofArguments, hcount]
  simp [run, hplan, hfile, Plan.writtenTo, Plan.content]

-- =================================================================== cells

/-- A literal needs no quotes. -/
theorem plain_of_writesFinite {s : List Char} (h : WritesFinite s) : Plain s := by
  obtain ⟨literal, rfl, -⟩ := h
  intro c hc hmark
  simp only [Csv.marks, List.mem_cons, List.not_mem_nil, or_false] at hmark
  have hchar := literal.isDigit_or_mem_of_mem_text hc
  rcases hmark with rfl | rfl | rfl | rfl <;> simp at hchar

theorem writesFinite_toString (hn : n < UInt64.size) : WritesFinite (toString n).toList := by
  rw [toList_toString]
  exact writesFinite_whole false hn

/-- The words that an order is written with. -/
def words : List String := "n/a" :: (regions ++ products.map (·.1))

theorem plain_of_mem_words : ∀ word ∈ words, Plain word.toList := by decide

theorem isNumeric_of_mem_words : ∀ word ∈ words, Cell.isNumeric word = false := by decide +kernel

namespace Order.Valid

theorem region_mem_words (h : o.Valid) : o.region ∈ words :=
  List.mem_cons_of_mem _ (List.mem_append_left _ h.region_mem)

theorem product_mem_words (h : o.Valid) : o.product ∈ words :=
  List.mem_cons_of_mem _ (List.mem_append_right _ h.product_mem)

theorem writesFinite_unitPrice (h : o.Valid) :
    WritesFinite (String.ofList (dataLayout.render o.unitPrice)).toList := by
  rw [String.toList_ofList]
  exact writesFinite_render dataLayout h.isFinite_unitPrice

theorem writesFinite_units (h : o.Valid) : WritesFinite (toString o.units).toList := by
  apply writesFinite_toString
  have hunits := h.units_le
  show o.units < 2 ^ 64
  omega

/-- A discount is empty, a word, or a number. -/
theorem discount_cases (h : o.Valid) :
    o.discount = "" ∨ o.discount = "n/a" ∨ WritesFinite o.discount.toList := by
  rcases h.isDiscount with hempty | hword | ⟨x, hx, htext⟩
  · exact .inl hempty
  · exact .inr (.inl hword)
  · rw [htext, String.toList_ofList]
    exact .inr (.inr (writesFinite_fixed two_ne_zero hx))

/-- No cell of an order needs quotes. -/
theorem plain (h : o.Valid) (hid : o.id < UInt64.size) :
    ∀ cell ∈ o.cells, Plain cell.toList := by
  have hdiscount : Plain o.discount.toList := by
    rcases h.discount_cases with hempty | hword | hnumber
    · rw [hempty]
      decide
    · rw [hword]
      exact plain_of_mem_words _ List.mem_cons_self
    · exact plain_of_writesFinite hnumber
  simp only [cells, List.forall_mem_cons]
  exact ⟨plain_of_writesFinite (writesFinite_toString hid),
    plain_of_mem_words _ h.region_mem_words, plain_of_mem_words _ h.product_mem_words,
    plain_of_writesFinite h.writesFinite_units, plain_of_writesFinite h.writesFinite_unitPrice,
    hdiscount, nofun⟩

/-- Only the word keeps a discount from being a number or nothing. -/
theorem isNumeric_discount_iff (h : o.Valid) :
    Cell.isNumeric o.discount = true ↔ o.discount ≠ "n/a" := by
  have hword : Cell.isNumeric "n/a" = false :=
    isNumeric_of_mem_words _ List.mem_cons_self
  rcases h.discount_cases with hd | hd | hd
  · rw [hd]
    exact iff_of_true rfl (by decide)
  · rw [hd, hword]
    decide
  · have hnumeric := hd.isNumeric
    refine iff_of_true hnumeric ?_
    intro heq
    rw [heq, hword] at hnumeric
    cases hnumeric

end Order.Valid

-- ================================================================== table

/-- The table of some orders. -/
def table (orders : List Order) : Table := Csv.tableOf header (orders.map Order.cells)

theorem text_eq_join (hne : orders ≠ []) :
    text orders = String.join ((header :: orders.map Order.cells).map line) := by
  rw [text, if_neg (by simpa using hne), List.map_cons, List.map_map, String.join_cons]
  rfl

/-- The text of orders begins with a letter, and so with no byte order mark. -/
theorem head?_bytes_join (records : List (List String)) :
    (Text.bytes (String.join ((header :: records).map line)).toList).head? ≠ some 0xEF := by
  have hheader : (line header).toList.head? = some 'o' := by decide
  have hhead : (String.join ((header :: records).map line)).toList.head? = some 'o' := by
    rw [List.map_cons, String.join_cons, String.toList_append, List.head?_append, hheader]
    rfl
  rw [(Text.head?_bytes_eq_iff (by decide)).mpr hhead]
  decide

/-- The text of valid orders is read as their table. -/
theorem ofCsv_text (hne : orders ≠ [])
    (hvalid : ∀ o ∈ orders, o.Valid ∧ o.id < UInt64.size) :
    Table.ofCsv (text orders).toUTF8.toList = .ok (table orders) := by
  rw [text_eq_join hne]
  apply Csv.ofCsv_ok
  apply Csv.delivers_lines _ (head?_bytes_join _)
  rw [List.forall_mem_cons]
  constructor
  · decide
  · intro cells hcells
    obtain ⟨o, ho, rfl⟩ := List.mem_map.mp hcells
    obtain ⟨hvalid, hid⟩ := hvalid o ho
    exact ⟨by simp [Order.cells], hvalid.plain hid⟩

theorem rowOf_cells (o : Order) (hk : header[k]? = some name) :
    (Csv.rowOf header o.cells)[name]? = some (o.cells.getD k "") :=
  Csv.rowOf_getElem? (Csv.lastPosition_of_nodup (by decide) hk)

theorem cell?_table (hi : orders[i]? = some o) (hk : header[k]? = some name) :
    (table orders).cell? i name = some (o.cells.getD k "") := by
  have hrecord : (orders.map Order.cells)[i]? = some o.cells := by
    rw [List.getElem?_map, hi]
    rfl
  rw [table, Csv.cell?_tableOf hrecord, rowOf_cells o hk]

theorem columns_table (hne : orders ≠ []) : (table orders).columns = header := by
  rw [table, Csv.tableOf, if_neg (by simpa using hne)]

theorem kindOf_table (hk : header[k]? = some name) : (table orders).kindOf name = .number ↔
    ∀ o ∈ orders, Cell.isNumeric (o.cells.getD k "") = true := by
  rw [Table.kindOf_eq_number, table, Csv.tableOf]
  simp only [List.forall_mem_map, rowOf_cells _ hk, Option.some.injEq, exists_eq_left']

/-- A column is numeric when the cells of all orders are, at its place. -/
theorem kind?_table_eq_number (hne : orders ≠ []) (hk : header[k]? = some name) :
    (Profile.ofTable (table orders)).kind? name = some .number ↔
      ∀ o ∈ orders, Cell.isNumeric (o.cells.getD k "") = true := by
  rw [Profile.kind?_ofTable_eq_some, columns_table hne, kindOf_table hk]
  exact and_iff_right (List.mem_of_getElem? hk)

/-- It is text when the cell of one order is not. -/
theorem kind?_table_eq_text (hne : orders ≠ []) (hk : header[k]? = some name) :
    (Profile.ofTable (table orders)).kind? name = some .text ↔
      ∃ o ∈ orders, Cell.isNumeric (o.cells.getD k "") = false := by
  rw [Profile.kind?_ofTable_eq_some, columns_table hne, ColumnKind.eq_text_iff, kindOf_table hk]
  simp [List.mem_of_getElem? hk]

-- ============================================================== the sample

variable {rows : UInt64}

theorem salesOrders_ne_nil (hrows : 1 ≤ rows.toNat) : salesOrders rows.toNat ≠ [] := by
  apply List.ne_nil_of_length_pos
  rw [length_salesOrders]
  exact hrows

theorem id_lt_of_mem_salesOrders (ho : o ∈ salesOrders rows.toNat) : o.id < UInt64.size :=
  Nat.lt_of_le_of_lt (id_le_of_mem_salesOrders ho) rows.toNat_lt_size

/-- The kinds of the columns, of which only the last depends on what is drawn. -/
theorem kinds_sample (hrows : 1 ≤ rows.toNat) :
    let p := Profile.ofTable (table (salesOrders rows.toNat))
    p.kind? "order_id" = some .number ∧ p.kind? "region" = some .text
      ∧ p.kind? "product" = some .text ∧ p.kind? "units" = some .number
      ∧ p.kind? "unit_price" = some .number
      ∧ (p.kind? "discount" = some .text ↔ ∃ o ∈ salesOrders rows.toNat, o.discount = "n/a")
      ∧ (p.kind? "discount" = some .number ↔
          ∀ o ∈ salesOrders rows.toNat, o.discount ≠ "n/a") := by
  have hne := salesOrders_ne_nil hrows
  obtain ⟨first, hfirst⟩ := List.exists_mem_of_ne_nil _ hne
  have hvalid := fun o (ho : o ∈ salesOrders rows.toNat) => valid_of_mem_salesOrders ho
  refine ⟨?_, ?_, ?_, ?_, ?_, ?_, ?_⟩
  · apply (kind?_table_eq_number (k := 0) hne rfl).mpr
    intro o ho
    exact (writesFinite_toString (id_lt_of_mem_salesOrders ho)).isNumeric
  · apply (kind?_table_eq_text (k := 1) hne rfl).mpr
    exact ⟨first, hfirst, isNumeric_of_mem_words _ (hvalid first hfirst).region_mem_words⟩
  · apply (kind?_table_eq_text (k := 2) hne rfl).mpr
    exact ⟨first, hfirst, isNumeric_of_mem_words _ (hvalid first hfirst).product_mem_words⟩
  · apply (kind?_table_eq_number (k := 3) hne rfl).mpr
    intro o ho
    exact (hvalid o ho).writesFinite_units.isNumeric
  · apply (kind?_table_eq_number (k := 4) hne rfl).mpr
    intro o ho
    exact (hvalid o ho).writesFinite_unitPrice.isNumeric
  · rw [kind?_table_eq_text (k := 5) hne rfl]
    refine exists_congr fun o => and_congr_right fun ho => ?_
    have hdiscount := (hvalid o ho).isNumeric_discount_iff.not
    rwa [Bool.not_eq_true, not_not] at hdiscount
  · rw [kind?_table_eq_number (k := 5) hne rfl]
    exact forall₂_congr fun o ho => (hvalid o ho).isNumeric_discount_iff

/-- The sample of any number of rows, from one on, is read back as what was drawn: its columns, a
row for each order with its cells, and columns of the kinds that the cells make them. -/
theorem sample_is_read_back (path : String) (rows : UInt64) (hrows : 1 ≤ rows.toNat) :
    (∀ name, Storage.create path = .ok (.file name) →
      (run [path, toString rows]).files = [(name, salesText rows.toNat)])
    ∧ ∃ t, Table.ofCsv (salesText rows.toNat).toUTF8.toList = .ok t
      ∧ t.columns = ["order_id", "region", "product", "units", "unit_price", "discount"]
      ∧ t.size = rows.toNat
      ∧ (∀ i < rows.toNat, ∃ o, (salesOrders rows.toNat)[i]? = some o
        ∧ t.cell? i "order_id" = some (toString (i + 1))
        ∧ t.cell? i "region" = some o.region ∧ o.region ∈ regions
        ∧ t.cell? i "product" = some o.product ∧ o.product ∈ products.map (·.1)
        ∧ t.cell? i "units" = some (toString o.units) ∧ 1 ≤ o.units ∧ o.units ≤ 50
        ∧ t.cell? i "discount" = some o.discount
        ∧ (o.discount = "" ∨ o.discount = "n/a" ∨ (Cell.wholeNumber? o.discount).isSome = true))
      ∧ (let p := Profile.ofTable t
        p.kind? "order_id" = some .number ∧ p.kind? "region" = some .text
          ∧ p.kind? "product" = some .text ∧ p.kind? "units" = some .number
          ∧ p.kind? "unit_price" = some .number
          ∧ (p.kind? "discount" = some .text ↔ ∃ o ∈ salesOrders rows.toNat, o.discount = "n/a")
          ∧ (p.kind? "discount" = some .number ↔
              ∀ o ∈ salesOrders rows.toNat, o.discount ≠ "n/a")) := by
  have hne := salesOrders_ne_nil hrows
  constructor
  · intro name hfile
    exact files_run (readCount_toString rows.toNat_lt_size) hfile
  refine ⟨table (salesOrders rows.toNat), ?_, columns_table hne, ?_, ?_, kinds_sample hrows⟩
  · exact ofCsv_text hne fun o ho => ⟨valid_of_mem_salesOrders ho, id_lt_of_mem_salesOrders ho⟩
  · rw [Table.size, table, Csv.tableOf, List.length_map, List.length_map, length_salesOrders]
  · intro i hi
    rw [← length_salesOrders rows.toNat] at hi
    obtain ⟨o, ho⟩ : ∃ o, (salesOrders rows.toNat)[i]? = some o := ⟨_, List.getElem?_eq_getElem hi⟩
    have hvalid := valid_of_mem_salesOrders (List.mem_of_getElem? ho)
    have hid := id_of_getElem?_salesOrders ho
    refine ⟨o, ho, ?_, cell?_table (k := 1) ho rfl, hvalid.region_mem,
      cell?_table (k := 2) ho rfl, hvalid.product_mem, cell?_table (k := 3) ho rfl,
      hvalid.units_pos, hvalid.units_le, cell?_table (k := 5) ho rfl, ?_⟩
    · rw [← hid]
      exact cell?_table (k := 0) ho rfl
    · refine hvalid.discount_cases.imp_right (Or.imp_right fun hnumber => ?_)
      obtain ⟨x, hx, -⟩ := hnumber.wholeNumber?
      rw [hx]
      rfl

/-- The last of seven orders has the word for a discount, which makes its column text. -/
theorem sample_is_read_back_seven :
    1 ≤ (7 : UInt64).toNat ∧ (run ["sales.csv", "7"]).files = [("sales.csv", salesText 7)]
      ∧ ∃ t, Table.ofCsv (salesText 7).toUTF8.toList = .ok t ∧ t.size = 7
        ∧ (Profile.ofTable t).kind? "discount" = some .text := by
  have hrows : 1 ≤ (7 : UInt64).toNat := by decide
  have hword : ∃ o ∈ salesOrders 7, o.discount = "n/a" := by decide +kernel
  obtain ⟨hfile, t, ht, -, hsize, -, -, -, -, -, -, hdiscount, -⟩ :=
    sample_is_read_back "sales.csv" 7 hrows
  refine ⟨hrows, hfile "sales.csv" ?_, t, ht, hsize, hdiscount.mpr hword⟩
  have hsteps : Storage.steps "sales.csv" = ["sales.csv"] := by
    rw [Storage.steps, String.splitOn, if_neg (by decide)]
    -- nine characters, none of them a slash
    iterate 9 rw [String.splitOnAux, if_neg (by decide), if_neg (by decide)]
    rw [String.splitOnAux, if_pos (by decide)]
    decide +kernel
  have hdevice : Storage.devices.lookup "sales.csv" = none := by decide +kernel
  have hallowed : Storage.refusal? "sales.csv" = none := by decide +kernel
  have hfree : Storage.obstacle? [] = none := rfl
  have hnamed : ("sales.csv".endsWith "/" || Storage.staysInTree "sales.csv") = false := by
    decide +kernel
  have hshort : Storage.isTooLong "sales.csv" = false := by decide +kernel
  have hhere : "sales.csv".startsWith "/" = false := by decide +kernel
  simp [Storage.create, hsteps, hdevice, hallowed, hfree, hnamed, hshort, hhere]

end TableCalc.Sample
