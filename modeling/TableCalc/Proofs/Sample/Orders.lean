/-
What the sample draws. A drawing is judged by what it gives from any state of the source whatever
(`Gives`), so nothing here depends on which numbers the source shows, nor on how many of them an
order takes: the discount takes one more where it is a number. Every order drawn is `Valid`: its
words are among the listed ones, its units are few, its price is finite, and its discount has one of
three forms.

The price is the one place where a number could get out of hand. It is followed through by the power
of two that it stays below.
-/

import TableCalc.Proofs.Number.Arithmetic
import TableCalc.Sample.Sales

namespace TableCalc.Sample

open Number

variable {α β : Type}

-- =============================================================== drawings

/-- Whatever the state of the source is, what is drawn has the property. -/
structure Gives (d : Drawing α) (P : α → Prop) : Prop where
  of_run : ∀ r, P (d.run r).1

theorem Gives.pure {P : α → Prop} {a : α} (h : P a) : Gives (pure a) P := ⟨fun _ => h⟩

theorem Gives.bind {P : α → Prop} {Q : β → Prop} {d : Drawing α} {f : α → Drawing β}
    (hd : Gives d P) (hf : ∀ a, P a → Gives (f a) Q) : Gives (d >>= f) Q := by
  constructor
  intro r
  exact (hf _ (hd.of_run r)).of_run (d.run r).2

theorem gives_draw : Gives draw fun _ => True := ⟨fun _ => trivial⟩

theorem gives_drawBelow {n : Nat} (h : 0 < n) : Gives (drawBelow n) (· < n) :=
  gives_draw.bind fun _ _ => .pure (Nat.mod_lt _ h)

theorem gives_pick (items : List α) (nonempty : items ≠ []) :
    Gives (pick items nonempty) (· ∈ items) :=
  gives_draw.bind fun _ _ => .pure (List.get_mem ..)

/-- The fraction is drawn below 1, so below 2 whichever way it is rounded. -/
theorem gives_drawUnit : Gives drawUnit (Below 1) := by
  apply gives_draw.bind
  intro x _
  apply Gives.pure
  apply below_nearest (k := 0)
  · decide
  · rw [Nat.pow_zero, Nat.one_mul]
    exact toNat_shiftRight_lt x

-- ================================================================= orders

/-- A discount as it is written: nothing, a word, or a number with two places. -/
def IsDiscount (d : String) : Prop :=
  d = "" ∨ d = "n/a" ∨ ∃ x : Float, x.isFinite = true ∧ d = String.ofList (fixed 2 x)

/-- What holds of every order that is drawn. -/
structure Order.Valid (o : Order) : Prop where
  region_mem : o.region ∈ regions
  product_mem : o.product ∈ products.map (·.1)
  units_pos : 1 ≤ o.units
  units_le : o.units ≤ 50
  isFinite_unitPrice : o.unitPrice.isFinite = true
  isDiscount : IsDiscount o.discount

theorem gives_drawDiscount : Gives drawDiscount IsDiscount := by
  apply (gives_drawBelow (by decide)).bind
  intro k _
  split
  case isTrue => exact .pure (.inl rfl)
  case isFalse =>
    split
    case isTrue => exact .pure (.inr (.inl rfl))
    case isFalse =>
      apply gives_drawUnit.bind
      intro u hu
      have hfactor : Below 0 0.3 := by
        unfold Below
        decide +kernel
      have hproduct := hu.mul hfactor (by decide)
      exact .pure (.inr (.inr ⟨_, hproduct.isFinite (by decide), rfl⟩))

/-- A price stays finite: no step of it goes far beyond what went in. -/
theorem isFinite_price {usual u : Float} (husual : Below 4 usual) (hu : Below 1 u) :
    (price usual u).isFinite = true := by
  have hspread : Below 0 0.2 := by
    unfold Below
    decide +kernel
  have hbase : Below 0 0.9 := by
    unfold Below
    decide +kernel
  have hcents : Below 7 100.0 := by
    unfold Below
    decide +kernel
  have hfactor := (hbase.mono (by decide)).add (hu.mul hspread (by decide)) (by decide)
  have hraw := (husual.mul hfactor (by decide)).mul hcents (by decide)
  have hround := (hraw.mono (j := 55) (by decide)).roundWhole (by decide) (by decide)
  have hprice : Below 57 (price usual u) := by
    apply hround.div (by decide)
    · decide +kernel
    · decide +kernel
  exact hprice.isFinite (by decide)

/-- No product usually costs 16 or more. -/
theorem below_of_mem_products : ∀ p ∈ products, Below 4 p.2 := by
  unfold Below
  decide +kernel

theorem gives_drawOrder (id : Nat) : Gives (drawOrder id) fun o => o.id = id ∧ o.Valid := by
  apply (gives_pick products _).bind
  intro p hp
  apply gives_drawDiscount.bind
  intro discount hdiscount
  apply (gives_pick regions _).bind
  intro region hregion
  apply (gives_drawBelow (by decide)).bind
  intro units hunits
  apply gives_drawUnit.bind
  intro u hu
  apply Gives.pure
  exact ⟨rfl, {
    region_mem := hregion
    product_mem := List.mem_map_of_mem hp
    units_pos := Nat.le_add_right ..
    units_le := by
      show 1 + units ≤ 50
      omega
    isFinite_unitPrice := isFinite_price (below_of_mem_products p hp) hu
    isDiscount := hdiscount }⟩

/-- The orders drawn are numbered one by one, and all of them are valid. -/
theorem gives_drawOrders (id count : Nat) : Gives (drawOrders id count) fun orders =>
    orders.map Order.id = List.range' id count ∧ ∀ o ∈ orders, o.Valid := by
  induction count generalizing id with
  | zero => exact .pure ⟨rfl, nofun⟩
  | succ count ih =>
      apply (gives_drawOrder id).bind
      intro order horder
      apply (ih (id + 1)).bind
      intro rest hrest
      apply Gives.pure
      obtain ⟨hid, hvalid⟩ := horder
      obtain ⟨hids, hall⟩ := hrest
      constructor
      · rw [List.map_cons, hid, hids, List.range'_succ]
      · exact List.forall_mem_cons.mpr ⟨hvalid, hall⟩

-- ============================================================= the sample

theorem map_id_salesOrders (rows : Nat) :
    (salesOrders rows).map Order.id = List.range' 1 rows :=
  ((gives_drawOrders 1 rows).of_run (.ofSeed seed)).1

theorem length_salesOrders (rows : Nat) : (salesOrders rows).length = rows := by
  have hids := congrArg List.length (map_id_salesOrders rows)
  rwa [List.length_map, List.length_range'] at hids

theorem id_of_getElem?_salesOrders {rows i : Nat} {o : Order}
    (hi : (salesOrders rows)[i]? = some o) : o.id = i + 1 := by
  have hlt := (List.getElem?_eq_some_iff.mp hi).1
  rw [length_salesOrders] at hlt
  have hid : ((salesOrders rows).map Order.id)[i]? = some o.id := by
    rw [List.getElem?_map, hi]
    rfl
  rw [map_id_salesOrders, List.getElem?_range' hlt, Option.some_inj] at hid
  omega

theorem id_le_of_mem_salesOrders {rows : Nat} {o : Order} (ho : o ∈ salesOrders rows) :
    o.id ≤ rows := by
  obtain ⟨i, hi⟩ := List.getElem?_of_mem ho
  have hlt := (List.getElem?_eq_some_iff.mp hi).1
  rw [length_salesOrders] at hlt
  rw [id_of_getElem?_salesOrders hi]
  exact hlt

theorem valid_of_mem_salesOrders {rows : Nat} {o : Order} (ho : o ∈ salesOrders rows) : o.Valid :=
  ((gives_drawOrders 1 rows).of_run (.ofSeed seed)).2 o ho

end TableCalc.Sample
