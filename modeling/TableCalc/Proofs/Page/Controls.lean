/-
What the controls of a page can do. A card describes its controls with the edits they make; read the
other way round, an edit that comes from a card is one of three things: the removal of the card's
block, a combinator behind it, or a patch of it that the block's own controls offer (`Offers`). And
whatever an action asks of the session, other than an event from outside the page, is one of these
edits, a fresh block or an evaluation (`request_cases`).

The lemmas go from the inside out: a list made from its items, each control, the card, the page.
-/

import TableCalc.Page.Basic

namespace TableCalc.Page

variable {columns : List String} {profile : Profile} {f : Formula} {index : Nat} {b : Block}
  {e : Edit}

-- ============================================================ single controls

/-- The edits that a control can make, by a click on an entry, by a typed text or by a click. -/
inductive Control.Makes : Control → Edit → Prop
  | entry {selector shown entries caption edit} (h : (caption, edit) ∈ entries) :
      Makes (.list selector shown entries) edit
  | typed {which shown typed text edit} (h : typed text = some edit) :
      Makes (.field which shown typed) edit
  | click {edit} : Makes (.remove edit) edit

/-- A list that is made from its items makes the edit of one of them. -/
theorem Control.makes_list {α : Type} {selector : Selector} {shown : String} {items : List α}
    {caption : α → String} {edit : α → Edit}
    (h : Makes (.list selector shown (items.map fun x => (caption x, edit x))) e) :
    ∃ x ∈ items, e = edit x := by
  cases h with
  | entry h =>
      obtain ⟨x, hx, heq⟩ := List.mem_map.mp h
      injection heq with _ he
      exact ⟨x, hx, he.symm⟩

/-- The patches of a block that its own controls offer, on a table with the given columns and
profile. Comparisons and values depend on the condition's column, and there is nothing to offer for
them before a column is chosen. -/
inductive Offers (columns : List String) (profile : Profile) : Block → Patch → Prop
  | kind (b : Block) (k : BlockKind) : Offers columns profile b { kind := some k }
  | number (present : Float) (n : Number.Numeral) :
      Offers columns profile (.constant present) { value := some n.value }
  | column {c target how name} (h : name ∈ columns) :
      Offers columns profile (.conditional c target how)
        { condition := some { column := some name, comparison := some .equal } }
  | comparison {c target how op} (hc : c.column ≠ "")
      (h : op ∈ if profile.isText c.column then Comparison.onText else Comparison.onNumbers) :
      Offers columns profile (.conditional c target how)
        { condition := some { comparison := some op } }
  | choice {c target how value} (hc : c.column ≠ "") (ht : profile.isText c.column = true)
      (h : value ∈ profile.distinct c.column) :
      Offers columns profile (.conditional c target how)
        { condition := some { value := some value } }
  | typing {c target how} (value : String) (hc : c.column ≠ "")
      (ht : profile.isText c.column = false) :
      Offers columns profile (.conditional c target how)
        { condition := some { value := some value } }
  | aggregation {c target how how'} (h : how' ∈ Aggregation.all) :
      Offers columns profile (.conditional c target how) { aggregation := some how' }
  | target {c target how name} (h : name ∈ columns) (hn : profile.isNumber name = true) :
      Offers columns profile (.conditional c target how) { target := some name }

/-- The controls of a condition offer what there is to offer for it. -/
theorem makes_conditionControls {c : Condition} {target : String} {how : Aggregation}
    {control : Control} (hmem : control ∈ conditionControls index columns profile c)
    (h : control.Makes e) :
    ∃ p, e = .update index p ∧ Offers columns profile (.conditional c target how) p := by
  rcases List.mem_cons.mp hmem with rfl | hmem
  · obtain ⟨name, hname, rfl⟩ := Control.makes_list h
    exact ⟨_, rfl, .column hname⟩
  · split at hmem
    case isTrue => cases hmem
    case isFalse hc =>
      rcases List.mem_cons.mp hmem with rfl | hmem
      · obtain ⟨op, hop, rfl⟩ := Control.makes_list h
        exact ⟨_, rfl, .comparison hc hop⟩
      · rw [List.mem_singleton] at hmem
        rw [hmem, valueControl] at h
        cases ht : profile.isText c.column with
        | true =>
            rw [ht] at h
            obtain ⟨value, hvalue, rfl⟩ := Control.makes_list h
            exact ⟨_, rfl, .choice hc ht hvalue⟩
        | false =>
            rw [ht] at h
            cases h with
            | typed h =>
                injection h with h
                exact ⟨_, h.symm, .typing _ hc ht⟩

/-- The controls that belong to a block's kind offer what there is to offer for it. -/
theorem makes_kindControls {control : Control}
    (hmem : control ∈ kindControls index columns profile b) (h : control.Makes e) :
    ∃ p, e = .update index p ∧ Offers columns profile b p := by
  cases b with
  | constant present =>
      rw [kindControls, List.mem_singleton] at hmem
      rw [hmem] at h
      cases h with
      | typed h =>
          obtain ⟨n, -, he⟩ := Option.map_eq_some_iff.mp h
          exact ⟨_, he.symm, .number present n⟩
  | conditional c target how =>
      rcases List.mem_append.mp hmem with hmem | hmem
      · exact makes_conditionControls hmem h
      · rcases List.mem_cons.mp hmem with rfl | hmem
        · obtain ⟨how', hhow, rfl⟩ := Control.makes_list h
          exact ⟨_, rfl, .aggregation hhow⟩
        · rw [List.mem_singleton] at hmem
          rw [hmem] at h
          obtain ⟨name, hname, rfl⟩ := Control.makes_list h
          obtain ⟨hin, hnumber⟩ := List.mem_filter.mp hname
          exact ⟨_, rfl, .target hin hnumber⟩

/-- The list of combinators is there only in front of a further block, to which the combinator joins
this one. -/
theorem makes_combinatorControls {control : Control}
    (hmem : control ∈ combinatorControls f index) (h : control.Makes e) :
    index + 1 < f.size ∧ (f.combinatorAfter? index).isSome = true
      ∧ ∃ op ∈ Combinator.all, e = .join index op := by
  unfold combinatorControls at hmem
  split at hmem
  case isFalse => cases hmem
  case isTrue hlast =>
    split at hmem
    case h_2 => cases hmem
    case h_1 op hop =>
      rw [List.mem_singleton] at hmem
      rw [hmem] at h
      refine ⟨hlast, ?_, Control.makes_list h⟩
      rw [hop]
      rfl

-- ==================================================================== cards

/-- The edits that the card of a block can make. -/
inductive CardEdit (columns : List String) (profile : Profile) (f : Formula) (index : Nat)
    (b : Block) : Edit → Prop
  | remove : CardEdit columns profile f index b (.remove index)
  | update {p} (h : Offers columns profile b p) : CardEdit columns profile f index b (.update index p)
  | join {op} (hlast : index + 1 < f.size) (hop : (f.combinatorAfter? index).isSome = true)
      (h : op ∈ Combinator.all) : CardEdit columns profile f index b (.join index op)

theorem makes_card {control : Control} (hmem : control ∈ card columns profile f index b)
    (h : control.Makes e) : CardEdit columns profile f index b e := by
  simp only [card, List.mem_append, List.mem_cons, List.not_mem_nil, or_false] at hmem
  rcases hmem with (((rfl | rfl) | hmem) | hmem) | rfl
  · cases h
  · obtain ⟨k, -, rfl⟩ := Control.makes_list h
    exact .update (.kind b k)
  · obtain ⟨p, rfl, hp⟩ := makes_kindControls hmem h
    exact .update hp
  · obtain ⟨hlast, hop, op, hin, rfl⟩ := makes_combinatorControls hmem h
    exact .join hlast hop hin
  · cases h with
    | click => exact .remove

/-- A page shows a card for every block of the formula, and none before a table is loaded. -/
theorem cards_getElem? {s : Session} {i : Nat} {controls : List Control}
    (h : (cards s)[i]? = some controls) :
    ∃ t b, s.table = some t ∧ s.formula.blocks[i]? = some b
      ∧ controls = card t.columns s.profile s.formula i b := by
  unfold cards at h
  split at h
  case h_1 => cases h
  case h_2 t ht =>
    rw [List.getElem?_map, List.getElem?_zipIdx, Nat.zero_add] at h
    obtain ⟨⟨b, j⟩, hb, rfl⟩ := Option.map_eq_some_iff.mp h
    obtain ⟨b', hb', heq⟩ := Option.map_eq_some_iff.mp hb
    injection heq with heqb heqi
    rw [heqb] at hb'
    rw [← heqi]
    exact ⟨t, b, ht, hb', rfl⟩

/-- The edits that the cards of a session can make. -/
def Suggests (s : Session) (e : Edit) : Prop :=
  ∃ t i b, s.table = some t ∧ s.formula.blocks[i]? = some b
    ∧ CardEdit t.columns s.profile s.formula i b e

/-- What a control on a card makes is suggested. -/
theorem suggests_of_makes {s : Session} {i : Nat} {controls : List Control} {control : Control}
    (hcard : (cards s)[i]? = some controls) (hmem : control ∈ controls) (h : control.Makes e) :
    Suggests s e := by
  obtain ⟨t, b, ht, hb, rfl⟩ := cards_getElem? hcard
  exact ⟨t, i, b, ht, hb, makes_card hmem h⟩

-- ================================================================= the page

theorem removal?_makes {controls : List Control} (h : removal? controls = some e) :
    ∃ control ∈ controls, control.Makes e := by
  obtain ⟨control, hmem, hsome⟩ := List.exists_of_findSome?_eq_some h
  cases control with
  | remove e' =>
      injection hsome with he
      rw [← he]
      exact ⟨_, hmem, .click⟩
  | caption text => cases hsome
  | list selector shown entries => cases hsome
  | field which shown typed => cases hsome

theorem listEntries?_makes {selector : Selector} {controls : List Control}
    {entries : List (String × Edit)} (h : listEntries? selector controls = some entries)
    {entry : String × Edit} (hentry : entry ∈ entries) :
    ∃ control ∈ controls, control.Makes entry.2 := by
  obtain ⟨control, hmem, hsome⟩ := List.exists_of_findSome?_eq_some h
  cases control with
  | list selector' shown entries' =>
      simp only [Option.ite_none_right_eq_some, Option.some.injEq] at hsome
      rw [← hsome.2] at hentry
      exact ⟨_, hmem, .entry hentry⟩
  | caption text => cases hsome
  | field which shown typed => cases hsome
  | remove e' => cases hsome

theorem typing?_makes {field : Field} {controls : List Control} {typed : String → Option Edit}
    (h : typing? field controls = some typed) {text : String} (htext : typed text = some e) :
    ∃ control ∈ controls, control.Makes e := by
  obtain ⟨control, hmem, hsome⟩ := List.exists_of_findSome?_eq_some h
  cases control with
  | field field' shown typed' =>
      simp only [Option.ite_none_right_eq_some, Option.some.injEq] at hsome
      rw [← hsome.2] at htext
      exact ⟨_, hmem, .typed htext⟩
  | caption text => cases hsome
  | list selector shown entries => cases hsome
  | remove e' => cases hsome

/-- What an action asks of the session: what comes from outside the page, a fresh block or an
evaluation, or an edit that a card suggests. -/
theorem request_cases {p : Page} {a : Action} {event : Event}
    (h : (p.request a).1 = some event) :
    a = .event event ∨ event = .edit (.push .fresh) ∨ event = .compute
      ∨ ∃ e, event = .edit e ∧ Suggests p.session e := by
  cases a with
  | event e =>
      injection h with h
      rw [h]
      exact .inl rfl
  | press button =>
      simp only [request] at h
      split at h
      case isTrue => cases h
      case isFalse =>
        cases button with
        | addBlock =>
            injection h with h
            exact .inr (.inl h.symm)
        | calculate =>
            injection h with h
            exact .inr (.inr (.inl h.symm))
  | remove block =>
      simp only [request] at h
      split at h
      case h_1 => cases h
      case h_2 edit hedit =>
        injection h with h
        obtain ⟨controls, hcard, hremoval⟩ := Option.bind_eq_some_iff.mp hedit
        obtain ⟨control, hmem, hmakes⟩ := removal?_makes hremoval
        exact .inr (.inr (.inr ⟨edit, h.symm, suggests_of_makes hcard hmem hmakes⟩))
  | choose selector block entry =>
      simp only [request] at h
      split at h
      case h_1 => cases h
      case h_2 entries hentries =>
        obtain ⟨chosen, hchosen, rfl⟩ := Option.map_eq_some_iff.mp h
        obtain ⟨controls, hcard, hlist⟩ := Option.bind_eq_some_iff.mp hentries
        obtain ⟨control, hmem, hmakes⟩ :=
          listEntries?_makes hlist (List.mem_of_getElem? hchosen)
        exact .inr (.inr (.inr ⟨_, rfl, suggests_of_makes hcard hmem hmakes⟩))
  | type field block text =>
      simp only [request] at h
      split at h
      case h_1 => cases h
      case h_2 typed htyped =>
        obtain ⟨edit, hedit, rfl⟩ := Option.map_eq_some_iff.mp h
        obtain ⟨taken, -, htaken⟩ := Option.bind_eq_some_iff.mp hedit
        obtain ⟨controls, hcard, htyping⟩ := Option.bind_eq_some_iff.mp htyped
        obtain ⟨control, hmem, hmakes⟩ := typing?_makes htyping htaken
        exact .inr (.inr (.inr ⟨_, rfl, suggests_of_makes hcard hmem hmakes⟩))
  | menu => cases h
  | warnings =>
      simp only [request] at h
      split at h
      · cases h
      · cases h
  | hoverColumn column =>
      simp only [request] at h
      split at h
      · cases h
      · split at h
        · cases h
        · cases h
  | hoverRemove block =>
      simp only [request] at h
      split at h
      · cases h
      · cases h

end TableCalc.Page
