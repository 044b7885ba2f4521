/-
Formulas as they come from a page. On a page one chooses from what is offered, and what is offered
depends on the table: its columns, the numeric ones among them, the distinct cells of its text
columns. `Offered` says of a formula that everything in it could have been chosen on a given table,
or has not been chosen yet, and `Authoring` is the runs: a table is loaded into a fresh page, then
anything is done on the page that loads no other table.

Two things make the property hold, and both are about a condition's column. Choosing one puts
equality and an empty value in place of what stood there, so that no comparison or value outlives
the column it was chosen for; and a block that changes its kind starts blank. The rest is the list
of offers, one case each (`Block.Offered.patched`).

Such a formula has nothing to say about the cells it reads: a target is numeric or still empty, so
its cells all read, and the one thing left to note is a column that has not been chosen.
-/

import TableCalc.Proofs.Formula.Edits
import TableCalc.Proofs.Formula.Evaluation
import TableCalc.Proofs.Page.Controls
import TableCalc.Proofs.Session.History
import TableCalc.Proofs.Table.Lookup

namespace TableCalc

variable {t : Table}

-- ============================================================ what is offered

/-- A condition holds what is offered on a table: a comparison that is known, a column of the table
or none yet, and on a text column only what makes sense there, equality or its opposite with one of
the column's cells or with no value yet. -/
structure Condition.Offered (t : Table) (c : Condition) : Prop where
  known : ∀ symbol, c.comparison ≠ .unsupported symbol
  column : c.column = "" ∨ c.column ∈ t.columns
  text : (Profile.ofTable t).kind? c.column = some .text →
    (c.comparison = .equal ∨ c.comparison = .notEqual)
      ∧ (c.value = "" ∨ c.value ∈ (Profile.ofTable t).distinct c.column)

/-- A target is not chosen yet or a numeric column of the table. -/
def Table.OffersTarget (t : Table) (target : String) : Prop :=
  target = "" ∨ target ∈ t.columns ∧ (Profile.ofTable t).kind? target = some .number

/-- A block holds what is offered on a table. -/
def Block.Offered (t : Table) : Block → Prop
  | .constant _ => True
  | .conditional c target how =>
    c.Offered t ∧ t.OffersTarget target ∧ ∀ name, how ≠ .unsupported name

/-- A formula holds what is offered on a table. -/
structure Formula.Offered (t : Table) (f : Formula) : Prop where
  blocks : ∀ b ∈ f.blocks, b.Offered t
  combinators : ∀ op ∈ f.combinators, ∀ symbol, op ≠ .unsupported symbol

-- ================================================================== blocks

/-- The comparisons offered on any column are known. -/
theorem Comparison.known_of_offered {onText : Bool} {op : Comparison}
    (h : op ∈ if onText then Comparison.onText else Comparison.onNumbers) (symbol : String) :
    op ≠ .unsupported symbol := by
  rintro rfl
  cases onText with
  | true => simp [Comparison.onText] at h
  | false => simp [Comparison.onNumbers] at h

/-- A condition that was not filled in yet, or was just put back. -/
theorem Condition.Offered.of_unfilled {column : String} (h : column = "" ∨ column ∈ t.columns) :
    Condition.Offered t { column } where
  known := fun _ => nofun
  column := h
  text := fun _ => ⟨.inl rfl, .inl rfl⟩

theorem Block.Offered.blank (t : Table) (k : BlockKind) : k.blank.Offered t := by
  cases k with
  | constant => exact trivial
  | conditional => exact ⟨.of_unfilled (.inl rfl), .inl rfl, fun _ => nofun⟩

/-- Every patch that is offered for a block leaves it with what is offered. -/
theorem Block.Offered.patched {b : Block} {p : Patch} (hb : b.Offered t)
    (h : Page.Offers t.columns (Profile.ofTable t) b p) : (b.patched p).Offered t := by
  cases h with
  | kind _ k =>
      rcases b.patched_kind_eq_or k with hsame | hblank
      · rw [hsame]
        exact hb
      · rw [hblank]
        exact .blank t k
  | number present n => exact trivial
  | column hname =>
      obtain ⟨-, htarget, hhow⟩ := hb
      exact ⟨.of_unfilled (.inr hname), htarget, hhow⟩
  | @comparison c target how op hc hop =>
      obtain ⟨hcond, htarget, hhow⟩ := hb
      refine ⟨⟨Comparison.known_of_offered hop, hcond.column, ?_⟩, htarget, hhow⟩
      intro htext
      have honText : (Profile.ofTable t).isText c.column = true := Profile.isText_iff.mpr htext
      have hequality : op = .equal ∨ op = .notEqual := by
        simpa [honText, Comparison.onText] using hop
      exact ⟨hequality, (hcond.text htext).2⟩
  | choice hc htext hvalue =>
      obtain ⟨hcond, htarget, hhow⟩ := hb
      refine ⟨⟨hcond.known, hcond.column, ?_⟩, htarget, hhow⟩
      intro htext
      exact ⟨(hcond.text htext).1, .inr hvalue⟩
  | @typing c target how value hc hnumber =>
      obtain ⟨hcond, htarget, hhow⟩ := hb
      refine ⟨⟨hcond.known, hcond.column, ?_⟩, htarget, hhow⟩
      intro htext
      have honText : (Profile.ofTable t).isText c.column = true := Profile.isText_iff.mpr htext
      rw [hnumber] at honText
      cases honText
  | aggregation hhow' =>
      obtain ⟨hcond, htarget, -⟩ := hb
      refine ⟨hcond, htarget, ?_⟩
      rintro name rfl
      simp [Aggregation.all] at hhow'
  | target hname hnumber =>
      obtain ⟨hcond, -, hhow⟩ := hb
      exact ⟨hcond, .inr ⟨hname, of_decide_eq_true hnumber⟩, hhow⟩

-- ================================================================ formulas

theorem Formula.Offered.empty (t : Table) : Formula.Offered t {} := ⟨nofun, nofun⟩

theorem Formula.Offered.push {f : Formula} (hf : f.Offered t) {b : Block} (hb : b.Offered t) :
    (f.push b).Offered t := by
  refine ⟨?_, ?_⟩
  · intro b' hb'
    rcases List.mem_append.mp hb' with hb' | hb'
    · exact hf.blocks b' hb'
    · rw [List.mem_singleton.mp hb']
      exact hb
  · intro op hop
    unfold Formula.push at hop
    split at hop
    · exact hf.combinators op hop
    · rcases List.mem_append.mp hop with hop | hop
      · exact hf.combinators op hop
      · rw [List.mem_singleton.mp hop]
        intro symbol heq
        cases heq

theorem Formula.Offered.update {f g : Formula} {i : Nat} {p : Patch} (hf : f.Offered t)
    (hpatched : ∀ b, f.blocks[i]? = some b → (b.patched p).Offered t)
    (hop : ∀ op, p.combinator = some op → ∀ symbol, op ≠ .unsupported symbol)
    (h : f.update i p = .ok g) : g.Offered t := by
  obtain ⟨b, ops, hb, hops, rfl⟩ := Formula.update_ok h
  refine ⟨?_, ?_⟩
  · intro b' hb'
    rcases List.mem_or_eq_of_mem_set hb' with hb' | rfl
    · exact hf.blocks b' hb'
    · exact hpatched b hb
  · intro op hmem
    rcases Formula.mem_of_rejoined hops hmem with hmem | hnew
    · exact hf.combinators op hmem
    · exact hop op hnew

theorem Formula.Offered.remove {f g : Formula} {i : Nat} {b : Block} (hf : f.Offered t)
    (h : f.remove i = .ok (b, g)) : g.Offered t := by
  obtain ⟨-, rfl⟩ := Formula.remove_ok h
  exact ⟨fun b' hb' => hf.blocks b' (List.mem_of_mem_eraseIdx hb'),
    fun op hop => hf.combinators op (List.mem_of_mem_eraseIdx hop)⟩

/-- Every edit that a page suggests leaves a formula with what is offered. -/
theorem Formula.Offered.edited {s : Session} {e : Edit} {g : Formula} (hf : s.formula.Offered t)
    (htable : s.table = some t) (hprofile : s.profile = Profile.ofTable t)
    (hsuggests : Page.Suggests s e) (h : s.formula.edited e = .ok g) : g.Offered t := by
  obtain ⟨t', i, b, ht', hb, hcard⟩ := hsuggests
  rw [htable] at ht'
  injection ht' with ht'
  rw [← ht', hprofile] at hcard
  have hbo : b.Offered t := hf.blocks b (List.mem_of_getElem? hb)
  cases hcard with
  | remove =>
      obtain ⟨removed, hr⟩ := Formula.edited_remove_ok h
      exact hf.remove hr
  | update hoffers =>
      refine hf.update ?_ ?_ h
      · intro b' hb'
        rw [hb] at hb'
        injection hb' with hb'
        rw [← hb']
        exact hbo.patched hoffers
      · intro op hop
        cases hoffers <;> cases hop
  | @join op hlast hsome hin =>
      refine hf.update ?_ ?_ h
      · intro b' hb'
        rw [Block.patched_combinator]
        exact hf.blocks b' (List.mem_of_getElem? hb')
      · intro op' hop'
        injection hop' with hop'
        rw [← hop']
        rintro symbol rfl
        simp [Combinator.all] at hin

-- ============================================================ what is noted

/-- Where no row has a cell without a name, the cells of an offered target all read. -/
theorem Table.OffersTarget.readable {target : String} (h : t.OffersTarget target)
    (hblank : ∀ row ∈ t.rows, row[""]? = none) :
    ∀ row ∈ t.rows, row.textAt target = "" ∨ Cell.number? (row.textAt target) ≠ none := by
  intro row hrow
  rcases h with rfl | ⟨hin, hkind⟩
  · left
    rw [Row.textAt, hblank row hrow]
    rfl
  · rw [Profile.kind?_ofTable, if_pos hin] at hkind
    obtain ⟨raw, hraw, hnumeric⟩ := Table.kindOf_eq_number.mp (Option.some.inj hkind) row hrow
    rw [Row.textAt, hraw]
    exact Cell.eq_empty_or_number_of_isNumeric hnumeric

/-- Of a name that is a column or empty there is nothing to note but that it is empty. -/
theorem Table.eq_unknown_of_mem_nameNotes {column : String} (h : column = "" ∨ column ∈ t.columns)
    {d : Diagnostic} (hd : d ∈ t.nameNotes column) : d = .unknownColumn "" := by
  unfold Table.nameNotes at hd
  split at hd
  case isFalse => cases hd
  case isTrue hunlisted =>
    rw [List.mem_singleton] at hd
    rcases h with rfl | hin
    · exact hd
    · have hhas : t.hasColumn column = true := List.contains_iff_mem.mpr hin
      rw [hhas, Bool.and_eq_true] at hunlisted
      cases hunlisted.2

theorem Block.Offered.notes {b : Block} (hb : b.Offered t)
    (hblank : ∀ row ∈ t.rows, row[""]? = none) {d : Diagnostic} (hd : d ∈ b.notes t) :
    d = .unknownColumn "" := by
  cases b with
  | constant x => cases hd
  | conditional c target how =>
      obtain ⟨hcond, htarget, hhow⟩ := hb
      have hcomparison : c.comparison.notes = [] := by
        cases hop : c.comparison with
        | unsupported symbol => exact absurd hop (hcond.known symbol)
        | _ => rfl
      have hcells : columnNotes target 0 (t.select c) = [] :=
        columnNotes_eq_nil (fun row hrow =>
          htarget.readable hblank row (List.mem_filter.mp hrow).1) 0
      have haggregation : how.notes = [] := by
        cases how with
        | unsupported name => exact absurd rfl (hhow name)
        | _ => rfl
      rw [Block.notes, hcomparison, hcells, haggregation, List.nil_append, List.append_nil,
        List.append_nil] at hd
      rcases List.mem_append.mp hd with hd | hd
      · exact Table.eq_unknown_of_mem_nameNotes hcond.column hd
      · exact Table.eq_unknown_of_mem_nameNotes (htarget.imp_right And.left) hd

/-- An evaluation of a formula with what is offered notes nothing but columns not yet chosen. -/
theorem Formula.Offered.diagnostics {f : Formula} (hf : f.Offered t)
    (hblank : ∀ row ∈ t.rows, row[""]? = none) :
    ∀ d ∈ (f.evaluate t).diagnostics, d = .unknownColumn "" := by
  intro d hd
  rw [Formula.evaluate_eq] at hd
  rcases List.mem_append.mp hd with hd | hd
  · obtain ⟨b, hb, hd⟩ := List.mem_flatMap.mp hd
    exact (hf.blocks b hb).notes hblank hd
  · obtain ⟨op, hop, hd⟩ := List.mem_flatMap.mp hd
    cases op with
    | unsupported symbol => exact absurd rfl (hf.combinators _ hop symbol)
    | _ => cases hd

-- =============================================================== the runs

/-- Whether an action stays on the page: anything but an event from outside, with the exception of
a file that is opened and turns out to be no table. -/
def Page.Action.StaysOnPage : Page.Action → Prop
  | .event (.openFile source said) => (Event.openFile source said).loaded? = none
  | .event _ => False
  | _ => True

/-- The pages that are reached on a table: it is loaded into a fresh page, and from then on actions
stay on the page. -/
inductive Page.Authoring (t : Table) : Page → Prop
  | loaded {e : Event} (h : e.loaded? = some t) :
      Authoring t (({} : Page).step (.event e)).1
  | acted {p : Page} {a : Action} (hp : Authoring t p) (ha : a.StaysOnPage) :
      Authoring t (p.step a).1

/-- What holds of a session all along: its table is the one loaded, with its profile, its formula
holds what is offered on it, and so did the formula that the outcome is of. -/
structure Session.Authored (t : Table) (s : Session) : Prop where
  table : s.table = some t
  profile : s.profile = Profile.ofTable t
  formula : s.formula.Offered t
  outcome : ∀ o, s.outcome = some o → ∃ f : Formula, f.Offered t ∧ o = f.evaluate t

theorem Session.Authored.failed {s : Session} (h : s.Authored t) (text : String) :
    (s.failed text).Authored t := ⟨h.table, h.profile, h.formula, h.outcome⟩

/-- An edit keeps a session authored if it comes to a formula with what is offered. -/
theorem Session.Authored.edited {s : Session} (h : s.Authored t) {e : Edit}
    (hedit : ∀ g, s.formula.edited e = .ok g → g.Offered t) :
    (s.step (.edit e)).1.Authored t := by
  cases he : s.formula.edited e with
  | ok g =>
      rw [Session.step_edit_ok s he]
      exact ⟨h.table, h.profile, hedit g he, h.outcome⟩
  | error err =>
      rw [Session.step_edit_error s he]
      exact h.failed err.text

theorem Session.Authored.computed {s : Session} (h : s.Authored t) :
    (s.step .compute).1.Authored t := by
  rw [Session.step_compute, h.table]
  refine ⟨rfl, h.profile, h.formula, ?_⟩
  intro o ho
  exact ⟨s.formula, h.formula, (Option.some.inj ho).symm⟩

/-- A file that is no table leaves a session authored. -/
theorem Session.Authored.notLoaded {s : Session} (h : s.Authored t) {source : Storage.Source}
    {said : String} (hload : (Event.openFile source said).loaded? = none) :
    (s.step (.openFile source said)).1.Authored t := by
  rw [Event.loaded?] at hload
  cases hfile : Table.load source with
  | ok t' =>
      rw [hfile] at hload
      cases hload
  | error err =>
      rw [Session.step_openFile_error s hfile]
      exact h.failed (err.chain said)

/-- Drawing touches numbers only. -/
theorem Session.Authored.drawn {s : Session} (h : s.Authored t) : (Page.drawn s).Authored t := by
  unfold Page.drawn
  split
  case isTrue => exact h
  case isFalse =>
    refine ⟨h.table, h.profile, ⟨?_, h.formula.combinators⟩, h.outcome⟩
    intro b hb
    obtain ⟨b', hb', rfl⟩ := List.mem_map.mp hb
    cases b' with
    | constant x => exact trivial
    | conditional c target how => exact h.formula.blocks _ hb'

theorem Page.authored_loaded {e : Event} (h : e.loaded? = some t) :
    (({} : Page).step (.event e)).1.session.Authored t := by
  have hadopt : (({} : Session).adopt t).Authored t :=
    ⟨rfl, rfl, Formula.Offered.empty t, nofun⟩
  show (Page.drawn (({} : Session).step e).1).Authored t
  rw [Session.step_of_loaded _ h]
  exact hadopt.drawn

/-- An action that stays on the page asks for nothing that would take a session out of what is
offered. -/
theorem Page.authored_acted {p : Page} (h : p.session.Authored t) {a : Page.Action}
    (ha : a.StaysOnPage) : (p.step a).1.session.Authored t := by
  unfold Page.step
  cases hrequest : p.request a with
  | mk event response =>
    cases event with
    | none => exact h.drawn
    | some event =>
        refine Session.Authored.drawn ?_
        have hevent : (p.request a).1 = some event := by rw [hrequest]
        rcases Page.request_cases hevent with rfl | rfl | rfl | ⟨e, rfl, hsuggests⟩
        · -- of the events from outside only a file that is no table stays on the page
          cases event with
          | openFile source said => exact h.notLoaded ha
          | adopt t' => exact ha.elim
          | edit e => exact ha.elim
          | compute => exact ha.elim
        · refine h.edited ?_
          intro g hg
          injection hg with hg
          rw [← hg]
          exact h.formula.push (.blank t .constant)
        · exact h.computed
        · refine h.edited ?_
          intro g hg
          exact h.formula.edited h.table h.profile hsuggests hg

theorem Page.Authoring.authored {p : Page} (h : Page.Authoring t p) : p.session.Authored t := by
  induction h with
  | loaded h => exact authored_loaded h
  | acted _ ha ih => exact authored_acted ih ha

/-- A page after a list of actions. -/
def Page.after (p : Page) (as : List Page.Action) : Page := as.foldl (fun p a => (p.step a).1) p

/-- Any list of actions that stay on the page goes on with a run. -/
theorem Page.Authoring.after {p : Page} (h : Page.Authoring t p) {as : List Page.Action}
    (has : ∀ a ∈ as, a.StaysOnPage) : Page.Authoring t (p.after as) := by
  induction as generalizing p with
  | nil => exact h
  | cons a as ih =>
      have hfirst : Page.Authoring t (p.step a).1 := h.acted (has a List.mem_cons_self)
      exact ih hfirst fun a' ha' => has a' (List.mem_cons_of_mem a ha')

/-- A formula made on a page holds what the page offers on its table: no name that is not known, no
column that the table does not have, targets that are numeric, and on text columns comparisons and
values that make sense there. So if no row has a cell without a name, all that an evaluation notes
is that a column has not been chosen: of the formula as it is, and of the formula whose outcome the
page shows. -/
theorem Page.Authoring.formula_offered {p : Page} (h : Page.Authoring t p) :
    p.session.formula.Offered t
      ∧ ((∀ row ∈ t.rows, row[""]? = none) →
          (∀ d ∈ (p.session.formula.evaluate t).diagnostics, d = .unknownColumn "")
            ∧ ∀ o, p.session.outcome = some o → ∀ d ∈ o.diagnostics, d = .unknownColumn "") := by
  refine ⟨h.authored.formula, fun hblank => ⟨h.authored.formula.diagnostics hblank, ?_⟩⟩
  intro o ho
  obtain ⟨f, hf, rfl⟩ := h.authored.outcome o ho
  exact hf.diagnostics hblank

/-- A conditional block is made from a fresh one, down to a value and a target, then evaluated. -/
theorem Page.Authoring.formula_offered_conditional :
    let t : Table := ⟨["a", "b"], [Row.ofFields [("a", "1"), ("b", "x")]]⟩
    let p := (({} : Page).step (.event (.adopt t))).1.after
      [.press .addBlock, .choose .kind 0 1, .choose .column 0 1, .choose .value 0 0,
        .choose .target 0 0, .press .calculate]
    Page.Authoring t p ∧ (∀ row ∈ t.rows, row[""]? = none)
      ∧ p.session.formula.blocks = [.conditional { column := "b", value := "x" } "a" .sum]
      ∧ p.session.formula.Offered t
      ∧ ∀ d ∈ (p.session.formula.evaluate t).diagnostics, d = .unknownColumn "" := by
  intro t p
  have hstays : ∀ a ∈ [.press .addBlock, .choose .kind 0 1, .choose .column 0 1,
      .choose .value 0 0, .choose .target 0 0, .press .calculate], Page.Action.StaysOnPage a := by
    simp [Page.Action.StaysOnPage]
  have hrun : Page.Authoring t p := (Page.Authoring.loaded (e := .adopt t) rfl).after hstays
  have hblank : ∀ row ∈ t.rows, row[""]? = none := by decide +kernel
  have hblocks : p.session.formula.blocks
      = [.conditional { column := "b", value := "x" } "a" .sum] := by decide +kernel
  obtain ⟨hoffered, hnotes⟩ := Page.Authoring.formula_offered hrun
  exact ⟨hrun, hblank, hblocks, hoffered, (hnotes hblank).1⟩

end TableCalc
