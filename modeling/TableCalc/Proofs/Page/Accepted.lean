/-
Every edit that a page asks for is accepted. An edit is put together from the cards as they are
shown, and applied to the formula as it is then, so the two must not part: a card must not offer a
combinator that is not there, nor any edit of a block that is gone. They cannot, because a card is
made from its block and the formula around it, and what it offers is within the formula's lists as
soon as these are in step (`edited_of_suggests`).

A run is any list of actions on a fresh page that a user can do, tables being loaded over one
another and files failing to load included; only edits and evaluations that come past the page are
not a user's. `Steady` is what holds all along: blocks and combinators are in step, and every
constant is a number, so that drawing the page has nothing to put right (`drawn_eq`).

The status line is then left to the files: `loadStatus?` is what an action does to it, and the line
shows what the last such action left (`status_afterActions`).
-/

import TableCalc.Proofs.Number.Nearest
import TableCalc.Proofs.Page.Authoring

namespace TableCalc

namespace Page

variable {s : Session} {p : Page} {a : Action} {as : List Action} {e : Edit}

-- ============================================================ the statement

/-- Whether an action can be a user's: a table or a file comes from outside the page, but edits and
evaluations only by the page's own controls. -/
def Action.IsUsers : Action → Prop
  | .event (.edit _) => False
  | .event .compute => False
  | _ => True

/-- What an attempt to load leaves in the status line: nothing once a table is loaded, and the
failure of a file to be one. -/
def loadStatus? : Event → Option (Option String)
  | .adopt _ => some none
  | .openFile source said =>
    some ((History.wrong? (LoadError.chain said) (Table.load source)).map ("Error: " ++ ·))
  | _ => none

/-- The attempt to load that an action is, if it is one, by what it leaves in the status line. -/
def Action.loadStatus? : Action → Option (Option String)
  | .event e => Page.loadStatus? e
  | _ => none

/-- The page that actions make of a fresh one. -/
def afterActions (as : List Action) : Page := ({} : Page).after as

/-- A page stands by what it offers: the formula accepts whatever edit an action asks for, drawing
the page changes nothing, and no refused edit is logged. -/
structure Accepting (p : Page) : Prop where
  accepted : ∀ a : Action, a.IsUsers → ∀ e, (p.request a).1 = some (.edit e) →
    ∃ f, p.session.formula.edited e = .ok f
  drawn : drawn p.session = p.session
  log : ∀ a : Action, a.IsUsers → ∀ text,
    .error ("Formula edit failed: " ++ text) ∉ (p.step a).2.2

-- ========================================================== what is accepted

/-- A patch without a combinator needs no more than its block. -/
theorem edited_update {f : Formula} {i : Nat} {b : Block} {patch : Patch}
    (hb : f.blocks[i]? = some b) (hop : patch.combinator = none) :
    f.edited (.update i patch)
      = .ok { f with blocks := f.blocks.set i (b.patched patch) } := by
  simp only [Formula.edited, Formula.update, hb, hop]
  rfl

/-- A combinator needs a next block, and then there is one to replace. -/
theorem edited_join {f : Formula} (hf : f.WellFormed) {i : Nat} {b : Block} {op : Combinator}
    (hb : f.blocks[i]? = some b) (hlast : i + 1 < f.size) :
    f.edited (.join i op)
      = .ok ⟨f.blocks.set i (b.patched { combinator := some op }), f.combinators.set i op⟩ := by
  simp only [Formula.edited, Formula.setCombinator, Formula.update, hb, Formula.rejoined_eq hf,
    if_pos hlast]
  rfl

theorem edited_remove {f : Formula} {i : Nat} {b : Block} (hb : f.blocks[i]? = some b) :
    ∃ g, f.edited (.remove i) = .ok g := by
  simp only [Formula.edited, Formula.remove, hb]
  exact ⟨_, rfl⟩

theorem Offers.combinator_eq_none {columns : List String} {profile : Profile} {b : Block}
    {patch : Patch} (h : Offers columns profile b patch) : patch.combinator = none := by
  cases h <;> rfl

/-- What the cards suggest is within the lists of the formula. -/
theorem edited_of_suggests (hf : s.formula.WellFormed) (h : Suggests s e) :
    ∃ f, s.formula.edited e = .ok f := by
  obtain ⟨t, i, b, -, hb, hcard⟩ := h
  cases hcard with
  | remove => exact edited_remove hb
  | update hoffers => exact ⟨_, edited_update hb hoffers.combinator_eq_none⟩
  | join hlast _ _ => exact ⟨_, edited_join hf hb hlast⟩

theorem edited_of_request (hf : p.session.formula.WellFormed) (ha : a.IsUsers)
    (h : (p.request a).1 = some (.edit e)) : ∃ f, p.session.formula.edited e = .ok f := by
  rcases request_cases h with rfl | hpush | hcompute | ⟨e', he', hsuggests⟩
  · exact ha.elim
  · injection hpush with hpush
    rw [hpush]
    exact ⟨_, rfl⟩
  · cases hcompute
  · injection he' with he'
    rw [he']
    exact edited_of_suggests hf hsuggests

-- ================================================================= constants

/-- A block whose constant, if it is one, is a number. -/
def HoldsNumber : Block → Prop
  | .constant x => x.isNaN = false
  | .conditional .. => True

theorem holdsNumber_blank (k : BlockKind) : HoldsNumber k.blank := by
  cases k with
  | constant =>
      show Float.isNaN 0.0 = false
      decide +kernel
  | conditional => exact trivial

/-- No offer puts anything but a number into a constant. -/
theorem Offers.holdsNumber {columns : List String} {profile : Profile} {b : Block} {patch : Patch}
    (h : Offers columns profile b patch) (hb : HoldsNumber b) : HoldsNumber (b.patched patch) := by
  cases h with
  | kind _ k =>
      rcases b.patched_kind_eq_or k with hsame | hblank
      · rwa [hsame]
      · rw [hblank]
        exact holdsNumber_blank k
  | number present n => exact Number.isNaN_eq_false n.isFinite_or_isInf_value
  | _ => exact trivial

theorem drawnBlock_eq {b : Block} (hb : HoldsNumber b) : drawnBlock b = b := by
  cases b with
  | constant x =>
      have hnan : x.isNaN = false := hb
      show Block.constant (if x.isNaN then Number.infinite false else x) = _
      rw [hnan]
      rfl
  | conditional c target how => rfl

-- ============================================================== the invariant

/-- What holds of a session all along: blocks and combinators are in step, and constants are
numbers. -/
structure Steady (s : Session) : Prop where
  wellFormed : s.formula.WellFormed
  numbers : ∀ b ∈ s.formula.blocks, HoldsNumber b

/-- With numbers for constants there is nothing for drawing to put right. -/
theorem Steady.drawn_eq (h : Steady s) : drawn s = s := by
  have hblocks : s.formula.blocks.map drawnBlock = s.formula.blocks := by
    conv_rhs => rw [← List.map_id s.formula.blocks]
    exact List.map_congr_left fun b hb => drawnBlock_eq (h.numbers b hb)
  unfold drawn
  by_cases htable : s.table.isNone = true
  · rw [if_pos htable]
  · rw [if_neg htable, hblocks]

theorem Steady.of_formula_eq {s' : Session} (h : Steady s) (heq : s'.formula = s.formula) :
    Steady s' := ⟨heq ▸ h.wellFormed, heq ▸ h.numbers⟩

theorem Steady.push_fresh (h : Steady s) {f : Formula}
    (hf : s.formula.edited (.push .fresh) = .ok f) : ∀ b ∈ f.blocks, HoldsNumber b := by
  injection hf with hf
  rw [← hf]
  intro b hb
  rcases List.mem_append.mp hb with hb | hb
  · exact h.numbers b hb
  · rw [List.mem_singleton.mp hb]
    exact holdsNumber_blank .constant

theorem Steady.suggested (h : Steady s) (hsuggests : Suggests s e) {f : Formula}
    (hf : s.formula.edited e = .ok f) : ∀ b ∈ f.blocks, HoldsNumber b := by
  obtain ⟨t, i, b, -, hb, hcard⟩ := hsuggests
  have hnumber : HoldsNumber b := h.numbers b (List.mem_of_getElem? hb)
  intro b' hb'
  cases hcard with
  | remove =>
      obtain ⟨removed, hr⟩ := Formula.edited_remove_ok hf
      obtain ⟨-, rfl⟩ := Formula.remove_ok hr
      exact h.numbers b' (List.mem_of_mem_eraseIdx hb')
  | update hoffers =>
      rw [edited_update hb hoffers.combinator_eq_none] at hf
      injection hf with hf
      rw [← hf] at hb'
      rcases List.mem_or_eq_of_mem_set hb' with hb' | rfl
      · exact h.numbers b' hb'
      · exact hoffers.holdsNumber hnumber
  | join hlast _ _ =>
      rw [edited_join h.wellFormed hb hlast] at hf
      injection hf with hf
      rw [← hf] at hb'
      rcases List.mem_or_eq_of_mem_set hb' with hb' | rfl
      · exact h.numbers b' hb'
      · rw [b.patched_combinator]
        exact hnumber

/-- An edit that is accepted, and puts no more than numbers in, is one step of a steady session. -/
theorem Steady.edited (h : Steady s) {f : Formula} (hf : s.formula.edited e = .ok f)
    (hnumbers : ∀ b ∈ f.blocks, HoldsNumber b) : Steady (s.step (.edit e)).1 := by
  rw [Session.step_edit_ok s hf]
  exact ⟨Formula.wellFormed_edited h.wellFormed hf, hnumbers⟩

-- ================================================================== one action

/-- Files and evaluations leave the formula alone. -/
theorem formula_step_of_not_edit {event : Event} (h : ∀ e, event ≠ .edit e) :
    (s.step event).1.formula = s.formula := by
  cases event with
  | adopt t => rfl
  | openFile source said =>
      cases hload : Table.load source with
      | ok t => rw [Session.step_openFile_ok s hload]; rfl
      | error err => rw [Session.step_openFile_error s hload]; rfl
  | edit e => exact absurd rfl (h e)
  | compute => rw [Session.step_compute]

/-- The session after the event that an action asks for, if it asks for one. -/
def requested (p : Page) (a : Action) : Session :=
  match (p.request a).1 with
  | none => p.session
  | some event => (p.session.step event).1

theorem session_step (p : Page) (a : Action) : (p.step a).1.session = drawn (p.requested a) := by
  unfold step requested
  cases p.request a with
  | mk event response =>
    cases event with
    | none => rfl
    | some event => rfl

/-- What is logged on an action is what the session logs of the event asked for. -/
theorem log_step (p : Page) (a : Action) : (p.step a).2.2 =
    match (p.request a).1 with
    | none => []
    | some event => (p.session.step event).2 := by
  unfold step
  cases p.request a with
  | mk event response =>
    cases event with
    | none => rfl
    | some event => rfl

theorem Steady.requested (h : Steady p.session) (ha : a.IsUsers) : Steady (p.requested a) := by
  unfold Page.requested
  cases hevent : (p.request a).1 with
  | none => exact h
  | some event =>
      by_cases hedit : ∃ e, event = .edit e
      · obtain ⟨e, rfl⟩ := hedit
        obtain ⟨f, hf⟩ := edited_of_request h.wellFormed ha hevent
        refine h.edited hf ?_
        rcases request_cases hevent with rfl | hpush | hcompute | ⟨e', he', hsuggests⟩
        · exact ha.elim
        · injection hpush with hpush
          rw [hpush] at hf
          exact h.push_fresh hf
        · cases hcompute
        · injection he' with he'
          rw [← he'] at hsuggests
          exact h.suggested hsuggests hf
      · exact h.of_formula_eq (formula_step_of_not_edit fun e he => hedit ⟨e, he⟩)

theorem Steady.step (h : Steady p.session) (ha : a.IsUsers) : Steady (p.step a).1.session := by
  have hnext := h.requested ha
  rw [session_step, hnext.drawn_eq]
  exact hnext

-- =================================================================== the log

/-- The two kinds of failure are told apart by their second letter. -/
theorem loadLine_ne_editLine (text text' : String) :
    LogLine.error ("Failed to load file: " ++ text)
      ≠ .error ("Formula edit failed: " ++ text') := by
  intro heq
  injection heq with heq
  have hchars := congrArg String.toList heq
  simp at hchars

theorem log_openFile (s : Session) (source : Storage.Source) (said : String) :
    (s.step (.openFile source said)).2 =
      ((History.wrong? (LoadError.chain said) (Table.load source)).map
        fun text => LogLine.error ("Failed to load file: " ++ text)).toList := by
  delta Session.step Session.openFile
  cases hload : Table.load source with
  | ok t => simp only [hload, History.wrong?, Option.map_none, Option.toList_none]
  | error err => simp only [hload, History.wrong?, Option.map_some, Option.toList_some]

theorem editLine_not_mem_log {event : Event}
    (h : ∀ e, event = .edit e → ∃ f, s.formula.edited e = .ok f) (text : String) :
    .error ("Formula edit failed: " ++ text) ∉ (s.step event).2 := by
  intro hmem
  cases event with
  | adopt t => cases hmem
  | openFile source said =>
      rw [log_openFile, Option.mem_toList] at hmem
      obtain ⟨chain, -, hline⟩ := Option.map_eq_some_iff.mp hmem
      exact loadLine_ne_editLine chain text hline
  | edit e =>
      obtain ⟨f, hf⟩ := h e rfl
      rw [Session.step, Session.edit, hf] at hmem
      cases hmem
  | compute =>
      rw [Session.step, Session.compute] at hmem
      cases htable : s.table with
      | none => rw [htable] at hmem; cases hmem
      | some t =>
          rw [htable] at hmem
          obtain ⟨d, -, hd⟩ := List.mem_map.mp hmem
          cases hd

theorem Steady.accepting (h : Steady p.session) : Accepting p where
  accepted := fun _ ha _ he => edited_of_request h.wellFormed ha he
  drawn := h.drawn_eq
  log := by
    intro a ha text
    rw [log_step]
    cases hevent : (p.request a).1 with
    | none => exact List.not_mem_nil
    | some event =>
        refine editLine_not_mem_log ?_ text
        rintro e rfl
        exact edited_of_request h.wellFormed ha hevent

-- ================================================================ the status

theorem status_drawn (s : Session) : (drawn s).status = s.status := by
  unfold drawn
  split
  · rfl
  · rfl

/-- An event whose edit is accepted touches the status line only as an attempt to load. -/
theorem status_session_step {event : Event}
    (h : ∀ e, event = .edit e → ∃ f, s.formula.edited e = .ok f) :
    (s.step event).1.status = (loadStatus? event).getD s.status := by
  cases event with
  | adopt t => rfl
  | openFile source said =>
      rw [loadStatus?, Option.getD_some]
      cases hload : Table.load source with
      | ok t => rw [Session.step_openFile_ok s hload]; rfl
      | error err => rw [Session.step_openFile_error s hload]; rfl
  | edit e =>
      obtain ⟨f, hf⟩ := h e rfl
      rw [Session.step_edit_ok s hf]
      rfl
  | compute =>
      rw [Session.step_compute]
      rfl

/-- The page itself asks only for edits and evaluations; what loads comes from outside. -/
theorem loadStatus?_of_request (p : Page) (a : Action) :
    a.loadStatus? = (p.request a).1.bind loadStatus? := by
  by_cases hout : ∃ event, a = .event event
  · obtain ⟨event, rfl⟩ := hout
    rfl
  · have hnone : a.loadStatus? = none := by
      cases a with
      | event event => exact absurd ⟨event, rfl⟩ hout
      | _ => rfl
    rw [hnone]
    cases hevent : (p.request a).1 with
    | none => rfl
    | some event =>
        rcases request_cases hevent with ha | rfl | rfl | ⟨e, rfl, -⟩
        · exact absurd ⟨event, ha⟩ hout
        · rfl
        · rfl
        · rfl

theorem status_step (h : Steady p.session) (ha : a.IsUsers) :
    (p.step a).1.session.status = a.loadStatus?.getD p.session.status := by
  rw [session_step, status_drawn, requested, loadStatus?_of_request p a]
  cases hevent : (p.request a).1 with
  | none => rfl
  | some event =>
      refine status_session_step ?_
      rintro e rfl
      exact edited_of_request h.wellFormed ha hevent

-- =================================================================== the runs

theorem afterActions_concat (as : List Action) (a : Action) :
    afterActions (as ++ [a]) = ((afterActions as).step a).1 := by
  rw [afterActions, after, List.foldl_append]
  rfl

theorem steady_afterActions (h : ∀ a ∈ as, a.IsUsers) : Steady (afterActions as).session := by
  induction as using List.reverseRecOn with
  | nil => exact ⟨Formula.wellFormed_empty, nofun⟩
  | append_singleton as a ih =>
      rw [afterActions_concat]
      refine Steady.step (ih fun a' ha' => h a' ?_) (h a ?_)
      · exact List.mem_append_left _ ha'
      · exact List.mem_append_right _ (List.mem_singleton_self a)

/-- The status line shows what the last action that loads, or fails to, left in it. -/
theorem status_afterActions (h : ∀ a ∈ as, a.IsUsers) :
    (afterActions as).session.status = (as.filterMap Action.loadStatus?).getLast?.getD none := by
  induction as using List.reverseRecOn with
  | nil => rfl
  | append_singleton as a ih =>
      have has : ∀ a' ∈ as, a'.IsUsers := fun a' ha' => h a' (List.mem_append_left _ ha')
      have ha : a.IsUsers := h a (List.mem_append_right _ (List.mem_singleton_self a))
      rw [afterActions_concat, status_step (steady_afterActions has) ha, ih has,
        History.getLast?_filterMap_concat]
      cases a.loadStatus? with
      | none => rfl
      | some status => rfl

/-- A status message is the failure of some file that was opened. -/
theorem status_eq_of_load {text : String}
    (htext : (as.filterMap Action.loadStatus?).getLast?.getD none = some text) :
    ∃ source said err, .event (.openFile source said) ∈ as ∧ Table.load source = .error err
      ∧ text = "Error: " ++ err.chain said := by
  cases hlast : (as.filterMap Action.loadStatus?).getLast? with
  | none => rw [hlast] at htext; cases htext
  | some status =>
      rw [hlast] at htext
      obtain ⟨a, ha, hstatus⟩ := List.mem_filterMap.mp (List.mem_of_getLast? hlast)
      have hsome : a.loadStatus? = some (some text) := by
        rw [hstatus]
        exact congrArg some htext
      cases a with
      | event event =>
          cases event with
          | openFile source said =>
              injection hsome with hsome
              obtain ⟨chain, hchain, rfl⟩ := Option.map_eq_some_iff.mp hsome
              cases hload : Table.load source with
              | ok t => rw [hload] at hchain; cases hchain
              | error err =>
                  rw [hload] at hchain
                  injection hchain with hchain
                  exact ⟨source, said, err, ha, hload, by rw [hchain]⟩
          | adopt t => injection hsome with hsome; cases hsome
          | _ => cases hsome
      | _ => cases hsome

/-- Whatever a user does on a fresh page, with whatever files, every edit that the next action asks
for is accepted, drawing the page makes none of its own, and nothing is logged of a refused one. The
status line is as the last attempt to load left it, so a message in it is the failure of a file. -/
theorem edits_accepted (h : ∀ a ∈ as, a.IsUsers) :
    (afterActions as).Accepting
      ∧ (afterActions as).session.status
          = (as.filterMap Action.loadStatus?).getLast?.getD none
      ∧ ∀ text, (afterActions as).session.status = some text →
          ∃ source said err, .event (.openFile source said) ∈ as
            ∧ Table.load source = .error err ∧ text = "Error: " ++ err.chain said := by
  have hstatus := status_afterActions h
  refine ⟨(steady_afterActions h).accepting, hstatus, ?_⟩
  intro text htext
  rw [hstatus] at htext
  exact status_eq_of_load htext

/-- A missing file is no table, whatever its name says. -/
theorem load_absent (path : String) : ∃ err, Table.load ⟨path, .absent⟩ = .error err := by
  unfold Table.load
  split
  · exact ⟨_, rfl⟩
  · exact ⟨_, rfl⟩
  · exact ⟨_, rfl⟩

/-- Two blocks are made and joined anew, the table is replaced in between, the last block goes, and
then a file is opened that is not there. -/
theorem edits_accepted_replaced :
    let t : Table := ⟨["a"], [Row.ofFields [("a", "1")]]⟩
    let made : List Action := [.event (.adopt t), .press .addBlock, .press .addBlock,
      .choose .combinator 0 3, .event (.adopt ⟨[], []⟩), .type .number 1 "-0", .remove 1]
    let missing : Storage.Source := ⟨"sales.csv", .absent⟩
    let as := made ++ [.event (.openFile missing "")]
    (∀ a ∈ as, a.IsUsers) ∧ (afterActions made).session.formula.size = 1
      ∧ (afterActions as).Accepting
      ∧ ∃ err, Table.load missing = .error err
          ∧ (afterActions as).session.status = some ("Error: " ++ err.chain "") := by
  intro t made missing as
  have husers : ∀ a ∈ as, a.IsUsers := by simp [as, made, Action.IsUsers]
  have hsize : (afterActions made).session.formula.size = 1 := by decide +kernel
  obtain ⟨err, hload⟩ := load_absent "sales.csv"
  obtain ⟨haccepting, hstatus, -⟩ := edits_accepted husers
  refine ⟨husers, hsize, haccepting, err, hload, ?_⟩
  rw [hstatus, History.getLast?_filterMap_concat]
  simp [Action.loadStatus?, loadStatus?, missing, hload, History.wrong?]

end Page

end TableCalc
