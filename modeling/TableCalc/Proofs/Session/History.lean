/-
What a session remembers. A session is built up event by event, each event changing some of its five
parts; read from the other end, every part belongs to a moment of the past:

- the table is the one loaded last, and the profile is that table's;
- the formula is what all the edits so far have made of the empty one;
- the outcome is that of the last evaluation that had a table, on the table and the formula of
  *that* moment, whatever came later;
- the status line is the last failure since the last table was loaded, if there is one.

The second reading is the definitions of the first section: plain functions of the list of events,
which know nothing of `Session.step`. A moment is an event with the events before it, so that "the
formula at that time" is the formula of a shorter list. `Recalls` says that a session is as its
events make it; `Recalls.step` is the one step, a case for each event, and `session_recalls` the
run, along with what an event leaves alone (`Keeps`).
-/

import Mathlib.Data.List.DropRight
import TableCalc.Proofs.Formula.Edits

namespace TableCalc

-- ============================================================= the history

namespace Event

/-- The table that an event loads, if it loads one. -/
def loaded? : Event → Option Table
  | .adopt t => some t
  | .openFile source _ => (Table.load source).toOption
  | _ => none

/-- The edit that an event is, if it is one. -/
def edit? : Event → Option Edit
  | .edit e => some e
  | _ => none

end Event

namespace History

/-- The table of a list of events: the one loaded last. -/
def table (es : List Event) : Option Table := (es.filterMap Event.loaded?).getLast?

/-- The formula of a list of events: what its edits make of the empty one, one after the other. -/
def formula (es : List Event) : Formula := Formula.afterEdits (es.filterMap Event.edit?)

/-- The events of a list as moments, each after those before it. -/
def momentsFrom (before : List Event) : List Event → List (List Event × Event)
  | [] => []
  | e :: es => (before, e) :: momentsFrom (before ++ [e]) es

/-- The moments of a list of events. -/
def moments (es : List Event) : List (List Event × Event) := momentsFrom [] es

/-- The outcome that a moment brings: an evaluation of the formula of that moment on the table of
that moment. -/
def evaluated? : List Event × Event → Option Outcome
  | (before, .compute) => (table before).map (formula before).evaluate
  | _ => none

/-- What went wrong, in words, if anything did. -/
def wrong? {ε α : Type} (text : ε → String) : Except ε α → Option String
  | .ok _ => none
  | .error e => some (text e)

/-- The failure that a moment brings: of a file to be a table, with what its reader said of it, or
of an edit on the formula of that moment. -/
def failure? : List Event × Event → Option String
  | (_, .openFile source said) => wrong? (LoadError.chain said) (Table.load source)
  | (before, .edit e) => wrong? EditError.text ((formula before).edited e)
  | _ => none

/-- The outcome of a list of events: the last one that was brought. -/
def outcome (es : List Event) : Option Outcome := ((moments es).filterMap evaluated?).getLast?

/-- The failures since a table was loaded, or since the start. -/
def failures (es : List Event) : List String :=
  ((moments es).rtakeWhile fun m => m.2.loaded?.isNone).filterMap failure?

/-- The status line of a list of events: the last of the failures since a table was loaded. -/
def status (es : List Event) : Option String := (failures es).getLast?.map ("Error: " ++ ·)

end History

namespace Session

/-- The session after a list of events. -/
def after (es : List Event) : Session := es.foldl (fun s e => (s.step e).1) {}

/-- A session is as its events make it. -/
structure Recalls (es : List Event) (s : Session) : Prop where
  table : s.table = History.table es
  profile : s.profile = (s.table.map Profile.ofTable).getD {}
  formula : s.formula = History.formula es
  outcome : s.outcome = History.outcome es
  status : s.status = History.status es

/-- What an event leaves alone. Loading a table leaves the formula and the outcome; a file that is
no table changes nothing but the status line, and neither does an edit that is refused; an edit that
goes through changes the formula alone, and an evaluation the outcome alone. -/
structure Keeps (s s' : Session) (e : Event) : Prop where
  loaded : ∀ t, e.loaded? = some t → s'.formula = s.formula ∧ s'.outcome = s.outcome
  notLoaded : ∀ source said err, e = .openFile source said → Table.load source = .error err →
    s' = { s with status := s'.status }
  edited : ∀ edit f, e = .edit edit → s.formula.edited edit = .ok f →
    s' = { s with formula := s'.formula }
  refused : ∀ edit err, e = .edit edit → s.formula.edited edit = .error err →
    s' = { s with status := s'.status }
  computed : e = .compute → s' = { s with outcome := s'.outcome }

end Session

-- ========================================================= one more event

namespace History

theorem momentsFrom_concat (before es : List Event) (e : Event) :
    momentsFrom before (es ++ [e]) = momentsFrom before es ++ [(before ++ es, e)] := by
  induction es generalizing before with
  | nil =>
      rw [List.append_nil]
      rfl
  | cons e' es ih =>
      rw [List.cons_append, momentsFrom, ih, momentsFrom, List.append_assoc]
      rfl

theorem moments_concat (es : List Event) (e : Event) :
    moments (es ++ [e]) = moments es ++ [(es, e)] := momentsFrom_concat [] es e

/-- The last thing read off a list is read off its last item, or else off the items before. -/
theorem getLast?_filterMap_concat {α β : Type} (f : α → Option β) (xs : List α) (x : α) :
    ((xs ++ [x]).filterMap f).getLast? = (f x).or (xs.filterMap f).getLast? := by
  rw [List.filterMap_append, List.getLast?_append]
  cases hx : f x with
  | none => simp [hx]
  | some y => simp [hx]

theorem table_concat (es : List Event) (e : Event) :
    table (es ++ [e]) = e.loaded?.or (table es) :=
  getLast?_filterMap_concat Event.loaded? es e

theorem formula_concat (es : List Event) (e : Event) :
    formula (es ++ [e]) = match e.edit? with
      | some edit => (formula es).attempted edit
      | none => formula es := by
  rw [formula, List.filterMap_append]
  cases he : e.edit? with
  | none => simp [he, formula]
  | some edit => simp [he, formula, Formula.afterEdits_concat]

theorem outcome_concat (es : List Event) (e : Event) :
    outcome (es ++ [e]) = (evaluated? (es, e)).or (outcome es) := by
  rw [outcome, moments_concat]
  exact getLast?_filterMap_concat evaluated? (moments es) (es, e)

/-- A table that is loaded clears the status line. -/
theorem status_concat_of_loaded (es : List Event) {e : Event} {t : Table}
    (he : e.loaded? = some t) : status (es ++ [e]) = none := by
  rw [status, failures, moments_concat, List.rtakeWhile_concat_neg]
  · rfl
  · simp [he]

/-- What loads no table puts its failure into the status line, if it fails. -/
theorem status_concat_of_not_loaded (es : List Event) {e : Event} (he : e.loaded? = none) :
    status (es ++ [e]) = ((failure? (es, e)).map ("Error: " ++ ·)).or (status es) := by
  rw [status, failures, moments_concat, List.rtakeWhile_concat_pos _ _ _ (by simp [he]),
    getLast?_filterMap_concat]
  cases failure? (es, e) with
  | none => rfl
  | some text => rfl

end History

-- =============================================================== the runs

namespace Session

variable {es : List Event} {s : Session}

theorem after_concat (es : List Event) (e : Event) :
    after (es ++ [e]) = ((after es).step e).1 := by
  rw [after, List.foldl_append]
  rfl

theorem recalls_start : Recalls [] {} := ⟨rfl, rfl, rfl, rfl, rfl⟩

-- `Table.load` is not to be computed here, so these two unfold the step around it and no further.

theorem step_openFile_ok (s : Session) {source : Storage.Source} {said : String} {t : Table}
    (h : Table.load source = .ok t) : (s.step (.openFile source said)).1 = s.adopt t := by
  delta Session.step Session.openFile
  simp only [h]

theorem step_openFile_error (s : Session) {source : Storage.Source} {said : String}
    {err : LoadError} (h : Table.load source = .error err) :
    (s.step (.openFile source said)).1 = s.failed (err.chain said) := by
  delta Session.step Session.openFile
  simp only [h]

-- the words behind the stage are the reader's, for a list that is opened and never closed
example : (({} : Session).failed ((LoadError.jsonParsing .ended).chain
    "EOF while parsing a list at line 1 column 1")).status
      = some "Error: parsing JSON: EOF while parsing a list at line 1 column 1" := rfl

theorem step_edit_ok (s : Session) {e : Edit} {f : Formula} (h : s.formula.edited e = .ok f) :
    (s.step (.edit e)).1 = { s with formula := f } := by
  rw [Session.step, Session.edit, h]

theorem step_edit_error (s : Session) {e : Edit} {err : EditError}
    (h : s.formula.edited e = .error err) : (s.step (.edit e)).1 = s.failed err.text := by
  rw [Session.step, Session.edit, h]

theorem step_compute (s : Session) : (s.step .compute).1 =
    { s with outcome := (s.table.map s.formula.evaluate).or s.outcome } := by
  obtain ⟨table, profile, formula, outcome, status⟩ := s
  cases table with
  | none => rfl
  | some t => rfl

/-- What loads a table has it taken up. -/
theorem step_of_loaded (s : Session) {e : Event} {t : Table} (h : e.loaded? = some t) :
    (s.step e).1 = s.adopt t := by
  cases e with
  | adopt t' =>
      rw [Event.loaded?] at h
      rw [← Option.some.inj h]
      rfl
  | openFile source said =>
      rw [Event.loaded?] at h
      cases hload : Table.load source with
      | ok t' =>
          rw [hload] at h
          rw [step_openFile_ok s hload, ← Option.some.inj h]
      | error err =>
          rw [hload] at h
          cases h
  | edit e => cases h
  | compute => cases h

/-- A table taken up is the table last loaded, and clears the status line. -/
theorem Recalls.adopted (h : Recalls es s) {e : Event} {t : Table} (he : e.loaded? = some t)
    (hedit : e.edit? = none) (hmoment : History.evaluated? (es, e) = none) :
    Recalls (es ++ [e]) (s.adopt t) where
  table := by
    rw [History.table_concat, he]
    rfl
  profile := rfl
  formula := by
    rw [History.formula_concat, hedit]
    exact h.formula
  outcome := by
    rw [History.outcome_concat, hmoment]
    exact h.outcome
  status := by
    rw [History.status_concat_of_loaded es he]
    rfl

/-- A failure is what the status line shows from then on, and all else stays. -/
theorem Recalls.failed (h : Recalls es s) {e : Event} {text : String} (he : e.loaded? = none)
    (hformula : History.formula (es ++ [e]) = History.formula es)
    (hmoment : History.evaluated? (es, e) = none) (hfail : History.failure? (es, e) = some text) :
    Recalls (es ++ [e]) (s.failed text) where
  table := by
    rw [History.table_concat, he]
    exact h.table
  profile := h.profile
  formula := by
    rw [hformula]
    exact h.formula
  outcome := by
    rw [History.outcome_concat, hmoment]
    exact h.outcome
  status := by
    rw [History.status_concat_of_not_loaded es he, hfail]
    rfl

/-- An edit that goes through touches the formula alone. -/
theorem Recalls.edited (h : Recalls es s) {e : Edit} {f : Formula}
    (he : s.formula.edited e = .ok f) : Recalls (es ++ [.edit e]) { s with formula := f } where
  table := by
    rw [History.table_concat]
    exact h.table
  profile := h.profile
  formula := by
    rw [h.formula] at he
    rw [History.formula_concat]
    exact (Formula.attempted_ok he).symm
  outcome := by
    rw [History.outcome_concat]
    exact h.outcome
  status := by
    rw [h.formula] at he
    rw [History.status_concat_of_not_loaded es rfl, History.failure?, he]
    exact h.status

/-- An evaluation is of the table and the formula there are at its moment. -/
theorem Recalls.computed (h : Recalls es s) : Recalls (es ++ [.compute]) (s.step .compute).1 := by
  have hmoment : History.evaluated? (es, .compute) = s.table.map s.formula.evaluate := by
    rw [History.evaluated?, ← h.table, ← h.formula]
  rw [step_compute]
  refine ⟨?_, h.profile, ?_, ?_, ?_⟩
  · rw [History.table_concat]
    exact h.table
  · rw [History.formula_concat]
    exact h.formula
  · rw [History.outcome_concat, hmoment, ← h.outcome]
  · rw [History.status_concat_of_not_loaded es rfl]
    exact h.status

/-- One more event leaves a session as its events make it. -/
theorem Recalls.step (h : Recalls es s) (e : Event) : Recalls (es ++ [e]) (s.step e).1 := by
  cases e with
  | adopt t => exact h.adopted rfl rfl rfl
  | openFile source said =>
      cases hload : Table.load source with
      | ok t =>
          rw [step_openFile_ok s hload]
          refine h.adopted ?_ rfl rfl
          rw [Event.loaded?, hload]
          rfl
      | error err =>
          rw [step_openFile_error s hload]
          refine h.failed ?_ ?_ rfl ?_
          · rw [Event.loaded?, hload]
            rfl
          · rw [History.formula_concat]
            rfl
          · rw [History.failure?, hload]
            rfl
  | edit e =>
      cases hedit : s.formula.edited e with
      | ok f =>
          rw [step_edit_ok s hedit]
          exact h.edited hedit
      | error err =>
          rw [step_edit_error s hedit]
          rw [h.formula] at hedit
          refine h.failed rfl ?_ rfl ?_
          · rw [History.formula_concat]
            exact Formula.attempted_error hedit
          · rw [History.failure?, hedit]
            rfl
  | compute => exact h.computed

/-- What an event leaves alone, it leaves alone in every session. -/
theorem keeps_step (s : Session) (e : Event) : Keeps s (s.step e).1 e where
  loaded := by
    intro t h
    rw [step_of_loaded s h]
    exact ⟨rfl, rfl⟩
  notLoaded := by
    rintro source said err rfl h
    rw [step_openFile_error s h]
    rfl
  edited := by
    rintro edit f rfl h
    rw [step_edit_ok s h]
  refused := by
    rintro edit err rfl h
    rw [step_edit_error s h]
    rfl
  computed := by
    rintro rfl
    rw [step_compute]

theorem recalls_after (es : List Event) : Recalls es (after es) := by
  induction es using List.reverseRecOn with
  | nil => exact recalls_start
  | append_singleton es e ih =>
      rw [after_concat]
      exact ih.step e

/-- After any events a session is as the events make it: the table loaded last with its profile,
the formula of all the edits, the outcome of the last evaluation that had a table, on the table and
the formula of that moment, and the last failure since a table was loaded. And whatever event comes
next changes no other part than its own. -/
theorem session_recalls (es : List Event) :
    Recalls es (after es) ∧ ∀ e, Keeps (after es) (after (es ++ [e])) e := by
  refine ⟨recalls_after es, ?_⟩
  intro e
  rw [after_concat]
  exact keeps_step (after es) e

end Session

end TableCalc
