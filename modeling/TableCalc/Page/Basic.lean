/-
The page: what it shows of a session, as the texts on it from top to bottom, and what the actions
on it do. The page itself remembers one thing, which of the sections with warnings stand open; all
else is the session's.
-/

import TableCalc.Page.Card

namespace TableCalc

/-- A page: the session that it shows, and the sections of warnings that stand open. A section is
known by its header, hence by the number of its warnings. -/
structure Page where
  session : Session := {}
  openSections : List Nat := []

namespace Page

-- ================================================================== texts

/-- The bar at the top: the menu, the size of the table, and the status line. -/
def barTexts (s : Session) : List String :=
  "File" ::
    (s.table.toList.map fun t => s!"Loaded {t.size} rows, {t.columns.length} columns") ++
    s.status.toList

/-- The table: its columns, then its cells row by row. -/
def tableTexts (t : Table) : List String :=
  "Data" ::
    if t.isEmpty then ["The file has no rows."]
    else t.columns ++ t.rows.flatMap fun row => t.columns.map fun c => row[c]?.getD ""

/-- The formula: its cards and the two buttons. -/
def formulaTexts (s : Session) : List String :=
  "Formula" :: (cards s).flatMap (·.flatMap Control.texts) ++ ["Add Formula Block", "Calculate"]

/-- A number among the results. -/
def numberText (x : Float) : String := String.ofList (Number.pageLayout.render x)

/-- The values of the blocks, and the result. -/
def valueTexts (o : Outcome) : List String :=
  (o.interim.zipIdx.map fun (x, i) => s!"Block {i + 1}: {numberText x}") ++
    o.result.toList.map fun x => s!"Final Result: {numberText x}"

/-- The warnings: a header with their number, and while its section is open the warnings. -/
def warningTexts (openSections : List Nat) (o : Outcome) : List String :=
  let count := o.diagnostics.length
  if count = 0 then []
  else s!"Warnings ({count})" ::
    if openSections.contains count then o.diagnostics.map Diagnostic.text else []

/-- The outcome that has results to show, if there is one. -/
def shownOutcome? (s : Session) : Option Outcome :=
  if s.table.isSome then s.outcome.filter fun o => !o.interim.isEmpty else none

/-- The results. -/
def resultTexts (p : Page) : List String :=
  match shownOutcome? p.session with
  | none => []
  | some o => ["Calculation Results", "Interim Values:"] ++ valueTexts o ++
      warningTexts p.openSections o

/-- All texts on the page. -/
def texts (p : Page) : List String :=
  barTexts p.session ++
    match p.session.table with
    | none => ["Open a CSV file to start  (File → Open…)"]
    | some t => tableTexts t ++ formulaTexts p.session ++ resultTexts p

-- ================================================================ actions

/-- The buttons below the cards. -/
inductive Button where
  | addBlock
  | calculate
  deriving DecidableEq, Repr

/-- What can be done to a page. Blocks, entries and columns are counted from 0. -/
inductive Action where
  /-- Something that does not come from the page itself. -/
  | event (e : Event)
  | press (button : Button)
  /-- Clicks the button that removes a block. -/
  | remove (block : Nat)
  /-- Opens a list and clicks an entry; with no such entry the list is closed again. -/
  | choose (selector : Selector) (block entry : Nat)
  /-- Types a text over the one that a field has. -/
  | type (field : Field) (block : Nat) (text : String)
  /-- Opens the menu and closes it. -/
  | menu
  /-- Clicks the header of the warnings. -/
  | warnings
  /-- Rests on a column's name in the table. -/
  | hoverColumn (column : Nat)
  /-- Rests on the button that removes a block. -/
  | hoverRemove (block : Nat)

/-- What an action shows at once. -/
inductive Response where
  | nothing
  /-- What was to be acted on is not on the page. -/
  | absent
  /-- The entries of a list, or the lines of a tooltip. -/
  | entries (texts : List String)
  deriving DecidableEq, Repr

/-- The entries of a card's list, if the card has that list. -/
def listEntries? (selector : Selector) (card : List Control) : Option (List (String × Edit)) :=
  card.findSome? fun
    | .list which _ entries => if which = selector then some entries else none
    | _ => none

/-- What typing into a card's field does, if the card has that field. -/
def typing? (field : Field) (card : List Control) : Option (String → Option Edit) :=
  card.findSome? fun
    | .field which _ typed => if which = field then some typed else none
    | _ => none

/-- The text that a field takes of what is typed over its own. A line end typed alone is no text but
the end of typing, so the field keeps what it has; within a text it is a character like any
other. -/
def taken? (text : String) : Option String :=
  if text = "\n" ∨ text = "\r" then none else some text

/-- The edit of a card's button. -/
def removal? (card : List Control) : Option Edit :=
  card.findSome? fun
    | .remove edit => some edit
    | _ => none

/-- What an action asks of the session, if anything, and what it shows. -/
def request (p : Page) : Action → Option Event × Response
  | .event e => (some e, .nothing)
  | .press button =>
    if p.session.table.isNone then (none, .absent)
    else match button with
      | .addBlock => (some (.edit (.push .fresh)), .nothing)
      | .calculate => (some .compute, .nothing)
  | .remove block =>
    match (cards p.session)[block]?.bind removal? with
    | none => (none, .absent)
    | some edit => (some (.edit edit), .nothing)
  | .choose selector block entry =>
    match (cards p.session)[block]?.bind (listEntries? selector) with
    | none => (none, .absent)
    | some entries => (entries[entry]?.map fun e => .edit e.2, .entries (entries.map (·.1)))
  | .type field block text =>
    match (cards p.session)[block]?.bind (typing? field) with
    | none => (none, .absent)
    | some typed => (((taken? text).bind typed).map .edit, .nothing)
  | .menu => (none, .entries ["Open…"])
  | .warnings =>
    match shownOutcome? p.session with
    | none => (none, .absent)
    | some o => (none, if o.diagnostics.isEmpty then .absent else .nothing)
  | .hoverColumn column =>
    match p.session.table.filter fun t => !t.isEmpty with
    | none => (none, .absent)
    | some t =>
      match t.columns[column]? with
      | none => (none, .absent)
      | some name =>
        (none, .entries [((p.session.profile.kind? name).map ColumnKind.name).getD ""])
  | .hoverRemove block =>
    match (cards p.session)[block]?.bind removal? with
    | none => (none, .absent)
    | some _ => (none, .entries ["Remove block"])

/-- The open sections after a click on a header. -/
def toggled (openSections : List Nat) (count : Nat) : List Nat :=
  if openSections.contains count then openSections.filter (· ≠ count) else count :: openSections

/-- A block once it is drawn: a number field has no place for what is not a number, and makes
infinity of it. -/
def drawnBlock : Block → Block
  | .constant x => .constant (if x.isNaN then Number.infinite false else x)
  | b => b

/-- A session once it is drawn. Blocks are drawn while a table is loaded. -/
def drawn (s : Session) : Session :=
  if s.table.isNone then s
  else { s with formula := { s.formula with blocks := s.formula.blocks.map drawnBlock } }

/-- The page after an action, what the action shows, and what is logged. -/
def step (p : Page) (a : Action) : Page × Response × List LogLine :=
  let (event, response) := p.request a
  let (session, log) := match event with
    | none => (p.session, [])
    | some e => p.session.step e
  let session := drawn session
  let openSections := match a, shownOutcome? p.session with
    | .warnings, some o =>
      if o.diagnostics.isEmpty then p.openSections
      else toggled p.openSections o.diagnostics.length
    | _, _ => p.openSections
  ({ session, openSections }, response, log)

end Page

end TableCalc
