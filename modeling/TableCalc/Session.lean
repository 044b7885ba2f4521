/-
A session of work: the table that is loaded, what is known of its columns, the formula, the latest
outcome, and a status line for the latest failure. Each event of a session changes some of these
and leaves the rest, and nothing is ever computed anew on its own: the outcome stays as it was
until the next evaluation, whatever happens to the table or the formula.
-/

import TableCalc.Formula.Evaluate
import TableCalc.Table.Load
import TableCalc.Table.Profile

namespace TableCalc

/-- What a session consists of. -/
structure Session where
  table : Option Table := none
  profile : Profile := {}
  formula : Formula := {}
  outcome : Option Outcome := none
  status : Option String := none

/-- A line of the log. -/
inductive LogLine where
  | warning (text : String)
  | error (text : String)
  deriving DecidableEq, Repr

/-- A line of the log as it is written. -/
def LogLine.text : LogLine → String
  | .warning t => "WARN: " ++ t
  | .error t => "ERROR: " ++ t

/-- An edit of the formula. -/
inductive Edit where
  | push (block : Block)
  | update (index : Nat) (patch : Patch)
  | join (index : Nat) (combinator : Combinator)
  | remove (index : Nat)
  deriving DecidableEq

/-- The formula after an edit, or why the edit is refused. -/
def Formula.edited (f : Formula) : Edit → Except EditError Formula
  | .push b => .ok (f.push b)
  | .update index p => f.update index p
  | .join index op => f.setCombinator index op
  | .remove index => (f.remove index).map (·.2)

/-- What can happen in a session. -/
inductive Event where
  /-- A table is taken up. -/
  | adopt (table : Table)
  /-- A file is opened. If the reader of its format does not take its text, `said` is what the
  reader says of it; of any other file it says nothing. -/
  | openFile (source : Storage.Source) (said : String := "")
  | edit (e : Edit)
  /-- The formula is evaluated. -/
  | compute

namespace Session

-- ================================================================= events

/-- The session with a table taken up. The formula stays as it is, even where it names columns that
are gone. -/
def adopt (s : Session) (t : Table) : Session :=
  { s with table := some t, profile := .ofTable t, status := none }

/-- The session after a failure, which the status line shows. -/
def failed (s : Session) (text : String) : Session := { s with status := some ("Error: " ++ text) }

/-- The session after a file is opened, and what is logged. A file that is no table leaves
everything but the status line as it was. -/
def openFile (s : Session) (source : Storage.Source) (said : String) : Session × List LogLine :=
  match Table.load source with
  | .ok t => (s.adopt t, [])
  | .error e => (s.failed (e.chain said), [.error ("Failed to load file: " ++ e.chain said)])

/-- The session after an edit of the formula, and what is logged. -/
def edit (s : Session) (e : Edit) : Session × List LogLine :=
  match s.formula.edited e with
  | .ok f => ({ s with formula := f }, [])
  | .error err => (s.failed err.text, [.error ("Formula edit failed: " ++ err.text)])

/-- The session after an evaluation, and what is logged: every diagnostic. Without a table nothing
happens. -/
def compute (s : Session) : Session × List LogLine :=
  match s.table with
  | none => (s, [])
  | some t =>
    let outcome := s.formula.evaluate t
    ({ s with outcome := some outcome }, outcome.diagnostics.map fun d => .warning d.text)

/-- The session after an event, and what is logged. -/
def step (s : Session) : Event → Session × List LogLine
  | .adopt t => (s.adopt t, [])
  | .openFile source said => s.openFile source said
  | .edit e => s.edit e
  | .compute => s.compute

end Session

end TableCalc
