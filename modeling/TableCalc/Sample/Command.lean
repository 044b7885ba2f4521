/-
The command that writes a sample table: `[file] [rows]`. What the arguments mean, and what the
command says, is decided here, also when the file cannot be created or takes only part of the
text; the writing itself is left to whoever runs the command.
-/

import TableCalc.Sample.Sales
import TableCalc.Storage

namespace TableCalc.Sample

-- ============================================================== arguments

/-- Why a text is no row count. -/
inductive CountFault where
  | empty
  | invalidDigit
  | tooLarge
  deriving DecidableEq, Repr

/-- A fault in words. -/
def CountFault.text : CountFault → String
  | .empty => "cannot parse integer from empty string"
  | .invalidDigit => "invalid digit found in string"
  | .tooLarge => "number too large to fit in target type"

/-- Adds a digit to a count of at most 64 bits. -/
def addDigit (n : Nat) (c : Char) : Except CountFault Nat :=
  if c.isDigit then
    let m := 10 * n + (c.toNat - '0'.toNat)
    if m < UInt64.size then .ok m else .error .tooLarge
  else .error .invalidDigit

/-- Reads a row count: digits, after an optional plus. The first fault from the left counts. -/
def readCount (s : String) : Except CountFault Nat :=
  match s.toList with
  | [] => .error .empty
  | ['+'] => .error .invalidDigit
  | '+' :: ds => ds.foldlM addDigit 0
  | ds => ds.foldlM addDigit 0

/-- Why the command fails. -/
inductive CommandError where
  | rowCount (argument : String) (fault : CountFault)
  | creating (path : String) (cause : String)
  /-- The file takes no more while an order is written. -/
  | writing (order : Nat) (cause : String)
  /-- The file does not take the end of the text. -/
  | flushing (cause : String)
  deriving DecidableEq, Repr

namespace CommandError

/-- The failure in words. -/
def message : CommandError → String
  | .rowCount argument _ => s!"invalid row count '{argument}'"
  | .creating path _ => s!"creating {path}"
  | .writing order _ => s!"writing order {order}"
  | .flushing _ => "flushing CSV"

/-- What lies beneath the failure. -/
def cause : CommandError → String
  | .rowCount _ fault => fault.text
  | .creating _ cause | .writing _ cause | .flushing cause => cause

/-- What the command says when it fails. -/
def report (e : CommandError) : String :=
  s!"Error: {e.message}\n\nCaused by:\n    {e.cause}\n"

end CommandError

/-- What the command is to do. -/
structure Plan where
  path : String
  rows : Nat
  deriving DecidableEq, Repr

namespace Plan

/-- The plan that arguments make. Arguments after the second are ignored. -/
def ofArguments (arguments : List String) : Except CommandError Plan :=
  let path := arguments.headD "sample_sales.csv"
  match arguments[1]? with
  | none => .ok ⟨path, 200⟩
  | some count =>
    match readCount count with
    | .ok rows => .ok ⟨path, rows⟩
    | .error fault => .error (.rowCount count fault)

/-- The text that goes into the file. -/
def content (p : Plan) : String := salesText p.rows

/-- What the command says when it is done. -/
def report (p : Plan) : String := s!"Wrote {p.rows} orders to {p.path}\n"

end Plan

-- =============================================================== portions

/-- The text is gathered and handed to the file in portions of this many bytes. A full portion is
handed over once a further byte comes, and the last one at the end. -/
def portionSize : Nat := 8192

/-- The first of some orders whose line reaches beyond the byte of the given index, if lines of
`size` bytes in all come before them. -/
def orderAt? (byte size : Nat) : List Order → Option Nat
  | [] => none
  | o :: rest =>
    let size := size + (line o.cells).utf8ByteSize
    if byte < size then some o.id else orderAt? byte size rest

/-- The failure to hand over the portion of the given index. It shows while the order is written
whose line holds the first byte of the next portion; the last portion has no next one. -/
def Plan.stalled (p : Plan) (portion : Nat) (cause : String) : CommandError :=
  match orderAt? ((portion + 1) * portionSize) (line header).utf8ByteSize (salesOrders p.rows) with
  | some order => .writing order cause
  | none => .flushing cause

-- ==================================================================== run

/-- What a run of the command leaves behind. -/
structure Run where
  exit : Nat
  output : String := ""
  errors : String := ""
  /-- The files in the working directory, with their contents. -/
  files : List (String × String) := []
  deriving DecidableEq, Repr

/-- A run that fails. -/
def Run.failed (e : CommandError) : Run := { exit := 1, errors := e.report }

/-- The run of a plan whose content goes where the file was created. A device without room takes an
empty content still, for then nothing is handed over. -/
def Plan.writtenTo (p : Plan) : Storage.Sink → Run
  | .file name => { exit := 0, output := p.report, files := [(name, p.content)] }
  | .away => { exit := 0, output := p.report }
  | .output => { exit := 0, output := p.content ++ p.report }
  | .errors => { exit := 0, output := p.report, errors := p.content }
  | .full =>
    if p.content = "" then { exit := 0, output := p.report }
    else .failed (p.stalled 0 Storage.Fault.noSpace.text)

/-- The run of the command in an empty working directory. The arguments are judged before a file is
created. -/
def run (arguments : List String) : Run :=
  match Plan.ofArguments arguments with
  | .error e => .failed e
  | .ok plan =>
    match Storage.create plan.path with
    | .error fault => .failed (.creating plan.path fault.text)
    | .ok sink => plan.writtenTo sink

end TableCalc.Sample
