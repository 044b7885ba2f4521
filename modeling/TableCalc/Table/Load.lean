/-
Loading a table from a file. The extension alone decides how the file is read, and it is looked at
before the file is; everything that can go wrong after that is a cause of its own, with the stage
at which it arose.

The stage is told in words of our own. What lies beneath it is told by whoever refused: the system,
of a file that it does not give, or the reader of comma-separated text or of JSON, of a text that it
does not take. A reader's words are its own affair, with the line and the column in them, so they
are handed in wherever a failure is put into words, and passed on as they are.
-/

import TableCalc.Json.Reader
import TableCalc.Storage
import TableCalc.Table.Csv
import TableCalc.Table.Json

namespace TableCalc

-- ================================================================ errors

/-- Why a file is no table. -/
inductive LoadError where
  | unsupportedExtension (extension : String)
  | csvOpening (fault : Storage.Fault)
  | csvHeader (fault : Storage.Fault)
  | csvRow (index : Nat) (fault : Storage.Fault)
  | jsonReading (fault : Storage.Fault)
  | jsonParsing (fault : Json.Fault)
  | jsonShape (misfit : Json.Misfit)
  deriving DecidableEq, Repr

namespace LoadError

/-- The stage at which loading failed, in words; where nothing lies beneath, the failure itself. -/
def message : LoadError → String
  | .unsupportedExtension e => s!"Unsupported file extension: .{e}"
  | .csvOpening _ => "opening CSV"
  | .csvHeader _ => "reading CSV headers"
  | .csvRow index _ => s!"CSV row {index}"
  | .jsonReading _ => "reading JSON file"
  | .jsonParsing _ => "parsing JSON"
  | .jsonShape .notAnArray => "Expected top-level JSON array"
  | .jsonShape (.notAnObject index) => s!"Row {index} is not a JSON object"

/-- What lies beneath the failure, in words, if anything does: the system's of a file that it does
not give, and what the reader `said` of a text that it does not take. -/
def cause? (said : String) : LoadError → Option String
  | .unsupportedExtension _ | .jsonShape _ => none
  | .csvHeader .notText | .csvRow _ .notText | .jsonParsing _ => some said
  | .csvOpening f | .csvHeader f | .csvRow _ f | .jsonReading f => some f.text

/-- The failure and its cause in one line. -/
def chain (said : String) (e : LoadError) : String :=
  match e.cause? said with
  | none => e.message
  | some cause => e.message ++ ": " ++ cause

end LoadError

-- =============================================================== loading

/-- The fault of comma-separated text as a failure to load. -/
def Csv.Fault.loadError : Csv.Fault → LoadError
  | .header => .csvHeader .notText
  | .record index => .csvRow index .notText

/-- Reads comma-separated text as a table. -/
def Table.ofCsv (bytes : List UInt8) : Except LoadError Table :=
  (Csv.read bytes).mapError Csv.Fault.loadError

/-- Reads JSON as a table. -/
def Table.ofJsonText (text : List Char) : Except LoadError Table := do
  let v ← (Json.read text).mapError .jsonParsing
  v.table.mapError .jsonShape

/-- Loads a table. A directory can be opened but not read. -/
def Table.load (s : Storage.Source) : Except LoadError Table :=
  match Storage.extension s.path with
  | "csv" =>
    match s.node with
    | .absent => .error (.csvOpening (Storage.absence s.path))
    | .directory => .error (.csvHeader .isDirectory)
    | .file bytes => Table.ofCsv bytes
  | "json" =>
    match s.node with
    | .absent => .error (.jsonReading (Storage.absence s.path))
    | .directory => .error (.jsonReading .isDirectory)
    | .file bytes =>
      match Storage.text? bytes with
      | none => .error (.jsonReading .notText)
      | some text => Table.ofJsonText text.toList
  | other => .error (.unsupportedExtension other)

end TableCalc
