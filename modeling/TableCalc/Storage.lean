/-
Files, as far as loading and writing tables need them: what a path leads to, which extension it
has, why the system refuses it, and where the content of a created file goes.

A path is a list of steps, and three questions are answered from the steps alone. Its extension is
that of the last step with a name. A path that leads nowhere fails at the first step that is not
there. And from a working directory that is still empty, a file comes to lie in that directory
exactly when every step before its name stays in place.
-/

namespace TableCalc.Storage

-- ================================================================ faults

/-- Why the system refuses to open, read or create a file. -/
inductive Fault where
  | notFound
  | isDirectory
  | nameTooLong
  /-- The path holds a NUL character, which no path does. -/
  | nulInName
  /-- There is no room left for what is written. -/
  | noSpace
  /-- The file was to be read as text, and its bytes are not UTF-8. -/
  | notText
  deriving DecidableEq, Repr

/-- The system's words for a fault. -/
def Fault.text : Fault → String
  | .notFound => "No such file or directory (os error 2)"
  | .isDirectory => "Is a directory (os error 21)"
  | .nameTooLong => "File name too long (os error 36)"
  | .nulInName => "file name contained an unexpected NUL byte"
  | .noSpace => "No space left on device (os error 28)"
  | .notText => "stream did not contain valid UTF-8"

-- ================================================================= files

/-- What a path leads to. -/
inductive Node where
  | absent
  | directory
  | file (bytes : List UInt8)
  deriving DecidableEq, Repr

/-- A file by its path, and what is found there. -/
structure Source where
  path : String
  node : Node
  deriving DecidableEq, Repr

/-- The text of a file's bytes, unless they are not UTF-8. -/
def text? (bytes : List UInt8) : Option String := String.fromUTF8? (ByteArray.mk bytes.toArray)

-- ================================================================= paths

/-- The steps of a path, in order. Steps that stay where they are count too: after the last slash
an empty one asks for a directory. -/
def steps (path : String) : List String := path.splitOn "/"

/-- The name of the file that a path leads to: the last of its steps that goes anywhere. A path
that ends upwards names no file, and neither does one that goes nowhere. -/
def fileName? (path : String) : Option String :=
  ((steps path).filter fun s => s ≠ "" && s ≠ ".").getLast?.filter (· ≠ "..")

/-- The extension in a file name: what follows the last point. A name without a point has none,
and neither has one whose only point comes first; none is the same as an empty one. -/
def nameExtension (name : String) : String :=
  let reversed := name.toList.reverse
  match reversed.dropWhile (· ≠ '.') with
  | _ :: _ :: _ => String.ofList (reversed.takeWhile (· ≠ '.')).reverse
  | _ => ""

/-- The extension of the file that a path leads to, in lower case as far as ASCII goes. Points
before the last name are not looked at. -/
def extension (path : String) : String :=
  String.ofList ((nameExtension ((fileName? path).getD "")).toList.map Char.toLower)

-- =============================================================== lookups

/-- Where a step can be taken from an empty directory or one of its parents: nowhere but in place
and upwards. -/
def staysInTree (step : String) : Bool := step = "" || step = "." || step = ".."

/-- Whether a step's name is longer than a name may be. -/
def isTooLong (step : String) : Bool := 255 < step.utf8ByteSize

/-- Why a path is refused before any step of it is taken, if it is. -/
def refusal? (path : String) : Option Fault :=
  if path.toList.contains '\x00' then some .nulInName
  else if path = "" then some .notFound
  else if 4096 ≤ path.utf8ByteSize then some .nameTooLong
  else none

/-- Why steps cannot be taken from an empty directory, if they cannot: the first of them that
leads to a name finds none, and a name that is too long is not even looked for. -/
def obstacle? (steps : List String) : Option Fault :=
  (steps.find? fun s => !staysInTree s).map fun s => if isTooLong s then .nameTooLong else .notFound

/-- Why nothing is found at a path that leads nowhere. -/
def absence (path : String) : Fault :=
  ((refusal? path).or (obstacle? (steps path))).getD .notFound

-- ============================================================== creation

/-- Where the content of a created file goes. -/
inductive Sink where
  /-- Into the file of that name in the working directory. -/
  | file (name : String)
  /-- Out of sight: elsewhere, or nowhere. -/
  | away
  /-- Onto the standard output. -/
  | output
  /-- Onto the standard error. -/
  | errors
  /-- Onto a device that never has room. -/
  | full
  deriving DecidableEq, Repr

/-- The devices that every system has. -/
def devices : List (String × Sink) :=
  [("/dev/null", .away), ("/dev/stdout", .output), ("/dev/stderr", .errors), ("/dev/full", .full)]

/-- Creates a file from an empty working directory: where its content goes, or why it cannot be
created. The steps before the last name have to lead somewhere, and the path must not ask for a
directory: neither by its last step nor by a slash after it. -/
def create (path : String) : Except Fault Sink :=
  let named := (steps path).reverse.dropWhile (· = "")
  let lead := named.tail.reverse
  let last := named.headD ""
  match devices.lookup path with
  | some sink => .ok sink
  | none =>
    match (refusal? path).or (obstacle? lead) with
    | some fault => .error fault
    | none =>
      if path.endsWith "/" || staysInTree last then .error .isDirectory
      else if isTooLong last then .error .nameTooLong
      else if path.startsWith "/" || lead.contains ".." then .ok .away
      else .ok (.file last)

end TableCalc.Storage
