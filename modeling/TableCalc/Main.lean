/-
The command line: writes a sample table. Everything but the writing itself is decided by the plan
that the arguments make.
-/

import TableCalc.Sample.Command

namespace TableCalc

/-- The system's words for a failure to create or write a file. -/
def systemText (e : IO.Error) : String :=
  match e with
  | .noFileOrDirectory _ code details | .inappropriateType _ code details
  | .permissionDenied _ code details | .resourceExhausted _ code details
  | .invalidArgument _ code details => s!"{details} (os error {code})"
  | e => toString e

/-- Hands the content of a plan over to a file, portion by portion: the failure, if there is one. -/
def Sample.Plan.handOver (plan : Sample.Plan) (file : IO.FS.Handle) :
    IO (Option Sample.CommandError) := do
  let bytes := plan.content.toUTF8
  let size := Sample.portionSize
  for portion in List.range ((bytes.size + size - 1) / size) do
    try
      file.write (bytes.extract (portion * size) ((portion + 1) * size))
      file.flush
    catch e => return some (plan.stalled portion (systemText e))
  return none

/-- Writes the file of a plan and says so, or says why it cannot. -/
def Sample.Plan.execute (plan : Sample.Plan) : IO UInt32 := do
  let failure ← try
      plan.handOver (← IO.FS.Handle.mk plan.path .write)
    catch e => pure (some (.creating plan.path (systemText e)))
  match failure with
  | none =>
    IO.print plan.report
    return 0
  | some e =>
    IO.eprint e.report
    return 1

end TableCalc

/-- Writes a sample table: `[file] [rows]`. -/
def main (arguments : List String) : IO UInt32 :=
  match TableCalc.Sample.Plan.ofArguments arguments with
  | .ok plan => plan.execute
  | .error e => do
    IO.eprint e.report
    return 1
