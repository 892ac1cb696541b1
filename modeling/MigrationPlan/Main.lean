import MigrationPlan.Command.Evaluate
import MigrationPlan.Command.Front

/-!
# Main — the command line

`evaluate` prints the worth of one selection, `front` the selections worth considering.  Files are
read from disk; what cannot be read for an unknown reason counts as missing.
-/

namespace MigrationPlan.Command

/-- What a path on disk leads to. -/
def readDisk (path : String) : IO FileContent := do
  try
    return .text (← IO.FS.readFile path)
  catch
    | .inappropriateType .. => return .directory
    | .invalidArgument .. => return .nameTooLong
    | _ => return .missing

/-- The report of a command with its arguments. -/
def dispatch : List String → ExceptT Fault IO Report
  | "evaluate" :: arguments => Evaluate.run readDisk arguments
  | "front" :: arguments => do
    let summary ← Front.run readDisk arguments
    return summary.report
  | _ => throw .usage

/-- Prints a report, or says what is wrong; a wrong command line has an exit code of its own. -/
def execute (arguments : List String) : IO UInt32 := do
  match ← (dispatch arguments).run with
  | .ok report =>
    IO.print report.print
    return 0
  | .error .usage =>
    IO.eprintln "usage: evaluate [OPTION]... | front [OPTION]..."
    return 2
  | .error fault =>
    IO.eprintln fault.message
    return 1

end MigrationPlan.Command

def main (arguments : List String) : IO UInt32 :=
  MigrationPlan.Command.execute arguments
