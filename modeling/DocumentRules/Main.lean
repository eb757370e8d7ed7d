/-
The command line.

Prints the JSON output of a command, and on the standard error what went wrong.  The exit code
is 1 for a failed command, 2 for wrong arguments and 101 for an overflow.
-/
import DocumentRules.CommandLine.Perform

namespace DocumentRules.CommandLine

def readText? (name : String) : IO (Option String) := do
  try
    return some (← IO.FS.readFile name)
  catch _ =>
    return none

def environment : IO Command.Environment := do
  let names := ["RULEKIT_WORKSPACE", "RULEKIT_SUGGEST_LIMIT", "RULEKIT_SEED"]
  let values ← names.mapM fun name => do
    return (name, ← IO.getEnv name)
  return fun name => (values.find? (·.1 == name)).bind (·.2)

def printFailure (e : CommandError) : IO Unit := do
  IO.eprintln ("Error: " ++ e.message)
  for cause in e.causes do
    IO.eprintln ("Caused by: " ++ cause)

/-- Read and perform a command; the result is the exit code. -/
def run (args : List String) : IO UInt32 := do
  match Command.read (← environment) args with
  | .error .help =>
    IO.println "usage: run|test|coverage|suggest|property WORKSPACE ..."
    return 0
  | .error .invalid =>
    IO.eprintln "error: invalid arguments"
    return 2
  | .ok command =>
    let texts ← command.fileNames.mapM fun name => do
      return (name, ← readText? name)
    match command.perform fun name => (texts.find? (·.1 == name)).bind (·.2) with
    | .error .listTooLong =>
      IO.eprintln "a list would be too long"
      return 101
    | .ok report =>
      if let some output := report.output then
        IO.println output.render
      match report.error with
      | none => return 0
      | some e =>
        printFailure e
        return 1

end DocumentRules.CommandLine

def main (args : List String) : IO UInt32 := DocumentRules.CommandLine.run args
