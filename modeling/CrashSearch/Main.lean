import CrashSearch.Command.Run

/-!
# The command line

## Main definitions

* `main`: parses the arguments, reads the files, runs the command and prints its report.
-/

open CrashSearch

/-- The version of the program. -/
def versionText : String := "crashtrail 0.1.0\n"

/-- How the program is called. -/
def usageText : String :=
  "Usage: crashtrail [--config FILE] COMMAND\n\n" ++
  "Commands:\n" ++
  "  fitness --scenario FILE\n" ++
  "  resolve --scenario FILE --class CLASS --method METHOD [--dot FILE]\n"

/-- The content of a file, if it can be read. -/
def readFile? (path : String) : IO (Option String) := do
  try return some (← IO.FS.readFile path)
  catch _ => return none

/-- Writes a file, and tells whether that was possible. -/
def writeFile? (path content : String) : IO Bool := do
  try
    IO.FS.writeFile path content
    return true
  catch _ => return false

/-- Prints an error and gives the exit code for it. -/
def fail (e : RunError) : IO UInt32 := do
  (← IO.getStderr).putStrLn e.message
  return 1

/-- Runs an invocation and gives its exit code. -/
def runInvocation (i : Invocation) : IO UInt32 := do
  let contents ← i.inputs.mapM fun path => return (path, ← readFile? path)
  match i.run fun path => (contents.lookup path).join with
  | .error e => fail e
  | .ok report =>
    (← IO.getStdout).putStr report.output
    match report.file with
    | none => return 0
    | some (path, content) =>
      if ← writeFile? path content then return 0 else fail (.unwritable path)

/-- Runs the program. -/
def main (arguments : List String) : IO UInt32 := do
  match Arguments.parse arguments with
  | .ok i => runInvocation i
  | .error .help =>
    (← IO.getStdout).putStr usageText
    return 0
  | .error .version =>
    (← IO.getStdout).putStr versionText
    return 0
  | .error .usage =>
    (← IO.getStderr).putStr usageText
    return 2
