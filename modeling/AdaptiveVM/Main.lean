import AdaptiveVM.CommandLine.Session
import AdaptiveVM.Text.Duration

/-!
The program: reads the configuration file, if there is one, and prints what the session
answers.
-/

namespace AdaptiveVM.CommandLine

/-- The words for a file that cannot be read. -/
def readFailure : IO.Error → String
  | .noFileOrDirectory .. => "No such file or directory (os error 2)"
  | .permissionDenied .. => "Permission denied (os error 13)"
  | e => toString e

/-- The text of a file, or why it cannot be read. -/
def readText (file : String) : IO (Except String String) := do
  try
    return .ok (← IO.FS.readFile file)
  catch e =>
    return .error (readFailure e)

/-- The text of the configuration file the arguments name. -/
def readConfig (args : List String) : IO (Except String String) :=
  match parse args with
  | .ok invocation =>
    match invocation.configFile with
    | some file => readText file
    | none => return .ok ""
  | .error _ => return .ok ""

end AdaptiveVM.CommandLine

open AdaptiveVM in
def main (args : List String) : IO UInt32 := do
  let text ← CommandLine.readConfig args
  let start ← IO.monoNanosNow
  let outcome := CommandLine.session (fun _ => text) args
  IO.eprint outcome.complaint
  let stop ← IO.monoNanosNow
  IO.print (outcome.output (Text.duration (stop - start)))
  return outcome.exit
