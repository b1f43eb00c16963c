import BindingPlan.CommandLine.Run

/-!
# The program

Runs the command line on the files of the system.
-/

open BindingPlan

/-- The reason of a failed file operation. -/
def fileError : IO.Error → FileError
  | .noFileOrDirectory _ _ _ => .notFound
  | .inappropriateType _ 20 _ => .notDirectory
  | .inappropriateType _ 21 _ => .isDirectory
  | .invalidArgument _ 36 _ => .nameTooLong
  | .resourceExhausted _ 28 _ => .noSpace
  | .permissionDenied _ code details => .other s!"{details} (os error {code})"
  | e => .other (toString e)

/-- The text of a file. -/
def readText (path : String) : IO (Except FileError String) := do
  try return .ok (← IO.FS.readFile path)
  catch e => return .error (fileError e)

def writeText (path text : String) : IO (Except FileError Unit) := do
  try return .ok (← IO.FS.writeFile path text)
  catch e => return .error (fileError e)

/-- Prints an outcome, and gives its exit code. -/
def finish (outcome : Outcome) : IO UInt32 := do
  IO.print outcome.output
  IO.eprint outcome.errors
  return outcome.code.toUInt32

/-- Hands the report to where it is wanted. -/
def deliver (options : Options) (text : String) : IO UInt32 := do
  match options.output with
  | none => finish ⟨0, text, ""⟩
  | some path =>
    match ← writeText path text with
    | .ok () => return 0
    | .error e => finish (Failure.file path e).outcome

def main (args : List String) : IO UInt32 := do
  match Options.parse args with
  | .error stop => finish stop.outcome
  | .ok options =>
    let inputs ← options.inputs.mapM fun path => return (path, ← readText path)
    match options.result fun path => (inputs.lookup path).getD (.error .notFound) with
    | .error failure => finish failure.outcome
    | .ok text => deliver options text
