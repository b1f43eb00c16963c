import BindingPlan.CommandLine.Directory
import BindingPlan.CommandLine.Options

/-!
# Runs

A run loads the class files, reads and analyses the layout, and writes a report. It ends with an
exit code: 0 if the report was made, 1 if the layout cannot be bound or planned, and 2 if it cannot
be read at all.

Main definitions:

* `Options.result`: the report that the options ask for.
* `Directory.run`: a whole run inside a directory.
-/

namespace BindingPlan

/-- How a run ends. -/
structure Outcome where
  code : Nat
  /-- The text for the standard output. -/
  output : String
  /-- The text for the standard error output. -/
  errors : String
deriving DecidableEq, Repr

/-- Why a run makes no report. -/
inductive Failure where
  | file (path : String) (error : FileError)
  | classes (error : LoadError)
  | analysis (error : AnalysisError)
deriving DecidableEq, Repr

namespace Failure

/-- A failure that is told in one line. -/
def line (code : Nat) (message : String) : Outcome :=
  ⟨code, "", "bindc: error: " ++ message ++ "\n"⟩

/-- The diagnostics one after another, up to one that does not fit its binding; and whether all
fit. -/
def rendered : List BindingDiagnostic → String × Bool
  | [] => ("", true)
  | d :: diagnostics =>
    match d.render? with
    | none => ("", false)
    | some text =>
      let (texts, complete) := rendered diagnostics
      (text ++ texts, complete)

/-- Failing bindings: all diagnostics and their number. A diagnostic that does not fit its binding
aborts the run. -/
def ofBindings (diagnostics : List BindingDiagnostic) : Outcome :=
  let (texts, complete) := rendered diagnostics
  if complete then
    ⟨1, "", texts ++ "bindc: " ++ (AnalysisError.bindings diagnostics).message ++ "\n"⟩
  else ⟨101, "", texts ++ "bindc: a diagnostic does not fit its binding\n"⟩

def outcome : Failure → Outcome
  | .file path e => line 2 (path ++ ": " ++ e.message)
  | .classes e => line 2 e.message
  | .analysis (.bindings diagnostics) => ofBindings diagnostics
  | .analysis (.graph e) => line 1 (AnalysisError.graph e).message
  | .analysis e => line 2 e.message

end Failure

def Setting.name : Setting → String
  | .classes => "--classes"
  | .emit => "--emit"
  | .output => "--output"
  | .logLevel => "--log-level"

def UsageError.message : UsageError → String
  | .unknownOption arg => "unexpected argument '" ++ arg ++ "'"
  | .missingValue setting => "a value is required for '" ++ setting.name ++ "'"
  | .badValue setting value => "invalid value '" ++ value ++ "' for '" ++ setting.name ++ "'"
  | .repeated setting => "'" ++ setting.name ++ "' cannot be used more than once"
  | .tooManyFiles arg => "unexpected argument '" ++ arg ++ "'"
  | .noFile => "a layout file is required"

def usageLine : String :=
  "Usage: bindc [OPTIONS] SOURCE\n"

/-- The description of the options. -/
def helpText : String :=
  usageLine ++ "\nOptions:\n"
    ++ "      --classes FILE     class file (repeatable)\n"
    ++ "      --emit STAGE       schedule (default), json, flags or dot\n"
    ++ "  -o, --output FILE      output file\n"
    ++ "  -v, --verbose          more log output\n"
    ++ "      --log-level LEVEL  error, warn, info, debug or trace\n"
    ++ "  -h, --help             print this text\n"
    ++ "  -V, --version          print the version\n"

def Stop.outcome : Stop → Outcome
  | .help => ⟨0, helpText, ""⟩
  | .version => ⟨0, "bindc " ++ programVersion ++ "\n", ""⟩
  | .usage e => ⟨2, "", "error: " ++ e.message ++ "\n\n" ++ usageLine⟩

namespace Options

/-- All files that a run reads. -/
def inputs (options : Options) : List String :=
  options.classFiles ++ [options.source]

/-- Loads class files in order. -/
def loadClasses (read : String → Except FileError String) :
    List String → ClassRegistry → Except Failure ClassRegistry
  | [], classes => .ok classes
  | path :: paths, classes => do
    let text ← (read path).mapError (.file path)
    match classes.load text with
    | (_, .error e) => .error (.classes e)
    | (classes, .ok _) => loadClasses read paths classes

/-- The text of a report. A document is ended by a line break, as the other forms are. -/
def reportText (options : Options) (analysis : Analysis) : String :=
  let text := analysis.report options.report
  if options.report = .document then text ++ "\n" else text

/-- The report that the options ask for, given how files are read: the work of `main`. -/
def result (options : Options) (read : String → Except FileError String) :
    Except Failure String := do
  let classes ← loadClasses read options.classFiles .builtin
  let source ← (read options.source).mapError (.file options.source)
  let analysis ← (analyze classes source).mapError .analysis
  return options.reportText analysis

end Options

/-- The end of a run whose report goes to a device by its path. An empty text needs no space. -/
def Device.outcome (device : Device) (path text : String) : Outcome :=
  match device with
  | .null => ⟨0, "", ""⟩
  | .full => if text = "" then ⟨0, "", ""⟩ else (Failure.file path .noSpace).outcome
  | .output => ⟨0, text, ""⟩
  | .errors => ⟨0, "", text⟩

/-- A run inside a directory, and the directory that it leaves. -/
def Directory.run (directory : Directory) (args : List String) : Outcome × Directory :=
  match Options.parse args with
  | .error stop => (stop.outcome, directory)
  | .ok options =>
    match options.result directory.read, options.output with
    | .error failure, _ => (failure.outcome, directory)
    | .ok text, none => (⟨0, text, ""⟩, directory)
    | .ok text, some path =>
      match directory.target path with
      | .ok (.file place) => (⟨0, "", ""⟩, directory.add place text)
      | .ok (.device device) => (device.outcome path text, directory)
      | .error e => ((Failure.file path e).outcome, directory)

end BindingPlan
