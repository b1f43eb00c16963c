import BindingPlan.Report

/-!
# Options

The arguments of a run: one layout file, any number of class files, the report to make, and where to
write it. An option with a value takes it from the same argument (`--emit=json`, `-oFILE`) or from
the next one. Behind `--` all arguments are file names.

Main definitions:

* `Options.parse`: the options of a list of arguments, or why there is nothing to run.
-/

namespace BindingPlan

/-- What a run is to do (`Cli`). -/
structure Options where
  /-- The layout file. -/
  source : String
  /-- The class files in the order in which they are loaded. -/
  classFiles : List String
  report : Report
  /-- Where the report is written, instead of to the standard output. -/
  output : Option String
deriving DecidableEq, Repr

/-- An option that has a value. -/
inductive Setting where
  | classes
  | emit
  | output
  | logLevel
deriving DecidableEq, Repr

/-- An option that has none. -/
inductive Switch where
  | verbose
  | help
  | version
deriving DecidableEq, Repr

inductive UsageError where
  | unknownOption (arg : String)
  | missingValue (setting : Setting)
  | badValue (setting : Setting) (value : String)
  /-- An option that can be given once was given again. -/
  | repeated (setting : Setting)
  | tooManyFiles (arg : String)
  | noFile
deriving DecidableEq, Repr

/-- Why there is nothing to run. -/
inductive Stop where
  | help
  | version
  | usage (error : UsageError)
deriving DecidableEq, Repr

/-- One step of a command line: options with the values that are attached to them, other words, and
the mark behind which all are words. -/
inductive Item where
  | setting (setting : Setting) (value : Option String)
  | switch (switch : Switch)
  | word (text : String)
  | endOfOptions
  | unknown (arg : String)
deriving DecidableEq, Repr

namespace Item

/-- A long option, without its dashes. -/
def ofLong (arg name : String) (value : Option String) : Item :=
  match name, value with
  | "classes", _ => .setting .classes value
  | "emit", _ => .setting .emit value
  | "output", _ => .setting .output value
  | "log-level", _ => .setting .logLevel value
  | "verbose", none => .switch .verbose
  | "help", none => .switch .help
  | "version", none => .switch .version
  | _, _ => .unknown arg

/-- The letters of short options in one argument; a letter that takes a value takes what follows. -/
def ofLetters (arg : String) : List Char → List Item
  | [] => []
  | 'v' :: letters => .switch .verbose :: ofLetters arg letters
  | 'h' :: letters => .switch .help :: ofLetters arg letters
  | 'V' :: letters => .switch .version :: ofLetters arg letters
  | ['o'] => [.setting .output none]
  | 'o' :: '=' :: value => [.setting .output (some (String.ofList value))]
  | 'o' :: value => [.setting .output (some (String.ofList value))]
  | _ => [.unknown arg]

/-- The steps of one argument in front of the end of options. A lone dash is a word. -/
def ofArg (arg : String) : List Item :=
  match arg.toList with
  | ['-', '-'] => [.endOfOptions]
  | '-' :: '-' :: text =>
    let name := String.ofList (text.takeWhile (· != '='))
    match text.dropWhile (· != '=') with
    | [] => [ofLong arg name none]
    | _ :: value => [ofLong arg name (some (String.ofList value))]
  | '-' :: letter :: letters => ofLetters arg (letter :: letters)
  | _ => [.word arg]

/-- The steps of all arguments. -/
def ofArgs : List String → List Item
  | [] => []
  | "--" :: args => .endOfOptions :: args.map .word
  | arg :: args => ofArg arg ++ ofArgs args

end Item

/-- The options that were met so far. -/
structure PartialOptions where
  source : Option String
  classFiles : List String
  report : Option Report
  output : Option String
  logLevel : Option String
deriving DecidableEq, Repr

namespace PartialOptions

def empty : PartialOptions := ⟨none, [], none, none, none⟩

def addFile (options : PartialOptions) (path : String) : Except Stop PartialOptions :=
  match options.source with
  | some _ => .error (.usage (.tooManyFiles path))
  | none =>
    if path = "" then .error (.usage .noFile) else .ok { options with source := some path }

def logLevels : List String :=
  ["error", "warn", "info", "debug", "trace"]

/-- Gives an option its value. Class files may be given more than once, all else once. -/
def set (options : PartialOptions) (setting : Setting) (value : String) :
    Except Stop PartialOptions :=
  let badValue := Except.error (Stop.usage (.badValue setting value))
  let repeated := Except.error (Stop.usage (.repeated setting))
  match setting with
  | .classes =>
    if value = "" then badValue
    else .ok { options with classFiles := options.classFiles ++ [value] }
  | .emit =>
    if options.report.isSome then repeated
    else
      match Report.ofName? value with
      | some report => .ok { options with report := some report }
      | none => badValue
  | .output =>
    if options.output.isSome then repeated
    else if value = "" then badValue
    else .ok { options with output := some value }
  | .logLevel =>
    if options.logLevel.isSome then repeated
    else if value ∈ logLevels then .ok { options with logLevel := some value }
    else badValue

/-- Takes up the steps of a command line from the left; the first error counts. -/
def addItems (options : PartialOptions) : List Item → Except Stop PartialOptions
  | [] => .ok options
  | .word path :: items => do (← options.addFile path).addItems items
  | .endOfOptions :: items => options.addItems items
  | .switch .verbose :: items => options.addItems items
  | .switch .help :: _ => .error .help
  | .switch .version :: _ => .error .version
  | .unknown arg :: _ => .error (.usage (.unknownOption arg))
  | .setting setting (some value) :: items => do (← options.set setting value).addItems items
  | .setting setting none :: .word value :: items => do
    (← options.set setting value).addItems items
  | .setting setting none :: _ => .error (.usage (.missingValue setting))

/-- The options with their defaults: the schedule is reported. A layout file must be given. -/
def complete (options : PartialOptions) : Except Stop Options :=
  match options.source with
  | some source =>
    .ok ⟨source, options.classFiles, options.report.getD .schedule, options.output⟩
  | none => .error (.usage .noFile)

end PartialOptions

/-- The options that arguments stand for. -/
def Options.parse (args : List String) : Except Stop Options := do
  (← PartialOptions.empty.addItems (Item.ofArgs args)).complete

end BindingPlan
