import TopDown.Command.Options
import TopDown.Gate

/-!
# The command line

The program reviews a configuration, runs it over symbols, or lists the built-in conditions
(`TopDown.Command.Task`). `TopDown.Command.parse` reads what it is asked to do from the arguments. The
option for the log level may stand before or after the name of the command; the latter counts more.
-/

namespace TopDown.Command

/-- How a configuration is to be run. -/
structure RunTask where
  /-- The path of the rules. -/
  rules : String
  /-- The path of the settings. -/
  settings : Option String
  /-- The folder of the bars. -/
  folder : Option String
  /-- The symbols, set apart by commas. -/
  symbols : String
  /-- The timeframe to start on. -/
  start : Option Timeframe
  /-- The time, in writing. -/
  now : Option String
  /-- Which gates are passed by. -/
  flags : Flags
  /-- How many workers share the batch. -/
  workers : Option Nat
  /-- The reports are printed as a document. -/
  asDocument : Bool

/-- What the program is asked to do. -/
inductive Task where
  /-- Review a configuration. -/
  | validate (rules : String) (asDocument : Bool)
  /-- Run a configuration over symbols. -/
  | run (task : RunTask)
  /-- List the built-in conditions. -/
  | conditions

/-- What the program is asked to do, and how much it logs. -/
structure Line where
  /-- The task. -/
  task : Task
  /-- The log level. -/
  logLevel : Option String

/-! ### Options -/

/-- The option for the log level. -/
def logLevelOption : Opt := ⟨"log-level", none, .text⟩

/-- The options that stand anywhere. -/
def commonOptions : List Opt := [logLevelOption, helpOption]

/-- The option for the file of rules. -/
def rulesOption : Opt := ⟨"rules", some 'r', .path⟩

/-- The option for printing a document. -/
def documentOption : Opt := ⟨"json", none, .nothing⟩

/-- The options of a review. -/
def validateOptions : List Opt :=
  [rulesOption, documentOption] ++ commonOptions

/-- The options of a run. -/
def runOptions : List Opt :=
  [rulesOption, documentOption,
    ⟨"settings", some 's', .path⟩, ⟨"data-dir", none, .path⟩, ⟨"symbols", none, .text⟩,
    ⟨"start-from", none, .timeframe⟩, ⟨"now", none, .text⟩, ⟨"force-run", none, .nothing⟩,
    ⟨"force-timeframe-check", none, .nothing⟩, ⟨"workers", none, .count⟩] ++ commonOptions

/-! ### Reading -/

/-- The value of an option that must be given. -/
def required (given : Given) (name : String) : Except Halt String :=
  match given.lookup name with
  | some value => .ok value
  | none => .error .mistake

/-- The option is given. -/
def isGiven (given : Given) (name : String) : Bool :=
  (given.lookup name).isSome

/-- Reads the options of a command, after which nothing may follow. -/
def readAll (options : List Opt) (args : List String) : Except Halt Given := do
  let (given, rest) ← readOptions options [] args
  if rest.isEmpty then .ok given else .error .mistake

/-- The review that options ask for. -/
def validateTask (given : Given) : Except Halt Task := do
  return .validate (← required given "rules") (isGiven given "json")

/-- The run that options ask for. -/
def runTask (given : Given) : Except Halt Task := do
  let rules ← required given "rules"
  let symbols ← required given "symbols"
  return .run {
    rules, symbols
    settings := given.lookup "settings"
    folder := given.lookup "data-dir"
    start := (given.lookup "start-from").bind Timeframe.parse?
    now := given.lookup "now"
    flags := ⟨isGiven given "force-run", isGiven given "force-timeframe-check"⟩
    workers := (given.lookup "workers").bind count?
    asDocument := isGiven given "json" }

/-- The names of the commands. -/
def commandNames : List String :=
  ["validate", "run", "conditions", "help"]

/-- The options of a command, and the task that they ask for. -/
def readCommand (name : String) (args : List String) : Except Halt (Given × Task) :=
  match name with
  | "validate" => do
    let given ← readAll validateOptions args
    return (given, ← validateTask given)
  | "run" => do
    let given ← readAll runOptions args
    return (given, ← runTask given)
  | "conditions" => do
    return (← readAll commonOptions args, .conditions)
  | "help" =>
    match args with
    | [] => .error .help
    | [name] => if commandNames.contains name then .error .help else .error .mistake
    | _ => .error .mistake
  | _ => .error .mistake

/-- What the arguments ask for. -/
def parse (args : List String) : Except Halt Line := do
  let (outer, rest) ← readOptions commonOptions [] args
  match rest with
  | [] => .error .mistake
  | name :: rest =>
    let (inner, task) ← readCommand name rest
    return ⟨task, (inner.lookup "log-level").or (outer.lookup "log-level")⟩

end TopDown.Command
