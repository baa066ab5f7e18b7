import TopDown.Review.Finding
import TopDown.Symbols

/-!
# What can be at fault

A configuration, a table of bars or a name may be at fault. A `TopDown.Fault` says which and where;
`TopDown.Fault.message` words it, and `TopDown.Fault.exitCode` is the code with which the program
ends because of it.

A computation that can also break down stops with a `TopDown.Stop`: a fault or a crash.
-/

namespace TopDown

/-- Why a value of the configuration or of the settings is refused. -/
inductive Refusal where
  /-- The configuration is no object. -/
  | notObject
  /-- A part of the configuration must be an object. -/
  | partNotObject (what : String)
  /-- A timeframe was expected. -/
  | notTimeframe (found : Json)
  /-- The timeframe is not one to enter a market on. -/
  | notExecution (tf : Timeframe)
  /-- The least number of bars is no positive integer. -/
  | badMinBars
  /-- The grace window is no non-negative integer. -/
  | badGrace
  /-- The timeframes to enter on are no list. -/
  | notTimeframeList
  /-- The number of workers is out of range. -/
  | workers (found : Int)
  /-- A text is not the name of a timeframe. -/
  | unknownTimeframe (text : String)
  /-- A switch has no colon. -/
  | notSwitch (entry : String)
  /-- A switch has no symbol. -/
  | emptySymbol (entry : String)
  /-- The log level is unknown. -/
  | logLevel (text : String)
  /-- The list of symbols cannot be read. -/
  | symbols (error : SymbolError)
  /-- A text is not an instant. -/
  | notInstant (text : String)

/-- The wording of a refusal. -/
def Refusal.message : Refusal → String
  | notObject => "rule configuration must be an object"
  | partNotObject what => what ++ " must be an object"
  | notTimeframe found =>
    "expected a timeframe (" ++ Timeframe.expected ++ "), found " ++ found.compact
  | notExecution tf => tf.name ++ " is not an execution timeframe"
  | badMinBars => "min_bars must be a positive integer"
  | badGrace => "grace_window_secs must be a non-negative integer"
  | notTimeframeList => "execution_timeframes must be a list"
  | workers found => "must be between 1 and 256, got " ++ toString found
  | unknownTimeframe text => Timeframe.unknownMessage text
  | notSwitch entry => "expected SYMBOL:tf, got '" ++ entry ++ "'"
  | emptySymbol entry => "missing symbol in '" ++ entry ++ "'"
  | logLevel text => "unknown log level '" ++ text ++ "'"
  | symbols error => error.message
  | notInstant text => "'" ++ text ++ "' is not an instant such as 2024-03-01T12:00:30Z"

/-- What is at fault. -/
inductive Fault where
  /-- A file is missing or no document of its format. -/
  | configParse (file reason : String)
  /-- A key is missing. -/
  | configMissing (area key : String)
  /-- A value is refused. -/
  | configInvalid (area key : String) (refusal : Refusal)
  /-- A rule is spelt wrongly. -/
  | ruleParse (error : RuleError)
  /-- The review of the configuration found errors. -/
  | ruleInvalid (errors : List Finding)
  /-- A name refers to nothing. -/
  | unknownCondition (name : String) (path : Path)
  /-- A rule refers to itself. -/
  | circularReference (rule : String) (path : Path)
  /-- The bars cannot be had. -/
  | dataSource (reason : String)

namespace Fault

/-- The wording of a fault. -/
def message : Fault → String
  | configParse file reason => "config parse error in " ++ file ++ ": " ++ reason
  | configMissing area key => "missing config key [" ++ area ++ "] " ++ key
  | configInvalid area key refusal =>
    "invalid config value [" ++ area ++ "] " ++ key ++ ": " ++ refusal.message
  | ruleParse error => error.message
  | ruleInvalid errors =>
    "invalid rule configuration: " ++ toString errors.length ++ " error(s): "
      ++ "; ".intercalate (errors.map fun f => f.path.render ++ ": " ++ f.flaw.message)
  | unknownCondition name path =>
    "unknown condition '" ++ name ++ "' referenced at " ++ path.render
  | circularReference rule path =>
    "circular reference through rule '" ++ rule ++ "' at " ++ path.render
  | dataSource reason => "data source error: " ++ reason

/-- The code with which the program ends. -/
def exitCode : Fault → Nat
  | configParse _ _ | configMissing _ _ | configInvalid _ _ _ => 2
  | dataSource _ => 3
  | ruleParse _ | ruleInvalid _ | unknownCondition _ _ | circularReference _ _ => 4

end Fault

/-- Why a computation stops early. -/
inductive Stop where
  /-- Something is at fault. -/
  | fault (f : Fault)
  /-- The computation broke down. -/
  | crash (c : Crash)

end TopDown
