import TopDown.Book.Load
import TopDown.Command.Line
import TopDown.Command.Outcome
import TopDown.History.BarFiles
import TopDown.Pipeline
import TopDown.RuleFile
import TopDown.Settings
import TopDown.Snapshot

/-!
# Performing a command

`TopDown.Command.perform` does what a command line asks for. All that it needs of the world is in
`TopDown.Command.Surroundings`: the files, the time, and names for runs.

A run first settles its settings, its symbols, its folder and its time, in this order, then loads the
rules, and then takes the symbols of the batch one after the other. It ends with a code of its own if
one of them ends in an error.
-/

namespace TopDown.Command

/-- What a command needs of the world. -/
structure Surroundings where
  /-- The files. -/
  disk : Disk
  /-- The time, where no other is asked for. -/
  now : Instant
  /-- The names of runs. -/
  name : Nat → RunId

/-! ### Log levels -/

/-- The names of the log levels. -/
def logLevels : List String :=
  ["off", "error", "warn", "info", "debug", "trace"]

/-- The complaint about a log level, if it is unknown. Upper and lower case are the same. -/
def logLevelFault? (level : Option String) : Option Fault :=
  level.bind fun s =>
    if logLevels.contains (Text.lowerAscii s) then none
    else some (.configInvalid "engine" "log_level" (.logLevel s))

/-! ### Conditions -/

/-- Lists the built-in conditions in the order of their names. -/
def listConditions : Outcome :=
  .success (.lines (Registry.builtin.names.mergeSort fun a b => decide (a ≤ b))) []

/-! ### Files -/

/-- The text of a file that must be there. -/
def readText (disk : Disk) (path : String) : Except Fault String :=
  match disk path with
  | .nothing => .error (.configParse path "no such file")
  | .unreadable reason => .error (.configParse path reason)
  | .file f => .ok f.text

/-- The configuration of a file. -/
def loadRules (disk : Disk) (path : String) : Except Fault Json := do
  RuleFile.parse (.ofPath path) path (← readText disk path)

/-! ### Reviews -/

/-- The findings of a report, one a line. -/
def reportLines (r : Report) : List String :=
  r.errors.map (fun f => "error: " ++ f.line) ++ r.warnings.map fun f => "warning: " ++ f.line

/-- What is printed about a configuration that has been reviewed. -/
def printReport (asDocument : Bool) (r : Report) (more : List String) : Printed :=
  if asDocument then .document r.toJson else .lines (reportLines r ++ more)

/-- Reviews a configuration. One without errors must compile, too. -/
def reviewConfig (path : String) (asDocument : Bool) (config : Json) : Except Crash Outcome :=
  let r := review Registry.builtin config
  let errors := toString r.errors.length
  let warnings := toString r.warnings.length
  if r.errors.isEmpty then
    match Book.compile Registry.builtin config with
    | .error (.crash c) => .error c
    | .error (.fault f) =>
      .ok { Outcome.ofFault [] f with printed := printReport asDocument r [] }
    | .ok _ =>
      .ok (.success (printReport asDocument r [path ++ ": OK (" ++ warnings ++ " warning(s))"]) [])
  else
    .ok ⟨4, printReport asDocument r [],
      [path ++ ": " ++ errors ++ " error(s), " ++ warnings ++ " warning(s)"]⟩

/-- Reviews the configuration of a file. -/
def validate (s : Surroundings) (logLevel : Option String) (path : String) (asDocument : Bool) :
    Except Crash Outcome :=
  match logLevelFault? logLevel with
  | some f => .ok (.ofFault [] f)
  | none =>
    match loadRules s.disk path with
    | .error f => .ok (.ofFault [] f)
    | .ok config => reviewConfig path asDocument config

/-! ### Runs -/

/-- The settings of a file, or the standard ones if no file is named. -/
def loadSettings (disk : Disk) : Option String → Except Fault Settings
  | none => .ok .standard
  | some path => do
    match Ini.parse (← readText disk path) with
    | .error e => .error (.configParse path e.message)
    | .ok ini => Settings.ofSource ini.source

/-- The symbols of a run. -/
def readSymbols (text : String) : Except Fault (List String) :=
  match parseSymbols text with
  | .ok symbols => .ok symbols
  | .error e => .error (.configInvalid "run" "symbols" (.symbols e))

/-- The folder of the bars. -/
def chooseFolder (task : RunTask) (settings : Settings) : Except Fault String :=
  match task.folder.or settings.folder with
  | some folder => .ok folder
  | none => .error (.configMissing "engine" "data_dir")

/-- The time of a run. -/
def chooseNow (s : Surroundings) : Option String → Except Fault Instant
  | none => .ok s.now
  | some text =>
    match Instant.parse? text with
    | some t => .ok t
    | none => .error (.configInvalid "run" "now" (.notInstant text))

/-- What a run needs besides its rules. -/
structure Preparation where
  /-- The settings. -/
  settings : Settings
  /-- The symbols. -/
  symbols : List String
  /-- The folder of the bars. -/
  folder : String
  /-- The time. -/
  now : Instant

/-- Prepares a run, whose settings have been loaded. -/
def prepare (s : Surroundings) (logLevel : Option String) (task : RunTask) (settings : Settings) :
    Except Fault Preparation := do
  match logLevelFault? (logLevel.or settings.logLevel) with
  | some f => .error f
  | none =>
    let symbols ← readSymbols task.symbols
    let folder ← chooseFolder task settings
    let now ← chooseNow s task.now
    return { settings, symbols, folder, now }

/-- The book of a file of rules. -/
def loadBook (disk : Disk) (path : String) : Except Stop Book :=
  match loadRules disk path with
  | .error f => .error (.fault f)
  | .ok config => (Book.load Registry.builtin config).map (·.1)

/-- Runs the symbols of a batch by the rules of a book. -/
def runBatch (s : Surroundings) (task : RunTask) (p : Preparation) (b : Book) :
    Except Crash (List SignalReport) × List AuditRecord :=
  let processors := ruleProcessors (BarFiles.source p.folder) (Snapshot.builder Snapshot.defaultPeriod)
  let options : RunOptions :=
    { now := p.now, start := task.start.or p.settings.start, flags := task.flags }
  let world : World BarFiles := ⟨KillSwitch.ofSwitches p.settings.off, BarFiles.unread s.disk⟩
  let (reports, records, _) := Pipeline.runAll processors b options none s.name p.symbols world
  (reports, records)

/-- The reports and the audit of a batch as a document. -/
def batchDocument (reports : List SignalReport) (records : List AuditRecord) : Json :=
  .obj [("audit", .arr (records.map AuditRecord.toJson)),
    ("reports", .arr (reports.map SignalReport.toJson))]

/-- What is printed about a batch. -/
def printBatch (asDocument : Bool) (reports : List SignalReport) (records : List AuditRecord) :
    Printed :=
  if asDocument then .document (batchDocument reports records)
  else .lines (reports.map SignalReport.summary)

/-- The code of a batch: a code of its own if a symbol has ended in an error. -/
def batchExitCode (reports : List SignalReport) : Nat :=
  if reports.any fun r => r.result.status == .error then 3 else 0

/-- Runs a configuration that is prepared. -/
def runPrepared (s : Surroundings) (task : RunTask) (p : Preparation) : Except Crash Outcome :=
  let remarks := ["Loading rules from " ++ task.rules]
  match loadBook s.disk task.rules with
  | .error (.crash c) => .error c
  | .error (.fault f) => .ok (.ofFault remarks f)
  | .ok b =>
    let (reports, records) := runBatch s task p b
    match reports with
    | .error c => .error c
    | .ok reports =>
      .ok ⟨batchExitCode reports, printBatch task.asDocument reports records, remarks⟩

/-- Runs a configuration over symbols. If the settings cannot be loaded, a log level on the command
line is still looked at. -/
def runConfig (s : Surroundings) (logLevel : Option String) (task : RunTask) :
    Except Crash Outcome :=
  match loadSettings s.disk task.settings with
  | .error f => .ok (.ofFault ((logLevelFault? logLevel).map Outcome.remarkOn).toList f)
  | .ok settings =>
    match prepare s logLevel task settings with
    | .error f => .ok (.ofFault [] f)
    | .ok p => runPrepared s task p

/-! ### Commands -/

/-- Does what a command line asks for. -/
def perform (s : Surroundings) (line : Line) : Except Crash Outcome :=
  match line.task with
  | .validate rules asDocument => validate s line.logLevel rules asDocument
  | .run task => runConfig s line.logLevel task
  | .conditions => .ok listConditions

end TopDown.Command
