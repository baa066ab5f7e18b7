import Std.Time.DateTime.Timestamp
import TopDown.Command.Perform

/-!
# The program

The outer layer: it reads the arguments, the clock and the files that a command may look into, lets
`TopDown.Command.perform` do the work, and prints what it leaves.
-/

namespace TopDown.Program

/-- What is under a path. -/
def findFile (path : String) : IO Found := do
  try
    return .file ⟨← IO.FS.readFile path, 0⟩
  catch e =>
    match e with
    | .noFileOrDirectory .. => return .nothing
    | e => return .unreadable ("failed to read " ++ path ++ ": " ++ toString e)

/-- The disk with what is under some further paths. -/
def lookInto (disk : Disk) (paths : List String) : IO Disk :=
  paths.foldlM (fun d path => return d.update path (← findFile path)) disk

/-- The present time. -/
def presentTime : IO Instant := do
  let t ← Std.Time.Timestamp.now
  return ((Instant.ofMillis? t.toMillisecondsSinceUnixEpoch.val).getD default)

/-- The hexadecimal digits of a byte. -/
def hexByte (b : UInt8) : List Char :=
  [Json.hexDigit (b.toNat / 16), Json.hexDigit (b.toNat % 16)]

/-- A random name for a run, in the notation of unique identifiers. -/
def randomRunId : IO RunId := do
  let bytes := (← IO.getRandomBytes 16).toList
  let marked := bytes.mapIdx fun i b =>
    if i = 6 then b &&& 0x0f ||| 0x40 else if i = 8 then b &&& 0x3f ||| 0x80 else b
  let digits := marked.flatMap hexByte
  let group (first count : Nat) := String.ofList ((digits.drop first).take count)
  return "-".intercalate [group 0 8, group 8 4, group 12 4, group 16 4, group 20 12]

/-- The files of bars that a run may look into. -/
def barPaths (p : Command.Preparation) : List String :=
  p.symbols.flatMap fun symbol => Timeframe.all.map (BarFiles.path p.folder symbol)

/-- What a command needs of the world. -/
def lookAround (line : Command.Line) : IO Command.Surroundings := do
  let now ← presentTime
  match line.task with
  | .conditions => return ⟨Disk.empty, now, fun _ => ""⟩
  | .validate rules _ => return ⟨← lookInto Disk.empty [rules], now, fun _ => ""⟩
  | .run task =>
    let disk ← lookInto Disk.empty (task.rules :: task.settings.toList)
    let around : Command.Surroundings := ⟨disk, now, fun _ => ""⟩
    let preparation := do
      Command.prepare around line.logLevel task (← Command.loadSettings disk task.settings)
    match preparation with
    | .error _ => return around
    | .ok p =>
      let names ← p.symbols.mapM fun _ => randomRunId
      return { around with
        disk := ← lookInto disk (barPaths p)
        name := fun i => names.getD i "" }

/-- How the program is called. -/
def usage : List String :=
  ["Usage: topdown [--log-level LEVEL] COMMAND",
    "",
    "Commands:",
    "  validate    Statically validate a rule configuration file",
    "      -r, --rules RULES            The file of rules",
    "          --json                   Print the validation report as JSON",
    "  run         Run the cascade for one or more symbols",
    "      -r, --rules RULES            The file of rules",
    "      -s, --settings SETTINGS      INI engine settings",
    "          --data-dir DIR           The folder of the bars",
    "          --symbols SYMBOLS        Comma separated symbols, e.g. BTCUSDT,ETHUSDT",
    "          --start-from TIMEFRAME   The timeframe to start on",
    "          --now TIME               Evaluation time (RFC 3339)",
    "          --force-run              Pass by all gates but the first",
    "          --force-timeframe-check  Do not wait for bars to close",
    "          --workers N              How many workers share the batch",
    "          --json                   Print reports and the audit trail as JSON",
    "  conditions  List the built-in conditions",
    "  help        Print this message"]

/-- Runs the program on its arguments and returns the code with which it ends. -/
def run (args : List String) : IO UInt32 := do
  match Command.parse args with
  | .error halt =>
    let output ← if halt = .help then IO.getStdout else IO.getStderr
    usage.forM output.putStrLn
    return UInt32.ofNat halt.exitCode
  | .ok line =>
    match Command.perform (← lookAround line) line with
    | .error crash =>
      IO.eprintln crash.message
      return 101
    | .ok outcome =>
      IO.eprint outcome.remarksText
      IO.print outcome.printed.text
      return UInt32.ofNat outcome.exitCode

end TopDown.Program

/-- Runs the program. -/
def main (args : List String) : IO UInt32 :=
  TopDown.Program.run args
