import TopDown.Gate

/-!
# The way down

A run takes a symbol down the timeframes, from coarse to fine, as long as every step is valid and
speaks for the same side as the one before. It ends *ready* when the finest timeframe agrees and the
side is one to trade on; any other step ends it early. A step that breaks down, or that nothing
takes, ends the run like an error.

`TopDown.Run` is a run under way. `TopDown.Run.advance` takes its next step, so that several runs may
take turns in any order; `TopDown.Run.complete` takes all of them. Every step leaves a record for the
audit, and so does the end.
-/

namespace TopDown

/-! ### Results -/

/-- How a run of a symbol ended. -/
inductive SymbolStatus where
  /-- The symbol may be traded. -/
  | ready
  /-- The timeframes give no signal. -/
  | invalid
  /-- A step was not taken. -/
  | skipped
  /-- A bar has opened too recently. -/
  | graceWindow
  /-- Something went wrong. -/
  | error
  deriving DecidableEq, Repr, Inhabited

namespace SymbolStatus

/-- The code of a status in reports. -/
def code : SymbolStatus → String
  | ready => "READY"
  | invalid => "INVALID"
  | skipped => "SKIPPED"
  | graceWindow => "GRACE_WINDOW"
  | error => "ERROR"

/-- The word for a status in the audit. -/
def word : SymbolStatus → String
  | ready => "Ready"
  | invalid => "Invalid"
  | skipped => "Skipped"
  | graceWindow => "GraceWindow"
  | error => "Error"

/-- How a run ends with a step of the given status. A valid step ends no run by itself. -/
def ofStep : StepStatus → SymbolStatus
  | .valid | .invalid => invalid
  | .skipped => skipped
  | .graceWindow => graceWindow
  | .error => error

end SymbolStatus

/-- What became of a symbol in a run. -/
structure SymbolResult where
  /-- The symbol. -/
  symbol : String
  /-- How the run ended. -/
  status : SymbolStatus
  /-- The timeframe to enter on. -/
  execution : Option Timeframe
  /-- The timeframe that ended the run early. -/
  failed : Option Timeframe
  /-- The side to trade on. -/
  side : Option Side
  /-- The current price. -/
  price : Option Float
  /-- The average true range. -/
  atr : Option Float
  /-- Why the run ended early. -/
  reason : Option Reason
  /-- The name of the run. -/
  runId : RunId
  /-- The timeframe on which the run started. -/
  start : Timeframe
  /-- The signals of the steps that agreed. -/
  known : List KnownSignal

namespace SymbolResult

/-- The symbol may be traded. -/
def isReady (r : SymbolResult) : Bool :=
  r.status == .ready

/-- A result in a report. -/
def toJson (r : SymbolResult) : Json :=
  .obj ((r.atr.toList.map fun x => ("atr", Json.ofFloat x))
    ++ [("context", .obj [("knownSignals", .arr (r.known.map KnownSignal.toJson)),
      ("runId", .str r.runId), ("startFrom", r.start.toJson)])]
    ++ (r.price.toList.map fun x => ("currentPrice", Json.ofFloat x))
    ++ (r.execution.toList.map fun tf => ("executionTf", tf.toJson))
    ++ (r.failed.toList.map fun tf => ("failedTimeframe", tf.toJson))
    ++ (r.reason.toList.map fun x => ("reason", .str x.code))
    ++ (r.side.toList.map fun s => ("signalSide", .str s.name))
    ++ [("status", .str r.status.code), ("symbol", .str r.symbol)])

end SymbolResult

/-- A record for the audit. -/
structure AuditRecord where
  /-- The name of the run. -/
  runId : RunId
  /-- The symbol. -/
  symbol : String
  /-- What the record is about: a timeframe, or the result. -/
  step : String
  /-- What happened, in a few words. -/
  message : String
  /-- What happened, in full. -/
  context : Json

/-- A record as a document. -/
def AuditRecord.toJson (r : AuditRecord) : Json :=
  .obj [("context", r.context), ("message", .str r.message), ("runId", .str r.runId),
    ("step", .str r.step), ("symbol", .str r.symbol)]

/-! ### Runs -/

/-- How a run ended. -/
inductive Ending where
  /-- All timeframes agree. -/
  | ready
  /-- The run ended early, or without a side to trade on. -/
  | stopped (status : SymbolStatus) (failed : Timeframe) (reason : Option Reason)
  deriving DecidableEq

/-- What is asked of a run. -/
structure RunOptions where
  /-- The time. -/
  now : Instant
  /-- The timeframe to start on, if not the one of the book. -/
  start : Option Timeframe := none
  /-- Which gates are passed by. -/
  flags : Flags := {}
  deriving Inhabited

/-- A run under way. -/
structure Run where
  /-- The symbol. -/
  symbol : String
  /-- The name of the run. -/
  runId : RunId
  /-- The timeframe on which it started. -/
  start : Timeframe
  /-- The timeframes that are still to come. -/
  pending : List Timeframe
  /-- The steps that have been taken. -/
  steps : List StepResult
  /-- The signals of the steps that agreed. -/
  known : List KnownSignal
  /-- How it ended, if it has. -/
  ending : Option Ending

namespace Run

/-- A run that is about to start. -/
def begin (symbol : String) (runId : RunId) (b : Book) (options : RunOptions) : Run :=
  let start := options.start.getD b.start
  ⟨symbol, runId, start, start.sequence, [], [], none⟩

/-- The run ended with its last step. -/
def stop (r : Run) (step : StepResult) (ending : Ending) : Run :=
  { r with steps := r.steps ++ [step], ending := some ending }

/-- The step speaks for another side than the one before it. -/
def misalignment? (r : Run) (step : StepResult) : Option Timeframe :=
  match r.steps.getLast? with
  | some parent => if step.side = parent.side then none else some parent.timeframe
  | none => none

/-- The ending after all timeframes have agreed with this step. -/
def endingAt (step : StepResult) : Ending :=
  if step.side.isDirectional then .ready
  else .stopped .invalid step.timeframe (some .noSignal)

/-- The run goes on after a step that agreed, or ends if it was the last. -/
def accept (r : Run) (rest : List Timeframe) (step : StepResult) : Run :=
  { r with
    pending := rest
    steps := r.steps ++ [step]
    known := r.known ++ [step.known]
    ending := if rest.isEmpty then some (endingAt step) else none }

/-- The run after the step of a timeframe, with the rest still to come. -/
def take (r : Run) (tf : Timeframe) (rest : List Timeframe) (step : StepResult) : Run :=
  if !step.isValid then r.stop step (.stopped (.ofStep step.status) tf step.endingReason)
  else
    match r.misalignment? step with
    | some parent => r.stop step (.stopped .invalid tf (some (.misaligned tf parent)))
    | none => r.accept rest step

/-- The result of a run with the given ending. -/
def resultOf (r : Run) (ending : Ending) : SymbolResult :=
  let last := r.steps.getLast?
  let base : SymbolResult :=
    { symbol := r.symbol, status := .ready, execution := none, failed := none, side := none
      price := last.bind (·.price), atr := last.bind (·.atr), reason := none
      runId := r.runId, start := r.start, known := r.known }
  match ending with
  | .ready => { base with execution := last.map (·.timeframe), side := last.map (·.side) }
  | .stopped status failed reason => { base with status, failed := some failed, reason }

/-! ### Records -/

/-- The record of a step. -/
def stepRecord (r : Run) (step : StepResult) : AuditRecord :=
  ⟨r.runId, r.symbol, step.timeframe.name, step.status.word ++ " " ++ step.side.name, step.toJson⟩

/-- The record of the end. -/
def endRecord (r : Run) (ending : Ending) : AuditRecord :=
  let result := r.resultOf ending
  ⟨r.runId, r.symbol, "result", result.status.word, result.toJson⟩

/-! ### Steps -/

/-- Attempts the step of a timeframe. -/
def attempt {σ : Type} (processors : ByTimeframe (Processor σ)) (tf : Timeframe) (symbol : String)
    (view : RunView) (s : σ) : StepResult × σ :=
  match processors tf with
  | none => (.unattended tf, s)
  | some process =>
    match process symbol view s with
    | (.ok step, s) => (step, s)
    | (.error crash, s) => (.broken tf crash, s)

/-- What the next step knows of the run. -/
def view (r : Run) (b : Book) (options : RunOptions) : RunView :=
  ⟨r.runId, options.now, r.known, options.flags, b⟩

/-- Takes the next step of a run, unless it has ended. The records are those that the step leaves,
and the end with it. -/
def advance {σ : Type} (processors : ByTimeframe (Processor σ)) (b : Book) (options : RunOptions)
    (r : Run) (s : σ) : Run × List AuditRecord × σ :=
  match r.ending, r.pending with
  | none, tf :: rest =>
    let (step, s) := attempt processors tf r.symbol (r.view b options) s
    let after := r.take tf rest step
    (after, r.stepRecord step :: (after.ending.toList.map after.endRecord), s)
  | _, _ => (r, [], s)

/-- Takes so many steps of a run. -/
def advanceTimes {σ : Type} (processors : ByTimeframe (Processor σ)) (b : Book)
    (options : RunOptions) : Nat → Run → σ → Run × List AuditRecord × σ
  | 0, r, s => (r, [], s)
  | n + 1, r, s =>
    let (r, records, s) := r.advance processors b options s
    let (r, later, s) := advanceTimes processors b options n r s
    (r, records ++ later, s)

/-- Takes all steps of a run. -/
def complete {σ : Type} (processors : ByTimeframe (Processor σ)) (b : Book) (options : RunOptions)
    (r : Run) (s : σ) : Run × List AuditRecord × σ :=
  r.advanceTimes processors b options r.pending.length s

/-- The result of a run. One that has not ended has no signal on its next timeframe. -/
def result (r : Run) : SymbolResult :=
  r.resultOf (r.ending.getD (.stopped .invalid r.start (some .noSignal)))

end Run

end TopDown
