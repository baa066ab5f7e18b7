import TopDown.Context
import TopDown.Signal
import TopDown.Verdict

/-!
# Results of steps

A step of a cascade, on one timeframe, ends in a `TopDown.StepResult`. Its status says how it ended,
and unless the step is valid, a `TopDown.Reason` says why. A valid step carries the side that its
rules speak for; the verdicts of the rules are kept for the audit.
-/

namespace TopDown

/-- Why a step or a run did not lead to a signal. -/
inductive Reason where
  /-- There are too few bars. -/
  | insufficientData
  /-- The newest bar is not closed. -/
  | tooRecent
  /-- The kill switch is off. -/
  | killSwitchOff
  /-- The bar has opened too recently. -/
  | graceWindow
  /-- The timeframe has no rules. -/
  | noRules
  /-- Data are missing for every rule. -/
  | undecided
  /-- The rules speak for no side. -/
  | noSignal
  /-- Nothing takes the steps of the timeframe. -/
  | noProcessor
  /-- The step broke down. -/
  | breakdown
  /-- The timeframe speaks for another side than the one above it. -/
  | misaligned (tf parent : Timeframe)
  /-- A reason of somebody else's making. -/
  | other (text : String)
  deriving DecidableEq, Repr

/-- The code of a reason in reports. -/
def Reason.code : Reason → String
  | insufficientData => "INSUFFICIENT_DATA"
  | tooRecent => "TOO_RECENT"
  | killSwitchOff => "KILL_SWITCH_OFF"
  | graceWindow => "GRACE_WINDOW"
  | noRules => "NO_RULES_CONFIGURED"
  | undecided => "UNDECIDED_MISSING_DATA"
  | noSignal => "NO_SIGNAL"
  | noProcessor => "NO_PROCESSOR"
  | breakdown => "PROCESSOR_PANIC"
  | misaligned tf parent => "ALIGNMENT_" ++ tf.name ++ "_NE_" ++ parent.name
  | other text => text

/-- How a step ended. -/
structure StepResult where
  /-- The timeframe. -/
  timeframe : Timeframe
  /-- How it ended. -/
  status : StepStatus
  /-- The side that the rules speak for. -/
  side : Side := .none
  /-- When the newest bar opened. -/
  barTime : Option Instant := none
  /-- The current price. -/
  price : Option Float := none
  /-- The average true range. -/
  atr : Option Float := none
  /-- The verdicts of the rules for buying. -/
  long : List Labelled := []
  /-- The verdicts of the rules for selling. -/
  short : List Labelled := []
  /-- Why the step is not valid. -/
  reason : Option Reason := none
  /-- What went wrong. -/
  error : Option String := none
  /-- What the rules were checked against. -/
  context : Option Context := none
  deriving Inhabited

namespace StepResult

/-- A valid step. -/
def valid (tf : Timeframe) (side : Side) : StepResult :=
  { timeframe := tf, status := .valid, side }

/-- A step whose rules cannot give a signal. -/
def invalid (tf : Timeframe) (reason : Reason) : StepResult :=
  { timeframe := tf, status := .invalid, reason := some reason }

/-- A step that was not taken. -/
def skipped (tf : Timeframe) (reason : Reason) : StepResult :=
  { timeframe := tf, status := .skipped, reason := some reason }

/-- A step in the grace window of its bar. -/
def graceWindow (tf : Timeframe) : StepResult :=
  { timeframe := tf, status := .graceWindow, reason := some .graceWindow }

/-- A step in which something went wrong. -/
def failed (tf : Timeframe) (error : String) : StepResult :=
  { timeframe := tf, status := .error, error := some error }

/-- A step that broke down. -/
def broken (tf : Timeframe) (crash : Crash) : StepResult :=
  { failed tf crash.message with reason := some .breakdown }

/-- A step that nothing takes. -/
def unattended (tf : Timeframe) : StepResult :=
  { failed tf ("no processor registered for " ++ tf.name) with reason := some .noProcessor }

/-- The step is valid. -/
def isValid (r : StepResult) : Bool :=
  r.status == .valid

/-- The side of a valid step; the others speak for none. -/
def effectiveSide (r : StepResult) : Side :=
  if r.isValid then r.side else .none

/-- What the step lets finer timeframes know. -/
def known (r : StepResult) : KnownSignal :=
  ⟨r.timeframe, r.status, r.effectiveSide, r.barTime⟩

/-- The reason why a run ends with this step: its own reason, or else its error. -/
def endingReason (r : StepResult) : Option Reason :=
  r.reason.or (r.error.map .other)

/-- A step in a report. -/
def toJson (r : StepResult) : Json :=
  .obj ([("atr", Json.ofOption Json.ofFloat r.atr),
      ("conditionsLong", .arr (r.long.map Labelled.toJson)),
      ("conditionsShort", .arr (r.short.map Labelled.toJson)),
      ("currentPrice", Json.ofOption Json.ofFloat r.price)]
    ++ (r.error.toList.map fun e => ("error", .str e))
    ++ [("klineTime", Json.ofOption Instant.toJson r.barTime)]
    ++ (r.reason.toList.map fun x => ("reason", .str x.code))
    ++ [("signalSide", .str r.side.name), ("status", .str r.status.code),
      ("timeframe", r.timeframe.toJson)])

end StepResult

end TopDown
