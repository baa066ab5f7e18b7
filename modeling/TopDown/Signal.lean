import TopDown.Time.Rfc3339
import TopDown.Timeframe
import TopDown.Json.Value

/-!
# Signals

On each timeframe a cascade finds a `TopDown.Side`: to buy, to sell, or neither. What is known of the
coarser timeframes of a run is passed on to the finer ones as a list of `TopDown.KnownSignal`.
-/

namespace TopDown

/-- Which way to trade. -/
inductive Side where
  /-- Buy. -/
  | long
  /-- Sell. -/
  | short
  /-- Neither. -/
  | none
  deriving DecidableEq, Repr, Inhabited

namespace Side

/-- The name of a side. -/
def name : Side → String
  | long => "LONG"
  | short => "SHORT"
  | none => "NONE"

/-- The side that two lists of rules speak for. Where both pass, buying wins. -/
def resolve (longPassed shortPassed : Bool) : Side :=
  if longPassed then long else if shortPassed then short else none

/-- The side is one to trade on. -/
def isDirectional : Side → Bool
  | none => false
  | _ => true

end Side

/-- How a step of a cascade ended. -/
inductive StepStatus where
  /-- The rules were checked. -/
  | valid
  /-- The rules cannot give a signal. -/
  | invalid
  /-- The step was not taken. -/
  | skipped
  /-- The bar has opened too recently. -/
  | graceWindow
  /-- Something went wrong. -/
  | error
  deriving DecidableEq, Repr, Inhabited

namespace StepStatus

/-- The code of a status in reports. -/
def code : StepStatus → String
  | valid => "VALID"
  | invalid => "INVALID"
  | skipped => "SKIPPED"
  | graceWindow => "GRACE_WINDOW"
  | error => "ERROR"

/-- The word for a status in the audit. -/
def word : StepStatus → String
  | valid => "Valid"
  | invalid => "Invalid"
  | skipped => "Skipped"
  | graceWindow => "GraceWindow"
  | error => "Error"

end StepStatus

/-- What is known of a timeframe. -/
structure KnownSignal where
  /-- The timeframe. -/
  timeframe : Timeframe
  /-- How its step ended. -/
  status : StepStatus
  /-- The side that it spoke for. -/
  side : Side
  /-- When its newest bar opened. -/
  barTime : Option Instant
  deriving DecidableEq

/-- An instant in a report. -/
def Instant.toJson (t : Instant) : Json :=
  .str t.render

/-- A timeframe in a report. -/
def Timeframe.toJson (tf : Timeframe) : Json :=
  .str tf.name

/-- A known signal in a report. -/
def KnownSignal.toJson (k : KnownSignal) : Json :=
  .obj [("klineTime", Json.ofOption Instant.toJson k.barTime), ("signalSide", .str k.side.name),
    ("status", .str k.status.code), ("timeframe", k.timeframe.toJson)]

end TopDown
