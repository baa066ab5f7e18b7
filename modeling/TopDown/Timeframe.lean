import TopDown.Text.Case
import TopDown.Text.Blank
import TopDown.Time.Instant

/-!
# Timeframes

A cascade looks at a symbol through five windows, from coarse to fine: bars of four hours, of one
hour, of fifteen, five and one minutes. The coarse ones say where a market is heading and the fine
ones when to enter; fifteen minutes serve both purposes.

`TopDown.Timeframe.sequence` is the way down from a timeframe to the finest, and
`TopDown.Timeframe.barOpen` the opening of the bar that an instant falls into.
-/

namespace TopDown

/-- The length of a bar. -/
inductive Timeframe where
  /-- Four hours. -/
  | h4
  /-- One hour. -/
  | h1
  /-- Fifteen minutes. -/
  | m15
  /-- Five minutes. -/
  | m5
  /-- One minute. -/
  | m1
  deriving DecidableEq, Repr, Inhabited

namespace Timeframe

/-- Every timeframe, coarsest first. -/
def all : List Timeframe :=
  [h4, h1, m15, m5, m1]

/-- The name of a timeframe. -/
def name : Timeframe → String
  | h4 => "4h"
  | h1 => "1h"
  | m15 => "15m"
  | m5 => "5m"
  | m1 => "1m"

/-- The seconds of a bar. -/
def stepSeconds : Timeframe → Nat
  | h4 => 14400
  | h1 => 3600
  | m15 => 900
  | m5 => 300
  | m1 => 60

/-! ### Up and down -/

/-- The place in the order, from the coarsest. -/
def rank : Timeframe → Nat
  | h4 => 0
  | h1 => 1
  | m15 => 2
  | m5 => 3
  | m1 => 4

/-- The next coarser timeframe. -/
def coarser? : Timeframe → Option Timeframe
  | h4 => none
  | h1 => some h4
  | m15 => some h1
  | m5 => some m15
  | m1 => some m5

/-- The next finer timeframe. -/
def finer? : Timeframe → Option Timeframe
  | h4 => some h1
  | h1 => some m15
  | m15 => some m5
  | m5 => some m1
  | m1 => none

/-- The way down from a timeframe to the finest one. -/
def sequence (tf : Timeframe) : List Timeframe :=
  all.drop tf.rank

/-- The timeframe tells where a market is heading. -/
def isContext : Timeframe → Bool
  | h4 | h1 | m15 => true
  | m5 | m1 => false

/-- The timeframe is one to enter a market on. -/
def isExecution : Timeframe → Bool
  | h4 | h1 => false
  | m15 | m5 | m1 => true

/-! ### Names -/

/-- What is expected where a text is not the name of a timeframe. -/
def expected : String :=
  "4h, 1h, 15m, 5m, 1m"

/-- The timeframe of a name, in any case and with blanks around it. -/
def parse? (s : String) : Option Timeframe :=
  match Text.lowerAscii (Text.trim s) with
  | "4h" => some h4
  | "1h" => some h1
  | "15m" => some m15
  | "5m" => some m5
  | "1m" => some m1
  | _ => none

/-- The complaint about a text that is not the name of a timeframe. -/
def unknownMessage (s : String) : String :=
  "unknown timeframe '" ++ s ++ "' (expected one of " ++ expected ++ ")"

/-! ### Bars -/

/-- The opening of the bar that an instant falls into. Bars are counted from the epoch. -/
def barOpen (tf : Timeframe) (t : Instant) : Instant :=
  (Instant.ofSeconds? (t.seconds - t.seconds % tf.stepSeconds)).getD t

end Timeframe

end TopDown
