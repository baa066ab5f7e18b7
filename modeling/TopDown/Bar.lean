import TopDown.Table
import TopDown.Timeframe

/-!
# Bars

A bar sums up the trades of a symbol in one step of a timeframe. Besides its prices and its volume it
may carry further columns, which a source of bars has computed beforehand.
-/

namespace TopDown

/-- A bar of a symbol. -/
structure Bar where
  /-- The symbol that was traded. -/
  symbol : String
  /-- The length of the bar. -/
  timeframe : Timeframe
  /-- When the bar opened. -/
  openTime : Instant
  /-- The first price. -/
  opening : Float
  /-- The highest price. -/
  high : Float
  /-- The lowest price. -/
  low : Float
  /-- The last price. -/
  close : Float
  /-- The amount that was traded. -/
  volume : Float
  /-- Further columns. -/
  extras : Table Float
  deriving Inhabited

namespace Bar

/-- When the bar closes: one step after it opened. -/
def closeTime (b : Bar) : Except Crash Instant :=
  b.openTime.later b.timeframe.stepSeconds

/-- A full step has passed since the bar opened. -/
def isClosedAt (b : Bar) (now : Instant) : Except Crash Bool := do
  let limit ← now.earlier b.timeframe.stepSeconds
  return b.openTime.upTo limit

end Bar

/-- The larger of two numbers; an undefined number yields to a defined one. -/
def larger (x y : Float) : Float :=
  if x.isNaN then y else if y.isNaN then x else if x < y then y else x

/-- The true range of a bar after a given close: the widest of its own range and of the distances of
its extremes from that close. -/
def Bar.trueRange (b : Bar) (previousClose : Float) : Float :=
  larger (larger (b.high - b.low) (b.high - previousClose).abs) (b.low - previousClose).abs

end TopDown
