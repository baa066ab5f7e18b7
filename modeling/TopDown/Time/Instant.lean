import TopDown.Crash
import TopDown.Time.Calendar

/-!
# Instants

An instant is a whole number of seconds since the epoch, the first of January 1970, and a part of a
second in nanoseconds. A leap second is the second that it follows with a part of a whole second or
more, and so lies between that second and the next.

Instants end with the calendar, which has the years from −262143 to 262142. A duration that leads
out of it has no result: `TopDown.Instant.later` and `TopDown.Instant.earlier` break down there.
-/

namespace TopDown

/-- A point in time. -/
structure Instant where
  /-- The whole seconds since the epoch. -/
  seconds : Int
  /-- The nanoseconds since the last whole second; a thousand million or more in a leap second. -/
  nanos : Nat
  deriving DecidableEq, Repr, Inhabited

namespace Instant

/-! ### Order -/

/-- The instant comes strictly before another. -/
def before (a b : Instant) : Bool :=
  decide (a.seconds < b.seconds) || (decide (a.seconds = b.seconds) && decide (a.nanos < b.nanos))

/-- The instant is another or comes before it. -/
def upTo (a b : Instant) : Bool :=
  !b.before a

/-- The later of two instants. -/
def latest (a b : Instant) : Instant :=
  if a.before b then b else a

/-! ### The calendar's range -/

/-- The seconds of a day. -/
def secondsOfDay : Int := 86400

/-- The first second of the calendar. -/
def firstSecond : Int :=
  Calendar.dayNumber ⟨-262143, 1, 1⟩ * secondsOfDay

/-- The last second of the calendar. -/
def lastSecond : Int :=
  (Calendar.dayNumber ⟨262142, 12, 31⟩ + 1) * secondsOfDay - 1

/-- A whole number of seconds lies within the calendar. -/
def inCalendar (seconds : Int) : Bool :=
  decide (firstSecond ≤ seconds) && decide (seconds ≤ lastSecond)

/-- The instant the given number of whole seconds after the epoch. -/
def ofSeconds? (seconds : Int) : Option Instant :=
  if inCalendar seconds then some ⟨seconds, 0⟩ else none

/-- The instant the given number of milliseconds after the epoch. -/
def ofMillis? (millis : Int) : Option Instant :=
  let seconds := millis / 1000
  if inCalendar seconds then some ⟨seconds, ((millis % 1000) * 1000000).toNat⟩ else none

/-! ### Durations -/

/-- The nanoseconds of a second. -/
def nanosOfSecond : Nat := 1000000000

/-- The instant lies in a leap second. -/
def isLeap (t : Instant) : Bool :=
  decide (nanosOfSecond ≤ t.nanos)

/-- The instant some whole seconds away. Going forward out of a leap second keeps the part of the
second, going back counts the leap second as one more. -/
def shift? (t : Instant) (seconds : Int) : Option Instant :=
  if seconds = 0 then some t
  else
    let target := t.seconds + seconds + (if t.isLeap && decide (seconds < 0) then 1 else 0)
    let nanos := if t.isLeap then t.nanos - nanosOfSecond else t.nanos
    if inCalendar target then some ⟨target, nanos⟩ else none

/-- The instant some seconds later. -/
def later (t : Instant) (seconds : Int) : Except Crash Instant :=
  match t.shift? seconds with
  | some r => .ok r
  | none => .error .instantSum

/-- The instant some seconds earlier. -/
def earlier (t : Instant) (seconds : Int) : Except Crash Instant :=
  match t.shift? (-seconds) with
  | some r => .ok r
  | none => .error .instantDifference

/-- The nanoseconds from one instant, which does not lie in a leap second, to a later one. -/
def nanosSince (t start : Instant) : Int :=
  (t.seconds - start.seconds) * nanosOfSecond + (t.nanos - start.nanos)

/-- The most seconds a duration may have. -/
def maxDuration : Int :=
  Int64.maxValue.toInt / 1000

/-- A number of seconds is a duration. -/
def isDuration (seconds : Int) : Bool :=
  decide (seconds.natAbs ≤ maxDuration)

end Instant

end TopDown
