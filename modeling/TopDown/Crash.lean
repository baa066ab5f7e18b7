/-!
# Computations that break down

A configuration, a table of bars or a collaborator may be at fault, and then the library says so in
its results. A few computations have no result at all: an instant beyond the calendar, a count that
does not fit into 64 bits. Such a breakdown is a `TopDown.Crash`. A step of a cascade survives it and
ends in an error that quotes `TopDown.Crash.message`.
-/

namespace TopDown

/-- Why a computation has no result. -/
inductive Crash where
  /-- A duration was added to an instant and led beyond the calendar. -/
  | instantSum
  /-- A duration was taken from an instant and led beyond the calendar. -/
  | instantDifference
  /-- A duration has more seconds than the clock can count. -/
  | durationRange
  /-- The sum of two counts does not fit into 64 bits. -/
  | countSum
  /-- A count was taken from a smaller one. -/
  | countDifference
  /-- A list of the given length has no item in the given place. -/
  | outOfBounds (length place : Nat)
  /-- A collaborator broke down, with a text of its own if it left one. -/
  | collaborator (text : Option String)
  deriving DecidableEq, Repr, Inhabited

/-- The text that a breakdown leaves behind. -/
def Crash.message : Crash → String
  | .instantSum => "`DateTime + TimeDelta` overflowed"
  | .instantDifference => "`DateTime - TimeDelta` overflowed"
  | .durationRange => "TimeDelta::seconds out of bounds"
  | .countSum => "attempt to add with overflow"
  | .countDifference => "attempt to subtract with overflow"
  | .outOfBounds length place =>
    "index out of bounds: the len is " ++ toString length ++ " but the index is " ++ toString place
  | .collaborator (some text) => text
  | .collaborator none => "panicked"

end TopDown
