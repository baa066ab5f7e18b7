import TopDown.Table
import TopDown.Timeframe

/-!
# The kill switch

The kill switch keeps symbols from being traded: on one timeframe until further notice, or on all of
them for some time. A timed disable never ends before an earlier one would have.
-/

namespace TopDown

/-- What is switched off. -/
structure KillSwitch where
  /-- The symbols and timeframes that are switched off for good. -/
  off : List (String × Timeframe)
  /-- When the timed disables of symbols end. -/
  ends : Table Instant
  deriving Inhabited

namespace KillSwitch

/-- Nothing is switched off. -/
def clear : KillSwitch :=
  ⟨[], []⟩

/-- Switches a symbol off on a timeframe. -/
def switchOff (k : KillSwitch) (symbol : String) (tf : Timeframe) : KillSwitch :=
  { k with off := (symbol, tf) :: k.off }

/-- The switch after several symbols have been switched off. -/
def ofSwitches (switches : List (String × Timeframe)) : KillSwitch :=
  switches.foldl (fun k s => k.switchOff s.1 s.2) clear

/-- When the timed disable of a symbol ends. -/
def disabledUntil (k : KillSwitch) (symbol : String) : Option Instant :=
  k.ends.lookup symbol

/-- The symbol may be traded on the timeframe now. -/
def allows (k : KillSwitch) (symbol : String) (tf : Timeframe) (now : Instant) : Bool :=
  !k.off.contains (symbol, tf) && (k.disabledUntil symbol).all fun t => t.upTo now

/-- Disables a symbol until an instant, or longer if it is disabled longer already. -/
def disableUntil (k : KillSwitch) (symbol : String) (t : Instant) : KillSwitch :=
  let t := ((k.disabledUntil symbol).map fun earlier => earlier.latest t).getD t
  { k with ends := Table.put symbol t k.ends }

/-- Disables a symbol for some seconds from now on. -/
def disableFor (k : KillSwitch) (symbol : String) (seconds : Int) (now : Instant) :
    Except Crash KillSwitch := do
  return k.disableUntil symbol (← now.later seconds)

end KillSwitch

end TopDown
