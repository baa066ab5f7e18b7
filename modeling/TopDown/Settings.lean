import TopDown.Fault
import TopDown.Ini

/-!
# Settings

Besides the rules, the work has a few settings: where the bars are, how many workers share a batch,
how much is logged, where a run starts, and which switches are off from the start.

Settings are looked up by area and key, in anything that answers such questions
(`TopDown.SettingsSource`), most often a file (`TopDown.Ini.source`). `TopDown.Settings.ofSource`
checks the answers one after the other and stops at the first that it refuses.
-/

namespace TopDown

/-! ### Where settings come from -/

/-- Whatever can be asked for settings, by area and key. -/
structure SettingsSource where
  /-- The text of a key that is not blank. -/
  text? : String → String → Option String
  /-- The integer of a key, or else the given one. -/
  integer : String → String → Int → Int
  /-- The entries of a list. -/
  list : String → String → List String

/-- A settings file as a source of settings. -/
def Ini.source (ini : Ini) : SettingsSource :=
  ⟨ini.text?, ini.integer, ini.list⟩

/-! ### Settings -/

/-- The settings of the program. -/
structure Settings where
  /-- The folder of the bars. -/
  folder : Option String
  /-- How many workers share a batch. -/
  workers : Nat
  /-- How much is logged. -/
  logLevel : Option String
  /-- The timeframe on which runs start, if it is not that of the book. -/
  start : Option Timeframe
  /-- The switches that are off from the start. -/
  off : List (String × Timeframe)
  deriving DecidableEq, Repr

namespace Settings

/-- How many workers share a batch unless something else is said. -/
def defaultWorkers : Nat := 4

/-- The settings where nothing is set. -/
def standard : Settings :=
  ⟨none, defaultWorkers, none, none, []⟩

/-- A symbol and a timeframe with a colon between them. -/
def parseSwitch (entry : String) : Except Refusal (String × Timeframe) :=
  match Text.cutFirst ':' entry with
  | none => .error (.notSwitch entry)
  | some (before, after) =>
    let symbol := normalSymbol before
    if symbol.isEmpty then .error (.emptySymbol entry)
    else
      match Timeframe.parse? after with
      | some tf => .ok (symbol, tf)
      | none => .error (.unknownTimeframe after)

/-- The number of workers, within its bounds. -/
def checkWorkers (n : Int) : Except Refusal Nat :=
  if 1 ≤ n && n ≤ 256 then .ok n.toNat else .error (.workers n)

/-- The timeframe on which runs start. -/
def checkStart : Option String → Except Refusal (Option Timeframe)
  | none => .ok none
  | some s =>
    match Timeframe.parse? s with
    | some tf => .ok (some tf)
    | none => .error (.unknownTimeframe s)

/-- The result, with a refusal blamed on a key. -/
def blame {α : Type} (area key : String) : Except Refusal α → Except Fault α
  | .ok a => .ok a
  | .error r => .error (.configInvalid area key r)

/-- The settings that a source has. -/
def ofSource (s : SettingsSource) : Except Fault Settings := do
  let workers ← blame "engine" "workers"
    (checkWorkers (s.integer "engine" "workers" defaultWorkers))
  let start ← blame "engine" "start_from_timeframe"
    (checkStart (s.text? "engine" "start_from_timeframe"))
  let off ← blame "kill_switch" "off" ((s.list "kill_switch" "off").mapM parseSwitch)
  return { workers, start, off
           folder := s.text? "engine" "data_dir"
           logLevel := s.text? "engine" "log_level" }

end Settings

end TopDown
