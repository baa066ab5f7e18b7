import TopDown.Json.Value
import TopDown.Timeframe

/-!
# What is known about a symbol

A `TopDown.Context` is the sheet of facts that rules are checked against: what is known about one
symbol on one timeframe at one time. A fact is a number, a flag, a text, a series over the latest
bars, or a table of numbers.

A fact can be asked for in more ways than it is stored. `TopDown.Context.number` finds a number of
its own, the last value of a series, a flag as zero or one, and an entry of a table under a dotted
key. `TopDown.Context.series` and `TopDown.Context.previous` look back in time.

Besides its facts a context may carry thresholds for named conditions, laid over them by
`TopDown.Context.withThresholds`. They replace the defaults of those conditions.
-/

namespace TopDown

/-- Something known about a symbol. -/
inductive Fact where
  /-- A number. -/
  | number (x : Float)
  /-- A flag. -/
  | flag (b : Bool)
  /-- A text. -/
  | text (s : String)
  /-- The values at the latest bars, newest last. -/
  | series (xs : List Float)
  /-- Numbers under names. -/
  | map (entries : Table Float)
  deriving Inhabited

/-- What is known about a symbol on a timeframe. -/
structure Context where
  /-- The symbol. -/
  symbol : String
  /-- The timeframe. -/
  timeframe : Timeframe
  /-- The facts. -/
  facts : Table Fact
  /-- The thresholds laid over the facts, under their keys. -/
  thresholds : Table Float
  deriving Inhabited

namespace Context

/-- The context of the given facts, with no thresholds. -/
def ofFacts (symbol : String) (timeframe : Timeframe) (facts : Table Fact) : Context :=
  ⟨symbol, timeframe, facts, []⟩

/-- The key of the threshold of a condition. -/
def thresholdKey (name : String) : String :=
  name ++ "_threshold"

/-- The key of the series of a field. -/
def seriesKey (field : String) : String :=
  field ++ "_series"

/-- The key of the value of a field one bar ago. -/
def previousKey (field : String) : String :=
  "prev_" ++ field

/-! ### Extending -/

/-- The context with further thresholds, each under the key of its condition. -/
def withThresholds (c : Context) (named : List (String × Float)) : Context :=
  { c with thresholds := named.foldl (fun t e => Table.put (thresholdKey e.1) e.2 t) c.thresholds }

/-- The context with one more fact. -/
def withFact (c : Context) (key : String) (fact : Fact) : Context :=
  { c with facts := Table.put key fact c.facts }

/-! ### Asking -/

/-- The fact stored under a key. -/
def get? (c : Context) (key : String) : Option Fact :=
  c.facts.lookup key

/-- The threshold laid over the facts for a condition. -/
def threshold? (c : Context) (name : String) : Option Float :=
  c.thresholds.lookup (thresholdKey name)

/-- The threshold of a condition, with its default. -/
def thresholdOr (c : Context) (name : String) (default : Float) : Float :=
  (c.threshold? name).getD default

/-- The series stored under exactly this key. -/
def storedSeries? (c : Context) (key : String) : Option (List Float) :=
  match c.get? key with
  | some (.series xs) => some xs
  | _ => none

/-- The number stored for a field: under its key, else at the end of its series, else in a table
under a dotted key. It may be infinite or undefined. -/
def storedNumber? (c : Context) (key : String) : Option Float :=
  match c.get? key with
  | some (.number x) => some x
  | some (.series xs) => xs.getLast?
  | some (.flag b) => some (if b then 1.0 else 0.0)
  | some (.text _) | some (.map _) => none
  | none =>
    match c.storedSeries? (seriesKey key) with
    | some xs => xs.getLast?
    | none =>
      match Text.cutFirst '.' key with
      | some (table, entry) =>
        match c.get? table with
        | some (.map entries) => entries.lookup entry
        | _ => none
      | none => none

/-- The number known for a field. A threshold of that key comes first; an infinite or undefined
stored number counts as unknown. -/
def number (c : Context) (key : String) : Option Float :=
  match c.thresholds.lookup key with
  | some x => some x
  | none => (c.storedNumber? key).filter Float.isFinite

/-- The series of a field: under the key of its series, else under its own key. -/
def series (c : Context) (field : String) : Option (List Float) :=
  match c.storedSeries? (seriesKey field) with
  | some xs => some xs
  | none => c.storedSeries? field

/-- The last value but one of a series. -/
def lastButOne? (xs : List Float) : Option Float :=
  match xs.reverse with
  | _ :: x :: _ => some x
  | _ => none

/-- The value of a field one bar ago: a number of its own, else the last value but one of its
series. -/
def previous (c : Context) (field : String) : Option Float :=
  match c.number (previousKey field) with
  | some x => some x
  | none => ((c.series field).bind lastButOne?).filter Float.isFinite

/-- The text stored under a key. -/
def text? (c : Context) (key : String) : Option String :=
  match c.get? key with
  | some (.text s) => some s
  | _ => none

/-- The flag stored under a key. -/
def flag? (c : Context) (key : String) : Option Bool :=
  match c.get? key with
  | some (.flag b) => some b
  | _ => none

/-- The first number that is known among several fields. -/
def firstNumber (c : Context) (keys : List String) : Option Float :=
  keys.findSome? c.number

end Context

end TopDown
