import TopDown.Gate

/-!
# Snapshots

A snapshot turns the latest bars of a symbol into a context. Every column of the bars becomes three
facts: its newest value, the value before, and the series of all values, in which a bar without a
value has an undefined number. An undefined newest or previous value is left out, so that it counts
as unknown and no older value stands in for it.

The columns of exponential averages are also gathered in a table, so that `ema.50` finds the column
`ema_50`. Bars without a column for the average true range get one from their own ranges.
-/

namespace TopDown

namespace Snapshot

/-- The undefined number. -/
def undefined : Float := 0.0 / 0.0

/-- The facts with those of a column. -/
def withColumn (name : String) (values : List Float) (facts : Table Fact) : Table Fact :=
  match values.reverse with
  | [] => facts
  | newest :: older =>
    let facts := if newest.isFinite then Table.put name (.number newest) facts else facts
    let facts :=
      match older with
      | previous :: _ =>
        if previous.isFinite then Table.put (Context.previousKey name) (.number previous) facts
        else facts
      | [] => facts
    Table.put (Context.seriesKey name) (.series values) facts

/-- The columns that every bar has. -/
def coreColumns : List (String × (Bar → Float)) :=
  [("open", Bar.opening), ("high", Bar.high), ("low", Bar.low), ("close", Bar.close),
   ("volume", Bar.volume)]

/-- The further columns that some bar has, in the order of their names. -/
def extraColumns (bars : List Bar) : List String :=
  Table.names (Table.ofEntries ((bars.flatMap fun b => Table.names b.extras).map fun n => (n, ())))

/-- The values of a further column, one for each bar. -/
def extraValues (bars : List Bar) (name : String) : List Float :=
  bars.map fun b => (b.extras.lookup name).getD undefined

/-- The period of a column that is an exponential average. -/
def periodOf? (name : String) : Option String :=
  match Text.afterStart? "ema_".toList name.toList with
  | some period => if period.all Char.isDigit then some (String.ofList period) else none
  | none => none

/-- The newest values of the exponential averages, under their periods. -/
def averages (bars : List Bar) (columns : List String) : Table Float :=
  Table.ofEntries <| columns.filterMap fun name => do
    let period ← periodOf? name
    let newest ← (extraValues bars name).getLast?
    if newest.isFinite then some (period, newest) else none

/-- The sum of some numbers. It starts from the negative zero, which leaves every number as it is. -/
def sum (xs : List Float) : Float :=
  xs.foldl (· + ·) (-0.0)

/-- The mean true range of the latest bars, as many as the period says. -/
def meanTrueRange? (period : Nat) (bars : List Bar) : Option Float :=
  let ranges := (bars.zip (bars.drop 1)).map fun (before, b) => b.trueRange before.close
  let latest := ranges.reverse.take period
  if latest.isEmpty then none
  else some (sum latest / Float.ofNat latest.length)

/-- The facts that come from columns. -/
def columnFacts (bars : List Bar) : Table Fact :=
  let core := coreColumns.foldl (fun facts (name, get) => withColumn name (bars.map get) facts) []
  (extraColumns bars).foldl (fun facts name => withColumn name (extraValues bars name) facts) core

/-- The facts of the bars, with the tables and ranges that are worked out from them. -/
def barFacts (period : Nat) (bars : List Bar) : Table Fact :=
  let facts := columnFacts bars
  let averages := averages bars (extraColumns bars)
  let facts := if averages.isEmpty then facts else Table.put "ema" (.map averages) facts
  if facts.has "atr" then facts
  else
    match meanTrueRange? period bars with
    | some x => Table.put "atr" (.number x) facts
    | none => facts

/-- The period of the average true range, unless another one is asked for. -/
def defaultPeriod : Nat := 14

/-- The context of a symbol's latest bars. The run and the signals of coarser timeframes are facts
of it, too. -/
def build (period : Nat) (symbol : String) (tf : Timeframe) (bars : List Bar)
    (runId : Option String) (known : List KnownSignal) : Except Fault Context :=
  if bars.isEmpty then
    .error (.dataSource ("no bars to build a " ++ tf.name ++ " context for " ++ symbol))
  else
    let facts := barFacts (max 1 period) bars
    let facts := Table.put "symbol" (.text symbol) facts
    let facts := Table.put "timeframe" (.text tf.name) facts
    let facts := Table.put "bar_count" (.number (Float.ofNat bars.length)) facts
    let facts := (runId.map fun id => Table.put "run_id" (.text id) facts).getD facts
    let facts := known.foldl
      (fun facts k => Table.put ("signal_" ++ k.timeframe.name) (.text k.side.name) facts) facts
    .ok (Context.ofFacts symbol tf facts)

/-- The contexts of runs are snapshots. -/
def builder (period : Nat) : ContextBuilder := fun symbol tf bars runId known =>
  match build period symbol tf bars (some runId) known with
  | .ok c => .ok c
  | .error f => .error (.fault f)

end Snapshot

end TopDown
