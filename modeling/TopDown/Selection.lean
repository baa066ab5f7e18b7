import TopDown.Book.Evaluate
import TopDown.Signal

/-!
# Choosing the timeframe to enter on

Once a signal is ready, the rules of the selection choose the timeframe to enter on.

First, none of the mandatory filters may fail. Then, in the layout by timeframe, the timeframes are
tried in order, and the first whose rules for staying all hold is chosen; the rules for and against
going down are checked for the audit only. In the flat layout one set of groups decides between
fifteen minutes and five. One minute may be chosen where the configuration allows it.

`TopDown.Book.select` returns the choice with its reason, and keeps every group that was checked.
-/

namespace TopDown

/-! ### Decisions -/

/-- A timeframe to enter on, or none. -/
inductive Choice where
  /-- Fifteen minutes. -/
  | m15
  /-- Five minutes. -/
  | m5
  /-- One minute. -/
  | m1
  /-- No entry. -/
  | none
  deriving DecidableEq, Repr

namespace Choice

/-- The timeframe that is chosen. -/
def timeframe? : Choice → Option Timeframe
  | m15 => some .m15
  | m5 => some .m5
  | m1 => some .m1
  | none => Option.none

/-- The choice of a timeframe. There is no entry on the coarse ones. -/
def ofTimeframe : Timeframe → Choice
  | .m15 => m15
  | .m5 => m5
  | .m1 => m1
  | .h4 | .h1 => none

/-- The name of a choice. -/
def name (c : Choice) : String :=
  (c.timeframe?.map Timeframe.name).getD "NONE"

end Choice

/-- What a choice rests on. -/
inductive Ground where
  /-- A mandatory filter failed. -/
  | filtersFailed
  /-- There are no rules to choose by. -/
  | noRules
  /-- No rule chose a timeframe. -/
  | fallback
  /-- The rules for staying on the timeframe hold. -/
  | stay (tf : Timeframe)
  /-- The rules for staying on fifteen minutes hold. -/
  | stayFlat
  /-- A rule speaks for going down to five minutes. -/
  | drop
  /-- A rule speaks against going down to five minutes. -/
  | forbid
  /-- A rule lets one minute be chosen. -/
  | minute
  deriving DecidableEq, Repr

/-- The code of a ground in reports. -/
def Ground.code : Ground → String
  | filtersFailed => "filters_mandatory_failed"
  | noRules => "no_rules_configured"
  | fallback => "no_timeframe_selected_fallback"
  | stay tf => tf.name ++ ".stay_on_if"
  | stayFlat => "stay_on_15m_if"
  | drop => "drop_to_5m_if_any"
  | forbid => "forbid_drop_to_5m_if_any"
  | minute => "allow_1m_only_for"

/-- A group of rules that was checked. -/
structure GroupRecord where
  /-- The group passed. -/
  passed : Bool
  /-- The verdicts of its rules. -/
  results : List Labelled

/-- The choice of a timeframe to enter on. -/
structure Decision where
  /-- The choice. -/
  choice : Choice
  /-- What it rests on. -/
  ground : Ground
  /-- The multiple of the risk that is expected. -/
  expectedMultiple : Option Float
  /-- The width of the entry zone. -/
  zoneWidth : Option Float
  /-- The groups that were checked, under their names. -/
  groups : Table GroupRecord

/-- A group in a report. -/
def GroupRecord.toJson (g : GroupRecord) : Json :=
  .obj [("passed", .bool g.passed), ("results", .arr (g.results.map Labelled.toJson))]

namespace Decision

/-- A decision in a report. -/
def toJson (d : Decision) : Json :=
  .obj ((d.zoneWidth.toList.map fun x => ("entryZoneWidthPct", Json.ofFloat x))
    ++ [("executionTimeframe", .str d.choice.name)]
    ++ (d.expectedMultiple.toList.map fun x => ("expectedRMultiple", Json.ofFloat x))
    ++ [("meta", .obj (Table.mapValues GroupRecord.toJson d.groups)),
      ("reason", .str d.ground.code)])

/-- The first breakdown in the groups that were checked. -/
def crash (d : Decision) : Option Crash :=
  Verdict.firstCrash (d.groups.flatMap fun g => g.2.results.map (·.verdict))

end Decision

/-! ### Checking groups -/

/-- What a choice is made from: the side, and the contexts of the timeframes. -/
structure SelectionInput where
  /-- The side to trade on. -/
  side : Side
  /-- The context of a timeframe that has none of its own. -/
  base : Context
  /-- The contexts of the timeframes. -/
  contexts : ByTimeframe Context

namespace SelectionInput

/-- The context with the side as a fact. -/
def withSide (input : SelectionInput) (c : Context) : Context :=
  c.withFact "signal_side" (.text input.side.name)

/-- The base context. -/
def baseContext (input : SelectionInput) : Context :=
  input.withSide input.base

/-- The context of a timeframe. -/
def contextOf (input : SelectionInput) (tf : Timeframe) : Context :=
  input.withSide ((input.contexts tf).getD input.base)

end SelectionInput

/-- A computation that keeps the groups it checks. -/
abbrev Weigh (α : Type) := StateM (Table GroupRecord) α

namespace Weigh

/-- Keeps a group under a name. -/
def keep (name : String) (g : GroupRecord) : Weigh Unit :=
  modify (Table.put name g)

/-- Checks a group of rules: whether all or any of them hold. A group without rules does not pass
and is not kept. -/
def group (b : Book) (q : Quantifier) (name : String) (c : Context) (rules : List Node.Id) :
    Weigh Bool :=
  if rules.isEmpty then return false
  else do
    let results := b.evaluateList c rules
    let passed := q.satisfied (results.map (·.verdict))
    keep name ⟨passed, results⟩
    return passed

/-- Checks the mandatory filters: whether one of them fails. -/
def filtersFail (b : Book) (c : Context) : Weigh Bool :=
  if b.selection.filters.isEmpty then return false
  else do
    let results := b.evaluateList c b.selection.filters
    let failed := (results.map (·.verdict)).any Verdict.fails
    keep "filters_mandatory" ⟨!failed, results⟩
    return failed

/-- Checks whether one minute may be chosen. -/
def allowsMinute (b : Book) (input : SelectionInput) : Weigh Bool :=
  if b.selection.allowsMinute then
    group b .any "allow_1m_only_for" (input.contextOf .m1) b.selection.minuteRules
  else return false

/-! ### The layout by timeframe -/

/-- Checks the groups of a timeframe: whether its rules for staying hold. The other groups are only
kept, and only if they do not. -/
def staysOn (b : Book) (input : SelectionInput) (tf : Timeframe) (g : Groups) : Weigh Bool := do
  let c := (input.contextOf tf).withThresholds (b.thresholds g.all)
  if ← group b .all (tf.name ++ ".stay_on_if") c g.stay then return true
  else
    let _ ← group b .any (tf.name ++ ".drop_to_lower_if_any") c g.drop
    let _ ← group b .any (tf.name ++ ".forbid_drop_to_lower_if_any") c g.forbid
    return false

/-- The first timeframe of an order whose rules for staying hold. -/
def firstStay (b : Book) (input : SelectionInput) (groups : ByTimeframe Groups) :
    List Timeframe → Weigh (Option Timeframe)
  | [] => return none
  | tf :: rest =>
    match groups tf with
    | none => firstStay b input groups rest
    | some g => do
      if ← staysOn b input tf g then return some tf
      else firstStay b input groups rest

/-- The choice in the layout by timeframe. -/
def byTimeframe (b : Book) (input : SelectionInput) (order : List Timeframe)
    (groups : ByTimeframe Groups) : Weigh (Choice × Ground) := do
  match ← firstStay b input groups order with
  | some tf => return (.ofTimeframe tf, .stay tf)
  | none =>
    if ← allowsMinute b input then return (.m1, .minute)
    else return (.ofTimeframe b.selection.default, .fallback)

/-! ### The flat layout -/

/-- The choice in the flat layout. -/
def flat (b : Book) (input : SelectionInput) (g : Groups) : Weigh (Choice × Ground) := do
  if g.stay.isEmpty && g.drop.isEmpty && g.forbid.isEmpty then
    return (.ofTimeframe b.selection.default, .noRules)
  else
    let c := input.contextOf .m15
    if ← group b .all "stay_on_15m_if" c g.stay then return (.m15, .stayFlat)
    else
      let drops ← group b .any "drop_to_5m_if_any" c g.drop
      let forbids ← group b .any "forbid_drop_to_5m_if_any" c g.forbid
      if drops && !forbids then
        if ← allowsMinute b input then return (.m1, .minute) else return (.m5, .drop)
      else if forbids then return (.m15, .forbid)
      else return (.ofTimeframe b.selection.default, .fallback)

/-- The choice, after the mandatory filters. -/
def choice (b : Book) (input : SelectionInput) : Weigh (Choice × Ground) := do
  if ← filtersFail b input.baseContext then return (.none, .filtersFailed)
  else
    match b.selection.layout with
    | .byTimeframe order groups => byTimeframe b input order groups
    | .flat groups => flat b input groups

end Weigh

/-- Chooses the timeframe to enter on. -/
def Book.select (b : Book) (input : SelectionInput) : Decision :=
  let ((choice, ground), groups) := (Weigh.choice b input).run []
  let c := input.baseContext
  { choice, ground, groups
    expectedMultiple := c.number "expected_r_multiple"
    zoneWidth := c.number "entry_zone_width_pct" }

end TopDown
