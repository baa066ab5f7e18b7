import TopDown.Context
import TopDown.Rule.Basic
import TopDown.Verdict

/-!
# Checking the facts

`TopDown.Check.evaluate` checks the facts of a context. A fact that a check needs and that is not
known, an undefined number or a series that is too short leave the verdict undecided.

A check has a name, under which a threshold may be laid over the facts: it replaces the constant of
a comparison, the level of a hysteresis and the lower bound of a derivative.

The checks that look back in time take a window from the end of a series. Its length is counted in
64 bits, like the series: `TopDown.windowAfter` is one value more than there are changes, and
`TopDown.windowOfCoolDown` two more than the cool-down has bars. A length that does not fit makes the
check break down, whatever the series.
-/

namespace TopDown

/-! ### Operands -/

/-- The comparison holds. A strict one has to clear the tolerance, the others may miss by it. -/
def Comparison.holds (op : Comparison) (left right eps : Float) : Bool :=
  match op with
  | .gt => left > right + eps
  | .ge => left >= right - eps
  | .lt => left < right - eps
  | .le => left <= right + eps

/-- The sign of a comparison. -/
def Comparison.sign : Comparison → String
  | .gt => ">"
  | .ge => ">="
  | .lt => "<"
  | .le => "<="

/-- The number of an operand. -/
def Operand.value (c : Context) : Operand → Option Float
  | .constant x => some x
  | .field name => c.number name

/-- The change of a field over the last bar. -/
def Context.slope (c : Context) (field : String) : Option Float := do
  let now ← c.number field
  let before ← c.previous field
  return now - before

/-- The number of a subject. -/
def Subject.value (c : Context) : Subject → Option Float
  | .operand o => o.value c
  | .slope field => c.slope field

/-- Two numbers follow each other in the direction. -/
def Direction.follows (d : Direction) (x y : Float) : Bool :=
  match d with
  | .up => x < y
  | .down => x > y

/-- A change goes in the direction by more than a tolerance. -/
def Direction.clears (d : Direction) (eps change : Float) : Bool :=
  match d with
  | .up => change > eps
  | .down => change < -eps

/-! ### Windows -/

/-- The consecutive pairs of a list. -/
def consecutive {α : Type} : List α → List (α × α)
  | x :: y :: rest => (x, y) :: consecutive (y :: rest)
  | _ => []

/-- The last values of a series, if it has so many. -/
def window? (length : UInt64) (xs : List Float) : Option (List Float) :=
  if length.toNat ≤ xs.length then some (xs.drop (xs.length - length.toNat)) else none

/-- The sum of two counts. -/
def sumOfCounts (m n : UInt64) : Except Crash UInt64 :=
  if m.toNat + n.toNat < UInt64.size then .ok (m + n) else .error .countSum

/-- The length of the window that shows so many changes. -/
def windowAfter (changes : UInt64) : Except Crash UInt64 :=
  sumOfCounts changes 1

/-- The length of the window of a hysteresis: the last value, the one before it, and the bars of the
cool-down. -/
def windowOfCoolDown (coolDown : UInt64) : Except Crash UInt64 :=
  sumOfCounts 2 coolDown

/-- The verdict on a window of a length that has to be counted first. -/
def onceCounted (length : Except Crash UInt64) (verdict : UInt64 → Verdict) : Verdict :=
  match length with
  | .ok needed => verdict needed
  | .error crash => .broken crash

/-- Some number is infinite or undefined. -/
def hasGap (xs : List Float) : Bool :=
  xs.any fun x => !x.isFinite

/-- The changes between the last values of a field. -/
def Context.changes (c : Context) (field : String) (length : UInt64) : Option (List Float) := do
  let xs ← c.series field
  let w ← window? length xs
  if hasGap w then none else return (consecutive w).map fun (x, y) => y - x

/-- The verdict where a field has too few values. -/
def tooShort (needed : UInt64) (field : String) : Verdict :=
  .undecided ("need " ++ toString needed.toNat ++ " values of '" ++ field ++ "'")

/-- The verdict where a field is not known. -/
def unavailable (field : String) : Verdict :=
  .undecided ("field '" ++ field ++ "' unavailable")

/-! ### Ranges -/

/-- The average true range as a fraction of the price: given as such, or else in the unit of the
price. The keys may carry the name of a timeframe. -/
def Context.atrFraction (c : Context) (suffix : String) : Option Float :=
  match c.number ("atr_pct" ++ suffix) with
  | some x => some x
  | none => do
    let atr ← c.number ("atr" ++ suffix)
    let close ← (c.number "close").filter (· > 0.0)
    return atr / close

/-- The fractions that are known, each with its timeframe: of the given timeframes, or of the
context's own one when none are given. -/
def Context.atrSamples (c : Context) (timeframes : List Timeframe) : List (String × Float) :=
  if timeframes.isEmpty then
    match c.atrFraction "" with
    | some x => [(c.timeframe.name, x)]
    | none => []
  else
    timeframes.filterMap fun tf => (c.atrFraction ("_" ++ tf.name)).map fun x => (tf.name, x)

/-- The verdict on the range that the market moves in. -/
def evaluateRange (min max : Float) (timeframes : List Timeframe) (adapts : Bool) (c : Context) :
    Verdict :=
  let scale := if adapts then (c.number "vol_bucket_mult").getD 1.0 else 1.0
  let low := min * scale
  let high := max * scale
  let samples := c.atrSamples timeframes
  if samples.isEmpty then .undecided "atr unavailable"
  else
    (Verdict.decided (samples.all fun s => s.2 >= low && s.2 <= high)
      (Json.ofFields (samples.map fun s => (s.1, Json.ofFloat s.2))) none)
      |>.withDetail "min" (Json.ofFloat low) |>.withDetail "max" (Json.ofFloat high)

/-! ### Hysteresis -/

/-- The level has been crossed by the gap, coming from the side that is required. -/
def crosses (fromBelow fromAbove : Bool) (level gap before now : Float) : Bool :=
  if fromBelow then before < level && now >= level + gap
  else if fromAbove then before > level && now <= level - gap
  else (now - level).abs >= gap

/-- Every value is on the same side of the level as a given one. -/
def keepsSide (level before : Float) (xs : List Float) : Bool :=
  xs.all fun x => decide (x < level) == decide (before < level)

/-- The verdict on a window of values. A window of fewer than two has no value before the last. -/
def evaluateCrossing (level gap : Float) (fromBelow fromAbove : Bool) (window : List Float) :
    Verdict :=
  match window.reverse with
  | now :: before :: earlier =>
    let cooled := keepsSide level before (before :: earlier).reverse
    (Verdict.decided (crosses fromBelow fromAbove level gap before now && cooled)
      (Json.ofFloat now) (some level))
      |>.withDetail "prev" (Json.ofFloat before) |>.withDetail "cooled_down" (.bool cooled)
  | _ => .broken .countDifference

/-- The verdict on a hysteresis. Without a cool-down the value one bar ago and the current one stand
in for a series that is too short. -/
def evaluateHysteresis (field : String) (level gap : Float) (coolDown : UInt64)
    (fromBelow fromAbove : Bool) (c : Context) : Verdict :=
  onceCounted (windowOfCoolDown coolDown) fun needed =>
    match (c.series field).bind (window? needed) with
    | some window =>
      if hasGap window then
        .undecided ("gap in the last " ++ toString needed.toNat ++ " values of '" ++ field ++ "'")
      else evaluateCrossing level gap fromBelow fromAbove window
    | none =>
      if coolDown = 0 then
        match c.previous field, c.number field with
        | some before, some now => evaluateCrossing level gap fromBelow fromAbove [before, now]
        | _, _ => tooShort 2 field
      else tooShort needed field

/-! ### All checks -/

/-- The verdict of a check that has the given name. -/
def Check.evaluate (name : String) (c : Context) : Check → Verdict
  | .compare left op right eps =>
    let bound :=
      match right with
      | .constant x => some (c.thresholdOr name x)
      | .field f => c.number f
    match left.value c, bound with
    | some l, some r =>
      (Verdict.decided (op.holds l r eps) (Json.ofFloat l) (some r)).withDetail "op" (.str op.sign)
    | _, _ => .undecided "compare operand unavailable"
  | .fieldOrder direction fields =>
    match fields.find? fun f => (c.number f).isNone with
    | some f => unavailable f
    | none =>
      let values := fields.filterMap c.number
      .decided ((consecutive values).all fun (x, y) => direction.follows x y) (Json.ofSeries values)
        none
  | .trend direction field n eps =>
    onceCounted (windowAfter n) fun needed =>
      match c.changes field needed with
      | none => tooShort needed field
      | some changes => .decided (changes.all (direction.clears eps)) (Json.ofSeries changes) none
  | .range min max timeframes adapts => evaluateRange min max timeframes adapts c
  | .hysteresis field level gap coolDown fromBelow fromAbove =>
    evaluateHysteresis field ((c.threshold? name).or level |>.getD 0.0) gap coolDown fromBelow
      fromAbove c
  | .derivative field above below persist =>
    onceCounted (windowAfter persist) fun needed =>
      match c.changes field needed with
      | none => tooShort needed field
      | some changes =>
        let above := above.map (c.thresholdOr name)
        let within (x : Float) : Bool := above.all (fun a => x > a) && below.all (fun b => x < b)
        (Verdict.decided (changes.all within) (Json.ofFloat (changes.getLast?.getD 0.0))
          (above.or below)).withDetail "diffs" (Json.ofSeries changes)
  | .bounds field min max =>
    match c.number field with
    | none => unavailable field
    | some x =>
      (Verdict.decided (x >= min && x <= max) (Json.ofFloat x) none)
        |>.withDetail "min" (Json.ofFloat min) |>.withDetail "max" (Json.ofFloat max)

/-- The verdict of a rule that stands alone under a name. References and groups need a book of rules
and stay undecided. -/
def Rule.evaluateAlone (name : String) (c : Context) : Rule → Verdict
  | .check k => k.evaluate name c
  | .reference _ _ => .undecided "'name' is not a leaf"
  | .group q _ => .undecided ("'" ++ q.key ++ "' is not a leaf")

end TopDown
