import TopDown.Rule.Basic
import TopDown.Rule.Defect

/-!
# Reading rules from a configuration

A rule is spelt as a document. A text refers to a named rule or condition, and an object with one
free key refers to it with a threshold of its own:

    "rsi_bullish"
    {"liquidity_ok": 500000}

A list is a group of which all members must hold, and so is the list under `all_of`; under `any_of`
one member is enough. Every other object is a check, told by its keys:

    {"op": ">", "left": "rsi", "right": 50}
    {"lt_fields": ["ema_slow", "ema_fast"]}
    {"increasing": "macd_hist", "n": 3}
    {"min": 0.01, "max": 0.05, "use_atr_tf": ["1h"]}
    {"field": "rsi", "level": 50, "min_gap": 2, "require_prev_below": true}
    {"field": "macd_hist", "derivative_gt": 0}
    {"field": "rsi", "min": 30, "max": 70}

`TopDown.Rule.parse` reads a rule and `TopDown.Rule.parseList` a list of rules. Both take the place
of the document in the configuration, and refuse it with the place of the first mistake.
-/

namespace TopDown.Rule

/-- What a reader returns: a value, or the first mistake. -/
abbrev Parsed (α : Type) := Except RuleError α

/-- Refuses the value at a place. -/
def refuse {α : Type} (p : Path) (d : RuleDefect) : Parsed α :=
  .error ⟨p, d⟩

/-- The keys that belong to groups and checks, and so cannot be the name of a reference. -/
def reservedKeys : List String :=
  ["all_of", "any_of", "op", "left", "slope_left", "right", "eps", "lt_fields", "gt_fields",
   "increasing", "decreasing", "n", "field", "min", "max", "use_atr_tf", "adapt_with_vol_bucket",
   "level", "min_gap", "cool_down_bars", "require_prev_below", "require_prev_above",
   "derivative_gt", "derivative_lt", "persist_n"]

/-! ### Fields of an object -/

/-- Refuses the first key that is not among the allowed ones. -/
def allowOnly (p : Path) (fields : Table Json) (allowed : List String) : Parsed Unit :=
  match fields.names.find? fun k => !allowed.contains k with
  | some k => refuse (p.key k) (.unexpectedKey k)
  | none => .ok ()

/-- The number under a key, if there is one. -/
def numberAt? (p : Path) (fields : Table Json) (key : String) : Parsed (Option Float) :=
  match Json.given? fields key with
  | none => .ok none
  | some v =>
    match v.asReal? with
    | some x => .ok (some x)
    | none => refuse (p.key key) (.notNumber v.kindName)

/-- The number under a key. -/
def numberAt (p : Path) (fields : Table Json) (key : String) : Parsed Float := do
  match ← numberAt? p fields key with
  | some x => return x
  | none => refuse (p.key key) (.missingNumber key)

/-- The number under a key, zero if there is none, which must not be negative. -/
def magnitudeAt (p : Path) (fields : Table Json) (key : String) : Parsed Float := do
  let x := (← numberAt? p fields key).getD 0.0
  if x < 0.0 then refuse (p.key key) (.negative key) else return x

/-- The count under a key, if there is one. -/
def countAt? (p : Path) (fields : Table Json) (key : String) : Parsed (Option UInt64) :=
  match Json.given? fields key with
  | none => .ok none
  | some v =>
    match v.asCount?, v.asReal? with
    | some n, _ => .ok (some n)
    | none, some _ => refuse (p.key key) (.notCount key)
    | none, none => refuse (p.key key) (.notInteger v.kindName)

/-- The count under a key, which must be positive. -/
def positiveAt (p : Path) (fields : Table Json) (key : String) (default : UInt64) :
    Parsed UInt64 := do
  let n := (← countAt? p fields key).getD default
  if n = 0 then refuse (p.key key) (.notPositive key) else return n

/-- The flag under a key, off if there is none. -/
def flagAt (p : Path) (fields : Table Json) (key : String) : Parsed Bool :=
  match Json.given? fields key with
  | none => .ok false
  | some v =>
    match v.asFlag? with
    | some b => .ok b
    | none => refuse (p.key key) (.notFlag v.kindName)

/-- The name of a field that a value spells; it must not be blank. -/
def fieldName (p : Path) (v : Json) : Parsed String :=
  match v with
  | .str s => if Text.isAllBlank s then refuse p (.notField v.kindName) else .ok s
  | _ => refuse p (.notField v.kindName)

/-- The name of a field under a key. -/
def fieldAt (p : Path) (fields : Table Json) (key : String) : Parsed String :=
  match Json.given? fields key with
  | none => refuse (p.key key) (.missingField key)
  | some v => fieldName (p.key key) v

/-- The operand under a key. -/
def operandAt (p : Path) (fields : Table Json) (key : String) : Parsed Operand :=
  match fields.lookup key with
  | none => refuse (p.key key) (.missingOperand key)
  | some v =>
    match v, v.asReal? with
    | .str s, _ =>
      if Text.isAllBlank s then refuse (p.key key) (.badOperand v.kindName) else .ok (.field s)
    | _, some x => .ok (.constant x)
    | _, none => refuse (p.key key) (.badOperand v.kindName)

/-- The bounds of a check, the lower one first. -/
def boundsAt (p : Path) (fields : Table Json) : Parsed (Float × Float) := do
  let min ← numberAt p fields "min"
  let max ← numberAt p fields "max"
  if min > max then refuse p (.minAboveMax min max) else return (min, max)

/-- The key that is present, of two that exclude each other, with its direction. -/
def directionAt (p : Path) (fields : Table Json) (upKey downKey : String) :
    Parsed (Direction × String) :=
  match fields.has upKey, fields.has downKey with
  | true, false => .ok (.up, upKey)
  | false, true => .ok (.down, downKey)
  | _, _ => refuse p (.exclusive upKey downKey)

/-- Reads the items of a list in order, each at its place. -/
def readItems {α : Type} (read : Path → Json → Parsed α) (p : Path) (i : Nat) :
    List Json → Parsed (List α)
  | [] => .ok []
  | v :: rest => do
    let a ← read (p.index i) v
    let as ← readItems read p (i + 1) rest
    return a :: as

/-! ### Checks -/

/-- The comparison that a text spells. -/
def comparisonOf? (s : String) : Option Comparison :=
  match Text.trim s with
  | ">" => some .gt
  | ">=" => some .ge
  | "<" => some .lt
  | "<=" => some .le
  | _ => none

/-- The comparison of a check. -/
def comparisonAt (p : Path) (fields : Table Json) : Parsed Comparison :=
  match fields.lookup "op" with
  | some (.str s) =>
    match comparisonOf? s with
    | some op => .ok op
    | none => refuse (p.key "op") (.unknownOperator s)
  | _ => refuse (p.key "op") .notOperator

/-- The left side of a comparison. -/
def subjectAt (p : Path) (fields : Table Json) : Parsed Subject :=
  match fields.has "left", fields.has "slope_left" with
  | true, false => (operandAt p fields "left").map .operand
  | false, true => (fieldAt p fields "slope_left").map .slope
  | true, true => refuse p (.exclusive "left" "slope_left")
  | false, false => refuse p .noSubject

/-- A comparison. -/
def parseCompare (p : Path) (fields : Table Json) : Parsed Check := do
  allowOnly p fields ["op", "left", "slope_left", "right", "eps"]
  let op ← comparisonAt p fields
  let left ← subjectAt p fields
  let right ← operandAt p fields "right"
  let eps ← magnitudeAt p fields "eps"
  return .compare left op right eps

/-- An order of fields. -/
def parseFieldOrder (p : Path) (fields : Table Json) : Parsed Check := do
  let (direction, key) ← directionAt p fields "lt_fields" "gt_fields"
  allowOnly p fields [key]
  match fields.lookup key with
  | some (.arr items) =>
    if items.length < 2 then refuse (p.key key) (.tooFewFields key)
    else return .fieldOrder direction (← readItems fieldName (p.key key) 0 items)
  | _ => refuse (p.key key) (.notFieldList key)

/-- A trend. -/
def parseTrend (p : Path) (fields : Table Json) : Parsed Check := do
  let (direction, key) ← directionAt p fields "increasing" "decreasing"
  allowOnly p fields [key, "n", "eps"]
  let field ← fieldAt p fields key
  let n ← positiveAt p fields "n" 2
  let eps ← magnitudeAt p fields "eps"
  return .trend direction field n eps

/-- A derivative. -/
def parseDerivative (p : Path) (fields : Table Json) : Parsed Check := do
  allowOnly p fields ["field", "derivative_gt", "derivative_lt", "persist_n"]
  let above ← numberAt? p fields "derivative_gt"
  let below ← numberAt? p fields "derivative_lt"
  match above, below with
  | some a, some b => if a >= b then refuse p (.derivativeBounds a b)
  | _, _ => pure ()
  let persist ← positiveAt p fields "persist_n" 1
  let field ← fieldAt p fields "field"
  return .derivative field above below persist

/-- A hysteresis. -/
def parseHysteresis (p : Path) (fields : Table Json) : Parsed Check := do
  allowOnly p fields
    ["field", "level", "min_gap", "cool_down_bars", "require_prev_below", "require_prev_above"]
  let below ← flagAt p fields "require_prev_below"
  let above ← flagAt p fields "require_prev_above"
  if below && above then refuse p (.exclusive "require_prev_below" "require_prev_above")
  let field ← fieldAt p fields "field"
  let level ← numberAt? p fields "level"
  let gap ← magnitudeAt p fields "min_gap"
  let coolDown := (← countAt? p fields "cool_down_bars").getD 0
  return .hysteresis field level gap coolDown below above

/-- The timeframe that an item of a list spells. -/
def timeframeItem (p : Path) (v : Json) : Parsed Timeframe :=
  match v.asText?.bind Timeframe.parse? with
  | some tf => .ok tf
  | none => refuse p (.notTimeframe v)

/-- The timeframes of a range. -/
def timeframesAt (p : Path) (fields : Table Json) (key : String) : Parsed (List Timeframe) :=
  match Json.given? fields key with
  | none => .ok []
  | some (.arr items) => readItems timeframeItem (p.key key) 0 items
  | some v => refuse (p.key key) (.notTimeframeList v.kindName)

/-- A range. -/
def parseRange (p : Path) (fields : Table Json) : Parsed Check := do
  allowOnly p fields ["min", "max", "use_atr_tf", "adapt_with_vol_bucket"]
  let (min, max) ← boundsAt p fields
  let timeframes ← timeframesAt p fields "use_atr_tf"
  let adapts ← flagAt p fields "adapt_with_vol_bucket"
  return .range min max timeframes adapts

/-- Bounds of a field. -/
def parseBounds (p : Path) (fields : Table Json) : Parsed Check := do
  allowOnly p fields ["field", "min", "max"]
  let (min, max) ← boundsAt p fields
  let field ← fieldAt p fields "field"
  return .bounds field min max

/-- The keys that mark a hysteresis. -/
def hysteresisKeys : List String :=
  ["level", "min_gap", "cool_down_bars", "require_prev_below", "require_prev_above"]

/-- A check, told by the first telling key it has. -/
def parseCheck (p : Path) (fields : Table Json) : Parsed Check :=
  if fields.has "op" then parseCompare p fields
  else if fields.has "lt_fields" || fields.has "gt_fields" then parseFieldOrder p fields
  else if fields.has "increasing" || fields.has "decreasing" then parseTrend p fields
  else if fields.has "derivative_gt" || fields.has "derivative_lt" then parseDerivative p fields
  else if hysteresisKeys.any fields.has then parseHysteresis p fields
  else if fields.has "min" || fields.has "max" then
    if fields.has "field" then parseBounds p fields else parseRange p fields
  else refuse p (.unknownShape fields.names)

/-! ### References -/

/-- The threshold of a reference. -/
def parseThreshold (p : Path) (v : Json) : Parsed (Option Threshold) :=
  match v, v.asReal? with
  | .null, _ => .ok none
  | .bool b, _ => .ok (some (.flag b))
  | _, some x => .ok (some (.number x))
  | _, none => refuse p (.badThreshold v.kindName)

/-- A reference with a threshold: an object whose only key is the name. -/
def parseReference (p : Path) : Table Json → Parsed Rule
  | [(name, v)] => do return .reference name (← parseThreshold (p.key name) v)
  | _ => refuse p .severalNames

/-! ### Rules -/

/-- The object is that of a group. -/
def isGroupObject (fields : Table Json) : Bool :=
  fields.has "all_of" || fields.has "any_of"

/-- An object that is no group. -/
def parseObject (p : Path) (fields : Table Json) : Parsed Rule :=
  if fields.isEmpty then refuse p .emptyObject
  else if !fields.names.any reservedKeys.contains then parseReference p fields
  else if isGroupObject fields then refuse p .groupForLeaf
  else (parseCheck p fields).map .check

/-- A rule that is no group. -/
def parseLeaf (p : Path) : Json → Parsed Rule
  | .str name => if Text.isAllBlank name then refuse p .blankName else .ok (.reference name none)
  | .obj fields => parseObject p fields
  | v => refuse p (.notRule v.kindName)

/-- The quantifier that a key spells. -/
def quantifierOf? (key : String) : Option Quantifier :=
  if key = "all_of" then some .all else if key = "any_of" then some .any else none

mutual

/-- The rule that a document spells. -/
def parse (p : Path) : Json → Parsed Rule
  | .arr items => (parseMembers p items).map (.group .all)
  | .obj [(key, value)] =>
    match quantifierOf? key with
    | none => parseObject p [(key, value)]
    | some q =>
      match value with
      | .arr items => (parseMembers (p.key key) items).map (.group q)
      | _ => refuse (p.key key) (.membersNotList key)
  | .obj fields => if isGroupObject fields then refuse p .groupNotAlone else parseObject p fields
  | v => parseLeaf p v

/-- The members of a group, of which there must be one at least. -/
def parseMembers (p : Path) : List Json → Parsed (List Rule)
  | [] => refuse p .emptyGroup
  | v :: rest => do
    let r ← parse (p.index 0) v
    let rs ← parseItems p 1 rest
    return r :: rs

/-- The rules that the items of a list spell, counted from `i`. -/
def parseItems (p : Path) (i : Nat) : List Json → Parsed (List Rule)
  | [] => .ok []
  | v :: rest => do
    let r ← parse (p.index i) v
    let rs ← parseItems p (i + 1) rest
    return r :: rs

end

/-- The rules of a list; an absent value is the empty list. -/
def parseList (p : Path) : Json → Parsed (List Rule)
  | .arr items => parseItems p 0 items
  | .null => .ok []
  | _ => refuse p .notRuleList

end TopDown.Rule
