import TopDown.Timeframe

/-!
# Rules

A rule says what must hold of a symbol. `TopDown.Rule` is its tree: references to named rules and
conditions at the leaves, beside checks that are spelt out in place, and groups above them of which
all or any members must hold.

A `TopDown.Check` compares facts of a context: a field with a field or a constant, several fields
with each other, the latest changes of a series, or the range that the market moves in.
-/

namespace TopDown

/-! ### Checks -/

/-- How two numbers are compared. -/
inductive Comparison where
  /-- Greater. -/
  | gt
  /-- Greater or equal. -/
  | ge
  /-- Less. -/
  | lt
  /-- Less or equal. -/
  | le
  deriving DecidableEq, Repr

/-- A side of a comparison. -/
inductive Operand where
  /-- The number known for a field. -/
  | field (name : String)
  /-- A constant. -/
  | constant (x : Float)

/-- The left side of a comparison. -/
inductive Subject where
  /-- A plain operand. -/
  | operand (o : Operand)
  /-- The change of a field over the last bar. -/
  | slope (field : String)

/-- The direction of a trend or of an order. -/
inductive Direction where
  /-- From small to large. -/
  | up
  /-- From large to small. -/
  | down
  deriving DecidableEq, Repr

/-- A check of the facts of a context. -/
inductive Check where
  /-- The subject compares with the operand, up to a tolerance. -/
  | compare (left : Subject) (op : Comparison) (right : Operand) (eps : Float)
  /-- The fields are in strict order. -/
  | fieldOrder (direction : Direction) (fields : List String)
  /-- Each of the last changes of the field goes in the direction, by more than a tolerance. -/
  | trend (direction : Direction) (field : String) (n : UInt64) (eps : Float)
  /-- The average true range, as a fraction of the price, lies between the bounds on each of the
  timeframes; the bounds may follow the volatility. -/
  | range (min max : Float) (timeframes : List Timeframe) (adapts : Bool)
  /-- The field has crossed a level by a gap, after keeping to one side of it for some bars. It may be
  required to come from below, or to come from above. -/
  | hysteresis (field : String) (level : Option Float) (gap : Float) (coolDown : UInt64)
      (fromBelow fromAbove : Bool)
  /-- Each of the last changes of the field lies between the bounds that are given. -/
  | derivative (field : String) (above below : Option Float) (persist : UInt64)
  /-- The field lies between the bounds. -/
  | bounds (field : String) (min max : Float)

/-! ### Rules -/

/-- What a reference says about the threshold of the condition. -/
inductive Threshold where
  /-- The threshold is this number. -/
  | number (x : Float)
  /-- A flag, which leaves the threshold alone. -/
  | flag (b : Bool)

/-- The number that a threshold lays over the facts. -/
def Threshold.number? : Threshold → Option Float
  | .number x => some x
  | .flag _ => none

/-- How many members of a group must hold. -/
inductive Quantifier where
  /-- All of them. -/
  | all
  /-- Any of them. -/
  | any
  deriving DecidableEq, Repr

/-- The name of a quantifier in a configuration. -/
def Quantifier.key : Quantifier → String
  | .all => "all_of"
  | .any => "any_of"

/-- What must hold of a symbol. -/
inductive Rule where
  /-- The named rule or condition holds, perhaps with a threshold of its own. -/
  | reference (name : String) (threshold : Option Threshold)
  /-- All or any members hold. -/
  | group (quantifier : Quantifier) (members : List Rule)
  /-- The check holds. -/
  | check (c : Check)

namespace Rule

/-- The rule is a group. -/
def isGroup : Rule → Bool
  | group _ _ => true
  | _ => false

/-- The rule is a check. -/
def isCheck : Rule → Bool
  | check _ => true
  | _ => false

mutual

/-- The names that a rule refers to, from left to right. -/
def references : Rule → List String
  | reference name _ => [name]
  | group _ members => referencesOfAll members
  | check _ => []

/-- The names that several rules refer to. -/
def referencesOfAll : List Rule → List String
  | [] => []
  | r :: rest => r.references ++ referencesOfAll rest

end

end Rule

end TopDown
