import TopDown.Decimal.Style
import TopDown.Json.Path
import TopDown.Json.Writer
import TopDown.Timeframe

/-!
# What can be wrong with a rule

A rule that a configuration spells wrongly is refused with a `TopDown.RuleError`: the place of the
mistake and a `TopDown.RuleDefect`, which says what is wrong there. Every defect belongs to one of the
five kinds of `TopDown.RuleDefectKind`, and `TopDown.RuleDefect.message` words it.
-/

namespace TopDown

/-- The kinds of mistakes in a rule. -/
inductive RuleDefectKind where
  /-- Keys are missing, or do not go together. -/
  | shape
  /-- A value is of the wrong kind. -/
  | type
  /-- A comparison is unknown. -/
  | operator
  /-- Numbers contradict each other. -/
  | bounds
  /-- A group has no members. -/
  | emptyGroup
  deriving DecidableEq, Repr

/-- A mistake in a rule. -/
inductive RuleDefect where
  /-- A group has no members. -/
  | emptyGroup
  /-- A list of rules was expected. -/
  | notRuleList
  /-- A group shares its object with other keys. -/
  | groupNotAlone
  /-- The members of a group are not a list. -/
  | membersNotList (key : String)
  /-- The name of a rule is blank. -/
  | blankName
  /-- A name or an object was expected. -/
  | notRule (found : String)
  /-- The object of a rule is empty. -/
  | emptyObject
  /-- A group stands where only a single check may. -/
  | groupForLeaf
  /-- No check has these keys. -/
  | unknownShape (keys : List String)
  /-- A reference has more than one key. -/
  | severalNames
  /-- A threshold is no number, flag or absent value. -/
  | badThreshold (found : String)
  /-- The check has no such key. -/
  | unexpectedKey (key : String)
  /-- A number was expected. -/
  | notNumber (found : String)
  /-- A number is missing. -/
  | missingNumber (key : String)
  /-- An integer is negative, too large or written as a real number. -/
  | notCount (key : String)
  /-- An integer was expected. -/
  | notInteger (found : String)
  /-- A flag was expected. -/
  | notFlag (found : String)
  /-- The name of a field was expected. -/
  | notField (found : String)
  /-- The name of a field is missing. -/
  | missingField (key : String)
  /-- An operand is neither a field nor a number. -/
  | badOperand (found : String)
  /-- An operand is missing. -/
  | missingOperand (key : String)
  /-- The bounds are the wrong way round. -/
  | minAboveMax (min max : Float)
  /-- The comparison is none of the four. -/
  | unknownOperator (text : String)
  /-- The comparison is no text. -/
  | notOperator
  /-- Two keys exclude each other. -/
  | exclusive (one other : String)
  /-- A comparison has no left side. -/
  | noSubject
  /-- A list of fields was expected. -/
  | notFieldList (key : String)
  /-- An order needs two fields. -/
  | tooFewFields (key : String)
  /-- A count must be positive. -/
  | notPositive (key : String)
  /-- A timeframe was expected. -/
  | notTimeframe (found : Json)
  /-- A list of timeframes was expected. -/
  | notTimeframeList (found : String)
  /-- The bounds of a derivative leave no room. -/
  | derivativeBounds (above below : Float)
  /-- A number must not be negative. -/
  | negative (key : String)

namespace RuleDefect

/-- The kind of a mistake. -/
def kind : RuleDefect → RuleDefectKind
  | emptyGroup => .emptyGroup
  | unknownOperator _ | notOperator => .operator
  | minAboveMax _ _ | notPositive _ | derivativeBounds _ _ | negative _ => .bounds
  | notRuleList | membersNotList _ | blankName | notRule _ | badThreshold _ | notNumber _
  | notCount _ | notInteger _ | notFlag _ | notField _ | badOperand _ | notFieldList _
  | notTimeframe _ | notTimeframeList _ => .type
  | groupNotAlone | emptyObject | groupForLeaf | unknownShape _ | severalNames | unexpectedKey _
  | missingNumber _ | missingField _ | missingOperand _ | exclusive _ _ | noSubject
  | tooFewFields _ => .shape

/-- A number in a message. -/
def number (x : Float) : String :=
  Decimal.plain.write x

/-- The wording of a mistake. -/
def message : RuleDefect → String
  | emptyGroup => "group must not be empty"
  | notRuleList => "expected a list of rule expressions"
  | groupNotAlone => "all_of/any_of must be the only key of its object"
  | membersNotList key => key ++ " must be a list"
  | blankName => "empty rule name"
  | notRule found => "expected a rule name or rule object, found " ++ found
  | emptyObject => "empty rule object"
  | groupForLeaf => "composite group where a leaf was expected"
  | unknownShape keys => "unrecognised rule shape with keys [" ++ ", ".intercalate keys ++ "]"
  | severalNames => "a name reference must have exactly one key"
  | badThreshold found => "threshold must be a number, boolean or null, found " ++ found
  | unexpectedKey key => "unexpected key '" ++ key ++ "'"
  | notNumber found => "expected a number, found " ++ found
  | missingNumber key => "missing required number '" ++ key ++ "'"
  | notCount key => "'" ++ key ++ "' must be a non-negative integer"
  | notInteger found => "expected an integer, found " ++ found
  | notFlag found => "expected a boolean, found " ++ found
  | notField found => "expected a field name, found " ++ found
  | missingField key => "missing required field '" ++ key ++ "'"
  | badOperand found => "operand must be a field name or number, found " ++ found
  | missingOperand key => "missing operand '" ++ key ++ "'"
  | minAboveMax min max => "min (" ++ number min ++ ") must not exceed max (" ++ number max ++ ")"
  | unknownOperator text => "unsupported operator '" ++ text ++ "' (expected >, >=, <, <=)"
  | notOperator => "operator must be one of >, >=, <, <="
  | exclusive one other => one ++ " and " ++ other ++ " are mutually exclusive"
  | noSubject => "compare needs left or slope_left"
  | notFieldList key => key ++ " must be a list of field names"
  | tooFewFields key => key ++ " needs at least two fields"
  | notPositive key => key ++ " must be at least 1"
  | notTimeframe found => "expected a timeframe, found " ++ found.compact
  | notTimeframeList found => "use_atr_tf must be a list, found " ++ found
  | derivativeBounds above below =>
    "derivative_gt (" ++ number above ++ ") must be below derivative_lt (" ++ number below ++ ")"
  | negative key => key ++ " must be non-negative"

end RuleDefect

/-- A mistake in a rule, and its place in the configuration. -/
structure RuleError where
  /-- The place. -/
  path : Path
  /-- The mistake. -/
  defect : RuleDefect

/-- The message of a refused rule. -/
def RuleError.message (e : RuleError) : String :=
  "parse error at " ++ e.path.render ++ ": " ++ e.defect.message

end TopDown
