import TopDown.Rule.Defect

/-!
# Findings about a configuration

A review of a rule configuration ends in a list of findings. A `TopDown.Finding` says what was found
(`TopDown.Flaw`), at which place, and in which named rule. The errors among them keep a configuration
from being used, the warnings do not; `TopDown.Report` keeps both apart.

Every flaw has a kind, under which it is listed, and a wording.
-/

namespace TopDown

/-- The kinds of findings. -/
inductive FlawKind where
  /-- A section is missing. -/
  | missingSection
  /-- A mistake of one of the kinds that rules have. -/
  | rule (kind : RuleDefectKind)
  /-- A name refers to nothing. -/
  | missingReference
  /-- Rules refer to each other in a circle. -/
  | circularReference
  /-- A timeframe is unknown, or unfit for its place. -/
  | unknownTimeframe
  /-- A list of rules is empty. -/
  | emptyRuleSet
  /-- Nothing refers to a rule. -/
  | unusedRule
  /-- A key has no meaning. -/
  | unknownKey
  /-- A threshold has no effect. -/
  | ignoredThreshold
  deriving DecidableEq, Repr

/-- The name of a kind. -/
def FlawKind.name : FlawKind → String
  | .missingSection => "missing_section"
  | .rule .shape => "invalid_shape"
  | .rule .type => "invalid_type"
  | .rule .operator => "invalid_operator"
  | .rule .bounds => "invalid_bounds"
  | .rule .emptyGroup => "empty_group"
  | .missingReference => "missing_reference"
  | .circularReference => "circular_reference"
  | .unknownTimeframe => "unknown_timeframe"
  | .emptyRuleSet => "empty_rule_set"
  | .unusedRule => "unused_rule"
  | .unknownKey => "unknown_key"
  | .ignoredThreshold => "ignored_threshold"

/-- What was found. -/
inductive Flaw where
  /-- A section is missing. -/
  | missingSection (name : String)
  /-- An object was expected. -/
  | notObject (what found : String)
  /-- A rule is spelt wrongly. -/
  | rule (defect : RuleDefect)
  /-- A list of rules was expected. -/
  | notRuleList (found : String)
  /-- A name is neither that of a rule nor that of a condition. -/
  | unresolved (name : String)
  /-- The rules refer to each other in a circle; the first one also stands at the end. -/
  | circle (rules : List String)
  /-- A timeframe was expected. -/
  | notTimeframe (found : Json)
  /-- The timeframe is not one to enter a market on. -/
  | notExecution (tf : Timeframe)
  /-- The least number of bars is no positive integer. -/
  | badMinBars (found : Json)
  /-- The grace window is no non-negative integer. -/
  | badGrace (found : Json)
  /-- The switch of the one-minute group is no flag. -/
  | notFlag (found : String)
  /-- The timeframes to enter on are no list. -/
  | notTimeframeList (found : String)
  /-- A timeframe of the cascade has no rules. -/
  | noBlock (tf : Timeframe)
  /-- A block has no rules. -/
  | emptyBlock
  /-- The one-minute group is on and empty. -/
  | emptyAllowance
  /-- A key of a block has no meaning. -/
  | unknownKey (key : String)
  /-- A group of a block has no meaning. -/
  | unknownGroup (key : String)
  /-- A group of the flat layout stands beside the layout by timeframe. -/
  | legacyIgnored
  /-- The threshold of a reference to a group or to another reference has no effect. -/
  | ignoredThreshold (threshold : Float) (name : String)
  /-- Nothing refers to the rule. -/
  | unused (name : String)

/-- The kind of a flaw. -/
def Flaw.kind : Flaw → FlawKind
  | missingSection _ | noBlock _ => .missingSection
  | rule d => .rule d.kind
  | notObject _ _ | notRuleList _ | badMinBars _ | badGrace _ | notFlag _ | notTimeframeList _ =>
    .rule .type
  | unresolved _ => .missingReference
  | circle _ => .circularReference
  | notTimeframe _ | notExecution _ => .unknownTimeframe
  | emptyBlock | emptyAllowance => .emptyRuleSet
  | unknownKey _ | unknownGroup _ | legacyIgnored => .unknownKey
  | ignoredThreshold _ _ => .ignoredThreshold
  | unused _ => .unusedRule

/-- The wording of a flaw. -/
def Flaw.message : Flaw → String
  | missingSection name => "missing '" ++ name ++ "' section"
  | notObject what found => what ++ " must be an object, found " ++ found
  | rule d => d.message
  | notRuleList found => "expected a list of rule expressions, found " ++ found
  | unresolved name => "'" ++ name ++ "' is neither a defined rule nor a registered condition"
  | circle rules => "circular reference: " ++ " -> ".intercalate rules
  | notTimeframe found => "expected one of " ++ Timeframe.expected ++ ", found " ++ found.compact
  | notExecution tf => tf.name ++ " is not an execution timeframe"
  | badMinBars found => "min_bars must be a positive integer, found " ++ found.compact
  | badGrace found => "grace_window_secs must be a non-negative integer, found " ++ found.compact
  | notFlag found => "enabled must be a boolean, found " ++ found
  | notTimeframeList found => "execution_timeframes must be a list, found " ++ found
  | noBlock tf => tf.name ++ " is in the cascade but has no rules; it will always be INVALID"
  | emptyBlock => "no long or short rules configured"
  | emptyAllowance => "enabled with no conditions; 1m is never selected"
  | unknownKey key => "unknown key '" ++ key ++ "' is ignored"
  | unknownGroup key => "unknown group '" ++ key ++ "' is ignored"
  | legacyIgnored => "legacy group is ignored when per_timeframe is configured"
  | ignoredThreshold t name =>
    "threshold " ++ Decimal.plain.write t ++ " on named rule '" ++ name
      ++ "' is ignored; set it on its leaves"
  | unused name => "rule '" ++ name ++ "' is defined but never referenced"

/-- A flaw at a place of the configuration. -/
structure Finding where
  /-- What was found. -/
  flaw : Flaw
  /-- The place. -/
  path : Path
  /-- The named rule that the finding is about. -/
  rule : Option String

namespace Finding

/-- A finding on one line. -/
def line (f : Finding) : String :=
  "[" ++ f.flaw.kind.name ++ "] " ++ f.path.render ++ ": " ++ f.flaw.message

/-- What a finding carries besides its wording. -/
def context (f : Finding) : Table Json :=
  match f.flaw with
  | .circle rules => [("cycle", .arr (rules.map .str))]
  | _ => []

/-- A finding as a document. -/
def toJson (f : Finding) : Json :=
  .obj ((if f.context.isEmpty then [] else [("context", .obj f.context)])
    ++ [("message", .str f.flaw.message), ("path", .str f.path.render)]
    ++ (match f.rule with
      | some r => [("rule", .str r)]
      | none => [])
    ++ [("type", .str f.flaw.kind.name)])

end Finding

/-- The findings of a review. -/
structure Report where
  /-- The findings that keep a configuration from being used. -/
  errors : List Finding
  /-- The other findings. -/
  warnings : List Finding

namespace Report

/-- Nothing was found. -/
def isClean (r : Report) : Bool :=
  r.errors.isEmpty && r.warnings.isEmpty

/-- A report as a document. -/
def toJson (r : Report) : Json :=
  .obj [("errors", .arr (r.errors.map Finding.toJson)),
    ("warnings", .arr (r.warnings.map Finding.toJson))]

end Report

end TopDown
