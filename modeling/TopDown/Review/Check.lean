import TopDown.Registry
import TopDown.Review.Circle
import TopDown.Rule.Parser

/-!
# Reviewing a configuration

A review reads a whole rule configuration and never gives up: it reports everything that would keep
the configuration from being compiled, and everything that looks like a slip. `TopDown.review` is the
report. Errors and warnings each stand in the order in which the review meets them: the named rules,
the timeframes, the selection, circles, and rules that nothing refers to.

While it reads rules, the review also remembers which names they refer to. Each thing that it notes
is a `TopDown.Remark`.
-/

namespace TopDown

/-- Something that a review notes. -/
inductive Remark where
  /-- A finding that keeps the configuration from being used. -/
  | error (f : Finding)
  /-- Another finding. -/
  | warning (f : Finding)
  /-- A rule refers to this name. -/
  | lookup (name : String)

namespace Remark

/-- The error of a remark. -/
def error? : Remark → Option Finding
  | error f => some f
  | _ => none

/-- The warning of a remark. -/
def warning? : Remark → Option Finding
  | warning f => some f
  | _ => none

/-- The name that a remark remembers. -/
def name? : Remark → Option String
  | lookup name => some name
  | _ => none

end Remark

/-- What a review knows from the start. -/
structure Review where
  /-- The bodies of the named rules. -/
  rules : Table Json
  /-- The names of the conditions. -/
  conditions : List String

namespace Review

/-- An error that is not about a named rule. -/
def error (p : Path) (flaw : Flaw) : List Remark :=
  [.error ⟨flaw, p, none⟩]

/-- A warning that is not about a named rule. -/
def warning (p : Path) (flaw : Flaw) : List Remark :=
  [.warning ⟨flaw, p, none⟩]

/-! ### Rules -/

/-- The name is that of a rule whose body is a group or a reference. -/
def isGroupName (w : Review) (name : String) : Bool :=
  match w.rules.lookup name with
  | none => false
  | some (.arr _) => true
  | some (.obj fields) =>
    Rule.isGroupObject fields || isReference (Rule.parseLeaf [.key name] (.obj fields))
  | some v => isReference (Rule.parseLeaf [.key name] v)
where
  /-- A leaf was read, and it is a reference. -/
  isReference : Rule.Parsed Rule → Bool
    | .ok (.reference _ _) => true
    | _ => false

/-- The name means a rule or a condition. -/
def knows (w : Review) (name : String) : Bool :=
  w.rules.has name || w.conditions.contains name

/-- A mistake in the spelling of a rule. -/
def mistake (rule : Option String) (e : RuleError) : List Remark :=
  [.error ⟨.rule e.defect, e.path, rule⟩]

/-- The remarks on a reference. -/
def reference (w : Review) (rule : Option String) (p : Path) (name : String)
    (threshold : Option Threshold) : List Remark :=
  [.lookup name]
    ++ (if w.knows name then [] else [.error ⟨.unresolved name, p, rule⟩])
    ++ (match threshold with
      | some (.number t) =>
        if w.isGroupName name then [.warning ⟨.ignoredThreshold t name, p, rule⟩] else []
      | _ => [])

/-- The remarks on a leaf that was read. -/
def leaf (w : Review) (rule : Option String) (p : Path) : Rule.Parsed Rule → List Remark
  | .ok (.reference name threshold) => w.reference rule p name threshold
  | .ok _ => []
  | .error e => mistake rule e

mutual

/-- The remarks on a rule. -/
def expression (w : Review) (rule : Option String) (p : Path) : Json → List Remark
  | .arr items => w.members rule p items
  | .obj [(key, value)] =>
    match Rule.quantifierOf? key with
    | none => w.leaf rule p (Rule.parseObject p [(key, value)])
    | some _ =>
      match value with
      | .arr items => w.members rule (p.key key) items
      | _ => mistake rule ⟨p.key key, .membersNotList key⟩
  | .obj fields =>
    if Rule.isGroupObject fields then mistake rule ⟨p, .groupNotAlone⟩
    else w.leaf rule p (Rule.parseObject p fields)
  | v => w.leaf rule p (Rule.parseLeaf p v)

/-- The remarks on the members of a group. -/
def members (w : Review) (rule : Option String) (p : Path) : List Json → List Remark
  | [] => mistake rule ⟨p, .emptyGroup⟩
  | v :: rest => w.expression rule (p.index 0) v ++ w.items rule p 1 rest

/-- The remarks on the items of a list, counted from `i`. -/
def items (w : Review) (rule : Option String) (p : Path) (i : Nat) : List Json → List Remark
  | [] => []
  | v :: rest => w.expression rule (p.index i) v ++ w.items rule p (i + 1) rest

end

/-- The remarks on a list of rules, which may be absent. -/
def list (w : Review) (p : Path) : Option Json → List Remark
  | none | some .null => []
  | some (.arr items) => w.items none p 0 items
  | some v => error p (.notRuleList v.kindName)

/-- The number of rules in a list. -/
def listLength : Option Json → Nat
  | some (.arr items) => items.length
  | _ => 0

/-- The remarks on the list under a key. -/
def listAt (w : Review) (p : Path) (fields : Table Json) (key : String) : List Remark :=
  w.list (p.key key) (fields.lookup key)

/-- The remarks on the named rules. -/
def namedRules (w : Review) (root : Table Json) : List Remark :=
  match Json.given? root "rules" with
  | none => []
  | some (.obj fields) =>
    fields.flatMap fun (name, v) => w.expression (some name) [.key "rules", .key name] v
  | some v => error [.key "rules"] (.notObject "rules" v.kindName)

/-! ### Timeframes -/

/-- The timeframe that a value spells. -/
def timeframe? (v : Json) : Option Timeframe :=
  v.asText?.bind Timeframe.parse?

/-- The remarks on a value that must be a timeframe. -/
def timeframe (p : Path) (v : Json) : List Remark :=
  if (timeframe? v).isSome then [] else error p (.notTimeframe v)

/-- The keys of a block of rules. -/
def blockKeys : List String :=
  ["long", "short", "min_bars", "grace_window_secs"]

/-- The remarks on the least number of bars. -/
def minBars (p : Path) (block : Table Json) : List Remark :=
  match Json.given? block "min_bars" with
  | none => []
  | some v =>
    match v.asCount? with
    | some n => if n = 0 then error (p.key "min_bars") (.badMinBars v) else []
    | none => error (p.key "min_bars") (.badMinBars v)

/-- The remarks on the grace window. -/
def grace (p : Path) (block : Table Json) : List Remark :=
  match Json.given? block "grace_window_secs" with
  | none => []
  | some v =>
    if v.asCount?.isSome then [] else error (p.key "grace_window_secs") (.badGrace v)

/-- The remarks on the rules of a timeframe. -/
def block (w : Review) (p : Path) : Json → List Remark
  | .obj fields =>
    ((Table.names fields).filter fun k => !blockKeys.contains k).flatMap
        (fun k => warning (p.key k) (.unknownKey k))
      ++ w.listAt p fields "long" ++ w.listAt p fields "short"
      ++ (if listLength (fields.lookup "long") + listLength (fields.lookup "short") = 0 then
          warning p .emptyBlock
        else [])
      ++ minBars p fields ++ grace p fields
  | v => error p (.notObject "timeframe block" v.kindName)

/-- The remarks on the timeframes of a cascade that have no rules. -/
def uncovered (start : Timeframe) (blocks : Table Json) : List Remark :=
  let configured := blocks.names.filterMap Timeframe.parse?
  (start.sequence.filter fun tf => !configured.contains tf).flatMap fun tf =>
    warning [.key "validation", .key "timeframe", .key tf.name] (.noBlock tf)

/-- The remarks on the rules of all timeframes. -/
def blocks (w : Review) (start : Option Timeframe) (fields : Table Json) : List Remark :=
  let p : Path := [.key "validation", .key "timeframe"]
  fields.flatMap (fun (key, v) => timeframe (p.key key) (.str key) ++ w.block (p.key key) v)
    ++ (match start with
      | some tf => uncovered tf fields
      | none => [])

/-- The remarks on the section of the timeframes. -/
def validation (w : Review) (root : Table Json) : List Remark :=
  let p : Path := [.key "validation"]
  match root.lookup "validation" with
  | none => error p (.missingSection "validation")
  | some (.obj fields) =>
    let start := Json.given? fields "start_from_timeframe"
    (match start with
      | none => []
      | some v => timeframe (p.key "start_from_timeframe") v)
      ++ (match fields.lookup "timeframe" with
        | some (.obj blocks) => w.blocks (start.elim (some .h4) timeframe?) blocks
        | some v => error (p.key "timeframe") (.notObject "validation.timeframe" v.kindName)
        | none => error (p.key "timeframe") (.missingSection "validation.timeframe"))
  | some v => error p (.notObject "validation" v.kindName)

/-! ### The choice of the timeframe to enter on -/

/-- The groups of a timeframe. -/
def groupKeys : List String :=
  ["stay_on_if", "drop_to_lower_if_any", "forbid_drop_to_lower_if_any"]

/-- The groups of the flat layout. -/
def flatKeys : List String :=
  ["stay_on_15m_if", "drop_to_5m_if_any", "forbid_drop_to_5m_if_any"]

/-- The section. -/
def selectorPath : Path :=
  [.key "execution_selector"]

/-- The remarks on the rules that let one minute be chosen. -/
def allowance (w : Review) (selector : Table Json) : List Remark :=
  let p := selectorPath.key "allow_1m_only_for"
  match Json.given? selector "allow_1m_only_for" with
  | none => []
  | some (.obj fields) =>
    let enabled := fields.lookup "enabled"
    (match enabled with
      | none | some (.bool _) => []
      | some v => error (p.key "enabled") (.notFlag v.kindName))
      ++ w.listAt p fields "conditions"
      ++ (if listLength (fields.lookup "conditions") = 0 && (enabled.bind Json.asFlag?).getD false
        then warning p .emptyAllowance
        else [])
  | some v => error p (.notObject "allow_1m_only_for" v.kindName)

/-- The remarks on the timeframe where nothing else decides. -/
def default (selector : Table Json) : List Remark :=
  let p := selectorPath.key "default_timeframe"
  match Json.given? selector "default_timeframe" with
  | none => []
  | some v =>
    match timeframe? v with
    | none => timeframe p v
    | some tf => if tf.isExecution then [] else error p (.notExecution tf)

/-- The remarks on the order in which timeframes are tried. -/
def order (selector : Table Json) : List Remark :=
  let p := selectorPath.key "execution_timeframes"
  match Json.given? selector "execution_timeframes" with
  | none => []
  | some (.arr items) => items.zipIdx.flatMap fun (v, i) => timeframe (p.index i) v
  | some v => error p (.notTimeframeList v.kindName)

/-- The remarks on the groups of a timeframe. -/
def groups (w : Review) (p : Path) : Json → List Remark
  | .obj fields =>
    ((Table.names fields).filter fun k => !groupKeys.contains k).flatMap
        (fun k => warning (p.key k) (.unknownGroup k))
      ++ groupKeys.flatMap (w.listAt p fields)
  | v => error p (.notObject "per-timeframe block" v.kindName)

/-- The remarks on the key of a timeframe that has groups. -/
def groupsKey (p : Path) (key : String) : List Remark :=
  match Timeframe.parse? key with
  | none => timeframe p (.str key)
  | some tf => if tf.isExecution then [] else warning p (.notExecution tf)

/-- The remarks on the layout. -/
def layout (w : Review) (selector : Table Json) : List Remark :=
  let p := selectorPath.key "per_timeframe"
  match selector.lookup "per_timeframe" with
  | none => flatKeys.flatMap (w.listAt selectorPath selector)
  | some (.obj fields) =>
    order selector
      ++ (flatKeys.filter selector.has).flatMap
        (fun k => warning (selectorPath.key k) .legacyIgnored)
      ++ fields.flatMap fun (key, v) => groupsKey (p.key key) key ++ w.groups (p.key key) v
  | some v => error p (.notObject "per_timeframe" v.kindName)

/-- The remarks on the choice of the timeframe to enter on. -/
def selection (w : Review) (root : Table Json) : List Remark :=
  w.listAt [] root "filters_mandatory"
    ++ match Json.given? root "execution_selector" with
      | none => []
      | some (.obj selector) =>
        w.listAt selectorPath selector "filters_mandatory" ++ w.allowance selector
          ++ default selector ++ w.layout selector
      | some v => error selectorPath (.notObject "execution_selector" v.kindName)

/-! ### The rules as a whole -/

/-- What the rules that can be read refer to. -/
def references (rules : Table Json) : References :=
  rules.filterMap fun (name, v) =>
    match Rule.parse [.key "rules", .key name] v with
    | .ok r => some (name, r.references)
    | .error _ => none

/-- The remark on a circle. -/
def circle (rules : List String) : List Remark :=
  match rules with
  | [] => []
  | first :: _ =>
    [.error ⟨.circle (rules ++ [first]), [.key "rules", .key first], some first⟩]

/-- The remarks on circles. -/
def circleRemarks (w : Review) : List Remark :=
  (circles (references w.rules)).flatMap circle

/-- The remarks on rules that nothing refers to. -/
def unused (w : Review) (names : List String) : List Remark :=
  (w.rules.names.filter fun n => !names.contains n).map fun n =>
    .warning ⟨.unused n, [.key "rules", .key n], some n⟩

/-- The remarks on the sections of a configuration, in order. -/
def sections (w : Review) (root : Table Json) : List Remark :=
  w.namedRules root ++ w.validation root ++ w.selection root ++ w.circleRemarks

/-- All remarks on a configuration. -/
def remarks (w : Review) (root : Table Json) : List Remark :=
  let noted := w.sections root
  noted ++ w.unused (noted.filterMap Remark.name?)

/-- The report that some remarks amount to. -/
def report (remarks : List Remark) : Report :=
  ⟨remarks.filterMap Remark.error?, remarks.filterMap Remark.warning?⟩

end Review

/-- The bodies of the named rules of a configuration. -/
def ruleBodies (root : Table Json) : Table Json :=
  match root.lookup "rules" with
  | some (.obj fields) => fields
  | _ => []

/-- The report on a configuration, for a registry of conditions. -/
def review (base : Registry) : Json → Report
  | .obj root => Review.report (Review.remarks ⟨ruleBodies root, base.names⟩ root)
  | v => Review.report (Review.error [] (.notObject "rule configuration" v.kindName))

end TopDown
