import TopDown.Book.Assembly
import TopDown.Rule.Parser

/-!
# Compiling a configuration

A rule configuration is an object with up to four sections:

* `rules` gives names to rules;
* `validation` has the rules for buying and selling on each timeframe;
* `filters_mandatory` lists the rules none of which may fail;
* `execution_selector` has the rules that choose the timeframe to enter on.

`TopDown.Book.compile` makes a book of a configuration, or stops at the first fault. The order in
which the sections are taken is part of the behaviour: named rules are read first, then the blocks of
the timeframes in the order of their keys, then the selection, and last the named rules that nothing
has referred to.
-/

namespace TopDown

namespace Assemble

/-- Refuses a value of the configuration. -/
def refuse {α : Type} (area key : String) (r : Refusal) : Assemble α :=
  fail (.configInvalid area key r)

/-- What a reader of rules returns, or its mistake as a fault. -/
def ofParsed {α : Type} : Rule.Parsed α → Assemble α
  | .ok a => return a
  | .error e => fail (.ruleParse e)

/-- The timeframe that a value spells. -/
def timeframe (area key : String) (v : Json) : Assemble Timeframe :=
  match v.asText?.bind Timeframe.parse? with
  | some tf => return tf
  | none => refuse area key (.notTimeframe v)

/-- The nodes of the rules listed under a key; none if the key is absent. -/
def listAt (rules : Table Rule) (p : Path) (fields : Table Json) (key : String) :
    Assemble (List Node.Id) :=
  match fields.lookup key with
  | none => return []
  | some v => do
    let list ← ofParsed (Rule.parseList (p.key key) v)
    assembleList rules (p.key key) list

end Assemble

open Assemble

/-! ### Named rules -/

/-- Reads named rules, in the order of their names. -/
def parseNamed : Table Json → Rule.Parsed (Table Rule)
  | [] => .ok []
  | (name, v) :: rest => do
    let r ← Rule.parse (rulePath name) v
    let rs ← parseNamed rest
    return (name, r) :: rs

/-- The named rules of a configuration. -/
def namedRules (root : Table Json) : Assemble (Table Rule) :=
  match Json.given? root "rules" with
  | none => return []
  | some (.obj fields) => ofParsed (parseNamed fields)
  | some _ => refuse "rules" "" (.partNotObject "rules")

/-- Registers each named check under its name. -/
def enrolChecks : Table Rule → Assemble Unit
  | [] => return ()
  | (name, .check k) :: rest => do
    enrol name k
    enrolChecks rest
  | _ :: rest => enrolChecks rest

/-! ### The rules of the timeframes -/

/-- The bars that must be at hand where a block does not say. -/
def defaultMinBars : UInt64 := 50

/-- The bars that must be at hand. -/
def minBarsOf (p : Path) (block : Table Json) : Assemble UInt64 :=
  match Json.given? block "min_bars" with
  | none => return defaultMinBars
  | some v =>
    match v.asCount? with
    | some n => if n = 0 then refuse p.render "min_bars" .badMinBars else return n
    | none => refuse p.render "min_bars" .badMinBars

/-- The grace window in seconds. A count beyond the signed numbers stands for a negative one. -/
def graceOf (p : Path) (block : Table Json) : Assemble Int :=
  match Json.given? block "grace_window_secs" with
  | none => return 0
  | some v =>
    match v.asCount? with
    | some n => return n.toInt64.toInt
    | none => refuse p.render "grace_window_secs" .badGrace

/-- The rules of a timeframe. -/
def assembleBlock (rules : Table Rule) (p : Path) : Json → Assemble Block
  | .obj block => do
    let minBars ← minBarsOf p block
    let graceSeconds ← graceOf p block
    let long ← listAt rules p block "long"
    let short ← listAt rules p block "short"
    if Instant.isDuration graceSeconds then
      return { long, short, minBars, graceSeconds }
    else throw (.crash .durationRange)
  | _ => refuse p.render "" (.partNotObject "timeframe block")

/-- The rules of all timeframes. Two keys may spell the same timeframe; the later one counts. -/
def assembleBlocks (rules : Table Rule) (p : Path) (blocks : ByTimeframe Block) :
    Table Json → Assemble (ByTimeframe Block)
  | [] => return blocks
  | (key, v) :: rest => do
    let tf ← timeframe p.render key (.str key)
    let block ← assembleBlock rules (p.key key) v
    assembleBlocks rules p (blocks.set tf block) rest

/-- The timeframe on which a cascade starts. -/
def startOf (fields : Table Json) : Assemble Timeframe :=
  match Json.given? fields "start_from_timeframe" with
  | none => return .h4
  | some v => timeframe "validation" "start_from_timeframe" v

/-- The section of the timeframes: where a cascade starts, and the rules. -/
def assembleValidation (rules : Table Rule) (root : Table Json) :
    Assemble (Timeframe × ByTimeframe Block) := do
  let missing := Fault.configMissing "validation" "timeframe"
  match root.lookup "validation" with
  | some (.obj fields) =>
    let start ← startOf fields
    match fields.lookup "timeframe" with
    | some (.obj blocks) =>
      return (start,
        ← assembleBlocks rules [.key "validation", .key "timeframe"] ByTimeframe.empty blocks)
    | _ => fail missing
  | _ => fail missing

/-! ### The choice of the timeframe to enter on -/

/-- The name of the section. -/
def selectorKey : String := "execution_selector"

/-- The rules none of which may fail. A list in the section comes before one beside it. -/
def assembleFilters (rules : Table Rule) (root selector : Table Json) : Assemble (List Node.Id) :=
  if selector.has "filters_mandatory" then
    listAt rules [.key selectorKey] selector "filters_mandatory"
  else listAt rules [] root "filters_mandatory"

/-- The rules that let one minute be chosen, and whether it may be. -/
def assembleAllowance (rules : Table Rule) (selector : Table Json) :
    Assemble (Bool × List Node.Id) :=
  match Json.given? selector "allow_1m_only_for" with
  | none => return (false, [])
  | some (.obj fields) => do
    let enabled := ((fields.lookup "enabled").bind Json.asFlag?).getD false
    return (enabled,
      ← listAt rules [.key selectorKey, .key "allow_1m_only_for"] fields "conditions")
  | some _ => refuse selectorKey "allow_1m_only_for" (.partNotObject "allow_1m_only_for")

/-- The timeframe where nothing else decides. -/
def defaultOf (selector : Table Json) : Assemble Timeframe :=
  match Json.given? selector "default_timeframe" with
  | none => return .m5
  | some v => do
    let tf ← timeframe selectorKey "default_timeframe" v
    if tf.isExecution then return tf
    else refuse selectorKey "default_timeframe" (.notExecution tf)

/-- The timeframes that the items of a list spell. -/
def orderItems : List Json → Assemble (List Timeframe)
  | [] => return []
  | v :: rest => do
    let tf ← timeframe selectorKey "execution_timeframes" v
    return tf :: (← orderItems rest)

/-- The order in which timeframes are tried. -/
def orderOf (selector : Table Json) : Assemble (List Timeframe) :=
  match Json.given? selector "execution_timeframes" with
  | none => return [.m15, .m5, .m1]
  | some (.arr items) => orderItems items
  | some _ => refuse selectorKey "execution_timeframes" .notTimeframeList

/-- The groups of each timeframe. Two keys may spell the same timeframe; the later one counts. -/
def assembleGroups (rules : Table Rule) (p : Path) (groups : ByTimeframe Groups) :
    Table Json → Assemble (ByTimeframe Groups)
  | [] => return groups
  | (key, v) :: rest => do
    let tf ← timeframe p.render key (.str key)
    match v with
    | .obj fields =>
      let stay ← listAt rules (p.key key) fields "stay_on_if"
      let drop ← listAt rules (p.key key) fields "drop_to_lower_if_any"
      let forbid ← listAt rules (p.key key) fields "forbid_drop_to_lower_if_any"
      assembleGroups rules p (groups.set tf { stay, drop, forbid }) rest
    | _ => refuse (p.key key).render "" (.partNotObject "per-timeframe block")

/-- The layout: by timeframe if there is such a section, else flat. -/
def assembleLayout (rules : Table Rule) (selector : Table Json) : Assemble Layout :=
  match selector.lookup "per_timeframe" with
  | some (.obj blocks) => do
    let order ← orderOf selector
    let groups ←
      assembleGroups rules [.key selectorKey, .key "per_timeframe"] ByTimeframe.empty blocks
    return .byTimeframe order groups
  | some _ => refuse selectorKey "per_timeframe" (.partNotObject "per_timeframe")
  | none => do
    let stay ← listAt rules [.key selectorKey] selector "stay_on_15m_if"
    let drop ← listAt rules [.key selectorKey] selector "drop_to_5m_if_any"
    let forbid ← listAt rules [.key selectorKey] selector "forbid_drop_to_5m_if_any"
    return .flat { stay, drop, forbid }

/-- The fields of the section; none if it is absent. -/
def selectorOf (root : Table Json) : Assemble (Table Json) :=
  match Json.given? root selectorKey with
  | none => return []
  | some (.obj fields) => return fields
  | some _ => refuse selectorKey "" (.partNotObject selectorKey)

/-- The rules that choose the timeframe to enter on. -/
def assembleSelection (rules : Table Rule) (root : Table Json) : Assemble Selection := do
  let selector ← selectorOf root
  let filters ← assembleFilters rules root selector
  let (allowsMinute, minuteRules) ← assembleAllowance rules selector
  let default ← defaultOf selector
  let layout ← assembleLayout rules selector
  return { layout, filters, allowsMinute, minuteRules, default }

/-! ### The whole configuration -/

/-- Makes the nodes of the named rules that have none yet. -/
def assembleAllNamed (rules : Table Rule) : List String → Assemble Unit
  | [] => return ()
  | name :: rest => do
    let _ ← assembleNamed rules rules.length [] name (rulePath name)
    assembleAllNamed rules rest

/-- The sections of a configuration, in order. -/
def assembleSections (root : Table Json) :
    Assemble (Timeframe × ByTimeframe Block × Selection) := do
  let rules ← namedRules root
  enrolChecks rules
  let (start, blocks) ← assembleValidation rules root
  let selection ← assembleSelection rules root
  assembleAllNamed rules rules.names
  return (start, blocks, selection)

/-- The book of a configuration, over a registry of conditions. -/
def Book.compile (base : Registry) : Json → Except Stop Book
  | .obj root => do
    let ((start, blocks, selection), a) ← assembleSections root ⟨base, #[], []⟩
    return { registry := a.registry, nodes := a.nodes, named := a.named, blocks, selection, start }
  | _ => .error (.fault (.configInvalid "root" "" .notObject))

end TopDown
