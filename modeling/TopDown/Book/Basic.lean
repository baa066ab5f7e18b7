import TopDown.Registry
import TopDown.Rule.Basic

/-!
# Books of rules

A book is what a rule configuration becomes before it is used: every name in it has been looked up
and no rule refers to itself, so that checking a rule cannot go wrong.

The rules of a book share their parts. Its nodes stand in one row, a group after its members, and a
rule is the place of its node in that row (`TopDown.Node.Id`). Named rules, the rules of each
timeframe and the groups that choose a timeframe to enter on are lists of such places.
-/

namespace TopDown

/-! ### Maps by timeframe -/

/-- A map from timeframes. -/
abbrev ByTimeframe (α : Type) := Timeframe → Option α

namespace ByTimeframe

variable {α : Type}

/-- The map without entries. -/
def empty : ByTimeframe α := fun _ => none

/-- The map with an entry for a timeframe, in the place of a former one. -/
def set (m : ByTimeframe α) (tf : Timeframe) (a : α) : ByTimeframe α :=
  fun t => if t = tf then some a else m t

/-- The entries, coarsest timeframe first. -/
def entries (m : ByTimeframe α) : List (Timeframe × α) :=
  Timeframe.all.filterMap fun tf => (m tf).map fun a => (tf, a)

end ByTimeframe

/-! ### Nodes -/

/-- The place of a node in its book. -/
abbrev Node.Id := Nat

/-- A rule whose names have been looked up. -/
inductive Node where
  /-- The condition in a place of the registry, under its name, with the threshold that the
  reference to it gives. -/
  | leaf (name : String) (condition : Nat) (threshold : Option Float)
  /-- A group of earlier nodes, under its name. -/
  | group (quantifier : Quantifier) (label : String) (members : List Node.Id)
  deriving Inhabited

/-- The name under which the audit lists a node. -/
def Node.label : Node → String
  | leaf name _ _ => name
  | group _ label _ => label

/-- The node under another name, if it is a group. A leaf keeps the name of its condition. -/
def Node.relabel (label : String) : Node → Node
  | group q _ members => group q label members
  | node => node

/-! ### Sections -/

/-- What is asked of a symbol on one timeframe. -/
structure Block where
  /-- The rules for buying. -/
  long : List Node.Id
  /-- The rules for selling. -/
  short : List Node.Id
  /-- The bars that must be at hand. -/
  minBars : UInt64
  /-- The seconds after the opening of a bar during which no signal counts. -/
  graceSeconds : Int
  deriving Inhabited

/-- The block has no rules. -/
def Block.isEmpty (b : Block) : Bool :=
  b.long.isEmpty && b.short.isEmpty

/-- The rules that keep to a timeframe or go down from it. -/
structure Groups where
  /-- All of these must hold to stay. -/
  stay : List Node.Id
  /-- Any of these speaks for going down. -/
  drop : List Node.Id
  /-- Any of these speaks against going down. -/
  forbid : List Node.Id
  deriving Inhabited

/-- All rules of the groups. -/
def Groups.all (g : Groups) : List Node.Id :=
  g.stay ++ g.drop ++ g.forbid

/-- How the timeframe to enter on is chosen. -/
inductive Layout where
  /-- The timeframes are tried in order, each by its own groups. -/
  | byTimeframe (order : List Timeframe) (groups : ByTimeframe Groups)
  /-- One set of groups decides between fifteen minutes and five. -/
  | flat (groups : Groups)

/-- The rules that choose the timeframe to enter on. -/
structure Selection where
  /-- The layout. -/
  layout : Layout
  /-- None of these may fail. -/
  filters : List Node.Id
  /-- One minute may be chosen. -/
  allowsMinute : Bool
  /-- Any of these lets one minute be chosen. -/
  minuteRules : List Node.Id
  /-- The timeframe where nothing else decides. -/
  default : Timeframe

/-! ### Books -/

/-- A rule configuration, ready for use. -/
structure Book where
  /-- The conditions that the leaves refer to. -/
  registry : Registry
  /-- The nodes, every group after its members. -/
  nodes : Array Node
  /-- The named rules. -/
  named : Table Node.Id
  /-- The rules of each timeframe. -/
  blocks : ByTimeframe Block
  /-- The rules that choose the timeframe to enter on. -/
  selection : Selection
  /-- The timeframe on which a cascade starts. -/
  start : Timeframe

/-- The name under which the audit lists a rule. -/
def Book.label (b : Book) (id : Node.Id) : String :=
  match b.nodes[id]? with
  | some node => node.label
  | none => ""

end TopDown
