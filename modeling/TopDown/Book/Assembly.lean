import TopDown.Book.Basic
import TopDown.Rule.Evaluate

/-!
# Turning rules into nodes

The rules of a configuration refer to each other by name. An `TopDown.Assembly` is the part of a book
that is ready: the registry, the nodes, and the named rules that have become nodes.

`TopDown.assembleRule` turns a rule into a node, its members first. A check that is spelt out in
place is registered as a condition under the text of its place. A reference to a named check or to a
condition becomes a leaf; a reference to any other named rule becomes the node of that rule, which
`TopDown.assembleNamed` makes on the first occasion. While a named rule is being made it is
*entered*; a reference to a rule that is entered closes a circle and is refused.
-/

namespace TopDown

/-- The part of a book that is ready. -/
structure Assembly where
  /-- The conditions, with those that stand for checks. -/
  registry : Registry
  /-- The nodes. -/
  nodes : Array Node
  /-- The nodes of the named rules. -/
  named : Table Node.Id

/-- A step of the assembly. -/
abbrev Assemble (α : Type) := StateT Assembly (Except Stop) α

namespace Assemble

/-- Gives up because of a fault. -/
def fail {α : Type} (f : Fault) : Assemble α :=
  throw (.fault f)

/-- Adds a node. -/
def push (node : Node) : Assemble Node.Id := do
  let a ← get
  set { a with nodes := a.nodes.push node }
  return a.nodes.size

/-- Registers a check under a name. -/
def enrol (name : String) (check : Check) : Assemble Unit :=
  modify fun a => { a with registry := a.registry.register name fun c => check.evaluate name c }

/-- Adds a leaf for the condition of a name. -/
def leaf (name : String) (threshold : Option Float) (p : Path) : Assemble Node.Id := do
  match (← get).registry.place? name with
  | some condition => push (.leaf name condition threshold)
  | none => fail (.unknownCondition name p)

/-- Records the node of a named rule. A group takes the name of its rule. -/
def record (name : String) (isGroup : Bool) (id : Node.Id) : Assemble Unit :=
  modify fun a =>
    { a with
      nodes := if isGroup then a.nodes.modify id (Node.relabel name) else a.nodes
      named := Table.put name id a.named }

end Assemble

open Assemble

mutual

/-- Turns a rule into a node. The argument `named` makes the node of a named rule, which is referred
to from a place. -/
def assembleRule (named : String → Path → Assemble Node.Id) (rules : Table Rule) (p : Path) :
    Rule → Assemble Node.Id
  | .reference name threshold =>
    match rules.lookup name with
    | some (.check _) | none => leaf name (threshold.bind Threshold.number?) p
    | some _ => named name p
  | .group q members => do
    let ids ← assembleMembers named rules (p.key q.key) 0 members
    push (.group q q.key ids)
  | .check k => do
    enrol p.render k
    leaf p.render none p

/-- Turns the members of a group into nodes, counted from `i`. -/
def assembleMembers (named : String → Path → Assemble Node.Id) (rules : Table Rule) (p : Path)
    (i : Nat) : List Rule → Assemble (List Node.Id)
  | [] => return []
  | r :: rest => do
    let id ← assembleRule named rules (p.index i) r
    let ids ← assembleMembers named rules p (i + 1) rest
    return id :: ids

end

/-- The place of a named rule. -/
def rulePath (name : String) : Path :=
  [.key "rules", .key name]

/-- Makes the node of a named rule, unless it has been made. The first argument counts the named
rules that are not entered; when there are none left, every reference closes a circle. -/
def assembleNamed (rules : Table Rule) :
    Nat → List String → String → Path → Assemble Node.Id
  | left, entered, name, p => do
    match (← get).named.lookup name with
    | some id => return id
    | none =>
      if entered.contains name then fail (.circularReference name p)
      else
        match rules.lookup name, left with
        | none, _ => fail (.unknownCondition name p)
        | some _, 0 => fail (.circularReference name p)
        | some (.check _), _ => do
          let id ← leaf name none p
          record name false id
          return id
        | some rule, left + 1 => do
          let id ←
            assembleRule (assembleNamed rules left (name :: entered)) rules (rulePath name) rule
          record name rule.isGroup id
          return id

/-- Turns the rules of a list into nodes. -/
def assembleList (rules : Table Rule) (p : Path) (list : List Rule) : Assemble (List Node.Id) :=
  assembleMembers (assembleNamed rules rules.length []) rules p 0 list

end TopDown
