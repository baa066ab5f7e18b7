import TopDown.Book.Basic

/-!
# Checking the rules of a book

`TopDown.Book.evaluate` reaches the verdict of a rule, and `TopDown.Book.evaluateList` those of a
list of rules. Before a list is checked, the thresholds written at the references in it
(`TopDown.Book.thresholds`) are laid over the facts.

A group has the verdict that `TopDown.Quantifier.satisfied` finds among its members. Its value lists
what became of each member, for the audit.
-/

namespace TopDown

/-! ### Groups -/

/-- The quantifier is satisfied by the verdicts. -/
def Quantifier.satisfied : Quantifier → List Verdict → Bool
  | .all, vs => Verdict.allPassed vs
  | .any, vs => Verdict.anyPassed vs

/-- What became of a member of a group: passed, failed, or neither. -/
def Verdict.outcome (v : Verdict) : Json :=
  if v.missing then .null else .bool v.passed

/-- The verdict of a group. It is undecided when all members are. -/
def Quantifier.combine (q : Quantifier) (members : List Labelled) : Verdict :=
  let verdicts := members.map (·.verdict)
  let summary := Json.ofFields (members.map fun m => (m.label, m.verdict.outcome))
  let verdict :=
    if Verdict.decidedCount verdicts = 0 then
      { Verdict.undecided "all children missing data" with value := summary }
    else .decided (q.satisfied verdicts) summary none
  { verdict with crash := Verdict.firstCrash verdicts }

namespace Book

/-! ### Rules -/

/-- The verdict of a rule. The context already carries the thresholds. -/
def evaluate (b : Book) (c : Context) (id : Node.Id) : Verdict :=
  match b.nodes[id]? with
  | none => .broken (.outOfBounds b.nodes.size id)
  | some (.leaf _ condition _) => b.registry.evaluateAt condition c
  | some (.group q _ members) =>
    q.combine <| members.map fun m =>
      ⟨b.label m, if _ : m < id then b.evaluate c m else .broken (.outOfBounds id m)⟩
termination_by id

/-! ### Thresholds -/

/-- The thresholds of the leaves that are found from the nodes on a stack, among those nodes that
have not been seen. The top of the stack is visited first, and the last member of a group before the
others. -/
def thresholdsFrom (nodes : Array Node) (unseen : List Node.Id) :
    List Node.Id → List (String × Float)
  | [] => []
  | id :: stack =>
    if _ : id ∈ unseen then
      match nodes[id]? with
      | some (.leaf name _ (some t)) => (name, t) :: thresholdsFrom nodes (unseen.erase id) stack
      | some (.group _ _ members) =>
        thresholdsFrom nodes (unseen.erase id) (members.reverse ++ stack)
      | _ => thresholdsFrom nodes (unseen.erase id) stack
    else thresholdsFrom nodes unseen stack
termination_by stack => (unseen.length, stack.length)
decreasing_by
  all_goals
    first
    | exact Prod.Lex.left _ _ (by
        rw [List.length_erase_of_mem ‹_›]
        exact Nat.sub_lt (List.length_pos_of_mem ‹_›) Nat.one_pos)
    | exact Prod.Lex.right _ (Nat.lt_succ_self _)

/-- The thresholds that the references within some rules give, each under the name of its condition.
A node that the rules share counts once. -/
def thresholds (b : Book) (roots : List Node.Id) : List (String × Float) :=
  thresholdsFrom b.nodes (List.range b.nodes.size) roots.reverse

/-! ### Lists -/

/-- The verdicts of a list of rules, in a context that carries the thresholds already. -/
def evaluateAll (b : Book) (c : Context) (roots : List Node.Id) : List Labelled :=
  roots.map fun id => ⟨b.label id, b.evaluate c id⟩

/-- The verdicts of a list of rules, with their own thresholds laid over the facts. -/
def evaluateList (b : Book) (c : Context) (roots : List Node.Id) : List Labelled :=
  b.evaluateAll (c.withThresholds (b.thresholds roots)) roots

end Book

end TopDown
