import TopDown.Proofs.Assembly
import TopDown.Proofs.Registry

/-!
# Nodes that spell rules

A book keeps rules as nodes in a row. `TopDown.Spells` says that a node spells a rule: it is a leaf
with the threshold that the reference gives, or a group of earlier nodes that spell the members, or
the node of the rule that the reference names. Nodes may be shared, and the name under which the
audit lists a group does not matter.

An assembly only grows (`TopDown.Grows`): it gives out further places, adds nodes behind the others
and changes no more of a node than its name. What a node spells, it spells ever after
(`TopDown.Spells.mono`).
-/

namespace TopDown

/-! ### Shapes -/

/-- The node in a place, without the name of a group. -/
def shapeAt (nodes : Array Node) (id : Node.Id) : Option Node :=
  (nodes[id]?).map (Node.relabel "")

theorem relabel_relabel (l l' : String) (node : Node) :
    (node.relabel l').relabel l = node.relabel l := by
  cases node <;> rfl

theorem shapeAt_eq_leaf {nodes : Array Node} {id : Node.Id} {name : String} {place : Nat}
    {threshold : Option Float} :
    shapeAt nodes id = some (.leaf name place threshold) ↔
      nodes[id]? = some (.leaf name place threshold) := by
  unfold shapeAt
  rw [Option.map_eq_some_iff]
  constructor
  · rintro ⟨node, hnode, h⟩
    cases node with
    | leaf _ _ _ => rw [hnode, ← h]; rfl
    | group _ _ _ => cases h
  · exact fun h => ⟨_, h, rfl⟩

theorem shapeAt_eq_group {nodes : Array Node} {id : Node.Id} {q : Quantifier} {l : String}
    {ids : List Node.Id} (h : shapeAt nodes id = some (.group q l ids)) :
    ∃ label, nodes[id]? = some (.group q label ids) := by
  unfold shapeAt at h
  obtain ⟨node, hnode, h⟩ := Option.map_eq_some_iff.mp h
  cases node with
  | leaf _ _ _ => cases h
  | group _ label _ =>
    cases h
    exact ⟨label, hnode⟩

theorem lt_size_of_shapeAt {nodes : Array Node} {id : Node.Id} {s : Node}
    (h : shapeAt nodes id = some s) : id < nodes.size := by
  unfold shapeAt at h
  obtain ⟨node, hnode, -⟩ := Option.map_eq_some_iff.mp h
  exact (Array.getElem?_eq_some_iff.mp hnode).1

/-- A node that is added leaves the others in their places. -/
theorem shapeAt_push_of_lt {nodes : Array Node} {id : Node.Id} {s : Node} (node : Node)
    (h : shapeAt nodes id = some s) : shapeAt (nodes.push node) id = some s := by
  have hlt := lt_size_of_shapeAt h
  unfold shapeAt at h ⊢
  rw [Array.getElem?_push_lt hlt, ← h, Array.getElem?_eq_getElem hlt]

theorem shapeAt_push_self (nodes : Array Node) (node : Node) :
    shapeAt (nodes.push node) nodes.size = some (node.relabel "") := by
  simp [shapeAt]

/-- A node that is not new was there before. -/
theorem shapeAt_push {nodes : Array Node} {node s : Node} {id : Node.Id}
    (h : shapeAt (nodes.push node) id = some s) :
    shapeAt nodes id = some s ∨ (id = nodes.size ∧ s = node.relabel "") := by
  have hlt := lt_size_of_shapeAt h
  rw [Array.size_push] at hlt
  rcases Nat.lt_or_ge id nodes.size with hid | hid
  · refine .inl ?_
    unfold shapeAt at h ⊢
    rwa [Array.getElem?_push_lt hid, ← Array.getElem?_eq_getElem hid] at h
  · obtain rfl : id = nodes.size := Nat.le_antisymm (Nat.lt_succ_iff.mp hlt) hid
    rw [shapeAt_push_self, Option.some.injEq] at h
    exact .inr ⟨rfl, h.symm⟩

/-- A leaf was there before, or it is the node that is added. -/
theorem shapeAt_push_leaf {nodes : Array Node} {node : Node} {id : Node.Id} {name : String}
    {place : Nat} {threshold : Option Float}
    (h : shapeAt (nodes.push node) id = some (.leaf name place threshold)) :
    shapeAt nodes id = some (.leaf name place threshold) ∨ node = .leaf name place threshold := by
  refine (shapeAt_push h).imp_right fun ⟨_, hnode⟩ => ?_
  cases node with
  | leaf _ _ _ => exact hnode.symm
  | group _ _ _ => cases hnode

/-- A group under another name has the same shape. -/
theorem shapeAt_modify (nodes : Array Node) (at' id : Node.Id) (label : String) :
    shapeAt (nodes.modify at' (Node.relabel label)) id = shapeAt nodes id := by
  unfold shapeAt
  rw [Array.getElem?_modify]
  split
  · rename_i h
    subst h
    rw [Option.map_map]
    exact congrArg (Option.map · _) (funext fun node => relabel_relabel "" label node)
  · rfl

/-! ### Growing -/

/-- **The assembly has grown**: places in the registry and shapes of nodes are as they were, the named
rules that have a node still have one, and the new conditions are those of checks. -/
structure Grows (a a' : Assembly) : Prop where
  /-- Places are kept. -/
  places : ∀ name place, a.registry.place? name = some place →
    a'.registry.place? name = some place
  /-- Shapes are kept. -/
  nodes : ∀ id s, shapeAt a.nodes id = some s → shapeAt a'.nodes id = some s
  /-- Named rules are kept. -/
  named : ∀ name, (a.named.lookup name).isSome = true → (a'.named.lookup name).isSome = true
  /-- A condition is an old one, or that of a check. -/
  conditions : ∀ e ∈ a'.registry.entries,
    e ∈ a.registry.entries ∨ ∃ k : Check, e.2 = fun c => k.evaluate e.1 c

variable {a a' a'' : Assembly}

theorem Grows.refl (a : Assembly) : Grows a a :=
  ⟨fun _ _ h => h, fun _ _ h => h, fun _ h => h, fun _ h => .inl h⟩

theorem Grows.trans (h : Grows a a') (h' : Grows a' a'') : Grows a a'' where
  places name place hp := h'.places name place (h.places name place hp)
  nodes id s hs := h'.nodes id s (h.nodes id s hs)
  named name hn := h'.named name (h.named name hn)
  conditions e he := (h'.conditions e he).elim (h.conditions e) .inr

theorem grows_push (a : Assembly) (node : Node) :
    Grows a { a with nodes := a.nodes.push node } where
  places _ _ h := h
  nodes _ _ h := shapeAt_push_of_lt node h
  named _ h := h
  conditions _ h := .inl h

theorem grows_register (a : Assembly) (name : String) (k : Check) :
    Grows a { a with registry := a.registry.register name fun c => k.evaluate name c } where
  places _ _ h := Registry.place?_register h
  nodes _ _ h := h
  named _ h := h
  conditions e h := by
    rcases Registry.mem_register h with rfl | h
    · exact .inr ⟨k, rfl⟩
    · exact .inl h

theorem shapeAt_record (nodes : Array Node) (name : String) (isGroup : Bool) (at' id : Node.Id) :
    shapeAt (if isGroup then nodes.modify at' (Node.relabel name) else nodes) id =
      shapeAt nodes id := by
  cases isGroup
  · rfl
  · exact shapeAt_modify nodes at' id name

theorem grows_record (a : Assembly) (name : String) (isGroup : Bool) (id : Node.Id) :
    Grows a
      { a with
        nodes := if isGroup then a.nodes.modify id (Node.relabel name) else a.nodes
        named := Table.put name id a.named } where
  places _ _ h := h
  nodes id' s h := by rw [shapeAt_record, h]
  named n h := by
    rw [Table.lookup_put]
    split
    · rfl
    · exact h
  conditions _ h := .inl h

/-! ### Spelling -/

/-- **The node spells the rule** that stands at a place. -/
inductive Spells (registry : Registry) (nodes : Array Node) (rules : Table Rule) :
    Path → Rule → Node.Id → Prop
  /-- A reference to a condition or to a named check: a leaf with the threshold of the reference. -/
  | leaf {p : Path} {name : String} {threshold : Option Threshold} {id : Node.Id} {place : Nat}
      (hname : IsLeafName rules name)
      (hid : shapeAt nodes id = some (.leaf name place (threshold.bind Threshold.number?)))
      (hplace : registry.place? name = some place) :
      Spells registry nodes rules p (.reference name threshold) id
  /-- A reference to another named rule: the node of that rule. -/
  | named {p : Path} {name : String} {threshold : Option Threshold} {id : Node.Id} {body : Rule}
      (hr : rules.lookup name = some body) (hk : body.isCheck = false)
      (h : Spells registry nodes rules (rulePath name) body id) :
      Spells registry nodes rules p (.reference name threshold) id
  /-- A check that is spelt out: a leaf without a threshold. -/
  | check {p : Path} {k : Check} {id : Node.Id} {place : Nat}
      (hid : shapeAt nodes id = some (.leaf p.render place none))
      (hplace : registry.place? p.render = some place) :
      Spells registry nodes rules p (.check k) id
  /-- A group: a node of earlier nodes, each of which spells a member. -/
  | group {p : Path} {q : Quantifier} {rs : List Rule} {id : Node.Id} {ids : List Node.Id}
      (hid : shapeAt nodes id = some (.group q "" ids)) (hlt : ∀ m ∈ ids, m < id)
      (hlen : ids.length = rs.length)
      (h : ∀ i r m, rs[i]? = some r → ids[i]? = some m →
        Spells registry nodes rules ((p.key q.key).index i) r m) :
      Spells registry nodes rules p (.group q rs) id

variable {rules : Table Rule} {p : Path} {r : Rule} {id : Node.Id}

/-- **What a node spells, it spells ever after.** -/
theorem Spells.mono (hg : Grows a a') (h : Spells a.registry a.nodes rules p r id) :
    Spells a'.registry a'.nodes rules p r id := by
  induction h with
  | leaf hname hid hplace =>
    exact .leaf hname (hg.nodes _ _ hid) (hg.places _ _ hplace)
  | named hr hk _ ih => exact .named hr hk ih
  | check hid hplace => exact .check (hg.nodes _ _ hid) (hg.places _ _ hplace)
  | group hid hlt hlen _ ih => exact .group (hg.nodes _ _ hid) hlt hlen ih

/-- A node that spells a rule stands in the row. -/
theorem Spells.lt_size {registry : Registry} {nodes : Array Node}
    (h : Spells registry nodes rules p r id) : id < nodes.size := by
  induction h with
  | leaf _ hid _ => exact lt_size_of_shapeAt hid
  | named _ _ _ ih => exact ih
  | check hid _ => exact lt_size_of_shapeAt hid
  | group hid _ _ _ _ => exact lt_size_of_shapeAt hid

end TopDown
