import TopDown.Proofs.Integrity

/-!
# The labels of nodes

The audit lists a node under a label: a leaf under the name of its condition, a group under its
quantifier, and a group that is the body of a named rule under the name of that rule. The spelling of
rules takes no notice of labels, so they are followed here through the assembly
(`TopDown.Assembly.Labelled`, `TopDown.Book.compile_labelled`).

That a group which is labelled by a rule is the node of that rule is not quite plain: a rule that is
put on record a second time would lose its first node. It never is. A rule is made only if it has no
node, and while it is being made it is entered, so that nothing below it puts it on record
(`TopDown.Assembly.KeepsOut`).

So it can be told which nodes share a label (`TopDown.Assembly.Labelled.clash`): two leaves of one
condition; two groups of one quantifier, or such a group and something else that is called `all_of` or
`any_of`; and the leaf of a check beside a rule that is called like the place of the check.
-/

namespace TopDown

open Assemble

variable {rules : Table Rule} {a a' a'' : Assembly}

/-! ### The invariant -/

/-- The text shows the place of a member of a group or of an item of a list. -/
def ShowsItem (s : String) : Prop :=
  ∃ (p : Path) (i : Nat), s = (p.index i).render

/-- The named rule is a group. -/
def IsGroupName (rules : Table Rule) (name : String) : Prop :=
  ∃ q members, rules.lookup name = some (.group q members)

/-- **The labels of nodes**: a leaf has the name of a condition or shows its place, and a group that is
not labelled by its quantifier is the node of the rule that it is labelled by. -/
structure Assembly.Labelled (rules : Table Rule) (a : Assembly) : Prop where
  /-- Leaves stand for conditions and named checks, or for checks that are spelt out. -/
  leaf : ∀ (id : Node.Id) name place threshold,
    a.nodes[id]? = some (.leaf name place threshold) → IsLeafName rules name ∨ ShowsItem name
  /-- Groups have no name, or that of their rule. -/
  group : ∀ (id : Node.Id) q label ids, a.nodes[id]? = some (.group q label ids) →
    label = q.key ∨ a.named.lookup label = some id ∧ IsGroupName rules label

/-- Of some rules, those that are not on record are not put on record. -/
def Assembly.KeepsOut (names : List String) (a a' : Assembly) : Prop :=
  ∀ name ∈ names, a.named.lookup name = none → a'.named.lookup name = none

namespace Assembly

variable {names : List String}

theorem KeepsOut.refl (names : List String) (a : Assembly) : KeepsOut names a a :=
  fun _ _ h => h

theorem KeepsOut.trans (h : KeepsOut names a a') (h' : KeepsOut names a' a'') :
    KeepsOut names a a'' :=
  fun name hn hnone => h' name hn (h name hn hnone)

/-- An assembly without nodes has no labels. -/
theorem labelled_start (base : Registry) (rules : Table Rule) : Labelled rules ⟨base, #[], []⟩ where
  leaf id name place threshold hid := by cases hid
  group id q label ids hid := by cases hid

theorem Labelled.enrol (h : a.Labelled rules) (name : String) (k : Check) :
    Labelled rules { a with registry := a.registry.register name fun c => k.evaluate name c } :=
  ⟨h.leaf, h.group⟩

/-- A node that is not new was there before. -/
theorem getElem?_push {nodes : Array Node} {node n : Node} {id : Node.Id}
    (h : (nodes.push node)[id]? = some n) : nodes[id]? = some n ∨ n = node := by
  rw [Array.getElem?_push] at h
  split at h
  · exact .inr (Option.some.inj h).symm
  · exact .inl h

theorem Labelled.push_leaf (h : a.Labelled rules) {name : String} {place : Nat}
    {threshold : Option Float} (hname : IsLeafName rules name ∨ ShowsItem name) :
    Labelled rules { a with nodes := a.nodes.push (.leaf name place threshold) } where
  leaf id name' place' threshold' hid := by
    rcases getElem?_push hid with hid | hnode
    · exact h.leaf id name' place' threshold' hid
    · cases hnode
      exact hname
  group id q label ids hid := by
    rcases getElem?_push hid with hid | hnode
    · exact h.group id q label ids hid
    · cases hnode

theorem Labelled.push_group (h : a.Labelled rules) (q : Quantifier) (members : List Node.Id) :
    Labelled rules { a with nodes := a.nodes.push (.group q q.key members) } where
  leaf id name place threshold hid := by
    rcases getElem?_push hid with hid | hnode
    · exact h.leaf id name place threshold hid
    · cases hnode
  group id q' label ids hid := by
    rcases getElem?_push hid with hid | hnode
    · exact h.group id q' label ids hid
    · cases hnode
      exact .inl rfl

/-- A rule that is not on record may be put there. -/
theorem Labelled.record (h : a.Labelled rules) {name : String} {rule : Rule} (id : Node.Id)
    (hrule : rules.lookup name = some rule) (hnone : a.named.lookup name = none) :
    Labelled rules
      { a with
        nodes := if rule.isGroup then a.nodes.modify id (Node.relabel name) else a.nodes
        named := Table.put name id a.named } := by
  -- a group that is labelled by a rule on record keeps that rule
  have hkeep {m : Node.Id} {q : Quantifier} {label : String} {ids : List Node.Id}
      (hm : a.nodes[m]? = some (.group q label ids)) : label = q.key ∨
        (Table.put name id a.named).lookup label = some m ∧ IsGroupName rules label := by
    refine (h.group m q label ids hm).imp_right fun ⟨hlabel, hgroup⟩ => ⟨?_, hgroup⟩
    rw [Table.lookup_put_of_ne _ _ _, hlabel]
    rintro rfl
    rw [hnone] at hlabel
    cases hlabel
  cases rule with
  | check _ | reference _ _ => exact ⟨h.leaf, fun m q label ids => hkeep⟩
  | group q members =>
    have hnode {m : Node.Id} {n : Node}
        (hm : (a.nodes.modify id (Node.relabel name))[m]? = some n) :
        a.nodes[m]? = some n ∨ m = id ∧ ∃ node, a.nodes[m]? = some node ∧ n = node.relabel name := by
      rw [Array.getElem?_modify] at hm
      split at hm
      · rename_i hid
        obtain ⟨node, hnode, rfl⟩ := Option.map_eq_some_iff.mp hm
        exact .inr ⟨hid.symm, node, hnode, rfl⟩
      · exact .inl hm
    constructor
    · intro m n place threshold hm
      rcases hnode hm with hm | ⟨-, node, hm, hn⟩
      · exact h.leaf m n place threshold hm
      · cases node with
        | leaf _ _ _ =>
          cases hn
          exact h.leaf m n place threshold hm
        | group _ _ _ => cases hn
    · intro m q' label ids hm
      rcases hnode hm with hm | ⟨rfl, node, hm, hn⟩
      · exact hkeep hm
      · cases node with
        | leaf _ _ _ => cases hn
        | group _ _ _ =>
          cases hn
          exact .inr ⟨Table.lookup_put_self _ _ _, q, members, hrule⟩

end Assembly

open Assembly

/-! ### Rules -/

theorem leaf_labelled (ha : a.Labelled rules) {names : List String} {name : String}
    (hname : IsLeafName rules name ∨ ShowsItem name) {threshold : Option Float} {p : Path}
    {id : Node.Id} (hok : leaf name threshold p a = .ok (id, a')) :
    a'.Labelled rules ∧ KeepsOut names a a' := by
  obtain ⟨place, -, rfl, rfl⟩ := leaf_eq_ok.mp hok
  exact ⟨ha.push_leaf hname, fun _ _ h => h⟩

/-- Making a named rule keeps the labels in order, and puts none of some rules on record. -/
def LabelsNamed (rules : Table Rule) (names : List String)
    (named : String → Path → Assemble Node.Id) : Prop :=
  ∀ name p a id a', a.Labelled rules → named name p a = .ok (id, a') →
    a'.Labelled rules ∧ KeepsOut names a a'

mutual

/-- **Making the node of a rule** keeps the labels in order. A check shows its place, if that is the
place of an item. -/
theorem assembleRule_labelled {names : List String} {named : String → Path → Assemble Node.Id}
    (hnamed : LabelsNamed rules names named) (p : Path) :
    (r : Rule) → (r.isCheck = true → ShowsItem p.render) → ∀ a id a', a.Labelled rules →
      assembleRule named rules p r a = .ok (id, a') → a'.Labelled rules ∧ KeepsOut names a a'
  | .reference name threshold, _ => by
    intro a id a' ha hok
    by_cases hname : IsLeafName rules name
    · rw [assembleRule_leaf hname] at hok
      exact leaf_labelled ha (.inl hname) hok
    · rw [assembleRule_named hname] at hok
      exact hnamed name p a id a' ha hok
  | .group q members, _ => by
    intro a id a' ha hok
    rw [assembleRule] at hok
    obtain ⟨ids, a₁, hids, hok⟩ := Assemble.bind_eq_ok.mp hok
    obtain ⟨ha₁, hout⟩ := assembleMembers_labelled hnamed _ 0 members a ids a₁ ha hids
    cases hok
    exact ⟨ha₁.push_group q ids, hout⟩
  | .check k, hp => by
    intro a id a' ha hok
    rw [assembleRule] at hok
    obtain ⟨_, a₁, henrol, hok⟩ := Assemble.bind_eq_ok.mp hok
    cases henrol
    exact leaf_labelled (Labelled.enrol ha p.render k) (.inr (hp rfl)) hok

/-- So does making the nodes of the members of a group. -/
theorem assembleMembers_labelled {names : List String}
    {named : String → Path → Assemble Node.Id} (hnamed : LabelsNamed rules names named) (p : Path)
    (i : Nat) :
    (rs : List Rule) → ∀ a ids a', a.Labelled rules →
      assembleMembers named rules p i rs a = .ok (ids, a') → a'.Labelled rules ∧ KeepsOut names a a'
  | [] => by
    intro a ids a' ha hok
    rw [assembleMembers] at hok
    obtain ⟨rfl, rfl⟩ := pure_eq_ok.mp hok
    exact ⟨ha, .refl _ _⟩
  | r :: rest => by
    intro a ids a' ha hok
    rw [assembleMembers] at hok
    obtain ⟨id, a₁, hid, hok⟩ := Assemble.bind_eq_ok.mp hok
    obtain ⟨ids', a₂, hids, hok⟩ := Assemble.bind_eq_ok.mp hok
    obtain ⟨rfl, rfl⟩ := pure_eq_ok.mp hok
    obtain ⟨ha₁, hout⟩ :=
      assembleRule_labelled hnamed (p.index i) r (fun _ => ⟨p, i, rfl⟩) a id a₁ ha hid
    obtain ⟨ha₂, hout'⟩ := assembleMembers_labelled hnamed p (i + 1) rest a₁ ids' _ ha₁ hids
    exact ⟨ha₂, hout.trans hout'⟩

end

/-! ### Named rules and lists -/

/-- **Making a named rule** puts no entered rule on record, so that the rule is not on record when its
body has been made. -/
theorem assembleNamed_labelled (left : Nat) (entered : List String) :
    LabelsNamed rules entered (assembleNamed rules left entered) := by
  induction left generalizing entered with
  | zero =>
    intro name p a id a' ha hok
    rcases assembleNamed_cases hok with ⟨-, rfl⟩ | ⟨_, _, _, _, hleft, _⟩
    · exact ⟨ha, .refl _ _⟩
    · cases hleft
  | succ left ih =>
    intro name p a id a' ha hok
    cases hn : a.named.lookup name with
    | some id' =>
      rw [assembleNamed_run, hn] at hok
      cases hok
      exact ⟨ha, .refl _ _⟩
    | none =>
      have hentered := not_mem_entered hn hok
      rcases assembleNamed_cases hok with ⟨hsome, -⟩ | ⟨rule, left', a₁, hrule, hleft, hrecord, hbody⟩
      · rw [hn] at hsome
        cases hsome
      · obtain rfl : left = left' := Nat.succ.inj hleft
        have hmade : a₁.Labelled rules ∧ KeepsOut (name :: entered) a a₁ := by
          rcases hbody with ⟨k, rfl, hleaf⟩ | ⟨hcheck, hmake⟩
          · refine leaf_labelled ha (.inl fun r hr => ⟨k, ?_⟩) hleaf
            rw [hrule, Option.some.injEq] at hr
            exact hr.symm
          · refine assembleRule_labelled (ih (name :: entered)) _ rule (fun h => ?_) a id a₁ ha hmake
            rw [hcheck] at h
            cases h
        obtain ⟨ha₁, hout⟩ := hmade
        rw [record_run] at hrecord
        cases hrecord
        refine ⟨ha₁.record id hrule (hout name List.mem_cons_self hn), fun n hmem hnone => ?_⟩
        have hne : n ≠ name := by
          rintro rfl
          exact hentered hmem
        rw [Table.lookup_put_of_ne hne]
        exact hout n (List.mem_cons_of_mem _ hmem) hnone

theorem keeps_labelled_list (need : List Node.Id) (p : Path) (v : Json) (rs : List Rule)
    (_ : Rule.parseList p v = .ok rs) :
    Keeps (fun a => a.Coherent rules ∧ a.Labelled rules) need (fun ids => ids)
      (assembleList rules p rs) := by
  intro a ids a' ha hneed hok
  obtain ⟨hcoherent, hkept⟩ := keeps_assembleList p rs a ids a' ha.1 hneed hok
  have hlabelled := assembleMembers_labelled (assembleNamed_labelled _ _) p 0 rs a ids a' ha.2 hok
  exact ⟨⟨hcoherent, hlabelled.1⟩, hkept⟩

theorem keeps_labelled_named (need : List Node.Id) (name : String) (p : Path) :
    Keeps (fun a => a.Coherent rules ∧ a.Labelled rules) need (fun id => [id])
      (assembleNamed rules rules.length [] name p) := by
  intro a id a' ha _ hok
  obtain ⟨⟨hcoherent, hg, hid⟩, -⟩ := assembleNamed_keeps _ _ name p a id a' ha.1 hok
  have hlabelled := assembleNamed_labelled _ _ name p a id a' ha.2 hok
  refine ⟨⟨hcoherent, hlabelled.1⟩, hg, fun m hm => ?_⟩
  rw [List.mem_singleton.mp hm]
  exact hid

/-- **The labels of the nodes of a compiled book.** -/
theorem Book.compile_labelled {base : Registry} {root : Table Json} {b : Book}
    (h : compile base (.obj root) = .ok b) :
    ∃ rules, parseNamed (ruleBodies root) = .ok rules ∧
      Assembly.Labelled rules ⟨b.registry, b.nodes, b.named⟩ := by
  obtain ⟨rules, a₁, a₂, a₃, a₄, hparsed, hchecks, hvalidation, hselection, hall, hregistry, hnodes,
    hnames⟩ := compile_cases h
  have henrol (need : List Node.Id) (name : String) (k : Check) :
      Keeps (fun a => a.Coherent rules ∧ a.Labelled rules) need (fun _ => []) (enrol name k) := by
    intro a r a' ha hneed hok
    obtain ⟨hcoherent, hkept⟩ := keeps_enrol name k a r a' ha.1 hneed hok
    cases hok
    exact ⟨⟨hcoherent, ha.2.enrol name k⟩, hkept⟩
  obtain ⟨h₁, -, -⟩ := (keeps_enrolChecks henrol rules).run
    ⟨coherent_start base rules, labelled_start base rules⟩ hchecks
  obtain ⟨h₂, -, -⟩ := (keeps_validation keeps_labelled_list root).run h₁ hvalidation
  obtain ⟨h₃, -, -⟩ := (keeps_selection keeps_labelled_list root).run h₂ hselection
  obtain ⟨h₄, -, -⟩ := (keeps_allNamed keeps_labelled_named _).run h₃ hall
  refine ⟨rules, hparsed, ?_⟩
  rw [hregistry, hnodes, hnames]
  exact h₄.2

/-! ### Labels in common -/

/-- A group and a leaf share a label only if the label is that of the quantifier, or that of a rule
which is called like a place. -/
theorem Assembly.Labelled.clash_leaf (h : a.Labelled rules) {id id' : Node.Id} {q : Quantifier}
    {label : String} {ids : List Node.Id} {place : Nat} {threshold : Option Float}
    (hgroup : a.nodes[id]? = some (.group q label ids))
    (hleaf : a.nodes[id']? = some (.leaf label place threshold)) :
    label = q.key ∨ ShowsItem label ∧ IsGroupName rules label := by
  refine (h.group id q label ids hgroup).imp_right fun ⟨_, hname⟩ => ⟨?_, hname⟩
  rcases h.leaf id' label place threshold hleaf with hleafName | hshows
  · -- the name would be that of a check and that of a group
    obtain ⟨q', members, hrule⟩ := hname
    obtain ⟨k, hk⟩ := hleafName _ hrule
    cases hk
  · exact hshows

/-- **Which nodes share a label**: leaves of one name; nodes of which one has the label of its
quantifier; and the leaf of a check and the group of a rule that is called like the place of the
check. -/
theorem Assembly.Labelled.clash (h : a.Labelled rules) {id id' : Node.Id} (hne : id ≠ id')
    {n n' : Node} (hn : a.nodes[id]? = some n) (hn' : a.nodes[id']? = some n')
    (hlabel : n.label = n'.label) :
    (∃ name place place' threshold threshold',
      n = .leaf name place threshold ∧ n' = .leaf name place' threshold') ∨
    (∃ q : Quantifier, n.label = q.key) ∨ ShowsItem n.label ∧ IsGroupName rules n.label := by
  cases n with
  | leaf name place threshold =>
    cases n' with
    | leaf name' place' threshold' =>
      obtain rfl : name = name' := hlabel
      exact .inl ⟨name, place, place', threshold, threshold', rfl, rfl⟩
    | group q' label' ids' =>
      obtain rfl : name = label' := hlabel
      exact .inr ((h.clash_leaf hn' hn).imp_left fun hq => ⟨q', hq⟩)
  | group q label ids =>
    cases n' with
    | leaf name' place' threshold' =>
      obtain rfl : label = name' := hlabel
      exact .inr ((h.clash_leaf hn hn').imp_left fun hq => ⟨q, hq⟩)
    | group q' label' ids' =>
      obtain rfl : label = label' := hlabel
      rcases h.group id q label ids hn with hq | ⟨hnamed, -⟩
      · exact .inr (.inl ⟨q, hq⟩)
      · rcases h.group id' q' label ids' hn' with hq | ⟨hnamed', -⟩
        · exact .inr (.inl ⟨q', hq⟩)
        · -- one rule has one node
          rw [hnamed, Option.some.injEq] at hnamed'
          exact absurd hnamed' hne

end TopDown
