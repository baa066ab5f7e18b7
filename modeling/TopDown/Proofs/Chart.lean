import TopDown.Proofs.Coherence
import TopDown.Proofs.Sections
import TopDown.Proofs.Twins

/-!
# Where nodes come from

Two configurations may have the same rules in some lists and others elsewhere. Their books then have
nodes for the same rules, but in different places: named rules are made when something first refers to
them, and this may be a rule that only one of the two configurations has. To compare such books, we
keep a *chart* of an assembly. It tells for each new node at which place of the configuration the rule
stands that it was made of.

A chart belongs to the assembly from some point on (`TopDown.Charted`); what was there before is left
alone. The point of it is that no place makes two nodes. A place is fresh before the rule there is
made (`TopDown.Fresh`), because a new node comes from below that place, or from the body of a named
rule that has not been entered (`TopDown.Foreign`).

So the nodes of two charted assemblies that were made at one place of one rule are twins
(`TopDown.Charted.twins`), and lists that were made of the same rules are lists of twins
(`TopDown.MadeAll.paired`).
-/

namespace TopDown

/-! ### Charts -/

/-- The name of a group: that of the rule whose body it is, or else that of its quantifier. -/
def groupLabel : Path → Quantifier → String
  | [.key _, .key name], _ => name
  | _, q => q.key

theorem groupLabel_index (p : Path) (i : Nat) (q : Quantifier) :
    groupLabel (p.index i) q = q.key := by
  unfold groupLabel
  split
  · rename_i name hp
    have hlast := congrArg List.getLast? hp
    simp [Path.index] at hlast
  · rfl

/-- The node stands for a place: the nodes from `n` on stand for the places in turn. -/
def Stands (n : Nat) (paths : List Path) (id : Node.Id) (p : Path) : Prop :=
  ∃ k, id = n + k ∧ paths[k]? = some p

/-- **The node was made of the rule** that stands at a place, since some point of the assembly. -/
inductive Made (rules : Table Rule) (start : Assembly) (paths : List Path) (nodes : Array Node) :
    Path → Rule → Node.Id → Prop
  /-- A reference to a condition or to a named check: a leaf with the threshold of the reference. -/
  | leaf {p : Path} {name : String} {threshold : Option Threshold} {id : Node.Id} {place : Nat}
      (hname : IsLeafName rules name) (hs : Stands start.nodes.size paths id p)
      (hid : nodes[id]? = some (.leaf name place (threshold.bind Threshold.number?))) :
      Made rules start paths nodes p (.reference name threshold) id
  /-- A reference to another named rule that had its node before. -/
  | former {p : Path} {name : String} {threshold : Option Threshold} {id : Node.Id}
      (hname : ¬IsLeafName rules name) (h : start.named.lookup name = some id) :
      Made rules start paths nodes p (.reference name threshold) id
  /-- A reference to another named rule that had none: the node of its body. -/
  | named {p : Path} {name : String} {threshold : Option Threshold} {id : Node.Id} {body : Rule}
      (hname : ¬IsLeafName rules name) (hnew : start.named.lookup name = none)
      (hr : rules.lookup name = some body)
      (h : Made rules start paths nodes (rulePath name) body id) :
      Made rules start paths nodes p (.reference name threshold) id
  /-- A check that is spelt out: a leaf under the text of its place. -/
  | check {p : Path} {k : Check} {id : Node.Id} {place : Nat}
      (hs : Stands start.nodes.size paths id p)
      (hid : nodes[id]? = some (.leaf p.render place none)) :
      Made rules start paths nodes p (.check k) id
  /-- A group: a node whose members were made of the members. -/
  | group {p : Path} {q : Quantifier} {rs : List Rule} {id : Node.Id} {ids : List Node.Id}
      (hs : Stands start.nodes.size paths id p)
      (hid : nodes[id]? = some (.group q (groupLabel p q) ids)) (hlen : ids.length = rs.length)
      (h : ∀ (i : Nat) r m, rs[i]? = some r → ids[i]? = some m →
        Made rules start paths nodes ((p.key q.key).index i) r m) :
      Made rules start paths nodes p (.group q rs) id

/-- The nodes were made of the rules of a list, which are counted from `i`. -/
def MadeAll (rules : Table Rule) (start : Assembly) (paths : List Path) (nodes : Array Node)
    (p : Path) (i : Nat) (rs : List Rule) (ids : List Node.Id) : Prop :=
  ids.length = rs.length ∧ ∀ (j : Nat) r id, rs[j]? = some r → ids[j]? = some id →
    Made rules start paths nodes (p.index (i + j)) r id

/-- **The chart of an assembly** since some point of it. Named rules that are entered have no node yet,
although nodes of their bodies may have been made. -/
structure Charted (rules : Table Rule) (start : Assembly) (entered : List String)
    (paths : List Path) (a : Assembly) : Prop where
  /-- Each new node has a place. -/
  size : a.nodes.size = start.nodes.size + paths.length
  /-- No place makes two nodes. -/
  nodup : paths.Nodup
  /-- The former nodes are as they were. -/
  nodes : ∀ id < start.nodes.size, a.nodes[id]? = start.nodes[id]?
  /-- Named rules keep their former nodes. -/
  former : ∀ name id, start.named.lookup name = some id → a.named.lookup name = some id
  /-- The new node of a named rule was made of its body. -/
  named : ∀ name id, a.named.lookup name = some id → start.named.lookup name = none →
    ∃ body, rules.lookup name = some body ∧
      (body.isCheck = false → Made rules start paths a.nodes (rulePath name) body id)
  /-- Where a node comes from the body of a named rule, that rule has its node or is entered. -/
  inside : ∀ name, ∀ q ∈ paths, rulePath name <+: q →
    name ∈ entered ∨ (a.named.lookup name).isSome = true

/-- The place is within the body of a named rule that is not entered. -/
def Foreign (entered : List String) (q : Path) : Prop :=
  ∃ name, name ∉ entered ∧ rulePath name <+: q

/-- **An assembly goes on** with a rule at a place: nodes stay as they are, and the new ones come from
below that place or from named rules that are not entered. -/
structure Advances (rules : Table Rule) (start : Assembly) (entered : List String) (p : Path)
    (paths : List Path) (a : Assembly) (paths' : List Path) (a' : Assembly) : Prop where
  /-- The chart goes on. -/
  charted : Charted rules start entered paths' a'
  /-- Nodes stay as they are. -/
  nodes : ∀ (id : Node.Id) node, a.nodes[id]? = some node → a'.nodes[id]? = some node
  /-- Where the new nodes come from. -/
  grown : ∃ new, paths' = paths ++ new ∧ ∀ q ∈ new, p <+: q ∨ Foreign entered q

section Charts

variable {rules : Table Rule} {start : Assembly} {entered : List String} {p q s : Path}
  {paths paths' paths'' : List Path} {a a' a'' : Assembly} {r : Rule} {id : Node.Id}
  {nodes nodes' : Array Node}

theorem Stands.append {n : Nat} (h : Stands n paths id p) (new : List Path) :
    Stands n (paths ++ new) id p := by
  obtain ⟨k, rfl, hk⟩ := h
  exact ⟨k, rfl, (List.getElem?_append_left (List.getElem?_eq_some_iff.mp hk).1).trans hk⟩

/-- What a node was made of stays the same. -/
theorem Made.mono (h : Made rules start paths nodes p r id) (new : List Path)
    (hnodes : ∀ (id : Node.Id) node, nodes[id]? = some node → nodes'[id]? = some node) :
    Made rules start (paths ++ new) nodes' p r id := by
  induction h with
  | leaf hname hs hid => exact .leaf hname (hs.append new) (hnodes _ _ hid)
  | former hname h => exact .former hname h
  | named hname hnew hr _ ih => exact .named hname hnew hr ih
  | check hs hid => exact .check (hs.append new) (hnodes _ _ hid)
  | group hs hid hlen _ ih => exact .group (hs.append new) (hnodes _ _ hid) hlen ih

theorem MadeAll.mono {i : Nat} {rs : List Rule} {ids : List Node.Id}
    (h : MadeAll rules start paths nodes p i rs ids) (new : List Path)
    (hnodes : ∀ (id : Node.Id) node, nodes[id]? = some node → nodes'[id]? = some node) :
    MadeAll rules start (paths ++ new) nodes' p i rs ids :=
  ⟨h.1, fun j r id hr hid => (h.2 j r id hr hid).mono new hnodes⟩

/-- The chart of an assembly at its start is empty. -/
theorem Charted.refl (rules : Table Rule) (start : Assembly) : Charted rules start [] [] start where
  size := rfl
  nodup := List.nodup_nil
  nodes _ _ := rfl
  former _ _ h := h
  named name id h hnone := by
    rw [h] at hnone
    cases hnone
  inside _ q hq := absurd hq List.not_mem_nil

theorem Charted.enter (h : Charted rules start entered paths a) (name : String) :
    Charted rules start (name :: entered) paths a :=
  { h with inside := fun m q hq hm => (h.inside m q hq hm).imp_left (List.mem_cons_of_mem _) }

namespace Advances

theorem refl (h : Charted rules start entered paths a) (p : Path) :
    Advances rules start entered p paths a paths a :=
  ⟨h, fun _ _ h => h, [], (List.append_nil paths).symm, fun _ hq => absurd hq List.not_mem_nil⟩

theorem trans (h : Advances rules start entered p paths a paths' a')
    (h' : Advances rules start entered p paths' a' paths'' a'') :
    Advances rules start entered p paths a paths'' a'' := by
  obtain ⟨new, rfl, hnew⟩ := h.grown
  obtain ⟨new', rfl, hnew'⟩ := h'.grown
  refine ⟨h'.charted, fun id node hid => h'.nodes id node (h.nodes id node hid), new ++ new',
    List.append_assoc _ _ _, fun q hq => ?_⟩
  exact (List.mem_append.mp hq).elim (hnew q) (hnew' q)

/-- What comes from below a place comes from below every place above it. -/
theorem above (h : Advances rules start entered s paths a paths' a') (hp : p <+: s) :
    Advances rules start entered p paths a paths' a' := by
  obtain ⟨new, hpaths, hnew⟩ := h.grown
  exact ⟨h.charted, h.nodes, new, hpaths, fun q hq => (hnew q hq).imp_left hp.trans⟩

theorem made (h : Advances rules start entered s paths a paths' a')
    (hmade : Made rules start paths a.nodes p r id) : Made rules start paths' a'.nodes p r id := by
  obtain ⟨new, rfl, -⟩ := h.grown
  exact hmade.mono new h.nodes

theorem madeAll (h : Advances rules start entered s paths a paths' a') {i : Nat} {rs : List Rule}
    {ids : List Node.Id} (hmade : MadeAll rules start paths a.nodes p i rs ids) :
    MadeAll rules start paths' a'.nodes p i rs ids := by
  obtain ⟨new, rfl, -⟩ := h.grown
  exact hmade.mono new h.nodes

end Advances

/-! ### Fresh places -/

/-- Nothing has been made at the place or below it. -/
def Fresh (p : Path) (paths : List Path) : Prop :=
  ∀ q ∈ paths, ¬p <+: q

/-- The named rules around a place are entered. -/
def Sited (entered : List String) (p : Path) : Prop :=
  2 ≤ p.length ∧ ∀ name, rulePath name <+: p → name ∈ entered

theorem Fresh.below (h : Fresh p paths) (hs : p <+: s) : Fresh s paths :=
  fun q hq hsq => h q hq (hs.trans hsq)

theorem Fresh.not_mem (h : Fresh p paths) : p ∉ paths :=
  fun hp => h p hp (List.prefix_refl p)

/-- A place below is within no other named rule, since the place above is long enough to tell. -/
theorem Sited.below (h : Sited entered p) (hs : p <+: s) : Sited entered s :=
  ⟨Nat.le_trans h.1 hs.length_le, fun name hname =>
    h.2 name (List.prefix_of_prefix_length_le hname hs h.1)⟩

/-- The place is not within a named rule that is not entered. -/
theorem Sited.not_foreign (h : Sited entered s) (hs : s <+: q) : ¬Foreign entered q := by
  rintro ⟨name, hname, hq⟩
  exact hname (h.2 name (List.prefix_of_prefix_length_le hq hs h.1))

theorem sited_rulePath (name : String) (entered : List String) :
    Sited (name :: entered) (rulePath name) := by
  refine ⟨Nat.le_refl 2, fun m hm => ?_⟩
  have heq : rulePath m = rulePath name := hm.eq_of_length rfl
  cases heq
  exact List.mem_cons_self

/-- **A place stays fresh** while a rule beside it is made. -/
theorem Advances.fresh (h : Advances rules start entered p paths a paths' a')
    (hs : Fresh s paths) (hsited : Sited entered s) (hlen : s.length = p.length) (hne : s ≠ p) :
    Fresh s paths' := by
  obtain ⟨new, rfl, hnew⟩ := h.grown
  intro q hq hsq
  rcases List.mem_append.mp hq with hq | hq
  · exact hs q hq hsq
  · rcases hnew q hq with hp | hforeign
    · exact hne ((List.prefix_of_prefix_length_le hsq hp hlen.le).eq_of_length hlen)
    · exact hsited.not_foreign hsq hforeign

/-- A place is new after the rules below it have been made. -/
theorem Advances.not_mem (h : Advances rules start entered s paths a paths' a')
    (hp : Fresh p paths) (hsited : Sited entered p) (hlen : p.length < s.length) : p ∉ paths' := by
  obtain ⟨new, rfl, hnew⟩ := h.grown
  intro hmem
  rcases List.mem_append.mp hmem with hmem | hmem
  · exact hp.not_mem hmem
  · rcases hnew p hmem with hs | hforeign
    · exact absurd hs.length_le (Nat.not_le.mpr hlen)
    · exact hsited.not_foreign (List.prefix_refl p) hforeign

theorem prefix_key (p : Path) (name : String) : p <+: p.key name :=
  List.prefix_append p _

theorem prefix_index (p : Path) (i : Nat) : p <+: p.index i :=
  List.prefix_append p _

/-! ### Single steps -/

/-- **A node is added** for a new place. -/
theorem Advances.push (h : Charted rules start entered paths a) (hp : p ∉ paths)
    (hsited : Sited entered p) (node : Node) :
    Advances rules start entered p paths a (paths ++ [p])
      { a with nodes := a.nodes.push node } := by
  have hnodes : ∀ (id : Node.Id) old, a.nodes[id]? = some old →
      (a.nodes.push node)[id]? = some old := fun id old hid => by
    rw [Array.getElem?_push_lt (Array.getElem?_eq_some_iff.mp hid).1]
    exact congrArg some (Array.getElem?_eq_some_iff.mp hid).2
  refine ⟨⟨?_, ?_, fun id hid => ?_, h.former, fun name id hname hnew => ?_,
    fun name q hq hname => ?_⟩, hnodes, [p], rfl, fun q hq => ?_⟩
  · rw [Array.size_push, h.size, List.length_append, List.length_singleton, Nat.add_assoc]
  · exact List.nodup_append.mpr ⟨h.nodup, List.nodup_singleton p, fun q hq q' hq' => by
      rw [List.mem_singleton.mp hq']
      exact fun heq => hp (heq ▸ hq)⟩
  · have hlt : id < a.nodes.size := by
      rw [h.size]
      exact Nat.lt_of_lt_of_le hid (Nat.le_add_right _ _)
    rw [← h.nodes id hid, Array.getElem?_push_lt hlt, Array.getElem?_eq_getElem hlt]
  · obtain ⟨body, hbody, hmade⟩ := h.named name id hname hnew
    exact ⟨body, hbody, fun hk => (hmade hk).mono [p] hnodes⟩
  · rcases List.mem_append.mp hq with hq | hq
    · exact h.inside name q hq hname
    · rw [List.mem_singleton.mp hq] at hname
      exact .inl (hsited.2 name hname)
  · rw [List.mem_singleton.mp hq]
    exact .inl (List.prefix_refl p)

/-- The node that has been added stands for the place. -/
theorem Charted.stands_last (h : Charted rules start entered paths a) (p : Path) :
    Stands start.nodes.size (paths ++ [p]) a.nodes.size p :=
  ⟨paths.length, h.size, by simp⟩

/-- A leaf is added. -/
theorem Advances.leaf {name : String} {threshold : Option Float} {at' : Path}
    (hc : Charted rules start entered paths a) (hfresh : Fresh p paths) (hsited : Sited entered p)
    (h : Assemble.leaf name threshold at' a = .ok (id, a')) :
    Advances rules start entered p paths a (paths ++ [p]) a' ∧
      Stands start.nodes.size (paths ++ [p]) id p ∧
      ∃ place, a'.nodes[id]? = some (.leaf name place threshold) := by
  obtain ⟨place, -, rfl, rfl⟩ := Assemble.leaf_eq_ok.mp h
  exact ⟨.push hc hfresh.not_mem hsited _, hc.stands_last p, place, by simp⟩

/-- **The node of a group is added** after its members have been made. -/
theorem Advances.group {q : Quantifier} {label : String} {members : List Rule} {ids : List Node.Id}
    (h : Advances rules start entered (p.key q.key) paths a paths' a') (hfresh : Fresh p paths)
    (hsited : Sited entered p) (hlabel : groupLabel p q = label)
    (hall : MadeAll rules start paths' a'.nodes (p.key q.key) 0 members ids) :
    Advances rules start entered p paths a (paths' ++ [p])
        { a' with nodes := a'.nodes.push (.group q label ids) } ∧
      Made rules start (paths' ++ [p]) (a'.nodes.push (.group q label ids)) p (.group q members)
        a'.nodes.size := by
  have hlen : p.length < (p.key q.key).length := by simp [Path.key]
  have hpush := Advances.push h.charted (h.not_mem hfresh hsited hlen) hsited (.group q label ids)
  refine ⟨(h.above (prefix_key p q.key)).trans hpush,
    .group (h.charted.stands_last p) ?_ hall.1 fun j r m hr hm => ?_⟩
  · rw [hlabel]
    simp
  · have hmember := hpush.made (hall.2 j r m hr hm)
    rwa [Nat.zero_add] at hmember

/-- **A named rule is put on record**: what was made of its body is no longer within a rule that is
entered. -/
theorem Advances.record {name : String} {body : Rule}
    (h : Advances rules start (name :: entered) (rulePath name) paths a paths' a')
    (hnot : name ∉ entered) (hnew : start.named.lookup name = none)
    (hbody : rules.lookup name = some body)
    (hmade : body.isCheck = false → Made rules start paths' a'.nodes (rulePath name) body id)
    (p : Path) :
    Advances rules start entered p paths a paths'
      { a' with named := Table.put name id a'.named } := by
  obtain ⟨new, hpaths, hgrown⟩ := h.grown
  refine ⟨⟨h.charted.size, h.charted.nodup, h.charted.nodes, fun m j hm => ?_, fun m j hm hnone => ?_,
    fun m q hq hm => ?_⟩, h.nodes, new, hpaths, fun q hq => .inr ?_⟩
  · have hne : m ≠ name := by
      rintro rfl
      rw [hnew] at hm
      cases hm
    rw [Table.lookup_put_of_ne hne]
    exact h.charted.former m j hm
  · rw [Table.lookup_put] at hm
    split at hm
    · rename_i heq
      cases hm
      rw [heq]
      exact ⟨body, hbody, hmade⟩
    · exact h.charted.named m j hm hnone
  · rw [Table.lookup_put]
    split
    · exact .inr rfl
    · rename_i hne
      refine (h.charted.inside m q hq hm).imp_left fun hentered => ?_
      exact (List.mem_cons.mp hentered).resolve_left hne
  · rcases hgrown q hq with hq | ⟨m, hm, hq⟩
    · exact ⟨name, hnot, hq⟩
    · exact ⟨m, fun hmem => hm (List.mem_cons_of_mem _ hmem), hq⟩

end Charts

/-! ### Rules -/

open Assemble

section Rules

variable {rules : Table Rule} {start : Assembly} {entered : List String}

/-- **Naming a rule goes on with the assembly**: all new nodes come from named rules that are not
entered, and the node is that of the rule. -/
def NamesCharted (rules : Table Rule) (start : Assembly) (entered : List String)
    (named : String → Path → Assemble Node.Id) : Prop :=
  ∀ name q a id a' paths, Charted rules start entered paths a → named name q a = .ok (id, a') →
    ∃ paths', (∀ p, Advances rules start entered p paths a paths' a') ∧
      (¬IsLeafName rules name → ∀ p threshold,
        Made rules start paths' a'.nodes p (.reference name threshold) id)

variable {named : String → Path → Assemble Node.Id} {paths : List Path} {a a' : Assembly}
  {id : Node.Id}

/-- A reference is made. -/
theorem assembleReference_charted (hnamed : NamesCharted rules start entered named) {p : Path}
    {name : String} {threshold : Option Threshold} (hsited : Sited entered p)
    (hc : Charted rules start entered paths a) (hfresh : Fresh p paths)
    (h : assembleRule named rules p (.reference name threshold) a = .ok (id, a')) :
    ∃ paths', Advances rules start entered p paths a paths' a' ∧
      Made rules start paths' a'.nodes p (.reference name threshold) id := by
  by_cases hname : IsLeafName rules name
  · rw [assembleRule_leaf hname] at h
    obtain ⟨hadv, hs, place, hid⟩ := Advances.leaf hc hfresh hsited h
    exact ⟨_, hadv, .leaf hname hs hid⟩
  · rw [assembleRule_named hname] at h
    obtain ⟨paths', hadv, hmade⟩ := hnamed name p a id a' paths hc h
    exact ⟨paths', hadv p, hmade hname p threshold⟩

mutual

/-- **A rule is made** at a fresh place. -/
theorem assembleRule_charted (hnamed : NamesCharted rules start entered named) (p : Path) (i : Nat) :
    (r : Rule) → Sited entered (p.index i) → ∀ {paths : List Path} {a a' : Assembly} {id : Node.Id},
      Charted rules start entered paths a → Fresh (p.index i) paths →
      assembleRule named rules (p.index i) r a = .ok (id, a') →
      ∃ paths', Advances rules start entered (p.index i) paths a paths' a' ∧
        Made rules start paths' a'.nodes (p.index i) r id
  | .reference _ _, hsited, _, _, _, _, hc, hfresh, h =>
    assembleReference_charted hnamed hsited hc hfresh h
  | .check k, hsited, paths, a, a', id, hc, hfresh, h => by
    rw [assembleRule] at h
    obtain ⟨_, a₁, henrol, h⟩ := Assemble.bind_eq_ok.mp h
    cases henrol
    -- the check is registered, which leaves the nodes alone
    have hc₁ : Charted rules start entered paths
        { a with registry := a.registry.register (p.index i).render fun c =>
          k.evaluate (p.index i).render c } :=
      ⟨hc.size, hc.nodup, hc.nodes, hc.former, hc.named, hc.inside⟩
    obtain ⟨hadv, hs, place, hid⟩ := Advances.leaf hc₁ hfresh hsited h
    exact ⟨_, ⟨hadv.charted, hadv.nodes, hadv.grown⟩, .check hs hid⟩
  | .group q members, hsited, paths, a, a', id, hc, hfresh, h => by
    rw [assembleRule] at h
    obtain ⟨ids, a₁, hids, h⟩ := Assemble.bind_eq_ok.mp h
    cases h
    have hbelow := prefix_key (p.index i) q.key
    obtain ⟨paths₁, hadv, hall⟩ := assembleMembers_charted hnamed ((p.index i).key q.key) 0 members
      (hsited.below hbelow) hc (fun j _ => (hfresh.below hbelow).below (prefix_index _ j)) hids
    exact ⟨_, hadv.group hfresh hsited (groupLabel_index p i q) hall⟩

/-- The members of a group are made, at places that are fresh. -/
theorem assembleMembers_charted (hnamed : NamesCharted rules start entered named) (p : Path)
    (i : Nat) :
    (rs : List Rule) → Sited entered p →
      ∀ {paths : List Path} {a a' : Assembly} {ids : List Node.Id},
      Charted rules start entered paths a → (∀ j, i ≤ j → Fresh (p.index j) paths) →
      assembleMembers named rules p i rs a = .ok (ids, a') →
      ∃ paths', Advances rules start entered p paths a paths' a' ∧
        MadeAll rules start paths' a'.nodes p i rs ids
  | [], _, paths, a, a', ids, hc, _, h => by
    rw [assembleMembers] at h
    obtain ⟨rfl, rfl⟩ := pure_eq_ok.mp h
    exact ⟨paths, .refl hc p, rfl, fun j r id hr => by cases hr⟩
  | r :: rest, hsited, paths, a, a', ids, hc, hfresh, h => by
    rw [assembleMembers] at h
    obtain ⟨id, a₁, hid, h⟩ := Assemble.bind_eq_ok.mp h
    obtain ⟨ids', a₂, hids, h⟩ := Assemble.bind_eq_ok.mp h
    obtain ⟨rfl, rfl⟩ := pure_eq_ok.mp h
    have hplace (j : Nat) : Sited entered (p.index j) := hsited.below (prefix_index p j)
    obtain ⟨paths₁, hadv, hmade⟩ := assembleRule_charted hnamed p i r (hplace i) hc
      (hfresh i (Nat.le_refl i)) hid
    -- the places of the other members are still fresh
    have hfresh₁ : ∀ j, i + 1 ≤ j → Fresh (p.index j) paths₁ := fun j hj => by
      refine hadv.fresh (hfresh j (Nat.le_of_succ_le hj)) (hplace j) ?_ fun heq => ?_
      · simp [Path.index]
      · simp only [Path.index, List.append_cancel_left_eq, List.cons.injEq, Step.index.injEq,
          and_true] at heq
        omega
    obtain ⟨paths₂, hadv', hall⟩ :=
      assembleMembers_charted hnamed p (i + 1) rest hsited hadv.charted hfresh₁ hids
    refine ⟨paths₂, (hadv.above (prefix_index p i)).trans hadv', ?_, fun j r' id' hr hid' => ?_⟩
    · rw [List.length_cons, List.length_cons, hall.1]
    · cases j with
      | zero =>
        cases hr
        cases hid'
        exact hadv'.made hmade
      | succ j =>
        have hmember := hall.2 j r' id' hr hid'
        rwa [Nat.add_assoc, Nat.add_comm 1 j] at hmember

end

/-! ### Named rules -/

/-- A named rule that has no node yet is not entered, and becomes a leaf or the node of its body. -/
theorem assembleNamed_new {left : Nat} {name : String} {p : Path}
    (hn : a.named.lookup name = none)
    (h : assembleNamed rules left entered name p a = .ok (id, a')) :
    name ∉ entered ∧ ∃ body left' a₁, rules.lookup name = some body ∧ left = left' + 1 ∧
      record name body.isGroup id a₁ = .ok ((), a') ∧
      ((∃ k, body = .check k ∧ leaf name none p a = .ok (id, a₁)) ∨
        (body.isCheck = false ∧ assembleRule (assembleNamed rules left' (name :: entered)) rules
          (rulePath name) body a = .ok (id, a₁))) := by
  refine ⟨fun hentered => ?_, ?_⟩
  · rw [assembleNamed_run] at h
    simp only [hn, if_pos hentered] at h
    exact absurd h fail_ne_ok
  · rcases assembleNamed_cases h with ⟨hsome, -⟩ | hcases
    · rw [hn] at hsome
      cases hsome
    · exact hcases

/-- A node that has been added is changed. -/
theorem modify_push (nodes : Array Node) (node : Node) (f : Node → Node) :
    (nodes.push node).modify nodes.size f = nodes.push (f node) := by
  refine Array.ext (by simp) fun i hi hi' => ?_
  rw [Array.getElem_modify, Array.getElem_push, Array.getElem_push]
  rw [Array.size_push] at hi'
  split
  · rename_i hsize
    subst hsize
    simp
  · rw [dif_pos (by omega), dif_pos (by omega)]

/-- A reference to a rule that has its node leads to that node. -/
theorem Charted.recorded (hc : Charted rules start entered paths a) {name : String}
    (hn : a.named.lookup name = some id) (hname : ¬IsLeafName rules name) (p : Path)
    (threshold : Option Threshold) :
    Made rules start paths a.nodes p (.reference name threshold) id := by
  cases hstart : start.named.lookup name with
  | some former =>
    have heq : former = id := Option.some.inj ((hc.former name former hstart).symm.trans hn)
    rw [← heq]
    exact .former hname hstart
  | none =>
    obtain ⟨body, hbody, hmade⟩ := hc.named name id hn hstart
    refine .named hname hstart hbody (hmade ?_)
    cases body with
    | check k =>
      refine absurd (fun r hr => ?_) hname
      rw [hbody] at hr
      cases hr
      exact ⟨k, rfl⟩
    | reference _ _ | group _ _ => rfl

/-- **The body of a named rule is made**, at the place of the rule. The node of a group takes the name
of the rule before anything else happens. -/
theorem assembleBody_charted {left : Nat} {name : String} {p : Path} {body : Rule} {a₁ : Assembly}
    (hnamed : NamesCharted rules start (name :: entered)
      (assembleNamed rules left (name :: entered)))
    (hc : Charted rules start entered paths a) (hfresh : Fresh (rulePath name) paths)
    (hmake : (∃ k, body = .check k ∧ leaf name none p a = .ok (id, a₁)) ∨
      (body.isCheck = false ∧ assembleRule (assembleNamed rules left (name :: entered)) rules
        (rulePath name) body a = .ok (id, a₁)))
    (hrecord : record name body.isGroup id a₁ = .ok ((), a')) :
    ∃ paths' nodes, a' = { a₁ with nodes, named := Table.put name id a₁.named } ∧
      Advances rules start (name :: entered) (rulePath name) paths a paths' { a₁ with nodes } ∧
      (body.isCheck = false → Made rules start paths' nodes (rulePath name) body id) := by
  have hc := hc.enter name
  have hsited := sited_rulePath name entered
  rw [record_run] at hrecord
  cases hrecord
  rcases hmake with ⟨k, rfl, hleaf⟩ | ⟨hk, hmake⟩
  · obtain ⟨hadv, -⟩ := Advances.leaf hc hfresh hsited hleaf
    exact ⟨_, a₁.nodes, rfl, hadv, fun hk => by cases hk⟩
  · cases body with
    | check k => cases hk
    | reference n threshold =>
      obtain ⟨paths', hadv, hmade⟩ := assembleReference_charted hnamed hsited hc hfresh hmake
      exact ⟨paths', a₁.nodes, rfl, hadv, fun _ => hmade⟩
    | group q members =>
      rw [assembleRule] at hmake
      obtain ⟨ids, a₂, hids, hmake⟩ := Assemble.bind_eq_ok.mp hmake
      cases hmake
      have hbelow := prefix_key (rulePath name) q.key
      obtain ⟨paths₁, hadv, hall⟩ := assembleMembers_charted hnamed ((rulePath name).key q.key) 0
        members (hsited.below hbelow) hc
        (fun j _ => (hfresh.below hbelow).below (prefix_index _ j)) hids
      have hlabel : groupLabel (rulePath name) q = name := rfl
      obtain ⟨hadv', hmade⟩ := hadv.group hfresh hsited hlabel hall
      refine ⟨_, a₂.nodes.push (.group q name ids), ?_, hadv', fun _ => hmade⟩
      simp only [Rule.isGroup, if_true, modify_push]
      rfl

/-- **A named rule is made**, or has been made before. -/
theorem assembleNamed_charted (left : Nat) (entered : List String) :
    NamesCharted rules start entered (assembleNamed rules left entered) := by
  induction left using Nat.strong_induction_on generalizing entered with
  | _ left ih =>
    intro name q a id a' paths hc h
    cases hn : a.named.lookup name with
    | some id' =>
      rw [assembleNamed_run] at h
      simp only [hn] at h
      cases h
      exact ⟨paths, Advances.refl hc, hc.recorded hn⟩
    | none =>
      obtain ⟨hnot, body, left', a₁, hbody, rfl, hrecord, hmake⟩ := assembleNamed_new hn h
      -- the body is fresh: the rule has no node and is not entered
      have hfresh : Fresh (rulePath name) paths := fun p hp hname => by
        rcases hc.inside name p hp hname with hentered | hsome
        · exact hnot hentered
        · rw [hn] at hsome
          cases hsome
      have hnew : start.named.lookup name = none := by
        by_contra hsome
        obtain ⟨former, hformer⟩ := Option.ne_none_iff_exists'.mp hsome
        rw [hc.former name former hformer] at hn
        cases hn
      obtain ⟨paths', nodes, rfl, hadv, hmade⟩ := assembleBody_charted
        (ih left' (Nat.lt_succ_self left') (name :: entered)) hc hfresh hmake hrecord
      have hadv' := hadv.record hnot hnew hbody hmade
      refine ⟨paths', hadv', fun hname => ?_⟩
      exact (hadv' []).charted.recorded (Table.lookup_put_self _ _ _) hname

/-! ### Lists -/

variable {root : Table Json}

/-- **A list under a key is made**, at a fresh place. -/
theorem listAt_charted {p : Path} {key : String} (hsited : Sited [] (p.key key))
    {fields : Table Json} (hfields : (Json.obj root).fieldsAt p = fields)
    (hc : Charted rules start [] paths a) (hfresh : Fresh (p.key key) paths)
    {ids : List Node.Id} (h : listAt rules p fields key a = .ok (ids, a')) :
    ∃ paths' rs, Advances rules start [] (p.key key) paths a paths' a' ∧
      rulesAt root (p.key key) = some rs ∧
      MadeAll rules start paths' a'.nodes (p.key key) 0 rs ids := by
  obtain ⟨rs, hrs, hlist⟩ := listAt_eq_ok hfields h
  obtain ⟨paths', hadv, hall⟩ := assembleMembers_charted (assembleNamed_charted rules.length [])
    (p.key key) 0 rs hsited hc (fun j _ => hfresh.below (prefix_index _ j)) hlist
  exact ⟨paths', rs, hadv, hrs, hall⟩

/-- The groups of a timeframe are within no named rule. -/
theorem sited_groups (key : String) : Sited [] (groupsPlace.key key) :=
  ⟨Nat.le_succ 2, fun name hname => by
    obtain ⟨rest, hrest⟩ := hname
    simp [rulePath, groupsPlace, Path.key, selectorKey] at hrest⟩

/-- A group of a timeframe stays fresh while another one is made. -/
theorem fresh_group {key group group' : String} {paths' : List Path}
    (hadv : Advances rules start [] ((groupsPlace.key key).key group) paths a paths' a')
    (hfresh : Fresh ((groupsPlace.key key).key group') paths) (hne : group' ≠ group) :
    Fresh ((groupsPlace.key key).key group') paths' := by
  refine hadv.fresh hfresh ((sited_groups key).below (prefix_key _ group')) rfl fun heq => hne ?_
  simpa [Path.key] using heq

/-- **The groups of all timeframes are made**, the rules to stay among them. -/
theorem assembleGroups_charted {fields : Table Json}
    (hfields : ∀ e ∈ fields, (Json.obj root).at? (groupsPlace.key e.1) = some e.2)
    (hnodup : fields.names.Nodup) (hc : Charted rules start [] paths a)
    (hfresh : ∀ e ∈ fields, Fresh (groupsPlace.key e.1) paths) {former m : ByTimeframe Groups}
    (h : assembleGroups rules groupsPlace former fields a = .ok (m, a')) :
    ∃ paths', Advances rules start [] groupsPlace paths a paths' a' ∧
      ByKeys fields (fun key g => ∃ rs, rulesAt root ((groupsPlace.key key).key "stay_on_if") = some rs ∧
        MadeAll rules start paths' a'.nodes ((groupsPlace.key key).key "stay_on_if") 0 rs g.stay)
        former m := by
  induction fields generalizing paths a former with
  | nil =>
    obtain ⟨rfl, rfl⟩ := pure_eq_ok.mp h
    exact ⟨paths, .refl hc _, .nil _ _⟩
  | cons e rest ih =>
    obtain ⟨key, v⟩ := e
    obtain ⟨hnotin, hrest⟩ := List.nodup_cons.mp hnodup
    obtain ⟨tf, a₁, htf, h₁⟩ := Assemble.bind_eq_ok.mp h
    obtain ⟨hkey, rfl⟩ := timeframe_eq_ok htf
    cases v with
    | obj block =>
      obtain ⟨stay, a₂, hstay, h₂⟩ := Assemble.bind_eq_ok.mp h₁
      obtain ⟨drop, a₃, hdrop, h₃⟩ := Assemble.bind_eq_ok.mp h₂
      obtain ⟨forbid, a₄, hforbid, h₄⟩ := Assemble.bind_eq_ok.mp h₃
      have hblock : (Json.obj root).fieldsAt (groupsPlace.key key) = block := by
        rw [Json.fieldsAt, hfields _ List.mem_cons_self]
      have hplace (group : String) : Sited [] ((groupsPlace.key key).key group) :=
        (sited_groups key).below (prefix_key _ group)
      have hlist (group : String) : Fresh ((groupsPlace.key key).key group) paths :=
        (hfresh _ List.mem_cons_self).below (prefix_key _ group)
      obtain ⟨paths₁, rs, hadv₁, hrs, hall⟩ :=
        listAt_charted (hplace "stay_on_if") hblock hc (hlist _) hstay
      -- the three lists stand beside each other
      have hfresh₁ (group : String) (hne : group ≠ "stay_on_if") := fresh_group hadv₁ (hlist group) hne
      obtain ⟨paths₂, -, hadv₂, -⟩ := listAt_charted (hplace "drop_to_lower_if_any") hblock
        hadv₁.charted (hfresh₁ _ (by decide)) hdrop
      have hfresh₂ := fresh_group hadv₂ (hfresh₁ "forbid_drop_to_lower_if_any" (by decide)) (by decide)
      obtain ⟨paths₃, -, hadv₃, -⟩ := listAt_charted (hplace _) hblock hadv₂.charted hfresh₂ hforbid
      have hadv : Advances rules start [] (groupsPlace.key key) paths _ paths₃ a₄ :=
        (hadv₁.above (prefix_key _ _)).trans
          ((hadv₂.above (prefix_key _ _)).trans (hadv₃.above (prefix_key _ _)))
      -- and so do the groups of the other timeframes
      have hothers : ∀ e ∈ rest, Fresh (groupsPlace.key e.1) paths₃ := fun e he => by
        refine hadv.fresh (hfresh e (List.mem_cons_of_mem _ he)) (sited_groups e.1) ?_ fun heq => ?_
        · simp [Path.key]
        · simp only [Path.key, List.append_cancel_left_eq, List.cons.injEq, Step.key.injEq,
            and_true] at heq
          rw [← heq] at hnotin
          exact hnotin (List.mem_map.mpr ⟨e, he, rfl⟩)
      obtain ⟨paths', hadv', hgroups⟩ := ih (fun e he => hfields e (List.mem_cons_of_mem _ he)) hrest
        hadv.charted hothers h₄
      refine ⟨paths', (hadv.above (prefix_key _ _)).trans hadv', .cons hkey ?_ hgroups⟩
      exact ⟨rs, hrs, hadv'.madeAll (hadv₃.madeAll (hadv₂.madeAll hall))⟩
    | null | bool _ | int _ | real _ | str _ | arr _ => exact absurd h₁ fail_ne_ok

/-- **The other named rules are made.** -/
theorem assembleAllNamed_charted {names : List String} (hc : Charted rules start [] paths a)
    (h : assembleAllNamed rules names a = .ok ((), a')) (p : Path) :
    ∃ paths', Advances rules start [] p paths a paths' a' := by
  induction names generalizing paths a with
  | nil =>
    obtain ⟨-, rfl⟩ := pure_eq_ok.mp h
    exact ⟨paths, .refl hc p⟩
  | cons name rest ih =>
    obtain ⟨id, a₁, hid, h₁⟩ := Assemble.bind_eq_ok.mp h
    obtain ⟨paths₁, hadv, -⟩ := assembleNamed_charted rules.length [] name _ a id a₁ paths hc hid
    obtain ⟨paths', hadv'⟩ := ih (hadv p).charted h₁
    exact ⟨paths', (hadv p).trans hadv'⟩

end Rules

/-! ### Two charts -/

section Two

variable {rules : Table Rule} {start a a' : Assembly} {entered entered' : List String}
  {paths paths' : List Path} {p q : Path} {r : Rule} {id id' : Node.Id}

/-- **The nodes are twins**: they are one node from before, or were made at one place and are alike. -/
inductive Paired (start : Assembly) (paths paths' : List Path) (nodes nodes' : Array Node) :
    Node.Id → Node.Id → Prop
  /-- A node from before. -/
  | former {id : Node.Id} (h : id < start.nodes.size) : Paired start paths paths' nodes nodes' id id
  /-- Leaves of one name. -/
  | leaf {p : Path} {name : String} {place place' : Nat} {threshold : Option Float}
      {id id' : Node.Id} (hs : Stands start.nodes.size paths id p)
      (hs' : Stands start.nodes.size paths' id' p)
      (hid : nodes[id]? = some (.leaf name place threshold))
      (hid' : nodes'[id']? = some (.leaf name place' threshold)) :
      Paired start paths paths' nodes nodes' id id'
  /-- Groups of twins. -/
  | group {p : Path} {q : Quantifier} {label : String} {ids ids' : List Node.Id} {id id' : Node.Id}
      (hs : Stands start.nodes.size paths id p) (hs' : Stands start.nodes.size paths' id' p)
      (hid : nodes[id]? = some (.group q label ids))
      (hid' : nodes'[id']? = some (.group q label ids'))
      (h : List.Forall₂ (Paired start paths paths' nodes nodes') ids ids') :
      Paired start paths paths' nodes nodes' id id'

theorem Stands.le {n : Nat} (h : Stands n paths id p) : n ≤ id := by
  obtain ⟨k, rfl, -⟩ := h
  exact Nat.le_add_right n k

/-- A node stands for one place. -/
theorem Stands.place_unique {n : Nat} (h : Stands n paths id p) (h' : Stands n paths id q) : p = q := by
  obtain ⟨k, rfl, hk⟩ := h
  obtain ⟨k', heq, hk'⟩ := h'
  obtain rfl := Nat.add_left_cancel heq
  rw [hk] at hk'
  exact Option.some.inj hk'

/-- One node stands for a place, if no place stands twice. -/
theorem Stands.id_unique {n : Nat} (hnodup : paths.Nodup) (h : Stands n paths id p)
    (h' : Stands n paths id' p) : id = id' := by
  obtain ⟨k, rfl, hk⟩ := h
  obtain ⟨k', rfl, hk'⟩ := h'
  have hlt := (List.getElem?_eq_some_iff.mp hk).1
  rw [(List.getElem?_inj hlt hnodup).mp (hk.trans hk'.symm)]

/-- The nodes are one node from before, or stand for one place. -/
def StandAlike (n : Nat) (paths paths' : List Path) (id id' : Node.Id) : Prop :=
  (id = id' ∧ id < n) ∨ ∃ p, Stands n paths id p ∧ Stands n paths' id' p

theorem StandAlike.symm {n : Nat} (h : StandAlike n paths paths' id id') :
    StandAlike n paths' paths id' id := by
  rcases h with ⟨rfl, hlt⟩ | ⟨p, hs, hs'⟩
  · exact .inl ⟨rfl, hlt⟩
  · exact .inr ⟨p, hs', hs⟩

theorem StandAlike.unique {n : Nat} {id'' : Node.Id} (hnodup : paths'.Nodup)
    (h : StandAlike n paths paths' id id') (h' : StandAlike n paths paths' id id'') : id' = id'' := by
  rcases h with ⟨rfl, hlt⟩ | ⟨p, hs, hs'⟩ <;> rcases h' with ⟨rfl, hlt'⟩ | ⟨q, ht, ht'⟩
  · rfl
  · exact absurd ht.le (Nat.not_le.mpr hlt)
  · exact absurd hs.le (Nat.not_le.mpr hlt')
  · rw [← hs.place_unique ht] at ht'
    exact hs'.id_unique hnodup ht'

theorem Paired.standAlike {nodes nodes' : Array Node}
    (h : Paired start paths paths' nodes nodes' id id') :
    StandAlike start.nodes.size paths paths' id id' := by
  cases h with
  | former h => exact .inl ⟨rfl, h⟩
  | leaf hs hs' _ _ | group hs hs' _ _ _ => exact .inr ⟨_, hs, hs'⟩

/-- Former nodes are their own twins. -/
theorem paired_former {nodes nodes' : Array Node} {ids : List Node.Id}
    (h : ∀ id ∈ ids, id < start.nodes.size) :
    List.Forall₂ (Paired start paths paths' nodes nodes') ids ids :=
  List.forall₂_same.mpr fun id hid => .former (h id hid)

/-- **Nodes that were made of one rule at one place are twins.** -/
theorem Made.paired {nodes nodes' : Array Node} (hstart : start.Coherent rules)
    (h : Made rules start paths nodes p r id) (h' : Made rules start paths' nodes' p r id') :
    Paired start paths paths' nodes nodes' id id' := by
  induction h generalizing id' with
  | leaf hname hs hid =>
    cases h' with
    | leaf _ hs' hid' => exact .leaf hs hs' hid hid'
    | former hname' _ | named hname' _ _ _ => exact absurd hname hname'
  | former hname hold =>
    cases h' with
    | leaf hname' _ _ => exact absurd hname' hname
    | former _ hold' =>
      obtain rfl := Option.some.inj (hold.symm.trans hold')
      exact .former (hstart.named _ _ hold)
    | named _ hnew' _ _ =>
      rw [hold] at hnew'
      cases hnew'
  | named hname hnew hr _ ih =>
    cases h' with
    | leaf hname' _ _ => exact absurd hname' hname
    | former _ hold' =>
      rw [hnew] at hold'
      cases hold'
    | named _ _ hr' hbody' =>
      obtain rfl := Option.some.inj (hr.symm.trans hr')
      exact ih hbody'
  | check hs hid =>
    cases h' with
    | check hs' hid' => exact .leaf hs hs' hid hid'
  | @group _ _ rs _ ids hs hid hlen _ ih =>
    cases h' with
    | @group _ _ _ _ ids' hs' hid' hlen' hall' =>
      refine .group hs hs' hid hid' (List.forall₂_iff_get.mpr ⟨hlen.trans hlen'.symm, ?_⟩)
      intro j hj hj'
      obtain ⟨r, hr⟩ : ∃ r, rs[j]? = some r := ⟨_, List.getElem?_eq_getElem (hlen ▸ hj)⟩
      exact ih j _ _ hr (List.getElem?_eq_getElem hj) (hall' j _ _ hr (List.getElem?_eq_getElem hj'))

/-- **Lists that were made of the same rules are lists of twins.** -/
theorem MadeAll.paired {nodes nodes' : Array Node} {i : Nat} {rs : List Rule}
    {ids ids' : List Node.Id} (hstart : start.Coherent rules)
    (h : MadeAll rules start paths nodes p i rs ids)
    (h' : MadeAll rules start paths' nodes' p i rs ids') :
    List.Forall₂ (Paired start paths paths' nodes nodes') ids ids' := by
  refine List.forall₂_iff_get.mpr ⟨h.1.trans h'.1.symm, fun j hj hj' => ?_⟩
  obtain ⟨r, hr⟩ : ∃ r, rs[j]? = some r := ⟨_, List.getElem?_eq_getElem (h.1 ▸ hj)⟩
  exact (h.2 j _ _ hr (List.getElem?_eq_getElem hj)).paired hstart
    (h'.2 j _ _ hr (List.getElem?_eq_getElem hj'))

/-- **Two charts of assemblies from one point pair the nodes one to one.** -/
theorem Charted.twins {b b' : Book} (hstart : start.Coherent rules)
    (hc : Charted rules start entered paths a) (hc' : Charted rules start entered' paths' a')
    (hb : b.nodes = a.nodes) (hb' : b'.nodes = a'.nodes) :
    b.Twins b' (Paired start paths paths' b.nodes b'.nodes) where
  unique := ⟨fun _ _ _ h h' => h.standAlike.symm.unique hc.nodup h'.standAlike.symm,
    fun _ _ _ h h' => h.standAlike.unique hc'.nodup h'.standAlike⟩
  node := by
    intro id id' h
    cases h with
    | former hlt =>
      obtain ⟨node, hnode⟩ : ∃ node, start.nodes[id]? = some node :=
        ⟨_, Array.getElem?_eq_getElem hlt⟩
      refine ⟨node, node, ?_, ?_, ?_⟩
      · rw [hb, hc.nodes id hlt, hnode]
      · rw [hb', hc'.nodes id hlt, hnode]
      · cases node with
        | leaf _ _ _ => exact .leaf
        | group q label ids =>
          refine .group (paired_former fun m hm => Nat.lt_trans ?_ hlt)
          exact hstart.members id q "" ids (by rw [shapeAt, hnode]; rfl) m hm
    | leaf _ _ hid hid' => exact ⟨_, _, hid, hid', .leaf⟩
    | group _ _ hid hid' h => exact ⟨_, _, hid, hid', .group h⟩

end Two

end TopDown
