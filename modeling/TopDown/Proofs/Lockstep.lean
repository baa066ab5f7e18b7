import TopDown.Proofs.Load
import TopDown.Proofs.Lookups
import TopDown.Proofs.Parting

/-!
# Assembling without a rule

Suppose that no rule refers to a certain named rule. We take it away and follow the assembly of both
configurations side by side, from the first list to the last. The two keep *in step*
(`TopDown.InStep`): they make the same nodes in the same places, as if the rule had never been there.
The registries need not be the same, since the rule may have been registered as a condition, or in the
place of one; what the assembly without it needs is that every other name that is known on one side is
known on the other. So whatever succeeds with the rule succeeds without it and returns the same nodes
(`TopDown.Assemble.Follows`).

Steps that follow can be joined, and the proofs have the shape of the assembly: first rules and named
rules (`TopDown.assembleNamed_follows`), then the sections, where the remarks of the review tell that
the name is not looked up. The named rules that nothing refers to come last, and there the two part.
-/

namespace TopDown

/-! ### In step -/

/-- The node without the place of its condition. -/
def Node.bare : Node → Node
  | .leaf name _ threshold => .leaf name 0 threshold
  | .group q label members => .group q label members

/-- **Two assemblies in step**, of which the second does without a named rule. -/
structure InStep (name : String) (known : List String) (a a' : Assembly) : Prop where
  /-- The nodes are the same but for the places of their conditions. -/
  nodes : a.nodes.map Node.bare = a'.nodes.map Node.bare
  /-- The same named rules have the same nodes. -/
  named : a.named = a'.named
  /-- No leaf has the name of the rule. -/
  free : ∀ (id : Node.Id) place threshold, a.nodes[id]? ≠ some (.leaf name place threshold)
  /-- Every other name that is known in the first is known in the second. -/
  conditions : ∀ n ≠ name, n ∈ a.registry.names → n ∈ a'.registry.names
  /-- The second knows some names from the start. -/
  known : known ⊆ a'.registry.names

namespace InStep

variable {name : String} {known : List String} {a a' : Assembly}

theorem size_eq (h : InStep name known a a') : a.nodes.size = a'.nodes.size := by
  have hsize := congrArg Array.size h.nodes
  rwa [Array.size_map, Array.size_map] at hsize

/-- The same node is added to both. -/
theorem push (h : InStep name known a a') {node node' : Node} (hbare : node.bare = node'.bare)
    (hfree : ∀ place threshold, node ≠ .leaf name place threshold) :
    InStep name known { a with nodes := a.nodes.push node }
      { a' with nodes := a'.nodes.push node' } where
  nodes := by
    show (a.nodes.push node).map Node.bare = (a'.nodes.push node').map Node.bare
    rw [Array.map_push, Array.map_push, h.nodes, hbare]
  named := h.named
  free id place threshold hid := by
    rw [Array.getElem?_push] at hid
    split at hid
    · exact hfree place threshold (Option.some.inj hid)
    · exact h.free id place threshold hid
  conditions := h.conditions
  known := h.known

/-- The same check is registered in both. -/
theorem enrol (h : InStep name known a a') (n : String) (c c' : Condition) :
    InStep name known { a with registry := a.registry.register n c }
      { a' with registry := a'.registry.register n c' } where
  nodes := h.nodes
  named := h.named
  free := h.free
  conditions m hm hmem := by
    rcases Registry.mem_names_register.mp hmem with hmem | rfl
    · exact Registry.mem_names_register.mpr (.inl (h.conditions m hm hmem))
    · exact Registry.mem_names_register.mpr (.inr rfl)
  known := fun _ hn => Registry.mem_names_register.mpr (.inl (h.known hn))

theorem bare_relabel (label : String) (node : Node) :
    (node.relabel label).bare = node.bare.relabel label := by
  cases node <;> rfl

/-- The same named rule is put on record in both. -/
theorem record (h : InStep name known a a') (n : String) (isGroup : Bool) (id : Node.Id) :
    InStep name known
      { a with
        nodes := if isGroup then a.nodes.modify id (Node.relabel n) else a.nodes
        named := Table.put n id a.named }
      { a' with
        nodes := if isGroup then a'.nodes.modify id (Node.relabel n) else a'.nodes
        named := Table.put n id a'.named } where
  nodes := by
    cases isGroup with
    | false => exact h.nodes
    | true =>
      have hmap (nodes : Array Node) : (nodes.modify id (Node.relabel n)).map Node.bare =
          (nodes.map Node.bare).modify id (Node.relabel n) := by
        refine Array.ext_getElem? fun i => ?_
        rw [Array.getElem?_map, Array.getElem?_modify, Array.getElem?_modify, Array.getElem?_map]
        split
        · rw [Option.map_map, Option.map_map]
          exact Option.map_congr fun node _ => bare_relabel n node
        · rfl
      show (a.nodes.modify id (Node.relabel n)).map Node.bare = _
      rw [hmap, h.nodes, ← hmap]
      rfl
  named := by
    show Table.put n id a.named = Table.put n id a'.named
    rw [h.named]
  free j place threshold hj := by
    cases isGroup with
    | false => exact h.free j place threshold hj
    | true =>
      have hj' : (a.nodes.modify id (Node.relabel n))[j]? = some (.leaf name place threshold) := hj
      rw [Array.getElem?_modify] at hj'
      split at hj'
      · obtain ⟨node, hnode, hrelabel⟩ := Option.map_eq_some_iff.mp hj'
        cases node with
        | leaf _ _ _ =>
          cases hrelabel
          exact h.free j _ _ hnode
        | group _ _ _ => cases hrelabel
      · exact h.free j place threshold hj'
  conditions := h.conditions
  known := h.known

end InStep

/-! ### Steps that follow -/

namespace Assemble

variable {α β : Type} {name : String} {known : List String}

/-- **The second step follows the first**: where the first succeeds, the second succeeds with the same
outcome, and the assemblies stay in step. -/
def Follows (name : String) (known : List String) (x x' : Assemble α) : Prop :=
  ∀ a a' r a₁, InStep name known a a' → x a = .ok (r, a₁) →
    ∃ a₁', x' a' = .ok (r, a₁') ∧ InStep name known a₁ a₁'

theorem Follows.pure (r : α) : Follows name known (pure r : Assemble α) (pure r) := by
  intro a a' s a₁ h hok
  obtain ⟨rfl, rfl⟩ := pure_eq_ok.mp hok
  exact ⟨a', rfl, h⟩

/-- Nothing need follow a step that stops. -/
theorem Follows.stop {e : Stop} {x' : Assemble α} :
    Follows name known (throw e : Assemble α) x' :=
  fun _ _ _ _ _ hok => by cases hok

/-- Steps that follow can be joined. Of the outcome of the first it may be used that it is one. -/
theorem Follows.bind_outcome {x x' : Assemble α} {f f' : α → Assemble β}
    (hx : Follows name known x x')
    (hf : ∀ r, (∃ a a₁, x a = .ok (r, a₁)) → Follows name known (f r) (f' r)) :
    Follows name known (x >>= f) (x' >>= f') := by
  intro a a' b a₂ h hok
  obtain ⟨r, a₁, hr, hok⟩ := Assemble.bind_eq_ok.mp hok
  obtain ⟨a₁', hr', h₁⟩ := hx a a' r a₁ h hr
  obtain ⟨a₂', hok', h₂⟩ := hf r ⟨a, a₁, hr⟩ a₁ a₁' b a₂ h₁ hok
  exact ⟨a₂', Assemble.bind_eq_ok.mpr ⟨r, a₁', hr', hok'⟩, h₂⟩

theorem Follows.bind {x x' : Assemble α} {f f' : α → Assemble β} (hx : Follows name known x x')
    (hf : ∀ r, Follows name known (f r) (f' r)) : Follows name known (x >>= f) (x' >>= f') :=
  hx.bind_outcome fun r _ => hf r

/-- Settings are read alike. -/
theorem Settles.follows {x : Assemble α} (h : Settles x) : Follows name known x x := by
  rcases h with ⟨r, rfl⟩ | ⟨area, key, reason, rfl⟩
  · exact .pure r
  · exact .stop

/-- A leaf under another name. -/
theorem follows_leaf {n : String} (hn : n ≠ name) (threshold : Option Float) (p : Path) :
    Follows name known (leaf n threshold p) (leaf n threshold p) := by
  intro a a' id a₁ h hok
  obtain ⟨place, hplace, rfl, rfl⟩ := leaf_eq_ok.mp hok
  have hmem : n ∈ a'.registry.names :=
    h.conditions n hn (Registry.place?_isSome.mp (by rw [hplace]; rfl))
  obtain ⟨place', hplace'⟩ := Option.isSome_iff_exists.mp (Registry.place?_isSome.mpr hmem)
  refine ⟨_, leaf_eq_ok.mpr ⟨place', hplace', h.size_eq, rfl⟩, h.push rfl fun place t heq => ?_⟩
  cases heq
  exact hn rfl

theorem follows_enrol (n : String) (k : Check) :
    Follows name known (enrol n k) (enrol n k) := by
  intro a a' r a₁ h hok
  cases hok
  exact ⟨_, rfl, h.enrol n _ _⟩

theorem follows_pushGroup (q : Quantifier) (label : String) (ids : List Node.Id) :
    Follows name known (push (.group q label ids)) (push (.group q label ids)) := by
  intro a a' id a₁ h hok
  cases hok
  refine ⟨_, ?_, h.push rfl nofun⟩
  rw [push_run, h.size_eq]

theorem follows_record (n : String) (isGroup : Bool) (id : Node.Id) :
    Follows name known (record n isGroup id) (record n isGroup id) := by
  intro a a' r a₁ h hok
  cases hok
  exact ⟨_, rfl, h.record n isGroup id⟩

end Assemble

/-! ### Rules -/

open Assemble

variable {name : String} {known : List String} {rules rules' : Table Rule}

mutual

/-- **A rule that does not refer to the name** becomes the same node. -/
theorem assembleRule_follows (hname : Plain name)
    (hrules : ∀ n ≠ name, rules.lookup n = rules'.lookup n)
    {named named' : String → Path → Assemble Node.Id}
    (hnamed : ∀ n ≠ name, ∀ q, Follows name known (named n q) (named' n q)) (p : Path) :
    (r : Rule) → name ∉ r.references → (r.isCheck = true → ¬Plain p.render) →
      Follows name known (assembleRule named rules p r) (assembleRule named' rules' p r)
  | .reference n threshold, hr, _ => by
    have hn : n ≠ name := fun heq => hr (by rw [heq]; exact List.mem_cons_self)
    have hleaf : IsLeafName rules n ↔ IsLeafName rules' n := by
      rw [IsLeafName, IsLeafName, hrules n hn]
    by_cases h : IsLeafName rules n
    · rw [assembleRule_leaf h, assembleRule_leaf (hleaf.mp h)]
      exact follows_leaf hn _ _
    · rw [assembleRule_named h, assembleRule_named (mt hleaf.mpr h)]
      exact hnamed n hn p
  | .group q members, hr, _ => by
    rw [assembleRule, assembleRule]
    exact (assembleMembers_follows hname hrules hnamed (p.key q.key) 0 members hr).bind fun ids =>
      follows_pushGroup q q.key ids
  | .check k, _, hp => by
    rw [assembleRule, assembleRule]
    have hne : p.render ≠ name := fun heq => hp rfl (heq ▸ hname)
    exact (follows_enrol _ k).bind fun _ => follows_leaf hne _ _

/-- So do the members of a group. -/
theorem assembleMembers_follows (hname : Plain name)
    (hrules : ∀ n ≠ name, rules.lookup n = rules'.lookup n)
    {named named' : String → Path → Assemble Node.Id}
    (hnamed : ∀ n ≠ name, ∀ q, Follows name known (named n q) (named' n q)) (p : Path) (i : Nat) :
    (rs : List Rule) → name ∉ Rule.referencesOfAll rs →
      Follows name known (assembleMembers named rules p i rs) (assembleMembers named' rules' p i rs)
  | [], _ => by
    rw [assembleMembers, assembleMembers]
    exact .pure _
  | r :: rest, hrs => by
    rw [Rule.referencesOfAll, List.mem_append, not_or] at hrs
    rw [assembleMembers, assembleMembers]
    refine (assembleRule_follows hname hrules hnamed (p.index i) r hrs.1 fun _ =>
      Path.not_plain_render_index p i).bind fun id => ?_
    exact (assembleMembers_follows hname hrules hnamed p (i + 1) rest hrs.2).bind fun ids => .pure _

end

/-! ### Named rules -/

/-- A named rule that has its node keeps it. -/
theorem assembleNamed_made {left : Nat} {entered : List String} {n : String} {p : Path}
    {a : Assembly} {id : Node.Id} (h : a.named.lookup n = some id) :
    assembleNamed rules left entered n p a = .ok (id, a) := by
  rw [assembleNamed_run, h]

/-- A named rule that has no node gets one only if it is not entered. -/
theorem not_mem_of_assembleNamed {left : Nat} {entered : List String} {n : String} {p : Path}
    {a a₁ : Assembly} {id : Node.Id} (h : assembleNamed rules left entered n p a = .ok (id, a₁))
    (hnone : a.named.lookup n = none) : n ∉ entered := by
  intro hmem
  rw [assembleNamed_run, hnone] at h
  simp only [if_pos hmem] at h
  exact fail_ne_ok h

/-- A named rule is made, if its leaf or its body is. -/
theorem assembleNamed_eq_ok {left : Nat} {entered : List String} {n : String} {p : Path}
    {a a₁ a₂ : Assembly} {id : Node.Id} {rule : Rule} (hnone : a.named.lookup n = none)
    (hnew : n ∉ entered) (hr : rules.lookup n = some rule)
    (hrecord : record n rule.isGroup id a₁ = .ok ((), a₂))
    (h : (∃ k, rule = .check k ∧ leaf n none p a = .ok (id, a₁)) ∨
      (rule.isCheck = false ∧ assembleRule (assembleNamed rules left (n :: entered)) rules
        (rulePath n) rule a = .ok (id, a₁))) :
    assembleNamed rules (left + 1) entered n p a = .ok (id, a₂) := by
  rw [assembleNamed_run, hnone]
  simp only [if_neg hnew, hr]
  rcases h with ⟨k, rfl, hleaf⟩ | ⟨hcheck, hbody⟩
  · exact Assemble.bind_eq_ok.mpr ⟨id, a₁, hleaf, Assemble.bind_eq_ok.mpr ⟨(), a₂, hrecord, rfl⟩⟩
  · cases rule with
    | check k => cases hcheck
    | reference _ _ | group _ _ =>
      exact Assemble.bind_eq_ok.mpr ⟨id, a₁, hbody, Assemble.bind_eq_ok.mpr ⟨(), a₂, hrecord, rfl⟩⟩

/-- **A table of rules that does without the named one**, which no rule refers to. -/
structure Without (name : String) (rules rules' : Table Rule) : Prop where
  /-- The name is not that of a place. -/
  plain : Plain name
  /-- All other rules are there. -/
  lookup : ∀ n ≠ name, rules.lookup n = rules'.lookup n
  /-- The named one is not. -/
  gone : rules'.lookup name = none
  /-- There is one rule less. -/
  length : rules.length = rules'.length + 1
  /-- No rule refers to the name. -/
  avoids : ∀ n r, rules.lookup n = some r → name ∉ r.references

/-- **Another named rule** gets the same node. There are enough rules left to be entered, since the one
that is taken away is never entered. -/
theorem assembleNamed_follows (h : Without name rules rules')
    {left left' : Nat} {entered : List String} (hway : Way rules'.names left' entered)
    (hleft : left = left' + 1) {n : String} (hn : n ≠ name) (p : Path) :
    Follows name known (assembleNamed rules left entered n p)
      (assembleNamed rules' left' entered n p) := by
  induction left' generalizing left entered n p with
  | zero =>
    intro a a' id a₁ ha hok
    cases hnone : a.named.lookup n with
    | some id' =>
      rw [assembleNamed_made hnone] at hok
      cases hok
      exact ⟨a', assembleNamed_made (ha.named ▸ hnone), ha⟩
    | none =>
      rcases assembleNamed_cases hok with ⟨hid, -⟩ | ⟨rule, _, _, hr, -⟩
      · rw [hnone] at hid
        cases hid
      · -- all other rules are entered, and this one is one of them
        have hmem : n ∈ rules'.names := Table.has_iff.mp (by rw [Table.has, ← h.lookup n hn, hr]; rfl)
        exact absurd (hway.mem_of_full hmem) (not_mem_of_assembleNamed hok hnone)
  | succ left' ih =>
    intro a a' id a₂ ha hok
    cases hnone : a.named.lookup n with
    | some id' =>
      rw [assembleNamed_made hnone] at hok
      cases hok
      exact ⟨a', assembleNamed_made (ha.named ▸ hnone), ha⟩
    | none =>
      rcases assembleNamed_cases hok with ⟨hid, -⟩ | ⟨rule, left₀, a₁, hr, hleft₀, hrecord, hmade⟩
      · rw [hnone] at hid
        cases hid
      obtain rfl : left₀ = left' + 1 := Nat.succ.inj (hleft₀.symm.trans hleft)
      have hnew := not_mem_of_assembleNamed hok hnone
      have hr' : rules'.lookup n = some rule := by rw [← h.lookup n hn, hr]
      have hmem : n ∈ rules'.names := Table.has_iff.mp (by rw [Table.has, hr']; rfl)
      have hmade' : ∃ a₁', ((∃ k, rule = .check k ∧ leaf n none p a' = .ok (id, a₁')) ∨
          (rule.isCheck = false ∧ assembleRule (assembleNamed rules' left' (n :: entered)) rules'
            (rulePath n) rule a' = .ok (id, a₁'))) ∧ InStep name known a₁ a₁' := by
        rcases hmade with ⟨k, rfl, hleaf⟩ | ⟨hcheck, hbody⟩
        · obtain ⟨a₁', hleaf', h₁⟩ := follows_leaf hn none p a a' id a₁ ha hleaf
          exact ⟨a₁', .inl ⟨k, rfl, hleaf'⟩, h₁⟩
        · have hfollows : Follows name known
              (assembleRule (assembleNamed rules (left' + 1) (n :: entered)) rules (rulePath n) rule)
              (assembleRule (assembleNamed rules' left' (n :: entered)) rules' (rulePath n) rule) :=
            assembleRule_follows h.plain h.lookup
              (fun m hm q => ih (hway.cons hmem hnew) rfl hm q) (rulePath n) rule (h.avoids n rule hr)
              fun hcheck' => by rw [hcheck] at hcheck'; cases hcheck'
          obtain ⟨a₁', hbody', h₁⟩ := hfollows a a' id a₁ ha hbody
          exact ⟨a₁', .inr ⟨hcheck, hbody'⟩, h₁⟩
      obtain ⟨a₁', hmade', h₁⟩ := hmade'
      obtain ⟨a₂', hrecord', h₂⟩ := follows_record n rule.isGroup id a₁ a₁' () a₂ h₁ hrecord
      exact ⟨a₂', assembleNamed_eq_ok (ha.named ▸ hnone) hnew hr' hrecord' hmade', h₂⟩

/-! ### Lists -/

variable {w : Review}

/-- **A list whose remarks avoid the name** becomes the same nodes. -/
theorem listAt_follows (h : Without name rules rules') {p : Path} {fields : Table Json}
    {key : String} (hc : Review.Avoids name (w.listAt p fields key)) :
    Follows name known (listAt rules p fields key) (listAt rules' p fields key) := by
  unfold Review.listAt at hc
  unfold listAt
  cases hv : fields.lookup key with
  | none => exact .pure _
  | some v =>
    rw [hv] at hc
    cases hparsed : Rule.parseList (p.key key) v with
    | error e =>
      simp only [hparsed]
      exact (Follows.stop : Follows name known (throw (.fault (.ruleParse e))) _)
    | ok list =>
      simp only [hparsed, ofParsed, pure_bind]
      exact assembleMembers_follows h.plain h.lookup
        (fun n hn q => assembleNamed_follows h (Way.start rules') h.length hn q) _ 0 list
        (Review.list_avoids hparsed hc)

/-! ### Sections -/

/-- Remarks that avoid the name avoid it in the parts of the section. -/
theorem avoids_of_selection {root selector : Table Json} {a a₁ : Assembly}
    (hc : Review.Avoids name (w.selection root)) (hread : selectorOf root a = .ok (selector, a₁)) :
    Review.Avoids name (w.listAt [] root "filters_mandatory") ∧
      Review.Avoids name (w.listAt Review.selectorPath selector "filters_mandatory") ∧
      Review.Avoids name (w.allowance selector) ∧ Review.Avoids name (w.layout selector) := by
  obtain ⟨hroot, hlist, hallow, -, hlayout⟩ := Review.subset_selection (w := w) hread
  exact ⟨fun h => hc (hroot h), fun h => hc (hlist h), fun h => hc (hallow h),
    fun h => hc (hlayout h)⟩

section Sections

variable (h : Without name rules rules')
include h

theorem block_follows {p : Path} {v : Json} (hc : Review.Avoids name (w.block p v)) :
    Follows name known (assembleBlock rules p v) (assembleBlock rules' p v) := by
  cases v with
  | obj block =>
    simp only [Review.block, Review.avoids_append] at hc
    obtain ⟨⟨⟨⟨⟨-, hlong⟩, hshort⟩, -⟩, -⟩, -⟩ := hc
    refine (settles_minBarsOf p block).follows.bind fun minBars => ?_
    refine (settles_graceOf p block).follows.bind fun grace => ?_
    refine (listAt_follows h hlong).bind fun long => (listAt_follows h hshort).bind fun short => ?_
    split
    · exact .pure _
    · exact .stop
  | null | bool _ | int _ | real _ | str _ | arr _ => exact .stop

theorem blocks_follows {p : Path} {fields : Table Json}
    (hc : ∀ e ∈ fields, Review.Avoids name (w.block (p.key e.1) e.2))
    (blocks : ByTimeframe Block) :
    Follows name known (assembleBlocks rules p blocks fields)
      (assembleBlocks rules' p blocks fields) := by
  induction fields generalizing blocks with
  | nil => exact .pure _
  | cons e rest ih =>
    refine (Settles.timeframe _ _ _).follows.bind fun tf => ?_
    refine (block_follows h (hc e List.mem_cons_self)).bind fun block => ?_
    exact ih (fun e he => hc e (List.mem_cons_of_mem _ he)) _

theorem allowance_follows {selector : Table Json} (hc : Review.Avoids name (w.allowance selector)) :
    Follows name known (assembleAllowance rules selector) (assembleAllowance rules' selector) := by
  unfold Review.allowance at hc
  unfold assembleAllowance
  split
  · exact .pure _
  · rename_i fields hgiven
    simp only [hgiven, Review.avoids_append] at hc
    exact (listAt_follows h hc.1.2).bind fun ids => .pure _
  · exact .stop

theorem groups_follows {p : Path} {fields : Table Json}
    (hc : ∀ e ∈ fields, Review.Avoids name (w.groups (p.key e.1) e.2))
    (groups : ByTimeframe Groups) :
    Follows name known (assembleGroups rules p groups fields)
      (assembleGroups rules' p groups fields) := by
  induction fields generalizing groups with
  | nil => exact .pure _
  | cons e rest ih =>
    obtain ⟨key, v⟩ := e
    have hgroups := hc _ List.mem_cons_self
    refine (Settles.timeframe _ _ _).follows.bind fun tf => ?_
    cases v with
    | obj block =>
      simp only [Review.groups, Review.avoids_append, Review.avoids_flatMap] at hgroups
      have hlist : ∀ group ∈ Review.groupKeys, Follows name known
          (listAt rules (p.key key) block group) (listAt rules' (p.key key) block group) :=
        fun group hgroup => listAt_follows h (hgroups.2 group hgroup)
      refine (hlist "stay_on_if" (by simp [Review.groupKeys])).bind fun stay => ?_
      refine (hlist "drop_to_lower_if_any" (by simp [Review.groupKeys])).bind fun drop => ?_
      refine (hlist "forbid_drop_to_lower_if_any" (by simp [Review.groupKeys])).bind fun forbid => ?_
      exact ih (fun e he => hc e (List.mem_cons_of_mem _ he)) _
    | null | bool _ | int _ | real _ | str _ | arr _ => exact .stop

theorem layout_follows {selector : Table Json} (hc : Review.Avoids name (w.layout selector)) :
    Follows name known (assembleLayout rules selector) (assembleLayout rules' selector) := by
  unfold Review.layout at hc
  unfold assembleLayout
  cases hv : selector.lookup "per_timeframe" with
  | none =>
    simp only [hv, Review.avoids_flatMap] at hc
    have hlist : ∀ key ∈ Review.flatKeys, Follows name known
        (listAt rules [.key selectorKey] selector key)
        (listAt rules' [.key selectorKey] selector key) :=
      fun key hkey => listAt_follows h (hc key hkey)
    refine (hlist "stay_on_15m_if" (by simp [Review.flatKeys])).bind fun stay => ?_
    refine (hlist "drop_to_5m_if_any" (by simp [Review.flatKeys])).bind fun drop => ?_
    refine (hlist "forbid_drop_to_5m_if_any" (by simp [Review.flatKeys])).bind fun forbid => ?_
    exact .pure _
  | some v =>
    cases v with
    | obj blocks =>
      simp only [hv, Review.avoids_append, Review.avoids_flatMap] at hc
      refine (settles_orderOf selector).follows.bind fun order => ?_
      exact (groups_follows h (fun e he => (hc.2 e he).2) _).bind fun groups => .pure _
    | null | bool _ | int _ | real _ | str _ | arr _ => exact .stop

variable {root root' : Table Json} (hroot : ∀ key ≠ "rules", root'.lookup key = root.lookup key)
include hroot

/-- **The section of the timeframes** is assembled alike. -/
theorem validation_follows (hc : Review.Avoids name (w.validation root)) :
    Follows name known (assembleValidation rules root) (assembleValidation rules' root') := by
  unfold Review.validation at hc
  unfold assembleValidation
  rw [hroot "validation" (by decide)]
  cases hv : root.lookup "validation" with
  | none => exact .stop
  | some v =>
    cases v with
    | obj fields =>
      simp only [hv, Review.avoids_append] at hc ⊢
      refine (settles_startOf fields).follows.bind fun start => ?_
      cases hb : fields.lookup "timeframe" with
      | none => exact .stop
      | some v =>
        cases v with
        | obj blocks =>
          simp only [hb, Review.blocks, Review.avoids_append, Review.avoids_flatMap] at hc ⊢
          exact (blocks_follows h (fun e he => (hc.2.1 e he).2) _).bind fun blocks => .pure _
        | null | bool _ | int _ | real _ | str _ | arr _ => exact .stop
    | null | bool _ | int _ | real _ | str _ | arr _ => exact .stop

theorem filters_follows {selector : Table Json}
    (hlist : Review.Avoids name (w.listAt Review.selectorPath selector "filters_mandatory"))
    (hfilters : Review.Avoids name (w.listAt [] root "filters_mandatory")) :
    Follows name known (assembleFilters rules root selector)
      (assembleFilters rules' root' selector) := by
  unfold assembleFilters
  split
  · exact listAt_follows h hlist
  · rw [listAt_congr (hroot "filters_mandatory" (by decide))]
    exact listAt_follows h hfilters

/-- **The section of the choice** is assembled alike. -/
theorem selection_follows (hc : Review.Avoids name (w.selection root)) :
    Follows name known (assembleSelection rules root) (assembleSelection rules' root') := by
  have hselector : selectorOf root' = selectorOf root := by
    unfold selectorOf
    rw [given?_congr (hroot selectorKey (by decide))]
  unfold assembleSelection
  rw [hselector]
  refine (settles_selectorOf root).follows.bind_outcome fun selector ⟨a, a₁, hread⟩ => ?_
  obtain ⟨hfilters, hlist, hallow, hlayout⟩ := avoids_of_selection hc hread
  refine (filters_follows h hroot hlist hfilters).bind fun filters => ?_
  refine (allowance_follows h hallow).bind fun allowance => ?_
  refine (settles_defaultOf selector).follows.bind fun default => ?_
  exact (layout_follows h hlayout).bind fun layout => .pure _

end Sections

end TopDown
