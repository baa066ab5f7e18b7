import TopDown.Proofs.Place
import TopDown.Proofs.Spelling

/-!
# Rules become nodes

The node that the assembly makes of a rule spells the rule, and so do the nodes of named rules,
whatever names the configuration chooses: this is shown here, by recursion on rules
(`TopDown.assembleRule_upheld`) and by induction on the named rules that are not entered
(`TopDown.assembleNamed_upheld`).

Other statements about assemblies go the same way. A statement is `TopDown.Maintained` if each single
step keeps it: registering a check, adding a leaf or a group, putting a named rule on record. A step
may rely on what is known of the rule that is being made; for this there is a second statement, about
rules at places, which passes from groups to their members and holds of the named rules. What is
maintained is upheld by the whole assembly, together with the spelling.
-/

namespace TopDown

variable {rules : Table Rule} {a a' a'' : Assembly}

/-! ### What is spelt -/

/-- **What is written** at a rule that becomes a leaf: the name of its condition and the threshold. -/
inductive Writes (rules : Table Rule) : Path → Rule → String → Option Float → Prop
  /-- A reference writes the name and the threshold, if it is a number. -/
  | reference {p : Path} {name : String} {threshold : Option Threshold} :
      Writes rules p (.reference name threshold) name (threshold.bind Threshold.number?)
  /-- A check that is spelt out goes by the text of its place and has no threshold. -/
  | check {p : Path} {k : Check} : Writes rules p (.check k) p.render none
  /-- A named check goes by its name and has no threshold. -/
  | named {name : String} {k : Check} (hk : rules.lookup name = some (.check k)) :
      Writes rules (rulePath name) (.check k) name none

/-- A reference to a rule that is no check may carry any threshold. -/
theorem Spells.withThreshold {registry : Registry} {nodes : Array Node} {p : Path} {name : String}
    {id : Node.Id} (hname : ¬IsLeafName rules name)
    (h : Spells registry nodes rules p (.reference name none) id) (q : Path)
    (threshold : Option Threshold) : Spells registry nodes rules q (.reference name threshold) id := by
  cases h with
  | leaf hleaf _ _ => exact absurd hleaf hname
  | named hr hk h => exact .named hr hk h

/-- The members of a group, or the rules of a list, have been made into nodes that spell them. -/
def SpellsAll (a : Assembly) (rules : Table Rule) (p : Path) (i : Nat) (rs : List Rule)
    (ids : List Node.Id) : Prop :=
  ids.length = rs.length ∧ ∀ (j : Nat) r id, rs[j]? = some r → ids[j]? = some id →
    Spells a.registry a.nodes rules (p.index (i + j)) r id

theorem SpellsAll.mono {p : Path} {i : Nat} {rs : List Rule} {ids : List Node.Id}
    (hg : Grows a a') (h : SpellsAll a rules p i rs ids) : SpellsAll a' rules p i rs ids :=
  ⟨h.1, fun j r id hr hid => (h.2 j r id hr hid).mono hg⟩

theorem SpellsAll.cons {p : Path} {i : Nat} {r : Rule} {rs : List Rule} {id : Node.Id}
    {ids : List Node.Id} (h : Spells a.registry a.nodes rules (p.index i) r id)
    (hrest : SpellsAll a rules p (i + 1) rs ids) :
    SpellsAll a rules p i (r :: rs) (id :: ids) := by
  refine ⟨by rw [List.length_cons, List.length_cons, hrest.1], fun j r' id' hr' hid' => ?_⟩
  cases j with
  | zero =>
    cases hr'
    cases hid'
    exact h
  | succ j =>
    have := hrest.2 j r' id' hr' hid'
    rwa [Nat.add_assoc, Nat.add_comm 1] at this

/-- Each of the rules has a node that spells it. -/
theorem SpellsAll.exists_spells {p : Path} {i j : Nat} {rs : List Rule} {ids : List Node.Id}
    {r : Rule} (h : SpellsAll a rules p i rs ids) (hr : rs[j]? = some r) :
    ∃ id, Spells a.registry a.nodes rules (p.index (i + j)) r id := by
  obtain ⟨hlt, -⟩ := List.getElem?_eq_some_iff.mp hr
  exact ⟨_, h.2 j r _ hr (List.getElem?_eq_getElem (h.1 ▸ hlt))⟩

theorem SpellsAll.lt_size {p : Path} {i : Nat} {rs : List Rule} {ids : List Node.Id}
    (h : SpellsAll a rules p i rs ids) : ∀ m ∈ ids, m < a.nodes.size := by
  intro m hm
  obtain ⟨j, hj⟩ := List.mem_iff_getElem?.mp hm
  obtain ⟨hlt, -⟩ := List.getElem?_eq_some_iff.mp hj
  exact (h.2 j _ m (List.getElem?_eq_getElem (h.1 ▸ hlt)) hj).lt_size

/-- **The nodes of named rules spell those rules**, and nothing else has a node of its own. -/
def NamedSpelt (rules : Table Rule) (a : Assembly) : Prop :=
  ∀ name id, a.named.lookup name = some id → rules.has name = true ∧
    ∀ p, Spells a.registry a.nodes rules p (.reference name none) id

/-- Named rules stay spelt while none of them is put on record. -/
theorem NamedSpelt.mono (hg : Grows a a') (hsame : a'.named = a.named) (h : NamedSpelt rules a) :
    NamedSpelt rules a' := by
  intro name id hn
  rw [hsame] at hn
  obtain ⟨hhas, hspells⟩ := h name id hn
  exact ⟨hhas, fun p => (hspells p).mono hg⟩

/-- The node of a named rule may be put on record if it spells the rule. -/
theorem NamedSpelt.record (h : NamedSpelt rules a) {name : String} {isGroup : Bool} {id : Node.Id}
    (hhas : rules.has name = true)
    (hspells : ∀ p, Spells a.registry a.nodes rules p (.reference name none) id) :
    NamedSpelt rules
      { a with
        nodes := if isGroup then a.nodes.modify id (Node.relabel name) else a.nodes
        named := Table.put name id a.named } := by
  have hg := grows_record a name isGroup id
  intro n id' hn
  rw [Table.lookup_put] at hn
  split at hn
  · rename_i hname
    cases hn
    subst hname
    exact ⟨hhas, fun p => (hspells p).mono hg⟩
  · obtain ⟨hhas', hspells'⟩ := h n id' hn
    exact ⟨hhas', fun p => (hspells' p).mono hg⟩

/-! ### What is carried along -/

/-- **A statement about assemblies that every single step keeps**, where `P` is known of the rules that
are made at their places. -/
structure Maintained (rules : Table Rule) (P : Path → Rule → Prop) (I : Assembly → Prop) :
    Prop where
  /-- What is known of a group is known of its members. -/
  member : ∀ {p : Path} {q : Quantifier} {rs : List Rule} {i : Nat} {r : Rule}, P p (.group q rs) →
    rs[i]? = some r → P ((p.key q.key).index i) r
  /-- It is known of the named rules. -/
  body : ∀ {name : String} {r : Rule}, rules.lookup name = some r → P (rulePath name) r
  /-- A check that is spelt out is registered. It is not the body of a named rule. -/
  enrol : ∀ {a : Assembly} {p : Path} {k : Check}, I a → P p (.check k) →
    (∀ name, p ≠ rulePath name) →
    I { a with registry := a.registry.register p.render fun c => k.evaluate p.render c }
  /-- A leaf is added for what is written. -/
  leaf : ∀ {a : Assembly} {p : Path} {r : Rule} {name : String} {place : Nat}
    {threshold : Option Float}, I a → P p r → Writes rules p r name threshold →
    I { a with nodes := a.nodes.push (.leaf name place threshold) }
  /-- A group is added with as many members as the rule has. -/
  group : ∀ {a : Assembly} {p : Path} {q : Quantifier} {rs : List Rule} {ids : List Node.Id}, I a →
    P p (.group q rs) → ids.length = rs.length →
    I { a with nodes := a.nodes.push (.group q q.key ids) }
  /-- A named rule is put on record. -/
  record : ∀ {a : Assembly} {name : String} {isGroup : Bool} {id : Node.Id}, I a →
    I { a with
        nodes := if isGroup then a.nodes.modify id (Node.relabel name) else a.nodes
        named := Table.put name id a.named }

/-- The statement holds, and named rules are spelt. -/
structure Holding (I : Assembly → Prop) (rules : Table Rule) (a : Assembly) : Prop where
  /-- The statement. -/
  carried : I a
  /-- The spelling. -/
  named : NamedSpelt rules a

/-- The statement still holds, and the assembly has grown. -/
structure Upheld (I : Assembly → Prop) (rules : Table Rule) (a a' : Assembly) : Prop where
  /-- It holds of the assembly. -/
  holding : Holding I rules a'
  /-- The assembly has grown. -/
  grows : Grows a a'

section Making

variable {P : Path → Rule → Prop} {I : Assembly → Prop}

theorem Upheld.refl (h : Holding I rules a) : Upheld I rules a a :=
  ⟨h, .refl a⟩

theorem Upheld.trans (h : Upheld I rules a a') (h' : Upheld I rules a' a'') :
    Upheld I rules a a'' :=
  ⟨h'.holding, h.grows.trans h'.grows⟩

/-- What is asked of the way to the nodes of named rules. -/
def NamesUpheld (I : Assembly → Prop) (rules : Table Rule)
    (named : String → Path → Assemble Node.Id) : Prop :=
  ∀ name q a id a', Holding I rules a → named name q a = .ok (id, a') →
    Upheld I rules a a' ∧ ∀ p, Spells a'.registry a'.nodes rules p (.reference name none) id

/-- A check that is spelt out is registered under the text of its place. -/
theorem Maintained.upheld_enrol (hI : Maintained rules P I) (h : Holding I rules a) {p : Path}
    {k : Check} (hk : P p (.check k)) (hp : ∀ name, p ≠ rulePath name) : Upheld I rules a
      { a with registry := a.registry.register p.render fun c => k.evaluate p.render c } :=
  have hg := grows_register a p.render k
  ⟨⟨hI.enrol h.carried hk hp, h.named.mono hg rfl⟩, hg⟩

/-- A leaf for what is written stands under the name of its condition. -/
theorem Maintained.upheld_leaf (hI : Maintained rules P I) (h : Holding I rules a) {p q : Path}
    {r : Rule} {name : String} {threshold : Option Float} {id : Node.Id} (hr : P p r)
    (hw : Writes rules p r name threshold)
    (hok : Assemble.leaf name threshold q a = .ok (id, a')) :
    Upheld I rules a a' ∧ ∃ place, a'.registry.place? name = some place ∧
      shapeAt a'.nodes id = some (.leaf name place threshold) := by
  obtain ⟨place, hplace, rfl, rfl⟩ := Assemble.leaf_eq_ok.mp hok
  have hg := grows_push a (.leaf name place threshold)
  exact ⟨⟨⟨hI.leaf h.carried hr hw, h.named.mono hg rfl⟩, hg⟩, place, hplace,
    shapeAt_push_self _ _⟩

mutual

/-- **A rule becomes a node that spells it.** -/
theorem assembleRule_upheld (hI : Maintained rules P I) {named : String → Path → Assemble Node.Id}
    (hnamed : NamesUpheld I rules named) (p : Path) :
    (r : Rule) → P p r → (r.isCheck = true → ∀ name, p ≠ rulePath name) →
      ∀ {a a' : Assembly} {id : Node.Id}, Holding I rules a →
      assembleRule named rules p r a = .ok (id, a') →
      Upheld I rules a a' ∧ Spells a'.registry a'.nodes rules p r id
  | .reference name threshold, hr, _, a, a', id, hb, h => by
    by_cases hname : IsLeafName rules name
    · rw [assembleRule_leaf hname] at h
      obtain ⟨hkept, place, hplace, hid⟩ := hI.upheld_leaf hb hr .reference h
      exact ⟨hkept, .leaf hname hid hplace⟩
    · rw [assembleRule_named hname] at h
      obtain ⟨hkept, hspells⟩ := hnamed name p a id a' hb h
      exact ⟨hkept, (hspells p).withThreshold hname p threshold⟩
  | .group q members, hr, _, a, a', id, hb, h => by
    rw [assembleRule] at h
    obtain ⟨ids, a₁, hids, h⟩ := Assemble.bind_eq_ok.mp h
    obtain ⟨hkept, hall⟩ := assembleMembers_upheld hI hnamed (p.key q.key) 0 members
      (fun j r hj => by
        rw [Nat.zero_add]
        exact hI.member hr hj) hb hids
    cases h
    -- the new node stands behind its members
    have hg := grows_push a₁ (.group q q.key ids)
    have hpush : Upheld I rules a₁ { a₁ with nodes := a₁.nodes.push (.group q q.key ids) } :=
      ⟨⟨hI.group hkept.holding.carried hr hall.1, hkept.holding.named.mono hg rfl⟩, hg⟩
    refine ⟨hkept.trans hpush,
      .group (shapeAt_push_self _ _) hall.lt_size hall.1 fun i r m hj hm => ?_⟩
    have hspells := (hall.2 i r m hj hm).mono hg
    rwa [Nat.zero_add] at hspells
  | .check k, hr, hp, a, a', id, hb, h => by
    rw [assembleRule] at h
    obtain ⟨_, a₁, henrol, h⟩ := Assemble.bind_eq_ok.mp h
    cases henrol
    have henrol := hI.upheld_enrol hb hr (hp rfl)
    obtain ⟨hkept, place, hplace, hid⟩ := hI.upheld_leaf henrol.holding hr .check h
    exact ⟨henrol.trans hkept, .check hid hplace⟩

/-- The members of a group become nodes that spell them. -/
theorem assembleMembers_upheld (hI : Maintained rules P I)
    {named : String → Path → Assemble Node.Id} (hnamed : NamesUpheld I rules named) (p : Path)
    (i : Nat) :
    (rs : List Rule) → (∀ j r, rs[j]? = some r → P (p.index (i + j)) r) →
      ∀ {a a' : Assembly} {ids : List Node.Id}, Holding I rules a →
      assembleMembers named rules p i rs a = .ok (ids, a') →
      Upheld I rules a a' ∧ SpellsAll a' rules p i rs ids
  | [], _, a, a', ids, hb, h => by
    rw [assembleMembers] at h
    obtain ⟨rfl, rfl⟩ := Assemble.pure_eq_ok.mp h
    exact ⟨.refl hb, rfl, fun j r id hr => by cases hr⟩
  | r :: rest, hrs, a, a', ids, hb, h => by
    rw [assembleMembers] at h
    obtain ⟨id, a₁, hid, h⟩ := Assemble.bind_eq_ok.mp h
    obtain ⟨ids', a₂, hids, h⟩ := Assemble.bind_eq_ok.mp h
    obtain ⟨rfl, rfl⟩ := Assemble.pure_eq_ok.mp h
    obtain ⟨hkept, hspells⟩ := assembleRule_upheld hI hnamed (p.index i) r (hrs 0 r rfl)
      (fun _ => index_ne_rulePath p i) hb hid
    obtain ⟨hkept', hall⟩ := assembleMembers_upheld hI hnamed p (i + 1) rest
      (fun j r' hr' => by
        have := hrs (j + 1) r' hr'
        rwa [Nat.add_comm j 1, ← Nat.add_assoc] at this) hkept.holding hids
    exact ⟨hkept.trans hkept', .cons (hspells.mono hkept'.grows) hall⟩

end

/-! ### Named rules and lists -/

/-- **A named rule becomes a node that spells it**, by induction on the named rules that are not
entered. -/
theorem assembleNamed_upheld (hI : Maintained rules P I) (left : Nat) (entered : List String) :
    NamesUpheld I rules (assembleNamed rules left entered) := by
  induction left generalizing entered with
  | zero =>
    intro name q a id a' hb h
    rcases assembleNamed_cases h with ⟨hn, rfl⟩ | ⟨_, _, _, _, hleft, _⟩
    · exact ⟨.refl hb, (hb.named name id hn).2⟩
    · cases hleft
  | succ left ih =>
    intro name q a id a' hb h
    rcases assembleNamed_cases h with ⟨hn, rfl⟩ | ⟨rule, left', a₁, hr, hleft, hrecord, hmade⟩
    · exact ⟨.refl hb, (hb.named name id hn).2⟩
    · obtain rfl : left = left' := Nat.succ.inj hleft
      have hnode : Upheld I rules a a₁ ∧
          ∀ p, Spells a₁.registry a₁.nodes rules p (.reference name none) id := by
        rcases hmade with ⟨k, rfl, hleaf⟩ | ⟨hk, hrule⟩
        · obtain ⟨hkept, place, hplace, hid⟩ := hI.upheld_leaf hb (hI.body hr) (.named hr) hleaf
          refine ⟨hkept, fun p => .leaf (fun r h' => ?_) hid hplace⟩
          rw [hr, Option.some.injEq] at h'
          exact ⟨k, h'.symm⟩
        · obtain ⟨hkept, hspells⟩ :=
            assembleRule_upheld hI (ih (name :: entered)) _ rule (hI.body hr)
              (fun hcheck => absurd hcheck (by rw [hk]; decide)) hb hrule
          exact ⟨hkept, fun p => .named hr hk hspells⟩
      obtain ⟨hkept, hspells⟩ := hnode
      rw [Assemble.record_run] at hrecord
      cases hrecord
      have hg := grows_record a₁ name rule.isGroup id
      have hhas : rules.has name = true := by
        rw [Table.has, hr]
        rfl
      exact ⟨hkept.trans ⟨⟨hI.record hkept.holding.carried,
        hkept.holding.named.record hhas hspells⟩, hg⟩, fun p => (hspells p).mono hg⟩

/-- **Every named rule gets a node** when the named rules are made one after the other. -/
theorem assembleAllNamed_upheld (hI : Maintained rules P I) {names : List String}
    (hb : Holding I rules a) (h : assembleAllNamed rules names a = .ok ((), a')) :
    Upheld I rules a a' ∧ ∀ name ∈ names, (a'.named.lookup name).isSome = true := by
  induction names generalizing a with
  | nil =>
    obtain ⟨-, rfl⟩ := Assemble.pure_eq_ok.mp h
    exact ⟨.refl hb, fun name hn => absurd hn List.not_mem_nil⟩
  | cons name rest ih =>
    obtain ⟨id, a₁, hid, h₁⟩ := Assemble.bind_eq_ok.mp h
    obtain ⟨hkept, -⟩ := assembleNamed_upheld hI _ _ name _ a id a₁ hb hid
    obtain ⟨hkept', hrest⟩ := ih hkept.holding h₁
    refine ⟨hkept.trans hkept', fun n hn => ?_⟩
    rcases List.mem_cons.mp hn with rfl | hn
    · exact hkept'.grows.named n (by rw [assembleNamed_recorded hid]; rfl)
    · exact hrest n hn

/-- **A list of rules becomes a list of nodes that spell them.** -/
theorem assembleList_upheld (hI : Maintained rules P I) {p : Path} {rs : List Rule}
    (hrs : ∀ i r, rs[i]? = some r → P (p.index i) r) (hb : Holding I rules a) {ids : List Node.Id}
    (h : assembleList rules p rs a = .ok (ids, a')) :
    Upheld I rules a a' ∧ SpellsAll a' rules p 0 rs ids :=
  assembleMembers_upheld hI (assembleNamed_upheld hI _ _) p 0 rs
    (fun j r hr => by
      rw [Nat.zero_add]
      exact hrs j r hr) hb h

/-- **What the assembly of a configuration upholds**: every single step keeps the statement, and what
the steps rely on is known of the rules in its lists. -/
structure Upholds (root : Table Json) (rules : Table Rule) (P : Path → Rule → Prop)
    (I : Assembly → Prop) : Prop where
  /-- Single steps keep the statement. -/
  maintained : Maintained rules P I
  /-- Listed rules are of the kind that the steps rely on. -/
  listed : ∀ {p : Path} {rs : List Rule}, ListPlace p → rulesAt root p = some rs →
    ∀ i r, rs[i]? = some r → P (p.index i) r

/-- The rules that are listed at a place become nodes that spell them. -/
theorem Upholds.list {root : Table Json} (hI : Upholds root rules P I) {p : Path} {rs : List Rule}
    (hp : ListPlace p) (hrs : rulesAt root p = some rs) (ha : Holding I rules a)
    {ids : List Node.Id} (h : assembleList rules p rs a = .ok (ids, a')) :
    Upheld I rules a a' ∧ SpellsAll a' rules p 0 rs ids :=
  assembleList_upheld hI.maintained (hI.listed hp hrs) ha h

end Making

end TopDown
