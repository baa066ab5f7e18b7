import TopDown.Proofs.Completion
import TopDown.Proofs.Spelling

/-!
# The parts of a book fit together

Checking a rule follows places: from a list to a node, from a group to its members, from a leaf to a
condition. This file shows that the assembly leads no place astray, whatever names the configuration
chooses. A leaf has the place that the registry gives to its name, the members of a group stand
before it, and the node of a named rule is one of the nodes (`TopDown.Assembly.Coherent`).

The invariant has one clause more, which leaves no trace in a book: a named rule that has its node is
*grounded*, no chain of references leads down from it without end. So the assembly is a check for
circles as well.

A step is followed with `TopDown.Assemble.Keeps`, for this invariant or another one, which names the
places that the step relies on and those that it returns. The rules of a list are done in
`TopDown.keeps_assembleList`, and the sections of a configuration in `TopDown.Proofs.Integrity`.
-/

namespace TopDown

/-! ### The invariant -/

/-- **The parts of an assembly fit together.** -/
structure Assembly.Coherent (rules : Table Rule) (a : Assembly) : Prop where
  /-- A leaf has the place of its name. -/
  leaves : ∀ id name place threshold, shapeAt a.nodes id = some (.leaf name place threshold) →
    a.registry.place? name = some place
  /-- The members of a group stand before it. -/
  members : ∀ id q label ids, shapeAt a.nodes id = some (.group q label ids) → ∀ m ∈ ids, m < id
  /-- The node of a named rule is one of the nodes. -/
  named : ∀ name id, a.named.lookup name = some id → id < a.nodes.size
  /-- A named rule that has a node is grounded. -/
  grounded : ∀ name id, a.named.lookup name = some id → Acc (Refers (Rule.table rules)) name

/-- An assembly only becomes longer. -/
theorem Grows.size_le {a a' : Assembly} (h : Grows a a') : a.nodes.size ≤ a'.nodes.size := by
  by_contra hlt
  have hlast : a'.nodes.size < a.nodes.size := Nat.lt_of_not_le hlt
  have hshape : shapeAt a.nodes a'.nodes.size =
      some (Node.relabel "" a.nodes[a'.nodes.size]) := by
    rw [shapeAt, Array.getElem?_eq_getElem hlast]
    rfl
  exact Nat.lt_irrefl _ (lt_size_of_shapeAt (h.nodes _ _ hshape))

namespace Assemble

variable {α β : Type} {I : Assembly → Prop} {rules : Table Rule} {need : List Node.Id}

/-- The places are places of nodes. -/
def Within (ids : List Node.Id) (a : Assembly) : Prop :=
  ∀ id ∈ ids, id < a.nodes.size

theorem Within.mono {ids : List Node.Id} {a a' : Assembly} (hg : Grows a a') (h : Within ids a) :
    Within ids a' :=
  fun id hid => Nat.lt_of_lt_of_le (h id hid) hg.size_le

/-- **The step keeps what holds of the assembly**, and lets it grow: if it succeeds where the needed
places are places of nodes, then so are the places in what it returns. -/
def Keeps (I : Assembly → Prop) (need : List Node.Id) (ids : α → List Node.Id) (x : Assemble α) :
    Prop :=
  ∀ a r a', I a → Within need a → x a = .ok (r, a') → I a' ∧ Grows a a' ∧ Within (ids r) a'

/-- What a step does that needs no places. -/
theorem Keeps.run {ids : α → List Node.Id} {x : Assemble α} (h : Keeps I [] ids x)
    {a a' : Assembly} {r : α} (ha : I a) (hok : x a = .ok (r, a')) :
    I a' ∧ Grows a a' ∧ Within (ids r) a' :=
  h a r a' ha (fun _ hid => absurd hid List.not_mem_nil) hok

theorem Keeps.pure {ids : α → List Node.Id} {r : α} (h : ids r ⊆ need) :
    Keeps I need ids (Pure.pure r : Assemble α) := by
  intro a s a' ha hneed hok
  obtain ⟨rfl, rfl⟩ := pure_eq_ok.mp hok
  exact ⟨ha, .refl _, fun id hid => hneed id (h hid)⟩

theorem Keeps.stop {ids : α → List Node.Id} (e : Stop) :
    Keeps I need ids (throw e : Assemble α) := by
  intro a r a' _ _ hok
  cases hok

/-- A later step may rely on the places that an earlier one returns. -/
theorem Keeps.bind {ids : α → List Node.Id} {ids' : β → List Node.Id} {x : Assemble α}
    {f : α → Assemble β} (hx : Keeps I need ids x)
    (hf : ∀ r, Keeps I (need ++ ids r) ids' (f r)) : Keeps I need ids' (x >>= f) := by
  intro a b a' ha hneed hok
  obtain ⟨r, a₁, hr, hok⟩ := Assemble.bind_eq_ok.mp hok
  obtain ⟨ha₁, hg, hids⟩ := hx a r a₁ ha hneed hr
  have hneed₁ : Within (need ++ ids r) a₁ := by
    intro id hid
    rcases List.mem_append.mp hid with hid | hid
    · exact hneed.mono hg id hid
    · exact hids id hid
  obtain ⟨ha', hg', hids'⟩ := hf r a₁ b a' ha₁ hneed₁ hok
  exact ⟨ha', hg.trans hg', hids'⟩

/-- A step that settles something keeps everything. -/
theorem Settles.keeps {x : Assemble α} (h : Settles x) : Keeps I need (fun _ => []) x := by
  intro a r a' ha _ hok
  rw [h.still hok]
  exact ⟨ha, .refl _, fun id hid => absurd hid List.not_mem_nil⟩

/-! ### Single steps -/

/-- A node whose members are places of nodes may be added behind them. -/
theorem Coherent.push {a : Assembly} (ha : a.Coherent rules) {node : Node}
    (hleaf : ∀ name place threshold, node = .leaf name place threshold →
      a.registry.place? name = some place)
    (hmembers : ∀ q label ids, node = .group q label ids → Within ids a) :
    Assembly.Coherent rules { a with nodes := a.nodes.push node } where
  leaves id name place threshold hid := by
    rcases shapeAt_push hid with hid | ⟨-, hnode⟩
    · exact ha.leaves id name place threshold hid
    · cases node with
      | leaf _ _ _ =>
        cases hnode
        exact hleaf _ _ _ rfl
      | group _ _ _ => cases hnode
  members id q label ids hid := by
    rcases shapeAt_push hid with hid | ⟨rfl, hnode⟩
    · exact ha.members id q label ids hid
    · cases node with
      | leaf _ _ _ => cases hnode
      | group _ _ _ =>
        cases hnode
        exact hmembers _ _ _ rfl
  named name id hn := Nat.lt_of_lt_of_le (ha.named name id hn) (grows_push a node).size_le
  grounded := ha.grounded

theorem keeps_enrol (name : String) (check : Check) :
    Keeps (Assembly.Coherent rules) need (fun _ => []) (enrol name check) := by
  intro a r a' ha _ hok
  cases hok
  refine ⟨⟨fun id n place threshold hid => ?_, ha.members, ha.named, ha.grounded⟩,
    grows_register a name _, fun id hid => absurd hid List.not_mem_nil⟩
  exact Registry.place?_register (ha.leaves id n place threshold hid)

theorem keeps_leaf (name : String) (threshold : Option Float) (p : Path) :
    Keeps (Assembly.Coherent rules) need (fun id => [id]) (leaf name threshold p) := by
  intro a id a' ha _ hok
  obtain ⟨place, hplace, rfl, rfl⟩ := leaf_eq_ok.mp hok
  refine ⟨Coherent.push ha ?_ ?_, grows_push a _, ?_⟩
  · rintro _ _ _ ⟨⟩
    exact hplace
  · rintro _ _ _ ⟨⟩
  · intro id hid
    rw [List.mem_singleton.mp hid, Array.size_push]
    exact Nat.lt_succ_self _

theorem keeps_pushGroup (q : Quantifier) (label : String) {ids : List Node.Id} (h : ids ⊆ need) :
    Keeps (Assembly.Coherent rules) need (fun id => [id]) (push (.group q label ids)) := by
  intro a id a' ha hneed hok
  cases hok
  refine ⟨Coherent.push ha ?_ ?_, grows_push a _, ?_⟩
  · rintro _ _ _ ⟨⟩
  · rintro _ _ _ ⟨⟩
    exact fun m hm => hneed m (h hm)
  · intro id hid
    rw [List.mem_singleton.mp hid, Array.size_push]
    exact Nat.lt_succ_self _

/-- A named rule is put on record once it is known to be grounded. -/
theorem Coherent.record {a a' : Assembly} (ha : a.Coherent rules) {name : String} {isGroup : Bool}
    {id : Node.Id} (hid : id < a.nodes.size) (hacc : Acc (Refers (Rule.table rules)) name)
    (hok : record name isGroup id a = .ok ((), a')) :
    a'.Coherent rules ∧ Grows a a' ∧ id < a'.nodes.size := by
  rw [record_run] at hok
  cases hok
  have hg := grows_record a name isGroup id
  have hlt : id < _ := Nat.lt_of_lt_of_le hid hg.size_le
  refine ⟨⟨fun m n place threshold hm => ?_, fun m q label ids hm => ?_, fun n m hn => ?_,
    fun n m hn => ?_⟩, hg, hlt⟩
  · rw [shapeAt_record] at hm
    exact ha.leaves m n place threshold hm
  · rw [shapeAt_record] at hm
    exact ha.members m q label ids hm
  · rw [Table.lookup_put] at hn
    split at hn
    · cases hn
      exact hlt
    · exact Nat.lt_of_lt_of_le (ha.named n m hn) hg.size_le
  · rw [Table.lookup_put] at hn
    split at hn
    · rename_i hname
      subst hname
      exact hacc
    · exact ha.grounded n m hn

end Assemble

open Assemble

variable {rules : Table Rule} {need : List Node.Id}

/-! ### Rules -/

/-- Naming a rule keeps the assembly coherent, and tells that the rule is grounded. -/
def KeepsNamed (rules : Table Rule) (named : String → Path → Assemble Node.Id) : Prop :=
  ∀ name p a id a', a.Coherent rules → named name p a = .ok (id, a') →
    (a'.Coherent rules ∧ Grows a a' ∧ id < a'.nodes.size) ∧ Acc (Refers (Rule.table rules)) name

/-- A name that becomes a leaf refers to nothing. -/
theorem acc_of_isLeafName {name : String} (h : IsLeafName rules name) :
    Acc (Refers (Rule.table rules)) name := by
  refine Acc.intro _ ?_
  rintro next ⟨hnext, -⟩
  rw [Rule.table, Table.lookup_mapValues] at hnext
  cases hr : rules.lookup name with
  | none =>
    rw [hr] at hnext
    exact absurd hnext List.not_mem_nil
  | some r =>
    obtain ⟨k, rfl⟩ := h r hr
    rw [hr] at hnext
    exact absurd hnext List.not_mem_nil

mutual

/-- **Making the node of a rule** keeps the assembly coherent, and everything that the rule refers to
is grounded. -/
theorem assembleRule_keeps {named : String → Path → Assemble Node.Id}
    (hnamed : KeepsNamed rules named) (p : Path) :
    (r : Rule) → ∀ a id a', a.Coherent rules → assembleRule named rules p r a = .ok (id, a') →
      (a'.Coherent rules ∧ Grows a a' ∧ id < a'.nodes.size) ∧
        ∀ n ∈ r.references, Acc (Refers (Rule.table rules)) n
  | .reference name threshold => by
    intro a id a' ha hok
    by_cases hname : IsLeafName rules name
    · rw [assembleRule_leaf hname] at hok
      obtain ⟨ha', hg, hid⟩ := (keeps_leaf _ _ _).run ha hok
      refine ⟨⟨ha', hg, hid id (List.mem_singleton_self id)⟩, fun n hn => ?_⟩
      rw [List.mem_singleton.mp hn]
      exact acc_of_isLeafName hname
    · rw [assembleRule_named hname] at hok
      obtain ⟨hkept, hacc⟩ := hnamed name p a id a' ha hok
      refine ⟨hkept, fun n hn => ?_⟩
      rw [List.mem_singleton.mp hn]
      exact hacc
  | .group q members => by
    intro a id a' ha hok
    rw [assembleRule] at hok
    obtain ⟨ids, a₁, hids, hok⟩ := Assemble.bind_eq_ok.mp hok
    obtain ⟨⟨ha₁, hg, hwithin⟩, hacc⟩ := assembleMembers_keeps hnamed _ 0 members a ids a₁ ha hids
    obtain ⟨ha', hg', hid⟩ :=
      keeps_pushGroup q q.key (List.Subset.refl ids) a₁ id a' ha₁ hwithin hok
    exact ⟨⟨ha', hg.trans hg', hid id (List.mem_singleton_self id)⟩, hacc⟩
  | .check k => by
    intro a id a' ha hok
    rw [assembleRule] at hok
    obtain ⟨ha', hg, hid⟩ :=
      ((keeps_enrol p.render k).bind fun _ => keeps_leaf p.render none p).run ha hok
    exact ⟨⟨ha', hg, hid id (List.mem_singleton_self id)⟩, fun n hn => absurd hn List.not_mem_nil⟩

/-- So does making the nodes of the members of a group. -/
theorem assembleMembers_keeps {named : String → Path → Assemble Node.Id}
    (hnamed : KeepsNamed rules named) (p : Path) (i : Nat) :
    (rs : List Rule) → ∀ a ids a', a.Coherent rules →
      assembleMembers named rules p i rs a = .ok (ids, a') →
      (a'.Coherent rules ∧ Grows a a' ∧ Within ids a') ∧
        ∀ n ∈ Rule.referencesOfAll rs, Acc (Refers (Rule.table rules)) n
  | [] => by
    intro a ids a' ha hok
    rw [assembleMembers] at hok
    obtain ⟨rfl, rfl⟩ := pure_eq_ok.mp hok
    exact ⟨⟨ha, .refl _, fun id hid => absurd hid List.not_mem_nil⟩,
      fun n hn => absurd hn List.not_mem_nil⟩
  | r :: rest => by
    intro a ids a' ha hok
    rw [assembleMembers] at hok
    obtain ⟨id, a₁, hid, hok⟩ := Assemble.bind_eq_ok.mp hok
    obtain ⟨ids', a₂, hids, hok⟩ := Assemble.bind_eq_ok.mp hok
    obtain ⟨rfl, rfl⟩ := pure_eq_ok.mp hok
    obtain ⟨⟨ha₁, hg, hlt⟩, hacc⟩ := assembleRule_keeps hnamed _ r a id a₁ ha hid
    obtain ⟨⟨ha₂, hg', hwithin⟩, hacc'⟩ :=
      assembleMembers_keeps hnamed p (i + 1) rest a₁ ids' _ ha₁ hids
    refine ⟨⟨ha₂, hg.trans hg', ?_⟩, ?_⟩
    · intro m hm
      rcases List.mem_cons.mp hm with rfl | hm
      · exact Nat.lt_of_lt_of_le hlt hg'.size_le
      · exact hwithin m hm
    · intro n hn
      rcases List.mem_append.mp hn with hn | hn
      · exact hacc n hn
      · exact hacc' n hn

end

/-! ### Named rules -/

/-- **Making the node of a named rule** keeps the assembly coherent: by the time the rule is put on
record, everything that it refers to is grounded, and so is the rule. -/
theorem assembleNamed_keeps (left : Nat) (entered : List String) :
    KeepsNamed rules (assembleNamed rules left entered) := by
  induction left generalizing entered with
  | zero =>
    intro name p a id a' ha hok
    rcases assembleNamed_cases hok with ⟨hn, rfl⟩ | ⟨_, left', _, _, hleft, _⟩
    · exact ⟨⟨ha, .refl _, ha.named name id hn⟩, ha.grounded name id hn⟩
    · cases hleft
  | succ left ih =>
    intro name p a id a' ha hok
    rcases assembleNamed_cases hok with ⟨hn, rfl⟩ | ⟨rule, left', a₁, hrule, hleft, hrecord, hbody⟩
    · exact ⟨⟨ha, .refl _, ha.named name id hn⟩, ha.grounded name id hn⟩
    · obtain rfl : left = left' := Nat.succ.inj hleft
      -- what the body tells about itself and about its references
      have hmade : (a₁.Coherent rules ∧ Grows a a₁ ∧ id < a₁.nodes.size) ∧
          Acc (Refers (Rule.table rules)) name := by
        rcases hbody with ⟨k, rfl, hleaf⟩ | ⟨-, hmake⟩
        · obtain ⟨ha₁, hg, hid⟩ := (keeps_leaf _ _ _).run ha hleaf
          refine ⟨⟨ha₁, hg, hid id (List.mem_singleton_self id)⟩, acc_of_isLeafName ?_⟩
          intro r hr
          rw [hrule, Option.some.injEq] at hr
          exact ⟨k, hr.symm⟩
        · -- everything below the rule is grounded, and so is the rule
          obtain ⟨hkept, hacc⟩ := assembleRule_keeps (ih (name :: entered)) _ rule a id a₁ ha hmake
          refine ⟨hkept, Acc.intro _ ?_⟩
          rintro next ⟨hnext, -⟩
          rw [Rule.table, Table.lookup_mapValues, hrule] at hnext
          exact hacc next hnext
      obtain ⟨⟨ha₁, hg, hid⟩, hacc⟩ := hmade
      obtain ⟨ha', hg', hid'⟩ := Coherent.record ha₁ hid hacc hrecord
      exact ⟨⟨ha', hg.trans hg', hid'⟩, hacc⟩

/-- A list of rules becomes a list of places of nodes. -/
theorem keeps_assembleList (p : Path) (list : List Rule) :
    Keeps (Assembly.Coherent rules) need (fun ids => ids) (assembleList rules p list) :=
  fun a ids a' ha _ hok =>
    (assembleMembers_keeps (assembleNamed_keeps rules.length []) p 0 list a ids a' ha hok).1

/-- Every named rule is grounded once all of them have been made. -/
theorem assembleAllNamed_keeps {names : List String} {a a' : Assembly} (ha : a.Coherent rules)
    (hok : assembleAllNamed rules names a = .ok ((), a')) :
    a'.Coherent rules ∧ Grows a a' ∧ ∀ name ∈ names, Acc (Refers (Rule.table rules)) name := by
  induction names generalizing a with
  | nil =>
    obtain ⟨-, rfl⟩ := pure_eq_ok.mp hok
    exact ⟨ha, .refl _, fun name hn => absurd hn List.not_mem_nil⟩
  | cons name rest ih =>
    obtain ⟨id, a₁, hid, hok⟩ := Assemble.bind_eq_ok.mp hok
    obtain ⟨⟨ha₁, hg, -⟩, hacc⟩ := assembleNamed_keeps _ _ name _ a id a₁ ha hid
    obtain ⟨ha', hg', hrest⟩ := ih ha₁ hok
    refine ⟨ha', hg.trans hg', fun n hn => ?_⟩
    rcases List.mem_cons.mp hn with rfl | hn
    · exact hacc
    · exact hrest n hn

end TopDown
