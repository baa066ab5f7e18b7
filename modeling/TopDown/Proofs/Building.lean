import TopDown.Proofs.Making
import TopDown.Proofs.Meaning

/-!
# The assembly keeps what is written

While rules become nodes, the registry grows by the checks that are spelt out in place. This file
keeps track of it. `TopDown.Enrolled` tells which conditions a registry has under which names, and
`TopDown.Built` adds that the nodes of named rules spell those rules and that every leaf has the
threshold that is written where it comes from.

Where the names are plain, every single step keeps what the registry has and what the leaves say
(`TopDown.maintained_rooted`), so that the whole assembly upholds the invariant
(`TopDown.PlainBook.upholds`).
-/

namespace TopDown

/-! ### The registry -/

/-- **The conditions of a registry**: a named check stands under its name, in the place of a condition
of that name; other conditions are those of the base, and checks under the texts of their places. -/
structure Enrolled (base : Registry) (root : Table Json) (rules : Table Rule) (r : Registry) :
    Prop where
  /-- Named checks are registered. -/
  checks : ∀ name k, rules.lookup name = some (.check k) →
    r.find? name = some fun c => k.evaluate name c
  /-- Conditions of the base are kept, unless a check has their name. -/
  kept : ∀ name condition, (∀ k, rules.lookup name ≠ some (.check k)) →
    base.find? name = some condition → r.find? name = some condition
  /-- There is nothing else but checks that are spelt out. -/
  origin : ∀ name condition, (∀ k, rules.lookup name ≠ some (.check k)) →
    r.find? name = some condition → base.find? name = some condition ∨
      ∃ p k, Occurs root rules p (.check k) ∧ name = p.render ∧
        condition = fun c => k.evaluate name c

variable {base : Registry} {root : Table Json} {rules : Table Rule}

/-- The names that a configuration chooses and those of the base are plain, so that none of them is
the text of a place. -/
structure PlainBook (base : Registry) (rules : Table Rule) : Prop where
  /-- The names of conditions are plain. -/
  base : ∀ name ∈ base.names, Plain name
  /-- The names of rules are plain. -/
  rules : PlainNames rules

namespace PlainBook

variable (hplain : PlainBook base rules) {p : Path} {k : Check}
include hplain

theorem lookup_render (hocc : Occurs root rules p (.check k)) : rules.lookup p.render = none := by
  cases hr : rules.lookup p.render with
  | none => rfl
  | some r =>
    refine absurd (hplain.rules p.render ?_) (hocc.not_plain hplain.rules)
    exact Table.has_iff.mp (by rw [Table.has, hr]; rfl)

theorem find?_render (hocc : Occurs root rules p (.check k)) : base.find? p.render = none := by
  cases hb : base.find? p.render with
  | none => rfl
  | some condition =>
    refine absurd (hplain.base p.render ?_) (hocc.not_plain hplain.rules)
    exact List.mem_map.mpr ⟨_, Table.mem_of_lookup hb, rfl⟩

/-- A check that is spelt out may be registered under the text of its place. -/
theorem enrol {r : Registry} (h : Enrolled base root rules r)
    (hocc : Occurs root rules p (.check k)) :
    Enrolled base root rules (r.register p.render fun c => k.evaluate p.render c) where
  checks name k' hk' := by
    have hne : name ≠ p.render := fun hname => by
      rw [hname, hplain.lookup_render hocc] at hk'
      cases hk'
    rw [Registry.find?_register, if_neg hne]
    exact h.checks name k' hk'
  kept name condition hno hb := by
    have hne : name ≠ p.render := fun hname => by
      rw [hname, hplain.find?_render hocc] at hb
      cases hb
    rw [Registry.find?_register, if_neg hne]
    exact h.kept name condition hno hb
  origin name condition hno hf := by
    rw [Registry.find?_register] at hf
    split at hf
    · rename_i hname
      subst hname
      rw [Option.some.injEq] at hf
      exact .inr ⟨p, k, hocc, rfl, hf.symm⟩
    · exact h.origin name condition hno hf

/-- **Under the text of a place stands the check of that place.** -/
theorem eq_of_find?_render {r : Registry} (h : Enrolled base root rules r)
    (hocc : Occurs root rules p (.check k)) {condition : Condition}
    (hf : r.find? p.render = some condition) : condition = fun c => k.evaluate p.render c := by
  have hno : ∀ k', rules.lookup p.render ≠ some (.check k') := fun k' hk' => by
    rw [hplain.lookup_render hocc] at hk'
    cases hk'
  rcases h.origin p.render condition hno hf with hb | ⟨p', k', hocc', hname, rfl⟩
  · rw [hplain.find?_render hocc] at hb
    cases hb
  · obtain ⟨-, hk⟩ := hocc.eq_of_render hplain.rules hocc' hname
    cases hk
    rfl

end PlainBook

/-! ### The invariant -/

/-- **What holds of an assembly at all times.** -/
structure Built (base : Registry) (root : Table Json) (rules : Table Rule) (a : Assembly) :
    Prop where
  /-- The registry has the conditions it should have. -/
  registry : Enrolled base root rules a.registry
  /-- Every leaf has the name and the threshold that are written in the configuration. -/
  leaves : ∀ id name place threshold,
    shapeAt a.nodes id = some (.leaf name place threshold) →
      ∃ p r, Occurs root rules p r ∧ Writes rules p r name threshold
  /-- The nodes of named rules spell those rules. -/
  named : ∀ name id, a.named.lookup name = some id → rules.has name = true ∧
    ∀ p, Spells a.registry a.nodes rules p (.reference name none) id

variable {a : Assembly}

/-! ### Every step keeps it -/

/-- **What the registry has and what the leaves say**: the invariant without the spelling. -/
structure Rooted (base : Registry) (root : Table Json) (rules : Table Rule) (a : Assembly) :
    Prop where
  /-- The registry has the conditions it should have. -/
  registry : Enrolled base root rules a.registry
  /-- Every leaf has the name and the threshold that are written in the configuration. -/
  leaves : ∀ id name place threshold,
    shapeAt a.nodes id = some (.leaf name place threshold) →
      ∃ p r, Occurs root rules p r ∧ Writes rules p r name threshold

theorem built_iff : Built base root rules a ↔ Holding (Rooted base root rules) rules a :=
  ⟨fun h => ⟨⟨h.registry, h.leaves⟩, h.named⟩,
    fun h => ⟨h.carried.registry, h.carried.leaves, h.named⟩⟩

/-- A node may be added if, as a leaf, it has what is written somewhere. -/
theorem Rooted.push (h : Rooted base root rules a) {node : Node}
    (hleaf : ∀ name place threshold, node = .leaf name place threshold →
      ∃ p r, Occurs root rules p r ∧ Writes rules p r name threshold) :
    Rooted base root rules { a with nodes := a.nodes.push node } where
  registry := h.registry
  leaves id name place threshold hid := by
    rcases shapeAt_push_leaf hid with hid | hnode
    · exact h.leaves id name place threshold hid
    · exact hleaf _ _ _ hnode

/-- **Every single step keeps what the registry has and what the leaves say**, while rules of the
configuration are made. -/
theorem maintained_rooted (hplain : PlainBook base rules) :
    Maintained rules (Occurs root rules) (Rooted base root rules) where
  member := .member
  body hr := .whole (.body hr)
  enrol h hocc _ := ⟨hplain.enrol h.registry hocc, h.leaves⟩
  leaf h hocc hw := h.push fun _ _ _ hn => by
    cases hn
    exact ⟨_, _, hocc, hw⟩
  group h _ _ := h.push fun _ _ _ hn => by cases hn
  record h :=
    { registry := h.registry
      leaves := fun id n place threshold hid => by
        rw [shapeAt_record] at hid
        exact h.leaves id n place threshold hid }

/-- So the whole assembly upholds it. -/
theorem PlainBook.upholds (hplain : PlainBook base rules) :
    Upholds root rules (Occurs root rules) (Rooted base root rules) where
  maintained := maintained_rooted hplain
  listed hp hrs _ _ hr := .whole (.item hp hrs hr)

end TopDown
