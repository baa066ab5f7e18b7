import TopDown.Proofs.Building

/-!
# Checking a node is reading its rule

A node that spells a rule is checked to the verdict to which the rule is read
(`TopDown.evaluate_ruling_iff`): the shared nodes, the places in the registry and the conditions that
stand for checks leave no trace in it. The rule must be one of the configuration, and the assembly
one that has kept its invariant. A name that such a rule reaches is known, or it is the text of the
place of a check (`TopDown.Spells.grounded`).
-/

namespace TopDown

variable {base : Registry} {root : Table Json} {rules : Table Rule} {b : Book} {c : Context}

theorem evaluate_leaf {id : Node.Id} {name : String} {place : Nat} {threshold : Option Float}
    {condition : Condition} (hid : shapeAt b.nodes id = some (.leaf name place threshold))
    (hplace : b.registry.place? name = some place)
    (hf : b.registry.find? name = some condition) : b.evaluate c id = condition c := by
  rw [Book.evaluate, shapeAt_eq_leaf.mp hid]
  simp only [Registry.evaluateAt, Registry.at?_of_place? hplace, hf]

theorem evaluate_group {id : Node.Id} {q : Quantifier} {l : String} {ids : List Node.Id}
    (hid : shapeAt b.nodes id = some (.group q l ids)) (hlt : ∀ m ∈ ids, m < id) :
    (b.evaluate c id).ruling =
      Ruling.ofMembers q (ids.map fun m => (b.evaluate c m).ruling) := by
  obtain ⟨label, hnode⟩ := shapeAt_eq_group hid
  rw [Book.evaluate, hnode]
  simp only
  rw [ruling_combine, List.map_map]
  refine congrArg _ (List.map_congr_left fun m hm => ?_)
  simp only [Function.comp_apply, dif_pos (hlt m hm)]

theorem exists_find? {r : Registry} {name : String} {place : Nat}
    (h : r.place? name = some place) : ∃ condition, r.find? name = some condition :=
  Option.isSome_iff_exists.mp (Registry.find?_isSome.mpr (Registry.place?_isSome.mp (by rw [h]; rfl)))

/-- **A grounded rule comes to what its node is checked to.** It stands in the configuration, or it is
a reference, which may stand anywhere. -/
theorem means_evaluate (hplain : PlainBook base rules)
    (henrolled : Enrolled base root rules b.registry) {p : Path} {r : Rule} {id : Node.Id}
    (hocc : Occurs root rules p r ∨ ∃ name threshold, r = .reference name threshold)
    (hs : Spells b.registry b.nodes rules p r id) (hg : Grounded (Known base rules) rules r) :
    Means base rules c p r (b.evaluate c id).ruling := by
  induction hs with
  | @leaf p name threshold id place hname hid hplace =>
    cases hr : rules.lookup name with
    | none =>
      have hmem : name ∈ base.names := by
        rcases (grounded_reference.mp hg).1 with h | h
        · rw [Table.has, hr] at h
          cases h
        · exact h
      obtain ⟨condition, hb⟩ := Option.isSome_iff_exists.mp (Registry.find?_isSome.mpr hmem)
      have hf := henrolled.kept name condition (fun k hk => by rw [hr] at hk; cases hk) hb
      rw [evaluate_leaf hid hplace hf]
      exact .condition hr hb
    | some r =>
      obtain ⟨k, rfl⟩ := hname r hr
      rw [evaluate_leaf hid hplace (henrolled.checks name k hr)]
      exact .namedCheck hr
  | named hr hk _ ih =>
    exact .named hr hk (ih (.inl (.whole (.body hr))) ((grounded_reference.mp hg).2 _ hr))
  | @check p k id place hid hplace =>
    rcases hocc with hocc | ⟨_, _, hr⟩
    · obtain ⟨condition, hf⟩ := exists_find? hplace
      obtain rfl := hplain.eq_of_find?_render henrolled hocc hf
      rw [evaluate_leaf hid hplace hf]
      exact .check
    · cases hr
  | @group p q rs id ids hid hlt hlen _ ih =>
    rcases hocc with hocc | ⟨_, _, hr⟩
    · rw [evaluate_group hid hlt]
      refine .group (by rw [List.length_map, hlen]) fun i r v hr hv => ?_
      rw [List.getElem?_map, Option.map_eq_some_iff] at hv
      obtain ⟨m, hm, rfl⟩ := hv
      exact ih i r m hr hm (.inl (.member hocc hr))
        (grounded_group.mp hg r (List.mem_of_getElem? hr))
    · cases hr

/-- **What a rule comes to** is what its node is checked to, if it is grounded, and nothing
otherwise. -/
theorem evaluate_ruling_iff (hplain : PlainBook base rules)
    (henrolled : Enrolled base root rules b.registry) {p : Path} {r : Rule} {id : Node.Id}
    (hocc : Occurs root rules p r ∨ ∃ name threshold, r = .reference name threshold)
    (hs : Spells b.registry b.nodes rules p r id) (v : Ruling) :
    Means base rules c p r v ↔
      Grounded (Known base rules) rules r ∧ (b.evaluate c id).ruling = v := by
  constructor
  · intro h
    exact ⟨h.grounded, (means_evaluate hplain henrolled hocc hs h.grounded).unique h⟩
  · rintro ⟨hg, rfl⟩
    exact means_evaluate hplain henrolled hocc hs hg

/-- The text of the place of a check that is spelt out. -/
def IsPlaceText (root : Table Json) (rules : Table Rule) (n : String) : Prop :=
  ∃ p k, Occurs root rules p (.check k) ∧ n = p.render

/-- **Names that a spelt rule reaches** are known, or they are texts of places: while rules become
nodes, the checks that are spelt out stand in the registry among the conditions. -/
theorem Spells.grounded (henrolled : Enrolled base root rules b.registry) {p : Path} {r : Rule}
    {id : Node.Id} (hs : Spells b.registry b.nodes rules p r id) :
    Grounded (fun n => Known base rules n ∨ IsPlaceText root rules n) rules r := by
  induction hs with
  | @leaf p name threshold id place hname _ hplace =>
    refine grounded_reference.mpr ⟨?_, fun body hr => ?_⟩
    · cases hr : rules.lookup name with
      | some r => exact .inl (.inl (by rw [Table.has, hr]; rfl))
      | none =>
        obtain ⟨condition, hf⟩ := exists_find? hplace
        rcases henrolled.origin name condition (fun k hk => by rw [hr] at hk; cases hk) hf with
          hb | ⟨q, k, hocc, hn, -⟩
        · exact .inl (.inr (Registry.find?_isSome.mp (by rw [hb]; rfl)))
        · exact .inr ⟨q, k, hocc, hn⟩
    · obtain ⟨k, rfl⟩ := hname body hr
      exact grounded_check k
  | @named _ name _ _ body hr _ _ ih =>
    refine grounded_reference.mpr ⟨.inl (.inl (by rw [Table.has, hr]; rfl)), fun body' hr' => ?_⟩
    rw [hr, Option.some.injEq] at hr'
    rw [← hr']
    exact ih
  | check _ _ => exact grounded_check _
  | @group p q rs id ids _ _ hlen _ ih =>
    refine grounded_group.mpr fun r hr => ?_
    obtain ⟨i, hi⟩ := List.mem_iff_getElem?.mp hr
    obtain ⟨hlt, -⟩ := List.getElem?_eq_some_iff.mp hi
    exact ih i r _ hi (List.getElem?_eq_getElem (hlen ▸ hlt))

end TopDown
