import TopDown.Proofs.Reads
import TopDown.Proofs.Thresholds

/-!
# Checks that go by one name

All checks of a book stand in one registry: a named check under its name, and a check that is spelt
out under the text of its place. A rule may be given any name, also one that looks like a place, and
two places can look alike if they lead through such names. Then several checks go by one name
(`TopDown.GoesBy`), and whichever is registered last is evaluated in all the leaves of that name.

So the leaf of a check need not keep to its check (`TopDown.Book.compile_takenOver`). What holds of
every compiled book is `TopDown.Book.compile_answers`: the leaves of a name all have the same condition,
which is one of the checks that go by the name, and it does not matter which one exactly if these
checks agree in every context. It never matters if the names of rules are plain, since each name then
belongs to one check (`TopDown.GoesBy.unique`).

The invariant is `TopDown.Sourced`. It speaks of the rules that are made into nodes, `TopDown.Taken`,
and not of all that the configuration holds, because a check that is never read takes nothing over.
-/

namespace TopDown

open Assemble

variable {base : Registry} {root : Table Json} {rules : Table Rule} {a a' : Assembly}

/-! ### The rules that are made -/

/-- **The rules that are made into nodes**: the items of the lists that are read, the bodies of named
rules, and the members of groups among them. -/
inductive Taken (root : Table Json) (rules : Table Rule) : Path → Rule → Prop
  /-- An item of a list that is read. -/
  | item {p : Path} {rs : List Rule} {i : Nat} {r : Rule} (hp : ReadAt root p)
      (hrs : rulesAt root p = some rs) (hr : rs[i]? = some r) : Taken root rules (p.index i) r
  /-- The body of a named rule. -/
  | body {name : String} {r : Rule} (hr : rules.lookup name = some r) :
      Taken root rules (rulePath name) r
  /-- A member of a group. -/
  | member {p : Path} {q : Quantifier} {rs : List Rule} {i : Nat} {r : Rule}
      (h : Taken root rules p (.group q rs)) (hr : rs[i]? = some r) :
      Taken root rules ((p.key q.key).index i) r

variable {p : Path} {r : Rule}

theorem Taken.occurs (h : Taken root rules p r) : Occurs root rules p r := by
  induction h with
  | item hp hrs hr => exact .whole (.item hp.listPlace hrs hr)
  | body hr => exact .whole (.body hr)
  | member _ hr ih => exact .member ih hr

/-- A rule that is made is the body of a named rule, or it stands in a row of rules. -/
theorem Taken.body_or_index (h : Taken root rules p r) :
    (∃ name, p = rulePath name) ∨ ∃ q i, p = Path.index q i := by
  cases h with
  | item _ _ _ => exact .inr ⟨_, _, rfl⟩
  | body _ => exact .inl ⟨_, rfl⟩
  | member _ _ => exact .inr ⟨_, _, rfl⟩

/-- **The checks that go by a name**: the rule of that name, and the checks spelt out at the places
that are shown so. -/
inductive GoesBy (root : Table Json) (rules : Table Rule) : String → Check → Prop
  /-- A named check goes by its name. -/
  | named {name : String} {k : Check} (hk : rules.lookup name = some (.check k)) :
      GoesBy root rules name k
  /-- A check that is spelt out goes by the text of its place. -/
  | spelt {name : String} {p : Path} {k : Check} (h : Taken root rules p (.check k))
      (hp : ∀ n, p ≠ rulePath n) (hname : name = p.render) : GoesBy root rules name k

namespace GoesBy

variable {name : String} {k k' : Check}

/-- A check that is spelt out does not go by the name of a condition of the base. -/
theorem find?_eq_none (hbase : ∀ n ∈ base.names, Plain n)
    (hno : ∀ k, rules.lookup name ≠ some (.check k)) (h : GoesBy root rules name k) :
    base.find? name = none := by
  cases h with
  | named hk => exact absurd hk (hno k)
  | spelt htaken hp hname =>
    rcases htaken.body_or_index with ⟨n, hbody⟩ | ⟨q, i, rfl⟩
    · exact absurd hbody (hp n)
    · rw [← Option.not_isSome_iff_eq_none, Registry.find?_isSome, hname]
      exact fun hmem => Path.not_plain_render_index q i (hbase _ hmem)

/-- **If the names of rules are plain, a name belongs to one check.** -/
theorem unique (hnames : PlainNames rules) (h : GoesBy root rules name k)
    (h' : GoesBy root rules name k') : k = k' := by
  have hplain {k : Check} (hk : rules.lookup name = some (.check k)) : Plain name :=
    hnames name (Table.has_iff.mp (by rw [Table.has, hk]; rfl))
  cases h with
  | named hk =>
    cases h' with
    | named hk' =>
      rw [hk, Option.some.injEq] at hk'
      cases hk'
      rfl
    | spelt htaken' _ hname' => exact absurd (hname' ▸ hplain hk) (htaken'.occurs.not_plain hnames)
  | spelt htaken _ hname =>
    cases h' with
    | named hk' => exact absurd (hname ▸ hplain hk') (htaken.occurs.not_plain hnames)
    | spelt htaken' _ hname' =>
      obtain ⟨-, hcheck⟩ :=
        htaken.occurs.eq_of_render hnames htaken'.occurs (hname.symm.trans hname')
      cases hcheck
      rfl

end GoesBy

/-! ### Where conditions and leaves come from -/

/-- **The conditions of the registry are those of checks that go by their names**, or they are of the
base and no named check has their name; and every leaf has what is written at a rule that is made. -/
structure Sourced (base : Registry) (root : Table Json) (rules : Table Rule) (a : Assembly) :
    Prop where
  /-- A condition is that of a check, or of the base. -/
  conditions : ∀ name condition, a.registry.find? name = some condition →
    (∃ k, GoesBy root rules name k ∧ condition = fun c => k.evaluate name c) ∨
      ((∀ k, rules.lookup name ≠ some (.check k)) ∧ base.find? name = some condition)
  /-- Every leaf has the name and the threshold that are written at a rule. -/
  leaves : ∀ id name place threshold,
    shapeAt a.nodes id = some (.leaf name place threshold) →
      ∃ p r, Taken root rules p r ∧ Writes rules p r name threshold

/-- A node may be added if, as a leaf, it has what is written at a rule. -/
theorem Sourced.push (h : Sourced base root rules a) {node : Node}
    (hleaf : ∀ name place threshold, node = .leaf name place threshold →
      ∃ p r, Taken root rules p r ∧ Writes rules p r name threshold) :
    Sourced base root rules { a with nodes := a.nodes.push node } where
  conditions := h.conditions
  leaves id name place threshold hid := by
    rcases shapeAt_push_leaf hid with hid | hnode
    · exact h.leaves id name place threshold hid
    · exact hleaf _ _ _ hnode

/-- A check may be registered under the text of its place, whatever stands there. -/
theorem Sourced.enrol (h : Sourced base root rules a) {k : Check}
    (hk : Taken root rules p (.check k)) (hp : ∀ name, p ≠ rulePath name) :
    Sourced base root rules
      { a with registry := a.registry.register p.render fun c => k.evaluate p.render c } where
  conditions name condition hf := by
    rw [Registry.find?_register] at hf
    split at hf
    · rename_i hname
      subst hname
      rw [Option.some.injEq] at hf
      exact .inl ⟨k, .spelt hk hp rfl, hf.symm⟩
    · exact h.conditions name condition hf
  leaves := h.leaves

/-- **Every single step keeps where conditions and leaves come from.** -/
theorem maintained_sourced :
    Maintained rules (Taken root rules) (Sourced base root rules) where
  member := .member
  body := .body
  enrol h hk hp := h.enrol hk hp
  leaf h hr hw := h.push fun _ _ _ hn => by
    cases hn
    exact ⟨_, _, hr, hw⟩
  group h _ _ := h.push fun _ _ _ hn => by cases hn
  record h :=
    { conditions := h.conditions
      leaves := fun id n place threshold hid => by
        rw [shapeAt_record] at hid
        exact h.leaves id n place threshold hid }

/-- It holds at the beginning, when the named checks have been registered. -/
theorem enrolChecks_sourced (hnodup : rules.names.Nodup)
    (h : enrolChecks rules ⟨base, #[], []⟩ = .ok ((), a')) :
    Holding (Sourced base root rules) rules a' := by
  obtain ⟨hnodes, hnamed, hchecks, hothers⟩ := enrolChecks_eq_ok hnodup h
  refine ⟨⟨fun name condition hf => ?_, fun id name place threshold hid => ?_⟩,
    fun name id hn => ?_⟩
  · by_cases hk : ∃ k, rules.lookup name = some (.check k)
    · obtain ⟨k, hk⟩ := hk
      rw [hchecks name k hk, Option.some.injEq] at hf
      exact .inl ⟨k, .named hk, hf.symm⟩
    · have hno : ∀ k, rules.lookup name ≠ some (.check k) := fun k hk' => hk ⟨k, hk'⟩
      rw [hothers name hno] at hf
      exact .inr ⟨hno, hf⟩
  · rw [hnodes] at hid
    exact absurd (lt_size_of_shapeAt hid) (Nat.not_lt_zero id)
  · rw [hnamed] at hn
    cases hn

/-! ### Every rule has its node -/

/-- The rules that are listed at a place have been made into nodes. -/
def ListMade (root : Table Json) (rules : Table Rule) (p : Path) (a : Assembly) : Prop :=
  ∃ ids, ListSpelt root rules a p ids

theorem ListMade.mono (hg : Grows a a') (h : ListMade root rules p a) :
    ListMade root rules p a' :=
  h.imp fun ids hids => hids.mono hg p ids

/-- A list that is read is made into nodes. -/
theorem assembleList_made {rs : List Rule} {ids : List Node.Id} (hp : ReadAt root p)
    (hrs : rulesAt root p = some rs) (ha : Holding (Sourced base root rules) rules a)
    (h : assembleList rules p rs a = .ok (ids, a')) :
    Visited (Holding (Sourced base root rules) rules) (ListMade root rules) (· = p) a a' := by
  obtain ⟨hkept, hall⟩ := assembleList_upheld maintained_sourced
    (fun _ _ hr => .item hp hrs hr) ha h
  refine ⟨hkept.holding, hkept.grows, ?_⟩
  rintro q rfl
  exact ⟨ids, hp.listPlace, rs, hrs, hall⟩

/-- **All lists that are read and all named rules have been made into nodes.** -/
structure AllMade (root : Table Json) (rules : Table Rule) (a : Assembly) : Prop where
  /-- The lists that are read. -/
  lists : ∀ p, ReadAt root p → ListMade root rules p a
  /-- The named rules. -/
  named : ∀ name, rules.has name = true → ∃ id, ∀ p,
    Spells a.registry a.nodes rules p (.reference name none) id

/-- **Every rule that is made has a node that spells it**, by induction on how the rule is reached. The
body of a named check is set apart, because it stands under the name of the rule. -/
theorem Taken.exists_spells (hmade : AllMade root rules a) (h : Taken root rules p r) :
    (∃ id, Spells a.registry a.nodes rules p r id) ∨ ∃ name k, p = rulePath name ∧ r = .check k := by
  induction h with
  | @item p rs i r hp hrs hr =>
    obtain ⟨ids, -, rs', hrs', hall⟩ := hmade.lists p hp
    rw [hrs, Option.some.injEq] at hrs'
    subst hrs'
    have hs := hall.exists_spells hr
    rw [Nat.zero_add] at hs
    exact .inl hs
  | @body name r hr =>
    obtain ⟨id, hspells⟩ := hmade.named name (by rw [Table.has, hr]; rfl)
    cases hspells (rulePath name) with
    | leaf hname _ _ =>
      obtain ⟨k, rfl⟩ := hname r hr
      exact .inr ⟨name, k, rfl, rfl⟩
    | named hr' _ hs =>
      rw [hr, Option.some.injEq] at hr'
      subst hr'
      exact .inl ⟨id, hs⟩
  | @member p q rs i r _ hr ih =>
    rcases ih with ⟨id, hs⟩ | ⟨_, _, _, hcheck⟩
    · cases hs with
      | group _ _ hlen hmembers =>
        obtain ⟨hlt, -⟩ := List.getElem?_eq_some_iff.mp hr
        exact .inl ⟨_, hmembers i r _ hr (List.getElem?_eq_getElem (hlen ▸ hlt))⟩
    · cases hcheck

/-- **Every check has a leaf** under each name that it goes by. -/
theorem GoesBy.exists_leaf (hmade : AllMade root rules a) {name : String} {k : Check}
    (h : GoesBy root rules name k) :
    ∃ id place, shapeAt a.nodes id = some (.leaf name place none) := by
  cases h with
  | named hk =>
    obtain ⟨id, hspells⟩ := hmade.named name (by rw [Table.has, hk]; rfl)
    cases hspells (rulePath name) with
    | leaf _ hid _ => exact ⟨id, _, hid⟩
    | named hr hcheck _ =>
      rw [hk, Option.some.injEq] at hr
      subst hr
      cases hcheck
  | spelt htaken hp hname =>
    rcases htaken.exists_spells hmade with ⟨id, hs⟩ | ⟨n, _, hbody, -⟩
    · cases hs with
      | check hid _ => exact ⟨id, _, hname ▸ hid⟩
    · exact absurd hbody (hp n)

/-- What the assembly of a whole configuration comes to. -/
theorem Book.compile_sourced {b : Book} (hordered : (Json.obj root).Ordered)
    (h : compile base (.obj root) = .ok b) :
    ∃ rules, parseNamed (ruleBodies root) = .ok rules ∧
      Sourced base root rules ⟨b.registry, b.nodes, b.named⟩ ∧
      AllMade root rules ⟨b.registry, b.nodes, b.named⟩ := by
  obtain ⟨rules, a₁, a₂, a₃, a₄, hparsed, hchecks, hvalidation, hselection, hall, hregistry, hnodes,
    hnamed⟩ := Book.compile_cases h
  have hnodup : rules.names.Nodup := by
    rw [names_of_parseNamed hparsed, ruleBodies_eq]
    exact (Json.ordered_fieldsAt hordered _).nodup
  have hvisited : Visited (Holding (Sourced base root rules) rules) (ListMade root rules)
      (ReadAt root) a₁ a₃ :=
    sections_visited (fun _ {_ _} => ListMade.mono) assembleList_made hordered
      (enrolChecks_sourced hnodup hchecks) hvalidation hselection
  obtain ⟨hkept, hrecorded⟩ := assembleAllNamed_upheld maintained_sourced hvisited.kept hall
  have hbook : (⟨b.registry, b.nodes, b.named⟩ : Assembly) = a₄ := by
    rw [hregistry, hnodes, hnamed]
  rw [hbook]
  refine ⟨rules, hparsed, hkept.holding.carried, fun p hp => ?_, fun name hname => ?_⟩
  · exact (hvisited.settled p hp).mono hkept.grows
  · obtain ⟨id, hid⟩ := Option.isSome_iff_exists.mp (hrecorded name (Table.has_iff.mp hname))
    exact ⟨id, (hkept.holding.named name id hid).2⟩

/-! ### Which check is evaluated -/

/-- **The leaves of a name keep to a check**: they are evaluated as the check is under this name. -/
def Book.KeepsTo (b : Book) (name : String) (k : Check) : Prop :=
  ∀ (id : Node.Id) place threshold, b.nodes[id]? = some (.leaf name place threshold) →
    ∀ c, b.evaluate c id = k.evaluate name c

/-- **What the leaves of a book are evaluated as.** -/
structure Book.Answers (b : Book) (root : Table Json) (rules : Table Rule) : Prop where
  /-- Every check has a leaf under each name that it goes by. -/
  checks : ∀ name k, GoesBy root rules name k →
    ∃ (id : Node.Id) (place : Nat), b.nodes[id]? = some (.leaf name place none)
  /-- Every leaf has what is written at a rule. -/
  leaves : ∀ (id : Node.Id) name place threshold,
    b.nodes[id]? = some (.leaf name place threshold) →
      ∃ p r, Taken root rules p r ∧ Writes rules p r name threshold
  /-- Of the checks that go by a name one is registered, and all leaves of the name keep to it. -/
  stands : ∀ name, (∃ k, GoesBy root rules name k) → ∃ k, GoesBy root rules name k ∧
    b.registry.find? name = some (fun c => k.evaluate name c) ∧ b.KeepsTo name k
  /-- The leaves keep to all checks of their name exactly if these agree. -/
  own : ∀ name, (∀ k, GoesBy root rules name k → b.KeepsTo name k) ↔
    ∀ k k', GoesBy root rules name k → GoesBy root rules name k' →
      ∀ c, k.evaluate name c = k'.evaluate name c
  /-- If the names of rules are plain, every leaf keeps to its check. -/
  plain : PlainNames rules → ∀ name k, GoesBy root rules name k → b.KeepsTo name k

/-- The check that stands under a name. -/
theorem Sourced.exists_standing {b : Book} (hbase : ∀ n ∈ base.names, Plain n) (hb : b.Coherent)
    (hsourced : Sourced base root rules ⟨b.registry, b.nodes, b.named⟩)
    (hmade : AllMade root rules ⟨b.registry, b.nodes, b.named⟩) {name : String} {k : Check}
    (h : GoesBy root rules name k) : ∃ k', GoesBy root rules name k' ∧
      b.registry.find? name = some (fun c => k'.evaluate name c) ∧ b.KeepsTo name k' := by
  obtain ⟨id, place, hid⟩ := h.exists_leaf hmade
  obtain ⟨condition, hf, -⟩ := hb.evaluate_leaf (shapeAt_eq_leaf.mp hid)
  rcases hsourced.conditions name condition hf with ⟨k', hk', rfl⟩ | ⟨hno, hold⟩
  · refine ⟨k', hk', hf, fun id' place' threshold hid' c => ?_⟩
    obtain ⟨condition', hf', heval⟩ := hb.evaluate_leaf hid'
    rw [hf, Option.some.injEq] at hf'
    rw [heval, ← hf']
  · -- the name is the text of a place, so it is none of the base
    rw [h.find?_eq_none hbase hno] at hold
    cases hold

/-- **The leaves of a name are evaluated as one of the checks that go by it**, and as each of them
exactly if they agree in every context. The names in the configuration may be any. -/
theorem Book.compile_answers {b : Book} (hordered : (Json.obj root).Ordered)
    (h : compile .builtin (.obj root) = .ok b) :
    ∃ rules, parseNamed (ruleBodies root) = .ok rules ∧ b.Answers root rules := by
  obtain ⟨rules, hparsed, hsourced, hmade⟩ := compile_sourced hordered h
  have hb := compile_coherent h
  have hchecks : ∀ name k, GoesBy root rules name k →
      ∃ (id : Node.Id) (place : Nat), b.nodes[id]? = some (.leaf name place none) := by
    intro name k hk
    obtain ⟨id, place, hid⟩ := hk.exists_leaf hmade
    exact ⟨id, place, shapeAt_eq_leaf.mp hid⟩
  have hstands : ∀ name, (∃ k, GoesBy root rules name k) → ∃ k, GoesBy root rules name k ∧
      b.registry.find? name = some (fun c => k.evaluate name c) ∧ b.KeepsTo name k :=
    fun name ⟨_, hk⟩ => hsourced.exists_standing plain_builtin hb hmade hk
  have hown : ∀ name, (∀ k, GoesBy root rules name k → b.KeepsTo name k) ↔
      ∀ k k', GoesBy root rules name k → GoesBy root rules name k' →
        ∀ c, k.evaluate name c = k'.evaluate name c := by
    refine fun name => ⟨fun hkeeps k k' hk hk' c => ?_, fun hagree k hk id place threshold hid c => ?_⟩
    · -- both are the verdict of one leaf
      obtain ⟨id, place, hid⟩ := hchecks name k hk
      rw [← hkeeps k hk id place none hid c, ← hkeeps k' hk' id place none hid c]
    · obtain ⟨k', hk', -, hkeeps⟩ := hstands name ⟨k, hk⟩
      rw [hkeeps id place threshold hid c, hagree k k' hk hk' c]
  refine ⟨rules, hparsed, hchecks, fun id name place threshold hid => ?_, hstands, hown,
    fun hnames name k hk => ?_⟩
  · exact hsourced.leaves id name place threshold (shapeAt_eq_leaf.mpr hid)
  · exact (hown name).mpr (fun k k' hk hk' c => by rw [hk.unique hnames hk']) k hk

/-- A configuration with a rule whose name is the text of a place, where another check is spelt out. The
second item of the list refers to the rule. -/
def takenOver : Table Json :=
  [("rules", .obj [("validation.timeframe.1h.long[0]",
      .obj [("gt_fields", .arr [.str "adx", .str "rsi"])])]),
    ("validation", .obj [("timeframe", .obj [("1h", .obj [
      ("long", .arr [.obj [("gt_fields", .arr [.str "rsi", .str "adx"])],
        .str "validation.timeframe.1h.long[0]"])])])])]

/-- Both checks go by the one name, and a leaf of this name is evaluated as one of them. -/
theorem Book.compile_answers_takenOver : ∃ b rules,
    Book.compile .builtin (.obj takenOver) = .ok b ∧
    parseNamed (ruleBodies takenOver) = .ok rules ∧ b.Answers takenOver rules ∧
    GoesBy takenOver rules "validation.timeframe.1h.long[0]" (.fieldOrder .down ["adx", "rsi"]) ∧
    GoesBy takenOver rules "validation.timeframe.1h.long[0]" (.fieldOrder .down ["rsi", "adx"]) := by
  have hcompiles : (Book.compile .builtin (.obj takenOver)).isOk = true := by decide +kernel
  have hordered : (Json.obj takenOver).Ordered := by decide +kernel
  cases h : Book.compile .builtin (.obj takenOver) with
  | error e =>
    rw [h] at hcompiles
    cases hcompiles
  | ok b =>
    obtain ⟨rules, hparsed, hanswers⟩ := Book.compile_answers hordered h
    have hrules : parseNamed (ruleBodies takenOver) = .ok
        [("validation.timeframe.1h.long[0]", .check (.fieldOrder .down ["adx", "rsi"]))] := rfl
    have hread : ReadAt takenOver ((blocksPlace.key "1h").key "long") :=
      .block (by decide) (by decide) (by decide)
    have hlist : rulesAt takenOver ((blocksPlace.key "1h").key "long") =
        some [.check (.fieldOrder .down ["rsi", "adx"]),
          .reference "validation.timeframe.1h.long[0]" none] := rfl
    have hinline : Taken takenOver rules (((blocksPlace.key "1h").key "long").index 0)
        (.check (.fieldOrder .down ["rsi", "adx"])) := .item hread hlist rfl
    refine ⟨b, rules, rfl, hparsed, hanswers, .named ?_,
      .spelt hinline (index_ne_rulePath _ _) (by decide +kernel)⟩
    rw [hrules, Except.ok.injEq] at hparsed
    rw [← hparsed]
    rfl

/-- **The check that is spelt out takes over.** The item that refers to the rule passes, and so does the
rule itself, although its own check fails. -/
theorem Book.compile_takenOver : ∃ b rules,
    Book.compile .builtin (.obj takenOver) = .ok b ∧
    parseNamed (ruleBodies takenOver) = .ok rules ∧
    rulesAt takenOver ((blocksPlace.key "1h").key "long") =
      some [.check (.fieldOrder .down ["rsi", "adx"]),
        .reference "validation.timeframe.1h.long[0]" none] ∧
    (b.blocks .h1).map Block.long = some [0, 1] ∧
    rules.lookup "validation.timeframe.1h.long[0]" =
      some (.check (.fieldOrder .down ["adx", "rsi"])) ∧
    b.named.lookup "validation.timeframe.1h.long[0]" = some 2 ∧
    ((Check.fieldOrder .down ["adx", "rsi"]).evaluate "validation.timeframe.1h.long[0]"
      betweenStandards).passed = false ∧
    (b.evaluate betweenStandards 1).passed = true ∧
    (b.evaluate betweenStandards 2).passed = true := by
  have hrun : ((Book.compile .builtin (.obj takenOver)).toOption.map fun b =>
      ((b.blocks .h1).map Block.long, b.named.lookup "validation.timeframe.1h.long[0]",
        (b.evaluate betweenStandards 1).passed, (b.evaluate betweenStandards 2).passed)) =
      some (some [0, 1], some 2, true, true) := by decide +kernel
  obtain ⟨b, hb, hrun⟩ := Option.map_eq_some_iff.mp hrun
  simp only [Prod.mk.injEq] at hrun
  obtain ⟨hlong, hnamed, hreference, hrule⟩ := hrun
  exact ⟨b, _, toOption_eq_some.mp hb, rfl, rfl, hlong, rfl, hnamed, by decide +kernel, hreference,
    hrule⟩

end TopDown
