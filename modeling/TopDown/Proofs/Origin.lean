import TopDown.Proofs.Integrity

/-!
# Nodes are made of rules

Whatever names a configuration chooses, the nodes of a book spell its rules. Here one thing is carried
along with the spelling: a group has members. The reader of rules refuses one without, at every depth
(`TopDown.Rule.full_of_parse`), and full rules become nodes that are full
(`TopDown.maintained_full`). So the nodes of a list spell its items one by one, and none of them is an
empty group (`TopDown.assembleList_spelt`); and this holds of the whole book
(`TopDown.Book.compile_spelt`), where every list stands for one of the configuration
(`TopDown.Book.compile_lists`).
-/

namespace TopDown

/-! ### Groups have members -/

mutual

/-- **Every group in the rule has members.** -/
def Rule.Full : Rule → Prop
  | .reference _ _ => True
  | .group _ members => members ≠ [] ∧ Rule.FullAll members
  | .check _ => True

/-- Every group in the rules has members. -/
def Rule.FullAll : List Rule → Prop
  | [] => True
  | r :: rest => r.Full ∧ Rule.FullAll rest

end

namespace Rule

/-- A rule that is no group is full. -/
theorem full_of_leaf {p : Path} {v : Json} {r : Rule} (h : ReadAsLeaf p v r) : r.Full := by
  rcases h with ⟨name, threshold, rfl, -⟩ | ⟨_, k, -, -, rfl⟩
  · exact trivial
  · exact trivial

mutual

/-- **A rule that is read is full.** -/
theorem full_of_parse {p : Path} {r : Rule} : (v : Json) → parse p v = .ok r → r.Full
  | .arr items, h => by
    rw [parse] at h
    obtain ⟨rs, hrs, rfl⟩ := map_eq_ok.mp h
    exact fullAll_of_parseMembers items hrs
  | .obj [(key, value)], h => by
    rw [parse] at h
    cases hq : quantifierOf? key with
    | none =>
      rw [hq] at h
      exact full_of_leaf (parseObject_ok h)
    | some q =>
      rw [hq] at h
      cases value with
      | arr items =>
        obtain ⟨rs, hrs, rfl⟩ := map_eq_ok.mp h
        exact fullAll_of_parseMembers items hrs
      | null | bool _ | int _ | real _ | str _ | obj _ => cases h
  | .obj [], h => by
    simp only [parse] at h
    split at h
    · cases h
    · exact full_of_leaf (parseObject_ok h)
  | .obj (e :: e' :: rest), h => by
    simp only [parse] at h
    split at h
    · cases h
    · exact full_of_leaf (parseObject_ok h)
  | .null, h | .bool _, h | .int _, h | .real _, h | .str _, h => by
    simp only [parse] at h
    exact full_of_leaf (parseLeaf_ok h)

/-- The members of a group are full, and there are some. -/
theorem fullAll_of_parseMembers {p : Path} {rs : List Rule} :
    (items : List Json) → parseMembers p items = .ok rs → rs ≠ [] ∧ FullAll rs
  | [], h => by cases h
  | v :: rest, h => by
    rw [parseMembers] at h
    obtain ⟨r, hr, h⟩ := bind_eq_ok.mp h
    obtain ⟨rs', hrs, h⟩ := bind_eq_ok.mp h
    cases h
    exact ⟨List.cons_ne_nil _ _, full_of_parse v hr, fullAll_of_parseItems rest hrs⟩

/-- So are the items of a list. -/
theorem fullAll_of_parseItems {p : Path} {i : Nat} {rs : List Rule} :
    (items : List Json) → parseItems p i items = .ok rs → FullAll rs
  | [], h => by
    cases h
    exact trivial
  | v :: rest, h => by
    rw [parseItems] at h
    obtain ⟨r, hr, h⟩ := bind_eq_ok.mp h
    obtain ⟨rs', hrs, h⟩ := bind_eq_ok.mp h
    cases h
    exact ⟨full_of_parse v hr, fullAll_of_parseItems rest hrs⟩

end

theorem fullAll_of_parseList {p : Path} {v : Json} {rs : List Rule}
    (h : parseList p v = .ok rs) : FullAll rs := by
  cases v with
  | arr items => exact fullAll_of_parseItems items h
  | null =>
    cases h
    exact trivial
  | bool _ | int _ | real _ | str _ | obj _ => cases h

end Rule

/-- The named rules are full. -/
def FullRules (rules : Table Rule) : Prop :=
  ∀ name r, rules.lookup name = some r → r.Full

theorem fullRules_of_parseNamed {fields : Table Json} {rules : Table Rule}
    (h : parseNamed fields = .ok rules) : FullRules rules := by
  induction fields generalizing rules with
  | nil =>
    cases h
    intro name r hr
    cases hr
  | cons e rest ih =>
    obtain ⟨n, v⟩ := e
    obtain ⟨r, hr, h⟩ := bind_eq_ok.mp h
    obtain ⟨rs, hrs, h⟩ := bind_eq_ok.mp h
    cases h
    intro name body hbody
    by_cases hname : name = n
    · subst hname
      rw [List.lookup_cons_self, Option.some.injEq] at hbody
      subst hbody
      exact Rule.full_of_parse v hr
    · rw [Table.lookup_cons_of_ne hname] at hbody
      exact ih hrs name body hbody

/-- An item of full rules is full. -/
theorem Rule.FullAll.of_getElem? {rs : List Rule} (h : FullAll rs) {i : Nat} {r : Rule}
    (hr : rs[i]? = some r) : r.Full := by
  induction rs generalizing i with
  | nil => cases hr
  | cons r' rest ih =>
    cases i with
    | zero =>
      cases hr
      exact h.1
    | succ i => exact ih h.2 hr

/-! ### The invariant -/

variable {rules : Table Rule} {a a' : Assembly}

/-- **Every group of nodes has members.** -/
def Assembly.Full (a : Assembly) : Prop :=
  ∀ id q label ids, shapeAt a.nodes id = some (.group q label ids) → ids ≠ []

/-- **The nodes are made of rules**: those of named rules spell the rules, and every group has
members. -/
def Assembly.Spelt (rules : Table Rule) (a : Assembly) : Prop :=
  Holding Assembly.Full rules a

/-- An assembly without nodes is made of no rules. -/
theorem Assembly.spelt_start (base : Registry) (rules : Table Rule) :
    Spelt rules ⟨base, #[], []⟩ where
  carried id q label ids hid := absurd (lt_size_of_shapeAt hid) (Nat.not_lt_zero id)
  named name id hn := by cases hn

theorem Assembly.Spelt.enrol (h : a.Spelt rules) (name : String) (k : Check) :
    Spelt rules { a with registry := a.registry.register name fun c => k.evaluate name c } where
  carried := h.carried
  named := h.named.mono (grows_register a name k) rfl

/-- A node that is a leaf or has members may be added. -/
theorem Assembly.Full.push (h : a.Full) {node : Node}
    (hfull : ∀ q label ids, node = .group q label ids → ids ≠ []) :
    Full { a with nodes := a.nodes.push node } := by
  intro id q label ids hid
  rcases shapeAt_push hid with hid | ⟨-, hnode⟩
  · exact h id q label ids hid
  · cases node with
    | leaf _ _ _ => cases hnode
    | group _ _ _ =>
      cases hnode
      exact hfull _ _ _ rfl

/-- **Every single step keeps that groups have members**, while full rules are made. -/
theorem maintained_full (hrules : FullRules rules) :
    Maintained rules (fun _ r => r.Full) Assembly.Full where
  member h hr := h.2.of_getElem? hr
  body hr := hrules _ _ hr
  enrol h _ _ := h
  leaf h _ _ := h.push fun _ _ _ hn => by cases hn
  group h hr hlen := h.push fun _ _ _ hn => by
    cases hn
    rw [← List.length_pos_iff, hlen, List.length_pos_iff]
    exact hr.1
  record h id q label ids hid := by
    rw [shapeAt_record] at hid
    exact h id q label ids hid

/-- **A list of full rules becomes a list of nodes that spell them**, one by one. -/
theorem assembleList_spelt (hrules : FullRules rules) {p : Path} {rs : List Rule}
    (hrs : Rule.FullAll rs) (ha : a.Spelt rules) {ids : List Node.Id}
    (h : assembleList rules p rs a = .ok (ids, a')) :
    Upheld Assembly.Full rules a a' ∧ SpellsAll a' rules p 0 rs ids :=
  assembleList_upheld (maintained_full hrules) (fun _ _ hr => hrs.of_getElem? hr) ha h

/-- The rules that a configuration lists are full. -/
theorem fullAll_of_rulesAt {root : Table Json} {p : Path} {rs : List Rule} (h : rulesAt root p = some rs) :
    Rule.FullAll rs := by
  rw [rulesAt] at h
  split at h
  · cases h
    exact trivial
  · exact Rule.fullAll_of_parseList (toOption_eq_some.mp h)

/-- **So the whole assembly upholds that groups have members.** -/
theorem upholds_full {root : Table Json} (hrules : FullRules rules) :
    Upholds root rules (fun _ r => r.Full) Assembly.Full where
  maintained := maintained_full hrules
  listed _ hrs _ _ hr := (fullAll_of_rulesAt hrs).of_getElem? hr

/-! ### The whole configuration -/

open Assemble

theorem keeps_spelt_enrol (need : List Node.Id) (name : String) (k : Check) :
    Keeps (Assembly.Spelt rules) need (fun _ => []) (enrol name k) := by
  intro a r a' ha _ hok
  rw [enrol_run] at hok
  cases hok
  exact ⟨ha.enrol name k, grows_register a name k, fun id hid => absurd hid List.not_mem_nil⟩

theorem keeps_spelt_list (hrules : FullRules rules) (need : List Node.Id) (p : Path) (v : Json)
    (rs : List Rule) (hparsed : Rule.parseList p v = .ok rs) :
    Keeps (Assembly.Spelt rules) need (fun ids => ids) (assembleList rules p rs) := by
  intro a ids a' ha _ hok
  obtain ⟨hkept, hall⟩ := assembleList_spelt hrules (Rule.fullAll_of_parseList hparsed) ha hok
  exact ⟨hkept.holding, hkept.grows, hall.lt_size⟩

theorem keeps_spelt_named (hrules : FullRules rules) (need : List Node.Id) (name : String)
    (p : Path) : Keeps (Assembly.Spelt rules) need (fun id => [id])
      (assembleNamed rules rules.length [] name p) := by
  intro a id a' ha _ hok
  obtain ⟨hkept, hspells⟩ :=
    assembleNamed_upheld (maintained_full hrules) _ _ _ _ _ _ _ ha hok
  refine ⟨hkept.holding, hkept.grows, fun m hm => ?_⟩
  rw [List.mem_singleton.mp hm]
  exact (hspells p).lt_size

/-- **The nodes of a compiled book are made of rules.** -/
theorem Book.compile_spelt {base : Registry} {root : Table Json} {b : Book}
    (h : compile base (.obj root) = .ok b) :
    ∃ rules, parseNamed (ruleBodies root) = .ok rules ∧
      Assembly.Spelt rules ⟨b.registry, b.nodes, b.named⟩ := by
  obtain ⟨rules, a₁, a₂, a₃, a₄, hparsed, hchecks, hvalidation, hselection, hall, hregistry, hnodes,
    hnames⟩ := compile_cases h
  have hrules := fullRules_of_parseNamed hparsed
  have hlist := keeps_spelt_list hrules
  obtain ⟨h₁, -, -⟩ :=
    (keeps_enrolChecks keeps_spelt_enrol rules).run (Assembly.spelt_start base rules) hchecks
  obtain ⟨h₂, -, -⟩ := (keeps_validation hlist root).run h₁ hvalidation
  obtain ⟨h₃, -, -⟩ := (keeps_selection hlist root).run h₂ hselection
  obtain ⟨h₄, -, -⟩ := (keeps_allNamed (keeps_spelt_named hrules) _).run h₃ hall
  refine ⟨rules, hparsed, ?_⟩
  rw [hregistry, hnodes, hnames]
  exact h₄

/-- **Every list of a compiled book spells what stands at its place**, whatever names there are. -/
theorem Book.compile_lists {base : Registry} {root : Table Json} {b : Book}
    (hordered : (Json.obj root).Ordered) (h : compile base (.obj root) = .ok b) :
    ∃ rules, parseNamed (ruleBodies root) = .ok rules ∧
      EveryList (ListSpelt root rules ⟨b.registry, b.nodes, b.named⟩) root b.blocks b.selection := by
  obtain ⟨rules, hparsed, hupheld⟩ := compile_upheld hordered h
  obtain ⟨-, hlists, -⟩ := hupheld (upholds_full (fullRules_of_parseNamed hparsed)) fun a ha =>
    ((keeps_enrolChecks keeps_spelt_enrol rules).run (Assembly.spelt_start base rules) ha).1
  exact ⟨rules, hparsed, hlists⟩

end TopDown
