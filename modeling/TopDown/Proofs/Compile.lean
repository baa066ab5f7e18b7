import TopDown.Proofs.Faithful
import TopDown.Proofs.Sections

/-!
# Books say what their configurations say

A configuration that compiles has become a row of nodes with shared parts. Here it is shown that
nothing is lost on the way. Every list of the book and every named rule in it spells what the
configuration has at its place, and checking the node of a rule comes to what reading the rule comes
to (`TopDown.Agrees`); every leaf has the threshold that is written where it comes from. These
together are `TopDown.Book.Faithful`, and `TopDown.Book.compile_faithful` says that a compiled book is
faithful.

There is one gap. While rules become nodes, the checks that are spelt out stand among the conditions
under the texts of their places, so that a reference to such a text is not refused, although it names
neither a rule nor a condition. Such a rule is not grounded, and reading it comes to nothing
(`TopDown.Book.compile_placeText`); for all others reading and checking agree.
-/

namespace TopDown

open Assemble

/-! ### The beginning -/

theorem ruleBodies_eq (root : Table Json) :
    ruleBodies root = (Json.obj root).fieldsAt [.key "rules"] :=
  (Json.fieldsAt_key (.obj root) [] "rules").symm

variable {base : Registry} {root : Table Json} {rules : Table Rule} {a a' : Assembly}

/-- The named rules are read from their bodies. -/
theorem namedRules_eq_ok (h : namedRules root a = .ok (rules, a')) :
    parseNamed (ruleBodies root) = .ok rules ∧ a' = a := by
  rw [ruleBodies_eq]
  unfold namedRules at h
  cases hg : Json.given? root "rules" with
  | none =>
    rw [hg] at h
    obtain ⟨rfl, rfl⟩ := pure_eq_ok.mp h
    have hnone : (Json.obj root).fieldsAt [.key "rules"] = [] :=
      Json.fieldsAt_of_not_given (p := []) hg
    rw [hnone]
    exact ⟨rfl, rfl⟩
  | some v =>
    rw [hg] at h
    cases v with
    | obj fields =>
      obtain ⟨hparsed, rfl⟩ := ofParsed_eq_ok h
      have hfields : (Json.obj root).fieldsAt [.key "rules"] = fields :=
        Json.fieldsAt_of_lookup (p := []) (Json.lookup_of_given? hg)
      rw [hfields]
      exact ⟨hparsed, rfl⟩
    | null | bool _ | int _ | real _ | str _ | arr _ => exact absurd h fail_ne_ok

/-- **Each named check stands under its name** once the checks are registered, and the other names
are as they were. -/
theorem enrolChecks_eq_ok (hnodup : rules.names.Nodup) (h : enrolChecks rules a = .ok ((), a')) :
    a'.nodes = a.nodes ∧ a'.named = a.named ∧
      (∀ name k, rules.lookup name = some (.check k) →
        a'.registry.find? name = some fun c => k.evaluate name c) ∧
      ∀ name, (∀ k, rules.lookup name ≠ some (.check k)) →
        a'.registry.find? name = a.registry.find? name := by
  induction rules generalizing a with
  | nil =>
    obtain ⟨-, rfl⟩ := pure_eq_ok.mp h
    refine ⟨rfl, rfl, fun name k hk => ?_, fun name _ => rfl⟩
    cases hk
  | cons e rest ih =>
    obtain ⟨n, r⟩ := e
    obtain ⟨hnew, hrest⟩ := List.nodup_cons.mp hnodup
    -- a name stands once, so later rules leave it alone
    have hlater : ∀ k, List.lookup n rest ≠ some (.check k) := fun k hk =>
      hnew (Table.has_iff.mp (by rw [Table.has, hk]; rfl))
    cases r with
    | check k =>
      obtain ⟨_, a₁, henrol, h₁⟩ := Assemble.bind_eq_ok.mp h
      rw [enrol_run] at henrol
      cases henrol
      obtain ⟨hnodes, hnamed, hchecks, hothers⟩ := ih hrest h₁
      refine ⟨hnodes, hnamed, fun name k' hk' => ?_, fun name hno => ?_⟩
      · by_cases hname : name = n
        · subst hname
          rw [List.lookup_cons_self, Option.some.injEq] at hk'
          cases hk'
          rw [hothers name hlater, Registry.find?_register, if_pos rfl]
        · rw [Table.lookup_cons_of_ne hname] at hk'
          exact hchecks name k' hk'
      · have hname : name ≠ n := by
          intro hname
          subst hname
          exact hno k List.lookup_cons_self
        rw [hothers name fun k' hk' => hno k' (by rw [Table.lookup_cons_of_ne hname, hk']),
          Registry.find?_register, if_neg hname]
    | reference _ _ | group _ _ =>
      obtain ⟨hnodes, hnamed, hchecks, hothers⟩ := ih hrest h
      refine ⟨hnodes, hnamed, fun name k' hk' => ?_, fun name hno => ?_⟩
      · by_cases hname : name = n
        · subst hname
          rw [List.lookup_cons_self] at hk'
          cases hk'
        · rw [Table.lookup_cons_of_ne hname] at hk'
          exact hchecks name k' hk'
      · by_cases hname : name = n
        · subst hname
          exact hothers name hlater
        · exact hothers name fun k' hk' => hno k' (by rw [Table.lookup_cons_of_ne hname, hk'])

/-- **The invariant holds at the beginning**, when the named checks have been registered. -/
theorem enrolChecks_built (hnodup : rules.names.Nodup)
    (h : enrolChecks rules ⟨base, #[], []⟩ = .ok ((), a')) : Built base root rules a' := by
  obtain ⟨hnodes, hnamed, hchecks, hothers⟩ := enrolChecks_eq_ok hnodup h
  refine ⟨⟨hchecks, fun name condition hno hb => ?_, fun name condition hno hf => ?_⟩,
    fun id name place threshold hid => ?_, fun name id hn => ?_⟩
  · rw [hothers name hno, hb]
  · rw [hothers name hno] at hf
    exact .inl hf
  · rw [hnodes] at hid
    exact absurd (lt_size_of_shapeAt hid) (Nat.not_lt_zero id)
  · rw [hnamed] at hn
    cases hn

/-! ### The whole compilation -/

variable {b : Book}

/-- The steps of a compilation. -/
theorem Book.compile_cases (h : Book.compile base (.obj root) = .ok b) :
    ∃ rules a₁ a₂ a₃ a₄, parseNamed (ruleBodies root) = .ok rules ∧
      enrolChecks rules ⟨base, #[], []⟩ = .ok ((), a₁) ∧
      assembleValidation rules root a₁ = .ok ((b.start, b.blocks), a₂) ∧
      assembleSelection rules root a₂ = .ok (b.selection, a₃) ∧
      assembleAllNamed rules rules.names a₃ = .ok ((), a₄) ∧
      b.registry = a₄.registry ∧ b.nodes = a₄.nodes ∧ b.named = a₄.named := by
  obtain ⟨⟨⟨start, blocks, selection⟩, a₄⟩, hsections, h⟩ := TopDown.bind_eq_ok.mp h
  cases h
  obtain ⟨rules, a₀, hnamed, h₁⟩ := Assemble.bind_eq_ok.mp hsections
  obtain ⟨hparsed, rfl⟩ := namedRules_eq_ok hnamed
  obtain ⟨_, a₁, hchecks, h₂⟩ := Assemble.bind_eq_ok.mp h₁
  obtain ⟨⟨start', blocks'⟩, a₂, hvalidation, h₃⟩ := Assemble.bind_eq_ok.mp h₂
  obtain ⟨selection', a₃, hselection, h₄⟩ := Assemble.bind_eq_ok.mp h₃
  obtain ⟨_, a₅, hall, h₅⟩ := Assemble.bind_eq_ok.mp h₄
  cases h₅
  exact ⟨rules, a₁, a₂, a₃, _, hparsed, hchecks, hvalidation, hselection, hall, rfl, rfl, rfl⟩

/-- **What the assembly upholds holds of a compiled book**, if it holds when the named checks have been
registered: every list of the book spells what the configuration has at its place, and every named
rule has a node. -/
theorem Book.compile_upheld (hordered : (Json.obj root).Ordered)
    (h : Book.compile base (.obj root) = .ok b) :
    ∃ rules, parseNamed (ruleBodies root) = .ok rules ∧
      ∀ {P : Path → Rule → Prop} {I : Assembly → Prop}, Upholds root rules P I →
        (∀ a, enrolChecks rules ⟨base, #[], []⟩ = .ok ((), a) → Holding I rules a) →
        Holding I rules ⟨b.registry, b.nodes, b.named⟩ ∧
        EveryList (ListSpelt root rules ⟨b.registry, b.nodes, b.named⟩) root b.blocks b.selection ∧
        ∀ name ∈ rules.names, (b.named.lookup name).isSome = true := by
  obtain ⟨rules, a₁, a₂, a₃, a₄, hparsed, hchecks, hvalidation, hselection, hall, hregistry, hnodes,
    hnamed⟩ := Book.compile_cases h
  refine ⟨rules, hparsed, fun hI hstart => ?_⟩
  obtain ⟨hkept₂, hblocks⟩ := assembleValidation_upheld hordered hI (hstart a₁ hchecks) hvalidation
  obtain ⟨hkept₃, hselection⟩ := assembleSelection_upheld hordered hI hkept₂.holding hselection
  obtain ⟨hkept₄, hrecorded⟩ := assembleAllNamed_upheld hI.maintained hkept₃.holding hall
  rw [hregistry, hnodes, hnamed]
  -- what the earlier sections spell is still spelt in the end
  exact ⟨hkept₄.holding, EveryList.imp (ListSpelt.mono hkept₄.grows)
    ⟨hblocks.imp fun _ _ hblock => hblock.imp (ListSpelt.mono hkept₃.grows), hselection⟩, hrecorded⟩

/-! ### Faithful books -/

/-- **The node agrees with the rule** that stands at a place. -/
structure Agrees (base : Registry) (root : Table Json) (rules : Table Rule) (b : Book) (p : Path)
    (r : Rule) (id : Node.Id) : Prop where
  /-- The node spells the rule; each reference to a condition or a check is a leaf with the threshold
  that it gives. -/
  spells : Spells b.registry b.nodes rules p r id
  /-- Reading the rule comes to what the node is checked to, if all names are known, and to nothing
  otherwise. -/
  means : ∀ c v, Means base rules c p r v ↔
    Grounded (Known base rules) rules r ∧ (b.evaluate c id).ruling = v
  /-- A name that is not known is the text of the place of a check. -/
  grounded : Grounded (fun n => Known base rules n ∨ IsPlaceText root rules n) rules r

/-- The nodes of a list agree one by one with the rules that are listed at a place. -/
def AgreesAll (base : Registry) (root : Table Json) (rules : Table Rule) (b : Book) (p : Path)
    (ids : List Node.Id) : Prop :=
  ∃ rs, rulesAt root p = some rs ∧ ids.length = rs.length ∧
    ∀ (i : Nat) r id, rs[i]? = some r → ids[i]? = some id →
      Agrees base root rules b (p.index i) r id

/-- **A book says what its configuration says.** -/
structure Book.Faithful (base : Registry) (root : Table Json) (rules : Table Rule) (b : Book) :
    Prop where
  /-- Every list of the book comes from a list of the configuration, rule by rule. -/
  lists : EveryList (AgreesAll base root rules b) root b.blocks b.selection
  /-- Every named rule has a node, which agrees with a reference to it. -/
  named : ∀ name, rules.has name = true → ∃ id, b.named.lookup name = some id ∧
    Agrees base root rules b (rulePath name) (.reference name none) id
  /-- Nothing else is named. -/
  namedOnly : ∀ name, (b.named.lookup name).isSome = true → rules.has name = true
  /-- Every leaf comes from a rule of the configuration and has the threshold written there. -/
  leaves : ∀ (id : Node.Id) name place threshold,
    b.nodes[id]? = some (.leaf name place threshold) →
      ∃ p r, Occurs root rules p r ∧ Writes rules p r name threshold

theorem agrees_of_spells (hplain : PlainBook base rules)
    (henrolled : Enrolled base root rules b.registry) {p : Path} {r : Rule} {id : Node.Id}
    (hocc : Occurs root rules p r ∨ ∃ name threshold, r = .reference name threshold)
    (hs : Spells b.registry b.nodes rules p r id) : Agrees base root rules b p r id where
  spells := hs
  means _ v := evaluate_ruling_iff hplain henrolled hocc hs v
  grounded := hs.grounded henrolled

theorem agreesAll_of_spelt (hplain : PlainBook base rules)
    (henrolled : Enrolled base root rules b.registry) {p : Path} {ids : List Node.Id}
    (h : ListSpelt root rules ⟨b.registry, b.nodes, b.named⟩ p ids) :
    AgreesAll base root rules b p ids := by
  obtain ⟨hp, rs, hrs, hlen, hspells⟩ := h
  refine ⟨rs, hrs, hlen, fun i r id hr hid => ?_⟩
  have hs := hspells i r id hr hid
  rw [Nat.zero_add] at hs
  exact agrees_of_spells hplain henrolled (.inl (.whole (.item hp hrs hr))) hs

/-- **A compiled book is faithful**, over any registry whose names are plain. -/
theorem Book.compile_faithful_of_plain (hbase : ∀ name ∈ base.names, Plain name)
    (hordered : (Json.obj root).Ordered) (hnames : ∀ name ∈ (ruleBodies root).names, Plain name)
    (h : Book.compile base (.obj root) = .ok b) :
    ∃ rules, parseNamed (ruleBodies root) = .ok rules ∧ b.Faithful base root rules := by
  obtain ⟨rules, hparsed, hupheld⟩ := Book.compile_upheld hordered h
  have hsame : rules.names = (ruleBodies root).names := names_of_parseNamed hparsed
  have hplain : PlainBook base rules := ⟨hbase, fun name hn => hnames name (hsame ▸ hn)⟩
  have hnodup : rules.names.Nodup := by
    rw [hsame, ruleBodies_eq]
    exact (Json.ordered_fieldsAt hordered _).nodup
  obtain ⟨hholding, hlists, hrecorded⟩ := hupheld hplain.upholds fun a ha =>
    built_iff.mp (enrolChecks_built hnodup ha)
  have hbuilt := built_iff.mpr hholding
  refine ⟨rules, hparsed, ?_, fun name hname => ?_, fun name hname => ?_,
    fun id name place threshold hid => ?_⟩
  · exact hlists.imp fun p ids hlist => agreesAll_of_spelt hplain hbuilt.registry hlist
  · obtain ⟨id, hid⟩ := Option.isSome_iff_exists.mp (hrecorded name (Table.has_iff.mp hname))
    exact ⟨id, hid, agrees_of_spells hplain hbuilt.registry (.inr ⟨name, none, rfl⟩)
      ((hbuilt.named name id hid).2 (rulePath name))⟩
  · obtain ⟨id, hid⟩ := Option.isSome_iff_exists.mp hname
    exact (hbuilt.named name id hid).1
  · exact hbuilt.leaves id name place threshold (shapeAt_eq_leaf.mpr hid)

/-! ### The built-in conditions -/

theorem plain_builtin : ∀ name ∈ Registry.builtin.names, Plain name := by
  decide +kernel

/-- **A compiled book is faithful**, over the conditions that are known from the start. The names of
rules are plain, and no object of the configuration has a key twice, which holds of every document
that is read (`TopDown.Json.ordered_of_parse`). -/
theorem Book.compile_faithful (hordered : (Json.obj root).Ordered)
    (hnames : ∀ name ∈ (ruleBodies root).names, Plain name)
    (h : Book.compile .builtin (.obj root) = .ok b) :
    ∃ rules, parseNamed (ruleBodies root) = .ok rules ∧ b.Faithful .builtin root rules :=
  Book.compile_faithful_of_plain plain_builtin hordered hnames h

/-- A configuration whose rules share a group, rename it, and take the place of a condition. -/
def sharedConfig : Table Json :=
  [("rules", .obj [
      ("rsi_bullish", .obj [("left", .str "rsi"), ("op", .str ">"), ("right", .int 55)]),
      ("setup", .str "trend"),
      ("trend", .obj [("all_of", .arr [.str "rsi_bullish",
        .obj [("gt_fields", .arr [.str "ema_fast", .str "ema_slow"])]])])]),
    ("validation", .obj [("timeframe", .obj [("4h", .obj [
      ("long", .arr [.str "trend", .obj [("liquidity_ok", .int 500000)]]),
      ("short", .arr [.str "setup"])])])])]

/-- It compiles to a faithful book. -/
theorem Book.compile_faithful_shared : ∃ b, Book.compile .builtin (.obj sharedConfig) = .ok b ∧
    ∃ rules, parseNamed (ruleBodies sharedConfig) = .ok rules ∧
      b.Faithful .builtin sharedConfig rules := by
  have hcompiles : (Book.compile .builtin (.obj sharedConfig)).isOk = true := by decide +kernel
  have hordered : (Json.obj sharedConfig).Ordered := by decide +kernel
  cases h : Book.compile .builtin (.obj sharedConfig) with
  | error e =>
    rw [h] at hcompiles
    cases hcompiles
  | ok b => exact ⟨b, rfl, Book.compile_faithful hordered (by decide) h⟩

/-! ### The gap -/

/-- A configuration whose second rule refers to the text of the place of the first one. -/
def placeTextConfig : Table Json :=
  [("validation", .obj [("timeframe", .obj [("4h", .obj [
      ("long", .arr [.obj [("gt_fields", .arr [.str "rsi", .str "adx"])],
        .str "validation.timeframe.4h.long[0]"])])])])]

/-- **It compiles**, and the second rule has become a node, although it names neither a rule nor a
condition and comes to nothing. -/
theorem Book.compile_placeText : ∃ b block, Book.compile .builtin (.obj placeTextConfig) = .ok b ∧
    b.blocks .h4 = some block ∧ block.long = [0, 1] ∧
    parseNamed (ruleBodies placeTextConfig) = .ok [] ∧
    rulesAt placeTextConfig ((blocksPlace.key "4h").key "long") =
      some [.check (.fieldOrder .down ["rsi", "adx"]),
        .reference "validation.timeframe.4h.long[0]" none] ∧
    ∀ c p v, ¬Means .builtin [] c p (.reference "validation.timeframe.4h.long[0]" none) v := by
  have hlong : ((Book.compile .builtin (.obj placeTextConfig)).toOption.bind fun b =>
      (b.blocks .h4).map (·.long)) = some [0, 1] := by decide +kernel
  obtain ⟨b, hb, hblock⟩ := Option.bind_eq_some_iff.mp hlong
  obtain ⟨block, hblock, hids⟩ := Option.map_eq_some_iff.mp hblock
  refine ⟨b, block, ?_, hblock, hids, rfl, rfl, fun c p v hmeans => ?_⟩
  · cases h : Book.compile .builtin (.obj placeTextConfig) with
    | error e =>
      rw [h] at hb
      cases hb
    | ok b' =>
      rw [h] at hb
      cases hb
      rfl
  · -- the rule would be grounded, but the name is not known
    have hknown := (grounded_reference.mp hmeans.grounded).1
    have hunknown : ¬Known .builtin [] "validation.timeframe.4h.long[0]" := by
      unfold Known
      decide +kernel
    exact hunknown hknown

end TopDown
