import TopDown.Proofs.Coherence
import TopDown.Proofs.Compile
import TopDown.Proofs.Load
import TopDown.Proofs.Windows

/-!
# Compiled books lead nowhere astray

The sections of a configuration are assembled one after the other, and each returns lists of rules.
We follow the places in these lists to the end of the compilation: every place that a compiled book
holds is the place of a node (`TopDown.Book.Coherent`, `TopDown.Book.compile_coherent`). No assumption
is made on the names in the configuration.

Two things follow. Checking a rule that a book lists breaks down only where a condition does
(`TopDown.Book.Coherent.exists_crash`), and of the conditions that a book adds to its base, only those
do that stand for a check whose window cannot be counted (`TopDown.Book.compile_crash`). And a
configuration whose references go around is never compiled (`TopDown.Book.compile_grounded`).
-/

namespace TopDown

open Assemble

/-! ### The places in a book -/

/-- The places in the entries of a map. -/
def ByTimeframe.ids {α : Type} (f : α → List Node.Id) (m : ByTimeframe α) : List Node.Id :=
  m.entries.flatMap fun e => f e.2

theorem ByTimeframe.mem_ids {α : Type} {f : α → List Node.Id} {m : ByTimeframe α} {id : Node.Id} :
    id ∈ m.ids f ↔ ∃ tf a, m tf = some a ∧ id ∈ f a := by
  unfold ids entries
  rw [List.mem_flatMap]
  constructor
  · rintro ⟨⟨tf, a⟩, he, hid⟩
    obtain ⟨tf', -, he⟩ := List.mem_filterMap.mp he
    obtain ⟨a', ha', he⟩ := Option.map_eq_some_iff.mp he
    cases he
    exact ⟨tf, a, ha', hid⟩
  · rintro ⟨tf, a, ha, hid⟩
    refine ⟨(tf, a), List.mem_filterMap.mpr ⟨tf, ?_, by rw [ha]; rfl⟩, hid⟩
    cases tf <;> decide

/-- A new entry brings no other places than its own. -/
theorem ByTimeframe.ids_set {α : Type} {f : α → List Node.Id} {m : ByTimeframe α} {tf : Timeframe}
    {a : α} : (m.set tf a).ids f ⊆ m.ids f ++ f a := by
  intro id hid
  obtain ⟨t, a', ha', hmem⟩ := mem_ids.mp hid
  unfold set at ha'
  split at ha'
  · cases ha'
    exact List.mem_append_right _ hmem
  · exact List.mem_append_left _ (mem_ids.mpr ⟨t, a', ha', hmem⟩)

/-- The places in a block. -/
def Block.ids (b : Block) : List Node.Id :=
  b.long ++ b.short

/-- The places in a layout. -/
def Layout.ids : Layout → List Node.Id
  | .byTimeframe _ groups => groups.ids Groups.all
  | .flat g => g.all

/-- The places in the rules that choose the timeframe to enter on. -/
def Selection.ids (s : Selection) : List Node.Id :=
  s.filters ++ s.minuteRules ++ s.layout.ids

/-- The places in the lists of a book. -/
def Book.ids (b : Book) : List Node.Id :=
  b.blocks.ids Block.ids ++ b.selection.ids

/-- **The parts of a book fit together.** -/
structure Book.Coherent (b : Book) : Prop where
  /-- A leaf has the place of its name. -/
  leaves : ∀ (id : Node.Id) name place threshold, b.nodes[id]? = some (.leaf name place threshold) →
    b.registry.place? name = some place
  /-- The members of a group stand before it. -/
  members : ∀ (id : Node.Id) q label ids, b.nodes[id]? = some (.group q label ids) → ∀ m ∈ ids, m < id
  /-- The node of a named rule is one of the nodes. -/
  named : ∀ name id, b.named.lookup name = some id → id < b.nodes.size
  /-- A list holds places of nodes. -/
  lists : ∀ id ∈ b.ids, id < b.nodes.size

/-! ### Sections -/

section Sections

variable {I : Assembly → Prop} {rules : Table Rule} {need : List Node.Id}

theorem keeps_timeframe (area key : String) (v : Json) :
    Keeps I need (fun _ => []) (Assemble.timeframe area key v) :=
  (Settles.timeframe area key v).keeps

variable (hlist : ∀ need p v rs, Rule.parseList p v = .ok rs →
  Keeps I need (fun ids => ids) (assembleList rules p rs))
include hlist

theorem keeps_listAt (p : Path) (fields : Table Json) (key : String) :
    Keeps I need (fun ids => ids) (listAt rules p fields key) := by
  unfold listAt
  cases fields.lookup key with
  | none => exact .pure (List.nil_subset _)
  | some v =>
    intro a ids a' ha hneed hok
    obtain ⟨rs, a₁, hread, hlisted⟩ := Assemble.bind_eq_ok.mp hok
    obtain ⟨hparsed, rfl⟩ := ofParsed_eq_ok hread
    exact hlist need _ v rs hparsed _ ids a' ha hneed hlisted

theorem keeps_block (p : Path) (v : Json) : Keeps I need Block.ids (assembleBlock rules p v) := by
  cases v with
  | obj block =>
    refine (settles_minBarsOf p block).keeps.bind fun minBars => ?_
    refine (settles_graceOf p block).keeps.bind fun grace => ?_
    refine (keeps_listAt hlist p block "long").bind fun long => ?_
    refine (keeps_listAt hlist p block "short").bind fun short => ?_
    split
    · refine .pure ?_
      intro id hid
      simp only [Block.ids, List.mem_append] at hid ⊢
      tauto
    · exact .stop _
  | null | bool _ | int _ | real _ | str _ | arr _ => exact .stop _

theorem keeps_blocks (p : Path) (fields : Table Json) (blocks : ByTimeframe Block)
    (hneed : blocks.ids Block.ids ⊆ need) :
    Keeps I need (ByTimeframe.ids Block.ids) (assembleBlocks rules p blocks fields) := by
  induction fields generalizing blocks need with
  | nil => exact .pure hneed
  | cons e rest ih =>
    obtain ⟨key, v⟩ := e
    refine (keeps_timeframe _ _ _).bind fun tf => ?_
    refine (keeps_block hlist _ v).bind fun block => ih _ ?_
    intro id hid
    rcases List.mem_append.mp (ByTimeframe.ids_set hid) with hid | hid
    · exact List.mem_append_left _ (List.mem_append_left _ (hneed hid))
    · exact List.mem_append_right _ hid

theorem keeps_validation (root : Table Json) :
    Keeps I need (fun v => v.2.ids Block.ids) (assembleValidation rules root) := by
  unfold assembleValidation
  split
  · refine (settles_startOf _).keeps.bind fun start => ?_
    split
    · refine (keeps_blocks hlist _ _ _ ?_).bind fun blocks => .pure (List.subset_append_right _ _)
      intro id hid
      obtain ⟨tf, block, hblock, -⟩ := ByTimeframe.mem_ids.mp hid
      cases hblock
    · exact .stop _
  · exact .stop _

theorem keeps_filters (root selector : Table Json) :
    Keeps I need (fun ids => ids) (assembleFilters rules root selector) := by
  unfold assembleFilters
  split
  · exact keeps_listAt hlist _ _ _
  · exact keeps_listAt hlist _ _ _

theorem keeps_allowance (selector : Table Json) :
    Keeps I need (·.2) (assembleAllowance rules selector) := by
  unfold assembleAllowance
  split
  · exact .pure (List.nil_subset _)
  · exact (keeps_listAt hlist _ _ _).bind fun ids => .pure (List.subset_append_right _ _)
  · exact .stop _

/-- The three groups of a timeframe, or those of the flat layout, one after the other. -/
theorem keeps_groups {α : Type} {ids : α → List Node.Id} (p : Path) (fields : Table Json)
    (stay drop forbid : String) {f : Groups → Assemble α}
    (hf : ∀ g : Groups, Keeps I (need ++ g.all) ids (f g)) :
    Keeps I need ids (do
      let stay ← listAt rules p fields stay
      let drop ← listAt rules p fields drop
      let forbid ← listAt rules p fields forbid
      f ⟨stay, drop, forbid⟩) := by
  refine (keeps_listAt hlist p fields stay).bind fun stay => ?_
  refine (keeps_listAt hlist p fields drop).bind fun drop => ?_
  refine (keeps_listAt hlist p fields forbid).bind fun forbid => ?_
  have h := hf ⟨stay, drop, forbid⟩
  simpa only [Groups.all, ← List.append_assoc] using h

theorem keeps_byTimeframe (p : Path) (fields : Table Json) (groups : ByTimeframe Groups)
    (hneed : groups.ids Groups.all ⊆ need) :
    Keeps I need (ByTimeframe.ids Groups.all) (assembleGroups rules p groups fields) := by
  induction fields generalizing groups need with
  | nil => exact .pure hneed
  | cons e rest ih =>
    obtain ⟨key, v⟩ := e
    refine (keeps_timeframe _ _ _).bind fun tf => ?_
    cases v with
    | obj block =>
      refine keeps_groups hlist _ _ _ _ _ fun g => ih _ ?_
      intro id hid
      rcases List.mem_append.mp (ByTimeframe.ids_set hid) with hid | hid
      · exact List.mem_append_left _ (List.mem_append_left _ (hneed hid))
      · exact List.mem_append_right _ hid
    | null | bool _ | int _ | real _ | str _ | arr _ => exact .stop _

theorem keeps_layout (selector : Table Json) :
    Keeps I need Layout.ids (assembleLayout rules selector) := by
  unfold assembleLayout
  split
  · refine (settles_orderOf _).keeps.bind fun order => ?_
    refine (keeps_byTimeframe hlist _ _ _ ?_).bind fun groups => .pure (List.subset_append_right _ _)
    intro id hid
    obtain ⟨tf, g, hg, -⟩ := ByTimeframe.mem_ids.mp hid
    cases hg
  · exact .stop _
  · have hflat (g : Groups) : Keeps I (need ++ g.all) Layout.ids (pure (Layout.flat g)) :=
      .pure (List.subset_append_right _ _)
    exact keeps_groups hlist _ _ _ _ _ hflat

theorem keeps_selection (root : Table Json) :
    Keeps I need Selection.ids (assembleSelection rules root) := by
  refine (settles_selectorOf root).keeps.bind fun selector => ?_
  refine (keeps_filters hlist root selector).bind fun filters => ?_
  refine (keeps_allowance hlist selector).bind fun allowance => ?_
  refine (settles_defaultOf selector).keeps.bind fun default => ?_
  refine (keeps_layout hlist selector).bind fun layout => .pure ?_
  intro id hid
  simp only [Selection.ids, List.mem_append] at hid ⊢
  tauto

end Sections

/-! ### The whole configuration -/

/-- The lists of a configuration keep an assembly coherent. -/
theorem keeps_coherent_list {rules : Table Rule} (need : List Node.Id) (p : Path) (v : Json)
    (rs : List Rule) (_ : Rule.parseList p v = .ok rs) :
    Keeps (Assembly.Coherent rules) need (fun ids => ids) (assembleList rules p rs) :=
  keeps_assembleList p rs

theorem keeps_enrolChecks {I : Assembly → Prop} {need : List Node.Id}
    (henrol : ∀ need name k, Keeps I need (fun _ => []) (enrol name k)) (checks : Table Rule) :
    Keeps I need (fun _ => []) (enrolChecks checks) := by
  induction checks generalizing need with
  | nil => exact .pure (List.nil_subset _)
  | cons e rest ih =>
    obtain ⟨name, r⟩ := e
    cases r with
    | check k => exact (henrol _ name k).bind fun _ => ih
    | reference _ _ | group _ _ => exact ih

theorem keeps_allNamed {I : Assembly → Prop} {rules : Table Rule} {need : List Node.Id}
    (hnamed : ∀ need name p,
      Keeps I need (fun id => [id]) (assembleNamed rules rules.length [] name p))
    (names : List String) : Keeps I need (fun _ => []) (assembleAllNamed rules names) := by
  induction names generalizing need with
  | nil => exact .pure (List.nil_subset _)
  | cons name rest ih => exact (hnamed _ name _).bind fun _ => ih

theorem enrolChecks_coherent {rules checks : Table Rule} {a a' : Assembly}
    (ha : a.Coherent rules) (h : enrolChecks checks a = .ok ((), a')) :
    a'.Coherent rules ∧ Grows a a' := by
  obtain ⟨ha', hg, -⟩ := (keeps_enrolChecks (fun _ => keeps_enrol) checks).run ha h
  exact ⟨ha', hg⟩

/-- An assembly without nodes is coherent. -/
theorem Assembly.coherent_start (base : Registry) (rules : Table Rule) :
    Assembly.Coherent rules ⟨base, #[], []⟩ where
  leaves id name place threshold hid := absurd (lt_size_of_shapeAt hid) (Nat.not_lt_zero id)
  members id q label ids hid := absurd (lt_size_of_shapeAt hid) (Nat.not_lt_zero id)
  named name id hn := by cases hn
  grounded name id hn := by cases hn

variable {base : Registry} {root : Table Json} {b : Book}

/-- What a compilation keeps, from its first step to its last. -/
theorem compile_keeps (h : Book.compile base (.obj root) = .ok b) :
    b.Coherent ∧
      (∃ rules, parseNamed (ruleBodies root) = .ok rules ∧
        ∀ name ∈ rules.names, Acc (Refers (Rule.table rules)) name) ∧
      ∀ e ∈ b.registry.entries, e ∈ base.entries ∨ ∃ k : Check, e.2 = fun c => k.evaluate e.1 c := by
  obtain ⟨rules, a₁, a₂, a₃, a₄, hparsed, hchecks, hvalidation, hselection, hall, hregistry, hnodes,
    hnamed⟩ := Book.compile_cases h
  obtain ⟨ha₁, hg₁⟩ := enrolChecks_coherent (Assembly.coherent_start base rules) hchecks
  obtain ⟨ha₂, hg₂, hblocks⟩ := (keeps_validation keeps_coherent_list root).run ha₁ hvalidation
  obtain ⟨ha₃, hg₃, hselection⟩ := (keeps_selection keeps_coherent_list root).run ha₂ hselection
  obtain ⟨ha₄, hg₄, hgrounded⟩ := assembleAllNamed_keeps ha₃ hall
  refine ⟨⟨?_, ?_, ?_, ?_⟩, ⟨rules, hparsed, hgrounded⟩, ?_⟩
  · intro id name place threshold hid
    rw [hnodes] at hid
    rw [hregistry]
    exact ha₄.leaves id name place threshold (shapeAt_eq_leaf.mpr hid)
  · intro id q label ids hid
    rw [hnodes] at hid
    refine ha₄.members id q "" ids ?_
    rw [shapeAt, hid]
    rfl
  · intro name id hn
    rw [hnamed] at hn
    rw [hnodes]
    exact ha₄.named name id hn
  · intro id hid
    rw [hnodes]
    rcases List.mem_append.mp hid with hid | hid
    · exact (hblocks.mono hg₃).mono hg₄ id hid
    · exact hselection.mono hg₄ id hid
  · rw [hregistry]
    exact (hg₁.trans (hg₂.trans (hg₃.trans hg₄))).conditions

/-- **A compiled book is coherent**, over any registry and whatever names the configuration
chooses. -/
theorem Book.compile_coherent {config : Json} (h : Book.compile base config = .ok b) :
    b.Coherent := by
  cases config with
  | obj root => exact (compile_keeps h).1
  | null | bool _ | int _ | real _ | str _ | arr _ => cases h

/-- **The conditions of a compiled book** are those of the base and those that stand for checks. -/
theorem Book.compile_conditions {config : Json} (h : Book.compile base config = .ok b) :
    ∀ e ∈ b.registry.entries, e ∈ base.entries ∨ ∃ k : Check, e.2 = fun c => k.evaluate e.1 c := by
  cases config with
  | obj root => exact (compile_keeps h).2.2
  | null | bool _ | int _ | real _ | str _ | arr _ => cases h

/-- **A configuration that compiles has no circles**: the references among its rules are well
founded. -/
theorem Book.compile_grounded (h : Book.compile base (.obj root) = .ok b) :
    WellFounded (Refers (Review.references (ruleBodies root))) := by
  obtain ⟨-, ⟨rules, hparsed, hgrounded⟩, -⟩ := compile_keeps h
  rw [references_of_parseNamed hparsed]
  refine ⟨fun name => Acc.intro _ ?_⟩
  rintro next ⟨-, hnext⟩
  refine hgrounded next ?_
  rw [Table.has, Rule.table, Table.lookup_mapValues, Option.isSome_map] at hnext
  exact Table.has_iff.mp hnext

/-! ### Breaking down -/

/-- No condition breaks down, whatever it is checked against. -/
def Registry.Steady (r : Registry) : Prop :=
  ∀ e ∈ r.entries, ∀ c, (e.2 c).crash = none

theorem Verdict.firstCrash_eq_none {vs : List Verdict} :
    Verdict.firstCrash vs = none ↔ ∀ v ∈ vs, v.crash = none :=
  List.findSome?_eq_none_iff

/-- **A rule of a coherent book breaks down only where a condition does** that the registry finds
under a name, and as that one does. -/
theorem Book.Coherent.exists_crash (hb : b.Coherent) {c : Context} {id : Node.Id}
    (hid : id < b.nodes.size) {crash : Crash} (hcrash : (b.evaluate c id).crash = some crash) :
    ∃ name k, b.registry.find? name = some k ∧ (k c).crash = some crash := by
  induction id using Nat.strong_induction_on with
  | _ id ih =>
    have hnode : b.nodes[id]? = some b.nodes[id] := Array.getElem?_eq_getElem hid
    rw [Book.evaluate] at hcrash
    cases h : b.nodes[id]? with
    | none =>
      rw [hnode] at h
      cases h
    | some node =>
      rw [h] at hcrash
      cases node with
      | leaf name place threshold =>
        -- the place of a leaf is one that the registry has given out
        have hplace := hb.leaves id name place threshold h
        obtain ⟨condition, hf⟩ := exists_find? hplace
        simp only [Registry.evaluateAt, Registry.at?_of_place? hplace, hf] at hcrash
        exact ⟨name, condition, hf, hcrash⟩
      | group q label ids =>
        obtain ⟨v, hv, hcrash⟩ := List.exists_of_findSome?_eq_some hcrash
        obtain ⟨l, hl, rfl⟩ := List.mem_map.mp hv
        obtain ⟨m, hm, rfl⟩ := List.mem_map.mp hl
        have hlt := hb.members id q label ids h m hm
        simp only [dif_pos hlt] at hcrash
        exact ih m hlt (Nat.lt_trans hlt hid) hcrash

theorem Book.Coherent.evaluate_crash (hb : b.Coherent)
    (hsteady : ∀ name k, b.registry.find? name = some k → ∀ c, (k c).crash = none) (c : Context)
    {id : Node.Id} (hid : id < b.nodes.size) : (b.evaluate c id).crash = none := by
  refine Option.eq_none_iff_forall_ne_some.mpr fun crash h => ?_
  obtain ⟨name, k, hk, hcrash⟩ := hb.exists_crash hid h
  rw [hsteady name k hk c] at hcrash
  cases hcrash

theorem Book.evaluate_crash (hb : b.Coherent) (hsteady : b.registry.Steady) (c : Context)
    {id : Node.Id} (hid : id < b.nodes.size) : (b.evaluate c id).crash = none :=
  hb.evaluate_crash (fun _ _ hk => hsteady _ (Table.mem_of_lookup hk)) c hid

/-! ### Conditions that break down -/

/-- The condition does not break down, whatever it is checked against. -/
def Condition.Steady (k : Condition) : Prop :=
  ∀ c, (k c).crash = none

/-- **A check does not break down** if its window can be counted. -/
theorem Check.steady {k : Check} (hk : k.Countable) (name : String) :
    Condition.Steady fun c => k.evaluate name c :=
  fun c => Check.crash_evaluate_of_countable name c hk

namespace Condition

theorem steady_onField (name : String) (fields : List String) (default : Float)
    (compare : Float → Float → Bool) : (onField name fields default compare).Steady := by
  intro c
  unfold onField
  cases c.firstNumber fields <;> rfl

theorem steady_atrBelow (name : String) : (atrBelow name).Steady := by
  intro c
  simp only [atrBelow]
  split <;> rfl

theorem steady_averagesAligned (name : String) (above : Bool) :
    (averagesAligned name above).Steady := by
  intro c
  simp only [averagesAligned]
  split
  · split <;> rfl
  · rfl

theorem steady_priceBesideAverage (name : String) (above : Bool) :
    (priceBesideAverage name above).Steady := by
  intro c
  simp only [priceBesideAverage]
  split <;> rfl

theorem steady_priceBesideVwap (above : Bool) : (priceBesideVwap above).Steady := by
  intro c
  simp only [priceBesideVwap]
  split <;> rfl

/-- **The conditions that are known from the start do not break down.** -/
theorem steady_builtins : ∀ e ∈ builtins, e.2.Steady :=
  forall_builtins (fun name fields default compare _ => steady_onField name fields default compare)
    steady_atrBelow steady_averagesAligned steady_priceBesideAverage
    fun _ => steady_priceBesideVwap

end Condition

theorem Registry.builtin_steady : Registry.builtin.Steady := by
  intro e he
  rcases Registry.mem_registerAll he with he | he
  · exact Condition.steady_builtins e he
  · exact absurd he List.not_mem_nil

/-- **The conditions of a compiled book do not break down** if those of the base do not and the windows
of its checks can be counted. -/
theorem Book.compile_steady {config : Json} (h : Book.compile base config = .ok b)
    (hbase : base.Steady)
    (hcount : ∀ e ∈ b.registry.entries, ∀ k : Check, e.2 = (fun c => k.evaluate e.1 c) →
      k.Countable) : b.registry.Steady := by
  rintro ⟨name, condition⟩ he
  rcases Book.compile_conditions h _ he with hold | ⟨k, hk⟩
  · exact hbase _ hold
  · have hcondition : condition = fun c => k.evaluate name c := hk
    rw [hcondition]
    exact Check.steady (hcount _ he k hk) name

/-- **A rule of a compiled book breaks down as a condition of the base does**, or for a window that
cannot be counted. -/
theorem Book.compile_crash {config : Json} (h : Book.compile base config = .ok b) {c : Context}
    {id : Node.Id} (hid : id < b.nodes.size) {crash : Crash}
    (hcrash : (b.evaluate c id).crash = some crash) :
    crash = .countSum ∨ ∃ e ∈ base.entries, (e.2 c).crash = some crash := by
  obtain ⟨name, condition, hfind, hcrash⟩ := (compile_coherent h).exists_crash hid hcrash
  have he := Table.mem_of_lookup hfind
  rcases Book.compile_conditions h _ he with hold | ⟨k, hk⟩
  · exact .inr ⟨_, hold, hcrash⟩
  · have hcondition : condition = fun c => k.evaluate name c := hk
    rw [hcondition] at hcrash
    exact .inl ((Check.crash_evaluate name c).mp hcrash).2

end TopDown
