import TopDown.Proofs.Chart

/-!
# Configurations that differ in the audit

In the layout by timeframe the rules for and against going down from a timeframe are checked for the
audit only. Here we look at two configurations that differ in these rules and in nothing else
(`TopDown.withoutAudit`), and at the books that they become.

The two compilations do the same until they come to the groups that keep to timeframes
(`TopDown.assembleShared_congr`). From there on they may part: one of them may make nodes that the
other has no rules for, and named rules become nodes earlier or later. But both can be charted from
that point, and the rules for staying are made of the same rules at the same places. So the rules that
decide on the choice are twins (`TopDown.Book.exists_twins`). In the flat layout there are no rules
for the audit, and the books are the same (`TopDown.Book.eq_of_flat`).
-/

namespace TopDown

/-! ### Without the rules for the audit -/

/-- The value with its fields changed, if it is an object. -/
def Json.onFields (f : Table Json → Table Json) : Json → Json
  | .obj fields => .obj (f fields)
  | v => v

namespace Table

variable {α : Type}

/-- The table with the value under a name changed. -/
def adjust (name : String) (f : α → α) (t : Table α) : Table α :=
  t.map fun e => (e.1, if e.1 = name then f e.2 else e.2)

/-- The table without some names. -/
def without (names : List String) (t : Table α) : Table α :=
  t.filter fun e => e.1 ∉ names

theorem lookup_adjust (name : String) (f : α → α) (t : Table α) (key : String) :
    (t.adjust name f).lookup key = if key = name then (t.lookup key).map f else t.lookup key := by
  induction t with
  | nil => exact (ite_self _).symm
  | cons e rest ih =>
    obtain ⟨n, v⟩ := e
    rw [adjust] at ih ⊢
    rw [List.map_cons]
    by_cases hkey : key = n
    · subst hkey
      rw [List.lookup_cons_self, List.lookup_cons_self]
      split <;> rfl
    · rw [lookup_cons_of_ne hkey, lookup_cons_of_ne hkey, ih]

theorem lookup_without {names : List String} {key : String} (hkey : key ∉ names) (t : Table α) :
    (t.without names).lookup key = t.lookup key := by
  induction t with
  | nil => rfl
  | cons e rest ih =>
    obtain ⟨n, v⟩ := e
    rw [without] at ih ⊢
    by_cases hn : n ∈ names
    · have hne : key ≠ n := fun h => hkey (h ▸ hn)
      rw [List.filter_cons_of_neg (by simp [hn]), ih, lookup_cons_of_ne hne]
    · rw [List.filter_cons_of_pos (by simp [hn]), List.lookup_cons, List.lookup_cons, ih]

end Table

/-- The keys of the rules for and against going down from a timeframe. -/
def auditKeys : List String :=
  ["drop_to_lower_if_any", "forbid_drop_to_lower_if_any"]

/-- The groups of a timeframe without these rules. -/
def groupsWithoutAudit : Json → Json :=
  .onFields (.without auditKeys)

/-- The groups of all timeframes without these rules. -/
def layoutWithoutAudit : Json → Json :=
  .onFields (.mapValues groupsWithoutAudit)

/-- **The configuration without the rules for and against going down** from a timeframe. -/
def withoutAudit (root : Table Json) : Table Json :=
  root.adjust selectorKey (.onFields (.adjust "per_timeframe" layoutWithoutAudit))

section Same

variable {root root' : Table Json}

/-- Fields that are the same after a change are the same after it at their place, if nothing becomes
of no fields. -/
theorem Json.fieldsAt_of_onFields {f : Table Json → Table Json} (hf : f [] = []) {v v' : Json}
    {p : Path} {name : String}
    (h : ((v.fieldsAt p).lookup name).map (onFields f) =
      ((v'.fieldsAt p).lookup name).map (onFields f)) :
    f (v.fieldsAt (p.key name)) = f (v'.fieldsAt (p.key name)) := by
  have hfields (v : Json) : f (v.fieldsAt (p.key name)) =
      (((v.fieldsAt p).lookup name).map (onFields f)).elim [] fun w => w.fieldsAt [] := by
    rw [fieldsAt_key]
    cases (v.fieldsAt p).lookup name with
    | none => exact hf
    | some w =>
      cases w with
      | obj fields => rfl
      | null | bool _ | int _ | real _ | str _ | arr _ => exact hf
  rw [hfields, hfields, h]

/-- What is an object after a change was one before. -/
theorem Json.exists_of_onFields {f : Table Json → Table Json} {v : Option Json}
    {fields : Table Json} (h : v.map (onFields f) = some (.obj fields)) :
    ∃ fields', v = some (.obj fields') := by
  obtain ⟨w, rfl, hw⟩ := Option.map_eq_some_iff.mp h
  cases w with
  | obj fields' => exact ⟨fields', rfl⟩
  | null | bool _ | int _ | real _ | str _ | arr _ => cases hw

variable (hsame : withoutAudit root = withoutAudit root')
include hsame

/-- Other sections are the same. -/
theorem lookup_of_withoutAudit {key : String} (hkey : key ≠ selectorKey) :
    root.lookup key = root'.lookup key := by
  have h := congrArg (List.lookup key) hsame
  rwa [withoutAudit, withoutAudit, Table.lookup_adjust, Table.lookup_adjust, if_neg hkey,
    if_neg hkey] at h

/-- The section of the choice is the same but for the groups of the timeframes. -/
theorem selector_of_withoutAudit :
    Table.adjust "per_timeframe" layoutWithoutAudit ((Json.obj root).fieldsAt [.key selectorKey]) =
      Table.adjust "per_timeframe" layoutWithoutAudit
        ((Json.obj root').fieldsAt [.key selectorKey]) := by
  refine Json.fieldsAt_of_onFields (p := []) rfl ?_
  have h := congrArg (List.lookup selectorKey) hsame
  rwa [withoutAudit, withoutAudit, Table.lookup_adjust, Table.lookup_adjust, if_pos rfl,
    if_pos rfl] at h

theorem selectorLookup_of_withoutAudit {key : String} (hkey : key ≠ "per_timeframe") :
    ((Json.obj root).fieldsAt [.key selectorKey]).lookup key =
      ((Json.obj root').fieldsAt [.key selectorKey]).lookup key := by
  have h := congrArg (List.lookup key) (selector_of_withoutAudit hsame)
  rwa [Table.lookup_adjust, Table.lookup_adjust, if_neg hkey, if_neg hkey] at h

theorem layout_of_withoutAudit :
    (((Json.obj root).fieldsAt [.key selectorKey]).lookup "per_timeframe").map layoutWithoutAudit =
      (((Json.obj root').fieldsAt [.key selectorKey]).lookup "per_timeframe").map
        layoutWithoutAudit := by
  have h := congrArg (List.lookup "per_timeframe") (selector_of_withoutAudit hsame)
  rwa [Table.lookup_adjust, Table.lookup_adjust, if_pos rfl, if_pos rfl] at h

/-- The groups of the timeframes are the same but for the rules for the audit. -/
theorem groups_of_withoutAudit :
    Table.mapValues groupsWithoutAudit ((Json.obj root).fieldsAt groupsPlace) =
      Table.mapValues groupsWithoutAudit ((Json.obj root').fieldsAt groupsPlace) :=
  Json.fieldsAt_of_onFields (p := [.key selectorKey]) rfl (layout_of_withoutAudit hsame)

/-- The same keys spell timeframes. -/
theorem names_of_withoutAudit : Table.names ((Json.obj root).fieldsAt groupsPlace) =
    Table.names ((Json.obj root').fieldsAt groupsPlace) := by
  have h := congrArg Table.names (groups_of_withoutAudit hsame)
  simpa [Table.names, Table.mapValues, Function.comp_def] using h

/-- **The rules for staying are the same.** -/
theorem rulesAt_of_withoutAudit (key : String) :
    rulesAt root ((groupsPlace.key key).key "stay_on_if") =
      rulesAt root' ((groupsPlace.key key).key "stay_on_if") := by
  have hgroups : Table.without auditKeys ((Json.obj root).fieldsAt (groupsPlace.key key)) =
      Table.without auditKeys ((Json.obj root').fieldsAt (groupsPlace.key key)) := by
    refine Json.fieldsAt_of_onFields rfl ?_
    have h := congrArg (List.lookup key) (groups_of_withoutAudit hsame)
    rwa [Table.lookup_mapValues, Table.lookup_mapValues] at h
  have hstay := congrArg (List.lookup "stay_on_if") hgroups
  rw [Table.lookup_without (by decide), Table.lookup_without (by decide)] at hstay
  rw [rulesAt, rulesAt, Json.at?_key, Json.at?_key, hstay]

end Same

/-! ### Two compilations -/

open Assemble

section Compile

variable {rules : Table Rule} {root root' : Table Json} {a a' : Assembly} {b b' : Book}

theorem Json.fieldsAt_congr {v v' : Json} {p : Path} {name : String}
    (h : (v.fieldsAt p).lookup name = (v'.fieldsAt p).lookup name) :
    v.fieldsAt (p.key name) = v'.fieldsAt (p.key name) := by
  rw [fieldsAt_key, fieldsAt_key, h]

theorem given?_congr {fields fields' : Table Json} {key : String}
    (h : fields.lookup key = fields'.lookup key) :
    Json.given? fields key = Json.given? fields' key := by
  unfold Json.given?
  rw [h]

/-- A list depends on what stands under its key. -/
theorem listAt_congr {fields fields' : Table Json} {key : String}
    (h : fields.lookup key = fields'.lookup key) (p : Path) :
    listAt rules p fields key = listAt rules p fields' key := by
  unfold listAt
  rw [h]

/-- What is assembled before the groups that keep to timeframes: the named rules, the rules of the
timeframes, the mandatory filters, the rules for one minute, and the timeframe where nothing else
decides. -/
def assembleShared (root : Table Json) :
    Assemble (Table Rule × (Timeframe × ByTimeframe Block) × List Node.Id ×
      (Bool × List Node.Id) × Timeframe) := do
  let selector := (Json.obj root).fieldsAt [.key selectorKey]
  let rules ← ofParsed (parseNamed (ruleBodies root))
  enrolChecks rules
  let sections ← assembleValidation rules root
  let filters ← assembleFilters rules root selector
  let allowance ← assembleAllowance rules selector
  let default ← defaultOf selector
  return (rules, sections, filters, allowance, default)

theorem ruleBodies_of_withoutAudit (hsame : withoutAudit root = withoutAudit root') :
    ruleBodies root = ruleBodies root' := by
  rw [ruleBodies_eq, ruleBodies_eq]
  exact Json.fieldsAt_congr (p := []) (lookup_of_withoutAudit hsame (by decide))

/-- **It is the same**, if the configurations differ in the rules for the audit only. -/
theorem assembleShared_congr (hsame : withoutAudit root = withoutAudit root') :
    assembleShared root = assembleShared root' := by
  have hother {key : String} (hkey : key ≠ selectorKey) := lookup_of_withoutAudit hsame hkey
  have hselector {key : String} (hkey : key ≠ "per_timeframe") :=
    selectorLookup_of_withoutAudit hsame hkey
  have hsections (rules : Table Rule) :
      assembleValidation rules root = assembleValidation rules root' := by
    unfold assembleValidation
    rw [hother (by decide)]
  have hfilters (rules : Table Rule) :
      assembleFilters rules root ((Json.obj root).fieldsAt [.key selectorKey]) =
        assembleFilters rules root' ((Json.obj root').fieldsAt [.key selectorKey]) := by
    unfold assembleFilters
    rw [Table.has, hselector (by decide), ← Table.has, listAt_congr (hselector (by decide)),
      listAt_congr (hother (by decide))]
  have hallowance (rules : Table Rule) :
      assembleAllowance rules ((Json.obj root).fieldsAt [.key selectorKey]) =
        assembleAllowance rules ((Json.obj root').fieldsAt [.key selectorKey]) := by
    unfold assembleAllowance
    rw [given?_congr (hselector (by decide))]
  have hdefault : defaultOf ((Json.obj root).fieldsAt [.key selectorKey]) =
      defaultOf ((Json.obj root').fieldsAt [.key selectorKey]) := by
    unfold defaultOf
    rw [given?_congr (hselector (by decide))]
  simp only [assembleShared, ruleBodies_of_withoutAudit hsame, hsections, hfilters, hallowance, hdefault]

/-- It leads to a coherent assembly. -/
theorem assembleShared_coherent {base : Registry} {sections : Timeframe × ByTimeframe Block}
    {filters : List Node.Id} {allowance : Bool × List Node.Id} {default : Timeframe}
    (h : assembleShared root ⟨base, #[], []⟩ =
      .ok ((rules, sections, filters, allowance, default), a)) :
    a.Coherent rules ∧ Within (filters ++ allowance.2) a := by
  obtain ⟨rules', a₀, hrules, h⟩ := Assemble.bind_eq_ok.mp h
  obtain ⟨-, rfl⟩ := ofParsed_eq_ok hrules
  obtain ⟨_, a₁, hchecks, h⟩ := Assemble.bind_eq_ok.mp h
  obtain ⟨sections', a₂, hsections, h⟩ := Assemble.bind_eq_ok.mp h
  obtain ⟨filters', a₃, hfilters, h⟩ := Assemble.bind_eq_ok.mp h
  obtain ⟨allowance', a₄, hallowance, h⟩ := Assemble.bind_eq_ok.mp h
  obtain ⟨default', a₅, hdefault, h⟩ := Assemble.bind_eq_ok.mp h
  obtain ⟨heq, rfl⟩ := pure_eq_ok.mp h
  cases heq
  obtain rfl := (settles_defaultOf _).still hdefault
  obtain ⟨ha₁, -⟩ := enrolChecks_coherent (Assembly.coherent_start base rules) hchecks
  obtain ⟨ha₂, -, -⟩ := (keeps_validation keeps_coherent_list root).run ha₁ hsections
  obtain ⟨ha₃, -, hfilterIds⟩ := (keeps_filters keeps_coherent_list _ _).run ha₂ hfilters
  obtain ⟨ha₄, hgrows, hminuteIds⟩ := (keeps_allowance keeps_coherent_list _).run ha₃ hallowance
  refine ⟨ha₄, fun id hid => ?_⟩
  exact (List.mem_append.mp hid).elim (hfilterIds.mono hgrows id) (hminuteIds id)

/-- **How a book is finished** from an assembly before the groups that keep to timeframes: these are
assembled, and last the named rules that nothing has referred to. -/
def Book.FinishedFrom (b : Book) (rules : Table Rule) (root : Table Json) (start : Assembly) : Prop :=
  ∃ a₁ a₂, assembleLayout rules ((Json.obj root).fieldsAt [.key selectorKey]) start =
      .ok (b.selection.layout, a₁) ∧
    assembleAllNamed rules rules.names a₁ = .ok ((), a₂) ∧
    b.registry = a₂.registry ∧ b.nodes = a₂.nodes ∧ b.named = a₂.named

/-- A compilation comes past the assembly before the groups that keep to timeframes. -/
theorem Book.compile_shared {base : Registry} (h : Book.compile base (.obj root) = .ok b) :
    ∃ rules start, assembleShared root ⟨base, #[], []⟩ =
        .ok ((rules, (b.start, b.blocks), b.selection.filters,
          (b.selection.allowsMinute, b.selection.minuteRules), b.selection.default), start) ∧
      b.FinishedFrom rules root start := by
  obtain ⟨rules, a₁, a₂, a₃, a₄, hparsed, hchecks, hvalidation, hselection, hall, hfinished⟩ :=
    Book.compile_cases h
  obtain ⟨c₁, c₂, hfilters, hallowance, hdefault, hlayout⟩ := assembleSelection_cases hselection
  refine ⟨rules, c₂, ?_, a₃, a₄, hlayout, hall, hfinished⟩
  rw [assembleShared, hparsed]
  refine (Assemble.bind_run_ok rfl).trans <| (Assemble.bind_run_ok hchecks).trans <|
    (Assemble.bind_run_ok hvalidation).trans <| (Assemble.bind_run_ok hfilters).trans <|
    (Assemble.bind_run_ok hallowance).trans <| (Assemble.bind_run_ok hdefault).trans rfl

/-- **What two books have in common** if their configurations differ in the rules for the audit
only. -/
structure Book.Akin (b b' : Book) (rules : Table Rule) (start : Assembly) : Prop where
  /-- The assembly before the groups that keep to timeframes is coherent. -/
  coherent : start.Coherent rules
  /-- The rules of the selection have been assembled there. -/
  within : Within (b.selection.filters ++ b.selection.minuteRules) start
  /-- The mandatory filters. -/
  filters : b.selection.filters = b'.selection.filters
  /-- Whether one minute may be chosen. -/
  allowsMinute : b.selection.allowsMinute = b'.selection.allowsMinute
  /-- The rules that let one minute be chosen. -/
  minuteRules : b.selection.minuteRules = b'.selection.minuteRules
  /-- The timeframe where nothing else decides. -/
  default : b.selection.default = b'.selection.default
  /-- The rules of the timeframes. -/
  blocks : b.blocks = b'.blocks
  /-- The timeframe on which a cascade starts. -/
  cascade : b.start = b'.start

/-- **Two compilations part** no sooner than before the groups that keep to timeframes, if the
configurations differ in the rules for the audit only. -/
theorem Book.compile_akin {base : Registry} (hsame : withoutAudit root = withoutAudit root')
    (h : Book.compile base (.obj root) = .ok b) (h' : Book.compile base (.obj root') = .ok b') :
    ∃ rules start, b.Akin b' rules start ∧ b.FinishedFrom rules root start ∧
      b'.FinishedFrom rules root' start := by
  obtain ⟨rules, start, hshared, hfinished⟩ := Book.compile_shared h
  obtain ⟨rules', start', hshared', hfinished'⟩ := Book.compile_shared h'
  rw [← assembleShared_congr hsame, hshared] at hshared'
  simp only [Except.ok.injEq, Prod.mk.injEq] at hshared'
  obtain ⟨⟨rfl, ⟨hcascade, hblocks⟩, hfilters, ⟨hallows, hminute⟩, hdefault⟩, rfl⟩ := hshared'
  obtain ⟨hcoherent, hwithin⟩ := assembleShared_coherent hshared
  exact ⟨rules, start,
    ⟨hcoherent, hwithin, hfilters, hallows, hminute, hdefault, hblocks, hcascade⟩,
    hfinished, hfinished'⟩

/-- In the flat layout nothing is there for the audit only. -/
theorem Book.eq_of_flat {start : Assembly} (hsame : withoutAudit root = withoutAudit root')
    (hakin : b.Akin b' rules start) (h : b.FinishedFrom rules root start)
    (h' : b'.FinishedFrom rules root' start)
    (hflat : ((Json.obj root).fieldsAt [.key selectorKey]).lookup "per_timeframe" = none) :
    b = b' := by
  have hselector (key : String) (hkey : key ≠ "per_timeframe") :=
    selectorLookup_of_withoutAudit hsame hkey
  have hflat' : ((Json.obj root').fieldsAt [.key selectorKey]).lookup "per_timeframe" = none := by
    have hlayout := layout_of_withoutAudit hsame
    rwa [hflat, Option.map_none, eq_comm, Option.map_eq_none_iff] at hlayout
  have hlayouts : assembleLayout rules ((Json.obj root).fieldsAt [.key selectorKey]) =
      assembleLayout rules ((Json.obj root').fieldsAt [.key selectorKey]) := by
    unfold assembleLayout
    rw [hflat, hflat', listAt_congr (hselector "stay_on_15m_if" (by decide)),
      listAt_congr (hselector "drop_to_5m_if_any" (by decide)),
      listAt_congr (hselector "forbid_drop_to_5m_if_any" (by decide))]
  obtain ⟨a₁, a₂, hlayout, hall, hregistry, hnodes, hnamed⟩ := h
  obtain ⟨a₁', a₂', hlayout', hall', hregistry', hnodes', hnamed'⟩ := h'
  rw [← hlayouts, hlayout] at hlayout'
  simp only [Except.ok.injEq, Prod.mk.injEq] at hlayout'
  obtain ⟨hlayoutEq, rfl⟩ := hlayout'
  rw [hall] at hall'
  cases hall'
  obtain ⟨-, -, hfilters, hallows, hminute, hdefault, hblocks, hcascade⟩ := hakin
  obtain ⟨registry, nodes, named, blocks, ⟨layout, filters, allows, minute, default⟩, cascade⟩ := b
  obtain ⟨registry', nodes', named', blocks',
    ⟨layout', filters', allows', minute', default'⟩, cascade'⟩ := b'
  simp_all only

/-- **A book in the layout by timeframe has a chart**, in which the rules for staying were made of
those of the configuration. -/
theorem Book.FinishedFrom.charted {start : Assembly} {blocks : Table Json}
    (h : b.FinishedFrom rules root start)
    (hblocks : ((Json.obj root).fieldsAt [.key selectorKey]).lookup "per_timeframe" =
      some (.obj blocks))
    (hnodup : blocks.names.Nodup) :
    ∃ order groups paths a, b.selection.layout = .byTimeframe order groups ∧
      orderOf ((Json.obj root).fieldsAt [.key selectorKey]) start = .ok (order, start) ∧
      Charted rules start [] paths a ∧ b.nodes = a.nodes ∧
      ByKeys blocks (fun key g => ∃ rs,
        rulesAt root ((groupsPlace.key key).key "stay_on_if") = some rs ∧
        MadeAll rules start paths b.nodes ((groupsPlace.key key).key "stay_on_if") 0 rs g.stay)
        .empty groups := by
  obtain ⟨a₁, a₂, hlayout, hall, -, hnodes, -⟩ := h
  unfold assembleLayout at hlayout
  rw [hblocks] at hlayout
  dsimp only at hlayout
  obtain ⟨order, a₀, horder, h₁⟩ := Assemble.bind_eq_ok.mp hlayout
  obtain rfl := (settles_orderOf _).still horder
  obtain ⟨groups, a₃, hgroups, h₂⟩ := Assemble.bind_eq_ok.mp h₁
  obtain ⟨hselected, rfl⟩ := pure_eq_ok.mp h₂
  have hfields : (Json.obj root).fieldsAt groupsPlace = blocks :=
    Json.fieldsAt_of_lookup (p := [.key selectorKey]) hblocks
  have hplaces : ∀ e ∈ blocks, (Json.obj root).at? (groupsPlace.key e.1) = some e.2 :=
    fun e he => by
      rw [Json.at?_key, hfields]
      exact Table.lookup_of_mem hnodup he
  -- nothing has been made since the start
  have hfresh : ∀ e ∈ blocks, Fresh (groupsPlace.key e.1) [] :=
    fun e _ q hq => absurd hq List.not_mem_nil
  obtain ⟨paths₁, hadv, hbyKeys⟩ :=
    assembleGroups_charted hplaces hnodup (Charted.refl rules _) hfresh hgroups
  obtain ⟨paths, hadv'⟩ := assembleAllNamed_charted hadv.charted hall groupsPlace
  refine ⟨order, groups, paths, a₂, hselected, horder, hadv'.charted, hnodes, hbyKeys.imp ?_⟩
  rintro key g ⟨rs, hrs, hmade⟩
  rw [hnodes]
  exact ⟨rs, hrs, hadv'.madeAll hmade⟩

/-- **In the layout by timeframe the rules that decide are twins.** -/
theorem Book.exists_twins {start : Assembly} {blocks : Table Json}
    (hordered : (Json.obj root).Ordered)
    (hsame : withoutAudit root = withoutAudit root') (hakin : b.Akin b' rules start)
    (h : b.FinishedFrom rules root start) (h' : b'.FinishedFrom rules root' start)
    (hblocks : ((Json.obj root).fieldsAt [.key selectorKey]).lookup "per_timeframe" =
      some (.obj blocks)) :
    ∃ order groups groups' T, b.selection.layout = .byTimeframe order groups ∧
      b'.selection.layout = .byTimeframe order groups' ∧ b.Twins b' T ∧
      ∀ s : Station, s.Decides → List.Forall₂ T (s.rules b) (s.rules b') := by
  -- the other configuration has groups of the same timeframes
  obtain ⟨blocks', hblocks'⟩ : ∃ blocks' : Table Json,
      ((Json.obj root').fieldsAt [.key selectorKey]).lookup "per_timeframe" =
        some (.obj blocks') := by
    have hlayout := layout_of_withoutAudit hsame
    rw [hblocks] at hlayout
    exact Json.exists_of_onFields hlayout.symm
  have hfields : (Json.obj root).fieldsAt groupsPlace = blocks :=
    Json.fieldsAt_of_lookup (p := [.key selectorKey]) hblocks
  have hfields' : (Json.obj root').fieldsAt groupsPlace = blocks' :=
    Json.fieldsAt_of_lookup (p := [.key selectorKey]) hblocks'
  have hnames : blocks.names = blocks'.names := by
    rw [← hfields, ← hfields']
    exact names_of_withoutAudit hsame
  have hnodup : blocks.names.Nodup := hfields ▸ (Json.ordered_fieldsAt hordered groupsPlace).nodup
  obtain ⟨order, groups, paths, a, hlayout, horder, hcharted, hnodes, hgroups⟩ :=
    h.charted hblocks hnodup
  obtain ⟨order', groups', paths', a', hlayout', horder', hcharted', hnodes', hgroups'⟩ :=
    h'.charted hblocks' (hnames ▸ hnodup)
  -- timeframes are tried in the same order
  have horders : orderOf ((Json.obj root).fieldsAt [.key selectorKey]) =
      orderOf ((Json.obj root').fieldsAt [.key selectorKey]) := by
    unfold orderOf
    rw [given?_congr (selectorLookup_of_withoutAudit hsame (by decide))]
  rw [horders, horder'] at horder
  cases horder
  refine ⟨order, groups, groups', _, hlayout, hlayout',
    hcharted.twins hakin.coherent hcharted' hnodes hnodes', fun s hs => ?_⟩
  have hgroupsAt : b.groupsAt = groups := by
    funext tf
    rw [Book.groupsAt, hlayout]
  have hgroupsAt' : b'.groupsAt = groups' := by
    funext tf
    rw [Book.groupsAt, hlayout']
  have hflat : b.flatGroups = none := by rw [Book.flatGroups, hlayout]
  have hflat' : b'.flatGroups = none := by rw [Book.flatGroups, hlayout']
  cases s with
  | filters =>
    rw [Station.rules, Station.rules, ← hakin.filters]
    exact paired_former fun id hid => hakin.within id (List.mem_append_left _ hid)
  | minute =>
    rw [Station.rules, Station.rules, ← hakin.minuteRules]
    exact paired_former fun id hid => hakin.within id (List.mem_append_right _ hid)
  | stay tf =>
    rw [Station.rules, Station.rules, hgroupsAt, hgroupsAt']
    cases hkey : spelling? blocks tf with
    | none =>
      have hkey' : spelling? blocks' tf = none := by rw [← hkey, spelling?, spelling?, hnames]
      rw [hgroups.unspelt tf hkey, hgroups'.unspelt tf hkey']
      exact .nil
    | some key =>
      have hkey' : spelling? blocks' tf = some key := by rw [← hkey, spelling?, spelling?, hnames]
      obtain ⟨g, hg, rs, hrs, hmade⟩ := hgroups.spelt tf key hkey
      obtain ⟨g', hg', rs', hrs', hmade'⟩ := hgroups'.spelt tf key hkey'
      rw [rulesAt_of_withoutAudit hsame, hrs'] at hrs
      cases hrs
      rw [hg, hg']
      exact hmade.paired hakin.coherent hmade'
  | stayFlat | dropFlat | forbidFlat =>
    rw [Station.rules, Station.rules, hflat, hflat']
    exact .nil
  | drop _ | forbid _ => exact hs.elim

end Compile

end TopDown
