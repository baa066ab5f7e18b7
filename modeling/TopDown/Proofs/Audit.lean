import TopDown.Proofs.InPlace

/-!
# What is there for the audit only

The rules for and against going down from a timeframe are checked when the rules for staying do not
carry, so that the audit can show what they say. If two configurations differ in these rules only, one
would expect that every signal is entered on the same timeframe on the same ground.

`TopDown.Book.select_withoutAudit` says how far this is true. The rules for staying are twins in both
books, but they are checked in contexts that may differ: the thresholds of all three groups of a
timeframe are gathered, and those of the rules for staying are laid over them. So a threshold that a
rule for going down gives can *stray* to the rules for staying (`TopDown.Book.Stray`), if none of
these gives one for its name. Where the conditions of the rules for staying do not see what strays,
the audit is the only difference. Where they do, a rule for the audit changes the choice
(`TopDown.Book.select_strayThreshold`).

Conditions are looked up by name, and a check that is spelt out in place has the text of its place for
a name. So it is asked in addition that the rules that decide find the same conditions in both books.
Plain names always do, and so do checks that are spelt out among these rules or within named ones
(`TopDown.Book.sameConditions_of_leaves`). It takes a reference to the place of a check for the audit to
find different conditions; where references are to plain names only, there is none
(`TopDown.Book.sameConditions_of_references`).
-/

namespace TopDown

/-! ### Thresholds that stray -/

/-- **A threshold strays** to the rules for staying on a timeframe: a rule for or against going down
gives it, and no rule for staying gives one for its name. -/
def Book.Stray (b : Book) (tf : Timeframe) (name : String) : Prop :=
  (∃ t, b.Gives ((Station.drop tf).rules b ++ (Station.forbid tf).rules b) name (some t)) ∧
    ∀ t, ¬b.Gives ((Station.stay tf).rules b) name (some t)

/-- **The condition ignores the thresholds of some names**, of those that are laid over the facts. -/
def Condition.Ignores (k : Condition) (ignored : String → Prop) : Prop :=
  ∀ (c : Context) named named',
    (∀ name, ¬ignored name →
      (c.withThresholds named).threshold? name = (c.withThresholds named').threshold? name) →
    k (c.withThresholds named) = k (c.withThresholds named')

/-- A condition that heeds its own threshold only ignores the others. -/
theorem Condition.HeedsOnly.ignores {k : Condition} {name : String} {ignored : String → Prop}
    (hk : k.HeedsOnly name) (hname : ¬ignored name) : k.Ignores ignored :=
  fun c named named' h => hk c named named' (h name hname)

/-- What the rules of a group are checked in, with the thresholds that they give. -/
def Station.checkedIn (b : Book) (input : SelectionInput) (s : Station) : Context :=
  b.injected (s.context b input) (s.rules b)

section Stray

variable {b b' : Book} {input : SelectionInput} {tf : Timeframe} {name : String}

theorem Context.withThresholds_append (c : Context) (named named' : List (String × Float)) :
    (c.withThresholds named).withThresholds named' = c.withThresholds (named ++ named') := by
  simp [withThresholds, List.foldl_append]

/-- What several lists reach, one of them does. -/
theorem Book.Gives.of_append {roots roots' : List Node.Id} {threshold : Option Float}
    (h : b.Gives (roots ++ roots') name threshold) :
    b.Gives roots name threshold ∨ b.Gives roots' name threshold := by
  obtain ⟨id, place, hid, hnode⟩ := h
  have hreached : b.Reaches roots id ∨ b.Reaches roots' id := by
    clear hnode
    induction hid with
    | root h => exact (List.mem_append.mp h).imp .root .root
    | member _ hnode hm ih => exact ih.imp (.member · hnode hm) (.member · hnode hm)
  exact hreached.imp (⟨id, place, ·, hnode⟩) (⟨id, place, ·, hnode⟩)

/-- No threshold is gathered for a name exactly where no rule gives one. -/
theorem Book.lookup_thresholds_eq_none {roots : List Node.Id} :
    (b.thresholds roots).reverse.lookup name = none ↔ ∀ t, ¬b.Gives roots name (some t) := by
  rw [List.lookup_eq_none_iff]
  constructor
  · intro h t ht
    have hne := h _ (List.mem_reverse.mpr (Book.mem_thresholds.mpr ht))
    simp at hne
  · rintro h ⟨n, t⟩ he
    rw [bne_iff_ne]
    rintro rfl
    exact h t (Book.mem_thresholds.mp (List.mem_reverse.mp he))

/-- The rules for staying are checked with all thresholds of the timeframe, and then their own. -/
theorem Station.checkedIn_stay :
    (stay tf).checkedIn b input = (input.contextOf tf).withThresholds
      (b.thresholds ((stay tf).rules b ++ (drop tf).rules b ++ (forbid tf).rules b) ++
        b.thresholds ((stay tf).rules b)) := by
  have hall : (b.groupsAt tf).elim [] Groups.all =
      (stay tf).rules b ++ (drop tf).rules b ++ (forbid tf).rules b := by
    rw [rules, rules, rules]
    cases b.groupsAt tf <;> rfl
  rw [checkedIn, Book.injected, context, Context.withThresholds_append, hall]

/-- Where no threshold strays, the rules for staying see those that they give. -/
theorem Book.threshold?_of_not_stray (h : ¬b.Stray tf name) :
    ((Station.stay tf).checkedIn b input).threshold? name =
      ((b.thresholds ((Station.stay tf).rules b)).reverse.lookup name).or
        ((input.contextOf tf).threshold? name) := by
  rw [Station.checkedIn_stay, Context.lookup_withThresholds, List.reverse_append,
    List.lookup_append]
  cases hown : (b.thresholds ((Station.stay tf).rules b)).reverse.lookup name with
  | some t => rfl
  | none =>
    have hnot := Book.lookup_thresholds_eq_none.mp hown
    -- what another group gives would stray
    have hall : (b.thresholds ((Station.stay tf).rules b ++ (Station.drop tf).rules b ++
        (Station.forbid tf).rules b)).reverse.lookup name = none := by
      refine Book.lookup_thresholds_eq_none.mpr fun t ht => ?_
      rw [List.append_assoc] at ht
      exact ht.of_append.elim (hnot t) fun ht => h ⟨⟨t, ht⟩, hnot⟩
    rw [hall]
    rfl

end Stray

/-! ### The same conditions -/

section Conditions

variable {base : Registry} {root root' : Table Json} {b b' : Book}

/-- The rules that decide have the same conditions in both books. -/
def Book.SameConditions (b b' : Book) : Prop :=
  ∀ s : Station, s.Decides → ∀ name threshold k k', b.Gives (s.rules b) name threshold →
    b.registry.find? name = some k → b'.registry.find? name = some k' → k = k'

/-- The conditions of a compiled book, if names are plain. -/
theorem Book.compile_enrolled (hbase : ∀ name ∈ base.names, Plain name)
    (hordered : (Json.obj root).Ordered) (hnames : ∀ name ∈ (ruleBodies root).names, Plain name)
    (h : Book.compile base (.obj root) = .ok b) :
    ∃ rules, parseNamed (ruleBodies root) = .ok rules ∧ PlainBook base rules ∧
      Enrolled base root rules b.registry := by
  obtain ⟨rules, hparsed, hupheld⟩ := Book.compile_upheld hordered h
  have hsame : rules.names = (ruleBodies root).names := names_of_parseNamed hparsed
  have hplain : PlainBook base rules := ⟨hbase, fun name hn => hnames name (hsame ▸ hn)⟩
  have hnodup : rules.names.Nodup := by
    rw [hsame, ruleBodies_eq]
    exact (Json.ordered_fieldsAt hordered _).nodup
  obtain ⟨hholding, -⟩ := hupheld hplain.upholds fun a ha =>
    built_iff.mp (enrolChecks_built hnodup ha)
  exact ⟨rules, hparsed, hplain, hholding.carried.registry⟩

/-- A plain name is not the text of a place, so its condition is that of a named check or one of the
base. -/
theorem Enrolled.find?_of_plain {rules : Table Rule} {r : Registry} {name : String} {k : Condition}
    (hr : Enrolled base root rules r) (hnames : PlainNames rules) (hname : Plain name)
    (hno : ∀ check, rules.lookup name ≠ some (.check check)) (hk : r.find? name = some k) :
    base.find? name = some k := by
  rcases hr.origin name k hno hk with hold | ⟨p, check, hocc, rfl, -⟩
  · exact hold
  · exact absurd hname (hocc.not_plain hnames)

/-- **Plain names and checks in place stand for the same conditions** in books of configurations that
differ in the rules for the audit only, if the checks are not among these rules. -/
theorem Book.sameConditions_of_leaves (hbase : ∀ name ∈ base.names, Plain name)
    (hordered : (Json.obj root).Ordered) (hordered' : (Json.obj root').Ordered)
    (hnames : ∀ name ∈ (ruleBodies root).names, Plain name)
    (hsame : withoutAudit root = withoutAudit root')
    (h : Book.compile base (.obj root) = .ok b) (h' : Book.compile base (.obj root') = .ok b')
    (hleaves : ∀ s : Station, s.Decides → ∀ name threshold, b.Gives (s.rules b) name threshold →
      Plain name ∨ ∃ rules q k, parseNamed (ruleBodies root) = .ok rules ∧
        Occurs root rules q (.check k) ∧ name = q.render ∧ ¬AuditPlace q) : b.SameConditions b' := by
  have hbodies : ruleBodies root = ruleBodies root' := ruleBodies_of_withoutAudit hsame
  obtain ⟨rules, hparsed, hbook, henrolled⟩ := Book.compile_enrolled hbase hordered hnames h
  obtain ⟨rules', hparsed', -, henrolled'⟩ :=
    Book.compile_enrolled hbase hordered' (hbodies ▸ hnames) h'
  rw [← hbodies, hparsed] at hparsed'
  cases hparsed'
  intro s hs name threshold k k' hgives hk hk'
  rcases hleaves s hs name threshold hgives with hname | ⟨rules', q, check, hparsed', hocc, rfl, hnot⟩
  · by_cases hcheck : ∃ check, rules.lookup name = some (.check check)
    · obtain ⟨check, hcheck⟩ := hcheck
      rw [henrolled.checks name check hcheck] at hk
      rw [henrolled'.checks name check hcheck] at hk'
      exact Option.some.inj (hk.symm.trans hk')
    · have hno : ∀ check, rules.lookup name ≠ some (.check check) :=
        fun check hc => hcheck ⟨check, hc⟩
      have hold := henrolled.find?_of_plain hbook.rules hname hno hk
      have hold' := henrolled'.find?_of_plain hbook.rules hname hno hk'
      exact Option.some.inj (hold.symm.trans hold')
  · -- the check stands at the same place in both configurations
    rw [hparsed] at hparsed'
    cases hparsed'
    rw [hbook.eq_of_find?_render henrolled hocc hk,
      hbook.eq_of_find?_render henrolled' (hocc.of_withoutAudit hsame hnot) hk']

/-- **All rules that decide have the same conditions** if every reference of the configuration is to a
plain name, whatever checks are spelt out. -/
theorem Book.sameConditions_of_references (hbase : ∀ name ∈ base.names, Plain name)
    (hordered : (Json.obj root).Ordered) (hordered' : (Json.obj root').Ordered)
    (hnames : ∀ name ∈ (ruleBodies root).names, Plain name)
    (hsame : withoutAudit root = withoutAudit root')
    (h : Book.compile base (.obj root) = .ok b) (h' : Book.compile base (.obj root') = .ok b')
    (hreferences : ∀ rules, parseNamed (ruleBodies root) = .ok rules →
      ∀ q name threshold, Occurs root rules q (.reference name threshold) → Plain name) :
    b.SameConditions b' := by
  obtain ⟨rules, hparsed, -, -⟩ := Book.compile_enrolled hbase hordered hnames h
  refine sameConditions_of_leaves hbase hordered hordered' hnames hsame h h' ?_
  intro s hs name threshold hgives
  rcases Book.gives_cases hordered h hparsed hs hgives with ⟨q, t, hocc⟩ | ⟨q, k, hocc⟩
  · exact .inl (hreferences rules hparsed q name t hocc)
  · exact .inr ⟨rules, q, k, hparsed, hocc⟩

end Conditions

/-! ### Decisions -/

section Decisions

variable {b b' : Book} {input : SelectionInput}

/-- The rules for staying ignore what strays to them, in either book. -/
def Book.Unswayed (b b' : Book) : Prop :=
  ∀ tf name threshold k, b.Gives ((Station.stay tf).rules b) name threshold →
    b.registry.find? name = some k → k.Ignores fun n => b.Stray tf n ∨ b'.Stray tf n

/-- The rules for staying see the same threshold of a name that does not stray. -/
theorem Book.threshold?_eq_of_not_stray {tf : Timeframe} {name : String}
    (hthresholds : b.thresholds ((Station.stay tf).rules b) =
      b'.thresholds ((Station.stay tf).rules b'))
    (h : ¬b.Stray tf name) (h' : ¬b'.Stray tf name) :
    ((Station.stay tf).checkedIn b input).threshold? name =
      ((Station.stay tf).checkedIn b' input).threshold? name := by
  rw [threshold?_of_not_stray h, threshold?_of_not_stray h', hthresholds]

/-- **The rules that decide have the same verdicts** in two books in which they are twins, if their
conditions are the same and ignore the thresholds that stray. -/
theorem Book.Twins.results_eq {T : Node.Id → Node.Id → Prop} (hT : b.Twins b' T) (hb : b.Coherent)
    (hb' : b'.Coherent) {s : Station} (hs : s.Decides)
    (hrules : List.Forall₂ T (s.rules b) (s.rules b')) (hconditions : b.SameConditions b')
    (hunswayed : b.Unswayed b') : s.results b input = s.results b' input := by
  have hthresholds : b.thresholds (s.rules b) = b'.thresholds (s.rules b') := hT.thresholds hrules
  refine hT.evaluateAll hb hb' hrules fun name threshold hgives k k' hk hk' => ?_
  obtain rfl := hconditions s hs name threshold k k' hgives hk hk'
  show k (s.checkedIn b input) = k (s.checkedIn b' input)
  cases s with
  | filters | minute | stayFlat | dropFlat | forbidFlat =>
    -- nothing else is laid over the facts
    rw [Station.checkedIn, Station.checkedIn, Book.injected, Book.injected, hthresholds]
    rfl
  | stay tf =>
    rw [Station.checkedIn_stay, Station.checkedIn_stay]
    refine hunswayed tf name threshold k hgives hk _ _ _ fun n hn => ?_
    rw [← Station.checkedIn_stay, ← Station.checkedIn_stay]
    exact threshold?_eq_of_not_stray hthresholds (mt .inl hn) (mt .inr hn)
  | drop _ | forbid _ => exact hs.elim

/-- **The rules for and against going down are there for the audit**, as far as their thresholds do
not stray. Two configurations that differ in these rules only become books with the following
property. Wherever the rules for staying on a timeframe see different thresholds for a name, one has
strayed there. And if the rules that decide have the same conditions and ignore what strays, then for
every input the choice and its ground are the same, and every group that decides is kept alike; and
unless a rule for or against going down breaks down, either selection breaks down if the other does. -/
theorem Book.select_withoutAudit {base : Registry} {root root' : Table Json}
    (hordered : (Json.obj root).Ordered) (hsame : withoutAudit root = withoutAudit root')
    (h : Book.compile base (.obj root) = .ok b) (h' : Book.compile base (.obj root') = .ok b') :
    (∀ input tf name, ((Station.stay tf).checkedIn b input).threshold? name ≠
      ((Station.stay tf).checkedIn b' input).threshold? name → b.Stray tf name ∨ b'.Stray tf name) ∧
    (b.SameConditions b' → b.Unswayed b' → ∀ input,
      (b.select input).choice = (b'.select input).choice ∧
      (b.select input).ground = (b'.select input).ground ∧
      (∀ s : Station, s.Decides →
        (b.select input).groups.lookup s.name = (b'.select input).groups.lookup s.name) ∧
      ((∀ s : Station, ¬s.Decides → ∀ l ∈ s.results b input ++ s.results b' input,
        l.verdict.crash = none) →
        ((b.select input).crash = none ↔ (b'.select input).crash = none))) := by
  obtain ⟨rules, start, hakin, hfinished, hfinished'⟩ := Book.compile_akin hsame h h'
  cases hlayout : ((Json.obj root).fieldsAt [.key selectorKey]).lookup "per_timeframe" with
  | none =>
    obtain rfl := Book.eq_of_flat hsame hakin hfinished hfinished' hlayout
    exact ⟨fun _ _ _ hne => absurd rfl hne, fun _ _ _ => ⟨rfl, rfl, fun _ _ => rfl, fun _ => .rfl⟩⟩
  | some v =>
    cases v with
    | obj blocks =>
      obtain ⟨order, groups, groups', T, horder, horder', hT, hrules⟩ :=
        Book.exists_twins hordered hsame hakin hfinished hfinished' hlayout
      refine ⟨fun input tf name hne => ?_, fun hconditions hunswayed input => ?_⟩
      · -- what the rules for staying give is the same, so the difference comes from elsewhere
        have hthresholds := hT.thresholds (hrules (.stay tf) trivial)
        by_contra hstray
        exact hne (threshold?_eq_of_not_stray hthresholds (mt .inl hstray) (mt .inr hstray))
      · have hresults (s : Station) (hs : s.Decides) : s.results b input = s.results b' input :=
          hT.results_eq (compile_coherent h) (compile_coherent h') hs (hrules s hs) hconditions
            hunswayed
        -- both selections go the same way
        obtain ⟨choice, ground, way, hway⟩ := b.exists_chooses input
        have hway' := hway.transfer horder horder' hakin.allowsMinute hakin.default hresults
        refine ⟨hway.select.1.trans hway'.select.1.symm,
          hway.select.2.1.trans hway'.select.2.1.symm,
          fun s hs => hway.lookup_eq hway' (hresults s hs), fun haudit => ?_⟩
        rw [hway.crash_iff, hway'.crash_iff]
        refine forall_congr' fun s => forall_congr' fun _ => ?_
        by_cases hs : s.Decides
        · rw [hresults s hs]
        · exact ⟨fun _ l hl => haudit s hs l (List.mem_append_right _ hl),
            fun _ l hl => haudit s hs l (List.mem_append_left _ hl)⟩
    | null | bool _ | int _ | real _ | str _ | arr _ =>
      obtain ⟨a₁, -, hrefused, -⟩ := hfinished
      unfold assembleLayout at hrefused
      rw [hlayout] at hrefused
      exact absurd hrefused Assemble.fail_ne_ok

end Decisions

/-- A configuration that stays on fifteen minutes with a trend of some strength, and lists rules for
going down from them. -/
def staysWithTrend (drop : List Json) : Table Json :=
  [("execution_selector", .obj [("per_timeframe", .obj [("15m", .obj [
      ("drop_to_lower_if_any", .arr drop), ("stay_on_if", .arr [.str "adx_trending"])])])]),
    ("validation", .obj [("timeframe", .obj [])])]

/-- A signal for buying, with a trend of some strength. -/
def trendInput : SelectionInput :=
  ⟨.long, .ofFacts "BTCUSDT" .m15 [("adx", .number 30.0)], ByTimeframe.empty⟩

/-- The names of leaves are names of nodes. -/
theorem Book.Gives.mem_labels {b : Book} {roots : List Node.Id} {name : String}
    {threshold : Option Float} (h : b.Gives roots name threshold) :
    name ∈ b.nodes.toList.map Node.label := by
  obtain ⟨id, place, -, hnode⟩ := h
  exact List.mem_map.mpr ⟨_, Array.mem_toList_iff.mpr (Array.mem_of_getElem? hnode), rfl⟩

/-- The names of thresholds are names of leaves that give one. -/
theorem Book.Gives.mem_thresholds {b : Book} {roots : List Node.Id} {name : String} {t : Float}
    (h : b.Gives roots name (some t)) :
    name ∈ (b.nodes.toList.filterMap Node.threshold?).map (·.1) := by
  obtain ⟨id, place, -, hnode⟩ := h
  have hmem := Array.mem_toList_iff.mpr (Array.mem_of_getElem? hnode)
  exact List.mem_map.mpr ⟨(name, t), List.mem_filterMap.mpr ⟨_, hmem, rfl⟩, rfl⟩

/-- A rule for going down on another condition leaves the choice as it is. -/
theorem Book.select_withoutAudit_trend : ∃ b b',
    withoutAudit (staysWithTrend []) =
      withoutAudit (staysWithTrend [.obj [("rsi_bullish", .int 40)]]) ∧
    Book.compile .builtin (.obj (staysWithTrend [])) = .ok b ∧
    Book.compile .builtin (.obj (staysWithTrend [.obj [("rsi_bullish", .int 40)]])) = .ok b' ∧
    b.SameConditions b' ∧ b.Unswayed b' ∧
    (b.select trendInput).choice = (b'.select trendInput).choice ∧
    (b.select trendInput).ground = (b'.select trendInput).ground := by
  have hrun : ((Book.compile .builtin (.obj (staysWithTrend []))).toOption.map fun b =>
      (b.nodes.toList.map Node.label, (b.nodes.toList.filterMap Node.threshold?).map (·.1))) =
      some (["adx_trending"], []) := by decide +kernel
  have hrun' : ((Book.compile .builtin
      (.obj (staysWithTrend [.obj [("rsi_bullish", .int 40)]]))).toOption.map fun b =>
      (b.nodes.toList.filterMap Node.threshold?).map (·.1)) = some ["rsi_bullish"] := by
    decide +kernel
  obtain ⟨b, hb, hrun⟩ := Option.map_eq_some_iff.mp hrun
  obtain ⟨b', hb', hstray'⟩ := Option.map_eq_some_iff.mp hrun'
  obtain ⟨hlabels, hstray⟩ := Prod.mk.inj hrun
  have hcompile := toOption_eq_some.mp hb
  have hcompile' := toOption_eq_some.mp hb'
  have hordered : (Json.obj (staysWithTrend [])).Ordered := by decide +kernel
  have hordered' : (Json.obj (staysWithTrend [.obj [("rsi_bullish", .int 40)]])).Ordered := by
    decide +kernel
  have hsame : withoutAudit (staysWithTrend []) =
      withoutAudit (staysWithTrend [.obj [("rsi_bullish", .int 40)]]) := rfl
  have hnames : ∀ name ∈ (ruleBodies (staysWithTrend [])).names, Plain name :=
    fun name hn => absurd hn List.not_mem_nil
  -- the only condition of the first book
  have honly {roots : List Node.Id} {name : String} {threshold : Option Float}
      (hgives : b.Gives roots name threshold) : name = "adx_trending" := by
    have hmem := hgives.mem_labels
    rw [hlabels] at hmem
    exact List.mem_singleton.mp hmem
  have hplain : Plain "adx_trending" := by decide
  have hconditions : b.SameConditions b' :=
    Book.sameConditions_of_leaves plain_builtin hordered hordered' hnames hsame hcompile hcompile'
      fun s _ name threshold hgives => .inl (honly hgives ▸ hplain)
  have hunswayed : b.Unswayed b' := fun tf name threshold k hgives hk => by
    obtain rfl := honly hgives
    obtain ⟨rules, hparsed, hbook, henrolled⟩ :=
      Book.compile_enrolled plain_builtin hordered hnames hcompile
    cases hparsed
    have hbuiltin := henrolled.find?_of_plain hbook.rules hplain (fun _ hc => by cases hc) hk
    have hheeds : k.HeedsOnly "adx_trending" := by
      rcases Registry.mem_registerAll (Table.mem_of_lookup hbuiltin) with he | he
      · exact Condition.heedsOnly_builtins _ he
      · exact absurd he List.not_mem_nil
    refine hheeds.ignores fun hstrays => ?_
    rcases hstrays with ⟨⟨t, ht⟩, -⟩ | ⟨⟨t, ht⟩, -⟩
    · have hmem := ht.mem_thresholds
      rw [hstray] at hmem
      exact absurd hmem List.not_mem_nil
    · have hmem := ht.mem_thresholds
      rw [hstray'] at hmem
      exact absurd hmem (by decide)
  obtain ⟨hchoice, hground, -⟩ := (Book.select_withoutAudit hordered hsame hcompile hcompile').2
    hconditions hunswayed trendInput
  exact ⟨b, b', hsame, hcompile, hcompile', hconditions, hunswayed, hchoice, hground⟩

/-! ### A rule for the audit that matters -/

section Within

variable {b : Book} {input : SelectionInput} {tf : Timeframe}

/-- Whether the rules for staying carry, gathering their thresholds within some steps. -/
def Station.stayWithin (b : Book) (n : Nat) (input : SelectionInput) (tf : Timeframe) :
    Option Bool :=
  let rules := (stay tf).rules b
  let all := rules ++ (drop tf).rules b ++ (forbid tf).rules b
  (Book.thresholdsWithin b.nodes n (List.range b.nodes.size) all.reverse).bind fun given =>
    (Book.thresholdsWithin b.nodes n (List.range b.nodes.size) rules.reverse).map fun own =>
      (stay tf).judge (b.evaluateAll ((input.contextOf tf).withThresholds (given ++ own)) rules)

theorem Station.passes_of_within {n : Nat} {passed : Bool}
    (h : stayWithin b n input tf = some passed) : (stay tf).passes b input = passed := by
  obtain ⟨given, hgiven, h⟩ := Option.bind_eq_some_iff.mp h
  obtain ⟨own, hown, rfl⟩ := Option.map_eq_some_iff.mp h
  rw [passes_eq_judge]
  show (stay tf).judge (b.evaluateAll ((stay tf).checkedIn b input) _) = _
  rw [checkedIn_stay, Book.thresholds, Book.thresholds, Book.thresholdsFrom_of_within hgiven,
    Book.thresholdsFrom_of_within hown]

/-- The first timeframe of the order is chosen whose rules for staying carry, if no filter fails and
one minute is not allowed. -/
theorem Book.select_first {order : List Timeframe} {groups : ByTimeframe Groups}
    (hlayout : b.selection.layout = .byTimeframe order groups)
    (hfilters : Station.filters.Passes b input) (hallowed : b.selection.allowsMinute = false) :
    ((b.select input).choice, (b.select input).ground) =
      match order.find? fun tf => (Station.stay tf).passes b input with
      | some tf => (.ofTimeframe tf, .stay tf)
      | none => (.ofTimeframe b.selection.default, .fallback) := by
  cases hfind : order.find? fun t => (Station.stay t).passes b input with
  | some tf =>
    obtain ⟨hstay, before, after, horder, hbefore⟩ := List.find?_eq_some_iff_append.mp hfind
    have hway : b.Chooses input _ _ _ := .stay hfilters hlayout horder
      (fun t ht hp => by simpa [(Station.passes_iff b input _).mpr hp] using hbefore t ht)
      ((Station.passes_iff b input _).mp hstay)
    exact Prod.ext hway.select.1 hway.select.2.1
  | none =>
    have hway : b.Chooses input _ _ _ := .fallback hfilters hlayout
      (fun t ht hp => List.find?_eq_none.mp hfind t ht ((Station.passes_iff b input _).mpr hp))
      (fun ha => by rw [hallowed] at ha; cases ha)
    exact Prod.ext hway.select.1 hway.select.2.1

/-- The first timeframe of an order whose rules for staying carry, within some steps. -/
def Book.firstWithin (b : Book) (n : Nat) (input : SelectionInput) :
    List Timeframe → Option (Option Timeframe)
  | [] => some none
  | tf :: rest => (Station.stayWithin b n input tf).bind fun carries =>
    if carries then some (some tf) else b.firstWithin n input rest

theorem Book.find?_of_within {n : Nat} {order : List Timeframe} {first : Option Timeframe}
    (h : b.firstWithin n input order = some first) :
    (order.find? fun tf => (Station.stay tf).passes b input) = first := by
  induction order with
  | nil => exact Option.some.inj h
  | cons tf rest ih =>
    obtain ⟨carries, hcarries, h⟩ := Option.bind_eq_some_iff.mp h
    have hpasses := Station.passes_of_within hcarries
    rw [List.find?_cons]
    cases carries with
    | true => simpa only [hpasses] using Option.some.inj h
    | false => simpa only [hpasses] using ih h

/-- The choice in the layout by timeframe without filters and one minute, within some steps. -/
def Book.selectWithin (b : Book) (n : Nat) (input : SelectionInput) : Option (Choice × Ground) :=
  match b.selection.layout, b.selection.filters, b.selection.allowsMinute with
  | .byTimeframe order _, [], false => (b.firstWithin n input order).map fun
    | some tf => (.ofTimeframe tf, .stay tf)
    | none => (.ofTimeframe b.selection.default, .fallback)
  | _, _, _ => none

theorem Book.select_of_within {n : Nat} {choice : Choice} {ground : Ground}
    (h : b.selectWithin n input = some (choice, ground)) :
    (b.select input).choice = choice ∧ (b.select input).ground = ground := by
  unfold selectWithin at h
  split at h
  · rename_i order groups hlayout hnone hallowed
    obtain ⟨first, hfirst, h⟩ := Option.map_eq_some_iff.mp h
    have hfilters : Station.filters.Passes b input := fun l hl => by
      rw [Station.results, Station.rules, hnone] at hl
      exact absurd hl List.not_mem_nil
    have hselect := Book.select_first hlayout hfilters hallowed
    rw [Book.find?_of_within hfirst] at hselect
    cases first <;> (cases h; exact Prod.mk.inj hselect)
  · cases h

end Within

/-- **A rule for going down that changes the choice.** Without it the trend is strong enough by the
default of the condition, and fifteen minutes are kept. The rule asks for a stronger trend before it
speaks for going down; its threshold strays to the rule for staying, which does not hold then. -/
theorem Book.select_strayThreshold : ∃ b b',
    withoutAudit (staysWithTrend []) =
      withoutAudit (staysWithTrend [.obj [("adx_trending", .int 40)]]) ∧
    Book.compile .builtin (.obj (staysWithTrend [])) = .ok b ∧
    Book.compile .builtin (.obj (staysWithTrend [.obj [("adx_trending", .int 40)]])) = .ok b' ∧
    (b.select trendInput).choice = .m15 ∧ (b.select trendInput).ground = .stay .m15 ∧
    (b'.select trendInput).choice = .m5 ∧ (b'.select trendInput).ground = .fallback := by
  have hrun : ((Book.compile .builtin (.obj (staysWithTrend []))).toOption.map fun b =>
      b.selectWithin 9 trendInput) = some (some (.m15, .stay .m15)) := by decide +kernel
  have hrun' : ((Book.compile .builtin
      (.obj (staysWithTrend [.obj [("adx_trending", .int 40)]]))).toOption.map fun b =>
      b.selectWithin 9 trendInput) = some (some (.m5, .fallback)) := by decide +kernel
  obtain ⟨b, hb, hselect⟩ := Option.map_eq_some_iff.mp hrun
  obtain ⟨b', hb', hselect'⟩ := Option.map_eq_some_iff.mp hrun'
  obtain ⟨hchoice, hground⟩ := Book.select_of_within hselect
  obtain ⟨hchoice', hground'⟩ := Book.select_of_within hselect'
  exact ⟨b, b', rfl, toOption_eq_some.mp hb, toOption_eq_some.mp hb', hchoice, hground, hchoice',
    hground'⟩

end TopDown
