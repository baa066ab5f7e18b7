import TopDown.Proofs.Origin
import TopDown.Proofs.Ready
import TopDown.Proofs.Replay
import TopDown.Proofs.Thresholds

/-!
# The rules none of which may fail

A configuration may list its mandatory filters at the top or in the section of the choice, and the
latter comes first. We follow a list at the top to the place where it does its work. The nodes that a
book keeps as its filters spell the list that counts (`TopDown.Book.compile_filters`), whatever else
the configuration has and whatever names it chooses. Where one of them is decided and has failed, the
selection answers with no timeframe and looks at nothing else (`TopDown.Book.select_of_filtersFail`), so
that no report of a run by the rules has a timeframe to enter on
(`TopDown.Pipeline.execution_of_filtersFail`).

Everywhere else a key without a value counts as absent. Here it does not: if the section of the choice
has the key with no value under it, the empty list that this stands for takes the place of the list at
the top, and no filter is left (`TopDown.Book.load_filters_lost`). `TopDown.Book.load_filters` says
both.
-/

namespace TopDown

/-! ### Lists that are read -/

theorem Rule.length_of_parseItems {p : Path} {i : Nat} {items : List Json} {rs : List Rule}
    (h : parseItems p i items = .ok rs) : rs.length = items.length := by
  induction items generalizing i rs with
  | nil =>
    cases h
    rfl
  | cons v rest ih =>
    rw [parseItems] at h
    obtain ⟨r, -, h⟩ := bind_eq_ok.mp h
    obtain ⟨rs', hrs, h⟩ := bind_eq_ok.mp h
    cases h
    rw [List.length_cons, List.length_cons, ih hrs]

variable {base : Registry} {root : Table Json} {b : Book}

/-- A configuration that is loaded compiles, and its review has no errors. -/
theorem Book.load_eq_ok {config : Json} {report : Report} (h : load base config = .ok (b, report)) :
    compile base config = .ok b ∧ (review base config).errors = [] := by
  dsimp only [load] at h
  split at h
  · rename_i hclean
    obtain ⟨b', hb, h⟩ := bind_eq_ok.mp h
    cases h
    exact ⟨hb, List.isEmpty_iff.mp hclean⟩
  · cases h

/-- A list of filters at the top that passes the review can be read. -/
theorem exists_filters_of_review (hclean : (review base (.obj root)).errors = []) {v : Json}
    (hv : root.lookup "filters_mandatory" = some v) :
    ∃ rs, Rule.parseList [.key "filters_mandatory"] v = .ok rs := by
  have hremarks := Review.clean_of_report hclean
  simp only [Review.remarks, Review.sections, Review.selection, Review.clean_append] at hremarks
  obtain ⟨⟨⟨⟨-, -⟩, hlist, -⟩, -⟩, -⟩ := hremarks
  rw [Review.listAt, hv] at hlist
  obtain ⟨rs, hrs, -⟩ := Review.list_clean hlist
  exact ⟨rs, hrs⟩

/-! ### The list that counts -/

/-- **The filters of a book spell the list that counts.** -/
theorem Book.compile_filters (h : compile base (.obj root) = .ok b) :
    ∃ rules rs, parseNamed (ruleBodies root) = .ok rules ∧
      rulesAt root (filtersPlace root) = some rs ∧
      SpellsAll ⟨b.registry, b.nodes, b.named⟩ rules (filtersPlace root) 0 rs b.selection.filters := by
  obtain ⟨rules, a₁, a₂, a₃, a₄, hparsed, hchecks, hvalidation, hselection, hall, hregistry, hnodes,
    hnamed⟩ := compile_cases h
  have hrules := fullRules_of_parseNamed hparsed
  have hlists := keeps_spelt_list hrules
  -- before the section, the nodes are made of rules
  obtain ⟨hspelt₁, -, -⟩ :=
    (keeps_enrolChecks keeps_spelt_enrol rules).run (Assembly.spelt_start base rules) hchecks
  obtain ⟨hspelt₂, -, -⟩ := (keeps_validation hlists root).run hspelt₁ hvalidation
  obtain ⟨c₁, c₂, hfilters, hallowance, -, hlayout⟩ := assembleSelection_cases hselection
  obtain ⟨rs, hrs, hlist⟩ := assembleFilters_eq_ok hfilters
  obtain ⟨hkept, hspells⟩ := assembleList_spelt hrules (fullAll_of_rulesAt hrs) hspelt₂ hlist
  -- what comes after the filters only adds to the assembly
  obtain ⟨hspelt₃, hgrows₃, -⟩ := (keeps_allowance hlists _).run hkept.holding hallowance
  obtain ⟨hspelt₄, hgrows₄, -⟩ := (keeps_layout hlists _).run hspelt₃ hlayout
  obtain ⟨-, hgrows, -⟩ := (keeps_allNamed (keeps_spelt_named hrules) _).run hspelt₄ hall
  refine ⟨rules, rs, hparsed, hrs, ?_⟩
  rw [hregistry, hnodes, hnamed]
  exact hspells.mono (hgrows₃.trans (hgrows₄.trans hgrows))

/-! ### A filter that fails -/

/-- **A filter fails**: among the filters, checked together as one list, one is decided and has not
passed. -/
def Book.FiltersFail (b : Book) (c : Context) : Prop :=
  ∃ l ∈ b.evaluateList c b.selection.filters, l.verdict.missing = false ∧ l.verdict.passed = false

variable {input : SelectionInput}

/-- The filters let a selection through unless one of them fails. -/
theorem Station.not_passes_filters :
    ¬Station.filters.Passes b input ↔ b.FiltersFail input.baseContext := by
  show (¬∀ l ∈ _, _) ↔ _
  simp only [not_forall, Bool.not_eq_true, exists_prop]
  rfl

/-- **Where a filter fails, no timeframe is chosen**, and nothing but the filters is looked at. -/
theorem Book.select_of_filtersFail (h : b.FiltersFail input.baseContext) :
    (b.select input).choice = .none ∧ (b.select input).ground = .filtersFailed ∧
      (b.select input).groups =
        [("filters_mandatory", ⟨false, b.evaluateList input.baseContext b.selection.filters⟩)] ∧
      (b.select input).crash = Verdict.firstCrash
        ((b.evaluateList input.baseContext b.selection.filters).map (·.verdict)) := by
  have hfails := Station.not_passes_filters.mpr h
  have hway : b.Chooses input .none .filtersFailed [.filters] := .filtersFailed hfails
  obtain ⟨hchoice, hground, hgroups⟩ := hway.select
  have hrules : (Station.filters.rules b).isEmpty = false := by
    obtain ⟨l, hl, -⟩ := h
    rw [List.isEmpty_eq_false_iff]
    intro hnone
    have hfilters : b.selection.filters = [] := hnone
    rw [hfilters] at hl
    cases hl
  have hkept : Weigh.visit b input [.filters] [] =
      [("filters_mandatory", ⟨false, b.evaluateList input.baseContext b.selection.filters⟩)] := by
    show Station.enter b input [] .filters = _
    rw [Station.enter, hrules, Station.record, Station.passes_eq_false b input hfails]
    rfl
  rw [hkept] at hgroups
  refine ⟨hchoice, hground, hgroups, ?_⟩
  rw [Decision.crash, hgroups]
  exact congrArg Verdict.firstCrash (List.append_nil _)

/-- Without filters no selection ends with them. -/
theorem Book.ground_of_noFilters (h : b.selection.filters = []) (input : SelectionInput) :
    (b.select input).ground ≠ .filtersFailed := by
  obtain ⟨choice, ground, way, hway⟩ := b.exists_chooses input
  rw [hway.select.2.1]
  rintro rfl
  cases hway with
  | filtersFailed hfails =>
    obtain ⟨l, hl, -⟩ := Station.not_passes_filters.mp hfails
    rw [h] at hl
    cases hl

namespace Pipeline

/-- **A report has no timeframe to enter on where a filter fails**, on what is known at the last step
and the side of the report. -/
theorem execution_of_filtersFail {σ : Type} {source : BarSource σ} {build : ContextBuilder}
    {options : RunOptions} {runId : RunId} {symbol : String} {w : World σ} {report : SignalReport}
    (h : (runSymbol (ruleProcessors source build) b options runId symbol w).1 = .ok report)
    (hfails : ∀ last c side, report.steps.getLast? = some last → last.context = some c →
      report.result.side = some side → b.FiltersFail (c.withFact "signal_side" (.text side.name))) :
    report.result.execution = none := by
  unfold runSymbol at h
  rcases hrun : (Run.begin symbol runId b options).complete (ruleProcessors source build) b options w
    with ⟨r, records, w'⟩
  simp only [hrun] at h
  have hfin := Run.complete_finished hrun
  by_cases hr : r.result.status = .ready
  · obtain ⟨hatt, last, hlast, -, hall, -, hside, -, -⟩ := hfin.of_ready hr
    have hmem := List.mem_of_getLast? hlast
    obtain ⟨c, hc⟩ := hatt.kept last hmem (hall last hmem).1
    -- the choice is made from the context of the last step and the side of the run
    have hready : r.result.isReady = true := by rw [SymbolResult.isReady, hr]; rfl
    obtain ⟨input, hinput, hbase⟩ : ∃ input, selectionInput? r r.result = some input ∧
        input.baseContext = c.withFact "signal_side" (.text last.side.name) :=
      ⟨_, by simp [selectionInput?, hready, hside, hlast, hc]; rfl, rfl⟩
    unfold Pipeline.report at h
    simp only [hinput, Option.map_some] at h
    split at h
    · cases h
    · cases h
      have hfail := hfails last c last.side hlast hc hside
      rw [← hbase] at hfail
      show (b.select input).choice.timeframe? = none
      rw [(Book.select_of_filtersFail hfail).1]
      rfl
  · obtain ⟨-, hresult⟩ := report_of_not_ready h hr
    rw [hresult]
    exact (hfin.of_not_ready hr).1

end Pipeline

/-! ### Filters at the top -/

/-- **Filters at the top of a configuration that is loaded.** They can be read. If the section of the
choice does not have the key, the filters of the book spell them one by one; and where one of them is
decided and has failed, no selection chooses a timeframe and no report has one to enter on. If the
section has the key with no value, the book has no filters, and no selection ends with them. -/
theorem Book.load_filters {report : Report} {items : List Json}
    (h : load base (.obj root) = .ok (b, report))
    (htop : root.lookup "filters_mandatory" = some (.arr items)) (hitems : items ≠ []) :
    ∃ rules rs, parseNamed (ruleBodies root) = .ok rules ∧
      Rule.parseList [.key "filters_mandatory"] (.arr items) = .ok rs ∧ rs.length = items.length ∧
      (((Json.obj root).fieldsAt [.key selectorKey]).lookup "filters_mandatory" = none →
        b.selection.filters ≠ [] ∧
        SpellsAll ⟨b.registry, b.nodes, b.named⟩ rules [.key "filters_mandatory"] 0 rs
          b.selection.filters ∧
        (∀ input : SelectionInput, b.FiltersFail input.baseContext →
          (b.select input).choice = .none ∧ (b.select input).ground = .filtersFailed ∧
          (b.select input).groups =
            [("filters_mandatory", ⟨false, b.evaluateList input.baseContext b.selection.filters⟩)] ∧
          (b.select input).crash = Verdict.firstCrash
            ((b.evaluateList input.baseContext b.selection.filters).map (·.verdict))) ∧
        ∀ (σ : Type) (source : BarSource σ) build options runId symbol w report,
          (Pipeline.runSymbol (ruleProcessors source build) b options runId symbol w).1 =
            .ok report →
          (∀ last c side, report.steps.getLast? = some last → last.context = some c →
            report.result.side = some side →
            b.FiltersFail (c.withFact "signal_side" (.text side.name))) →
          report.result.execution = none) ∧
      (((Json.obj root).fieldsAt [.key selectorKey]).lookup "filters_mandatory" = some .null →
        b.selection.filters = [] ∧ ∀ input, (b.select input).ground ≠ .filtersFailed) := by
  obtain ⟨hcompile, hclean⟩ := load_eq_ok h
  obtain ⟨rs, hparsed⟩ := exists_filters_of_review hclean htop
  have hlength : rs.length = items.length := Rule.length_of_parseItems hparsed
  obtain ⟨rules, counted, hrules, hcounted, hspells⟩ := compile_filters hcompile
  refine ⟨rules, rs, hrules, hparsed, hlength, fun hown => ?_, fun hown => ?_⟩
  · have hplace : filtersPlace root = [.key "filters_mandatory"] := by
      rw [filtersPlace, Table.has, hown]
      rfl
    have htop' : (Json.obj root).at? [.key "filters_mandatory"] = some (.arr items) := by
      rw [← htop]
      exact Json.at?_key (.obj root) [] "filters_mandatory"
    rw [hplace] at hcounted hspells
    rw [rulesAt, htop'] at hcounted
    obtain rfl : rs = counted := Except.ok.inj (hparsed.symm.trans (toOption_eq_some.mp hcounted))
    refine ⟨?_, hspells, fun input hfails => select_of_filtersFail hfails, ?_⟩
    · rw [← List.length_pos_iff, hspells.1, hlength, List.length_pos_iff]
      exact hitems
    · intro σ source build options runId symbol w report hreport hfails
      exact Pipeline.execution_of_filtersFail hreport hfails
  · have hplace : filtersPlace root = [.key selectorKey, .key "filters_mandatory"] := by
      rw [filtersPlace, Table.has, hown]
      rfl
    have hnull : (Json.obj root).at? [.key selectorKey, .key "filters_mandatory"] = some .null := by
      rw [← hown]
      exact Json.at?_key (.obj root) [.key selectorKey] "filters_mandatory"
    rw [hplace] at hcounted hspells
    rw [rulesAt, hnull] at hcounted
    cases hcounted
    have hnone : b.selection.filters = [] := List.length_eq_zero_iff.mp hspells.1
    exact ⟨hnone, ground_of_noFilters hnone⟩

/-! ### A list that is lost -/

/-- One filter at the top, and a section of the choice. -/
def filterAtTop (selector : Table Json) : Table Json :=
  [(selectorKey, .obj selector), ("filters_mandatory", .arr [.str "rsi_bullish"]),
    ("validation", .obj [("timeframe", .obj [])])]

/-- A signal for buying, and an index that the filter refuses. -/
def weakIndex : SelectionInput :=
  ⟨.long, .ofFacts "BTCUSDT" .h1 [("rsi", .number 10.0)], ByTimeframe.empty⟩

/-- The filters fail, as far as some steps of the traversal show. -/
theorem Book.filtersFail_of_within {n : Nat} {c : Context}
    (h : (b.evaluateListWithin n c b.selection.filters).map
      (·.any fun l => !l.verdict.missing && !l.verdict.passed) = some true) : b.FiltersFail c := by
  obtain ⟨ls, hls, hany⟩ := Option.map_eq_some_iff.mp h
  obtain ⟨l, hl, hfails⟩ := List.any_eq_true.mp hany
  rw [Bool.and_eq_true, Bool.not_eq_true', Bool.not_eq_true'] at hfails
  refine ⟨l, ?_, hfails⟩
  rwa [evaluateList_of_within hls]

/-- Without the key in the section, the filter at the top is kept, and fails. -/
theorem exists_filterAtTop : ∃ b report,
    Book.load .builtin (.obj (filterAtTop [])) = .ok (b, report) ∧
    b.FiltersFail weakIndex.baseContext := by
  have hrun : ((Book.load .builtin (.obj (filterAtTop []))).toOption.map fun (b, _) =>
      (b.evaluateListWithin 2 weakIndex.baseContext b.selection.filters).map
        (·.any fun l => !l.verdict.missing && !l.verdict.passed)) = some (some true) := by
    decide +kernel
  obtain ⟨⟨b, report⟩, hb, hrun⟩ := Option.map_eq_some_iff.mp hrun
  exact ⟨b, report, toOption_eq_some.mp hb, Book.filtersFail_of_within hrun⟩

/-- So no timeframe is chosen. -/
theorem Book.load_filters_kept : ∃ b report,
    Book.load .builtin (.obj (filterAtTop [])) = .ok (b, report) ∧
    b.FiltersFail weakIndex.baseContext ∧ b.selection.filters ≠ [] ∧
    (b.select weakIndex).choice = .none ∧ (b.select weakIndex).ground = .filtersFailed := by
  obtain ⟨b, report, hload, hfails⟩ := exists_filterAtTop
  obtain ⟨rules, rs, -, -, -, hkept, -⟩ :=
    Book.load_filters hload rfl (List.cons_ne_nil (Json.str "rsi_bullish") [])
  obtain ⟨hfilters, -, hselect, -⟩ := hkept rfl
  obtain ⟨hchoice, hground, -, -⟩ := hselect weakIndex hfails
  exact ⟨b, report, hload, hfails, hfilters, hchoice, hground⟩

/-- **With the key and no value in the section, the filter is lost**: the configuration is loaded all
the same, and a timeframe is chosen where the filter fails. -/
theorem Book.load_filters_lost : ∃ b report b' report',
    Book.load .builtin (.obj (filterAtTop [])) = .ok (b, report) ∧
    Book.load .builtin (.obj (filterAtTop [("filters_mandatory", .null)])) = .ok (b', report') ∧
    b.FiltersFail weakIndex.baseContext ∧ b'.selection.filters = [] ∧
    (b'.select weakIndex).choice = .m5 ∧ (b'.select weakIndex).ground = .noRules := by
  have hrun : ((Book.load .builtin (.obj (filterAtTop [("filters_mandatory", .null)]))).toOption.map
      fun (b, _) => (b.selection.filters, (b.select weakIndex).choice,
        (b.select weakIndex).ground)) = some ([], .m5, .noRules) := by
    decide +kernel
  obtain ⟨⟨b', report'⟩, hb', hrun⟩ := Option.map_eq_some_iff.mp hrun
  simp only [Prod.mk.injEq] at hrun
  obtain ⟨b, report, hload, hfails⟩ := exists_filterAtTop
  exact ⟨b, report, b', report', hload, toOption_eq_some.mp hb', hfails, hrun⟩

end TopDown
